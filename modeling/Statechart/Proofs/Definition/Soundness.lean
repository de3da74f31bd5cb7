import Mathlib.Data.List.Nodup
import Statechart.Definition.Hierarchy
import Statechart.Proofs.Definition.Levels

/-! # Definitions without problems

A check that finds no problem vouches for every level of a definition at once.

* **`Definition.IsOrderly`**: one level has an initial state, and its states and transitions can be
  told apart. `Definition.IsSound`: its transitions moreover stay on the level.
* `Definition.Orderly`, `Definition.Sound`: every level is.
* `Definition.IsLiteral`: no target depends on the event.
* **`Definition.orderly_of_problems`**: a definition without problems is orderly.
* **`Definition.sound_of_hierarchyProblems`**: a definition against which nothing stands as a
  hierarchy is sound.
* `Definition.Sound.enters`: what is entered with a sound definition ends in a leaf. -/

namespace Statechart

/-- `key` is not empty, does not start with `escapeMark`, and does not contain `delimiter`. -/
def IsPlainKey (delimiter key : String) : Prop :=
  key ≠ "" ∧ key.toList.head? ≠ some escapeMark ∧ Path.isQualified delimiter key = false

namespace Definition

/-- **`level` is orderly**: it has an initial state, its states have different plain keys, and its
transitions start in them, not twice for one event. -/
structure IsOrderly (delimiter : String) (level : Definition) : Prop where
  initial : ∃ key, level.initial? = some key ∧ level.declares key = true
  nodup : (level.states.map Prod.fst).Nodup
  plain : ∀ key ∈ level.states.map Prod.fst, IsPlainKey delimiter key
  source : ∀ t ∈ level.transitions, level.declares t.source = true
  distinct : (level.transitions.map fun t => (t.source, t.event)).Nodup

/-- **`level` is sound**: it is orderly, and its transitions lead to states of its own. -/
structure IsSound (delimiter : String) (level : Definition) : Prop
    extends level.IsOrderly delimiter where
  target : ∀ t ∈ level.transitions, ∀ name, t.target = .key name → level.declares name = true

/-- **`IsOrderly` holds of all `d.levels`.** -/
def Orderly (delimiter : String) (d : Definition) : Prop :=
  ∀ level ∈ d.levels, level.IsOrderly delimiter

/-- **`IsSound` holds of all `d.levels`.** -/
def Sound (delimiter : String) (d : Definition) : Prop :=
  ∀ level ∈ d.levels, level.IsSound delimiter

/-- `Sound` gives `Orderly`. -/
theorem Sound.orderly {delimiter : String} {d : Definition} (h : d.Sound delimiter) :
    d.Orderly delimiter :=
  fun level hlevel => (h level hlevel).toIsOrderly

/-- **No target of `d` is a `.choose`.** -/
def IsLiteral (d : Definition) : Prop :=
  ∀ level ∈ d.levels, ∀ t ∈ level.transitions, t.target.key?.isSome = true

instance (d : Definition) : Decidable d.IsLiteral :=
  inferInstanceAs
    (Decidable (∀ level ∈ d.levels, ∀ t ∈ level.transitions, t.target.key?.isSome = true))

/-- Every target of a literal definition is a `.key`. -/
theorem IsLiteral.exists_name {d level : Definition} {t : TransitionDef} (h : d.IsLiteral)
    (hlevel : level ∈ d.levels) (ht : t ∈ level.transitions) : ∃ name, t.target = .key name := by
  have hsome := h level hlevel t ht
  cases hname : t.target with
  | key name => exact ⟨name, rfl⟩
  | choose pick =>
    rw [hname] at hsome
    cases hsome

/-! ## From no problems to soundness -/

section Problems

variable {index : PathIndex} {scope : Option String}

/-- The keys of `states` are plain and new, and `stateProblems` is empty, if `statesProblems` is. -/
theorem plain_of_statesProblems {earlier : List String} {states : List (String × StateDef)}
    (h : statesProblems index scope earlier states = some []) :
    (∀ key ∈ states.map Prod.fst, IsPlainKey index.delimiter key ∧ key ∉ earlier) ∧
      (states.map Prod.fst).Nodup ∧
      ∀ entry ∈ states,
        stateProblems index (Path.join index.delimiter scope entry.1) entry.2 = some [] := by
  induction states generalizing earlier with
  | nil => simp
  | cons first rest ih =>
    obtain ⟨key, state⟩ := first
    simp only [statesProblems, Option.bind_eq_bind, Option.bind_eq_some_iff, Option.pure_def,
      Option.some.injEq, List.append_eq_nil_iff] at h
    obtain ⟨inside, hinside, others, hothers, ⟨hkey, rfl⟩, rfl⟩ := h
    obtain ⟨hkeys, hnodup, hstates⟩ := ih hothers
    -- There are three problems that a key of its own can have, and one that it has with others.
    have hplain : IsPlainKey index.delimiter key ∧ key ∉ earlier := by
      simp only [keyProblems, List.append_eq_nil_iff, ite_eq_right_iff, reduceCtorEq,
        imp_false, Bool.or_eq_true, not_or, Bool.not_eq_true] at hkey
      obtain ⟨hearlier, ⟨hempty, hhead⟩, hqualified⟩ := hkey
      refine ⟨⟨fun hnil => ?_, fun hmark => ?_, hqualified⟩, hearlier⟩
      · rw [hnil] at hempty
        cases hempty
      · rw [hmark] at hhead
        simp at hhead
    refine ⟨?_, ?_, ?_⟩
    · intro other hother
      rw [List.map_cons, List.mem_cons] at hother
      rcases hother with rfl | hother
      · exact hplain
      · obtain ⟨hp, hn⟩ := hkeys other hother
        exact ⟨hp, fun he => hn (List.mem_cons_of_mem _ he)⟩
    · rw [List.map_cons, List.nodup_cons]
      exact ⟨fun hmem => (hkeys key hmem).2 List.mem_cons_self, hnodup⟩
    · intro entry hentry
      rcases List.mem_cons.1 hentry with rfl | hentry
      · exact hinside
      · exact hstates entry hentry

/-- The sources of `transitions` are declared, and no two of them, nor one of them and an `earlier`
one, are for one state and one event, if `transitionProblems` is empty. -/
theorem distinct_of_transitionProblems {definition : Definition}
    {earlier : List (String × EventKey)} {transitions : List TransitionDef}
    (h : transitionProblems index scope definition earlier transitions = some []) :
    (∀ t ∈ transitions, definition.declares t.source = true ∧ (t.source, t.event) ∉ earlier) ∧
      (transitions.map fun t => (t.source, t.event)).Nodup := by
  induction transitions generalizing earlier with
  | nil => simp
  | cons t rest ih =>
    simp only [transitionProblems, Option.bind_eq_bind, Option.bind_eq_some_iff, Option.pure_def,
      Option.some.injEq, List.append_eq_nil_iff] at h
    obtain ⟨unresolved, -, others, hothers, ⟨⟨hunknown, hrepeated⟩, -⟩, rfl⟩ := h
    obtain ⟨hrest, hnodup⟩ := ih hothers
    -- None of what could be reported of the first transition is.
    have ht : definition.declares t.source = true ∧ (t.source, t.event) ∉ earlier := by
      constructor
      · simpa using hunknown
      · simpa using hrepeated
    refine ⟨?_, ?_⟩
    · intro other hother
      rcases List.mem_cons.1 hother with rfl | hother
      · exact ht
      · obtain ⟨hd, hn⟩ := hrest other hother
        exact ⟨hd, fun he => hn (List.mem_cons_of_mem _ he)⟩
    · rw [List.map_cons, List.nodup_cons]
      refine ⟨fun hmem => ?_, hnodup⟩
      obtain ⟨other, hother, he⟩ := List.mem_map.1 hmem
      exact (hrest other hother).2 (he ▸ List.mem_cons_self)

/-- The parts of `problemsIn` that is empty. -/
theorem level_of_problemsIn {d : Definition} (h : problemsIn index scope d = some []) :
    (∃ key, d.initial? = some key ∧ d.declares key = true) ∧
      statesProblems index scope [] d.states = some [] ∧
      transitionProblems index scope d [] d.transitions = some [] := by
  obtain ⟨states, transitions, initial?, issues⟩ := d
  simp only [problemsIn, Option.bind_eq_bind, Option.bind_eq_some_iff, Option.pure_def,
    Option.some.injEq, List.append_eq_nil_iff] at h
  obtain ⟨inStates, hstates, inTransitions, htransitions, ⟨⟨hinitial, rfl⟩, -⟩, rfl⟩ := h
  refine ⟨?_, hstates, htransitions⟩
  cases initial? with
  | none => simp [initialProblems] at hinitial
  | some key =>
    refine ⟨key, rfl, ?_⟩
    simpa [initialProblems] using hinitial

/-- Targets are declared on their level if `crossingsIn` is empty. -/
theorem target_of_crossingsIn {delimiter : String} {d : Definition}
    (h : crossingsIn delimiter scope d = []) :
    (∀ t ∈ d.transitions, ∀ name, t.target = .key name → d.declares name = true) ∧
      crossingsOfStates delimiter scope d.states = [] := by
  obtain ⟨states, transitions, initial?, issues⟩ := d
  rw [crossingsIn, List.append_eq_nil_iff, List.filterMap_eq_nil_iff] at h
  refine ⟨fun t ht name hname => ?_, h.2⟩
  have hcrossing := h.1 t ht
  rw [crossing?, hname] at hcrossing
  simp only [Target.key?, Option.bind_some, ite_eq_right_iff, reduceCtorEq, imp_false,
    Bool.or_eq_true, not_or, Bool.not_eq_true, Bool.not_eq_false'] at hcrossing
  simpa using hcrossing.2

/-- `crossingsOfState` is empty if `crossingsOfStates` is. -/
theorem crossingsOfState_of_states {delimiter : String} {states : List (String × StateDef)}
    (h : crossingsOfStates delimiter scope states = []) {entry : String × StateDef}
    (he : entry ∈ states) :
    crossingsOfState delimiter (Path.join delimiter scope entry.1) entry.2 = [] := by
  induction states with
  | nil => cases he
  | cons first rest ih =>
    obtain ⟨key, state⟩ := first
    rw [crossingsOfStates, List.append_eq_nil_iff] at h
    rcases List.mem_cons.1 he with rfl | he
    · exact h.1
    · exact ih h.2 he

end Problems

/-- `IsOrderly` if `problemsIn` is empty. -/
theorem isOrderly_of_problemsIn {index : PathIndex} {scope : Option String} {d : Definition}
    (h : problemsIn index scope d = some []) : d.IsOrderly index.delimiter := by
  obtain ⟨hinitial, hstates, htransitions⟩ := level_of_problemsIn h
  obtain ⟨hkeys, hnodup, -⟩ := plain_of_statesProblems hstates
  obtain ⟨hsource, hdistinct⟩ := distinct_of_transitionProblems htransitions
  exact ⟨hinitial, hnodup, fun key hkey => (hkeys key hkey).1, fun t ht => (hsource t ht).1,
    hdistinct⟩

/-- `problemsIn` of a composite is empty if that of its level is. -/
theorem problemsIn_of_composite {index : PathIndex} {scope : Option String} {d inner : Definition}
    {entry : String × StateDef} (h : problemsIn index scope d = some []) (he : entry ∈ d.states)
    (hinner : entry.2 = .composite inner) :
    problemsIn index (some (Path.join index.delimiter scope entry.1)) inner = some [] := by
  obtain ⟨-, hstates, -⟩ := level_of_problemsIn h
  obtain ⟨-, -, hinside⟩ := plain_of_statesProblems hstates
  have hstate := hinside entry he
  rw [hinner, stateProblems] at hstate
  split at hstate
  · cases hstate
  · exact hstate

/-- **`d` is orderly if `d.problems` is empty.** -/
theorem orderly_of_problems {delimiter : String} {d : Definition}
    (h : d.problems delimiter = some []) : d.Orderly delimiter := by
  intro level hlevel
  have hproblems := levels_induction
    (P := fun level => ∃ scope, problemsIn (.ofDefinition delimiter d) scope level = some [])
    (fun _ ⟨_, hlevel⟩ _ hentry _ hinner => ⟨_, problemsIn_of_composite hlevel hentry hinner⟩)
    ⟨none, h⟩ level hlevel
  obtain ⟨_, hproblems⟩ := hproblems
  exact isOrderly_of_problemsIn hproblems

/-- **`d` is sound if `d.hierarchyProblems` is empty.** -/
theorem sound_of_hierarchyProblems {delimiter : String} {d : Definition}
    (h : d.hierarchyProblems delimiter = some []) : d.Sound delimiter := by
  obtain ⟨problems, hproblems, hrest⟩ := Option.map_eq_some_iff.1 h
  cases problems with
  | cons problem problems => cases hrest
  | nil =>
    intro level hlevel
    have hcrossings := levels_induction
      (P := fun level => ∃ scope, crossingsIn delimiter scope level = [])
      (fun _ ⟨_, hlevel⟩ _ hentry inner hinner => by
        have hinside := crossingsOfState_of_states (target_of_crossingsIn hlevel).2 hentry
        rw [hinner, crossingsOfState] at hinside
        exact ⟨_, hinside⟩)
      ⟨none, hrest⟩ level hlevel
    obtain ⟨_, hcrossings⟩ := hcrossings
    exact ⟨orderly_of_problems hproblems level hlevel, (target_of_crossingsIn hcrossings).1⟩

section LookUp

variable {delimiter : String} {level : Definition} {key : String} {event : EventKey}

/-! ## Looking things up on a level -/

/-- `level.state?` finds the members of `level.states`. -/
theorem IsOrderly.state?_of_mem (h : level.IsOrderly delimiter) {state : StateDef}
    (hmem : (key, state) ∈ level.states) : level.state? key = some state := by
  cases hstate : level.state? key with
  | none =>
    rw [state?, List.lookup_eq_none_iff] at hstate
    have hne := hstate (key, state) hmem
    simp at hne
  | some other =>
    have heq := List.inj_on_of_nodup_map h.nodup hmem (mem_of_state? hstate) rfl
    rw [Prod.mk.injEq] at heq
    rw [heq.2]

/-- `level.transition?` finds the members of `level.transitions`. -/
theorem IsOrderly.transition?_eq_some_iff (h : level.IsOrderly delimiter) {t : TransitionDef} :
    level.transition? key event = some t ↔
      t ∈ level.transitions ∧ t.source = key ∧ t.event = event := by
  rw [transition?]
  constructor
  · intro hfind
    have hkeys := List.find?_some hfind
    simp only [Bool.and_eq_true, beq_iff_eq] at hkeys
    exact ⟨List.mem_of_find?_eq_some hfind, hkeys⟩
  · rintro ⟨hmem, rfl, rfl⟩
    cases hfind : level.transitions.find? fun u => u.source == t.source && u.event == t.event with
    | none =>
      rw [List.find?_eq_none] at hfind
      have hne := hfind t hmem
      simp at hne
    | some u =>
      have hkeys := List.find?_some hfind
      simp only [Bool.and_eq_true, beq_iff_eq] at hkeys
      -- Another transition for the same state and event would be the same one.
      have heq := List.inj_on_of_nodup_map h.distinct (List.mem_of_find?_eq_some hfind) hmem
        (by rw [hkeys.1, hkeys.2])
      rw [heq]

/-- `level.goal?` is the name of a target, if it has one. -/
theorem IsSound.goal?_eq (h : level.IsSound delimiter) {t : TransitionDef} {name : String}
    {params : Params} (ht : level.transition? key event = some t) (hname : t.target = .key name) :
    level.goal? key event params = some name := by
  have hdeclared := h.target t (h.transition?_eq_some_iff.1 ht).1 name hname
  rw [goal?, ht, Option.bind_some, hname, Target.name?, Option.filter_some, if_pos hdeclared]

/-- `level.goal?` is the name of the target of a transition, if targets have names. -/
theorem IsSound.exists_of_goal? (h : level.IsSound delimiter) {name : String} {params : Params}
    (hname : ∀ t ∈ level.transitions, ∃ name, t.target = .key name)
    (hgoal : level.goal? key event params = some name) :
    ∃ t, level.transition? key event = some t ∧ t.target = .key name := by
  obtain ⟨t, ht, htarget⟩ := Option.bind_eq_some_iff.1 (Option.filter_eq_some_iff.1 hgoal).1
  obtain ⟨name', hname'⟩ := hname t (h.transition?_eq_some_iff.1 ht).1
  rw [hname'] at htarget
  cases htarget
  exact ⟨t, ht, hname'⟩

end LookUp

/-! ## What lies in a definition -/

/-- `d.level?` is orderly. -/
theorem Orderly.level? {delimiter : String} {d level : Definition} {keys : List String}
    (h : d.Orderly delimiter) (hlevel : d.level? keys = some level) : level.IsOrderly delimiter :=
  h level (mem_levels_of_level? hlevel)

/-- `d.level?` is sound. -/
theorem Sound.level? {delimiter : String} {d level : Definition} {keys : List String}
    (h : d.Sound delimiter) (hlevel : d.level? keys = some level) : level.IsSound delimiter :=
  h level (mem_levels_of_level? hlevel)

/-- The levels inside a state of `d.level?` are orderly. -/
theorem Orderly.inside {delimiter : String} {d level : Definition} {keys : List String}
    {key : String} {state : StateDef} (h : d.Orderly delimiter)
    (hlevel : d.level? keys = some level)
    (hstate : level.state? key = some state) : ∀ inner ∈ state.levels, inner.IsOrderly delimiter :=
  fun inner hinner => h inner (StateDef.levels_of_at? ((at?_concat hlevel).trans hstate) hinner)

/-- The levels inside a state of `d.level?` are sound. -/
theorem Sound.inside {delimiter : String} {d level : Definition} {keys : List String}
    {key : String} {state : StateDef} (h : d.Sound delimiter) (hlevel : d.level? keys = some level)
    (hstate : level.state? key = some state) : ∀ inner ∈ state.levels, inner.IsSound delimiter :=
  fun inner hinner => h inner (StateDef.levels_of_at? ((at?_concat hlevel).trans hstate) hinner)

/-- `state.innerKeys` lead to a leaf, by induction on `state`. -/
theorem exists_leaf_at?_innerKeys {delimiter : String} (state : StateDef)
    (h : ∀ level ∈ state.levels, level.IsOrderly delimiter) :
    ∃ leaf, state.at? state.innerKeys = some (.leaf leaf) := by
  induction state using StateDef.inside_induction with
  | leaf l => exact ⟨l, StateDef.at?_nil _⟩
  | composite inner ih =>
    rw [StateDef.levels] at h
    obtain ⟨key, hinitial, hdeclared⟩ := (h inner inner.mem_levels_self).initial
    obtain ⟨state, hstate⟩ := Option.isSome_iff_exists.1 hdeclared
    have hentry := mem_of_state? hstate
    obtain ⟨leaf, hleaf⟩ := ih (key, state) hentry fun level hlevel =>
      h level (mem_levels_of_state hentry hlevel)
    refine ⟨leaf, ?_⟩
    rw [StateDef.innerKeys, startKeys_of_initial hinitial, enteredKeys_of_state? hstate, at?_cons,
      hstate]
    exact hleaf

/-- **`d.startKeys` lead to a leaf.** -/
theorem Orderly.enters {delimiter : String} {d : Definition} (h : d.Orderly delimiter) :
    ∃ leaf, (StateDef.composite d).at? d.startKeys = some (.leaf leaf) :=
  exists_leaf_at?_innerKeys (.composite d) h

end Definition

end Statechart
