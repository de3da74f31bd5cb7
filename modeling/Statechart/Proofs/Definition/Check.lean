import Statechart.Proofs.Definition.Search
import Statechart.Proofs.Definition.Soundness

/-! # What the checks of a definition find

There are two checks. One finds what is wrong with a definition; it comes to an end if all searches
for targets do. The other one finds the targets that are no states of their own level. Nothing
stands against a definition as a hierarchy exactly if neither finds anything.

* `Definition.isSome_problemsIn_iff`: when the check of a level comes to an end.
* **`Definition.exists_problems`**: the check comes to an end, unless the delimiter is empty.
* `Definition.crossing?_eq_none_iff`: a target stays on a level if the level declares it.
* **`Definition.hierarchyProblems_eq_nil_iff`**: when nothing stands against a hierarchy. -/

namespace Statechart

variable {index : PathIndex} {scope : Option String} {delimiter : String} {d level : Definition}

namespace Definition

/-! ## The check comes to an end -/

/-- **The searches for all targets of `level` from `scope` end** (`LocateEnds`). -/
def SearchesEnd (index : PathIndex) (scope : Option String) (level : Definition) : Prop :=
  ∀ t ∈ level.transitions, ∀ name, t.target = .key name → index.LocateEnds scope name

/-- `SearchesEnd` unless the delimiter is empty. -/
theorem searchesEnd_of_ne_empty (hdelimiter : index.delimiter ≠ "") (scope : Option String)
    (level : Definition) : level.SearchesEnd index scope :=
  fun _ _ _ _ => PathIndex.locateEnds_iff.2 fun hempty => absurd hempty hdelimiter

/-- `targetProblems` ends exactly if the search for the target does. -/
theorem isSome_targetProblems_iff (source : String) {t : TransitionDef} :
    (targetProblems index scope source t).isSome = true ↔
      ∀ name, t.target = .key name → index.LocateEnds scope name := by
  cases htarget : t.target with
  | choose pick => simp [targetProblems, htarget]
  | key name =>
    have hendless :
        index.tryResolve scope name ≠ .error .endless ↔ index.LocateEnds scope name := by
      rw [ne_eq, PathIndex.tryResolve_eq_endless_iff, not_not]
    simp only [targetProblems, htarget, Target.key.injEq, forall_eq', ← hendless]
    cases index.tryResolve scope name with
    | ok path => simp
    | error reason => cases reason <;> simp

/-- `transitionProblems` ends exactly if the searches for all targets do. -/
theorem isSome_transitionProblems_iff (definition : Definition) {transitions : List TransitionDef}
    (earlier : List (String × EventKey)) :
    (transitionProblems index scope definition earlier transitions).isSome = true ↔
      ∀ t ∈ transitions, ∀ name, t.target = .key name → index.LocateEnds scope name := by
  induction transitions generalizing earlier with
  | nil => simp [transitionProblems]
  | cons t rest ih =>
    rw [List.forall_mem_cons, ← ih ((t.source, t.event) :: earlier),
      ← isSome_targetProblems_iff (Path.join index.delimiter scope t.source)]
    simp only [transitionProblems, Option.bind_eq_bind, Option.pure_def]
    cases targetProblems index scope (Path.join index.delimiter scope t.source) t <;>
      cases transitionProblems index scope definition ((t.source, t.event) :: earlier) rest <;> simp

/-- `statesProblems` ends exactly if `stateProblems` does, for each of `states`. -/
theorem isSome_statesProblems_iff {states : List (String × StateDef)} (earlier : List String) :
    (statesProblems index scope earlier states).isSome = true ↔ ∀ entry ∈ states,
      (stateProblems index (Path.join index.delimiter scope entry.1) entry.2).isSome = true := by
  induction states generalizing earlier with
  | nil => simp [statesProblems]
  | cons entry rest ih =>
    rw [List.forall_mem_cons, ← ih (entry.1 :: earlier)]
    simp only [statesProblems, Option.bind_eq_bind, Option.pure_def]
    cases stateProblems index (Path.join index.delimiter scope entry.1) entry.2 <;>
      cases statesProblems index scope (entry.1 :: earlier) rest <;> simp

/-- **`problemsIn` ends exactly if `stateProblems` does, for each state, and `SearchesEnd`
holds.** -/
theorem isSome_problemsIn_iff : (problemsIn index scope level).isSome = true ↔
    (∀ entry ∈ level.states,
      (stateProblems index (Path.join index.delimiter scope entry.1) entry.2).isSome = true) ∧
    level.SearchesEnd index scope := by
  rw [SearchesEnd, ← isSome_statesProblems_iff [],
    ← isSome_transitionProblems_iff level []]
  obtain ⟨states, transitions, initial?, issues⟩ := level
  simp only [problemsIn, Option.bind_eq_bind, Option.pure_def]
  cases statesProblems index scope [] states <;>
    cases transitionProblems index scope ⟨states, transitions, initial?, issues⟩ [] transitions <;>
      simp

/-- `stateProblems` ends unless the delimiter is empty, by induction on `state`. -/
theorem isSome_stateProblems (hdelimiter : index.delimiter ≠ "") (state : StateDef) :
    ∀ path, (stateProblems index path state).isSome = true := by
  induction state using StateDef.inside_induction with
  | leaf l => exact fun _ => rfl
  | composite inner ih =>
    intro path
    unfold stateProblems
    split
    · rfl
    · exact isSome_problemsIn_iff.2
        ⟨fun entry hentry => ih entry hentry _, searchesEnd_of_ne_empty hdelimiter _ inner⟩

/-- **`d.problems` ends unless the delimiter is empty.** -/
theorem exists_problems (hdelimiter : delimiter ≠ "") (d : Definition) :
    ∃ problems, d.problems delimiter = some problems := by
  have hindex : (PathIndex.ofDefinition delimiter d).delimiter ≠ "" := hdelimiter
  exact Option.isSome_iff_exists.1 (isSome_problemsIn_iff.2
    ⟨fun entry _ => isSome_stateProblems hindex entry.2 _, searchesEnd_of_ne_empty hindex none d⟩)

/-- `d.hierarchyProblems` ends unless the delimiter is empty. -/
theorem exists_hierarchyProblems (hdelimiter : delimiter ≠ "") (d : Definition) :
    ∃ problems, d.hierarchyProblems delimiter = some problems := by
  obtain ⟨problems, hproblems⟩ := exists_problems hdelimiter d
  rw [hierarchyProblems, hproblems]
  exact ⟨_, rfl⟩

/-! ## Targets across levels -/

/-- **`crossing?` is `none` exactly if the target is declared on `level`**, or if it depends on the
event. -/
theorem crossing?_eq_none_iff (hlevel : level.IsOrderly delimiter) {t : TransitionDef} :
    crossing? delimiter scope level t = none ↔
      ∀ name, t.target = .key name → level.declares name = true := by
  cases hleads : t.target with
  | choose pick =>
    rw [crossing?, hleads]
    exact iff_of_true rfl (by simp)
  | key name =>
    rw [crossing?, hleads, Target.key?, Option.bind_some]
    constructor
    · rintro hnone _ ⟨⟩
      by_contra hdeclares
      simp [hdeclares] at hnone
    · intro hdeclares
      have hdeclares := hdeclares name rfl
      -- A declared key does not start like a way out of a scope.
      have hmark : name.toList.head? ≠ some escapeMark := by
        obtain ⟨state, hstate⟩ := Option.isSome_iff_exists.1 hdeclares
        exact (hlevel.plain name (List.mem_map_of_mem (mem_of_state? hstate))).2.1
      simp [hdeclares, hmark]

/-- `crossingsOfStates` is empty if `crossingsOfState` is, for each of `states`. -/
theorem crossingsOfStates_eq_nil {states : List (String × StateDef)}
    (inside : ∀ entry ∈ states, ∀ path, crossingsOfState delimiter path entry.2 = []) :
    crossingsOfStates delimiter scope states = [] := by
  induction states with
  | nil => rfl
  | cons entry rest ih =>
    rw [crossingsOfStates, inside entry List.mem_cons_self, List.nil_append]
    exact ih fun entry hentry => inside entry (List.mem_cons_of_mem _ hentry)

/-- `crossingsIn` of a sound level is empty if `crossingsOfState` is, for each state. -/
theorem IsSound.crossingsIn_eq_nil (h : level.IsSound delimiter)
    (inside : ∀ entry ∈ level.states, ∀ path, crossingsOfState delimiter path entry.2 = []) :
    crossingsIn delimiter scope level = [] := by
  obtain ⟨states, transitions, initial?, issues⟩ := level
  rw [crossingsIn, crossingsOfStates_eq_nil inside, List.append_nil, List.filterMap_eq_nil_iff]
  exact fun t ht => (crossing?_eq_none_iff h.toIsOrderly).2 (h.target t ht)

/-- **`d.crossings` is empty if `d` is sound.** -/
theorem Sound.crossings_eq_nil (hd : d.Sound delimiter) : d.crossings delimiter = [] := by
  have hinside : ∀ (state : StateDef), (∀ level ∈ state.levels, level.IsSound delimiter) →
      ∀ path, crossingsOfState delimiter path state = [] := by
    intro state
    induction state using StateDef.inside_induction with
    | leaf l => exact fun _ _ => rfl
    | composite inner ih =>
      intro hlevels path
      rw [StateDef.levels] at hlevels
      refine (hlevels inner inner.mem_levels_self).crossingsIn_eq_nil fun entry hentry => ?_
      exact ih entry hentry fun level hlevel => hlevels level (mem_levels_of_state hentry hlevel)
  refine (hd d d.mem_levels_self).crossingsIn_eq_nil fun entry hentry => ?_
  exact hinside entry.2 fun level hlevel => hd level (mem_levels_of_state hentry hlevel)

/-- **`d.hierarchyProblems` is empty exactly if `d.problems` is and every target that is named is
declared on the level of its transition.** -/
theorem hierarchyProblems_eq_nil_iff :
    d.hierarchyProblems delimiter = some [] ↔ d.problems delimiter = some [] ∧
      ∀ level ∈ d.levels, ∀ t ∈ level.transitions, ∀ name, t.target = .key name →
        level.declares name = true := by
  constructor
  · intro h
    obtain ⟨problems, hproblems, hrest⟩ := Option.map_eq_some_iff.1 h
    cases problems with
    | cons problem problems => cases hrest
    | nil =>
      exact ⟨hproblems, fun level hlevel => (sound_of_hierarchyProblems h level hlevel).target⟩
  · rintro ⟨hproblems, htargets⟩
    have hd : d.Sound delimiter := fun level hlevel =>
      ⟨orderly_of_problems hproblems level hlevel, htargets level hlevel⟩
    rw [hierarchyProblems, hproblems, Option.map_some, hd.crossings_eq_nil]

end Definition

end Statechart
