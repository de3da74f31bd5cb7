import Statechart.Definition

/-! # The levels of a nested definition

A nested definition has a level for every composite in it, and one for itself. A list of keys leads
from the outermost level inward, one composite with each key.

* `Definition.levels`: the definition and all those inside it; `Definition.depth`: how many
  composites lie around the innermost states.
* **`StateDef.at?`**, **`Definition.level?`**: the state and the level that a list of keys leads to.
* `Definition.startKeys`: the keys of the states that are entered together with a definition, from
  its initial state down to a leaf; `Definition.enteredKeys`: those that are entered with a state.
* `Definition.goal?`: the state that a level answers an event with.
* **`StateDef.inside_induction`**: what passes from the states inside a composite to the composite
  holds of every state. `Definition.levels_induction`: what passes from a level to the composites on
  it holds of every level. -/

namespace Statechart

/-! ## All levels -/

mutual

/-- **The levels of a definition**: itself, then those of its `states`. -/
def Definition.levels : Definition → List Definition
  | ⟨states, transitions, initial?, issues⟩ =>
    ⟨states, transitions, initial?, issues⟩ :: levelsOfStates states

/-- The levels inside a list of states. -/
def levelsOfStates : List (String × StateDef) → List Definition
  | [] => []
  | (_, state) :: rest => state.levels ++ levelsOfStates rest

/-- The levels inside a state. -/
def StateDef.levels : StateDef → List Definition
  | .leaf _ => []
  | .composite inner => inner.levels

end

mutual

/-- **How many composites are nested** in a definition. -/
def Definition.depth : Definition → Nat
  | ⟨states, _, _, _⟩ => depthOfStates states

/-- How many composites are nested in a list of states. -/
def depthOfStates : List (String × StateDef) → Nat
  | [] => 0
  | (_, state) :: rest => max state.depth (depthOfStates rest)

/-- How many composites are nested in a state, which may be the first of them. -/
def StateDef.depth : StateDef → Nat
  | .leaf _ => 0
  | .composite inner => inner.depth + 1

end

/-- `d` is one of `d.levels`. -/
theorem Definition.mem_levels_self (d : Definition) : d ∈ d.levels := by
  obtain ⟨states, transitions, initial?, issues⟩ := d
  rw [Definition.levels]
  exact List.mem_cons_self

/-- The levels of an entry of `states` are in `levelsOfStates`. -/
theorem mem_levelsOfStates {states : List (String × StateDef)} {entry : String × StateDef}
    {level : Definition} (he : entry ∈ states) (hl : level ∈ entry.2.levels) :
    level ∈ levelsOfStates states := by
  induction states with
  | nil => cases he
  | cons first rest ih =>
    obtain ⟨key, state⟩ := first
    rw [levelsOfStates, List.mem_append]
    rcases List.mem_cons.1 he with rfl | he
    · exact Or.inl hl
    · exact Or.inr (ih he)

/-- The members of `levelsOfStates` are levels of an entry of `states`. -/
theorem exists_of_mem_levelsOfStates {states : List (String × StateDef)} {level : Definition}
    (h : level ∈ levelsOfStates states) : ∃ entry ∈ states, level ∈ entry.2.levels := by
  induction states with
  | nil => cases h
  | cons first rest ih =>
    obtain ⟨key, state⟩ := first
    rw [levelsOfStates, List.mem_append] at h
    rcases h with h | h
    · exact ⟨(key, state), List.mem_cons_self, h⟩
    · obtain ⟨entry, hentry, hlevel⟩ := ih h
      exact ⟨entry, List.mem_cons_of_mem _ hentry, hlevel⟩

/-- The levels of an entry of `d.states` are in `d.levels`. -/
theorem Definition.mem_levels_of_state {d : Definition} {entry : String × StateDef}
    {level : Definition} (he : entry ∈ d.states) (hl : level ∈ entry.2.levels) :
    level ∈ d.levels := by
  obtain ⟨states, transitions, initial?, issues⟩ := d
  rw [Definition.levels]
  exact List.mem_cons_of_mem _ (mem_levelsOfStates he hl)

/-- The depth of an entry of `states` is at most `depthOfStates`. -/
theorem depth_le_depthOfStates {states : List (String × StateDef)} {entry : String × StateDef}
    (he : entry ∈ states) : entry.2.depth ≤ depthOfStates states := by
  induction states with
  | nil => cases he
  | cons first rest ih =>
    obtain ⟨key, state⟩ := first
    rw [depthOfStates]
    rcases List.mem_cons.1 he with rfl | he
    · exact Nat.le_max_left _ _
    · exact Nat.le_trans (ih he) (Nat.le_max_right _ _)

/-! ## Induction from the inside -/

/-- `d.state? key` is in `d.states`. -/
theorem Definition.mem_of_state? {d : Definition} {key : String} {state : StateDef}
    (h : d.state? key = some state) : (key, state) ∈ d.states := by
  obtain ⟨front, back, hsplit, -⟩ := List.lookup_eq_some_iff.1 h
  rw [hsplit]
  simp

/-- **Induction from the inside.** What holds of leaves, and of a composite if it holds of its
`states`, holds of every state. -/
theorem StateDef.inside_induction {P : StateDef → Prop} (leaf : ∀ leaf, P (.leaf leaf))
    (composite : ∀ inner : Definition, (∀ entry ∈ inner.states, P entry.2) → P (.composite inner)) :
    ∀ state : StateDef, P state
  | .leaf l => leaf l
  | .composite inner =>
    composite inner fun entry hentry =>
      -- States lie inside composites through a list of pairs, which structural recursion does not
      -- see through.
      have : sizeOf entry.2 < sizeOf inner := by
        have hlt := List.sizeOf_lt_of_mem hentry
        obtain ⟨states, transitions, initial?, issues⟩ := inner
        obtain ⟨key, state⟩ := entry
        simp only [Prod.mk.sizeOf_spec, Definition.mk.sizeOf_spec] at *
        omega
      StateDef.inside_induction leaf composite entry.2
termination_by state => sizeOf state
decreasing_by
  simp only [StateDef.composite.sizeOf_spec]
  omega

/-- What passes from a level to its composites holds of `state.levels`. -/
theorem StateDef.levels_induction {P : Definition → Prop}
    (step : ∀ level : Definition, P level → ∀ entry ∈ level.states,
      ∀ inner, entry.2 = .composite inner → P inner)
    (state : StateDef) (h : ∀ inner, state = .composite inner → P inner) :
    ∀ level ∈ state.levels, P level := by
  induction state using StateDef.inside_induction with
  | leaf l => intro level hlevel; cases hlevel
  | composite inner ih =>
    intro level hlevel
    have hinner := h inner rfl
    obtain ⟨states, transitions, initial?, issues⟩ := inner
    rw [StateDef.levels, Definition.levels] at hlevel
    rcases List.mem_cons.1 hlevel with rfl | hlevel
    · exact hinner
    · obtain ⟨entry, hentry, hlevel⟩ := exists_of_mem_levelsOfStates hlevel
      exact ih entry hentry (step _ hinner entry hentry) level hlevel

/-- **Induction from the outside.** What holds of `d`, and passes from a level to its composites,
holds of `d.levels`. -/
theorem Definition.levels_induction {P : Definition → Prop}
    (step : ∀ level : Definition, P level → ∀ entry ∈ level.states,
      ∀ inner, entry.2 = .composite inner → P inner)
    {d : Definition} (h : P d) : ∀ level ∈ d.levels, P level := by
  have hstate := StateDef.levels_induction step (.composite d) fun inner heq => by
    cases heq
    exact h
  rwa [StateDef.levels] at hstate

/-- The levels of one of `d.levels` are in `d.levels`. -/
theorem Definition.mem_levels_of_mem {d level inner : Definition} (hlevel : level ∈ d.levels)
    (hinner : inner ∈ level.levels) : inner ∈ d.levels := by
  refine levels_induction (P := fun level => ∀ inner ∈ level.levels, inner ∈ d.levels) ?_
    (fun _ hmem => hmem) level hlevel inner hinner
  intro level hlevels entry hentry inner hcomposite other hother
  exact hlevels other (mem_levels_of_state hentry (by rwa [hcomposite, StateDef.levels]))

/-! ## Following keys -/

/-- **The state at `keys`** inside a state, one level further in with each key. -/
def StateDef.at? : StateDef → List String → Option StateDef
  | state, [] => some state
  | .leaf _, _ :: _ => none
  | .composite inner, key :: keys => (inner.state? key).bind (·.at? keys)

/-- **The level at `keys`**: the definition of the composite there. -/
def Definition.level? (d : Definition) (keys : List String) : Option Definition :=
  match (StateDef.composite d).at? keys with
  | some (.composite level) => some level
  | _ => none

/-- The final marker of a state. Composites have none. -/
def StateDef.isFinal : StateDef → Bool
  | .leaf ⟨_, isFinal⟩ => isFinal
  | .composite _ => false

/-- `state.at? []` is `state`. -/
@[simp] theorem StateDef.at?_nil (state : StateDef) : state.at? [] = some state := by
  cases state <;> rfl

/-- `StateDef.at?` of `key :: keys` goes on inside `d.state? key`. -/
theorem Definition.at?_cons (d : Definition) (key : String) (keys : List String) :
    (StateDef.composite d).at? (key :: keys) = (d.state? key).bind (·.at? keys) := rfl

/-- `StateDef.at?` of `keys ++ keys'`. -/
theorem StateDef.at?_append (state : StateDef) (keys keys' : List String) :
    state.at? (keys ++ keys') = (state.at? keys).bind (·.at? keys') := by
  induction keys generalizing state with
  | nil => simp
  | cons key keys ih =>
    cases state with
    | leaf _ => rfl
    | composite inner =>
      rw [List.cons_append, Definition.at?_cons, Definition.at?_cons]
      cases inner.state? key with
      | none => rfl
      | some state => exact ih state

/-- `d.level? []` is `d`. -/
@[simp] theorem Definition.level?_nil (d : Definition) : d.level? [] = some d := rfl

/-- `d.level?` is the composite that `StateDef.at?` finds. -/
theorem Definition.level?_eq_some_iff {d level : Definition} {keys : List String} :
    d.level? keys = some level ↔ (StateDef.composite d).at? keys = some (.composite level) := by
  rw [Definition.level?]
  constructor
  · intro h
    split at h
    · rename_i hat
      cases h
      exact hat
    · cases h
  · intro h
    rw [h]

/-- `StateDef.at?` of `keys ++ [key]` is `level.state? key` for the level at `keys`. -/
theorem Definition.at?_concat {d level : Definition} {keys : List String} {key : String}
    (h : d.level? keys = some level) :
    (StateDef.composite d).at? (keys ++ [key]) = level.state? key := by
  rw [StateDef.at?_append, Definition.level?_eq_some_iff.1 h, Option.bind_some,
    Definition.at?_cons]
  cases level.state? key <;> simp

/-- There is a level at `keys` if there is a state at `keys ++ [key]`. -/
theorem Definition.exists_level?_of_at?_concat {d : Definition} {state : StateDef}
    {keys : List String} {key : String}
    (h : (StateDef.composite d).at? (keys ++ [key]) = some state) :
    ∃ level, d.level? keys = some level ∧ level.state? key = some state := by
  have hwhole := h
  rw [StateDef.at?_append, Option.bind_eq_some_iff] at h
  obtain ⟨outer, houter, hlast⟩ := h
  cases outer with
  | leaf l => cases hlast
  | composite level =>
    have hlevel := Definition.level?_eq_some_iff.2 houter
    exact ⟨level, hlevel, (Definition.at?_concat hlevel).symm.trans hwhole⟩

/-- There is a level at `keys` if there is one at `keys ++ keys'`. -/
theorem Definition.exists_level?_of_append {d level : Definition} {keys keys' : List String}
    (h : d.level? (keys ++ keys') = some level) : ∃ around, d.level? keys = some around := by
  rw [level?_eq_some_iff, StateDef.at?_append, Option.bind_eq_some_iff] at h
  obtain ⟨outer, houter, hinside⟩ := h
  cases outer with
  | leaf l => cases keys' <;> cases hinside
  | composite around => exact ⟨around, level?_eq_some_iff.2 houter⟩

/-- `d.level?` of `keys ++ [key]` for a composite `key` of the level at `keys`. -/
theorem Definition.level?_concat {d level inner : Definition} {keys : List String} {key : String}
    (h : d.level? keys = some level) (hkey : level.state? key = some (.composite inner)) :
    d.level? (keys ++ [key]) = some inner := by
  rw [Definition.level?_eq_some_iff, Definition.at?_concat h, hkey]

/-- The levels of a state at `keys` are in `state.levels`. -/
theorem StateDef.levels_of_at? {state inside : StateDef} {keys : List String} {level : Definition}
    (h : state.at? keys = some inside) (hl : level ∈ inside.levels) : level ∈ state.levels := by
  induction keys generalizing state with
  | nil =>
    rw [StateDef.at?_nil] at h
    cases h
    exact hl
  | cons key keys ih =>
    cases state with
    | leaf _ => cases h
    | composite inner =>
      obtain ⟨next, hnext, hat⟩ := Option.bind_eq_some_iff.1 h
      rw [StateDef.levels]
      exact Definition.mem_levels_of_state (Definition.mem_of_state? hnext) (ih hat)

/-- **`d.level? keys` is in `d.levels`.** -/
theorem Definition.mem_levels_of_level? {d level : Definition} {keys : List String}
    (h : d.level? keys = some level) : level ∈ d.levels := by
  have hat := StateDef.levels_of_at? (Definition.level?_eq_some_iff.1 h) level.mem_levels_self
  rwa [StateDef.levels] at hat

/-- `keys` that lead to a state are at most `state.depth`. -/
theorem StateDef.length_le_depth {state inside : StateDef} {keys : List String}
    (h : state.at? keys = some inside) : keys.length ≤ state.depth := by
  induction keys generalizing state with
  | nil => exact Nat.zero_le _
  | cons key keys ih =>
    cases state with
    | leaf _ => cases h
    | composite inner =>
      obtain ⟨next, hnext, hat⟩ := Option.bind_eq_some_iff.1 h
      obtain ⟨states, transitions, initial?, issues⟩ := inner
      have hle := depth_le_depthOfStates (Definition.mem_of_state? hnext)
      have hnested := ih hat
      rw [List.length_cons, StateDef.depth, Definition.depth]
      exact Nat.succ_le_succ (Nat.le_trans hnested hle)

/-! ## Entering a state -/

mutual

/-- **The keys that are entered with a definition**: its initial state and, if that is a composite,
those entered with the definition in it. -/
def Definition.startKeys : Definition → List String
  | ⟨states, _, initial?, _⟩ =>
    match initial? with
    | none => []
    | some key => startKeysOfStates key states

/-- The keys that are entered with the state `key` of a list. -/
def startKeysOfStates (key : String) : List (String × StateDef) → List String
  | [] => []
  | (other, state) :: rest =>
    if other = key then key :: state.innerKeys else startKeysOfStates key rest

/-- The keys that are entered inside a state. -/
def StateDef.innerKeys : StateDef → List String
  | .leaf _ => []
  | .composite inner => inner.startKeys

end

/-- The keys that are entered with the state `key` of `d`. -/
def Definition.enteredKeys (d : Definition) (key : String) : List String :=
  startKeysOfStates key d.states

/-- `d.enteredKeys key` starts with `key`. -/
theorem Definition.enteredKeys_of_state? {d : Definition} {key : String} {state : StateDef}
    (h : d.state? key = some state) : d.enteredKeys key = key :: state.innerKeys := by
  rw [Definition.enteredKeys]
  rw [Definition.state?] at h
  -- Both look for the first entry of the key, so the induction is on the declared states.
  generalize d.states = states at h ⊢
  induction states with
  | nil => cases h
  | cons first rest ih =>
    obtain ⟨other, inside⟩ := first
    rw [startKeysOfStates]
    by_cases he : other = key
    · rw [if_pos he]
      rw [List.lookup_cons, beq_iff_eq.2 he.symm] at h
      cases h
      rfl
    · rw [if_neg he]
      rw [List.lookup_cons, beq_eq_false_iff_ne.2 (Ne.symm he)] at h
      exact ih h

/-- `d.startKeys` is `d.enteredKeys` of the initial state. -/
theorem Definition.startKeys_of_initial {d : Definition} {key : String}
    (h : d.initial? = some key) : d.startKeys = d.enteredKeys key := by
  obtain ⟨states, transitions, initial?, issues⟩ := d
  cases h
  rfl

/-! ## Answers of a level -/

/-- The name that a target gives, for `params`. -/
def Target.name? (params : Params) : Target → Option String
  | .key name => some name
  | .choose pick => pick params

/-- The first transition of `level` for `source` and `event`. -/
def Definition.transition? (level : Definition) (source : String) (event : EventKey) :
    Option TransitionDef :=
  level.transitions.find? fun t => t.source == source && t.event == event

/-- **The state that `level` answers `event` with in `source`.** A transition that names no state of
`level` is no answer. -/
def Definition.goal? (level : Definition) (source : String) (event : EventKey) (params : Params) :
    Option String :=
  ((level.transition? source event).bind (·.target.name? params)).filter level.declares

/-- Whether `source` has transitions of its own. -/
def Definition.answers (level : Definition) (source : String) : Bool :=
  level.transitions.any (·.source == source)

/-- `level.goal?` is declared on `level`. -/
theorem Definition.declares_of_goal? {level : Definition} {source target : String}
    {event : EventKey} {params : Params} (h : level.goal? source event params = some target) :
    level.declares target = true :=
  (Option.filter_eq_some_iff.1 h).2

end Statechart
