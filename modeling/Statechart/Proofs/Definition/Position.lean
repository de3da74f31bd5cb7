import Statechart.Proofs.Definition.Soundness

/-! # Where a nested definition stands

However the levels of a nested definition are run, they stand at the keys of their active states,
from the outermost level down to a leaf. This module says how an event moves these keys, by the
definition alone.

* **`Position`**: the keys, and how they were reached.
* `Definition.move?`: the keys after one level has answered an event.
* `Definition.offer?`: an event is offered to the levels, the deepest first.
* `Definition.exit?`, `Definition.rise`: a state that is finished makes the level around it exit,
  and then that one may be finished itself.
* **`Definition.react?`**: all that an event brings about.
* **`Definition.StandsAt.react?`**: a sound definition comes from leaf to leaf. -/

namespace Statechart

/-- **Where a nested definition stands**, and which level answered last. -/
structure Position where
  /-- The keys of the active states, the outermost first. -/
  keys : List String
  /-- The depth of the level that answered last. -/
  turn : Nat := 0
  /-- The depth of the outermost level that answered. -/
  top : Nat := 0
  /-- Whether the last answer was to an exit. -/
  byExit : Bool := false
  /-- The parameters of the event that was answered last. -/
  params : Params := []
  deriving DecidableEq, Inhabited

/-- **The parameters that the leaf was made from**: `params` if the level around the leaf answered,
and none if the leaf was entered with a composite. -/
def Position.leafParams (position : Position) : Params :=
  if position.keys.length = position.turn + 1 then position.params else []

namespace Definition

variable {d level : Definition} {delimiter : String} {keys keys' : List String} {key : String}
  {depth : Nat} {event : EventKey} {params : Params}

/-! ## How keys move -/

/-- **The keys after the level at `depth` has answered `event`**: those of the levels around it
stay, and the target is entered. -/
def move? (d : Definition) (keys : List String) (depth : Nat) (event : EventKey)
    (params : Params) : Option (List String) :=
  match d.level? (keys.take depth), keys[depth]? with
  | some level, some key =>
    (level.goal? key event params).map fun target => keys.take depth ++ level.enteredKeys target
  | _, _ => none

/-- **Offer `event` to the levels** from a depth outward. The first answer of `move?` counts, with
its depth. -/
def offer? (d : Definition) (keys : List String) (event : EventKey) (params : Params) :
    Nat → Option (Nat × List String)
  | 0 => (d.move? keys 0 event params).map (0, ·)
  | depth + 1 =>
    match d.move? keys (depth + 1) event params with
    | some keys => some (depth + 1, keys)
    | none => d.offer? keys event params depth

/-- Whether the state `key` of `level` is terminal. -/
def isTerminal (policy : TerminalPolicy) (level : Definition) (key : String) : Bool :=
  policy.isTerminal (((level.state? key).map (·.isFinal)).getD false) (level.answers key)

/-- Whether the level at `depth` stands in a terminal state. -/
def isFinished (policy : TerminalPolicy) (d : Definition) (keys : List String) (depth : Nat) :
    Bool :=
  match d.level? (keys.take depth), keys[depth]? with
  | some level, some key => level.isTerminal policy key
  | _, _ => false

/-- **The exit of the level at `depth`**: its `move?` for `.childExit`, if the level inside it is
finished. -/
def exit? (policy : TerminalPolicy) (d : Definition) (keys : List String) (depth : Nat) :
    Option (List String) :=
  if d.isFinished policy keys (depth + 1) then d.move? keys depth .childExit [] else none

/-- **Let exits rise** from a depth on, until `exit?` is `none`. -/
def rise (policy : TerminalPolicy) (d : Definition) : Nat → Position → Position
  | 0, position => position
  | parent + 1, position =>
    match d.exit? policy position.keys parent with
    | none => position
    | some keys =>
      d.rise policy parent { keys, turn := parent, top := min position.top parent, byExit := true }

/-- **All that an event brings about**, among the levels down to a depth of `reach`. -/
def react? (policy : TerminalPolicy) (reach : Nat) (d : Definition) (keys : List String)
    (event : EventKey) (params : Params) : Option Position :=
  (d.offer? keys event params (min (keys.length - 1) reach)).map fun (depth, keys) =>
    d.rise policy (min (keys.length - 1) reach) { keys, turn := depth, top := depth, params }

/-! ## Standing at a leaf -/

/-- **`keys` lead to a leaf of `d`.** -/
def StandsAt (d : Definition) (keys : List String) : Prop :=
  ∃ leaf, (StateDef.composite d).at? keys = some (.leaf leaf)

/-- `keys` that lead to a leaf are not empty. -/
theorem StandsAt.ne_nil (h : d.StandsAt keys) : keys ≠ [] := by
  rintro rfl
  obtain ⟨leaf, hleaf⟩ := h
  rw [StateDef.at?_nil] at hleaf
  cases hleaf

/-- `keys` that lead to a leaf are at most `d.depth + 1`. -/
theorem StandsAt.length_le (h : d.StandsAt keys) : keys.length ≤ d.depth + 1 := by
  obtain ⟨leaf, hleaf⟩ := h
  exact StateDef.length_le_depth hleaf

/-- **Each of `keys` is a state of the level at its depth**: a leaf if it is the last one, and else
a composite. -/
theorem StandsAt.level? (h : d.StandsAt keys) (hkey : keys[depth]? = some key) :
    ∃ level state, d.level? (keys.take depth) = some level ∧ level.state? key = some state ∧
      (StateDef.composite d).at? (keys.take (depth + 1)) = some state ∧
      (depth + 1 < keys.length → ∃ inner, state = .composite inner) ∧
      (depth + 1 = keys.length → ∃ leaf, state = .leaf leaf) := by
  obtain ⟨leaf, hleaf⟩ := h
  obtain ⟨hlt, hget⟩ := List.getElem?_eq_some_iff.1 hkey
  -- The keys around the level lead to it, its own key to a state, and the others inward from there.
  have hsplit : keys = keys.take depth ++ key :: keys.drop (depth + 1) := by
    rw [← hget, List.getElem_cons_drop, List.take_append_drop]
  rw [hsplit, StateDef.at?_append] at hleaf
  obtain ⟨outer, houter, hleaf⟩ := Option.bind_eq_some_iff.1 hleaf
  cases outer with
  | leaf _ => cases hleaf
  | composite level =>
    obtain ⟨state, hstate, hinside⟩ := Option.bind_eq_some_iff.1 hleaf
    have hlevel := level?_eq_some_iff.2 houter
    refine ⟨level, state, hlevel, hstate, ?_, ?_, ?_⟩
    · rw [← List.take_append_getElem hlt, hget, at?_concat hlevel, hstate]
    · intro hdeep
      cases state with
      | composite inner => exact ⟨inner, rfl⟩
      | leaf _ =>
        have hdrop : keys.drop (depth + 1) = keys[depth + 1] :: keys.drop (depth + 1 + 1) :=
          List.drop_eq_getElem_cons hdeep
        rw [hdrop] at hinside
        cases hinside
    · intro hlast
      rw [List.drop_eq_nil_of_le (Nat.le_of_eq hlast.symm), StateDef.at?_nil] at hinside
      exact ⟨leaf, Option.some.inj hinside⟩

/-- **`d.startKeys` lead to a leaf.** -/
theorem Orderly.standsAt_startKeys (h : d.Orderly delimiter) : d.StandsAt d.startKeys := h.enters

/-- `keys ++ level.enteredKeys key` lead to a leaf. -/
theorem Orderly.standsAt_enteredKeys (h : d.Orderly delimiter)
    (hlevel : d.level? keys = some level) (hkey : level.declares key = true) :
    d.StandsAt (keys ++ level.enteredKeys key) := by
  obtain ⟨state, hstate⟩ := Option.isSome_iff_exists.1 hkey
  obtain ⟨leaf, hleaf⟩ := exists_leaf_at?_innerKeys state (h.inside hlevel hstate)
  refine ⟨leaf, ?_⟩
  rw [enteredKeys_of_state? hstate, List.append_cons, StateDef.at?_append, at?_concat hlevel,
    hstate]
  exact hleaf

/-! ## One move -/

/-- `d.move?` is `level.goal?`, where the level and the key are known. -/
theorem move?_of_level? (hlevel : d.level? (keys.take depth) = some level)
    (hkey : keys[depth]? = some key) :
    d.move? keys depth event params =
      (level.goal? key event params).map fun target =>
        keys.take depth ++ level.enteredKeys target := by
  rw [move?, hlevel, hkey]

/-- The level, the key and the target behind `d.move?`. -/
theorem exists_of_move? (h : d.move? keys depth event params = some keys') :
    ∃ level key target, d.level? (keys.take depth) = some level ∧ keys[depth]? = some key ∧
      level.goal? key event params = some target ∧
      keys' = keys.take depth ++ level.enteredKeys target := by
  rw [move?] at h
  split at h
  · rename_i level key hlevel hkey
    obtain ⟨target, hgoal, htarget⟩ := Option.map_eq_some_iff.1 h
    exact ⟨level, key, target, hlevel, hkey, hgoal, htarget.symm⟩
  · cases h

/-- `d.move?` gives keys that lead to a leaf. -/
theorem StandsAt.of_move? (hd : d.Sound delimiter)
    (h : d.move? keys depth event params = some keys') : d.StandsAt keys' := by
  obtain ⟨level, key, target, hlevel, -, hgoal, rfl⟩ := exists_of_move? h
  exact hd.orderly.standsAt_enteredKeys hlevel (declares_of_goal? hgoal)

/-- `d.move?` keeps the keys up to `depth`, and gives one at `depth`. -/
theorem take_of_move? (h : d.move? keys depth event params = some keys') :
    keys'.take depth = keys.take depth ∧ depth < keys'.length := by
  obtain ⟨level, key, target, -, hkey, hgoal, rfl⟩ := exists_of_move? h
  obtain ⟨hlt, -⟩ := List.getElem?_eq_some_iff.1 hkey
  obtain ⟨state, hstate⟩ := Option.isSome_iff_exists.1 (declares_of_goal? hgoal)
  have hlength : (keys.take depth).length = depth := List.length_take_of_le (Nat.le_of_lt hlt)
  constructor
  · rw [List.take_append_of_le_length (Nat.le_of_eq hlength.symm), List.take_take, Nat.min_self]
  · rw [enteredKeys_of_state? hstate, List.length_append, hlength, List.length_cons]
    omega

/-- `d.offer?` is the `d.move?` of the greatest depth that has one. -/
theorem offer?_eq_some_iff {found : Nat} :
    d.offer? keys event params depth = some (found, keys') ↔
      found ≤ depth ∧ d.move? keys found event params = some keys' ∧
        ∀ deeper, found < deeper → deeper ≤ depth →
          d.move? keys deeper event params = none := by
  induction depth with
  | zero =>
    rw [offer?, Option.map_eq_some_iff]
    constructor
    · rintro ⟨moved, hmove, heq⟩
      cases heq
      exact ⟨Nat.le_refl 0, hmove, fun deeper hlt hle => by omega⟩
    · rintro ⟨hle, hmove, -⟩
      obtain rfl : found = 0 := by omega
      exact ⟨keys', hmove, rfl⟩
  | succ depth ih =>
    rw [offer?]
    cases hmove : d.move? keys (depth + 1) event params with
    | some moved =>
      constructor
      · intro h
        cases h
        exact ⟨Nat.le_refl _, hmove, fun deeper hlt hle => by omega⟩
      · rintro ⟨hle, hmove', hnone⟩
        by_cases hfound : found = depth + 1
        · subst hfound
          rw [hmove] at hmove'
          cases hmove'
          rfl
        · rw [hnone (depth + 1) (by omega) (Nat.le_refl _)] at hmove
          cases hmove
    | none =>
      simp only []
      rw [ih]
      -- As the deepest level has no answer, the first one that has is further out.
      constructor
      · rintro ⟨hle, hmove', hnone⟩
        refine ⟨by omega, hmove', fun deeper hlt hle' => ?_⟩
        by_cases hdeeper : deeper = depth + 1
        · rw [hdeeper, hmove]
        · exact hnone deeper hlt (by omega)
      · rintro ⟨hle, hmove', hnone⟩
        have hne : found ≠ depth + 1 := by
          rintro rfl
          rw [hmove] at hmove'
          cases hmove'
        exact ⟨by omega, hmove', fun deeper hlt hle' => hnone deeper hlt (by omega)⟩

/-! ## All that an event brings about -/

/-- `d.exit?` is `d.move?` of `.childExit`. -/
theorem move?_of_exit? {policy : TerminalPolicy} (h : d.exit? policy keys depth = some keys') :
    d.move? keys depth .childExit [] = some keys' := by
  rw [exit?] at h
  split at h
  · exact h
  · cases h

/-- `rise` keeps `StandsAt`. -/
theorem StandsAt.rise {policy : TerminalPolicy} {position : Position} (hd : d.Sound delimiter)
    (h : d.StandsAt position.keys) : d.StandsAt (d.rise policy depth position).keys := by
  induction depth generalizing position with
  | zero => exact h
  | succ parent ih =>
    rw [Definition.rise]
    cases hexit : d.exit? policy position.keys parent with
    | none => exact h
    | some keys => exact ih (StandsAt.of_move? hd (move?_of_exit? hexit))

/-- **`react?` keeps `StandsAt`**, if `d` is sound. -/
theorem StandsAt.react? {policy : TerminalPolicy} {reach : Nat} {next : Position}
    (hd : d.Sound delimiter) (h : d.react? policy reach keys event params = some next) :
    d.StandsAt next.keys := by
  rw [Definition.react?, Option.map_eq_some_iff] at h
  obtain ⟨⟨depth, moved⟩, hoffer, rfl⟩ := h
  exact StandsAt.rise hd (StandsAt.of_move? hd (offer?_eq_some_iff.1 hoffer).2.1)

end Definition

end Statechart
