import Statechart.Proofs.Definition.Position

/-! # Exits that are drained

On a single level only leaves can be finished. So after an exit that leads into a composite no
further exit comes of the composite itself, while among nested levels exits may rise on from it.

* **`Definition.drain`**, `Definition.drain?`: what an event brings about if exits come of leaves
  only.
* `Definition.ExitsSettle`: no exit leads into a composite that starts in a terminal leaf.
* `Definition.ExitsRest`: no exit leads into a composite that is itself terminal.
* **`Definition.rise_eq`**: exits that rise go on where those that are drained stop.
* `Definition.ExitsRest.rise_eq_drain`: where exits come to rest, they stop there too. -/

namespace Statechart

namespace Definition

variable {d level inner : Definition} {delimiter : String} {keys keys' : List String}
  {key name : String} {depth parent : Nat} {event : EventKey} {params : Params}
  {policy : TerminalPolicy} {position next : Position}

/-! ## Draining exits -/

/-- **Drain exits** from a depth on, until there is none or one has led into a composite. -/
def drain (policy : TerminalPolicy) (d : Definition) : Nat → Position → Position
  | 0, position => position
  | parent + 1, position =>
    match d.exit? policy position.keys parent with
    | none => position
    | some keys =>
      let next := { keys, turn := parent, top := min position.top parent, byExit := true }
      if keys.length = parent + 1 then d.drain policy parent next else next

/-- **All that an event brings about** if exits come of leaves only: `offer?` and then `drain`. -/
def drain? (policy : TerminalPolicy) (d : Definition) (keys : List String) (event : EventKey)
    (params : Params) : Option Position :=
  (d.offer? keys event params (keys.length - 1)).map fun (depth, keys) =>
    d.drain policy (keys.length - 1) { keys, turn := depth, top := depth, params }

/-- `drain` keeps `StandsAt`. -/
theorem StandsAt.drain (hd : d.Sound delimiter) (h : d.StandsAt position.keys) :
    d.StandsAt (d.drain policy depth position).keys := by
  induction depth generalizing position with
  | zero => exact h
  | succ parent ih =>
    rw [Definition.drain]
    cases hexit : d.exit? policy position.keys parent with
    | none => exact h
    | some keys =>
      have hstands := StandsAt.of_move? hd (move?_of_exit? hexit)
      simp only []
      split
      · exact ih hstands
      · exact hstands

/-- `drain?` keeps `StandsAt`. -/
theorem StandsAt.drain? (hd : d.Sound delimiter)
    (h : d.drain? policy keys event params = some next) : d.StandsAt next.keys := by
  rw [Definition.drain?, Option.map_eq_some_iff] at h
  obtain ⟨⟨depth, moved⟩, hoffer, rfl⟩ := h
  exact StandsAt.drain hd (StandsAt.of_move? hd (offer?_eq_some_iff.1 hoffer).2.1)

/-! ## Exits into composites -/

/-- Whether a state is a composite that starts in a terminal leaf. -/
def startsFinished (policy : TerminalPolicy) : StateDef → Bool
  | .leaf _ => false
  | .composite inner => inner.isFinished policy inner.startKeys (inner.startKeys.length - 1)

/-- **Exits settle**: no transition for `.childExit` leads into a composite that
`startsFinished`. -/
def ExitsSettle (policy : TerminalPolicy) (d : Definition) : Prop :=
  ∀ level ∈ d.levels, ∀ t ∈ level.transitions, t.event = .childExit →
    ∀ name ∈ t.target.key?, ∀ state ∈ level.state? name, startsFinished policy state = false

instance (policy : TerminalPolicy) (d : Definition) : Decidable (d.ExitsSettle policy) :=
  inferInstanceAs (Decidable (∀ level ∈ d.levels, ∀ t ∈ level.transitions, t.event = .childExit →
    ∀ name ∈ t.target.key?, ∀ state ∈ level.state? name, startsFinished policy state = false))

/-- `d.level? (keys ++ keys')` is `level.level? keys'` for the level at `keys`. -/
theorem level?_append (h : d.level? keys = some level) :
    d.level? (keys ++ keys') = level.level? keys' := by
  rw [level?, StateDef.at?_append, level?_eq_some_iff.1 h]
  rfl

/-- `d.isFinished` inside the level at `keys` is `level.isFinished`. -/
theorem isFinished_append (h : d.level? keys = some level) :
    d.isFinished policy (keys ++ keys') (keys.length + depth) =
      level.isFinished policy keys' depth := by
  rw [isFinished, List.take_length_add_append, level?_append h, List.getElem?_append_right
    (Nat.le_add_right _ _), Nat.add_sub_cancel_left]
  rfl

/-- The level, the transition and the composite behind an exit that enters a composite. -/
theorem Sound.exists_composite_of_move? (hd : d.Sound delimiter) (hliteral : d.IsLiteral)
    (hmove : d.move? keys depth .childExit [] = some keys') (hdeep : keys'.length ≠ depth + 1) :
    ∃ level t name inner, d.level? (keys.take depth) = some level ∧ t ∈ level.transitions ∧
      t.event = .childExit ∧ t.target = .key name ∧ level.state? name = some (.composite inner) ∧
      (keys.take depth).length = depth ∧ keys' = keys.take depth ++ name :: inner.startKeys := by
  obtain ⟨level, key, name, hlevel, hkey, hgoal, rfl⟩ := exists_of_move? hmove
  obtain ⟨state, hstate⟩ := Option.isSome_iff_exists.1 (declares_of_goal? hgoal)
  have hsound := hd.level? hlevel
  obtain ⟨t, ht, hname⟩ := hsound.exists_of_goal?
    (fun _ => hliteral.exists_name (mem_levels_of_level? hlevel)) hgoal
  obtain ⟨htmem, -, hevent⟩ := hsound.transition?_eq_some_iff.1 ht
  have hlength : (keys.take depth).length = depth :=
    List.length_take_of_le (Nat.le_of_lt (List.getElem?_eq_some_iff.1 hkey).1)
  rw [enteredKeys_of_state? hstate] at hdeep ⊢
  cases state with
  | leaf l =>
    -- A leaf lies no deeper than the level that moves.
    refine absurd ?_ hdeep
    rw [StateDef.innerKeys, List.length_append, hlength]
    rfl
  | composite inner =>
    exact ⟨level, t, name, inner, hlevel, htmem, hevent, hname, hstate, hlength, rfl⟩

/-- **`isFinished` is `false` at the leaf after an exit into a composite**, if exits settle. -/
theorem ExitsSettle.isFinished_eq_false (h : d.ExitsSettle policy) (hd : d.Sound delimiter)
    (hliteral : d.IsLiteral) (hmove : d.move? keys depth .childExit [] = some keys')
    (hdeep : keys'.length ≠ depth + 1) :
    d.isFinished policy keys' (keys'.length - 1) = false := by
  obtain ⟨level, t, name, inner, hlevel, ht, hevent, hname, hstate, -, rfl⟩ :=
    hd.exists_composite_of_move? hliteral hmove hdeep
  have hinner : d.level? (keys.take depth ++ [name]) = some inner := level?_concat hlevel hstate
  -- The composite starts with a key at least, so its innermost level is that of the whole.
  have hpos : inner.startKeys.length ≠ 0 := by
    obtain ⟨key, hinitial, hdeclared⟩ := (hd.level? hinner).initial
    obtain ⟨state, hstate⟩ := Option.isSome_iff_exists.1 hdeclared
    rw [startKeys_of_initial hinitial, enteredKeys_of_state? hstate, List.length_cons]
    exact Nat.succ_ne_zero _
  have hlast : (keys.take depth ++ name :: inner.startKeys).length - 1 =
      (keys.take depth ++ [name]).length + (inner.startKeys.length - 1) := by
    simp only [List.length_append, List.length_cons, List.length_nil]
    omega
  rw [hlast, List.append_cons, isFinished_append hinner]
  exact h level (mem_levels_of_level? hlevel) t ht hevent name (by rw [hname]; rfl) _ hstate

/-! ## Exits that come to rest -/

/-- Whether a state of `level` is a composite that is terminal there. -/
def endsWhole (policy : TerminalPolicy) (level : Definition) (name : String) : StateDef → Bool
  | .leaf _ => false
  | .composite _ => level.isTerminal policy name

/-- **Exits come to rest**: no transition for `.childExit` leads into a composite that
`endsWhole`. -/
def ExitsRest (policy : TerminalPolicy) (d : Definition) : Prop :=
  ∀ level ∈ d.levels, ∀ t ∈ level.transitions, t.event = .childExit →
    ∀ name ∈ t.target.key?, ∀ state ∈ level.state? name, endsWhole policy level name state = false

instance (policy : TerminalPolicy) (d : Definition) : Decidable (d.ExitsRest policy) :=
  inferInstanceAs (Decidable (∀ level ∈ d.levels, ∀ t ∈ level.transitions, t.event = .childExit →
    ∀ name ∈ t.target.key?, ∀ state ∈ level.state? name, endsWhole policy level name state = false))

/-- `ExitsRest` holds under `.explicit`, for a composite is never final. -/
theorem exitsRest_explicit (d : Definition) : d.ExitsRest .explicit := by
  intro level _ t _ _ name _ state hstate
  cases state with
  | leaf l => rfl
  | composite inner =>
    rw [endsWhole, isTerminal, Option.mem_def.1 hstate]
    rfl

/-- **`exit?` is `none` after an exit into a composite**, if exits come to rest. -/
theorem ExitsRest.exit?_eq_none (h : d.ExitsRest policy) (hd : d.Sound delimiter)
    (hliteral : d.IsLiteral) (hmove : d.move? keys (parent + 1) .childExit [] = some keys')
    (hdeep : keys'.length ≠ parent + 2) : d.exit? policy keys' parent = none := by
  obtain ⟨level, t, name, inner, hlevel, ht, hevent, hname, hstate, hlength, rfl⟩ :=
    hd.exists_composite_of_move? hliteral hmove hdeep
  have hlevel' : d.level? ((keys.take (parent + 1) ++ name :: inner.startKeys).take (parent + 1)) =
      some level := by
    rwa [List.take_append_of_le_length (Nat.le_of_eq hlength.symm), List.take_take, Nat.min_self]
  have hkey : (keys.take (parent + 1) ++ name :: inner.startKeys)[parent + 1]? = some name := by
    rw [List.getElem?_append_right (Nat.le_of_eq hlength), hlength, Nat.sub_self]
    rfl
  have hmem := mem_levels_of_level? hlevel
  have hwhole := h level hmem t ht hevent name (by rw [hname]; rfl) _ hstate
  rw [endsWhole] at hwhole
  rw [exit?, isFinished, hlevel', hkey]
  simp only [hwhole]
  rfl

/-! ## Rising on -/

/-- **`rise` goes on where `drain` stops**, unless there is no exit at all. -/
theorem rise_eq (policy : TerminalPolicy) (d : Definition) (depth : Nat) (position : Position) :
    d.drain policy depth position = position ∧ d.rise policy depth position = position ∨
      (d.drain policy depth position).byExit = true ∧
        d.rise policy depth position =
          d.rise policy (d.drain policy depth position).turn (d.drain policy depth position) := by
  induction depth generalizing position with
  | zero => exact Or.inl ⟨rfl, rfl⟩
  | succ parent ih =>
    rw [drain, rise]
    cases hexit : d.exit? policy position.keys parent with
    | none => exact Or.inl ⟨rfl, rfl⟩
    | some keys =>
      -- Rising goes on in any case, and draining only if the exit has led to a leaf.
      right
      simp only []
      split
      · rcases ih { keys, turn := parent, top := min position.top parent, byExit := true } with
          ⟨hdrain, hrise⟩ | hgoes
        · rw [hdrain]
          exact ⟨rfl, rfl⟩
        · exact hgoes
      · exact ⟨rfl, rfl⟩

/-- **`rise` is `drain` if exits come to rest.** -/
theorem ExitsRest.rise_eq_drain (h : d.ExitsRest policy) (hd : d.Sound delimiter)
    (hliteral : d.IsLiteral) : d.rise policy depth position = d.drain policy depth position := by
  induction depth generalizing position with
  | zero => rfl
  | succ parent ih =>
    rw [drain, rise]
    cases hexit : d.exit? policy position.keys parent with
    | none => rfl
    | some keys =>
      simp only []
      by_cases hleaf : keys.length = parent + 1
      · rw [if_pos hleaf]
        exact ih
      · rw [if_neg hleaf]
        cases parent with
        | zero => rfl
        | succ around =>
          -- The exit has led into a composite: draining stops, and so does rising, at once.
          rw [rise, h.exit?_eq_none hd hliteral (move?_of_exit? hexit) hleaf]

end Definition

end Statechart
