import Statechart.Proofs.Definition.Drain
import Statechart.Proofs.Flat.Machine
import Statechart.Proofs.World.Frame
import Statechart.World.Hierarchy

/-! # Runs of the machine of a flat form

The machine of a flat form starts in the leaf that is entered with the definition. An event that it
answers brings it into another leaf, and the exits that come of leaves are drained from a queue
before the next event.

* **`World.FlatAt`**: the machine stands at keys.
* `Definition.leafExits`: the exits that come of a leaf.
* **`Act.ends_flushWithin_flat`**: draining the queue follows `Definition.drain`.
* **`Act.ends_startFlat`**, **`Act.ends_sendNamed_flat`**: how the machine starts, and what an event
  does. -/

namespace Statechart

variable {ρ γ : Type} {host : Host ρ γ} {w : World ρ γ} {link : Link} {m : Machine (StatePlan ρ)}
  {flat : FlatDefinition} {config : FlattenConfig} {d : Definition} {keys keys' : List String}
  {params params' : Params} {pending : List Event} {event : Event} {parent bound : Nat}

/-- **`m` stands at `keys`**: it runs `flat`, its state is `d.leafState` of `keys` and `params`, and
`pending` waits. It is quiet, and no engine routes its events. -/
structure Machine.FlatAt (host : Host ρ γ) (m : Machine (StatePlan ρ)) (flat : FlatDefinition)
    (config : FlattenConfig) (d : Definition) (keys : List String) (params : Params)
    (pending : List Event) : Prop extends m.RunsFlat flat config where
  quiet : m.IsQuiet host
  engine? : m.engine? = none
  pending : m.pending = pending
  state : m.current.state = d.leafState config.delimiter keys params
  stands : d.StandsAt keys

/-- **The machine at `link` stands at `keys`** (`Machine.FlatAt`). -/
def World.FlatAt (host : Host ρ γ) (w : World ρ γ) (link : Link) (flat : FlatDefinition)
    (config : FlattenConfig) (d : Definition) (keys : List String) (params : Params)
    (pending : List Event) : Prop :=
  ∃ m, w.machine? link = some m ∧ m.FlatAt host flat config d keys params pending

/-- `Machine.FlatAt` for another queue. -/
theorem Machine.FlatAt.setPending (h : m.FlatAt host flat config d keys params pending)
    (pending' : List Event) :
    Machine.FlatAt host { m with pending := pending' } flat config d keys params pending' :=
  ⟨h.toRunsFlat.setPending _, h.quiet, h.engine?, rfl, h.state, h.stands⟩

/-! ## Exits of leaves -/

/-- **The exits that come of the leaf at `keys`**: one if it is terminal and inside a composite,
else none. -/
def Definition.leafExits (config : FlattenConfig) (d : Definition) (keys : List String) :
    List Event :=
  if 1 < keys.length ∧ d.isFinished config.terminal keys (keys.length - 1) = true then
    [.childExit (.path (config.delimiter.intercalate keys))]
  else []

/-- `d.leafExits` of a leaf inside a composite. -/
theorem Definition.leafExits_of_length (hlength : keys.length = parent + 2) :
    d.leafExits config keys = if d.isFinished config.terminal keys (parent + 1) = true then
      [.childExit (.path (config.delimiter.intercalate keys))] else [] := by
  have hdeep : 1 < parent + 2 := by omega
  have hlast : parent + 2 - 1 = parent + 1 := rfl
  rw [leafExits, hlength, hlast]
  simp only [hdeep, true_and]

/-- `m.isTerminal` of `d.leafState` is `d.isFinished` at the innermost depth. -/
theorem Machine.FlatAt.isTerminal_eq (h : m.FlatAt host flat config d keys params pending)
    (hflat : flat.Mirrors config.delimiter d) (hstands : d.StandsAt keys') (params' : Params) :
    m.isTerminal (d.leafState config.delimiter keys' params') =
      d.isFinished config.terminal keys' (keys'.length - 1) := by
  -- The last key is that of the leaf, and the others lead to its level.
  obtain ⟨front, last, rfl⟩ := (List.eq_nil_or_concat' keys').resolve_left hstands.ne_nil
  have hkey : (front ++ [last])[front.length]? = some last := by simp
  obtain ⟨level, state, hlevel, hstate, hat, -, hleaf⟩ := hstands.level? hkey
  rw [List.take_left] at hlevel
  rw [List.take_of_length_le (by simp)] at hat
  obtain ⟨l, rfl⟩ := hleaf (by simp)
  have hdeclared : level.declares last = true := Option.isSome_iff_exists.2 ⟨_, hstate⟩
  have hpolicy : m.config.terminal = config.terminal := by
    rw [h.settings]
    rfl
  have hindex : (front ++ [last]).length - 1 = front.length := by simp
  rw [Machine.isTerminal, Definition.leafState_of_at? hat, h.table,
    hflat.hasTransitions_table hlevel hdeclared, hpolicy, hindex, Definition.isFinished,
    List.take_left, hlevel, hkey]
  simp only [Definition.isTerminal, hstate]
  rfl

/-- **`m.followUps` of `d.leafState` is `d.leafExits`.** -/
theorem Machine.FlatAt.followUps_eq (h : m.FlatAt host flat config d keys params pending)
    (hflat : flat.Mirrors config.delimiter d) (hstands : d.StandsAt keys') :
    m.followUps (d.leafState config.delimiter keys' params') = d.leafExits config keys' := by
  have hterminal := h.isTerminal_eq hflat hstands params'
  have hauto : m.config.autoExit = true := by
    rw [h.settings]
    rfl
  -- A path is qualified if there is more than one key to it.
  have hqualified : Path.isQualified config.delimiter (config.delimiter.intercalate keys') =
      decide (1 < keys'.length) := by
    obtain ⟨l, hl⟩ := hstands
    have hdelimits := hflat.orderly.delimits hflat.one hl
    obtain ⟨front, last, rfl⟩ := (List.eq_nil_or_concat' keys').resolve_left
      (Definition.StandsAt.ne_nil ⟨l, hl⟩)
    rw [Path.isQualified_intercalate hdelimits, List.length_append, List.length_singleton]
    cases front <;> simp
  rw [Machine.followUps, h.lookup_eq]
  simp only [hauto, hterminal, Bool.true_and]
  rw [Definition.leafState, hqualified, Definition.leafExits]
  simp only [Bool.and_eq_true, decide_eq_true_eq]

/-- `d.leafExits` is empty after an exit that enters a composite, if exits settle
(`ExitsSettle`). -/
theorem Definition.leafExits_of_move? (hflat : flat.Mirrors config.delimiter d)
    (hsettle : d.ExitsSettle config.terminal)
    (hmove : d.move? keys parent .childExit [] = some keys')
    (hdeep : keys'.length ≠ parent + 1) : d.leafExits config keys' = [] := by
  rw [leafExits, if_neg]
  rintro ⟨-, hfinished⟩
  rw [hsettle.isFinished_eq_false hflat.sound hflat.literal hmove hdeep] at hfinished
  cases hfinished

/-- `d.drain` does nothing if `d.leafExits` is empty. -/
theorem Definition.drain_of_leafExits {position : Position}
    (h : d.leafExits config position.keys = []) (hlength : position.keys.length = parent + 1) :
    d.drain config.terminal parent position = position := by
  cases parent with
  | zero => rfl
  | succ around =>
    have hfinished : ¬ d.isFinished config.terminal position.keys (around + 1) = true := by
      intro hfinished
      rw [leafExits_of_length hlength, if_pos hfinished] at h
      cases h
    rw [drain, exit?, if_neg hfinished]

namespace Act

/-! ## What the machine answers -/

/-- **`Act.resolve` of a domain event follows `d.offer?`.** -/
theorem resolve_domain (hflat : flat.Mirrors config.delimiter d) (hm : w.machine? link = some m)
    (h : m.FlatAt host flat config d keys params pending) {name : String}
    (hname : isReservedName name = false) (params' : Params) :
    (resolve host link (.domain name params')).run w =
      some ((d.offer? keys (.domain name) params' (keys.length - 1)).map fun found =>
        { event := .domain name params', source := m.current
          target := d.leafState config.delimiter found.2 params'
          matched := config.delimiter.intercalate (keys.take (found.1 + 1)) }, w) := by
  have hpos := List.length_pos_iff.2 h.stands.ne_nil
  obtain ⟨l, hl⟩ := h.stands
  have hcurrent : m.current.state.key = config.delimiter.intercalate keys := by
    rw [h.state]
    rfl
  have hkeys := h.lookupKeys?_domain (hflat.orderly.delimits hflat.one hl)
    (Definition.StandsAt.ne_nil ⟨l, hl⟩) hcurrent name params'
  have hnamed : Event.isMisnamed (.domain name params') = false := hname
  rw [resolve_eq hm h.toRunsFlat hnamed hkeys (hflat.firstMade_fronts h.stands (by omega) _),
    Option.map_map]
  rfl

/-- **`Act.resolve` of the exit of the current leaf follows `d.move?`** of the level around it, and
of no other. -/
theorem resolve_exit (hflat : flat.Mirrors config.delimiter d) (hm : w.machine? link = some m)
    (h : m.FlatAt host flat config d keys params pending) (hparent : keys.length = parent + 2) :
    (resolve host link (.childExit (.path (config.delimiter.intercalate keys)))).run w =
      some ((d.move? keys parent .childExit []).map fun keys' =>
        { event := .childExit (.path (config.delimiter.intercalate keys)), source := m.current
          target := d.leafState config.delimiter keys' []
          matched := config.delimiter.intercalate (keys.take (parent + 1)) }, w) := by
  obtain ⟨l, hl⟩ := h.stands
  have hdelimits := hflat.orderly.delimits hflat.one hl
  have hkeys : m.lookupKeys? (.childExit (.path (config.delimiter.intercalate keys))) =
      some [config.delimiter.intercalate (keys.take (parent + 1))] := by
    have hdeep : parent + 1 < keys.length := by omega
    have hup := Path.parent?_take hdelimits hdeep
    rw [List.take_of_length_le (by omega), Path.scope?_of_ne_nil (by
      rw [ne_eq, ← List.length_eq_zero_iff, List.length_take]
      omega)] at hup
    rw [Machine.lookupKeys?, h.lookup_eq, h.state]
    simp only [Definition.leafState, if_true, hup, Option.toList_some]
  rw [resolve_eq hm h.toRunsFlat rfl hkeys (hflat.firstMade_single h.stands (by omega) _),
    Option.map_map]
  rfl

/-! ## One step -/

/-- **`Act.step` brings the machine to `keys'` if `Act.resolve` finds `d.leafState` of `keys'`**,
with `d.leafExits` to follow. -/
theorem ends_step_flat {found : Resolution} (hflat : flat.Mirrors config.delimiter d)
    (hm : w.machine? link = some m) (h : m.FlatAt host flat config d keys params pending)
    (hresolve : (resolve host link event).run w = some (some found, w))
    (htarget : found.target = d.leafState config.delimiter keys' params')
    (hstands : d.StandsAt keys') :
    Ends (step host link event) w fun result w' => ∃ change,
      result = some (change, d.leafExits config keys') ∧
        w'.FlatAt host link flat config d keys' params' pending := by
  have hfound : Ends (resolve host link event) w fun result w₁ => result = some found ∧ w₁ = w :=
    ⟨_, _, hresolve, rfl, rfl⟩
  rw [step]
  refine ends_bind hfound ?_
  rintro _ _ ⟨rfl, rfl⟩
  show Ends (transition host link found) _ _
  rw [transition]
  -- The answer is entered, and nobody is there to be told of it.
  refine ends_get ?_
  simp only [hm, htarget, h.followUps_eq hflat hstands]
  refine ends_bind ends_setCell ?_
  rintro _ _ rfl
  refine ends_bind (ends_notify (World.machine?_setCell_self hm) h.quiet) ?_
  rintro _ _ ⟨guest, rfl⟩
  exact ends_pure ⟨_, rfl, _, World.machine?_setCell_self hm, h.toRunsFlat.commit _,
    h.quiet, h.engine?, h.pending, rfl, hstands⟩

/-- `Act.step` changes nothing if `Act.resolve` finds nothing. -/
theorem ends_step_of_resolve (hresolve : (resolve host link event).run w = some (none, w)) :
    Ends (step host link event) w fun result w' => result = none ∧ w' = w := by
  refine ⟨none, w, ?_, rfl, rfl⟩
  rw [step, StateT.run_bind, hresolve]
  rfl

/-! ## Draining the queue -/

/-- `Act.popPending` takes the first of the queue. -/
theorem ends_popPending (h : w.FlatAt host link flat config d keys params (event :: pending)) :
    Ends (popPending link) w fun result w' => result = some event ∧
      w'.FlatAt host link flat config d keys params pending := by
  obtain ⟨m, hm, hat⟩ := h
  exact (ends_popPending_of_cons hm hat.pending).mono fun _ _ hw' =>
    ⟨hw'.1, _, hw'.2, hat.setPending pending⟩

/-- `Act.pushPending` appends to the queue. -/
theorem ends_pushPending {events : List Event}
    (h : w.FlatAt host link flat config d keys params pending) :
    Ends (pushPending link events) w fun _ w' =>
      w'.FlatAt host link flat config d keys params (pending ++ events) := by
  obtain ⟨m, hm, hat⟩ := h
  refine (ends_pushPending_of_machine? hm events).mono fun _ _ hw' => ⟨_, hw', ?_⟩
  rw [hat.pending]
  exact hat.setPending _

/-- `Act.flushWithin` of an empty queue changes nothing. -/
theorem ends_flushWithin_nil (h : w.FlatAt host link flat config d keys params []) :
    Ends (flushWithin host link bound) w fun _ w' =>
      w'.FlatAt host link flat config d keys params [] := by
  obtain ⟨m, hm, hat⟩ := h
  cases bound with
  | zero =>
    rw [flushWithin]
    exact ends_bind (ends_discard_cancelPending hm) fun _ _ hw' =>
      ends_pure ⟨_, hw', hat.setPending []⟩
  | succ bound =>
    rw [flushWithin]
    refine ends_bind (ends_popPending_of_nil hm hat.pending) ?_
    rintro _ _ ⟨rfl, rfl⟩
    exact ends_pure ⟨m, hm, hat⟩

/-- **`Act.flushWithin` follows `d.drain`** if exits settle (`ExitsSettle`) and `parent ≤ bound`, by
induction on `parent`. -/
theorem ends_flushWithin_flat (position : Position) (hflat : flat.Mirrors config.delimiter d)
    (hsettle : d.ExitsSettle config.terminal) (hlength : position.keys.length = parent + 1)
    (hbound : parent ≤ bound)
    (h : w.FlatAt host link flat config d position.keys position.params
      (d.leafExits config position.keys)) :
    Ends (flushWithin host link bound) w fun _ w' =>
      w'.FlatAt host link flat config d (d.drain config.terminal parent position).keys
        (d.drain config.terminal parent position).params [] := by
  -- Every exit that comes of a leaf leads one level further out, which bounds how many there are.
  induction parent generalizing w position bound with
  | zero =>
    have hnone : d.leafExits config position.keys = [] := by
      rw [Definition.leafExits, hlength, if_neg fun hfinished => absurd hfinished.1 (by omega)]
    rw [hnone] at h
    exact ends_flushWithin_nil h
  | succ parent ih =>
    rw [Definition.leafExits_of_length hlength] at h
    rw [Definition.drain, Definition.exit?]
    by_cases hfinished : d.isFinished config.terminal position.keys (parent + 1) = true
    · rw [if_pos hfinished] at h
      rw [if_pos hfinished]
      obtain ⟨bound, rfl⟩ : ∃ n, bound = n + 1 := ⟨bound - 1, by omega⟩
      rw [flushWithin]
      refine ends_bind (ends_popPending h) ?_
      rintro _ w₁ ⟨rfl, m, hm, hat⟩
      have hresolve := resolve_exit hflat hm hat hlength
      cases hmove : d.move? position.keys parent .childExit [] with
      | none =>
        rw [hmove] at hresolve
        refine ends_bind (ends_step_of_resolve hresolve) ?_
        rintro _ _ ⟨rfl, rfl⟩
        exact ends_flushWithin_nil ⟨m, hm, hat⟩
      | some keys' =>
        rw [hmove] at hresolve
        have hstands := Definition.StandsAt.of_move? hflat.sound hmove
        refine ends_bind (ends_step_flat hflat hm hat hresolve rfl hstands) ?_
        rintro _ w₂ ⟨change, rfl, h₂⟩
        refine ends_bind (ends_pushPending h₂) ?_
        intro _ w₃ h₃
        rw [List.nil_append] at h₃
        simp only []
        by_cases hleaf : keys'.length = parent + 1
        · -- The exit has led to a leaf one level further out, whose own exit is next.
          rw [if_pos hleaf]
          refine ends_bind (ih ⟨keys', parent, min position.top parent, true, []⟩ hleaf (by omega)
            h₃) ?_
          intro _ w₄ h₄
          exact ends_pure h₄
        · -- The exit has led into a composite, and as it settles nothing is left in the queue.
          rw [if_neg hleaf]
          rw [Definition.leafExits_of_move? hflat hsettle hmove hleaf] at h₃
          refine ends_bind (ends_flushWithin_nil h₃) ?_
          intro _ w₄ h₄
          exact ends_pure h₄
    · rw [if_neg hfinished] at h
      rw [if_neg hfinished]
      exact ends_flushWithin_nil h

/-- `Act.settle` of `d.leafExits` follows `d.drain`. -/
theorem ends_settle_flat (position : Position) (hflat : flat.Mirrors config.delimiter d)
    (hsettle : d.ExitsSettle config.terminal) (hdrain : config.followUps = .drain)
    (hdepth : d.depth ≤ 256)
    (h : w.FlatAt host link flat config d position.keys position.params []) :
    Ends (settle host link (d.leafExits config position.keys)) w fun _ w' =>
      w'.FlatAt host link flat config d
        (d.drain config.terminal (position.keys.length - 1) position).keys
        (d.drain config.terminal (position.keys.length - 1) position).params [] := by
  obtain ⟨m, hm, hat⟩ := h
  have hpos := List.length_pos_iff.2 hat.stands.ne_nil
  have hlast : position.keys.length = position.keys.length - 1 + 1 :=
    (Nat.succ_pred_eq_of_pos hpos).symm
  rw [settle]
  -- Without exits the machine is where draining ends. Else they are queued, and the queue is
  -- processed.
  by_cases hnone : d.leafExits config position.keys = []
  · rw [hnone, Definition.drain_of_leafExits hnone hlast]
    exact ends_pure ⟨m, hm, hat⟩
  · rw [if_neg (by rwa [List.isEmpty_iff])]
    refine ends_bind (ends_pushPending ⟨m, hm, hat⟩) ?_
    rintro _ w₁ ⟨m₁, hm₁, hat₁⟩
    have hpolicy : m₁.config.followUps = .drain := by
      rw [hat₁.settings]
      exact hdrain
    have hbound : m₁.config.maxFollowUps = 256 := by
      rw [hat₁.settings]
      rfl
    refine ends_get ?_
    simp only [hm₁, hpolicy, if_true]
    refine ends_discard ?_
    rw [flush]
    refine ends_get ?_
    simp only [hm₁, hbound]
    -- A level is left by each exit, and no definition is as deep as the queue is allowed to be
    -- long.
    have hlength := hat.stands.length_le
    exact ends_flushWithin_flat position hflat hsettle hlast (by omega) ⟨m₁, hm₁, hat₁⟩

/-! ## Starting and sending -/

/-- **`Act.startFlat` starts at `d.startKeys`.** -/
theorem ends_startFlat (hflat : flat.Mirrors config.delimiter d) (host : Host ρ γ)
    (w : World ρ γ) :
    Ends (startFlat host flat config) w fun result w' => ∃ link, result = .ok link ∧
      w'.FlatAt host link flat config d d.startKeys [] [] := by
  refine (ends_startFlat_machine hflat.toRenders host w).mono ?_
  rintro _ w' ⟨link, rfl, hm⟩
  refine ⟨link, rfl, _, hm, ⟨rfl, rfl, rfl⟩, ?_, rfl, rfl, rfl, hflat.orderly.standsAt_startKeys⟩
  intro subscriber hsubscriber
  cases hsubscriber

/-- `Act.dispatchLocal` of a domain event follows `d.drain?`. -/
theorem ends_dispatchLocal_flat (hflat : flat.Mirrors config.delimiter d)
    (hsettle : d.ExitsSettle config.terminal) (hdrain : config.followUps = .drain)
    (hdepth : d.depth ≤ 256) (h : w.FlatAt host link flat config d keys params []) {name : String}
    (hname : isReservedName name = false) :
    Ends (dispatchLocal host link (.domain name params')) w fun outcome? w' =>
      match d.drain? config.terminal keys (.domain name) params' with
      | none => outcome? = none ∧ w' = w
      | some next => outcome?.isSome ∧
          w'.FlatAt host link flat config d next.keys next.params [] := by
  obtain ⟨m, hm, hat⟩ := h
  have hresolve := resolve_domain hflat hm hat hname params'
  rw [dispatchLocal, Definition.drain?]
  cases hoffer : d.offer? keys (.domain name) params' (keys.length - 1) with
  | none =>
    rw [hoffer] at hresolve
    -- Nothing is offered at any level, so that nothing happens.
    refine ends_bind (ends_step_of_resolve hresolve) ?_
    rintro _ _ ⟨rfl, rfl⟩
    exact ends_get (ends_pure ⟨rfl, rfl⟩)
  | some found =>
    obtain ⟨depth, keys'⟩ := found
    rw [hoffer] at hresolve
    -- The innermost offer is taken, and what it brings about is drained.
    have hstands := Definition.StandsAt.of_move? hflat.sound
      (Definition.offer?_eq_some_iff.1 hoffer).2.1
    refine ends_bind (ends_step_flat hflat hm hat hresolve rfl hstands) ?_
    rintro _ w₁ ⟨change, rfl, m₁, hm₁, hat₁⟩
    refine ends_get ?_
    simp only [hm₁]
    refine ends_bind (ends_settle_flat ⟨keys', depth, depth, false, params'⟩ hflat hsettle hdrain
      hdepth ⟨m₁, hm₁, hat₁⟩) ?_
    intro _ w₂ h₂
    exact ends_pure ⟨rfl, h₂⟩

/-- **`Act.sendNamed` follows `d.drain?`**, with an outcome exactly if some level answers. Reserved
names are refused. -/
theorem ends_sendNamed_flat (hflat : flat.Mirrors config.delimiter d)
    (hsettle : d.ExitsSettle config.terminal) (hdrain : config.followUps = .drain)
    (hdepth : d.depth ≤ 256) (h : w.FlatAt host link flat config d keys params []) (name : String)
    (params' : Params) :
    Ends (sendNamed host link name params') w fun outcome? w' =>
      match if isReservedName name then none
        else d.drain? config.terminal keys (.domain name) params' with
      | none => outcome? = none ∧ w' = w
      | some next => outcome?.isSome ∧
          w'.FlatAt host link flat config d next.keys next.params [] := by
  rw [sendNamed]
  by_cases hname : isReservedName name = true
  · rw [if_pos hname, if_pos hname]
    exact ends_pure ⟨rfl, rfl⟩
  · rw [if_neg hname, if_neg hname, dispatch]
    refine ends_get ?_
    obtain ⟨m, hm, hat⟩ := h
    simp only [hm, hat.engine?, Option.filter_none]
    exact ends_dispatchLocal_flat hflat hsettle hdrain hdepth ⟨m, hm, hat⟩
      (Bool.not_eq_true _ ▸ hname)

end Act

end Statechart
