import Statechart.Proofs.Definition.Drain

/-! # Walks of a nested definition

A walk takes one event after the other and notes after each of them whether it was answered and
where the definition stands then. Events that are drained and events that rise are two ways to walk.

* **`Position.walk`**: the positions of a walk, one for each event.
* `Position.Leads`: the positions that walks come to.
* **`Position.walk_keys_eq_iff`**, `Position.walk_map_eq_iff`: two walks show the same on all lists
  of events exactly if they do after every single event.
* **`Definition.Sound.walk_keys_eq_iff`**: when walks by rising and by draining come through the
  same keys.
* `Definition.ExitsRest.walk_eq`: where exits come to rest, both are one. -/

namespace Statechart

/-- The position after an event, given the keys before it. -/
abbrev Reaction := List String → EventKey → Params → Option Position

namespace Position

variable {β : Type} {react react' : Reaction} {position position' next : Position}
  {event : String × Params} {events : List (String × Params)}

/-- **The position after a domain event is sent.** Reserved names are refused. -/
def send (react : Reaction) (position : Position) (event : String × Params) : Option Position :=
  if isReservedName event.1 then none else react position.keys (.domain event.1) event.2

/-- **The positions after each of some events**, with whether it was answered. -/
def walk (react : Reaction) : Position → List (String × Params) → List (Bool × Position)
  | _, [] => []
  | position, event :: rest =>
    let next? := position.send react event
    (next?.isSome, next?.getD position) :: (next?.getD position).walk react rest

/-- **`send` leads from one position to another.** -/
inductive Leads (react : Reaction) : Position → Position → Prop
  | here (position : Position) : Leads react position position
  | send {position next last : Position} {event : String × Params} :
    position.send react event = some next → Leads react next last → Leads react position last

/-- `Leads` with one more event at the end. -/
theorem Leads.snoc (h : Leads react position position')
    (hnext : position'.send react event = some next) : Leads react position next := by
  induction h with
  | here => exact .send hnext (.here next)
  | send hfirst _ ih => exact .send hfirst (ih hnext)

/-- `Leads` takes no event, or has a last one. -/
theorem Leads.eq_or_exists (h : Leads react position position') :
    position' = position ∨ ∃ before event, Leads react position before ∧
      before.send react event = some position' := by
  induction h with
  | here => exact Or.inl rfl
  | send hfirst _ ih =>
    right
    rcases ih with rfl | ⟨before, event, hbefore, hlast⟩
    · exact ⟨_, _, .here _, hfirst⟩
    · exact ⟨before, event, .send hfirst hbefore, hlast⟩

/-- `Leads` keeps what `send` keeps. -/
theorem Leads.invariant {P : Position → Prop} (h : Leads react position position')
    (hstart : P position)
    (hstep : ∀ position event next, P position → position.send react event = some next → P next) :
    P position' := by
  induction h with
  | here => exact hstart
  | send hfirst _ ih => exact ih (hstep _ _ _ hstart hfirst)

/-- The positions of `walk` are those that `Leads` comes to. -/
theorem leads_of_mem_walk {p : Bool × Position} (h : p ∈ position.walk react events) :
    Leads react position p.2 := by
  induction events generalizing position with
  | nil => cases h
  | cons event rest ih =>
    rw [walk] at h
    -- An event that is not answered stays where it is, and one that is answered is one step on the
    -- way.
    cases hnext : position.send react event with
    | none =>
      rw [hnext] at h
      rcases List.mem_cons.1 h with rfl | h
      · exact .here position
      · exact ih h
    | some next =>
      rw [hnext] at h
      rcases List.mem_cons.1 h with rfl | h
      · exact .send hnext (.here next)
      · exact .send hnext (ih h)

/-- `walk` is the same for two reactions that agree at all positions that `Leads` comes to. -/
theorem walk_congr
    (h : ∀ q, Leads react position q → ∀ event, q.send react event = q.send react' event) :
    position.walk react events = position.walk react' events := by
  induction events generalizing position with
  | nil => rfl
  | cons event rest ih =>
    rw [walk, walk, ← h position (.here position) event]
    cases hnext : position.send react event with
    | none => rw [Option.getD_none, ih h]
    | some next => rw [Option.getD_some, ih fun q hq => h q (.send hnext hq)]

/-- **`see` and `see'` agree on all walks exactly if they do at all positions that `Leads` comes
to.** -/
theorem walk_map_eq_iff {see see' : Position → β} (h : see position = see' position) :
    (∀ events, (position.walk react events).map (fun p => see p.2) =
      (position.walk react events).map fun p => see' p.2) ↔
    ∀ q, Leads react position q → see q = see' q := by
  constructor
  · intro hall q hq
    induction hq with
    | here => exact h
    | @send first next last event hfirst _ ih =>
      -- The event alone tells that both agree after it, and all lists that it starts tell the rest.
      have hone := hall [event]
      simp only [walk, hfirst, Option.getD_some, List.map_cons, List.map_nil, List.cons.injEq,
        and_true] at hone
      refine ih hone fun events => ?_
      have hrest := hall (event :: events)
      simp only [walk, hfirst, Option.getD_some, List.map_cons, List.cons.injEq] at hrest
      exact hrest.2
  · intro hall events
    induction events generalizing position with
    | nil => rfl
    | cons event rest ih =>
      rw [walk]
      simp only [List.map_cons, List.cons.injEq]
      cases hnext : position.send react event with
      | none =>
        rw [Option.getD_none]
        exact ⟨h, ih h hall⟩
      | some next =>
        rw [Option.getD_some]
        have hnow := hall next (.send hnext (.here next))
        exact ⟨hnow, ih hnow fun q hq => hall q (.send hnext hq)⟩

/-- `send` depends on `position.keys` alone. -/
theorem send_eq_of_keys (h : position.keys = position'.keys) :
    position.send react event = position'.send react event := by
  rw [send, send, h]

/-- The keys of `next?` and `next'?` agree exactly if both or none of them is there, and the keys of
the positions then agree. -/
theorem map_keys_eq_iff (h : position.keys = position'.keys) {next? next'? : Option Position} :
    next?.map keys = next'?.map keys ↔
      next?.isSome = next'?.isSome ∧ (next?.getD position).keys = (next'?.getD position').keys := by
  cases next? <;> cases next'? <;> simp [h]

/-- **Two walks come through the same keys on all events exactly if `send` leads both to the same
keys** at all positions that `Leads` comes to. -/
theorem walk_keys_eq_iff (h : position.keys = position'.keys) :
    (∀ events, (position.walk react events).map (fun p => (p.1, p.2.keys)) =
      (position'.walk react' events).map fun p => (p.1, p.2.keys)) ↔
    ∀ q, Leads react position q → ∀ event,
      (q.send react event).map keys = (q.send react' event).map keys := by
  -- Where both stand at the same keys, the second reaction may be looked at from either of them.
  have hmeet : ∀ {p p' : Position} {event}, p.keys = p'.keys →
      ((p.send react event).map keys = (p.send react' event).map keys ↔
        (p.send react event).isSome = (p'.send react' event).isSome ∧
          ((p.send react event).getD p).keys = ((p'.send react' event).getD p').keys) := by
    intro p p' event hkeys
    have hsend : p.send react' event = p'.send react' event := send_eq_of_keys hkeys
    rw [hsend, map_keys_eq_iff hkeys]
  constructor
  · intro hall q hq
    -- Each event that is taken shortens the list on which both walks agree.
    induction hq generalizing position' with
    | here first =>
      intro event
      have hone := hall [event]
      simp only [walk, List.map_cons, List.map_nil, List.cons.injEq, and_true,
        Prod.mk.injEq] at hone
      exact (hmeet h).2 hone
    | @send first next last event hfirst _ ih =>
      have hone := hall [event]
      simp only [walk, List.map_cons, List.map_nil, List.cons.injEq, and_true,
        Prod.mk.injEq] at hone
      rw [hfirst, Option.getD_some] at hone
      refine ih hone.2 fun events => ?_
      have hrest := hall (event :: events)
      simp only [walk, hfirst, Option.getD_some, List.map_cons, List.cons.injEq] at hrest
      exact hrest.2
  · intro hall events
    induction events generalizing position position' with
    | nil => rfl
    | cons event rest ih =>
      have hnow := (hmeet h).1 (hall position (.here position) event)
      rw [walk, walk]
      simp only [List.map_cons, List.cons.injEq, Prod.mk.injEq]
      refine ⟨hnow, ih hnow.2 fun q hq => ?_⟩
      cases hnext : position.send react event with
      | none =>
        rw [hnext, Option.getD_none] at hq
        exact hall q hq
      | some next =>
        rw [hnext, Option.getD_some] at hq
        exact hall q (.send hnext hq)

end Position

namespace Definition

variable {d : Definition} {delimiter : String} {policy : TerminalPolicy} {reach : Nat}
  {keys : List String} {event : EventKey} {params : Params} {position : Position}

/-! ## Rising and draining -/

/-- Where `d` stands at first. -/
def outset (d : Definition) : Position := { keys := d.startKeys }

/-- `d.outset.leafParams` is empty. -/
theorem leafParams_outset (d : Definition) : d.outset.leafParams = [] := by
  rw [Position.leafParams]
  exact ite_self _

/-- **`rise` does not change the keys after a `drain?` that ended with an exit.** -/
def NeverRisesOn (policy : TerminalPolicy) (d : Definition) : Prop :=
  ∀ position, Position.Leads (d.drain? policy) d.outset position → position.byExit = true →
    (d.rise policy position.turn position).keys = position.keys

/-- **A leaf that is entered with a composite has the data `leaf.data []`** also for the parameters
of the event. -/
def EntersAlike (policy : TerminalPolicy) (d : Definition) : Prop :=
  ∀ position leaf, Position.Leads (d.drain? policy) d.outset position →
    (StateDef.composite d).at? position.keys = some (.leaf leaf) →
    position.keys.length ≠ position.turn + 1 → leaf.data position.params = leaf.data []

/-- **`Leads` keeps `StandsAt`** if `react` does. -/
theorem Sound.standsAt_of_leads {react : Reaction} (hd : d.Sound delimiter)
    (hreact : ∀ keys event params next, react keys event params = some next → d.StandsAt next.keys)
    (h : Position.Leads react d.outset position) : d.StandsAt position.keys := by
  refine h.invariant (P := fun position => d.StandsAt position.keys)
    hd.orderly.standsAt_startKeys ?_
  intro position event next _ hnext
  rw [Position.send] at hnext
  split at hnext
  · cases hnext
  · exact hreact _ _ _ _ hnext

/-- `Leads` of `d.drain?` keeps `StandsAt`. -/
theorem Sound.standsAt_of_leads_drain? (hd : d.Sound delimiter)
    (h : Position.Leads (d.drain? policy) d.outset position) : d.StandsAt position.keys :=
  hd.standsAt_of_leads (fun _ _ _ _ => StandsAt.drain? hd) h

/-- `Leads` of `d.react?` keeps `StandsAt`. -/
theorem Sound.standsAt_of_leads_react? (hd : d.Sound delimiter)
    (h : Position.Leads (d.react? policy reach) d.outset position) : d.StandsAt position.keys :=
  hd.standsAt_of_leads (fun _ _ _ _ => StandsAt.react? hd) h

/-- `d.react?` is `d.offer?` and then `d.rise` if `d.depth ≤ reach`. -/
theorem StandsAt.react?_eq (h : d.StandsAt keys) (hd : d.Sound delimiter)
    (hreach : d.depth ≤ reach) :
    d.react? policy reach keys event params =
      (d.offer? keys event params (keys.length - 1)).map fun (depth, keys) =>
        d.rise policy (keys.length - 1) { keys, turn := depth, top := depth, params } := by
  have hlength := h.length_le
  rw [Definition.react?, Nat.min_eq_left (by omega)]
  cases hoffer : d.offer? keys event params (keys.length - 1) with
  | none => rfl
  | some found =>
    obtain ⟨depth, keys'⟩ := found
    have hlength' := (StandsAt.of_move? hd (offer?_eq_some_iff.1 hoffer).2.1).length_le
    simp only [Option.map_some]
    rw [Nat.min_eq_left (by omega)]

/-- `d.react?` is `d.drain?` if exits come to rest. -/
theorem ExitsRest.react?_eq_drain? (h : d.ExitsRest policy) (hd : d.Sound delimiter)
    (hliteral : d.IsLiteral) (hreach : d.depth ≤ reach) (hkeys : d.StandsAt keys) :
    d.react? policy reach keys event params = d.drain? policy keys event params := by
  rw [hkeys.react?_eq hd hreach, Definition.drain?]
  simp only [h.rise_eq_drain hd hliteral]

/-- The keys of `d.drain?` and `d.react?` agree exactly if `d.rise` does not go on after an exit. -/
theorem StandsAt.react?_keys_eq_iff (h : d.StandsAt keys) (hd : d.Sound delimiter)
    (hreach : d.depth ≤ reach) :
    (d.drain? policy keys event params).map Position.keys =
        (d.react? policy reach keys event params).map Position.keys ↔
      ∀ next, d.drain? policy keys event params = some next → next.byExit = true →
        (d.rise policy next.turn next).keys = next.keys := by
  rw [h.react?_eq hd hreach, Definition.drain?]
  cases d.offer? keys event params (keys.length - 1) with
  | none => simp
  | some found =>
    obtain ⟨depth, keys'⟩ := found
    simp only [Option.map_some, Option.some.injEq, forall_eq']
    rcases rise_eq policy d (keys'.length - 1) ⟨keys', depth, depth, false, params⟩ with
      ⟨hdrain, hrise⟩ | ⟨hexit, hrise⟩
    · rw [hdrain, hrise]
      simp
    · rw [hrise]
      exact ⟨fun hkeys _ => hkeys.symm, fun hkeys => (hkeys hexit).symm⟩

/-- **The walks of `d.drain?` and `d.react?` come through the same keys exactly if
`d.NeverRisesOn`.** -/
theorem Sound.walk_keys_eq_iff (hd : d.Sound delimiter) (hreach : d.depth ≤ reach) :
    (∀ events, (d.outset.walk (d.drain? policy) events).map (fun p => (p.1, p.2.keys)) =
      (d.outset.walk (d.react? policy reach) events).map fun p => (p.1, p.2.keys)) ↔
    d.NeverRisesOn policy := by
  rw [Position.walk_keys_eq_iff rfl]
  constructor
  · intro hall position hposition hexit
    -- An exit was answered last, so the position comes of an event, at which the walks agree.
    rcases hposition.eq_or_exists with rfl | ⟨before, event, hbefore, hlast⟩
    · cases hexit
    · have hkeys := hall before hbefore event
      rw [Position.send] at hlast
      rw [Position.send, Position.send] at hkeys
      split at hlast
      · cases hlast
      · rename_i hname
        rw [if_neg hname, if_neg hname,
          (hd.standsAt_of_leads_drain? hbefore).react?_keys_eq_iff hd hreach] at hkeys
        exact hkeys position hlast hexit
  · intro hnever position hposition event
    by_cases hname : isReservedName event.1 = true
    · rw [Position.send, Position.send, if_pos hname, if_pos hname]
    · have hsend : position.send (d.drain? policy) event =
          d.drain? policy position.keys (.domain event.1) event.2 := if_neg hname
      rw [hsend, Position.send, if_neg hname,
        (hd.standsAt_of_leads_drain? hposition).react?_keys_eq_iff hd hreach]
      intro next hnext hexit
      exact hnever next (hposition.snoc (hsend.trans hnext)) hexit

/-- **The walks of `d.drain?` and `d.react?` are the same if exits come to rest.** -/
theorem ExitsRest.walk_eq (h : d.ExitsRest policy) (hd : d.Sound delimiter)
    (hliteral : d.IsLiteral) (hreach : d.depth ≤ reach) (events : List (String × Params)) :
    d.outset.walk (d.drain? policy) events = d.outset.walk (d.react? policy reach) events := by
  refine Position.walk_congr fun position hposition event => ?_
  rw [Position.send, Position.send,
    h.react?_eq_drain? hd hliteral hreach (hd.standsAt_of_leads_drain? hposition)]

end Definition

end Statechart
