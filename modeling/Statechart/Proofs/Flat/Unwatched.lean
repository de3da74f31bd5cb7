import Statechart.Proofs.Flat.Entering

/-! # A flat machine that nobody watches

A machine of a flat form that has no subscribers and is registered nowhere is alone with the events
it gets. What becomes of it is then a matter of the machine itself: nothing else in the world has a
part in it, and everything that it does comes to an end.

* `Machine.turn?`: the machine after the answer to an event.
* `Machine.drained`, `Machine.settled`: the machine after its follow-ups.
* **`Machine.handled?`**: the machine after all that an event brings about.
* **`Act.ends_dispatch_alone`**: this is what becomes of it in a world.
* `Act.record`, `Act.ends_record_alone`: what is seen of a run of sends. -/

namespace Statechart

variable {ρ γ : Type} {flat : FlatDefinition} {config : FlattenConfig} {host : Host ρ γ}
  {w : World ρ γ} {link : Link} {m m' : Machine (StatePlan ρ)} {event : Event}

namespace Machine

/-! ## What becomes of the machine -/

/-- **`m` is alone**: it has no subscribers, and no engine routes its events. -/
structure IsAlone (m : Machine (StatePlan ρ)) : Prop where
  round : m.listeners.round = []
  engine? : m.engine? = none

/-- `IsAlone` for another queue. -/
theorem IsAlone.setPending (h : m.IsAlone) (pending : List Event) : IsAlone { m with pending } :=
  ⟨h.round, h.engine?⟩

/-- `Machine.commit` keeps `IsAlone`. -/
theorem IsAlone.commit (h : m.IsAlone) (change : Change) : (m.commit change).IsAlone :=
  ⟨h.round, h.engine?⟩

/-- **`m` after the answer to `event`**, with the change. There is none without an answer. -/
def turn? (m : Machine (StatePlan ρ)) (flat : FlatDefinition) (event : Event) :
    Option (Change × Machine (StatePlan ρ)) :=
  ((m.finds? flat event).getD none).map fun found =>
    let change := m.changeTo event m.current found.2
    (change, m.commit change)

/-- `m` with `m.followUps` of its current state appended to the queue. -/
def queued (m : Machine (StatePlan ρ)) : Machine (StatePlan ρ) :=
  { m with pending := m.pending ++ m.followUps m.current.state }

/-- **`m` after its queue has been processed**, up to a bound on the events. -/
def drained (flat : FlatDefinition) : Nat → Machine (StatePlan ρ) → Machine (StatePlan ρ)
  | 0, m => { m with pending := [] }
  | bound + 1, m =>
    match m.pending with
    | [] => m
    | event :: rest =>
      match Machine.turn? { m with pending := rest } flat event with
      | none => drained flat bound { m with pending := rest }
      | some (_, m') => drained flat bound m'.queued

/-- **`m` after the follow-ups of its current state**: they are queued and, if they do not wait,
processed. -/
def settled (flat : FlatDefinition) (m : Machine (StatePlan ρ)) : Machine (StatePlan ρ) :=
  if m.followUps m.current.state = [] then m
  else if m.config.followUps = .drain then m.queued.drained flat m.config.maxFollowUps
  else m.queued

/-- **`m` after all that `event` brings about**, with its change. There is none without an
answer. -/
def handled? (m : Machine (StatePlan ρ)) (flat : FlatDefinition) (event : Event) :
    Option (Change × Machine (StatePlan ρ)) :=
  (m.turn? flat event).map fun p => (p.1, p.2.settled flat)

/-- `m.turn?` is `m.commit` to what `m.finds?` finds. -/
theorem of_turn? {change : Change} (h : m.turn? flat event = some (change, m')) :
    ∃ found, m.finds? flat event = some (some found) ∧
      change = m.changeTo event m.current found.2 ∧ m' = m.commit change := by
  obtain ⟨found, hfound, heq⟩ := Option.map_eq_some_iff.1 h
  cases heq
  cases hfinds : m.finds? flat event with
  | none =>
    rw [hfinds] at hfound
    cases hfound
  | some found? =>
    rw [hfinds, Option.getD_some] at hfound
    exact ⟨found, by rw [hfound], rfl, rfl⟩

/-- `turn?` keeps `RunsFlat` and `IsAlone`. -/
theorem keeps_of_turn? {change : Change} (h : m.turn? flat event = some (change, m'))
    (hruns : m.RunsFlat flat config) (halone : m.IsAlone) :
    m'.RunsFlat flat config ∧ m'.IsAlone := by
  obtain ⟨found, -, -, rfl⟩ := of_turn? h
  exact ⟨hruns.commit _, halone.commit _⟩

/-- `drained` keeps `RunsFlat` and `IsAlone`. -/
theorem keeps_drained (bound : Nat) (hruns : m.RunsFlat flat config) (halone : m.IsAlone) :
    (m.drained flat bound).RunsFlat flat config ∧ (m.drained flat bound).IsAlone := by
  induction bound generalizing m with
  | zero => exact ⟨hruns.setPending [], halone.setPending []⟩
  | succ bound ih =>
    rw [drained]
    cases hpending : m.pending with
    | nil => exact ⟨hruns, halone⟩
    | cons event rest =>
      -- The first event is taken from the queue, whether it has an answer or not.
      have hruns₁ := hruns.setPending rest
      have halone₁ := halone.setPending rest
      cases hturn : turn? { m with pending := rest } flat event with
      | none =>
        simp only [hturn]
        exact ih hruns₁ halone₁
      | some p =>
        obtain ⟨change, m'⟩ := p
        obtain ⟨hruns', halone'⟩ := keeps_of_turn? hturn hruns₁ halone₁
        simp only [hturn]
        exact ih (hruns'.setPending _) (halone'.setPending _)

/-- `handled?` keeps `RunsFlat` and `IsAlone`. -/
theorem keeps_of_handled? {change : Change} (h : m.handled? flat event = some (change, m'))
    (hruns : m.RunsFlat flat config) (halone : m.IsAlone) :
    m'.RunsFlat flat config ∧ m'.IsAlone := by
  obtain ⟨⟨change, m₁⟩, hturn, heq⟩ := Option.map_eq_some_iff.1 h
  cases heq
  obtain ⟨hruns₁, halone₁⟩ := keeps_of_turn? hturn hruns halone
  have hqueued : m₁.queued.RunsFlat flat config ∧ m₁.queued.IsAlone :=
    ⟨hruns₁.setPending _, halone₁.setPending _⟩
  rw [settled]
  split
  · exact ⟨hruns₁, halone₁⟩
  · split
    · exact keeps_drained _ hqueued.1 hqueued.2
    · exact hqueued

/-- `m.turn?` leads to the state of a leaf. -/
theorem exists_leaf_of_turn? {change : Change} (h : m.turn? flat event = some (change, m')) :
    ∃ leaf ∈ flat.leaves, m'.current.state = leaf.state event.params := by
  obtain ⟨found, hfound, rfl, rfl⟩ := of_turn? h
  obtain ⟨paths, -, hmade⟩ := of_finds? hfound
  exact (FlatDefinition.of_made? hmade).2.2

end Machine

/-! ## The machine in a world -/

namespace Act

/-- `Act.enter` follows `m.turn?`. -/
theorem run_enter_alone (hone : config.delimiter.length = 1) (hm : w.machine? link = some m)
    (h : m.RunsFlat flat config) (event : Event) :
    (enter host link event).run w = some (match m.turn? flat event with
      | none => (none, w)
      | some (change, m') =>
        (some (change, m'.followUps m'.current.state), w.setCell link (.machine m'))) := by
  obtain ⟨paths, hpaths⟩ := h.exists_lookupKeys? hone event
  obtain ⟨found?, hfinds⟩ : ∃ found?, m.finds? flat event = some found? := by
    rw [Machine.finds?, hpaths]
    split
    · exact ⟨_, rfl⟩
    · exact ⟨_, rfl⟩
  rw [run_enter hm h, Machine.turn?, hfinds]
  cases found? <;> rfl

/-- **`Act.step` follows `m.turn?` if `m` is alone.** -/
theorem ends_step_alone (hone : config.delimiter.length = 1) (hm : w.machine? link = some m)
    (h : m.RunsFlat flat config) (halone : m.IsAlone) (event : Event) :
    Ends (step host link event) w fun result w' => match m.turn? flat event with
      | none => result = none ∧ w'.machine? link = some m
      | some (change, m') => result = some (change, m'.followUps m'.current.state) ∧
        w'.machine? link = some m' := by
  have henter : (enter host link event).run w = _ := run_enter_alone hone hm h event
  rw [step_eq]
  cases hturn : m.turn? flat event with
  | none =>
    rw [hturn] at henter
    exact ends_bind_of_run henter (ends_pure ⟨rfl, hm⟩)
  | some p =>
    obtain ⟨change, m'⟩ := p
    rw [hturn] at henter
    refine ends_bind_of_run henter ?_
    have hm' : (w.setCell link (.machine m')).machine? link = some m' :=
      World.machine?_setCell_self hm
    -- There is nobody to learn of the change.
    have hnotify : (notify host link change).run (w.setCell link (.machine m')) =
        some ((), w.setCell link (.machine m')) := by
      simp [notify, StateT.run_bind, hm', (Machine.keeps_of_turn? hturn h halone).2.round]
    exact ends_bind_of_run hnotify (ends_pure ⟨rfl, hm'⟩)

/-- **`Act.flushWithin` leaves `m.drained` if `m` is alone**, by induction on `bound`. -/
theorem ends_flushWithin_alone (hone : config.delimiter.length = 1) (bound : Nat)
    (hm : w.machine? link = some m) (h : m.RunsFlat flat config) (halone : m.IsAlone) :
    Ends (flushWithin host link bound) w fun _ w' =>
      w'.machine? link = some (m.drained flat bound) := by
  induction bound generalizing w m with
  | zero =>
    exact ends_bind (ends_discard_cancelPending hm) fun _ _ hw' => ends_pure hw'
  | succ bound ih =>
    rw [flushWithin, Machine.drained]
    cases hpending : m.pending with
    | nil =>
      refine ends_bind (ends_popPending_of_nil hm hpending) ?_
      rintro _ _ ⟨rfl, rfl⟩
      exact ends_pure hm
    | cons event rest =>
      -- The first event is taken from the queue. With an answer, its follow-ups are queued behind
      -- the rest.
      refine ends_bind (ends_popPending_of_cons hm hpending) ?_
      rintro _ w₁ ⟨rfl, hm₁⟩
      have h₁ := h.setPending rest
      have halone₁ := halone.setPending rest
      refine ends_bind (ends_step_alone hone hm₁ h₁ halone₁ event) fun result w₂ hw₂ => ?_
      cases hturn : Machine.turn? { m with pending := rest } flat event with
      | none =>
        rw [hturn] at hw₂
        obtain ⟨rfl, hm₂⟩ := hw₂
        simp only [hturn]
        exact ih hm₂ h₁ halone₁
      | some p =>
        obtain ⟨change, m'⟩ := p
        rw [hturn] at hw₂
        obtain ⟨rfl, hm₂⟩ := hw₂
        obtain ⟨h₂, halone₂⟩ := Machine.keeps_of_turn? hturn h₁ halone₁
        simp only [hturn]
        refine ends_bind (ends_pushPending_of_machine? hm₂ _) fun _ w₃ hm₃ => ?_
        exact ends_bind (ih hm₃ (h₂.setPending _) (halone₂.setPending _))
          fun _ _ hw₄ => ends_pure hw₄

/-- `Act.settle` leaves `m.settled` if `m` is alone. -/
theorem ends_settle_alone (hone : config.delimiter.length = 1) (hm : w.machine? link = some m)
    (h : m.RunsFlat flat config) (halone : m.IsAlone) :
    Ends (settle host link (m.followUps m.current.state)) w fun _ w' =>
      w'.machine? link = some (m.settled flat) := by
  rw [settle, Machine.settled]
  -- Without follow-ups nothing is queued, and only a machine that drains processes its queue.
  by_cases hnone : m.followUps m.current.state = []
  · rw [hnone, if_pos List.isEmpty_nil, if_pos rfl]
    exact ends_pure hm
  · rw [if_neg (by rwa [List.isEmpty_iff]), if_neg hnone]
    refine ends_bind (ends_pushPending_of_machine? hm _) fun _ w₁ hm₁ => ends_get ?_
    simp only [hm₁]
    split
    · refine ends_discard ?_
      rw [flush]
      refine ends_get ?_
      simp only [hm₁]
      exact ends_flushWithin_alone hone _ hm₁ (h.setPending _) (halone.setPending _)
    · exact ends_pure hm₁

/-- **`Act.dispatch` follows `m.handled?` if `m` is alone.** -/
theorem ends_dispatch_alone (hone : config.delimiter.length = 1) (hm : w.machine? link = some m)
    (h : m.RunsFlat flat config) (halone : m.IsAlone) (event : Event) :
    Ends (dispatch host link event) w fun outcome? w' =>
      outcome? = (m.handled? flat event).map (fun p => m.outcome p.1) ∧
        w'.machine? link = some (((m.handled? flat event).map (·.2)).getD m) := by
  rw [dispatch]
  refine ends_get ?_
  simp only [hm, halone.engine?, Option.filter_none]
  rw [dispatchLocal, Machine.handled?]
  refine ends_bind (ends_step_alone hone hm h halone event) fun result w₁ hw₁ => ?_
  cases hturn : m.turn? flat event with
  | none =>
    rw [hturn] at hw₁
    obtain ⟨rfl, hm₁⟩ := hw₁
    exact ends_get (ends_pure ⟨rfl, hm₁⟩)
  | some p =>
    obtain ⟨change, m'⟩ := p
    rw [hturn] at hw₁
    obtain ⟨rfl, hm₁⟩ := hw₁
    obtain ⟨h₁, halone₁⟩ := Machine.keeps_of_turn? hturn h halone
    -- What is told of the outcome was settled by the answer, before any follow-ups.
    have hid : m'.outcome change = m.outcome change := by
      obtain ⟨-, -, -, rfl⟩ := Machine.of_turn? hturn
      rfl
    refine ends_get ?_
    simp only [hm₁]
    refine ends_bind (ends_settle_alone hone hm₁ h₁ halone₁) fun _ w₂ hm₂ => ends_pure ⟨?_, hm₂⟩
    rw [hid]
    rfl

end Act

/-! ## Runs of sends -/

/-- **What is seen after a send**: the outcome, the key of the current state, `history.changes`, and
how many follow-ups wait. -/
structure Report where
  outcome? : Option Outcome
  key? : Option String
  changes : List ChangeSummary
  waiting : Nat
  deriving DecidableEq

/-- The fields of `Report` but `waiting`. -/
def Report.course (report : Report) : Option Outcome × Option String × List ChangeSummary :=
  (report.outcome?, report.key?, report.changes)

/-- **Record a run**: send the events one after the other, with a `Report` after each. -/
def Act.record (host : Host ρ γ) (link : Link) :
    List (String × Params) → Act ρ γ (List Report)
  | [] => return []
  | (name, params) :: rest => do
    let outcome? ← Act.sendNamed host link name params
    let m? := (← get).machine? link
    let report : Report := {
      outcome?
      key? := m?.map (·.current.state.key)
      changes := (m?.map (·.history.changes)).getD []
      waiting := (m?.map (·.pending.length)).getD 0 }
    return report :: (← Act.record host link rest)

namespace Machine

/-- `m` after a domain event has been sent to it, with the change. -/
def sent? (m : Machine (StatePlan ρ)) (flat : FlatDefinition) (send : String × Params) :
    Option (Change × Machine (StatePlan ρ)) :=
  if isReservedName send.1 then none else m.handled? flat (.domain send.1 send.2)

/-- `m` after a send, whether it was answered or not. -/
def after (m : Machine (StatePlan ρ)) (flat : FlatDefinition) (send : String × Params) :
    Machine (StatePlan ρ) :=
  ((m.sent? flat send).map (·.2)).getD m

/-- The `Report` of `m` after a send. -/
def report (m : Machine (StatePlan ρ)) (flat : FlatDefinition) (send : String × Params) :
    Report where
  outcome? := (m.sent? flat send).map fun p => m.outcome p.1
  key? := some (m.after flat send).current.state.key
  changes := (m.after flat send).history.changes
  waiting := (m.after flat send).pending.length

/-- **The `Report`s of `m` in a run of sends.** -/
def reports (m : Machine (StatePlan ρ)) (flat : FlatDefinition) :
    List (String × Params) → List Report
  | [] => []
  | send :: rest => m.report flat send :: (m.after flat send).reports flat rest

end Machine

/-- **`Act.record` gives `m.reports` if `m` is alone.** -/
theorem Act.ends_record_alone (hone : config.delimiter.length = 1) (hm : w.machine? link = some m)
    (h : m.RunsFlat flat config) (halone : m.IsAlone) (sends : List (String × Params)) :
    Ends (record host link sends) w fun reports _ => reports = m.reports flat sends := by
  induction sends generalizing w m with
  | nil => exact ends_pure rfl
  | cons send rest ih =>
    obtain ⟨name, params⟩ := send
    -- A name that is reserved is turned away, and the machine stays as it is.
    have hsend : Ends (sendNamed host link name params) w fun outcome? w' =>
        outcome? = (m.sent? flat (name, params)).map (fun p => m.outcome p.1) ∧
          w'.machine? link = some (m.after flat (name, params)) := by
      rw [sendNamed, Machine.after, Machine.sent?]
      split
      · exact ends_pure ⟨rfl, hm⟩
      · exact ends_dispatch_alone hone hm h halone _
    have hkeeps : (m.after flat (name, params)).RunsFlat flat config ∧
        (m.after flat (name, params)).IsAlone := by
      rw [Machine.after]
      cases hsent : m.sent? flat (name, params) with
      | none => exact ⟨h, halone⟩
      | some p =>
        obtain ⟨change, m'⟩ := p
        rw [Machine.sent?] at hsent
        split at hsent
        · cases hsent
        · exact Machine.keeps_of_handled? hsent h halone
    rw [record]
    refine ends_bind hsend ?_
    rintro _ w₁ ⟨rfl, hm₁⟩
    refine ends_get ?_
    refine ends_bind (ih hm₁ hkeeps.1 hkeeps.2) ?_
    rintro _ w₂ rfl
    refine ends_pure ?_
    rw [hm₁]
    rfl

end Statechart
