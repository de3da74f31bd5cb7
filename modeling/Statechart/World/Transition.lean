import Statechart.World.Construction

/-!
# Transitions of one machine in a world

* `Act.resolve`: finds out what an event does to a machine, without doing it. The new state is made
  on the way, with its child.
* `Act.transition`: enters the new state and tells the subscribers.
* `Act.noteBelow`: records that something below a machine changed.
* `Act.flush`: processes follow-up events, a bounded number of them.
* `Act.dispatchLocal`: all of this for one event, by the machine itself.
-/

namespace Statechart

variable {ρ γ : Type}

/-- **What an event will do to a machine**, as `Act.resolve` finds out. -/
structure Resolution where
  event : Event
  /-- The state it arrives in. -/
  source : Placed
  /-- The state that will be entered. -/
  target : State
  /-- The key under which the answer was found. -/
  matched : String
  deriving Inhabited

namespace Act

/-- The first of several answers that leads to a state, with the key it is filed under. -/
def firstMade (host : Host ρ γ) (factory : Factory (StatePlan ρ)) (context : EventContext) :
    List (String × Spec (StatePlan ρ)) → Act ρ γ (Option (String × State))
  | [] => return none
  | (key, spec) :: rest => do
    match spec.resolve factory context with
    | none => firstMade host factory context rest
    | some plan =>
      match ← plan.realise host with
      | some state => return some (key, state)
      | none => firstMade host factory context rest

/-- **Find out what `event` does to the machine at `link`.** The new state is made on the way. -/
def resolve (host : Host ρ γ) (link : Link) (event : Event) : Act ρ γ (Option Resolution) := do
  match (← get).machine? link with
  | none => return none
  | some m =>
    if event.isMisnamed then return none
    match m.candidates? event with
    -- The keys to look under never end, and none of them need have an answer.
    | none => failure
    | some candidates =>
      let found ← firstMade host m.factory ⟨event, m.current.state⟩ candidates
      return found.map fun (matched, target) => { event, source := m.current, target, matched }

/-- Tell the subscribers of the machine at `link` of `change`. -/
def notify (host : Host ρ γ) (link : Link) (change : Change) : Act ρ γ Unit := do
  match (← get).machine? link with
  | none => return ()
  | some m => m.listeners.round.forM fun subscriber => host.observe subscriber change

/-- **Enter the target of `resolution`** and tell the subscribers. The result is the change, with
the follow-ups. -/
def transition (host : Host ρ γ) (link : Link) (resolution : Resolution) :
    Act ρ γ (Option (Change × List Event)) := do
  match (← get).machine? link with
  | none => return none
  | some m =>
    let change := m.changeTo resolution.event resolution.source resolution.target
    -- The machine has moved before anyone learns of it.
    setCell link (.machine (m.commit change))
    notify host link change
    return some (change, m.followUps resolution.target)

/-- **Record that `child` changed by `inner`**, and tell the subscribers. -/
def noteBelow (host : Host ρ γ) (link : Link) (child : ChildRef) (inner : Event) :
    Act ρ γ Unit := do
  match (← get).machine? link with
  | none => return ()
  | some m =>
    let change := m.changeBelow child inner
    setCell link (.machine (m.commit change))
    notify host link change

/-- `resolve` and then `transition`. -/
def step (host : Host ρ γ) (link : Link) (event : Event) :
    Act ρ γ (Option (Change × List Event)) := do
  match ← resolve host link event with
  | none => return none
  | some resolution => transition host link resolution

/-- Take the first of `pending` of the machine at `link`. -/
def popPending (link : Link) : Act ρ γ (Option Event) := do
  match (← get).machine? link with
  | none => return none
  | some m =>
    match m.pending with
    | [] => return none
    | event :: rest =>
      setCell link (.machine { m with pending := rest })
      return some event

/-- Append `events` to `pending` of the machine at `link`. -/
def pushPending (link : Link) (events : List Event) : Act ρ γ Unit :=
  updateMachine link fun m => { m with pending := m.pending ++ events }

/-- Empty `pending` of the machine at `link`. The result is how many there were. -/
def cancelPending (link : Link) : Act ρ γ Nat := do
  match (← get).machine? link with
  | none => return 0
  | some m =>
    setCell link (.machine { m with pending := [] })
    return m.pending.length

/-- Process at most `bound` follow-ups of a machine; if there are more, forget them all. The result
is how many were applied. -/
def flushWithin (host : Host ρ γ) (link : Link) : Nat → Act ρ γ Nat
  | 0 => do
    -- The allowance is used up.
    discard <| cancelPending link
    return 0
  | bound + 1 => do
    match ← popPending link with
    | none => return 0
    | some event =>
      match ← step host link event with
      | none => flushWithin host link bound
      | some (_, followUps) =>
        pushPending link followUps
        return (← flushWithin host link bound) + 1

/-- **Process `pending` of the machine at `link`**, up to `maxFollowUps`. -/
def flush (host : Host ρ γ) (link : Link) : Act ρ γ Nat := do
  match (← get).machine? link with
  | none => return 0
  | some m => flushWithin host link m.config.maxFollowUps

/-- `pushPending`, and then `flush` if follow-ups are drained. -/
def settle (host : Host ρ γ) (link : Link) (followUps : List Event) : Act ρ γ Unit := do
  if followUps.isEmpty then return ()
  pushPending link followUps
  match (← get).machine? link with
  | none => return ()
  | some m => if m.config.followUps = .drain then discard <| flush host link

/-- **Let the machine at `link` handle `event` itself**: `step` and then `settle`. -/
def dispatchLocal (host : Host ρ γ) (link : Link) (event : Event) : Act ρ γ (Option Outcome) := do
  match ← step host link event, (← get).machine? link with
  | some (change, followUps), some m =>
    settle host link followUps
    return some (m.outcome change)
  | _, _ => return none

end Act

end Statechart
