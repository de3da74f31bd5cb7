import Statechart.Flat.Format
import Statechart.Session.Script
import Statechart.State.Format
import Statechart.World.Hierarchy

/-!
# What a session remembers and writes

* `Desk`: labels, log, subscribers, handles and slots of a session.
* `Play`: something that happens in a session.
* `Play.ofRef`, `Play.ofEvent`: from the forms of a script to events.
* `Play.writeEvent`, `Play.writeState` and so on: from events, states, changes and so on to JSON.

Machines are written by labels `m0`, `m1`, …, given out in the order in which identities are first
written. So writing is something that happens, and its order matters.
-/

namespace Statechart.Session

/-- A handle of a subscription. -/
inductive Handle where
  /-- Of a subscription to a machine. -/
  | machine (link : Link) (number : Nat)
  /-- Of a subscription to the graphs of an engine. -/
  | engine (engine number : Nat)
  /-- Of a subscription to nothing. -/
  | inert
  deriving Inhabited

/-- **What a session remembers.** -/
structure Desk where
  /-- The machine that is driven, or the root of the hierarchy. -/
  driven? : Option Link := none
  /-- The identities that have labels, in order. -/
  labels : List MachineId := []
  /-- What was written down since the last report, the last entry first. -/
  log : List Value := []
  /-- All subscribers there have been, each with the uses that its rules have left. -/
  subscribers : Array Subscriber := #[]
  /-- The handles by the names of the subscribers. -/
  handles : Dict String Handle := .empty
  /-- The resolutions in slots. -/
  resolutions : Dict String Resolution := .empty
  /-- The children in slots. -/
  children : Dict String Link := .empty
  /-- The flat definition that the machine runs, with the number of its graph. -/
  flat? : Option (Nat × FlatDefinition) := none
  /-- The number of the graph that was shown last. -/
  shownGraph? : Option Nat := none
  /-- When the state was entered that was reported last. -/
  reportedState : Nat := 0
  /-- The revision of the change that was reported last. -/
  reportedChange? : Option Nat := none
  deriving Inhabited

/-- **Something that happens in a session.** -/
abbrev Play (α : Type) := Act Subscriber Desk α

namespace Play

/-- What the session remembers. -/
def desk : Play Desk := return (← get).guest

/-- Change what the session remembers. -/
def update (f : Desk → Desk) : Play Unit := modify fun w => { w with guest := f w.guest }

/-- Write an entry into the log. -/
def note (entry : Value) : Play Unit := update fun d => { d with log := entry :: d.log }

/-! ## From forms -/

/-- The label of a place in the order of first writing. -/
def labelText (place : Nat) : String := "m" ++ toString place

/-- The identity that a label or a text stands for. An unknown text stands for a new identity. -/
def ofLabel (label : String) : Play MachineId := do
  let labels := (← desk).labels
  match labels.zipIdx.find? fun (_, place) => labelText place == label with
  | some (id, _) => return id
  | none =>
    match Uuid.ofText? label with
    | some uuid => return .given uuid
    | none => Act.mint

/-- The reference that a form stands for. -/
def ofRef : RefForm → Play ChildRef
  | .path path => return .path path
  | .machine label => return .machine (← ofLabel label)

/-- **The event that a form stands for.** -/
def ofEvent : EventForm → Play Event
  | .domain name params => return .domain name params
  | .exit child => return .childExit (← ofRef child)
  | .change child inner => return .childChange (← ofRef child) (← ofEvent inner)

/-! ## To JSON -/

/-- The label of an identity; a new one if it has none. -/
def writeId (id : MachineId) : Play Value := do
  let labels := (← desk).labels
  match labels.idxOf? id with
  | some place => return .string (labelText place)
  | none =>
    update fun d => { d with labels := d.labels ++ [id] }
    return .string (labelText labels.length)

/-- The label of a child, or `null`. -/
def writeLink : Option Link → Play Value
  | none => return .null
  | some link => do
    match (← get).id? link with
    | some id => writeId id
    | none => return .null

/-- A reference to a child. -/
def writeRef : ChildRef → Play Value
  | .path keys => return .object [("path", .string keys)]
  | .machine id => return .object [("machine", ← writeId id)]

/-- **An event**, a reference before what is inside. -/
def writeEvent : Event → Play Value
  | .domain name params =>
    return .object [("domain", .string name), ("params", .array params)]
  | .childExit child => return .object [("exit", ← writeRef child)]
  | .childChange child inner => do
    let child ← writeRef child
    let inner ← writeEvent inner
    return .object [("change", .object [("child", child), ("inner", inner)])]

/-- **A state.** -/
def writeState (state : State) : Play Value := do
  return .object
    [("key", .string state.key), ("data", state.data), ("final", .bool state.isFinal),
      ("child", ← writeLink state.child)]

/-- **A change.** -/
def writeChange (change : Change) : Play Value := do
  return .object
    [("type", .string change.event.name), ("event", ← writeEvent change.event),
      ("params", .array change.event.params), ("from", .string change.source.state.key),
      ("to", .string change.target.state.key), ("data", change.target.state.data),
      ("revision", .number change.revision), ("same", .bool change.isStay),
      ("child_change", .bool change.event.isChildChange)]

/-- **An outcome.** -/
def writeOutcome : Option Outcome → Play Value
  | none => return .null
  | some outcome => do
    return .object
      [("machine", ← writeId outcome.machine), ("event", .string outcome.event),
        ("from", .string outcome.source), ("to", .string outcome.target),
        ("depth", .number outcome.depth)]

/-- The result of trying an event. -/
def writeAttempt : Attempt → Play Value
  | .applied outcome => do return .object [("applied", ← writeOutcome (some outcome))]
  | .unhandled => return .string "unhandled"
  | .unsupported => return .string "unsupported"

/-- **What a machine shows of itself.** -/
def writeSnapshot : Option Snapshot → Play Value
  | none => return .null
  | some snapshot => do
    return .object
      [("key", .string snapshot.key), ("revision", .number snapshot.revision),
        ("final", .bool snapshot.isFinal), ("dead_end", .bool snapshot.deadEnd),
        ("child", ← writeLink snapshot.child), ("payload", snapshot.payload)]

/-- The error of a slot with nothing in it. -/
def emptySlot : Value := .object [("error", .string "EmptySlot")]

/-- The error of a text that does not describe what it should. -/
def jsonError (fault : Json.Fault) : Value :=
  .object [("error", .string "Json"), ("category", .string fault.category)]

end Play

end Statechart.Session
