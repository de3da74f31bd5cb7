import Statechart.Config
import Statechart.Event

/-!
# States and what is said about them

* `State`: a key, data, a final marker, and a link to a child machine if the state embeds one.
* `Placed`: a state in its place in the run of a machine. A machine enters a fresh state object with
  every transition, so the revision at which a state was entered tells it apart from all others.
* `EventContext`, `Guard`: what a transition may look at before it is taken.
* `Snapshot`, `Outcome`, `Attempt`: what a machine reports to its surroundings.
-/

namespace Statechart

/-- A link to a child: the place of the child among all there are. -/
structure Link where
  place : Nat
  deriving DecidableEq, Inhabited

/-- **A state** of a machine. -/
structure State where
  /-- The key under which the transition table knows the state. -/
  key : String
  /-- Whatever the state carries. -/
  data : Value := .null
  /-- The final marker. -/
  isFinal : Bool := false
  /-- The child that the state embeds. -/
  child : Option Link := none
  deriving DecidableEq, Inhabited

/-- **A state as a machine entered it.** Within one machine, two are the same state object exactly
if they were entered at the same revision. -/
structure Placed where
  state : State
  /-- The revision of the machine at which the state was entered, 0 for the initial state. -/
  since : Nat
  deriving DecidableEq, Inhabited

/-- What a transition may look at: the event and the state it arrives in. -/
structure EventContext where
  event : Event
  origin : State
  deriving Inhabited

/-- **A guard**: a test that an event context has to pass. -/
structure Guard where
  passes : EventContext → Bool

/-- A guard that looks at the state only. -/
def Guard.ofState (test : State → Bool) : Guard := ⟨fun context => test context.origin⟩

/-- **What a machine shows of itself.** -/
structure Snapshot where
  /-- The key of the current state. -/
  key : String
  /-- A number that moves with every change. -/
  revision : Nat
  /-- The final marker of the current state. -/
  isFinal : Bool
  /-- Whether the current state has no outgoing transitions. -/
  deadEnd : Bool
  /-- The next machine further down. -/
  child : Option Link := none
  /-- The data of the current state. -/
  payload : Value := .null
  deriving DecidableEq, Inhabited

/-- **An applied transition**, in short. -/
structure Outcome where
  /-- The machine that moved. -/
  machine : MachineId
  /-- The name of the event. -/
  event : String
  /-- The key of the state that was left. -/
  source : String
  /-- The key of the state that was entered. -/
  target : String
  /-- How far below the root of its hierarchy the machine stands. -/
  depth : Nat := 0
  deriving DecidableEq, Inhabited

/-- The same outcome at another depth. -/
def Outcome.atDepth (outcome : Outcome) (depth : Nat) : Outcome := { outcome with depth }

/-- The result of trying an event on a machine. -/
inductive Attempt where
  /-- The event was applied. -/
  | applied (outcome : Outcome)
  /-- The machine has no answer, and nothing changed. -/
  | unhandled
  /-- The machine cannot be tried, only be sent to. -/
  | unsupported
  deriving DecidableEq, Inhabited

end Statechart
