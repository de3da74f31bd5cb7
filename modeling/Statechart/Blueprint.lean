import Statechart.Builder
import Statechart.Json.Text

/-!
# Plans of states, children and machines

A state may embed a live child, which comes into being each time the state is made. A plan says what
is to be made: it is a finite tree, so following it comes to an end.

* `StatePlan`, `ChildPlan`, `MachinePlan`: plans of a state, of a child and of a machine.
* `FactoryItem`, `Row`: the parts of a machine, whatever the type of its states.
* `Device`: a child of its own kind, described by what it remembers, shows and answers.

The type `ρ` is that of the subscribers that come with a machine.
-/

namespace Statechart

/-- **A device**: a child that can only be sent to. It has a number for its memory, which is 0 at
first. -/
structure Device where
  /-- Its memory after it has received an event. -/
  next : Nat → Event → Nat
  /-- What it shows of itself. -/
  report : Nat → Option Snapshot
  /-- What it answers to an event, given its memory after it. -/
  reply : Nat → Event → Option Outcome
  /-- Whether it says so when it is adopted and released. -/
  announces : Bool

namespace Device

/-- **The device that counts ticks** up to a limit, and is finished there. A frozen one hides its
revision. -/
def ticker (limit : Nat) (frozen : Bool) : Device where
  next ticks event := if event.name = "tick" ∧ ticks < limit then ticks + 1 else ticks
  report ticks :=
    let isFull := decide (limit ≤ ticks)
    some { key := if isFull then "Full" else "Counting"
           revision := if frozen then 0 else ticks
           isFinal := isFull
           deadEnd := isFull
           payload := .number ticks }
  reply _ _ := none
  announces := true

/-- The device that shows nothing. -/
def silent : Device where
  next memory _ := memory
  report _ := none
  reply _ _ := none
  announces := false

end Device

/-- An entry of a factory. -/
inductive FactoryItem (σ : Type) where
  /-- One state, made once and for all. -/
  | unit (key : String) (isFinal : Bool) (state : σ)
  /-- A state made each time, from the parameters of the event. -/
  | made (key : String) (isFinal : Bool) (build : Params → Option σ)

/-- The key of an entry. -/
def FactoryItem.key {σ : Type} : FactoryItem σ → String
  | .unit key _ _ => key
  | .made key _ _ => key

/-- What a row of a table answers. -/
inductive RowKey where
  /-- The domain event of a name. -/
  | event (name : String)
  /-- The events of a key. -/
  | key (key : EventKey)
  deriving DecidableEq

/-- A row of a table. -/
structure Row (σ : Type) where
  state : String
  answers : RowKey
  spec : Spec σ

/-- Add a row to the parts of a machine. -/
def Builder.row {σ τ : Type} (b : Builder σ τ) (row : Row σ) : Builder σ τ :=
  match row.answers with
  | .event name => b.on row.state name row.spec
  | .key key => b.entry row.state key row.spec

mutual

/-- **The plan of a state.** -/
structure StatePlan (ρ : Type) where
  key : String
  data : Value
  isFinal : Bool
  /-- The child that the state embeds. -/
  child? : Option (ChildPlan ρ)
  /-- Whether the state cannot be made without its child. -/
  needsChild : Bool

/-- **The plan of a child.** -/
inductive ChildPlan (ρ : Type) where
  /-- A child that is there already. -/
  | live (link : Link)
  /-- A child that was shared under a name. -/
  | shared (name : String)
  /-- A new machine. -/
  | machine (plan : MachinePlan ρ)
  /-- A new device. -/
  | device (device : Device)
  /-- A new machine inside a shell through which it can only be sent to. A mute shell keeps back the
  outcomes; a shell may hide the machine while it is in the state of a key. -/
  | sendOnly (plan : MachinePlan ρ) (isMute : Bool) (hiddenIn : Option String)

/-- **The plan of a machine.** -/
structure MachinePlan (ρ : Type) where
  /-- The settings, if they can be read. -/
  config : Except Json.Fault MachineConfig
  factory : List (FactoryItem (StatePlan ρ))
  rows : List (Row (StatePlan ρ))
  /-- The key of the initial state. -/
  initialKey? : Option String
  /-- The initial state itself, which counts before its key. -/
  initial? : Option (StatePlan ρ)
  /-- Who subscribes to the machine when it has been built. -/
  subscribers : List ρ
  /-- The name under which the machine is shared. -/
  shareAs? : Option String

end

variable {ρ : Type}

/-- The plan of a state without child. -/
def StatePlan.plain (key : String) (data : Value) (isFinal : Bool) : StatePlan ρ where
  key
  data
  isFinal
  child? := none
  needsChild := false

/-- The plan that gives a state back as it is. -/
def StatePlan.ofState (state : State) : StatePlan ρ where
  key := state.key
  data := state.data
  isFinal := state.isFinal
  child? := state.child.map .live
  needsChild := false

/-- The entry of one state, made once and for all. -/
def FactoryItem.ofState (plan : StatePlan ρ) : FactoryItem (StatePlan ρ) :=
  .unit plan.key plan.isFinal plan

end Statechart
