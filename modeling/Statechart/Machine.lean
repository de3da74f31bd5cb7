import Statechart.Builder
import Statechart.History
import Statechart.Listeners
import Statechart.Path
import Statechart.Shape

/-!
# One machine

A `Machine σ` has a factory and a table whose states have the type `σ`, a current state, a bounded
history, a queue of follow-up events and subscribers. This module holds what can be said of one
machine alone.

* `Machine.candidates?`: the answers to an event, in the order in which they are tried.
* `Machine.enter`, `Machine.noteBelow`: the two ways to change.
* `Machine.followUps`: the events that entering a state produces.
* `Machine.snapshot`, `Machine.describe`: what a machine shows of itself.
-/

namespace Statechart

variable {σ : Type}

/-- **A machine.** -/
structure Machine (σ : Type) where
  id : MachineId
  factory : Factory σ
  table : Table σ
  config : MachineConfig
  /-- The current state. -/
  current : Placed
  /-- The last change. -/
  change? : Option Change := none
  /-- The number of changes so far. -/
  revision : Nat := 0
  history : ChangeLog
  /-- The follow-up events that wait to be processed. -/
  pending : List Event := []
  /-- The subscribers, each known by a number to the surroundings. -/
  listeners : Listeners Nat := {}
  /-- The engine that the machine passes domain events to. -/
  engine? : Option Nat := none
  deriving Inhabited

namespace Machine

/-- **A new machine** of checked `parts`, in its initial state. -/
def start (id : MachineId) (parts : Assembly σ State) : Machine σ where
  id
  factory := parts.factory
  table := parts.table
  config := parts.config
  current := ⟨parts.initial, 0⟩
  history := { limit := parts.config.historyLimit }

/-! ## Finding an answer -/

/-- **The keys under which an event is looked up**, in order. With `Lookup.ancestors` these are the
current path and its ancestors; but the exit of a nested state concerns only the composite right
around it, and only while the state is current. There is no last key if the delimiter is empty. -/
def lookupKeys? (m : Machine σ) (event : Event) : Option (List String) :=
  let key := m.current.state.key
  match m.config.lookup with
  | .exact => some [key]
  | .ancestors delimiter =>
    match event with
    | .childExit (.path path) =>
      some (if path = key then (Path.parent? delimiter path).toList else [])
    | _ => Path.ancestors? delimiter key

/-- The answers to `event` under `lookupKeys?`, in the order in which they are tried. -/
def candidates? (m : Machine σ) (event : Event) : Option (List (String × Spec σ)) :=
  (m.lookupKeys? event).map fun keys =>
    keys.filterMap fun key => (m.table.get? key event.key).map (key, ·)

/-! ## Terminal states -/

/-- Whether `state` is terminal under `config.terminal`. -/
def isTerminal (m : Machine σ) (state : State) : Bool :=
  m.config.terminal.isTerminal state.isFinal (m.table.hasTransitions state.key)

/-- Whether the current state is terminal. -/
def isFinished (m : Machine σ) : Bool := m.isTerminal m.current.state

/-- **The events that entering `state` produces**: its exit, if it is terminal and inside a
composite. -/
def followUps (m : Machine σ) (state : State) : List Event :=
  match m.config.lookup with
  | .exact => []
  | .ancestors delimiter =>
    if m.config.autoExit && Path.isQualified delimiter state.key && m.isTerminal state then
      [.childExit (.path state.key)]
    else []

/-! ## Changing -/

/-- Make `change` the last one, and remember it in `history`. -/
def commit (m : Machine σ) (change : Change) : Machine σ :=
  { m with
    current := change.target
    change? := some change
    revision := change.revision
    history := m.history.record change }

/-- The change into `state`. -/
def changeTo (m : Machine σ) (event : Event) (source : Placed) (state : State) : Change where
  event
  source
  target := ⟨state, m.revision + 1⟩
  revision := m.revision + 1

/-- The change that says that `child` changed by `inner`. The state stays the same object. -/
def changeBelow (m : Machine σ) (child : ChildRef) (inner : Event) : Change where
  event := .childChange child inner
  source := m.current
  target := m.current
  revision := m.revision + 1

/-- The outcome of `change`, for those around the machine. -/
def outcome (m : Machine σ) (change : Change) : Outcome where
  machine := m.id
  event := change.event.name
  source := change.source.state.key
  target := change.target.state.key

/-! ## What a machine shows -/

/-- **What a machine shows of itself now.** -/
def snapshot (m : Machine σ) : Snapshot where
  key := m.current.state.key
  revision := m.revision
  isFinal := m.current.state.isFinal
  deadEnd := !m.table.hasTransitions m.current.state.key
  child := m.current.state.child
  payload := m.current.state.data

/-- The edges of `table` whose targets are known, in order of the rows. -/
def edges (m : Machine σ) : List EdgeShape :=
  m.table.rows.entries.filterMap fun ((state, event), spec) =>
    spec.staticTarget.map fun target => ⟨state, event.name, target⟩

/-- Edges are listed by `source`, then by `event`. -/
def edgeLe (a b : EdgeShape) : Bool :=
  ((compare a.source b.source).then (compare a.event b.event)).isLE

/-- **The structure of a machine**: the states of `factory` and the current one, and `edges`. -/
def describe (m : Machine σ) : MachineShape :=
  let current := m.current.state
  let keys := m.factory.keys
  let keys := if current.key ∈ keys then keys else keys ++ [current.key]
  { states := keys.map fun key =>
      ⟨key, m.factory.isFinal key || (key == current.key && current.isFinal)⟩
    edges := m.edges.mergeSort edgeLe }

end Machine

end Statechart
