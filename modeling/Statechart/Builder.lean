import Statechart.Config
import Statechart.Table

/-!
# Putting a machine together

A `Builder σ τ` collects the parts of a machine: a factory and a table whose states have the type
`σ`, settings, and an initial state of type `τ` or its key. Parts may come in any order.

* `Builder.on`, `Builder.onChildExit`, `Builder.entry`: rows of the table. A reserved name or a
  second row for the same state and event is an issue, kept until the end.
* `Builder.tableFault?`: the first row that cannot be right, sources in order.
* `Builder.build`: the parts, checked: first the issues, then the initial state, then the table.

How a state is made from its key is a parameter of `Builder.build`, for making a state may have
effects. `Builder.assemble` is the case without any.
-/

namespace Statechart

/-- **Why a machine cannot be built.** -/
inductive BuildError where
  /-- No initial state was named. -/
  | missingInitialState
  /-- The factory does not make the initial state. -/
  | unknownInitialState (key : String)
  /-- The name of an event is reserved for signals. -/
  | reservedEventName (event : String)
  /-- A state answers an event twice. -/
  | duplicateTransition (state event : String)
  /-- The factory does not know the source of a transition. -/
  | unknownSourceState (state : String)
  /-- The factory does not know the target of a transition. -/
  | unknownTargetState (state event target : String)
  deriving DecidableEq, Inhabited

namespace BuildError

/-- **The text of an error.** -/
def message : BuildError → String
  | .missingInitialState =>
    "Initial state not specified. Call .initial(state) or .initial_key(key) before .build()"
  | .unknownInitialState key =>
    "Initial state '" ++ key ++ "' is not registered in the state factory"
  | .reservedEventName event => "Event name '" ++ event ++ "' is in the reserved 'child.' namespace"
  | .duplicateTransition state event =>
    "State '" ++ state ++ "' already handles event '" ++ event ++ "'"
  | .unknownSourceState state => "Transition source '" ++ state ++ "' is not a known state"
  | .unknownTargetState state event target =>
    "Transition '" ++ state ++ "' --" ++ event ++ "--> targets unknown state '" ++ target ++ "'"

/-- The name of the kind of an error. -/
def kind : BuildError → String
  | .missingInitialState => "MissingInitialState"
  | .unknownInitialState _ => "UnknownInitialState"
  | .reservedEventName _ => "ReservedEventName"
  | .duplicateTransition _ _ => "DuplicateTransition"
  | .unknownSourceState _ => "UnknownSourceState"
  | .unknownTargetState _ _ _ => "UnknownTargetState"

end BuildError

/-- The initial state, itself or by its key. -/
inductive Initial (τ : Type) where
  | state (state : τ)
  | key (key : String)

/-- **The parts of a machine**, as far as they are known. -/
structure Builder (σ τ : Type) where
  initial? : Option (Initial τ) := none
  factory : Factory σ := .empty
  table : Table σ := .empty
  config : MachineConfig := {}
  /-- What went wrong while rows were added, the first issue first. -/
  issues : List BuildError := []

/-- **The parts of a machine**, complete and checked. -/
structure Assembly (σ τ : Type) where
  initial : τ
  factory : Factory σ
  table : Table σ
  config : MachineConfig

namespace Builder

variable {σ τ : Type}

instance : Inhabited (Builder σ τ) := ⟨{}⟩

/-! ## Adding parts -/

/-- Start in a state. -/
def initial (b : Builder σ τ) (state : τ) : Builder σ τ :=
  { b with initial? := some (.state state) }

/-- Start in the state of a key, made without parameters. -/
def initialKey (b : Builder σ τ) (key : String) : Builder σ τ :=
  { b with initial? := some (.key key) }

/-- Add a row under a key. -/
def entry (b : Builder σ τ) (state : String) (event : EventKey) (spec : Spec σ) : Builder σ τ :=
  { b with
    -- The new row counts, but a builder with an issue builds nothing.
    table := b.table.insert state event spec
    issues := if b.table.handles state event then
        b.issues ++ [.duplicateTransition state event.name]
      else b.issues }

/-- Add a row for a domain event. -/
def on (b : Builder σ τ) (state event : String) (spec : Spec σ) : Builder σ τ :=
  if isReservedName event then { b with issues := b.issues ++ [.reservedEventName event] }
  else b.entry state (.domain event) spec

/-- Add a row for the exit of a child. -/
def onChildExit (b : Builder σ τ) (state : String) (spec : Spec σ) : Builder σ τ :=
  b.entry state .childExit spec

/-! ## Checking -/

/-- The first answer of a state whose target the factory does not know. -/
def unknownTarget? (factory : Factory σ) (state : String) (answers : List (EventKey × Spec σ)) :
    Option BuildError :=
  answers.findSome? fun (event, spec) =>
    spec.staticTarget.bind fun target =>
      if factory.contains target then none
      else some (.unknownTargetState state event.name target)

/-- What is wrong with the answers of one state. With `Lookup.exact` a state that the factory does
not know could never answer. -/
def sourceFault? (factory : Factory σ) (table : Table σ) (lookup : Lookup) (state : String) :
    Option BuildError :=
  if lookup = .exact ∧ !factory.isEmpty ∧ !factory.contains state then
    some (.unknownSourceState state)
  else unknownTarget? factory state (table.events state)

/-- **What is wrong with a table**: the fault of its least source that has one. -/
def tableFault? (factory : Factory σ) (table : Table σ) (lookup : Lookup) : Option BuildError :=
  (table.states.mergeSort (· ≤ ·)).findSome? (sourceFault? factory table lookup)

/-- The parts with an initial state, if the table is right. -/
def finish (b : Builder σ τ) (initial : τ) : Except BuildError (Assembly σ τ) :=
  match tableFault? b.factory b.table b.config.lookup with
  | some fault => .error fault
  | none => .ok { initial, factory := b.factory, table := b.table, config := b.config }

/-- **The checked parts of a machine**, or the first error. `make` makes the state of a key. -/
def build {m : Type → Type} [Monad m] (make : String → m (Option τ)) (b : Builder σ τ) :
    m (Except BuildError (Assembly σ τ)) :=
  match b.issues, b.initial? with
  | issue :: _, _ => pure (.error issue)
  | [], none => pure (.error .missingInitialState)
  | [], some (.state state) => pure (b.finish state)
  | [], some (.key key) => do
    match ← make key with
    | some state => return b.finish state
    | none => return .error (.unknownInitialState key)

/-- The checked parts of a machine whose initial state the factory just makes. -/
def assemble (b : Builder σ σ) : Except BuildError (Assembly σ σ) :=
  Id.run (b.build fun key => pure (b.factory.create key []))

end Builder

end Statechart
