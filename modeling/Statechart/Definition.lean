import Statechart.Definition.Problem
import Statechart.Event

/-!
# Nested definitions

A `Definition` describes a hierarchy of states without running it: states, each a leaf or a
composite with a definition of its own, transitions between them, and an initial state.

* `LeafDef`, `StateDef`, `TransitionDef`, `Definition`: the data.
* `Definition.state`, `Definition.composite`, `Definition.on` and so on: building a definition step
  by step. What is wrong with a step is kept among the `issues`.
* `Definition.wrapped`: the same definition within further composites.

Targets of transitions are names, looked up when the definition is used.
-/

namespace Statechart

/-- **A state without children.** -/
structure LeafDef where
  /-- Makes the data of the state from the parameters of the event that enters it. -/
  constructor? : Option (Params → Value) := none
  /-- The final marker. -/
  isFinal : Bool := false
  deriving Inhabited

/-- The data of the state when it is entered with `params`. Without a constructor these are the
parameters themselves, if there are any. -/
def LeafDef.data (leaf : LeafDef) (params : Params) : Value :=
  match leaf.constructor? with
  | some make => make params
  | none => if params.isEmpty then .null else .array params

/-- Where a transition leads. -/
inductive Target where
  /-- To the state of a name. -/
  | key (name : String)
  /-- To the state of a name that the parameters of the event determine. Without a name the event is
  not answered. -/
  | choose (pick : Params → Option String)

/-- The name of a `.key`. -/
def Target.key? : Target → Option String
  | .key name => some name
  | .choose _ => none

/-- **A transition** of a definition. -/
structure TransitionDef where
  /-- The key of the source, a state of the same definition. -/
  source : String
  event : EventKey
  target : Target

mutual

/-- **A state** of a definition. -/
inductive StateDef where
  /-- A state without children. -/
  | leaf (leaf : LeafDef)
  /-- A state with states inside. -/
  | composite (inner : Definition)

/-- **A nested definition.** -/
structure Definition where
  /-- The states by key, in order of declaration. -/
  states : List (String × StateDef) := []
  /-- The transitions, in order of declaration. -/
  transitions : List TransitionDef := []
  /-- The key of the initial state. -/
  initial? : Option String := none
  /-- What went wrong while the definition was built. -/
  issues : List Problem := []

end

namespace Definition

instance : Inhabited Definition := ⟨{}⟩

/-- The first declaration of `key`. -/
def state? (definition : Definition) (key : String) : Option StateDef :=
  definition.states.lookup key

/-- Whether `key` is declared. -/
def declares (definition : Definition) (key : String) : Bool := (definition.state? key).isSome

/-! ## Building a definition -/

/-- Declare a state without children. -/
def leaf (definition : Definition) (key : String) (leaf : LeafDef) : Definition :=
  { definition with states := definition.states ++ [(key, .leaf leaf)] }

/-- Declare a state whose data are the parameters of the event. -/
def state (definition : Definition) (key : String) : Definition := definition.leaf key {}

/-- Declare a state whose data `make` makes from the parameters of the event. -/
def stateWith (definition : Definition) (key : String) (make : Params → Value) : Definition :=
  definition.leaf key { constructor? := some make }

/-- Declare a state with the final marker. -/
def finalState (definition : Definition) (key : String) : Definition :=
  definition.leaf key { isFinal := true }

/-- Declare a state with states inside. -/
def composite (definition : Definition) (key : String) (inner : Definition) : Definition :=
  { definition with states := definition.states ++ [(key, .composite inner)] }

/-- Name the initial state. -/
def initial (definition : Definition) (key : String) : Definition :=
  { definition with initial? := some key }

/-- Declare a transition for the domain event `event`. A reserved name is an issue. -/
def transition (definition : Definition) (source event : String) (target : Target) : Definition :=
  if isReservedName event then
    { definition with issues := definition.issues ++ [.reservedEventName source event] }
  else
    { definition with
      transitions := definition.transitions ++ [⟨source, .domain event, target⟩] }

/-- Answer the domain event `event` in `source` by going to the state `target`. -/
def on (definition : Definition) (source event target : String) : Definition :=
  definition.transition source event (.key target)

/-- Answer the domain event `event` in `source` by going where `pick` says. -/
def choose (definition : Definition) (source event : String) (pick : Params → Option String) :
    Definition :=
  definition.transition source event (.choose pick)

/-- Leave the composite `source` for `target` once the state inside is terminal. -/
def onChildExit (definition : Definition) (source target : String) : Definition :=
  { definition with
    transitions := definition.transitions ++ [⟨source, .childExit, .key target⟩] }

/-- **The same definition inside composites**, the outermost key first. If `exits`, every composite
is left for a final state beside it, with key `End`, once the state inside is terminal. -/
def wrapped (inner : Definition) (exits : Bool) (keys : List String) : Definition :=
  keys.foldr (fun key inner =>
    let level := (({} : Definition).composite key inner).initial key
    if exits then (level.finalState "End").onChildExit key "End" else level) inner

end Definition

end Statechart
