/-!
# Problems of nested definitions

* `Problem`: what can be wrong with a nested definition. A `scope` is the path of the composite
  whose definition is meant, `none` for the outermost one.
* `Problem.message`: the text of a problem.
* `Problem.describeAll`: the texts of several problems in one line.
-/

namespace Statechart

/-- **A problem of a nested definition.** -/
inductive Problem where
  /-- A definition names no initial state. -/
  | missingInitial (scope : Option String)
  /-- The initial state is not declared. -/
  | unknownInitial (scope : Option String) (key : String)
  /-- A state is declared again. -/
  | duplicateState (scope : Option String) (key : String)
  /-- A key cannot be told apart from a path or from a way out of the scope. -/
  | invalidStateName (scope : Option String) (key : String)
  /-- A transition starts in a state that is not declared. -/
  | unknownSource (scope : Option String) (state : String)
  /-- The name of an event is reserved for signals. -/
  | reservedEventName (state : String) (event : String)
  /-- A state answers an event twice. -/
  | duplicateTransition (state : String) (event : String)
  /-- A composite has no states. -/
  | emptyComposite (path : String)
  /-- A target names no state, seen from the scope of its transition. -/
  | unresolvedTarget (source : String) (event : String) (target : String)
  /-- A target climbs out of the outermost scope. -/
  | escapeBeyondRoot (source : String) (target : String)
  /-- A target is not a state of the level of its transition. -/
  | crossLevelTarget (source : String) (target : String)
  deriving DecidableEq, Inhabited

namespace Problem

/-- How messages call a scope. -/
def scopeLabel : Option String → String
  | some path => "'" ++ path ++ "'"
  | none => "the root"

/-- **The text of a problem.** -/
def message : Problem → String
  | .missingInitial scope => "Definition at " ++ scopeLabel scope ++ " has no initial state"
  | .unknownInitial scope key =>
    "Initial state '" ++ key ++ "' is not declared at " ++ scopeLabel scope
  | .duplicateState scope key => "State '" ++ key ++ "' is declared twice at " ++ scopeLabel scope
  | .invalidStateName scope key =>
    "State name '" ++ key ++ "' at " ++ scopeLabel scope ++
      " is empty, starts with '^' or contains the delimiter"
  | .unknownSource scope state =>
    "Transition source '" ++ state ++ "' is not declared at " ++ scopeLabel scope
  | .reservedEventName state event =>
    "Event name '" ++ event ++ "' on '" ++ state ++ "' is in the reserved 'child.' namespace"
  | .duplicateTransition state event => "'" ++ state ++ "' declares event '" ++ event ++ "' twice"
  | .emptyComposite path => "Composite '" ++ path ++ "' declares no states"
  | .unresolvedTarget source event target =>
    "Target '" ++ target ++ "' of '" ++ source ++ "' --" ++ event ++ "--> does not name a state"
  | .escapeBeyondRoot source target =>
    "Target '" ++ target ++ "' of '" ++ source ++ "' escapes beyond the root"
  | .crossLevelTarget source target =>
    "Target '" ++ target ++ "' of '" ++ source ++ "' is not a state of the same level"

/-- The name of the kind of a problem. -/
def kind : Problem → String
  | .missingInitial _ => "MissingInitial"
  | .unknownInitial _ _ => "UnknownInitial"
  | .duplicateState _ _ => "DuplicateState"
  | .invalidStateName _ _ => "InvalidStateName"
  | .unknownSource _ _ => "UnknownSource"
  | .reservedEventName _ _ => "ReservedEventName"
  | .duplicateTransition _ _ => "DuplicateTransition"
  | .emptyComposite _ => "EmptyComposite"
  | .unresolvedTarget _ _ _ => "UnresolvedTarget"
  | .escapeBeyondRoot _ _ => "EscapeBeyondRoot"
  | .crossLevelTarget _ _ => "CrossLevelTarget"

/-- The texts of several problems, in one line. -/
def describeAll (problems : List Problem) : String := "; ".intercalate (problems.map message)

/-- The text that reports a definition with problems. -/
def report (problems : List Problem) : String :=
  "Definition has " ++ toString problems.length ++ " problem(s): " ++ describeAll problems

end Problem

end Statechart
