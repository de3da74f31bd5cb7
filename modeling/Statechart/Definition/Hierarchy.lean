import Statechart.Blueprint
import Statechart.Definition.Validation

/-!
# Nested definitions as hierarchies of machines

Every level of a nested definition becomes a machine of its own. Entering a composite starts a fresh
machine for the level inside it, at the initial state of that level.

* `Definition.machinePlan`: the plan of the outermost machine, with the plans of all others inside.
* `Definition.crossings`: the targets that are no states of their own level. A machine cannot move
  the one above it, so there must be none.
* `Definition.hierarchyProblems`: everything that stands against a hierarchy.
-/

namespace Statechart

namespace Definition

/-! ## Targets across levels -/

/-- The problem of `transition`, if its target is no state of its own level. -/
def crossing? (delimiter : String) (scope : Option String) (definition : Definition)
    (transition : TransitionDef) : Option Problem :=
  transition.target.key?.bind fun target =>
    if target.toList.head? == some escapeMark || !definition.declares target then
      some (.crossLevelTarget (Path.join delimiter scope transition.source) target)
    else none

mutual

/-- The targets in a definition that are no states of their own level. -/
def crossingsIn (delimiter : String) (scope : Option String) : Definition → List Problem
  | ⟨states, transitions, initial?, issues⟩ =>
    transitions.filterMap (crossing? delimiter scope ⟨states, transitions, initial?, issues⟩) ++
      crossingsOfStates delimiter scope states

/-- The targets inside states that are no states of their own level. -/
def crossingsOfStates (delimiter : String) (scope : Option String) :
    List (String × StateDef) → List Problem
  | [] => []
  | (key, state) :: rest =>
    crossingsOfState delimiter (Path.join delimiter scope key) state ++
      crossingsOfStates delimiter scope rest

/-- The targets inside a state that are no states of their own level, given the path of the state.
-/
def crossingsOfState (delimiter : String) (path : String) : StateDef → List Problem
  | .leaf _ => []
  | .composite inner => crossingsIn delimiter (some path) inner

end

/-- **The targets that are no states of their own level**, as `.crossLevelTarget` problems. -/
def crossings (delimiter : String) (definition : Definition) : List Problem :=
  crossingsIn delimiter none definition

/-- **Everything that stands against a hierarchy**: `problems` or, if there are none, `crossings`.
It is `none` if the check of the definition never ends. -/
def hierarchyProblems (delimiter : String) (definition : Definition) : Option (List Problem) :=
  (definition.problems delimiter).map fun
    | [] => definition.crossings delimiter
    | problems => problems

/-! ## Plans -/

variable {ρ : Type}

/-- Make the state of `key` by the last of `items` with this key. -/
def createFrom? (items : List (FactoryItem (StatePlan ρ))) (key : String) (params : Params) :
    Option (StatePlan ρ) :=
  match items.findRev? (·.key == key) with
  | some (.made _ _ build) => build params
  | _ => none

/-- The `Spec` of a transition of a level. -/
def levelSpec (items : List (FactoryItem (StatePlan ρ))) : Target → Spec (StatePlan ρ)
  | .key name => .target name
  | .choose pick => .build fun params => do createFrom? items (← pick params) params

/-- The settings of the machine of a level. -/
def levelConfig (config : HierarchyConfig) : MachineConfig := { terminal := config.terminal }

mutual

/-- **The plan of the machine of a definition.** -/
def machinePlan (config : HierarchyConfig) : Definition → MachinePlan ρ
  | ⟨states, transitions, initial?, _⟩ =>
    let items := stateItems config states
    { config := .ok (levelConfig config)
      factory := items
      rows := transitions.map fun transition =>
        ⟨transition.source, .key transition.event, levelSpec items transition.target⟩
      initialKey? := some (initial?.getD "")
      initial? := none
      subscribers := []
      shareAs? := none }

/-- The items that make the states of a level. -/
def stateItems (config : HierarchyConfig) :
    List (String × StateDef) → List (FactoryItem (StatePlan ρ))
  | [] => []
  | (key, state) :: rest => stateItem config key state :: stateItems config rest

/-- The item that makes a state: a leaf with its data, or a composite with a fresh machine
inside. -/
def stateItem (config : HierarchyConfig) (key : String) :
    StateDef → FactoryItem (StatePlan ρ)
  | .leaf leaf =>
    .made key leaf.isFinal fun params => some (.plain key (leaf.data params) leaf.isFinal)
  | .composite inner =>
    let plan := inner.machinePlan config
    .made key false fun _ => some
      { key, data := .null, isFinal := false, child? := some (.machine plan), needsChild := true }

end

end Definition

end Statechart
