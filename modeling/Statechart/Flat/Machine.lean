import Statechart.Blueprint
import Statechart.Flat

/-!
# Flat definitions as machines

`FlatDefinition.machinePlan` is the plan of one machine that runs a flat definition. It looks for
answers under the current path and its ancestors, and entering a terminal leaf inside a composite
produces an exit for the composite.
-/

namespace Statechart

variable {ρ : Type}

/-- The plan of `leaf` that is entered with `params`. -/
def FlatLeaf.plan (leaf : FlatLeaf) (params : Params) : StatePlan ρ :=
  .plain leaf.path (leaf.leaf.data params) leaf.leaf.isFinal

/-- The factory item that makes `leaf`. -/
def FlatLeaf.item (leaf : FlatLeaf) : FactoryItem (StatePlan ρ) :=
  .made leaf.path leaf.leaf.isFinal fun params => some (leaf.plan params)

namespace FlatDefinition

/-- Make the leaf of `path`; of several leaves of one path the last counts. -/
def create? (flat : FlatDefinition) (path : String) (params : Params) : Option (StatePlan ρ) :=
  (flat.leaves.findRev? (·.path == path)).map (·.plan params)

/-- The `Spec` of an answer. -/
def spec (flat : FlatDefinition) : FlatTarget → Spec (StatePlan ρ)
  | .path path => .target path
  | .choose scope pick => .build fun params => do
    let name ← pick params
    flat.create? (← flat.resolve scope name) params

/-- The table row of an answer. -/
def row (flat : FlatDefinition) (entry : Handler × FlatTarget) : Row (StatePlan ρ) :=
  ⟨entry.1.source, .key entry.1.event, flat.spec entry.2⟩

/-- The settings of a machine that runs a flat definition. -/
def machineConfig (config : FlattenConfig) : MachineConfig where
  lookup := .ancestors config.delimiter
  autoExit := true
  followUps := config.followUps
  terminal := config.terminal

/-- **The plan of a machine that runs a flat definition.** -/
def machinePlan (flat : FlatDefinition) (config : FlattenConfig) : MachinePlan ρ where
  config := .ok (machineConfig config)
  factory := flat.leaves.map FlatLeaf.item
  rows := flat.transitions.toList.map flat.row
  initialKey? := some flat.initial
  initial? := none
  subscribers := []
  shareAs? := none

end FlatDefinition

end Statechart
