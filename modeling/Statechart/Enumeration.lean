import Statechart.Blueprint

/-!
# Enumerations of states

An `Enumeration` lists states that carry nothing, by key, and says which of them are final.

* `Enumeration.items`: the entries of the factory that makes them.
* `trafficLight`, `trafficLightPlan`: an example, and a machine over it.
-/

namespace Statechart

variable {ρ : Type}

/-- **States that carry nothing.** -/
structure Enumeration where
  keys : List String
  /-- The keys of final states. -/
  finals : List String
  deriving Inhabited

namespace Enumeration

/-- The state of a key. -/
def plan (e : Enumeration) (key : String) : StatePlan ρ := .plain key .null (key ∈ e.finals)

/-- **The entries that make the states**, each once and for all. -/
def items (e : Enumeration) : List (FactoryItem (StatePlan ρ)) :=
  e.keys.map fun key => .ofState (e.plan key)

end Enumeration

/-- A traffic light, which may break or be off. -/
def trafficLight : Enumeration where
  keys := ["Red", "Green", "Amber", "Broken", "Off"]
  finals := ["Broken", "Off"]

/-- **A machine over the traffic light**, starting in red. It jumps from red to amber if told by
exactly one parameter. -/
def trafficLightPlan : MachinePlan ρ where
  config := .ok {}
  factory := trafficLight.items
  rows :=
    [⟨"Red", .event "go", .target "Green"⟩, ⟨"Green", .event "slow", .target "Amber"⟩,
      ⟨"Amber", .event "stop", .target "Red"⟩,
      ⟨"Red", .event "jump", .build fun params =>
        if params.length = 1 then some (trafficLight.plan "Amber") else none⟩,
      ⟨"Green", .event "break", .target "Broken"⟩, ⟨"Amber", .event "break", .target "Broken"⟩]
  initialKey? := none
  initial? := some (trafficLight.plan "Red")
  subscribers := []
  shareAs? := none

end Statechart
