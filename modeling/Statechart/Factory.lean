import Statechart.Dict
import Statechart.Value

/-!
# Factories of states

A `Factory σ` makes states by key from the parameters of an event. What is made has the type `σ`: a
state, or a plan for one.

* `Factory.register`: file a constructor under a key. A key that is filed again keeps its place
  among the keys and gets the new constructor and marker.
* `Factory.create`, `Factory.isFinal`, `Factory.keys`: the queries.
* `Factory.clone`: a copy.

Main statements: `Factory.find?_register` and `Factory.keys_register`.
-/

namespace Statechart

variable {σ : Type}

/-- **A named constructor** of states. -/
inductive Constructor (σ : Type) where
  /-- Always the same state. -/
  | constant (state : σ) (isFinal : Bool)
  /-- A state made from the parameters of the event, if it can be made. -/
  | made (build : Params → Option σ) (isFinal : Bool)

namespace Constructor

/-- Make a state. -/
def create : Constructor σ → Params → Option σ
  | .constant state _, _ => some state
  | .made build _, params => build params

/-- The final marker of the states that are made. -/
def isFinal : Constructor σ → Bool
  | .constant _ isFinal => isFinal
  | .made _ isFinal => isFinal

end Constructor

/-- **A factory**: constructors by key, and beside them the keys in order of the first registration
of each. The two are updated separately and never disagree. -/
structure Factory (σ : Type) where
  /-- The keys, in order of their first registration. -/
  order : List String
  /-- The constructors by key. -/
  constructors : Dict String (Constructor σ)
  /-- No key is listed twice. -/
  nodup_order : order.Nodup
  /-- The keys that are listed are those that have a constructor. -/
  mem_order : ∀ key, key ∈ order ↔ constructors.contains key = true

namespace Factory

/-- The factory without constructors. -/
def empty : Factory σ := ⟨[], .empty, List.nodup_nil, fun _ => ⟨nofun, nofun⟩⟩

instance : Inhabited (Factory σ) := ⟨empty⟩

/-- File a constructor under a key. The key is listed if it has no constructor yet. -/
def register (factory : Factory σ) (key : String) (constructor : Constructor σ) : Factory σ where
  order := if factory.constructors.contains key then factory.order else factory.order ++ [key]
  constructors := factory.constructors.insert key constructor
  nodup_order := by
    split
    · exact factory.nodup_order
    · rename_i hnew
      refine List.nodup_append.2 ⟨factory.nodup_order, by simp, ?_⟩
      rintro a ha b hb rfl
      rw [List.mem_singleton.1 hb] at ha
      exact hnew ((factory.mem_order key).1 ha)
  mem_order key' := by
    rw [Dict.contains_insert, Bool.or_eq_true, beq_iff_eq]
    split
    · rename_i hknown
      rw [factory.mem_order]
      refine ⟨.inr, ?_⟩
      rintro (rfl | hmem)
      · exact hknown
      · exact hmem
    · rw [List.mem_append, List.mem_singleton, factory.mem_order, or_comm]

/-- File a constructor of states without final marker. -/
def state (factory : Factory σ) (key : String) (build : Params → Option σ) : Factory σ :=
  factory.register key (.made build false)

/-- File a constructor of states with final marker. -/
def finalState (factory : Factory σ) (key : String) (build : Params → Option σ) : Factory σ :=
  factory.register key (.made build true)

/-- File a state that is always the same, under its key and with its marker. -/
def unit (factory : Factory σ) (key : String) (isFinal : Bool) (value : σ) : Factory σ :=
  factory.register key (.constant value isFinal)

/-- The constructor of a key. -/
def find? (factory : Factory σ) (key : String) : Option (Constructor σ) :=
  factory.constructors.get? key

/-- Make the state of a key. -/
def create (factory : Factory σ) (key : String) (params : Params) : Option σ :=
  (factory.find? key).bind (·.create params)

/-- Whether a key has a constructor. -/
def contains (factory : Factory σ) (key : String) : Bool := factory.constructors.contains key

/-- The final marker of the constructor of a key. -/
def isFinal (factory : Factory σ) (key : String) : Bool :=
  ((factory.find? key).map (·.isFinal)).getD false

/-- The keys, in order of their first registration. -/
def keys (factory : Factory σ) : List String := factory.order

/-- How many keys have a constructor. -/
def size (factory : Factory σ) : Nat := factory.order.length

/-- Whether no key has a constructor. -/
def isEmpty (factory : Factory σ) : Bool := factory.order.isEmpty

/-- A copy: the same keys, and the constructors filed anew one by one. -/
def clone (factory : Factory σ) : Factory σ where
  order := factory.order
  constructors := factory.constructors.clone
  nodup_order := factory.nodup_order
  mem_order key := by rw [Dict.clone_eq, factory.mem_order]

/-- A registration changes the constructor of its key only. -/
theorem find?_register (factory : Factory σ) (key key' : String) (constructor : Constructor σ) :
    (factory.register key constructor).find? key' =
      if key' = key then some constructor else factory.find? key' :=
  Dict.get?_insert _ _ _ _

/-- The keys of a factory are those with a constructor. -/
theorem mem_keys_iff {factory : Factory σ} {key : String} :
    key ∈ factory.keys ↔ (factory.find? key).isSome = true :=
  factory.mem_order key

/-- A registration appends a new key and leaves a known one in its place. -/
theorem keys_register (factory : Factory σ) (key : String) (constructor : Constructor σ) :
    (factory.register key constructor).keys =
      if key ∈ factory.keys then factory.keys else factory.keys ++ [key] := by
  simp only [keys, register, factory.mem_order]

/-- A copy is no different. -/
theorem clone_eq (factory : Factory σ) : factory.clone = factory := by
  obtain ⟨order, constructors, hnodup, hmem⟩ := factory
  rw [clone]
  simp only [Dict.clone_eq]

end Factory

end Statechart
