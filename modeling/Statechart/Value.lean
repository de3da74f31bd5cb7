import Std.Data.ExtTreeMap

/-!
# JSON values

The data that travels through a statechart: event parameters and the data of states.

* `Value`: a JSON value whose numbers are integers.
* `Value.ofFields`: the object with given fields, in increasing order of keys. Objects in data are
  made by it, so two of them with the same fields are equal whatever order they came in.
* `Value.field?`, `Value.text?`, `Value.integer?`: partial views.

Main statement: `Value.beq_iff_eq`, so equality of values is decidable.
-/

namespace Statechart

/-- A JSON value. Numbers are integers. In data the fields of an object stand in increasing order of
keys, each key once; a value that is made to be printed may list them in any order. -/
inductive Value where
  | null
  | bool (b : Bool)
  | number (n : Int)
  | string (s : String)
  | array (items : List Value)
  | object (fields : List (String × Value))
  deriving Inhabited

/-- The positional parameters of an event. -/
abbrev Params := List Value

namespace Value

/-! ## Decidable equality -/

mutual

/-- **Equality test** of values. -/
def beq : Value → Value → Bool
  | .null, .null => true
  | .bool a, .bool b => a == b
  | .number a, .number b => a == b
  | .string a, .string b => a == b
  | .array a, .array b => beqItems a b
  | .object a, .object b => beqFields a b
  | _, _ => false

/-- Equality test of the items of arrays. -/
def beqItems : List Value → List Value → Bool
  | [], [] => true
  | a :: as, b :: bs => beq a b && beqItems as bs
  | _, _ => false

/-- Equality test of the fields of objects. -/
def beqFields : List (String × Value) → List (String × Value) → Bool
  | [], [] => true
  | (j, a) :: as, (k, b) :: bs => j == k && (beq a b && beqFields as bs)
  | _, _ => false

end

mutual

/-- The equality test decides equality. -/
theorem beq_iff_eq : ∀ a b : Value, beq a b = true ↔ a = b
  | .null, b => by cases b <;> simp [beq]
  | .bool _, b => by cases b <;> simp [beq]
  | .number _, b => by cases b <;> simp [beq]
  | .string _, b => by cases b <;> simp [beq]
  | .array as, b => by cases b <;> simp [beq, beqItems_iff_eq as]
  | .object as, b => by cases b <;> simp [beq, beqFields_iff_eq as]

/-- The test on items decides equality. -/
theorem beqItems_iff_eq : ∀ as bs : List Value, beqItems as bs = true ↔ as = bs
  | [], bs => by cases bs <;> simp [beqItems]
  | a :: as, bs => by cases bs <;> simp [beqItems, beq_iff_eq a, beqItems_iff_eq as]

/-- The test on fields decides equality. -/
theorem beqFields_iff_eq : ∀ as bs : List (String × Value), beqFields as bs = true ↔ as = bs
  | [], bs => by cases bs <;> simp [beqFields]
  | (j, a) :: as, bs => by
    rcases bs with _ | ⟨⟨k, b⟩, bs⟩
    · simp [beqFields]
    · simp [beqFields, beq_iff_eq a, beqFields_iff_eq as, and_assoc]

end

instance : DecidableEq Value := fun a b => decidable_of_iff _ (beq_iff_eq a b)

/-! ## Objects -/

/-- **The object with the given fields**; of fields with one key the last counts. -/
def ofFields (fields : List (String × Value)) : Value :=
  .object (Std.ExtTreeMap.ofList fields).toList

/-! ## Views -/

/-- The value of a field of an object. -/
def field? (key : String) : Value → Option Value
  | .object fields => fields.lookup key
  | _ => none

/-- The text of a string. -/
def text? : Value → Option String
  | .string s => some s
  | _ => none

/-- The number, if it is one. -/
def integer? : Value → Option Int
  | .number n => some n
  | _ => none

/-- The items of an array. -/
def items? : Value → Option (List Value)
  | .array items => some items
  | _ => none

end Value

end Statechart
