import Statechart.Uuid
import Statechart.Value

/-!
# Events

What a machine can be told, and the keys under which a transition table files its answers.

* `MachineId`: the identity of a machine.
* `ChildRef`: which child a signal speaks of, a live machine or a nested state by its path.
* `Event`: a domain event with a name and parameters, or one of two signals that only the routing
  of a hierarchy sends: a child reached a terminal state, or something below changed.
* `EventKey`: an event without its contents. Keys are ordered: domain names first, by name.

Names that start with `child.` are reserved for the signals. A domain event with such a name is
*misnamed* and is refused everywhere.

Main statement: `EventKey.ofName?_eq_some_iff`, the names that have a key.
-/

namespace Statechart

/-- **The identity of a machine**: handed out when the machine is made, or given from outside. -/
inductive MachineId where
  /-- The identity number `n` of a world. -/
  | minted (n : Nat)
  /-- An identity that came from outside. -/
  | given (uuid : Uuid)
  deriving DecidableEq, Inhabited

/-- Which child a signal speaks of. -/
inductive ChildRef where
  /-- A live machine. -/
  | machine (id : MachineId)
  /-- A nested state of a flattened machine, by its path. -/
  | path (path : String)
  deriving DecidableEq, Inhabited

/-- **An event** sent to a machine. -/
inductive Event where
  /-- An ordinary event with a name and parameters. -/
  | domain (name : String) (params : Params)
  /-- A child reached a terminal state. -/
  | childExit (child : ChildRef)
  /-- Something below the receiver changed, because of `inner`. -/
  | childChange (child : ChildRef) (inner : Event)
  deriving DecidableEq, Inhabited

/-- The key under which a table files an event. -/
inductive EventKey where
  | domain (name : String)
  | childExit
  | childChange
  deriving DecidableEq, Inhabited

/-! ## Names -/

/-- The start of every reserved name. -/
def reservedStart : String := "child."

/-- Whether a name is reserved for signals. -/
def isReservedName (name : String) : Bool := reservedStart.toList.isPrefixOf name.toList

namespace EventKey

/-- The name of a key in tables and messages. -/
def name : EventKey → String
  | .domain name => name
  | .childExit => "child.exit"
  | .childChange => "child.change"

/-- Whether a key belongs to a signal. -/
def isReserved : EventKey → Bool
  | .domain _ => false
  | _ => true

/-- The key of a name. Reserved names other than those of the two signals have none. -/
def ofName? (name : String) : Option EventKey :=
  if name = EventKey.childExit.name then some .childExit
  else if name = EventKey.childChange.name then some .childChange
  else if isReservedName name then none
  else some (.domain name)

/-- A name has a key exactly if the key has that name, and a domain key only if the name is free. -/
theorem ofName?_eq_some_iff {text : String} {key : EventKey} :
    ofName? text = some key ↔
      key.name = text ∧ (key.isReserved = false → isReservedName text = false) := by
  have he : isReservedName (EventKey.childExit.name) = true := by decide
  have hc : isReservedName (EventKey.childChange.name) = true := by decide
  constructor
  · intro h
    unfold ofName? at h
    split at h
    · rename_i ht; cases h; exact ⟨ht.symm, by simp [isReserved]⟩
    · split at h
      · rename_i ht; cases h; exact ⟨ht.symm, by simp [isReserved]⟩
      · split at h
        · cases h
        · rename_i hr
          cases h
          exact ⟨rfl, fun _ => by simpa using hr⟩
  · rintro ⟨rfl, h⟩
    cases key with
    | childExit => rfl
    | childChange => rfl
    | domain name =>
      have hn := h rfl
      simp only [EventKey.name] at hn ⊢
      have h1 : name ≠ EventKey.childExit.name := fun e => by rw [e, he] at hn; cases hn
      have h2 : name ≠ EventKey.childChange.name := fun e => by rw [e, hc] at hn; cases hn
      simp [ofName?, h1, h2, hn]

/-- The place of a key among the kinds of keys. -/
def rank : EventKey → Nat
  | .domain _ => 0
  | .childExit => 1
  | .childChange => 2

/-- Domain keys come first, by name; then the exit of a child, then its change. -/
instance : Ord EventKey := ⟨compareLex (compareOn rank) (compareOn name)⟩

instance : Std.TransOrd EventKey :=
  inferInstanceAs (Std.TransCmp (compareLex (compareOn rank) (compareOn name)))

instance : Std.LawfulEqOrd EventKey where
  compare_self :=
    (inferInstance : Std.ReflCmp (compareLex (compareOn rank) (compareOn name))).compare_self
  eq_of_compare {a b} h := by
    have h' : (compareOn rank a b).then (compareOn name a b) = .eq := h
    rw [Ordering.then_eq_eq] at h'
    have hr : a.rank = b.rank := Std.LawfulEqOrd.eq_of_compare h'.1
    have hn : a.name = b.name := Std.LawfulEqOrd.eq_of_compare h'.2
    cases a <;> cases b <;> simp_all [rank, name]

end EventKey

namespace Event

/-- The key under which the event is looked up. -/
def key : Event → EventKey
  | .domain name _ => .domain name
  | .childExit _ => .childExit
  | .childChange _ _ => .childChange

/-- The name of the event. -/
def name (event : Event) : String := event.key.name

/-- The parameters. A change of a child has those of the event that caused it. -/
def params : Event → Params
  | .domain _ params => params
  | .childExit _ => []
  | .childChange _ inner => inner.params

/-- Whether the event is a signal. The receiver of a signal always handles it itself. -/
def isReserved (event : Event) : Bool := event.key.isReserved

/-- Whether the event is a domain event with a reserved name. -/
def isMisnamed : Event → Bool
  | .domain name _ => isReservedName name
  | _ => false

/-- Whether the event only reports a change further down. -/
def isChildChange : Event → Bool
  | .childChange _ _ => true
  | _ => false

/-- The child a signal speaks of. -/
def child? : Event → Option ChildRef
  | .domain _ _ => none
  | .childExit child => some child
  | .childChange child _ => some child

end Event

end Statechart
