/-!
# Lists of subscribers

* `Listeners α`: subscribers of type `α`, in order of subscription, under numbers that are never
  used twice.
* `Listeners.round`: the subscribers that a notification reaches. A round is fixed when it starts:
  who subscribes during the round is not in it, who unsubscribes still is.
-/

namespace Statechart

variable {α : Type}

/-- **Subscribers** in order of subscription, each under a number of its own. -/
structure Listeners (α : Type) where
  /-- The number of the next subscription. -/
  next : Nat := 0
  /-- The subscribers with their numbers. -/
  entries : List (Nat × α) := []
  deriving Inhabited

namespace Listeners

/-- Add `subscriber`; the number is its handle. -/
def subscribe (listeners : Listeners α) (subscriber : α) : Nat × Listeners α :=
  (listeners.next,
    { next := listeners.next + 1
      entries := listeners.entries ++ [(listeners.next, subscriber)] })

/-- Remove the subscriber of `number`, if it is still there. -/
def unsubscribe (listeners : Listeners α) (number : Nat) : Listeners α :=
  { listeners with entries := listeners.entries.filter (·.1 ≠ number) }

/-- **The subscribers that a notification reaches now**, in order. -/
def round (listeners : Listeners α) : List α := listeners.entries.map Prod.snd

/-- How many subscribers there are. -/
def size (listeners : Listeners α) : Nat := listeners.entries.length

/-- Whether there are no subscribers. -/
def isEmpty (listeners : Listeners α) : Bool := listeners.entries.isEmpty

end Listeners

end Statechart
