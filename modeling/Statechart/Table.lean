import Statechart.Factory
import Statechart.State

/-!
# Transition tables

* `Spec σ`: what a transition leads to, a state by key or one built on the spot, perhaps behind
  guards.
* `Table σ`: at most one `Spec` for each state and event key.

Main statements: `Table.get?_insert`, and `Spec.staticTarget_eq_some_iff`: the targets that are
known without running anything are those of literal specs below any number of guards.
-/

namespace Statechart

variable {σ : Type}

/-- **What a transition leads to.** -/
inductive Spec (σ : Type) where
  /-- The state of a key, made by the factory from the parameters of the event. -/
  | target (key : String)
  /-- A state built from the parameters of the event. -/
  | build (make : Params → Option σ)
  /-- A state built from the event and the state it arrives in. -/
  | context (make : EventContext → Option σ)
  /-- What `next` leads to, if the guard passes. -/
  | guarded (guard : Guard) (next : Spec σ)

namespace Spec

/-- **The state that a transition leads to**, if it leads anywhere. -/
def resolve (factory : Factory σ) (context : EventContext) : Spec σ → Option σ
  | .target key => factory.create key context.event.params
  | .build make => make context.event.params
  | .context make => make context
  | .guarded guard next => if guard.passes context then next.resolve factory context else none

/-- The key of the target, if it is known without running anything. -/
def staticTarget : Spec σ → Option String
  | .target key => some key
  | .build _ => none
  | .context _ => none
  | .guarded _ next => next.staticTarget

/-- A spec behind guards, the innermost first. -/
def behind (spec : Spec σ) (guards : List Guard) : Spec σ :=
  guards.foldl (fun s g => .guarded g s) spec

/-- Guards do not hide the target. -/
theorem staticTarget_behind (spec : Spec σ) (guards : List Guard) :
    (spec.behind guards).staticTarget = spec.staticTarget := by
  induction guards generalizing spec with
  | nil => rfl
  | cons g gs ih => simp [behind] at ih ⊢; rw [ih]; rfl

/-- The known targets are those of literal specs behind guards. -/
theorem staticTarget_eq_some_iff {spec : Spec σ} {key : String} :
    spec.staticTarget = some key ↔ ∃ guards, spec = (Spec.target key).behind guards := by
  constructor
  · induction spec with
    | target k => intro h; cases h; exact ⟨[], rfl⟩
    | build _ => intro h; cases h
    | context _ => intro h; cases h
    | guarded g next ih =>
      intro h
      obtain ⟨gs, rfl⟩ := ih h
      exact ⟨gs ++ [g], by simp [behind]⟩
  · rintro ⟨gs, rfl⟩
    exact staticTarget_behind _ gs

end Spec

/-- **A transition table**: specs by state and event key. -/
structure Table (σ : Type) where
  rows : Dict (String × EventKey) (Spec σ)

namespace Table

/-- The table without rows. -/
def empty : Table σ := ⟨.empty⟩

instance : Inhabited (Table σ) := ⟨empty⟩

/-- The spec of a state and event key. -/
def get? (table : Table σ) (state : String) (event : EventKey) : Option (Spec σ) :=
  table.rows.get? (state, event)

/-- File a spec, in place of the one that was there. -/
def insert (table : Table σ) (state : String) (event : EventKey) (spec : Spec σ) : Table σ :=
  ⟨table.rows.insert (state, event) spec⟩

/-- Whether a state has an answer to an event. -/
def handles (table : Table σ) (state : String) (event : EventKey) : Bool :=
  (table.get? state event).isSome

/-- The answers of a state. -/
def events (table : Table σ) (state : String) : List (EventKey × Spec σ) :=
  (table.rows.entries.filter (·.1.1 == state)).map fun row => (row.1.2, row.2)

/-- Whether a state has any answer. -/
def hasTransitions (table : Table σ) (state : String) : Bool :=
  table.rows.entries.any (·.1.1 == state)

/-- The states that have answers, each once. -/
def states (table : Table σ) : List String := (table.rows.keys.map Prod.fst).eraseDups

/-- How many rows there are. -/
def size (table : Table σ) : Nat := table.rows.size

/-- Whether there are no rows. -/
def isEmpty (table : Table σ) : Bool := table.rows.isEmpty

/-- An insertion changes the answer of its state and key only. -/
theorem get?_insert (table : Table σ) (state state' : String) (event event' : EventKey)
    (spec : Spec σ) :
    (table.insert state event spec).get? state' event' =
      if (state', event') = (state, event) then some spec else table.get? state' event' :=
  Dict.get?_insert _ _ _ _

end Table

end Statechart
