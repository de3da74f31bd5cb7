import Statechart.Factory
import Statechart.State

/-!
# Matching on the key of a state

* `Cases.otherwise`: the first case with the key of the state, or a fallback.
* `Cases.exhaustive`: the same without fallback, provided that every key of a factory has a case.
-/

namespace Statechart

/-- Why an exhaustive match failed. -/
inductive MatchError where
  /-- Keys of the factory without a case. -/
  | uncovered (keys : List String)
  /-- The state has a key without a case. -/
  | unmatched (key : String)
  deriving DecidableEq

/-- The text of a failed match. -/
def MatchError.message : MatchError → String
  | .uncovered keys => "no case covers state keys: " ++ ", ".intercalate keys
  | .unmatched key => "state '" ++ key ++ "' has no matching case"

/-- **Cases by key**, in order. -/
abbrev Cases (α : Type) := List (String × (State → α))

namespace Cases

variable {α σ : Type}

/-- The result of the first case with the key of the state. -/
def first? (cases : Cases α) (state : State) : Option α :=
  (cases.lookup state.key).map (· state)

/-- The result of the first matching case, or of the fallback. -/
def otherwise (cases : Cases α) (fallback : State → α) (state : State) : α :=
  (cases.first? state).getD (fallback state)

/-- **The result of the first matching case**, if every key of the factory has one. -/
def exhaustive (cases : Cases α) (factory : Factory σ) (state : State) : Except MatchError α :=
  match factory.keys.filter (fun key => (cases.lookup key).isNone) with
  | [] =>
    match cases.first? state with
    | some result => .ok result
    | none => .error (.unmatched state.key)
  | keys => .error (.uncovered keys)

end Cases

end Statechart
