/-!
# Settings

* `TerminalPolicy`: when a state counts as terminal.
* `Lookup`: under which keys a machine looks for the answer to an event.
* `FollowUpPolicy`: when events that a transition produced are processed.
* `EventCollision`: what happens when a composite and a state below it answer the same event.
* `MachineConfig`, `FlattenConfig`, `HierarchyConfig`: the settings of a machine, of flattening and
  of a hierarchy of machines, with their defaults.
-/

namespace Statechart

/-- **When a state counts as terminal.** -/
inductive TerminalPolicy where
  /-- Only with a final marker. -/
  | explicit
  /-- With a final marker or without outgoing transitions. -/
  | explicitOrDeadEnd
  deriving DecidableEq, Inhabited

/-- Whether a state is terminal, given its marker and whether it has outgoing transitions. -/
def TerminalPolicy.isTerminal (policy : TerminalPolicy) (isFinal hasTransitions : Bool) : Bool :=
  match policy with
  | .explicit => isFinal
  | .explicitOrDeadEnd => isFinal || !hasTransitions

/-- **Where a machine looks** for the answer to an event. -/
inductive Lookup where
  /-- Under the key of the current state only. -/
  | exact
  /-- Under the key of the current state, then under each ancestor of it as a path. -/
  | ancestors (delimiter : String)
  deriving DecidableEq, Inhabited

/-- **When follow-up events are processed.** -/
inductive FollowUpPolicy where
  /-- Before the call that caused them returns. -/
  | drain
  /-- When a flush asks for it. -/
  | queue
  deriving DecidableEq, Inhabited

/-- **What happens when a composite and a state below it answer the same domain event.** -/
inductive EventCollision where
  /-- Flattening fails. -/
  | error
  /-- Both answers stay; the innermost one counts. -/
  | namespaced
  /-- The answer of the composite counts for every state below it. -/
  | allowShadow
  deriving DecidableEq, Inhabited

/-- The settings of one machine. -/
structure MachineConfig where
  /-- Where the machine looks for answers. -/
  lookup : Lookup := .exact
  /-- Whether entering a terminal state with a qualified key produces an exit event. -/
  autoExit : Bool := false
  /-- When follow-ups are processed. -/
  followUps : FollowUpPolicy := .drain
  /-- How many follow-ups one flush processes. -/
  maxFollowUps : Nat := 256
  /-- When a state is terminal. -/
  terminal : TerminalPolicy := .explicit
  /-- How many changes the history keeps. -/
  historyLimit : Nat := 64
  deriving DecidableEq, Inhabited

/-- The settings of flattening. -/
structure FlattenConfig where
  /-- What happens to colliding answers. -/
  eventCollision : EventCollision := .error
  /-- What separates the keys of a path. -/
  delimiter : String := "."
  /-- When a state is terminal, and so produces an exit. -/
  terminal : TerminalPolicy := .explicit
  /-- When exits are processed. -/
  followUps : FollowUpPolicy := .drain
  deriving DecidableEq, Inhabited

/-- The settings of a hierarchy of machines. -/
structure HierarchyConfig where
  /-- When a child counts as finished. -/
  terminal : TerminalPolicy := .explicit
  /-- How many levels of children are followed. -/
  maxDepth : Nat := 64
  /-- What separates the keys of active paths and of graphs. -/
  delimiter : String := "."
  deriving DecidableEq, Inhabited

end Statechart
