import Statechart.Blueprint
import Statechart.History

/-!
# Scripts

A script is a list of steps to perform on a running machine or hierarchy. Subscribers have scripts
of their own, which they perform when they learn of a change.

* `RefForm`, `EventForm`: references to children and events as a script writes them. A machine is
  written by a label, which stands for an identity only when the step is performed.
* `Step`, `Rule`, `Subscriber`: the scripts.
* `Subscriber.rule?`: which rule of a subscriber a change calls for.
-/

namespace Statechart.Session

/-- **A reference to a child**, as a script writes it. -/
inductive RefForm where
  /-- A nested state. -/
  | path (path : String)
  /-- A machine, by its label or by the text of its identifier. -/
  | machine (label : String)
  deriving DecidableEq, Inhabited

/-- **An event**, as a script writes it. -/
inductive EventForm where
  | domain (name : String) (params : Params)
  | exit (child : RefForm)
  | change (child : RefForm) (inner : EventForm)
  deriving DecidableEq, Inhabited

mutual

/-- **A step** of a script. -/
inductive Step where
  /-- Send a domain event to the hierarchy, or to the machine if there is none. -/
  | send (name : String) (params : Params)
  /-- Dispatch any event to the hierarchy, or to the machine if there is none. -/
  | dispatch (event : EventForm)
  /-- Send a domain event to the machine itself. -/
  | machineSend (name : String) (params : Params)
  /-- Dispatch any event to the machine itself. -/
  | machineDispatch (event : EventForm)
  /-- Let the machine handle an event alone. -/
  | handleLocally (event : EventForm)
  /-- Try an event on the machine. -/
  | tryOn (event : EventForm)
  /-- Find out what an event does, and keep that in a slot. -/
  | resolve (event : EventForm) (slot : String)
  /-- Take what is in a slot and do it. -/
  | transition (slot : String)
  /-- Tell the machine that something below it changed. -/
  | noteBelow (child : RefForm) (event : EventForm)
  /-- Process the waiting events. -/
  | flush
  /-- Count the waiting events. -/
  | pending
  /-- Forget the waiting events. -/
  | cancel
  /-- Show the last change. -/
  | change
  /-- Show the current state. -/
  | state
  /-- Show the history. -/
  | history
  /-- Show the structure of the machine. -/
  | describe
  /-- Show what the machine shows of itself. -/
  | snapshot
  /-- Tell whether the machine takes a state for terminal. -/
  | isTerminal (state : Option (StatePlan Subscriber))
  /-- Tell whether a state has an answer to a key. -/
  | handles (state : String) (key : EventKey)
  /-- Show the keys of the factory. -/
  | factory
  /-- Show the settings of the machine. -/
  | config
  /-- Tell whether the machine is registered with an engine that routes events. -/
  | attached
  /-- Subscribe to the machine. -/
  | subscribe (subscriber : Subscriber)
  /-- End the subscription that was last stored under a name. -/
  | unsubscribe (name : String)
  /-- Show the graph; if brief, only tell whether it is the one that was shown last. -/
  | graph (brief : Bool)
  /-- Watch for new graphs. -/
  | watchGraph (name : String)
  /-- Show the flat definition. -/
  | definition
  /-- Keep a child of the active chain in a slot. -/
  | grab (depth : Nat) (slot : String)
  /-- Send an event to the child in a slot. -/
  | childSend (slot : String) (event : EventForm)
  /-- Try an event on the child in a slot. -/
  | childTry (slot : String) (event : EventForm)
  /-- Show what the child in a slot shows of itself. -/
  | childSnapshot (slot : String)
  /-- Show the structure of the child in a slot. -/
  | childDescribe (slot : String)
  /-- Release the child in a slot. -/
  | childDetach (slot : String)
  /-- Tell whether two slots hold the same child. -/
  | childSame (slot other : String)
  /-- Make a new hierarchy around the machine, in place of the old one. -/
  | rewrap (config : Except Json.Fault HierarchyConfig)
  /-- Give up the hierarchy. -/
  | dropTree
  /-- Show the settings of the hierarchy. -/
  | treeConfig

/-- **A rule** of a subscriber: what it does on a change that fits. -/
structure Rule where
  /-- The key of the state entered, if that matters. -/
  target? : Option String
  /-- The name of the event, if that matters. -/
  event? : Option String
  /-- How often the rule may be used. -/
  times : Nat
  steps : List Step

/-- **A subscriber** with its rules. -/
structure Subscriber where
  name : String
  /-- A quiet subscriber writes down no changes. -/
  isQuiet : Bool
  rules : List Rule

end

/-- Whether a rule fits a change. -/
def Rule.fits (rule : Rule) (change : Change) : Bool :=
  (rule.target?.all (· == change.target.state.key)) && rule.event?.all (· == change.event.name)

/-- The first rule that fits a change and has uses left, and the rules with one use less of it. -/
def useRule? (change : Change) : List Rule → Option (Rule × List Rule)
  | [] => none
  | rule :: rest =>
    if rule.fits change && 0 < rule.times then
      some (rule, { rule with times := rule.times - 1 } :: rest)
    else (useRule? change rest).map fun (used, rest) => (used, rule :: rest)

end Statechart.Session
