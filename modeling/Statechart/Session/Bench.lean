import Statechart.Cases
import Statechart.Enumeration
import Statechart.Session.Run

/-!
# Parts of machines on the bench

Scripts for factories and tables alone, for single specs, for matching on keys, and for a machine
over an enumeration.

* `FactoryStep`, `runFactory`: steps on a factory.
* `TableStep`, `runTable`: steps on a table.
* `runSpec`: what a spec leads to for several events.
* `runCases`: matching on the key of a state.
* `runEnumeration`: an enumeration of states and the machine over it.
-/

namespace Statechart.Session

/-- The plans of states in a session. -/
abbrev Plan := StatePlan Subscriber

/-- A factory of a session. -/
abbrev PlanFactory := Factory Plan

/-- **A step on a factory.** -/
inductive FactoryStep where
  /-- File an entry, if there is one. -/
  | add (item? : Option (FactoryItem Plan))
  /-- Make a state, and again if there is one. -/
  | create (key : String) (params : Params)
  | contains (key : String)
  | isFinal (key : String)
  /-- Show the keys in one text. -/
  | debug

/-- **A step on a table.** -/
inductive TableStep where
  | insert (state : String) (key : EventKey) (spec : Spec Plan)
  /-- Find an answer, and what it leads to. -/
  | get (state : String) (key : EventKey) (event : EventForm)
  | handles (state : String) (key : EventKey)
  | hasTransitions (state : String)
  | events (state : String)

namespace Play

/-- Make the state of a plan, if there is a plan. -/
def realise (host : Host Subscriber Desk) : Option Plan → Play (Option State)
  | none => return none
  | some plan => plan.realise host

/-- File the entries of a factory, and make the states that are made once and for all. -/
def factoryOf (host : Host Subscriber Desk) (items : List (FactoryItem Plan)) :
    Play PlanFactory := do
  return .ofItems items (← realiseItems host items)

/-- Whether two states say the same and embed the same child. -/
def sameState (a b : State) : Play Bool := do
  let w ← get
  let sameChild := match a.child, b.child with
    | some x, some y => w.sameChild x y
    | none, none => true
    | _, _ => false
  return a.key == b.key && a.data == b.data && a.isFinal == b.isFinal && sameChild

/-- A state, or `null`. -/
def writeState? : Option State → Play Value
  | none => return .null
  | some state => writeState state

/-! ## Factories -/

/-- Make a state and show it. If there is one it is made again by a copy of the factory, to compare
the two. -/
def createTwice (host : Host Subscriber Desk) (factory : PlanFactory) (key : String)
    (params : Params) : Play Value := do
  match ← realise host (factory.create key params) with
  | none => return .null
  | some state =>
    let again ← match ← realise host (factory.clone.create key params) with
      | some second => sameState state second
      | none => pure false
    return .object
      [("key", .string state.key), ("data", state.data), ("final", .bool state.isFinal),
        ("child", ← writeLink state.child), ("name", .string state.key), ("payload", state.data),
        ("is", .bool (state.key == key)), ("again", .bool again)]

/-- The keys of a factory in one text. -/
def debugText (factory : PlanFactory) : String :=
  "StateFactory \x7b keys: [" ++ ", ".intercalate (factory.keys.map Json.quote) ++ "] \x7d"

/-- Perform a step on a factory. -/
def factoryStep (host : Host Subscriber Desk) (factory : PlanFactory) :
    FactoryStep → Play (PlanFactory × Value)
  | .add none => return (factory, .null)
  | .add (some item) => do
    let made ← realiseItem host item
    return (factory.file item made, .null)
  | .create key params => do return (factory, ← createTwice host factory key params)
  | .contains key => return (factory, .bool (factory.contains key))
  | .isFinal key => return (factory, .bool (factory.isFinal key))
  | .debug => return (factory, .string (debugText factory))

/-- Perform steps on a factory, and show it after each of them. -/
def factorySteps (host : Host Subscriber Desk) (factory : PlanFactory) :
    List FactoryStep → Play (List Value)
  | [] => return []
  | step :: rest => do
    let (factory, shown) ← factoryStep host factory step
    let entry : Value := .object
      [("r", shown), ("keys", .array (factory.keys.map .string)),
        ("len", .number factory.size), ("empty", .bool factory.isEmpty)]
    return entry :: (← factorySteps host factory rest)

/-! ## Tables -/

/-- What a spec leads to, from a state. -/
def resolveSpec (host : Host Subscriber Desk) (factory : PlanFactory) (spec : Spec Plan)
    (origin : State) (event : EventForm) : Play Value := do
  let event ← ofEvent event
  writeState? (← realise host (spec.resolve factory ⟨event, origin⟩))

/-- Answers are listed by key. -/
def answerLe (a b : EventKey × Spec Plan) : Bool := (compare a.1 b.1).isLE

/-- Perform a step on a table. -/
def tableStep (host : Host Subscriber Desk) (factory : PlanFactory) (table : Table Plan) :
    TableStep → Play (Table Plan × Value)
  | .insert state key spec =>
    let shown := match table.get? state key with
      | some old => Value.object [("replaced", .ofText? old.staticTarget)]
      | none => .string "new"
    return (table.insert state key spec, shown)
  | .get state key event => do
    match table.get? state key with
    | none => return (table, .null)
    | some spec =>
      let target ← resolveSpec host factory spec { key := state } event
      return (table, .object [("static", .ofText? spec.staticTarget), ("to", target)])
  | .handles state key => return (table, .bool (table.handles state key))
  | .hasTransitions state => return (table, .bool (table.hasTransitions state))
  | .events state =>
    return (table, .array (((table.events state).mergeSort answerLe).map fun (key, spec) =>
      .array [key.toForm, .ofText? spec.staticTarget]))

/-- Perform steps on a table, and show it after each of them. -/
def tableSteps (host : Host Subscriber Desk) (factory : PlanFactory) (table : Table Plan) :
    List TableStep → Play (List Value)
  | [] => return []
  | step :: rest => do
    let (table, shown) ← tableStep host factory table step
    let entry : Value := .object
      [("r", shown), ("states", .array ((table.states.mergeSort (· ≤ ·)).map .string)),
        ("len", .number table.size), ("empty", .bool table.isEmpty)]
    return entry :: (← tableSteps host factory table rest)

/-! ## Matching on keys -/

/-- The cases of a list of keys; each shows its place and the state. -/
def casesOf (keys : List String) : Cases Value :=
  keys.zipIdx.map fun (key, place) => (key, fun state =>
    .object [("case", .number place), ("key", .string state.key), ("data", state.data)])

/-- The error of a match. -/
def matchErrorValue (error : MatchError) : Value :=
  let kind := match error with
    | .uncovered _ => "Uncovered"
    | .unmatched _ => "Unmatched"
  errorValue kind error.message

/-! ## Enumerations -/

/-- Show a state of an enumeration. -/
def writeMember (factory : PlanFactory) (host : Host Subscriber Desk) (key : String) :
    Play Value := do
  match ← realise host (factory.create key []) with
  | none => return .null
  | some state =>
    return .array [.string state.key, .bool state.isFinal, .bool state.child.isSome, .null]

/-- Send an event to a machine over an enumeration, and show where it stands. -/
def sendMember (host : Host Subscriber Desk) (event : String × Params) : Play Value := do
  let outcome ← writeOutcome (← Act.sendToTree host (← driven) event.1 event.2)
  let m ← drivenMachine
  let state := m.current.state
  return .array [outcome, .string state.key, .bool state.isFinal]

end Play

/-- Perform something in a new session. -/
def evaluate {α : Type} (play : Host Subscriber Desk → Play α) : Option α :=
  ((play (surroundings.host nesting)).run { guest := {} }).map Prod.fst

/-- **Perform steps on a factory** that is empty at first. -/
def runFactory (steps : List FactoryStep) : Option Value :=
  evaluate fun host => do return .array (← Play.factorySteps host .empty steps)

/-- **Perform steps on a table** that is empty at first. -/
def runTable (items : List (FactoryItem Plan)) (steps : List TableStep) : Option Value :=
  evaluate fun host => do
    let factory ← Play.factoryOf host items
    return .array (← Play.tableSteps host factory .empty steps)

/-- **What a spec leads to** from a state, for several events. There is nothing to show if the state
cannot be made. -/
def runSpec (items : List (FactoryItem Plan)) (spec : Spec Plan) (origin : Option Plan)
    (events : List EventForm) : Option Value :=
  evaluate fun host => do
    let factory ← Play.factoryOf host items
    match ← Play.realise host origin with
    | none => return .null
    | some origin =>
      let targets ← events.mapM (Play.resolveSpec host factory spec origin)
      return .object [("static", .ofText? spec.staticTarget), ("to", .array targets)]

/-- **Matching on the key of a state**, with a fallback and exhaustively. There is nothing to show
if the state cannot be made. -/
def runCases (items : List (FactoryItem Plan)) (state : Option Plan) (keys : List String) :
    Option Value :=
  evaluate fun host => do
    let factory ← Play.factoryOf host items
    match ← Play.realise host state with
    | none => return .null
    | some state =>
      let cases := Play.casesOf keys
      let fallback (state : State) : Value := .object [("fallback", .string state.key)]
      let exhaustive := match cases.exhaustive factory state with
        | .ok result => result
        | .error error => Play.matchErrorValue error
      return .object
        [("otherwise", cases.otherwise fallback state), ("exhaustive", exhaustive)]

/-- **The traffic light**: states made by key, and events sent to the machine over it. -/
def runEnumeration (create : List String) (events : List (String × Params)) : Option Value :=
  evaluate fun host => do
    let factory ← Play.factoryOf host trafficLight.items
    let created ← create.mapM (Play.writeMember factory host)
    match ← Play.driveStarted (← trafficLightPlan.realise host) with
    | some error => return error
    | none =>
      let steps ← events.mapM (Play.sendMember host)
      return .object
        [("keys", .array (factory.keys.map .string)),
          ("final", .array ((factory.keys.filter factory.isFinal).map .string)),
          ("created", .array created), ("steps", .array steps)]

end Statechart.Session
