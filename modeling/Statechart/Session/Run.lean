import Statechart.Session.Perform

/-!
# Running scripts

A session drives one machine, a flat definition, or a hierarchy. It starts the subject, performs the
steps of a script, and reports after each of them what was written down and where the subject
stands.

* `Subject`: what is driven.
* `Play.report`: the report after a step.
* `run`: the whole session, as JSON. There is no answer if something in it never ends.
-/

namespace Statechart.Session

open Json

/-- **What a session drives.** -/
inductive Subject where
  /-- A machine. -/
  | machine (plan : MachinePlan Subscriber)
  /-- A flat definition, run with the settings of flattening or with others. -/
  | flat (definition : Definition) (config : Except Fault FlattenConfig)
    (runConfig? : Option (Except Fault FlattenConfig))
  /-- The hierarchy of a nested definition. -/
  | tree (definition : Definition) (config : Except Fault HierarchyConfig)
  /-- A hierarchy around a machine. -/
  | wrapped (root : MachinePlan Subscriber) (config : Except Fault HierarchyConfig)

/-! ## Errors -/

/-- An error of a kind, with its text. -/
def errorValue (kind message : String) : Value :=
  .object [("error", .string kind), ("message", .string message)]

/-- Problems of a definition, each with its kind and text. -/
def problemsValue (problems : List Problem) : Value :=
  .array (problems.map fun problem =>
    .object [("kind", .string problem.kind), ("message", .string problem.message)])

/-- The error of a definition with problems. -/
def invalidValue (problems : List Problem) : Value :=
  .object [("error", .string "Invalid"), ("message", .string (Problem.report problems)),
    ("problems", problemsValue problems)]

/-- The error of a definition without flat form. -/
def flattenErrorValue : FlattenError → Value
  | .invalid problems => invalidValue problems
  | .eventCollision collision =>
    errorValue "EventCollision" (FlattenError.eventCollision collision).message

/-- The error of a machine that could not be started. -/
def startErrorValue : StartError → Value
  | .config fault => Play.jsonError fault
  | .build error => errorValue error.kind error.message

namespace Play

/-! ## Reports -/

/-- What was written down since the last report. -/
def takeLog : Play (List Value) := do
  let log := (← desk).log
  update fun d => { d with log := [] }
  return log.reverse

/-- What a report says of a hierarchy, if there is one. -/
def treeFields : Play (List (String × Value)) := do
  let w ← get
  match w.engineInUse? with
  | none => return []
  | some (_, engine) =>
    let levels := w.chain engine
    let entries ← levels.mapM fun level => do
      let label ← writeLink (some level.link)
      return .array [label, .string level.snapshot.key, .number level.snapshot.revision]
    let leaf ← writeSnapshot (w.leaf? engine)
    return [("path", .string (w.activePath engine)), ("depth", .number levels.length),
      ("chain", .array entries), ("leaf", leaf)]

/-- **The report after a step**, given what the step has shown. -/
def report (shown : Value) : Play Value := do
  let log ← takeLog
  let m ← drivenMachine
  let d ← desk
  let change? := m.change?.map (·.revision)
  let moved := m.current.since != d.reportedState
  let changed := change? != d.reportedChange?
  update fun d => { d with reportedState := m.current.since, reportedChange? := change? }
  -- Labels are given out in the order of writing: the chain and its leaf come before the state.
  let inTree ← treeFields
  let state ← writeState m.current.state
  return .object (inTree ++
    [("r", shown), ("log", .array log), ("state", state), ("moved", .bool moved),
      ("changed", .bool changed), ("rev", .number m.revision),
      ("pending", .number m.pending.length), ("terminal", .bool m.isFinished)])

/-! ## Starting -/

/-- Drive a machine from now on. It has the first label. -/
def drive (link : Link) : Play Unit := do
  update fun d => { d with driven? := some link }
  discard <| writeLink (some link)

/-- Drive a machine, if it was started. The result is the error, if it was not. -/
def driveStarted : Except StartError Link → Play (Option Value)
  | .error error => return some (startErrorValue error)
  | .ok link => do
    drive link
    return none

/-- Start a flat definition with settings, and drive it. -/
def startFlat (host : Host Subscriber Desk) (flat : FlatDefinition) (config : FlattenConfig) :
    Play (Option Value) := do
  let number ← modifyGet fun w => (w.graphs, { w with graphs := w.graphs + 1 })
  update fun d => { d with flat? := some (number, flat) }
  driveStarted (← Act.startFlat host flat config)

/-- Start the machine of a plan, drive it, and make a hierarchy around it. The settings of the
hierarchy only matter once there is a machine. -/
def startWrapped (host : Host Subscriber Desk) (plan : MachinePlan Subscriber)
    (config : Except Fault HierarchyConfig) : Play (Option Value) := do
  match ← plan.realise host, config with
  | .error error, _ => return some (startErrorValue error)
  | .ok _, .error fault => return some (jsonError fault)
  | .ok link, .ok config =>
    -- The root has its label before children are registered, which may write theirs.
    drive link
    Act.wrap host link config
    return none

/-- **Start what a session drives.** The result is the error, if there is one. -/
def start (host : Host Subscriber Desk) : Subject → Play (Option Value)
  | .machine plan => do driveStarted (← plan.realise host)
  | .flat _ (.error fault) _ => return some (jsonError fault)
  | .flat _ _ (some (.error fault)) => return some (jsonError fault)
  | .flat definition (.ok config) runConfig? => do
    match FlatDefinition.ofDefinition config definition with
    | none => failure
    | some (.error error) => return some (flattenErrorValue error)
    | some (.ok flat) =>
      match runConfig? with
      | some (.ok runConfig) => startFlat host flat runConfig
      | _ => startFlat host flat config
  | .tree _ (.error fault) => return some (jsonError fault)
  | .tree definition (.ok config) => do
    match ← Act.instantiate host definition config with
    | .error (.invalid problems) => return some (invalidValue problems)
    | .error (.build error) => driveStarted (.error error)
    | .ok root => driveStarted (.ok root)
  | .wrapped plan config => startWrapped host plan config

/-- Share a child under a name before anything is started. -/
def share (host : Host Subscriber Desk) (name : String) (child : ChildPlan Subscriber) :
    Play Unit := do
  if let some link ← child.realise host then
    modify fun w => { w with shared := w.shared.insert name link }

/-- **The whole session**: shared children, the subject, subscribers, then the steps. -/
def session (host : Host Subscriber Desk) (subject : Subject)
    (shared : List (String × ChildPlan Subscriber)) (subscribers : List Subscriber)
    (steps : List Step) : Play Value := do
  shared.forM fun (name, child) => share host name child
  match ← start host subject with
  | some error => return error
  | none =>
    let link ← driven
    subscribers.forM fun subscriber => subscribe subscriber link
    let first ← report .null
    let reports ← steps.mapM fun step => do report (← perform host step)
    return .object [("start", first), ("steps", .array reports)]

end Play

/-- How deep calls may nest in a session. One that nests deeper is taken to have no end. -/
def nesting : Nat := 1000000

/-- **Run a script**, and report. -/
def run (subject : Subject) (shared : List (String × ChildPlan Subscriber))
    (subscribers : List Subscriber) (steps : List Step) : Option Value :=
  let host := surroundings.host nesting
  ((Play.session host subject shared subscribers steps).run { guest := {} }).map Prod.fst

end Statechart.Session
