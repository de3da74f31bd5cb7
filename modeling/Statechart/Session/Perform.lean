import Statechart.Config.Format
import Statechart.Session.Desk
import Statechart.Shape.Format

/-!
# Performing scripts

* `Play.perform`: performs one step; the result is what the step shows.
* `Play.observe`: what a subscriber does when it learns of a change. It writes the change down, then
  performs the steps of the first rule that fits.
* `surroundings`: sessions as the surroundings of a world.
-/

namespace Statechart.Session

namespace Play

/-! ## What is driven -/

/-- The machine that is driven. -/
def driven : Play Link := do
  match (← desk).driven? with
  | some link => return link
  | none => failure

/-- The machine that is driven, as it is now. -/
def drivenMachine : Play (Machine (StatePlan Subscriber)) := do
  match (← get).machine? (← driven) with
  | some m => return m
  | none => failure

/-- The engine of the hierarchy, if there is one. -/
def engine? : Play (Option (Nat × Engine)) := return (← get).engineInUse?

/-! ## Kinds of steps -/

/-- Find out what an event does, and keep that in a slot. -/
def resolve (host : Host Subscriber Desk) (event : Event) (slot : String) : Play Value := do
  match ← Act.resolve host (← driven) event with
  | none => return .null
  | some resolution =>
    update fun d => { d with resolutions := d.resolutions.insert slot resolution }
    return .object
      [("event", ← writeEvent resolution.event), ("from", .string resolution.source.state.key),
        ("to", ← writeState resolution.target), ("matched", .string resolution.matched)]

/-- Take what is in a slot and do it. -/
def transition (host : Host Subscriber Desk) (slot : String) : Play Value := do
  match (← desk).resolutions.get? slot with
  | none => return emptySlot
  | some resolution =>
    update fun d => { d with resolutions := d.resolutions.erase slot }
    match ← Act.transition host (← driven) resolution with
    | none => return emptySlot
    | some (change, followUps) =>
      let change ← writeChange change
      return .object [("change", change), ("follow_ups", .array (← followUps.mapM writeEvent))]

/-- The history of the machine. -/
def history : Play Value := do
  let log := (← drivenMachine).history
  return .object
    [("path", .array (log.path.map .string)), ("len", .number log.size),
      ("empty", .bool (log.size == 0)),
      ("changes", .array (log.changes.map fun change =>
        .array [.string change.event, .string change.source, .string change.target,
          .number change.revision]))]

/-- The keys of a factory, and those of final states. -/
def factoryKeys {σ : Type} (factory : Factory σ) : Value :=
  .object [("keys", .array (factory.keys.map .string)),
    ("final", .array ((factory.keys.filter factory.isFinal).map .string))]

/-- Let a subscriber in. The result is the handle of its subscription. -/
def enrol (subscriber : Subscriber) (link : Link) : Play (Option Handle) := do
  let number := (← desk).subscribers.size
  update fun d => { d with subscribers := d.subscribers.push subscriber }
  return (← Act.subscribe link number).map (.machine link)

/-- Let a subscriber in, and store its handle under its name. -/
def subscribe (subscriber : Subscriber) (link : Link) : Play Unit := do
  if let some handle ← enrol subscriber link then
    update fun d => { d with handles := d.handles.insert subscriber.name handle }

/-- End the subscription that was last stored under a name. -/
def unsubscribe (name : String) : Play Value := do
  match (← desk).handles.get? name with
  | none => return .bool false
  | some handle =>
    match handle with
    | .machine link number => Act.unsubscribe link number
    | .engine engine number =>
      Act.updateEngine engine fun e => { e with watchers := e.watchers.unsubscribe number }
    | .inert => return .bool true
    return .bool true

/-- The graph of the hierarchy, or of the flat definition, with its number. -/
def graph? : Play (Option (Nat × ShapeGraph)) := do
  match ← engine?, (← desk).flat? with
  | some (engine, _), _ => Act.graph engine
  | none, some (number, flat) => return some (number, .ofFlat flat)
  | none, none => return none

/-- Show the graph, or only whether it is the one that was shown last. -/
def showGraph (brief : Bool) : Play Value := do
  match ← graph? with
  | none => return .null
  | some (number, graph) =>
    let same := (← desk).shownGraph? == some number
    update fun d => { d with shownGraph? := some number }
    return .object (("same", .bool same) :: if brief then [] else [("graph", graph.toValue)])

/-- Watch for new graphs. That of a flat definition never changes. -/
def watchGraph (name : String) : Play Value := do
  match ← engine?, (← desk).flat? with
  | some (number, engine), _ =>
    let (handle, watchers) := engine.watchers.subscribe ()
    Act.updateEngine number fun e => { e with watchers }
    update fun d => { d with handles := d.handles.insert name (.engine number handle) }
  | none, some _ => update fun d => { d with handles := d.handles.insert name .inert }
  | none, none => return .null
  return .null

/-- Keep a child of the active chain in a slot. -/
def grab (depth : Nat) (slot : String) : Play Value := do
  let w ← get
  match w.engineInUse?.bind fun (_, engine) => w.childAt? engine depth with
  | none => return .null
  | some link =>
    update fun d => { d with children := d.children.insert slot link }
    writeLink (some link)

/-- Do something with the child in a slot. -/
def withChild (slot : String) (act : Link → Play Value) : Play Value := do
  match (← desk).children.get? slot with
  | none => return emptySlot
  | some link => act link

/-! ## Steps -/

/-- **Perform a step.** The result is what the step shows. -/
def perform (host : Host Subscriber Desk) : Step → Play Value
  | .send name params => do writeOutcome (← Act.sendToTree host (← driven) name params)
  | .dispatch event => do
    writeOutcome (← Act.dispatchToTree host (← driven) (← ofEvent event))
  | .machineSend name params => do writeOutcome (← Act.sendNamed host (← driven) name params)
  | .machineDispatch event => do
    writeOutcome (← Act.dispatch host (← driven) (← ofEvent event))
  | .handleLocally event => do
    writeOutcome (← Act.dispatchLocal host (← driven) (← ofEvent event))
  | .tryOn event => do writeAttempt (← Act.tryOn host (← driven) (← ofEvent event))
  | .resolve event slot => do resolve host (← ofEvent event) slot
  | .transition slot => transition host slot
  | .noteBelow child event => do
    let child ← ofRef child
    Act.noteBelow host (← driven) child (← ofEvent event)
    return .null
  | .flush => do return .number (← Act.flush host (← driven))
  | .pending => do return .number (← drivenMachine).pending.length
  | .cancel => do return .number (← Act.cancelPending (← driven))
  | .change => do
    match (← drivenMachine).change? with
    | none => return .null
    | some change => writeChange change
  | .state => do writeState (← drivenMachine).current.state
  | .history => history
  | .describe => do return (← drivenMachine).describe.toValue
  | .snapshot => do writeSnapshot (some (← drivenMachine).snapshot)
  | .isTerminal none => return .null
  | .isTerminal (some plan) => do
    match ← plan.realise host with
    | none => return .null
    | some state => return .bool ((← drivenMachine).isTerminal state)
  | .handles state key => do return .bool ((← drivenMachine).table.handles state key)
  | .factory => do return factoryKeys (← drivenMachine).factory
  | .config => do return (← drivenMachine).config.toValue
  | .attached => do
    let engine? := (← drivenMachine).engine?
    return .bool ((engine?.filter (← get).isAlive).isSome)
  | .subscribe subscriber => do
    subscribe subscriber (← driven)
    return .null
  | .unsubscribe name => unsubscribe name
  | .graph brief => showGraph brief
  | .watchGraph name => watchGraph name
  | .definition => do return ((← desk).flat?.map fun (_, flat) => flat.toValue).getD .null
  | .grab depth slot => grab depth slot
  | .childSend slot event => do
    let event ← ofEvent event
    withChild slot fun link => do writeOutcome (← Act.send host link event)
  | .childTry slot event => do
    let event ← ofEvent event
    withChild slot fun link => do writeAttempt (← Act.tryOn host link event)
  | .childSnapshot slot => withChild slot fun link => do
    writeSnapshot ((← get).snapshot? link)
  | .childDescribe slot => withChild slot fun link => do
    return (((← get).describe? link).map MachineShape.toValue).getD .null
  | .childDetach slot => withChild slot fun link => do
    Act.detach host link
    return .null
  | .childSame slot other => do
    let children := (← desk).children
    match children.get? slot, children.get? other with
    | some a, some b => return .bool ((← get).sameChild a b)
    | _, _ => return .bool false
  | .rewrap (.error fault) => return jsonError fault
  | .rewrap (.ok config) => do
    Act.wrap host (← driven) config
    return .null
  | .dropTree => do return .bool (← Act.dropTree)
  | .treeConfig => do
    return ((← engine?).map fun (_, engine) => engine.config.toValue).getD .null

/-! ## Subscribers -/

/-- **What a subscriber does when it learns of a change.** -/
def observe (host : Host Subscriber Desk) (number : Nat) (change : Change) : Play Unit := do
  match (← desk).subscribers[number]? with
  | none => return ()
  | some subscriber =>
    let name := Value.string subscriber.name
    if !subscriber.isQuiet then
      note (.object [("sub", name), ("change", ← writeChange change)])
    match useRule? change subscriber.rules with
    | none => return ()
    | some (rule, rules) =>
      -- The use is taken before the steps, for they may come back to the same rule.
      update fun d =>
        { d with subscribers := d.subscribers.setIfInBounds number { subscriber with rules } }
      rule.steps.forM fun step => do
        let shown ← perform host step
        note (.object [("sub", name), ("did", shown)])

/-- Write down that a child which is no machine was adopted or released, if it says so. -/
def registered (link : Link) (isJoining : Bool) : Play Unit := do
  let announces := match (← get).cell? link with
    | some (.device _ device _) => device.announces
    | some (.shell _ _ _ _) => true
    | _ => false
  if announces then
    let label ← writeLink (some link)
    note (.object [(if isJoining then "attached" else "detached", label)])

/-- Write down a new graph. -/
def redrawn (graph : ShapeGraph) : Play Unit :=
  note (.object [("shape", .array (graph.nodes.keys.map .string))])

end Play

/-- **Sessions as surroundings.** No handles are stored of the subscribers that a machine brings
with it. -/
def surroundings : Surroundings Subscriber Desk where
  observe := Play.observe
  enrol subscriber link := discard <| Play.enrol subscriber link
  registered := Play.registered
  redrawn := Play.redrawn

end Statechart.Session
