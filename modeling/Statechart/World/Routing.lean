import Statechart.World.Transition

/-!
# Routing events through a hierarchy

An engine stands at a root and offers each domain event to the machines of the active chain, the
deepest first; the first one that applies it wins. Then every child that is finished now, from the
place of the change upward, makes its parent exit, and the root notes that something below it
changed.

* `Act.sync`: registers the children that joined the chain and releases those that left it.
* `Act.attempt`: offers an event, the deepest child first.
* `Act.bubble`: lets exits rise.
* `Act.handle`: all of it, for one event.
* `Act.dispatch`: an event arrives at a machine, which passes it on to the engine it is registered
  with, if it still belongs there.
* `Act.graph`: the graph of the chain, made anew when children join or leave.
-/

namespace Statechart

variable {ρ γ : Type}

namespace Act

/-! ## Children of any kind -/

/-- **Send `event` to the child at `link`** as anyone outside would. -/
def send (host : Host ρ γ) (link : Link) (event : Event) : Act ρ γ (Option Outcome) := do
  match (← get).cell? link with
  | none => return none
  | some (.machine _) => host.deliver link event
  | some (.device id device memory) =>
    let memory := device.next memory event
    setCell link (.device id device memory)
    return device.reply memory event
  | some (.shell _ inner isMute _) =>
    let outcome ← host.deliver inner event
    return if isMute then none else outcome

/-- Try `event` on the child at `link`. Only machines can be tried. -/
def tryOn (host : Host ρ γ) (link : Link) (event : Event) : Act ρ γ Attempt := do
  match (← get).machine? link with
  | none => return .unsupported
  | some _ =>
    match ← dispatchLocal host link event with
    | some outcome => return .applied outcome
    | none => return .unhandled

/-- Register the child at `link` with `engine`. -/
def attach (host : Host ρ γ) (engine : Nat) (link : Link) : Act ρ γ Unit := do
  match (← get).machine? link with
  | some m => setCell link (.machine { m with engine? := some engine })
  | none => host.registered link true

/-- Release the child at `link` from the engine it is registered with. -/
def detach (host : Host ρ γ) (link : Link) : Act ρ γ Unit := do
  match (← get).machine? link with
  | some m => setCell link (.machine { m with engine? := none })
  | none => host.registered link false

/-! ## Graphs -/

/-- The structure of a child, or the state of its `snapshot` alone if it cannot describe itself. -/
def levelShape (shape? : Option MachineShape) (snapshot : Snapshot) : LevelShape where
  shape := shape?.getD { states := [⟨snapshot.key, snapshot.isFinal⟩] }
  active := snapshot.key

/-- The graph of the root and the active chain of `engine`. -/
def drawGraph (w : World ρ γ) (engine : Engine) : ShapeGraph :=
  let root := (w.machine? engine.root).map fun m => levelShape (some m.describe) m.snapshot
  let children := (w.chain engine).map fun level =>
    levelShape (w.describe? level.link) level.snapshot
  .ofLevels engine.config.delimiter (root.toList ++ children)

/-- **The graph of `engine`** with its number. It is made when it is first asked for, and kept. -/
def graph (engine : Nat) : Act ρ γ (Option (Nat × ShapeGraph)) := do
  let w ← get
  match w.engines[engine]? with
  | none => return none
  | some e =>
    match e.graph? with
    | some known => return some known
    | none =>
      let drawn := (w.graphs, drawGraph w e)
      set { w with graphs := w.graphs + 1 }
      updateEngine engine fun e => { e with graph? := some drawn }
      return some drawn

/-- Forget the graph of `engine`. If someone watches, it is made anew at once. -/
def redraw (host : Host ρ γ) (engine : Nat) : Act ρ γ Unit := do
  updateEngine engine fun e => { e with graph? := none }
  match (← get).engines[engine]? with
  | none => return ()
  | some e =>
    if !e.watchers.isEmpty then
      match ← graph engine with
      | none => return ()
      | some (_, drawn) => e.watchers.round.forM fun _ => host.redrawn drawn

/-! ## Registrations -/

/-- Register or release the child at `link`, and keep a record in `calls`. -/
def call (host : Host ρ γ) (engine : Nat) (isJoining : Bool) (link : Link) : Act ρ γ Unit := do
  match (← get).id? link with
  | none => return ()
  | some id =>
    updateEngine engine fun e => { e with calls := (id, isJoining) :: e.calls }
    if isJoining then attach host engine link else detach host link

/-- **Bring `attached` in line with the active chain**: release the children that left it, then
register those that joined it. The result is the chain. -/
def sync (host : Host ρ γ) (engine : Nat) : Act ρ γ (List Level) := do
  let w ← get
  match w.engines[engine]? with
  | none => return []
  | some e =>
    let levels := w.chain e
    let links := levels.map (·.link)
    -- Children are compared by identity: a shell in place of its machine is the same child.
    let ids := links.map w.id?
    let previous := e.attached.map w.id?
    updateEngine engine fun e => { e with attached := links }
    if ids ≠ previous then
      (e.attached.filter fun link => w.id? link ∉ ids).forM (call host engine false)
      (links.filter fun link => w.id? link ∉ previous).forM (call host engine true)
      redraw host engine
    return levels

/-- **Put an engine at `root`.** The root is registered with it, and so is the chain below. -/
def openEngine (host : Host ρ γ) (root : Link) (config : HierarchyConfig) : Act ρ γ Nat := do
  let engine ← modifyGet fun w =>
    (w.engines.size, { w with engines := w.engines.push { root, config } })
  attach host engine root
  discard <| sync host engine
  return engine

/-! ## Offering an event -/

/-- `send` to a child that cannot be tried. Without an outcome its snapshots before and after tell
whether it did anything. -/
def delegate (host : Host ρ γ) (level : Level) (event : Event) : Act ρ γ (Option Outcome) := do
  match ← send host level.link event with
  | some outcome => return some outcome
  | none =>
    -- No outcome need not mean that nothing happened.
    let w ← get
    let before := level.snapshot
    match w.snapshot? level.link, w.id? level.link with
    | some now, some machine =>
      if now.key = before.key ∧ now.revision = before.revision then return none
      else
        return some { machine, event := event.name, source := before.key, target := now.key }
    | _, _ => return none

/-- Offer `event` to the child at `level`: `tryOn`, or else `delegate`. -/
def tryLevel (host : Host ρ γ) (level : Level) (event : Event) : Act ρ γ (Option Outcome) := do
  match ← tryOn host level.link event with
  | .applied outcome => return some outcome
  | .unhandled => return none
  | .unsupported => delegate host level event

/-- `tryLevel` along a list, each with its depth, up to the first outcome. -/
def attemptLevels (host : Host ρ γ) (event : Event) :
    List (Level × Nat) → Act ρ γ (Option (Nat × Outcome))
  | [] => return none
  | (level, depth) :: rest => do
    match ← tryLevel host level event with
    | some outcome => return some (depth, outcome.atDepth depth)
    | none => attemptLevels host event rest

/-- **Offer `event` to the chain**, the deepest child first and `root` last. The result is the depth
at which it was applied, with the outcome. -/
def attempt (host : Host ρ γ) (root : Link) (levels : List Level) (event : Event) :
    Act ρ γ (Option (Nat × Outcome)) := do
  match ← attemptLevels host event (levels.zipIdx 1).reverse with
  | some applied => return some applied
  | none => return (← dispatchLocal host root event).map (0, ·)

/-! ## Exits -/

/-- Whether a child that shows `snapshot` is finished under `config.terminal`. -/
def isFinished (config : HierarchyConfig) (snapshot : Snapshot) : Bool :=
  config.terminal.isTerminal snapshot.isFinal (!snapshot.deadEnd)

/-- `World.chain` of the engine now. -/
def chainOf (engine : Nat) : Act ρ γ (List Level) := do
  let w ← get
  return (w.engines[engine]?.map w.chain).getD []

/-- Offer `exit` to the machine at a depth of the chain. -/
def tryExit (host : Host ρ γ) (root : Link) (levels : List Level) (exit : Event) :
    Nat → Act ρ γ Bool
  | 0 => return (← dispatchLocal host root exit).isSome
  | above + 1 => do
    match levels[above]? with
    | none => return false
    | some parent => return (← tryLevel host parent exit).isSome

/-- **Let exits rise** from a depth: as long as the child there `isFinished`, its parent exits, and
then the parent may be finished itself. -/
def bubbleFrom (host : Host ρ γ) (engine : Nat) (e : Engine) : Nat → Act ρ γ Unit
  | 0 => return ()
  | parent + 1 => do
    -- The last exit may have changed the chain.
    let levels ← chainOf engine
    match levels[parent]? with
    | none => return ()
    | some child =>
      if isFinished e.config child.snapshot then
        match (← get).id? child.link with
        | none => return ()
        | some id =>
          if ← tryExit host e.root levels (.childExit (.machine id)) parent then
            bubbleFrom host engine e parent

/-- Let exits rise after an event was applied at the depth `handled`. Children that are not in
`before` came with the transition, so the deepest of them comes first. -/
def bubble (host : Host ρ γ) (engine : Nat) (e : Engine) (handled : Nat)
    (before : List (Option MachineId)) : Act ρ γ Unit := do
  let levels ← chainOf engine
  let w ← get
  let entered := (levels.drop handled).takeWhile fun level => w.id? level.link ∉ before
  bubbleFrom host engine e (handled + entered.length)

/-! ## Handling an event -/

/-- **Handle `event` as if it arrived at the root**: `sync`, `attempt` and `bubble`. Signals concern
the root itself. -/
def handle (host : Host ρ γ) (engine : Nat) (event : Event) : Act ρ γ (Option Outcome) := do
  match (← get).engines[engine]? with
  | none => return none
  | some e =>
    if event.isMisnamed then return none
    if event.isReserved then return ← dispatchLocal host e.root event
    let levels ← sync host engine
    let w ← get
    let before := levels.map fun level => w.id? level.link
    match ← attempt host e.root levels event with
    | none => return none
    | some (handled, outcome) =>
      bubble host engine e handled before
      -- The root has come to rest, so it notes the change in the state it is in now.
      if 0 < handled then noteBelow host e.root (.machine outcome.machine) event
      discard <| sync host engine
      return some outcome

/-- `handle` while the engine is at work (`whileBusy`). -/
def route (host : Host ρ γ) (engine : Nat) (event : Event) : Act ρ γ (Option Outcome) :=
  whileBusy engine (handle host engine event)

/-- Whether the machine `id` is the root of `engine` or on its active chain. -/
def owns (w : World ρ γ) (engine : Nat) (id : MachineId) : Bool :=
  match w.engines[engine]? with
  | none => false
  | some e => w.id? e.root == some id || (w.chain e).any fun level => w.id? level.link == some id

/-- **`event` arrives at the machine at `link`.** A domain event goes to the engine that the machine
is registered with, if the engine `isAlive` and `owns` the machine. -/
def dispatch (host : Host ρ γ) (link : Link) (event : Event) : Act ρ γ (Option Outcome) := do
  let w ← get
  match w.machine? link with
  | none => return none
  | some m =>
    match m.engine?.filter w.isAlive with
    | none => dispatchLocal host link event
    | some engine =>
      if event.isReserved then dispatchLocal host link event
      else if owns w engine m.id then route host engine event
      else
        -- The machine has left the hierarchy since it was registered.
        setCell link (.machine { m with engine? := none })
        dispatchLocal host link event

/-- `dispatch` of the domain event `name`. Reserved names are refused. -/
def sendNamed (host : Host ρ γ) (link : Link) (name : String) (params : Params) :
    Act ρ γ (Option Outcome) :=
  if isReservedName name then return none else dispatch host link (.domain name params)

end Act

end Statechart
