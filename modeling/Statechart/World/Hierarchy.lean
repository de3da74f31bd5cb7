import Statechart.Flat.Machine
import Statechart.Definition.Hierarchy
import Statechart.World.Routing

/-!
# Hierarchies in a world

What one does with a world from outside: start a machine, a flat definition or a hierarchy, and send
events to it.

* `Surroundings`: what a world needs around it, and the `Host` that comes of it.
* `Act.startFlat`, `Act.startTree`, `Act.wrap`, `Act.dropTree`: beginnings and ends.
* `Act.instantiate`: `Act.startTree` behind the check of a definition, with `InstantiateError` for
  what can go wrong.
* `Act.sendToTree`, `Act.dispatchToTree`: events for the hierarchy in use, or for its root alone if
  there is none.
* `World.activePath`, `World.leaf?`, `World.childAt?`: where a hierarchy stands.
-/

namespace Statechart

variable {ρ γ : Type}

/-- **The surroundings of a world.** Subscribers may use the world again, through the host they are
given. -/
structure Surroundings (ρ γ : Type) where
  observe : Host ρ γ → Nat → Change → Act ρ γ Unit
  enrol : ρ → Link → Act ρ γ Unit
  registered : Link → Bool → Act ρ γ Unit
  redrawn : ShapeGraph → Act ρ γ Unit

namespace Surroundings

/-- **The host of the surroundings**, with calls nested less than `depth` deep. -/
def host (around : Surroundings ρ γ) : Nat → Host ρ γ
  | 0 =>
    { observe := fun _ _ => failure
      deliver := fun _ _ => failure
      enrol := around.enrol
      registered := around.registered
      redrawn := around.redrawn }
  | depth + 1 =>
    -- The next host is made only when a call needs it.
    { observe := fun number change => around.observe (around.host depth) number change
      deliver := fun link event => Act.dispatch (around.host depth) link event
      enrol := around.enrol
      registered := around.registered
      redrawn := around.redrawn }

/-- Surroundings in which nothing happens. -/
def quiet : Surroundings ρ γ where
  observe _ _ _ := return ()
  enrol _ _ := return ()
  registered _ _ := return ()
  redrawn _ := return ()

end Surroundings

/-! ## Where a hierarchy stands -/

namespace World

/-- The engine of the hierarchy in use (`tree?`), with its number. -/
def engineInUse? (w : World ρ γ) : Option (Nat × Engine) :=
  w.tree?.bind fun number => w.engines[number]?.map (number, ·)

/-- The keys of the states that the hierarchy of `engine` is in, the root first. -/
def activeKeys (w : World ρ γ) (engine : Engine) : List String :=
  ((w.machine? engine.root).map (·.current.state.key)).toList ++
    (w.chain engine).map (·.snapshot.key)

/-- **The path of `activeKeys`.** -/
def activePath (w : World ρ γ) (engine : Engine) : String :=
  engine.config.delimiter.intercalate (w.activeKeys engine)

/-- **What the deepest child of `chain` shows of itself**, or else the root. -/
def leaf? (w : World ρ γ) (engine : Engine) : Option Snapshot :=
  match (w.chain engine).getLast? with
  | some level => some level.snapshot
  | none => w.snapshot? engine.root

/-- The child at a depth, counted from the root. The root itself is no child. -/
def childAt? (w : World ρ γ) (engine : Engine) : Nat → Option Link
  | 0 => none
  | above + 1 => ((w.chain engine)[above]?).map (·.link)

end World

/-! ## Starting and sending -/

/-- **Why a definition has not been instantiated.** -/
inductive InstantiateError where
  /-- Something is wrong with the definition. -/
  | invalid (problems : List Problem)
  /-- The machine of the root has not been built. -/
  | build (error : StartError)

namespace Act

/-- **Make a hierarchy around the machine `root`**, in place of the one in use. -/
def wrap (host : Host ρ γ) (root : Link) (config : HierarchyConfig) : Act ρ γ Unit := do
  let engine ← openEngine host root config
  modify fun w => { w with tree? := some engine }

/-- **Give up the hierarchy in use.** The result is whether there was one. -/
def dropTree : Act ρ γ Bool := modifyGet fun w => (w.tree?.isSome, { w with tree? := none })

/-- **Start the machine of `flat`.** -/
def startFlat (host : Host ρ γ) (flat : FlatDefinition) (config : FlattenConfig) :
    Act ρ γ (Except StartError Link) :=
  (flat.machinePlan config).realise host

/-- **Start the hierarchy of `definition`.** The result is its root. -/
def startTree (host : Host ρ γ) (definition : Definition) (config : HierarchyConfig) :
    Act ρ γ (Except StartError Link) := do
  match ← (definition.machinePlan config).realise host with
  | .error error => return .error error
  | .ok root =>
    wrap host root config
    return .ok root

/-- **Instantiate a nested definition** as a hierarchy, if `Definition.hierarchyProblems` finds
nothing wrong with it. This does not come to an end if the check does not. -/
def instantiate (host : Host ρ γ) (definition : Definition) (config : HierarchyConfig) :
    Act ρ γ (Except InstantiateError Link) := do
  match definition.hierarchyProblems config.delimiter with
  | none => failure
  | some [] => return (← startTree host definition config).mapError .build
  | some problems => return .error (.invalid problems)

/-- **Dispatch `event` to the hierarchy in use**, or to `root` alone if there is none. -/
def dispatchToTree (host : Host ρ γ) (root : Link) (event : Event) : Act ρ γ (Option Outcome) := do
  match (← get).engineInUse? with
  | some (engine, _) => route host engine event
  | none => dispatch host root event

/-- **Send the domain event `name` to the hierarchy in use**, or to `root` alone if there is none.
Reserved names are refused. -/
def sendToTree (host : Host ρ γ) (root : Link) (name : String) (params : Params) :
    Act ρ γ (Option Outcome) :=
  if isReservedName name then return none else dispatchToTree host root (.domain name params)

end Act

end Statechart
