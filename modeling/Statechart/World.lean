import Statechart.Blueprint
import Statechart.Machine

/-!
# Worlds of machines

States embed children by links, children are shared, and one machine can stand below several others.
A `World ρ γ` therefore holds all children there are, each in a cell with a place of its own; a link
is a place. Beside the cells it holds the engines that route events through chains of children.

* `Cell`, `Engine`, `World`: the data. `ρ` is the type of the subscribers that come with plans, `γ`
  the type of what the surroundings remember.
* `World.id?`, `World.snapshot?`, `World.chain`: what can be seen of links, and the chain of
  children that is active below a root.
* `Act`: something that happens in a world. It has no result if it never ends.
* `Host`: how what happens reaches the surroundings, and through them the world again.

Main statements: `World.cell?_setCell` and `World.cell?_addCell` say what changes to cells do to
links.
-/

namespace Statechart

/-- **What a link points to.** -/
inductive Cell (ρ : Type) where
  | machine (machine : Machine (StatePlan ρ))
  /-- A device, with its memory. -/
  | device (id : MachineId) (device : Device) (memory : Nat)
  /-- A shell around a machine, which has the identity of the machine. -/
  | shell (id : MachineId) (inner : Link) (isMute : Bool) (hiddenIn : Option String)
  deriving Inhabited

/-- **A router of events** through the chain of children below a root. -/
structure Engine where
  root : Link
  config : HierarchyConfig
  /-- The children that are registered here, the outermost first. -/
  attached : List Link := []
  /-- The graph of the chain with a number of its own, if it is known. -/
  graph? : Option (Nat × ShapeGraph) := none
  /-- Those who are told when the graph is made anew. -/
  watchers : Listeners Unit := {}
  /-- Every registration and release of a child so far, the last one first. -/
  calls : List (MachineId × Bool) := []
  deriving Inhabited

/-- **Everything there is.** -/
structure World (ρ γ : Type) where
  cells : Array (Cell ρ) := #[]
  engines : Array Engine := #[]
  /-- How many identities have been handed out. -/
  minted : Nat := 0
  /-- How many graphs have been made. -/
  graphs : Nat := 0
  /-- The engine of the hierarchy that is in use. -/
  tree? : Option Nat := none
  /-- The engines that are routing an event now, the innermost first. -/
  busy : List Nat := []
  /-- The links that were shared under a name. -/
  shared : Dict String Link := .empty
  /-- What the surroundings remember. -/
  guest : γ

/-- A child on the active chain, with what it showed when the chain was walked. -/
structure Level where
  link : Link
  snapshot : Snapshot
  deriving Inhabited

variable {ρ γ : Type}

/-- The identity of what is in a cell. -/
def Cell.id : Cell ρ → MachineId
  | .machine m => m.id
  | .device id _ _ => id
  | .shell id _ _ _ => id

namespace World

instance [Inhabited γ] : Inhabited (World ρ γ) := ⟨{ guest := default }⟩

/-! ## Looking at links -/

/-- What `link` points to. -/
def cell? (w : World ρ γ) (link : Link) : Option (Cell ρ) := w.cells[link.place]?

/-- The machine that `link` points to, if it is one. -/
def machine? (w : World ρ γ) (link : Link) : Option (Machine (StatePlan ρ)) :=
  match w.cell? link with
  | some (.machine m) => some m
  | _ => none

/-- The identity of what `link` points to. -/
def id? (w : World ρ γ) (link : Link) : Option MachineId := (w.cell? link).map (·.id)

/-- Whether `a` and `b` point to children of the same identity. -/
def sameChild (w : World ρ γ) (a b : Link) : Bool := w.id? a == w.id? b

/-- **What the child at `link` shows of itself**, if it shows anything. -/
def snapshot? (w : World ρ γ) (link : Link) : Option Snapshot :=
  match w.cell? link with
  | none => none
  | some (.machine m) => some m.snapshot
  | some (.device _ device memory) => device.report memory
  | some (.shell _ inner _ hiddenIn) =>
    ((w.machine? inner).map (·.snapshot)).filter fun snapshot => some snapshot.key ≠ hiddenIn

/-- The structure of the child at `link`, if it can describe itself. -/
def describe? (w : World ρ γ) (link : Link) : Option MachineShape :=
  (w.machine? link).map (·.describe)

/-! ## Changing cells -/

/-- Replace what `link` points to. -/
def setCell (w : World ρ γ) (link : Link) (cell : Cell ρ) : World ρ γ :=
  { w with cells := w.cells.setIfInBounds link.place cell }

/-- Put `cell` into a new cell, and point to it. -/
def addCell (w : World ρ γ) (cell : Cell ρ) : Link × World ρ γ :=
  (⟨w.cells.size⟩, { w with cells := w.cells.push cell })

/-- `cell?` after `setCell`. -/
theorem cell?_setCell (w : World ρ γ) (link link' : Link) (cell : Cell ρ) :
    (w.setCell link cell).cell? link' =
      if link' = link then (w.cell? link).map fun _ => cell else w.cell? link' := by
  obtain ⟨place⟩ := link
  obtain ⟨place'⟩ := link'
  simp only [cell?, setCell, Array.getElem?_setIfInBounds, Link.mk.injEq]
  by_cases h : place' = place
  · subst h
    by_cases hb : place' < w.cells.size <;> simp [hb]
  · rw [if_neg (fun e => h e.symm), if_neg h]

/-- `cell?` after `addCell`. -/
theorem cell?_addCell (w : World ρ γ) (cell : Cell ρ) (link : Link) :
    (w.addCell cell).2.cell? link =
      if link = (w.addCell cell).1 then some cell else w.cell? link := by
  obtain ⟨place⟩ := link
  simp only [cell?, addCell, Array.getElem?_push, Link.mk.injEq]

/-- `cell?` of a new link before `addCell`. -/
theorem cell?_addCell_link (w : World ρ γ) (cell : Cell ρ) : w.cell? (w.addCell cell).1 = none := by
  simp [cell?, addCell]

/-! ## The active chain -/

/-- The chain of children from a link on, at most `bound` levels, without the identities already
`visited`. It ends at a child that shows nothing. -/
def chainFrom (w : World ρ γ) : Nat → List MachineId → Option Link → List Level
  | 0, _, _ => []
  | _ + 1, _, none => []
  | bound + 1, visited, some link =>
    match w.id? link, w.snapshot? link with
    | some id, some snapshot =>
      if id ∈ visited then []
      else ⟨link, snapshot⟩ :: w.chainFrom bound (id :: visited) snapshot.child
    | _, _ => []

/-- **The chain of children that is active below `engine.root`**, the outermost first, up to
`maxDepth`. -/
def chain (w : World ρ γ) (engine : Engine) : List Level :=
  match w.machine? engine.root with
  | none => []
  | some root => w.chainFrom engine.config.maxDepth [root.id] root.current.state.child

/-- Whether the engine routes events: it is that of the hierarchy in use, or it is at work right now
(`busy`). -/
def isAlive (w : World ρ γ) (engine : Nat) : Bool :=
  w.tree? == some engine || w.busy.contains engine

end World

/-! ## What happens -/

/-- **Something that happens in a world**, with a result of type `α`. It has none if it never ends,
or if calls nest more deeply than is allowed. -/
abbrev Act (ρ γ α : Type) := StateT (World ρ γ) Option α

/-- **How a world reaches its surroundings**, and through them itself. -/
structure Host (ρ γ : Type) where
  /-- A subscriber, known by a number, learns of a change. -/
  observe : Nat → Change → Act ρ γ Unit
  /-- An event is delivered to a machine by a call of its own. -/
  deliver : Link → Event → Act ρ γ (Option Outcome)
  /-- A subscriber comes with a new machine. -/
  enrol : ρ → Link → Act ρ γ Unit
  /-- A child that is no machine is adopted, or released. -/
  registered : Link → Bool → Act ρ γ Unit
  /-- A watcher learns of a new graph. -/
  redrawn : ShapeGraph → Act ρ γ Unit

namespace Act

/-- Put something into a new cell. -/
def allocate (cell : Cell ρ) : Act ρ γ Link := modifyGet (·.addCell cell)

/-- A new identity. -/
def mint : Act ρ γ MachineId := modifyGet fun w =>
  (.minted w.minted, { w with minted := w.minted + 1 })

/-- Replace what a link points to. -/
def setCell (link : Link) (cell : Cell ρ) : Act ρ γ Unit := modify (·.setCell link cell)

/-- Change the machine that `link` points to by `f`. -/
def updateMachine (link : Link) (f : Machine (StatePlan ρ) → Machine (StatePlan ρ)) :
    Act ρ γ Unit := do
  match (← get).machine? link with
  | some m => setCell link (.machine (f m))
  | none => return ()

/-- Subscribe to a machine under a number of the surroundings. The result is the handle. -/
def subscribe (link : Link) (subscriber : Nat) : Act ρ γ (Option Nat) := do
  match (← get).machine? link with
  | some m =>
    let (handle, listeners) := m.listeners.subscribe subscriber
    setCell link (.machine { m with listeners })
    return some handle
  | none => return none

/-- End the subscription `handle` to the machine at `link`. -/
def unsubscribe (link : Link) (handle : Nat) : Act ρ γ Unit :=
  updateMachine link fun m => { m with listeners := m.listeners.unsubscribe handle }

/-- Change the engine of a number by `f`. -/
def updateEngine (engine : Nat) (f : Engine → Engine) : Act ρ γ Unit :=
  modify fun w => { w with engines := w.engines.modify engine f }

/-- Do `act` while the engine is among those in `busy`. -/
def whileBusy {α : Type} (engine : Nat) (act : Act ρ γ α) : Act ρ γ α := do
  modify fun w => { w with busy := engine :: w.busy }
  let result ← act
  modify fun w => { w with busy := w.busy.drop 1 }
  return result

end Act

end Statechart
