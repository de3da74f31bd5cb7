import Statechart.Path
import Std.Data.ExtTreeMap

/-!
# Graphs of states

* `MachineShape`: the states of one machine and the transitions whose targets are known.
* `ShapeGraph`: nodes, edges and parents under full keys, for a whole hierarchy.
* `ShapeGraph.ofLevels`: the graph of a chain of machines, each standing in the active state of the
  one before.
-/

namespace Statechart

/-- A state of a machine. -/
structure StateShape where
  key : String
  isFinal : Bool
  deriving DecidableEq, Inhabited

/-- A transition of a machine whose target is known. -/
structure EdgeShape where
  source : String
  event : String
  target : String
  deriving DecidableEq, Inhabited

/-- **The structure of one machine.** -/
structure MachineShape where
  states : List StateShape := []
  edges : List EdgeShape := []
  deriving DecidableEq, Inhabited

/-- A machine of a chain, with the key of its current state. -/
structure LevelShape where
  shape : MachineShape
  active : String
  deriving DecidableEq, Inhabited

/-- A node of a graph. -/
structure ShapeNode where
  /-- The key within the parent. -/
  key : String
  /-- The path from the root. -/
  fullKey : String
  isFinal : Bool
  /-- Whether the node has children. -/
  isCompound : Bool
  deriving DecidableEq, Inhabited

/-- **A graph of states**, everything under full keys. -/
structure ShapeGraph where
  nodes : Std.ExtTreeMap String ShapeNode := ∅
  /-- The targets of a node by the name of the event. -/
  edges : Std.ExtTreeMap String (Std.ExtTreeMap String String) := ∅
  /-- The parent of each node, `none` for the outermost ones. -/
  hierarchy : Std.ExtTreeMap String (Option String) := ∅

namespace ShapeGraph

instance : Inhabited ShapeGraph := ⟨{}⟩

/-- The node of a full key. -/
def node? (graph : ShapeGraph) (fullKey : String) : Option ShapeNode := graph.nodes[fullKey]?

/-- The full keys of the children of a node, or of the outermost nodes. -/
def children (graph : ShapeGraph) (parent : Option String) : List String :=
  (graph.hierarchy.toList.filter (·.2 == parent)).map Prod.fst

/-- The target of a node under the name of an event. -/
def target? (graph : ShapeGraph) (source event : String) : Option String :=
  graph.edges[source]?.bind (·[event]?)

/-- Add a node under its full key. -/
def addNode (graph : ShapeGraph) (node : ShapeNode) (parent : Option String) : ShapeGraph :=
  { graph with
    nodes := graph.nodes.insert node.fullKey node
    hierarchy := graph.hierarchy.insert node.fullKey parent }

/-- Add an edge, in place of another one of the same source and event. -/
def addEdge (graph : ShapeGraph) (source event target : String) : ShapeGraph :=
  let targets := graph.edges[source]?.getD ∅
  { graph with edges := graph.edges.insert source (targets.insert event target) }

/-- Add the states and transitions of a machine within a scope. The active state has children if
another machine follows. -/
def addLevel (delimiter : String) (scope : Option String) (holdsChild : Bool) (level : LevelShape)
    (graph : ShapeGraph) : ShapeGraph :=
  let graph := level.shape.states.foldl (fun graph state =>
    graph.addNode
      { key := state.key
        fullKey := Path.join delimiter scope state.key
        isFinal := state.isFinal
        isCompound := holdsChild && state.key == level.active } scope) graph
  level.shape.edges.foldl (fun graph edge =>
    graph.addEdge (Path.join delimiter scope edge.source) edge.event
      (Path.join delimiter scope edge.target)) graph

/-- Add the machines of a chain, the first one within a scope. -/
def addLevels (delimiter : String) : Option String → List LevelShape → ShapeGraph → ShapeGraph
  | _, [], graph => graph
  | scope, level :: rest, graph =>
    addLevels delimiter (some (Path.join delimiter scope level.active)) rest
      (graph.addLevel delimiter scope (!rest.isEmpty) level)

/-- **The graph of a chain of machines**, the outermost first. -/
def ofLevels (delimiter : String) (levels : List LevelShape) : ShapeGraph :=
  addLevels delimiter none levels {}

end ShapeGraph

end Statechart
