import Statechart.Json.Reader
import Statechart.Shape

/-!
# Graphs of states as JSON

Readers and written forms of machine shapes, nodes and graphs. Every field must be there. The maps
of a graph are objects, of whose fields with one key the last counts; they are written in order of
keys.

`ShapeGraph.json` is the text of a graph over several lines.
-/

namespace Statechart

open Json

namespace StateShape

/-- What has been read of a state so far. -/
abbrev Draft := Option String × Option Bool

/-- Reads a state of a machine. -/
def reader : Reader StateShape :=
  .record
    [.of "key" .string fun key (draft : Draft) => (some key, draft.2),
      .of "is_final" .flag fun isFinal draft => (draft.1, some isFinal)]
    false (none, none) fun (key, isFinal) => return ⟨← key, ← isFinal⟩

/-- The written form. -/
def toValue (state : StateShape) : Value :=
  .object [("key", .string state.key), ("is_final", .bool state.isFinal)]

end StateShape

namespace EdgeShape

/-- What has been read of a transition so far. -/
abbrev Draft := Option String × Option String × Option String

/-- Reads a transition of a machine. -/
def reader : Reader EdgeShape :=
  .record
    [.of "from" .string fun source (draft : Draft) => (some source, draft.2),
      .of "event" .string fun event draft => (draft.1, some event, draft.2.2),
      .of "to" .string fun target draft => (draft.1, draft.2.1, some target)]
    false (none, none, none) fun (source, event, target) => return ⟨← source, ← event, ← target⟩

/-- The written form. -/
def toValue (edge : EdgeShape) : Value :=
  .object [("from", .string edge.source), ("event", .string edge.event),
    ("to", .string edge.target)]

end EdgeShape

namespace MachineShape

/-- What has been read of a machine so far. -/
abbrev Draft := Option (List StateShape) × Option (List EdgeShape)

/-- Reads the structure of a machine. -/
def reader : Reader MachineShape :=
  .record
    [.of "states" (.list StateShape.reader) fun states (draft : Draft) => (some states, draft.2),
      .of "edges" (.list EdgeShape.reader) fun edges draft => (draft.1, some edges)]
    false (none, none) fun (states, edges) => return ⟨← states, ← edges⟩

/-- The written form. -/
def toValue (shape : MachineShape) : Value :=
  .object [("states", .array (shape.states.map StateShape.toValue)),
    ("edges", .array (shape.edges.map EdgeShape.toValue))]

/-- The structure that a value describes. -/
def ofValue (value : Value) : Except Fault MachineShape := parseValue reader value

end MachineShape

namespace ShapeNode

/-- What has been read of a node so far. -/
structure Draft where
  key : Option String := none
  fullKey : Option String := none
  isFinal : Option Bool := none
  isCompound : Option Bool := none

/-- The node, if every field was read. -/
def Draft.finish (draft : Draft) : Option ShapeNode := do
  return ⟨← draft.key, ← draft.fullKey, ← draft.isFinal, ← draft.isCompound⟩

/-- Reads a node. -/
def reader : Reader ShapeNode :=
  .record
    [.of "key" .string fun key draft => { draft with key := some key },
      .of "fullKey" .string fun fullKey draft => { draft with fullKey := some fullKey },
      .of "isFinal" .flag fun isFinal draft => { draft with isFinal := some isFinal },
      .of "isCompound" .flag fun isCompound draft => { draft with isCompound := some isCompound }]
    false ({} : Draft) Draft.finish

/-- The written form. -/
def toValue (node : ShapeNode) : Value :=
  .object [("key", .string node.key), ("fullKey", .string node.fullKey),
    ("isFinal", .bool node.isFinal), ("isCompound", .bool node.isCompound)]

end ShapeNode

namespace ShapeGraph

/-- What has been read of a graph so far. -/
structure Draft where
  nodes : Option (Std.ExtTreeMap String ShapeNode) := none
  edges : Option (Std.ExtTreeMap String (Std.ExtTreeMap String String)) := none
  hierarchy : Option (Std.ExtTreeMap String (Option String)) := none

/-- The graph, if every field was read. -/
def Draft.finish (draft : Draft) : Option ShapeGraph := do
  return ⟨← draft.nodes, ← draft.edges, ← draft.hierarchy⟩

/-- Reads an object as a map. -/
def mapReader {α : Type} (r : Reader α) : Reader (Std.ExtTreeMap String α) :=
  (Std.ExtTreeMap.ofList ·) <$> Reader.table r

/-- Reads a graph. -/
def reader : Reader ShapeGraph :=
  .record
    [.of "nodes" (mapReader ShapeNode.reader) fun nodes draft => { draft with nodes := some nodes },
      .of "edges" (mapReader (mapReader .string)) fun edges draft =>
        { draft with edges := some edges },
      .of "hierarchy" (mapReader (.optional .string)) fun hierarchy draft =>
        { draft with hierarchy := some hierarchy }]
    false ({} : Draft) Draft.finish

/-- A map as an object. -/
def mapToValue {α : Type} (toValue : α → Value) (m : Std.ExtTreeMap String α) : Value :=
  .object (m.toList.map fun entry => (entry.1, toValue entry.2))

/-- The written form. -/
def toValue (graph : ShapeGraph) : Value :=
  .object [("nodes", mapToValue ShapeNode.toValue graph.nodes),
    ("edges", mapToValue (mapToValue Value.string) graph.edges),
    ("hierarchy", mapToValue (fun parent => (parent.map Value.string).getD .null)
      graph.hierarchy)]

/-- The text of a graph, over several lines. -/
def json (graph : ShapeGraph) : String := graph.toValue.pretty

end ShapeGraph

end Statechart
