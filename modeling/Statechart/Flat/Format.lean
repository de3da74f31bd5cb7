import Statechart.Flat

/-!
# Flat definitions as JSON

`FlatDefinition.toValue` writes the leaves, the composites with their initial leaves and the answers
of a flat definition.
-/

namespace Statechart

/-- A key in a listing: the name of a domain event in an object, the name of a signal alone. -/
def EventKey.toForm : EventKey → Value
  | .domain name => .object [("domain", .string name)]
  | .childExit => .string "ChildExit"
  | .childChange => .string "ChildChange"

/-- A text, or `null`. -/
def Value.ofText? (text? : Option String) : Value := (text?.map Value.string).getD .null

/-- The written form of where an answer leads. -/
def FlatTarget.toValue : FlatTarget → Value
  | .path leaf => .string leaf
  | .choose scope _ => .object [("choose_from", .ofText? scope)]

/-- **The written form of a flat definition.** -/
def FlatDefinition.toValue (flat : FlatDefinition) : Value :=
  .object
    [("leaves", .array (flat.leaves.map fun leaf =>
        .array [.string leaf.path, .bool leaf.leaf.isFinal])),
      ("composites", .array (flat.composites.toList.map fun (path, initial) =>
        .array [.string path, .string initial])),
      ("entries", .array (flat.transitions.toList.map fun (handler, target) =>
        .array [.string handler.source, handler.event.toForm, target.toValue])),
      ("sources", .array (flat.sources.map .string)),
      ("initial", .string flat.initial),
      ("delimiter", .string flat.delimiter)]

end Statechart
