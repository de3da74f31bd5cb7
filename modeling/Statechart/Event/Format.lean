import Statechart.Event
import Statechart.Json.Reader

/-!
# Identities, events and keys as JSON and as text

* `MachineId.reader`: an identity from outside is the text of its identifier.
* `ChildRef.reader`, `EventKey.reader`: an object whose only field names the variant.
* `MachineId.toValue`, `ChildRef.toValue`, `EventKey.toValue`: the written forms.
* `MachineId.short`, `ChildRef.text`: short texts for messages.
-/

namespace Statechart

open Json

namespace MachineId

/-- Reads an identity that came from outside. -/
def reader : Reader MachineId := do
  match Uuid.ofText? (← Reader.string) with
  | some uuid => return .given uuid
  | none => throw .mismatch

/-- The written form: the text of an identifier from outside, the number of a minted identity. -/
def toValue : MachineId → Value
  | .minted n => .number n
  | .given uuid => .string uuid.text

/-- The short text of an identity. -/
def short : MachineId → String
  | .minted n => "#" ++ toString n
  | .given uuid => uuid.short

end MachineId

namespace ChildRef

/-- Reads a reference to a child. -/
def reader : Reader ChildRef :=
  .choice [("Machine", .carrying (ChildRef.machine <$> MachineId.reader)),
    ("Path", .carrying (ChildRef.path <$> Reader.string))]

/-- The written form. -/
def toValue : ChildRef → Value
  | .machine id => .object [("Machine", id.toValue)]
  | .path keys => .object [("Path", .string keys)]

/-- The short text of a reference. -/
def text : ChildRef → String
  | .machine id => "machine:" ++ id.short
  | .path keys => "path:" ++ keys

end ChildRef

namespace EventKey

/-- Reads a key. -/
def reader : Reader EventKey :=
  .choice [("Domain", .carrying (EventKey.domain <$> Reader.string)),
    ("ChildExit", .plain .childExit), ("ChildChange", .plain .childChange)]

/-- The written form. -/
def toValue : EventKey → Value
  | .domain name => .object [("Domain", .string name)]
  | .childExit => .string "ChildExit"
  | .childChange => .string "ChildChange"

end EventKey

end Statechart
