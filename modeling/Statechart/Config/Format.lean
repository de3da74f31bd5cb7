import Statechart.Config
import Statechart.Json.Reader

/-!
# Settings as JSON

For every kind of settings a reader and a written form. Keys and names of choices are in camel case;
a field that is missing has its default, an unknown one is passed over.

`Lookup` is an object whose field `mode` names the choice, or an array that begins with the name.
-/

namespace Statechart

open Json

namespace TerminalPolicy

/-- The names of the policies. -/
def names : List (String × TerminalPolicy) :=
  [("explicit", .explicit), ("explicitOrDeadEnd", .explicitOrDeadEnd)]

/-- Reads a policy. -/
def reader : Reader TerminalPolicy := .name names

/-- The written form. -/
def toValue : TerminalPolicy → Value
  | .explicit => .string "explicit"
  | .explicitOrDeadEnd => .string "explicitOrDeadEnd"

end TerminalPolicy

namespace FollowUpPolicy

/-- The names of the policies. -/
def names : List (String × FollowUpPolicy) := [("drain", .drain), ("queue", .queue)]

/-- Reads a policy. -/
def reader : Reader FollowUpPolicy := .name names

/-- The written form. -/
def toValue : FollowUpPolicy → Value
  | .drain => .string "drain"
  | .queue => .string "queue"

end FollowUpPolicy

namespace EventCollision

/-- The names of the policies. -/
def names : List (String × EventCollision) :=
  [("error", .error), ("namespaced", .namespaced), ("allowShadow", .allowShadow)]

/-- Reads a policy. -/
def reader : Reader EventCollision := .name names

/-- The written form. -/
def toValue : EventCollision → Value
  | .error => .string "error"
  | .namespaced => .string "namespaced"
  | .allowShadow => .string "allowShadow"

/-- The policy that a value describes. -/
def ofValue (value : Value) : Except Fault EventCollision := parseValue reader value

end EventCollision

namespace Lookup

/-- The modes of looking up. -/
inductive Mode where
  | exact
  | ancestors
  deriving DecidableEq

/-- Reads the name of a mode. -/
def modeReader : Reader Mode := do
  match ← Reader.string with
  | "exact" => return .exact
  | "ancestors" => return .ancestors
  | _ => throw .mismatch

/-- What an object for a lookup has shown so far: its mode, and its other fields with their texts.
-/
abbrev Draft := Option Mode × List (String × Option String)

/-- The lookup that a mode and the fields of an object describe. -/
def ofFields (mode : Mode) (fields : List (String × Option String)) : Option Lookup :=
  match mode with
  | .exact => some .exact
  | .ancestors =>
    match fields.filter (·.1 == "delimiter") with
    | [(_, some delimiter)] => some (.ancestors delimiter)
    | _ => none

/-- The lookup that a mode and the items after it describe. -/
def ofItems (mode : Mode) (items : List (Option String)) : Option Lookup :=
  match mode, items with
  | .exact, [] => some .exact
  | .ancestors, [some delimiter] => some (.ancestors delimiter)
  | _, _ => none

/-- Store a field of an object for a lookup. -/
def storeField (draft : Draft) (key : String) : Reader Draft := do
  if key = "mode" then
    if draft.1.isSome then throw .mismatch
    Reader.colon
    return (some (← modeReader), draft.2)
  else
    Reader.colon
    return (draft.1, draft.2 ++ [(key, ← Reader.text?)])

/-- Succeed with a lookup, or refuse. -/
def orMismatch : Option Lookup → Reader Lookup
  | some lookup => return lookup
  | none => throw .mismatch

/-- Reads a lookup. -/
def reader : Reader Lookup := do
  match ← Reader.look with
  | some '[' =>
    Reader.pass
    let (mode, items) ← Reader.inside do
      if ← Reader.hasItem true then
        let mode ← modeReader
        return (mode, ← Reader.items Reader.text? (← Reader.ahead) false)
      else throw .mismatch
    Reader.endList
    orMismatch (ofItems mode items)
  | _ =>
    let draft ← Reader.fold storeField (none, [])
    match draft with
    | (some mode, fields) => orMismatch (ofFields mode fields)
    | (none, _) => throw .mismatch

/-- The written form. -/
def toValue : Lookup → Value
  | .exact => .object [("mode", .string "exact")]
  | .ancestors delimiter =>
    .object [("mode", .string "ancestors"), ("delimiter", .string delimiter)]

end Lookup

/-! ## Records of settings -/

namespace MachineConfig

/-- Reads the settings of a machine. -/
def reader : Reader MachineConfig :=
  .record
    [.of "lookup" Lookup.reader fun lookup config => { config with lookup },
      .of "autoExit" .flag fun autoExit config => { config with autoExit },
      .of "followUps" FollowUpPolicy.reader fun followUps config => { config with followUps },
      .of "maxFollowUps" .count fun maxFollowUps config => { config with maxFollowUps },
      .of "terminal" TerminalPolicy.reader fun terminal config => { config with terminal },
      .of "historyLimit" .count fun historyLimit config => { config with historyLimit }]
    true {} some

/-- The written form. -/
def toValue (config : MachineConfig) : Value :=
  .object [("lookup", config.lookup.toValue), ("autoExit", .bool config.autoExit),
    ("followUps", config.followUps.toValue), ("maxFollowUps", .number config.maxFollowUps),
    ("terminal", config.terminal.toValue), ("historyLimit", .number config.historyLimit)]

/-- The settings that a JSON text describes. -/
def ofJson (text : String) : Except Fault MachineConfig := parse reader text

end MachineConfig

namespace FlattenConfig

/-- Reads the settings of flattening. -/
def reader : Reader FlattenConfig :=
  .record
    [.of "eventCollision" EventCollision.reader fun eventCollision config =>
        { config with eventCollision },
      .of "delimiter" .string fun delimiter config => { config with delimiter },
      .of "terminal" TerminalPolicy.reader fun terminal config => { config with terminal },
      .of "followUps" FollowUpPolicy.reader fun followUps config => { config with followUps }]
    true {} some

/-- The written form. -/
def toValue (config : FlattenConfig) : Value :=
  .object [("eventCollision", config.eventCollision.toValue),
    ("delimiter", .string config.delimiter), ("terminal", config.terminal.toValue),
    ("followUps", config.followUps.toValue)]

/-- The settings that a JSON text describes. -/
def ofJson (text : String) : Except Fault FlattenConfig := parse reader text

end FlattenConfig

namespace HierarchyConfig

/-- Reads the settings of a hierarchy. -/
def reader : Reader HierarchyConfig :=
  .record
    [.of "terminal" TerminalPolicy.reader fun terminal config => { config with terminal },
      .of "maxDepth" .count fun maxDepth config => { config with maxDepth },
      .of "delimiter" .string fun delimiter config => { config with delimiter }]
    true {} some

/-- The written form. -/
def toValue (config : HierarchyConfig) : Value :=
  .object [("terminal", config.terminal.toValue), ("maxDepth", .number config.maxDepth),
    ("delimiter", .string config.delimiter)]

/-- The settings that a JSON text describes. -/
def ofJson (text : String) : Except Fault HierarchyConfig := parse reader text

end HierarchyConfig

end Statechart
