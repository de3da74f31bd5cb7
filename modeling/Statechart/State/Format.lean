import Statechart.Event.Format
import Statechart.State

/-!
# Outcomes as JSON

An outcome is an object with the fields `machine`, `event`, `from`, `to` and `depth`, all of which
must be there.

* `Outcome.reader`: reads an outcome.
* `Outcome.toValue`: the written form.
-/

namespace Statechart

open Json

namespace Outcome

/-- What has been read of an outcome so far. -/
structure Draft where
  machine : Option MachineId := none
  event : Option String := none
  source : Option String := none
  target : Option String := none
  depth : Option Nat := none

/-- The outcome, if every field was read. -/
def Draft.finish (draft : Draft) : Option Outcome := do
  return { machine := ← draft.machine, event := ← draft.event, source := ← draft.source,
           target := ← draft.target, depth := ← draft.depth }

/-- Reads an outcome. -/
def reader : Reader Outcome :=
  .record
    [.of "machine" MachineId.reader fun machine draft => { draft with machine := some machine },
      .of "event" .string fun event draft => { draft with event := some event },
      .of "from" .string fun source draft => { draft with source := some source },
      .of "to" .string fun target draft => { draft with target := some target },
      .of "depth" .count fun depth draft => { draft with depth := some depth }]
    false ({} : Draft) Draft.finish

/-- The written form. -/
def toValue (outcome : Outcome) : Value :=
  .object [("machine", outcome.machine.toValue), ("event", .string outcome.event),
    ("from", .string outcome.source), ("to", .string outcome.target),
    ("depth", .number outcome.depth)]

end Outcome

end Statechart
