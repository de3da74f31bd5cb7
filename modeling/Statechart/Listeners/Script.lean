import Statechart.Dict
import Statechart.Listeners
import Statechart.Value

/-!
# Scripted subscribers of a value

A small world with one list of subscribers of values. Everything that happens to the list is written
down. A subscriber that is called may perform steps of its own: it subscribes others, ends
subscriptions and sends notifications, which nest.

* `Listeners.Step`: what can be done.
* `Listeners.Happening`: what is written down.
* `Listeners.Board`: the list, its subscribers, the handles by name and the log.
* `Listeners.runSteps`: performs steps. Notifications nest at most as deep as there are calls in
  which a subscriber performs steps, and `Listeners.Step.runs` bounds the number of these
  beforehand.
* `Listeners.reports`: what each step of a script causes.
-/

namespace Statechart.Listeners

/-- **A step** on a board. -/
inductive Step where
  /-- Subscribe under a name. Each call performs the next one of some lists of steps, as long as
  there is one. -/
  | subscribe (name : String) (react : List (List Step))
  /-- End the subscription that was last stored under a name. -/
  | unsubscribe (name : String)
  /-- Store a subscription to nothing under a name. -/
  | inert (name : String)
  /-- Notify the subscribers of a value. -/
  | notify (value : Value)
  /-- Write down how many subscribers there are. -/
  | count

mutual

/-- How many times a subscriber performs steps at most, because of one `Step`. -/
def Step.runs : Step → Nat
  | .subscribe _ react => Step.reactionRuns react
  | _ => 0

/-- How many times a subscriber performs steps at most, because of several steps. -/
def Step.totalRuns : List Step → Nat
  | [] => 0
  | step :: rest => step.runs + Step.totalRuns rest

/-- How many times a subscriber performs steps at most, because of calls that perform some lists of
steps. -/
def Step.reactionRuns : List (List Step) → Nat
  | [] => 0
  | steps :: rest => 1 + Step.totalRuns steps + Step.reactionRuns rest

end

/-- A subscriber: its name, and what the calls to come will perform. -/
structure Callback where
  name : String
  react : List (List Step)

/-- A call of a subscriber. -/
structure Call where
  /-- The notification that caused it, by its place in the log. -/
  round : Nat
  /-- The number of the subscription. -/
  subscription : Nat
  /-- The name of the subscriber. -/
  name : String
  value : Value
  deriving Inhabited

/-- **What is written down.** -/
inductive Happening where
  /-- Someone has subscribed under a name and got a number. The lists of steps are what its calls
  will perform, each call the next one. -/
  | subscribed (number : Nat) (name : String) (react : List (List Step))
  /-- The subscription of a number has been ended, for the first time or again. Its handle was
  stored under a name. -/
  | unsubscribed (number : Nat) (name : String)
  /-- A subscription to nothing has been stored under a name. -/
  | inert (name : String)
  /-- A notification of a value has started. -/
  | started (value : Value)
  /-- A subscriber has been called. -/
  | called (call : Call)
  /-- Subscribers have been counted. -/
  | counted (size : Nat)
  deriving Inhabited

/-- **Everything that steps can change.** -/
structure Board where
  /-- All subscribers there have ever been. -/
  callbacks : Array Callback := #[]
  /-- Who is subscribed now, by place among the callbacks. -/
  listeners : Listeners Nat := {}
  /-- The handles by name; `none` belongs to a subscription to nothing. -/
  handles : Dict String (Option Nat) := .empty
  /-- What has happened so far. -/
  log : Array Happening := #[]
  deriving Inhabited

/-- Append `happening` to the log. -/
def Board.note (board : Board) (happening : Happening) : Board :=
  { board with log := board.log.push happening }

/-- Leave the subscriber at `place` with `react` for the calls to come. -/
def Board.leave (board : Board) (place : Nat) (callback : Callback) (react : List (List Step)) :
    Board :=
  { board with callbacks := board.callbacks.setIfInBounds place { callback with react } }

/-- Call one subscriber, given the number of its subscription and its place. It performs the first
list of its `react`. -/
def Board.call (perform : List Step → Board → Board) (round : Nat) (value : Value) (board : Board)
    (entry : Nat × Nat) : Board :=
  match board.callbacks[entry.2]? with
  | none => board
  | some callback =>
    let board := board.note (.called ⟨round, entry.1, callback.name, value⟩)
    match callback.react with
    | [] => board
    | steps :: rest => perform steps (board.leave entry.2 callback rest)

/-- Notify the subscribers in `listeners.entries` now. -/
def Board.notify (perform : List Step → Board → Board) (value : Value) (board : Board) : Board :=
  board.listeners.entries.foldl (Board.call perform board.log.size value)
    (board.note (.started value))

/-- Perform one step; `perform` is what subscribers do. -/
def Board.step (perform : List Step → Board → Board) (board : Board) : Step → Board
  | .subscribe name react =>
    let (number, listeners) := board.listeners.subscribe board.callbacks.size
    { board.note (.subscribed number name react) with
      callbacks := board.callbacks.push ⟨name, react⟩
      listeners
      handles := board.handles.insert name (some number) }
  | .unsubscribe name =>
    match board.handles.get? name with
    | some (some number) =>
      { board.note (.unsubscribed number name) with
        listeners := board.listeners.unsubscribe number }
    | _ => board
  | .inert name => { board.note (.inert name) with handles := board.handles.insert name none }
  | .notify value => board.notify perform value
  | .count => board.note (.counted board.listeners.size)

/-- **Perform steps**, with notifications nested less than `depth` deep. -/
def runSteps : Nat → List Step → Board → Board
  | 0, _, board => board
  | depth + 1, steps, board => steps.foldl (Board.step (runSteps depth)) board

/-- The call that is written down, if it is one. -/
def Happening.call? : Happening → Option Call
  | .called call => some call
  | _ => none

/-- What each step causes on `board`: the calls, and who is subscribed after it. -/
def reportsFrom (depth : Nat) : Board → List Step → List (List Call × Listeners Nat)
  | _, [] => []
  | board, step :: rest =>
    let before := board.log.size
    let board := Board.step (runSteps depth) board step
    ((board.log.extract before).toList.filterMap Happening.call?, board.listeners) ::
      reportsFrom depth board rest

/-- **What each of `steps` causes**: the calls, and who is subscribed after it. -/
def reports (steps : List Step) : List (List Call × Listeners Nat) :=
  reportsFrom (Step.totalRuns steps + 1) {} steps

end Statechart.Listeners
