import Statechart.State

/-!
# Changes and the bounded history

* `Instant`: a point in time, in seconds and nanoseconds, with leap seconds.
* `Change`: the record of one change of a machine.
* `ChangeSummary`: the part of it that is kept, keys in place of states.
* `ChangeLog`: the summaries of the last changes, at most `limit` of them. Reports of changes
  further down are not kept.

Main statement: `ChangeLog.changes_record`, what a record does to the kept changes.
-/

namespace Statechart

/-- A point in time: seconds since the epoch, and nanoseconds within the second. In a second that is
followed by a leap second, the nanoseconds go on past 10^9. -/
structure Instant where
  seconds : Int
  nanos : Nat := 0
  deriving DecidableEq, Inhabited

namespace Instant

/-- Whether a point in time lies in a leap second. -/
def isLeap (time : Instant) : Bool := 1000000000 ≤ time.nanos

/-- The second of the day. -/
def secondOfDay (time : Instant) : Int := time.seconds % 86400

/-- **A length of time** in nanoseconds. Of the two ends the one that is earlier on its day counts
its leap second, if it lies in one, as a second of its own. -/
def nanosSince (later earlier : Instant) : Int :=
  let seconds := later.seconds - earlier.seconds
  let leap : Int :=
    if earlier.secondOfDay < later.secondOfDay ∧ earlier.isLeap then 1
    else if later.secondOfDay < earlier.secondOfDay ∧ later.isLeap then -1
    else 0
  (seconds + leap) * 1000000000 + (later.nanos - earlier.nanos)

end Instant

/-- **The record of one change.** -/
structure Change where
  /-- What caused the change. -/
  event : Event
  /-- The state that was left. -/
  source : Placed
  /-- The state that was entered. -/
  target : Placed
  /-- The revision of the machine after the change. -/
  revision : Nat
  /-- When it happened. -/
  time : Instant := ⟨0, 0⟩
  deriving DecidableEq, Inhabited

/-- Whether the machine stayed in the very same state object. -/
def Change.isStay (change : Change) : Bool := change.source.since == change.target.since

/-- **What is kept of a change.** -/
structure ChangeSummary where
  /-- The name of the event. -/
  event : String
  /-- The key of the state that was left. -/
  source : String
  /-- The key of the state that was entered. -/
  target : String
  /-- When it happened. -/
  time : Instant
  /-- The revision of the machine after the change. -/
  revision : Nat
  deriving DecidableEq, Inhabited

/-- The part of a change that is kept. -/
def Change.summary (change : Change) : ChangeSummary where
  event := change.event.name
  source := change.source.state.key
  target := change.target.state.key
  time := change.time
  revision := change.revision

/-- **A bounded history.** -/
structure ChangeLog where
  /-- How many changes are kept. -/
  limit : Nat
  /-- The last changes, the last one first. There may be more of them than are kept. -/
  recent : List ChangeSummary := []
  /-- The length of `recent`, which says when to shorten it. -/
  stored : Nat := 0
  deriving Inhabited

namespace ChangeLog

/-- **The kept changes**, the oldest one first. -/
def changes (log : ChangeLog) : List ChangeSummary := (log.recent.take log.limit).reverse

/-- Keep a change, and let the oldest one go if there is no more room. -/
def record (log : ChangeLog) (change : Change) : ChangeLog :=
  if log.limit = 0 ∨ change.event.isChildChange then log
  else
    let recent := change.summary :: log.recent
    -- To shorten the list takes a walk along it, so this is not done for every change.
    if log.stored + 1 < 2 * log.limit then { log with recent, stored := log.stored + 1 }
    else { log with recent := recent.take log.limit, stored := log.limit }

/-- The keys that were passed, from the source of the first kept change on. -/
def path (log : ChangeLog) : List String :=
  (log.changes.head?.map (·.source)).toList ++ log.changes.map (·.target)

/-- The time from the first to the last kept change, in nanoseconds. -/
def duration? (log : ChangeLog) : Option Nat :=
  match log.changes.head?, log.changes.getLast? with
  | some first, some last =>
    let nanos := last.time.nanosSince first.time
    if 0 ≤ nanos then some nanos.toNat else none
  | _, _ => none

/-- How many changes are kept. -/
def size (log : ChangeLog) : Nat := log.changes.length

/-- **`record` adds one change at the end of `changes`**, and takes away from the front what is too
much. -/
theorem changes_record (log : ChangeLog) (change : Change)
    (hc : change.event.isChildChange = false) :
    (log.record change).changes =
      (log.changes ++ [change.summary]).drop (log.changes.length + 1 - log.limit) := by
  have hkept : ∀ kept : List ChangeSummary,
      (kept.reverse ++ [change.summary]).drop (kept.length + 1 - log.limit) =
        ((change.summary :: kept).take log.limit).reverse := by
    intro kept
    rw [← List.reverse_cons, List.drop_reverse, List.length_cons]
    congr 1
    by_cases h : log.limit ≤ kept.length + 1
    · rw [Nat.sub_sub_self h]
    · rw [List.take_of_length_le (by simp; omega), List.take_of_length_le (by simp; omega)]
  have hnew : (change.summary :: log.recent.take log.limit).take log.limit =
      (change.summary :: log.recent).take log.limit := by
    cases log.limit with
    | zero => rfl
    | succ n => simp [List.take_take]
  have hlog : (log.record change).changes =
      ((change.summary :: log.recent).take log.limit).reverse := by
    unfold record
    by_cases hl : log.limit = 0
    · simp [hl, changes]
    · rw [if_neg (by simp [hl, hc])]
      dsimp only
      split
      · rfl
      · simp [changes, List.take_take]
  rw [hlog, ← hnew, ← hkept]
  simp only [changes, List.length_reverse]

/-- `record` ignores a change with `isChildChange`. -/
theorem changes_record_childChange (log : ChangeLog) (change : Change)
    (hc : change.event.isChildChange = true) : log.record change = log := by
  simp [record, hc]

end ChangeLog

end Statechart
