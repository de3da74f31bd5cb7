import Mathlib.Data.List.Chain
import Mathlib.Data.List.DropRight
import Statechart.History

/-! # The bounded history and the full one

A history keeps the last changes of a machine, and lets an older one go whenever there is no more
room. What it keeps is the end of the full history, which has all changes of the machine itself and
no report of changes further down. The keys that were passed are read off the kept changes: from the
first of them the source, and the target from each.

* `ChangeLog.ofChanges`: the history of some changes. `ChangeLog.fullHistory`: the full one.
* **`ChangeLog.changes_ofChanges`**: a history keeps the end of the full one.
* `ChangeLog.path_eq_nil_iff`, `ChangeLog.length_path`: how many keys were passed.
* `ChangeLog.zip_path`: along a connected history each step of the path is a change.
* **`ChangeLog.ofChanges_isTail`**: all of it, for any limit and any changes. -/

namespace Statechart

namespace ChangeLog

variable {limit : Nat} {log : ChangeLog} {changes : List Change}

/-- **The history after recording `changes`**, one after the other. -/
def ofChanges (limit : Nat) (changes : List Change) : ChangeLog := changes.foldl record { limit }

/-- **The summaries of all `changes` of the machine itself**, those with `isChildChange` left
out. -/
def fullHistory (changes : List Change) : List ChangeSummary :=
  (changes.filter fun change => !change.event.isChildChange).map Change.summary

/-- **Each change of `history` starts where the one before has ended.** -/
def IsConnected (history : List ChangeSummary) : Prop :=
  history.IsChain fun earlier later => earlier.target = later.source

instance (history : List ChangeSummary) : Decidable (IsConnected history) :=
  inferInstanceAs (Decidable (List.IsChain _ history))

/-! ## What is kept -/

/-- `record` keeps the limit. -/
@[simp]
theorem limit_record (log : ChangeLog) (change : Change) :
    (log.record change).limit = log.limit := by
  unfold record
  split
  · rfl
  · dsimp only
    split <;> rfl

/-- The limit of `ofChanges limit`. -/
@[simp]
theorem limit_ofChanges (limit : Nat) (changes : List Change) :
    (ofChanges limit changes).limit = limit := by
  induction changes using List.reverseRecOn with
  | nil => rfl
  | append_singleton changes change ih =>
    rwa [ofChanges, List.foldl_concat, ← ofChanges, limit_record]

/-- The length of `items.rtake limit`. -/
theorem length_rtake {α : Type} (limit : Nat) (items : List α) :
    (items.rtake limit).length = min limit items.length := by
  rw [List.rtake, List.length_drop]
  omega

/-- `(items ++ [item]).rtake limit`, from `items.rtake limit`. -/
theorem rtake_concat {α : Type} (limit : Nat) (items : List α) (item : α) :
    (items.rtake limit ++ [item]).drop ((items.rtake limit).length + 1 - limit) =
      (items ++ [item]).rtake limit := by
  have hshort : items.length - limit ≤ items.length := Nat.sub_le _ _
  rw [length_rtake, List.rtake, List.rtake, ← List.drop_append_of_le_length hshort, List.drop_drop,
    List.length_append, List.length_singleton]
  congr 1
  omega

/-- **`(ofChanges limit changes).changes` is `(fullHistory changes).rtake limit`.** -/
theorem changes_ofChanges (limit : Nat) (changes : List Change) :
    (ofChanges limit changes).changes = (fullHistory changes).rtake limit := by
  -- One more change is either a report, which changes neither side, or comes at the end of both.
  induction changes using List.reverseRecOn with
  | nil => simp [ofChanges, fullHistory, ChangeLog.changes]
  | append_singleton changes change ih =>
    rw [ofChanges, List.foldl_concat, ← ofChanges, fullHistory, List.filter_append, List.map_append,
      ← fullHistory]
    cases hreport : change.event.isChildChange with
    | true =>
      rw [changes_record_childChange _ _ hreport, ih]
      simp [hreport]
    | false =>
      rw [changes_record _ _ hreport, limit_ofChanges, ih, rtake_concat]
      simp [hreport]

/-- The size of `ofChanges limit changes`. -/
theorem size_ofChanges (limit : Nat) (changes : List Change) :
    (ofChanges limit changes).size = min limit (fullHistory changes).length := by
  rw [size, changes_ofChanges, length_rtake]

/-! ## The keys that were passed -/

/-- `log.path` of a history that is not empty. -/
theorem path_of_cons {first : ChangeSummary} {rest : List ChangeSummary}
    (h : log.changes = first :: rest) :
    log.path = first.source :: (first :: rest).map (·.target) := by
  rw [path, h]
  rfl

/-- `log.path` is empty exactly if `log.changes` is. -/
theorem path_eq_nil_iff : log.path = [] ↔ log.changes = [] := by
  cases h : log.changes with
  | nil => simp [path, h]
  | cons first rest => simp [path_of_cons h]

/-- `log.path` has `log.size + 1` keys. -/
theorem length_path (h : log.changes ≠ []) : log.path.length = log.size + 1 := by
  obtain ⟨first, rest, hcons⟩ := List.exists_cons_of_ne_nil h
  rw [path_of_cons hcons, size, hcons, List.length_cons, List.length_map]

/-- The steps from a source through the targets of connected changes are the changes. -/
theorem zip_targets {first : ChangeSummary} {rest : List ChangeSummary}
    (h : IsConnected (first :: rest)) :
    (first.source :: (first :: rest).map (·.target)).zip ((first :: rest).map (·.target)) =
      (first :: rest).map fun summary => (summary.source, summary.target) := by
  induction rest generalizing first with
  | nil => rfl
  | cons second rest ih =>
    obtain ⟨hnext, hrest⟩ := List.isChain_cons_cons.1 h
    -- The second change starts where the first one has ended, so the path goes on from there.
    have hsecond := ih hrest
    rw [← hnext] at hsecond
    rw [List.map_cons, List.zip_cons_cons, hsecond]
    simp [hnext]

/-- **The steps of `log.path` are `log.changes`**, if these are connected. -/
theorem zip_path (h : IsConnected log.changes) :
    log.path.zip log.path.tail =
      log.changes.map fun summary => (summary.source, summary.target) := by
  cases hchanges : log.changes with
  | nil => rw [path_eq_nil_iff.2 hchanges, List.zip_nil_left, List.map_nil]
  | cons first rest =>
    rw [path_of_cons hchanges, List.tail_cons]
    exact zip_targets (hchanges ▸ h)

/-- `history.rtake limit` is connected if `history` is. -/
theorem IsConnected.rtake {history : List ChangeSummary} (h : IsConnected history) (limit : Nat) :
    IsConnected (history.rtake limit) :=
  h.drop _

/-- **The bounded history is the end of the full one**, for any `limit` and any `changes`: the
changes of `ofChanges limit changes` are the last `limit` of `fullHistory changes`. Its path is
empty if it keeps no change, and else has one key more than changes. If `fullHistory changes` is
connected (`IsConnected`), then each step of the path is one of the kept changes, from its source to
its target, also after others were let go. -/
theorem ofChanges_isTail (limit : Nat) (changes : List Change) :
    (ofChanges limit changes).changes = (fullHistory changes).rtake limit ∧
    (ofChanges limit changes).size = min limit (fullHistory changes).length ∧
    ((ofChanges limit changes).path = [] ↔ (ofChanges limit changes).changes = []) ∧
    ((ofChanges limit changes).changes ≠ [] →
      (ofChanges limit changes).path.length = (ofChanges limit changes).size + 1) ∧
    (IsConnected (fullHistory changes) →
      (ofChanges limit changes).path.zip (ofChanges limit changes).path.tail =
        (ofChanges limit changes).changes.map fun summary => (summary.source, summary.target)) := by
  refine ⟨changes_ofChanges limit changes, size_ofChanges limit changes, path_eq_nil_iff,
    length_path, fun hconnected => zip_path ?_⟩
  rw [changes_ofChanges]
  exact hconnected.rtake limit

/-! ## A walk whose beginning was let go -/

/-- A change from `source` to `target`. -/
def walking (event : Event) (source target : String) (revision : Nat) : Change where
  event
  source := ⟨{ key := source }, revision - 1⟩
  target := ⟨{ key := target }, revision⟩
  revision

/-- Three changes between `Hall`, `Room` and `Garden`, and one of a child of `Room`. -/
def walk : List Change :=
  [walking (.domain "enter" []) "Hall" "Room" 1,
    walking (.childChange (.path "Room") (.domain "sit" [])) "Room" "Room" 2,
    walking (.domain "leave" []) "Room" "Garden" 3, walking (.domain "enter" []) "Garden" "Hall" 4]

/-- `ofChanges_isTail` for `walk` and the limit 2: of three steps the last two are kept. -/
theorem walk_isTail :
    (ofChanges 2 walk).path = ["Room", "Garden", "Hall"] ∧
      (fullHistory walk).map (·.source) = ["Hall", "Room", "Garden"] ∧
      (ofChanges 2 walk).size = 2 ∧
      (ofChanges 2 walk).path.length = (ofChanges 2 walk).size + 1 ∧
      (ofChanges 2 walk).path.zip (ofChanges 2 walk).path.tail =
        (ofChanges 2 walk).changes.map fun summary => (summary.source, summary.target) := by
  obtain ⟨-, hsize, -, hlength, hsteps⟩ := ofChanges_isTail 2 walk
  exact ⟨by decide +kernel, by decide +kernel, hsize, hlength (by decide +kernel),
    hsteps (by decide +kernel)⟩

end ChangeLog

end Statechart
