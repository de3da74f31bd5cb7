import Mathlib.Data.List.Chain
import Statechart.Proofs.World.Rest

/-! # The chronicle of a machine

The record of a machine grows by one change at a time. The machine enters a new state, or it makes a
note that something below it changed. In between its record stays as it is, whatever else happens in
the world. So the chronicle of all its changes has no gaps: each one begins where the one before has
ended.

* `Entry`: an entry of a chronicle.
* **`World.Chronicle`**: what is added to the record of a machine between two worlds.
* **`Machine.Gapless`**, `World.Chronicle.exists_gapless`: what can be said of all entries together.
* `World.Chronicle.since_ne_iff`: when the state of a machine is another one.
* `ChangeLog.LeadsTo`: a history is one path of keys, which leads to a key.
* **`Machine.Gapless.leadsTo_iff`**: when the history leads to where the machine is, all the way. -/

namespace Statechart

variable {ρ γ σ : Type}

/-! ## Entries -/

/-- **An entry of a chronicle**, with its `Change`. -/
inductive Entry where
  /-- The machine entered a state. -/
  | moved (change : Change)
  /-- Something below the machine changed. -/
  | noted (change : Change)

/-- The change of an entry. -/
def Entry.change : Entry → Change
  | .moved change => change
  | .noted change => change

/-- **What is added to the record of the machine at `link`** between two worlds: an entry `.moved`
for each `commit` of a `changeTo`, and `.noted` for each `commit` of a `changeBelow`. In between
there is only `KeepsRecordAt link`. -/
inductive World.Chronicle (link : Link) (w : World ρ γ) : World ρ γ → List Entry → Prop
  | start : World.Chronicle link w w []
  | rests {w' w'' : World ρ γ} {entries : List Entry} : World.Chronicle link w w' entries →
    w'.KeepsRecordAt link w'' → World.Chronicle link w w'' entries
  | moved {w' : World ρ γ} {entries : List Entry} {m : Machine (StatePlan ρ)} {event : Event}
    {state : State} : World.Chronicle link w w' entries → w'.machine? link = some m →
    World.Chronicle link w
      (w'.setCell link (.machine (m.commit (m.changeTo event m.current state))))
      (entries ++ [.moved (m.changeTo event m.current state)])
  | noted {w' : World ρ γ} {entries : List Entry} {m : Machine (StatePlan ρ)} {child : ChildRef}
    {inner : Event} : World.Chronicle link w w' entries → w'.machine? link = some m →
    World.Chronicle link w (w'.setCell link (.machine (m.commit (m.changeBelow child inner))))
      (entries ++ [.noted (m.changeBelow child inner)])

namespace World.Chronicle

variable {link : Link} {w w' w'' : World ρ γ} {entries later : List Entry}

/-- `KeepsRecordAt` adds no entries. -/
theorem of_keeps (h : w.KeepsRecordAt link w') : w.Chronicle link w' [] := .rests .start h

/-- `Chronicle` for `entries` and then for `later` is `Chronicle` for both. -/
theorem trans (h : w.Chronicle link w' entries) (h' : w'.Chronicle link w'' later) :
    w.Chronicle link w'' (entries ++ later) := by
  induction h' with
  | start => rwa [List.append_nil]
  | rests _ hkeeps ih => exact ih.rests hkeeps
  | moved _ hm ih =>
    rw [← List.append_assoc]
    exact ih.moved hm
  | noted _ hm ih =>
    rw [← List.append_assoc]
    exact ih.noted hm

end World.Chronicle

/-! ## Without gaps -/

/-- **`entries` lead from `m` to `m'` without a gap**: their revisions are counted through from
`m.revision + 1`, each change begins at the very state where the one before it has ended (`linked`),
a state that is `moved` to has a greater `since` than all before it, and a note leaves the state as
it is. -/
structure Machine.Gapless (m : Machine σ) (entries : List Entry) (m' : Machine σ) : Prop where
  revisions : entries.map (·.change.revision) = List.range' (m.revision + 1) entries.length
  revision : m'.revision = m.revision + entries.length
  change? : m'.change? = (entries.getLast?.map (·.change)).or m.change?
  linked : entries.map (·.change.source) ++ [m'.current] =
    m.current :: entries.map (·.change.target)
  moved : ∀ before change after, entries = before ++ .moved change :: after →
    ∀ earlier ∈ m.current :: before.map (·.change.target), earlier.since < change.target.since
  noted : ∀ change, .noted change ∈ entries →
    change.target = change.source ∧ change.event.isChildChange = true
  history : m'.history = (entries.map (·.change)).foldl ChangeLog.record m.history

namespace Machine.Gapless

variable {m m' m'' : Machine σ} {entries : List Entry} {entry : Entry}

/-- `Gapless []`. -/
theorem refl (m : Machine σ) : m.Gapless [] m := by
  refine ⟨rfl, rfl, rfl, rfl, fun before change after heq => ?_, by rintro _ ⟨⟩, rfl⟩
  cases (List.append_eq_nil_iff.1 heq.symm).2

/-- `Gapless` is kept by `KeepsRecord`. -/
theorem keeps (h : m.Gapless entries m') (hkeeps : m'.KeepsRecord m'') : m.Gapless entries m'' :=
  ⟨h.revisions, hkeeps.revision.trans h.revision, hkeeps.change?.trans h.change?,
    hkeeps.current ▸ h.linked, h.moved, h.noted, hkeeps.history.trans h.history⟩

/-- **`Gapless` for one more `entry`** that begins at `m'.current` and has the next revision. -/
theorem commit (h : m.Gapless entries m') (hsource : entry.change.source = m'.current)
    (hrevision : entry.change.revision = m'.revision + 1)
    (hmoved : ∀ change, entry = .moved change →
      ∀ earlier ∈ m.current :: entries.map (·.change.target), earlier.since < change.target.since)
    (hnoted : ∀ change, entry = .noted change →
      change.target = change.source ∧ change.event.isChildChange = true) :
    m.Gapless (entries ++ [entry]) (m'.commit entry.change) := by
  refine ⟨?revisions, ?revision, ?change, ?linked, ?moved, ?noted, ?history⟩
  case revisions =>
    have hlast : entry.change.revision = m.revision + 1 + entries.length := by
      rw [hrevision, h.revision]
      omega
    rw [List.map_append, h.revisions, List.length_append, List.length_singleton,
      List.range'_1_concat, List.map_singleton, hlast]
  case revision =>
    show entry.change.revision = _
    rw [hrevision, h.revision, List.length_append, List.length_singleton, Nat.add_assoc]
  case change =>
    show some entry.change = _
    rw [List.getLast?_concat, Option.map_some, Option.some_or]
  case linked =>
    show _ ++ [entry.change.target] = _
    rw [List.map_append, List.map_singleton, hsource, h.linked, List.map_append, List.map_singleton,
      List.cons_append]
  case moved =>
    intro before change after heq
    rcases List.eq_nil_or_concat after with rfl | ⟨rest, last, rfl⟩
    · obtain ⟨rfl, hentry⟩ := List.append_inj' heq rfl
      exact hmoved change (List.singleton_inj.1 hentry)
    · -- The change is one of those before.
      rw [List.concat_eq_append, ← List.cons_append, ← List.append_assoc] at heq
      obtain ⟨hbefore, -⟩ := List.append_inj' heq rfl
      exact h.moved before change rest hbefore
  case noted =>
    intro change hmem
    rcases List.mem_append.1 hmem with hmem | hmem
    · exact h.noted change hmem
    · exact hnoted change (List.mem_singleton.1 hmem).symm
  case history =>
    show m'.history.record entry.change = _
    rw [List.map_append, List.map_singleton, List.foldl_append, List.foldl_cons, List.foldl_nil,
      h.history]

end Machine.Gapless

/-- **`World.Chronicle` gives `Machine.Gapless`**, by induction on the entries. -/
theorem World.Chronicle.exists_gapless {link : Link} {w w' : World ρ γ} {entries : List Entry}
    (h : w.Chronicle link w' entries) {m : Machine (StatePlan ρ)} (hm : w.machine? link = some m)
    (hsince : m.current.since ≤ m.revision) :
    ∃ m', w'.machine? link = some m' ∧ m.Gapless entries m' := by
  -- No state has been entered later than the last change, so the next one is new.
  suffices ∃ m', w'.machine? link = some m' ∧ m.Gapless entries m' ∧
      ∀ earlier ∈ m.current :: entries.map (·.change.target), earlier.since ≤ m'.revision by
    obtain ⟨m', hm', hgapless, -⟩ := this
    exact ⟨m', hm', hgapless⟩
  induction h with
  | start =>
    refine ⟨m, hm, .refl m, fun earlier hearlier => ?_⟩
    rw [List.mem_singleton.1 hearlier]
    exact hsince
  | rests _ hkeeps ih =>
    obtain ⟨m', hm', hgapless, hlate⟩ := ih
    obtain ⟨m'', hm'', hkept⟩ := hkeeps m' hm'
    exact ⟨m'', hm'', hgapless.keeps hkept, fun earlier hearlier =>
      hkept.revision ▸ hlate earlier hearlier⟩
  | @moved w₁ entries m₁ event state _ hm₁ ih =>
    obtain ⟨m', hm', hgapless, hlate⟩ := ih
    rw [hm₁] at hm'
    cases hm'
    refine ⟨_, machine?_setCell_self hm₁, hgapless.commit rfl rfl ?_ (by rintro _ ⟨⟩), ?_⟩
    · rintro _ ⟨⟩ earlier hearlier
      exact Nat.lt_succ_of_le (hlate earlier hearlier)
    · intro earlier hearlier
      rw [List.map_append, ← List.cons_append] at hearlier
      rcases List.mem_append.1 hearlier with hbefore | hnew
      · exact Nat.le_succ_of_le (hlate earlier hbefore)
      · rw [List.mem_singleton.1 hnew]
        exact Nat.le_refl _
  | @noted w₁ entries m₁ child inner _ hm₁ ih =>
    obtain ⟨m', hm', hgapless, hlate⟩ := ih
    rw [hm₁] at hm'
    cases hm'
    refine ⟨_, machine?_setCell_self hm₁, hgapless.commit rfl rfl (by rintro _ ⟨⟩) ?_, ?_⟩
    · rintro _ ⟨⟩
      exact ⟨rfl, rfl⟩
    · -- The state of the machine is one of those before.
      have hcurrent : m₁.current ∈ m.current :: entries.map (·.change.target) := by
        rw [← hgapless.linked]
        exact List.mem_append_right _ (List.mem_singleton_self _)
      intro earlier hearlier
      rw [List.map_append, ← List.cons_append] at hearlier
      refine Nat.le_succ_of_le (hlate earlier ?_)
      rcases List.mem_append.1 hearlier with hbefore | hnew
      · exact hbefore
      · rw [List.mem_singleton.1 hnew]
        exact hcurrent

/-- **`current.since` is another one if and only if some entry is `.moved`.** -/
theorem World.Chronicle.since_ne_iff {link : Link} {w w' : World ρ γ} {entries : List Entry}
    (h : w.Chronicle link w' entries) {m m' : Machine (StatePlan ρ)}
    (hm : w.machine? link = some m) (hsince : m.current.since ≤ m.revision)
    (hm' : w'.machine? link = some m') :
    m'.current.since ≠ m.current.since ↔ ∃ change, .moved change ∈ entries := by
  suffices ∃ m', w'.machine? link = some m' ∧ m.current.since ≤ m'.revision ∧
      (m'.current.since ≠ m.current.since ↔ ∃ change, .moved change ∈ entries) by
    obtain ⟨m₁, hm₁, -, hiff⟩ := this
    rw [hm'] at hm₁
    cases hm₁
    exact hiff
  clear hm' m'
  induction h with
  | start => exact ⟨m, hm, hsince, iff_of_false (fun hne => hne rfl) (by simp)⟩
  | rests _ hkeeps ih =>
    obtain ⟨m', hm', hlate, hiff⟩ := ih
    obtain ⟨m'', hm'', hkept⟩ := hkeeps m' hm'
    exact ⟨m'', hm'', hkept.revision ▸ hlate, by rw [hkept.current, hiff]⟩
  | @moved w₁ entries m₁ event state _ hm₁ ih =>
    obtain ⟨m', hm', hlate, -⟩ := ih
    rw [hm₁] at hm'
    cases hm'
    refine ⟨_, machine?_setCell_self hm₁, Nat.le_succ_of_le hlate, iff_of_true ?_ ?_⟩
    · exact Nat.ne_of_gt (Nat.lt_succ_of_le hlate)
    · exact ⟨_, List.mem_append_right _ (List.mem_singleton_self _)⟩
  | @noted w₁ entries m₁ child inner _ hm₁ ih =>
    obtain ⟨m', hm', hlate, hiff⟩ := ih
    rw [hm₁] at hm'
    cases hm'
    refine ⟨_, machine?_setCell_self hm₁, Nat.le_succ_of_le hlate, hiff.trans ?_⟩
    -- A note is no state that is entered.
    simp

/-! ## Histories -/

/-- **`log` leads to `key`**: each of its changes starts where the one before it has ended, and the
last one ends at `key`. -/
def ChangeLog.LeadsTo (log : ChangeLog) (key : String) : Prop :=
  log.changes.IsChain (fun a b => a.target = b.source) ∧
    ∀ last, log.changes.getLast? = some last → last.target = key

namespace ChangeLog

variable {log : ChangeLog} {key : String} {change : Change}

/-- `LeadsTo key` holds for every `key` if nothing is kept. -/
theorem leadsTo_of_changes_eq_nil (h : log.changes = []) (key : String) : log.LeadsTo key := by
  rw [LeadsTo, h]
  exact ⟨.nil, by rintro _ ⟨⟩⟩

/-- `LeadsTo` holds for one `key` only if something is kept. -/
theorem LeadsTo.unique {key' : String} (h : log.LeadsTo key) (h' : log.LeadsTo key')
    (hsome : log.changes ≠ []) : key = key' := by
  have hlast := List.getLast?_eq_some_getLast hsome
  exact (h.2 _ hlast).symm.trans (h'.2 _ hlast)

/-- **`LeadsTo` after `record`**, for a change that is kept and starts where `log` leads to. -/
theorem LeadsTo.record (h : log.LeadsTo change.source.state.key)
    (hkept : change.event.isChildChange = false) :
    (log.record change).LeadsTo change.target.state.key := by
  rw [LeadsTo, changes_record log change hkept]
  refine ⟨List.IsChain.drop ?_ _, fun last hlast => ?_⟩
  · refine List.isChain_append.2 ⟨h.1, List.isChain_singleton _, ?_⟩
    rintro last hlast _ ⟨⟩
    exact h.2 last hlast
  · rw [List.getLast?_drop] at hlast
    split at hlast
    · cases hlast
    · rw [List.getLast?_concat, Option.some.injEq] at hlast
      rw [← hlast]
      rfl

end ChangeLog

namespace Machine

variable {m m' : Machine σ} {entries : List Entry} {entry : Entry} {n : Nat}

/-- The history of `m` after some entries: `ChangeLog.record` for the change of each. -/
def historyAfter (m : Machine σ) (entries : List Entry) : ChangeLog :=
  (entries.map (·.change)).foldl ChangeLog.record m.history

/-- The state of `m` after some entries: the target of the last one. -/
def stateAfter (m : Machine σ) (entries : List Entry) : Placed :=
  (entries.getLast?.map (·.change.target)).getD m.current

/-- `historyAfter` for one more entry is `record`. -/
theorem historyAfter_take_succ (hentry : entries[n]? = some entry) :
    m.historyAfter (entries.take (n + 1)) =
      (m.historyAfter (entries.take n)).record entry.change := by
  rw [historyAfter, historyAfter, List.take_add_one, hentry, Option.toList_some, List.map_append,
    List.foldl_append]
  rfl

/-- `stateAfter` for one more entry is its target. -/
theorem stateAfter_take_succ (hentry : entries[n]? = some entry) :
    m.stateAfter (entries.take (n + 1)) = entry.change.target := by
  rw [stateAfter, List.take_add_one, hentry, Option.toList_some, List.getLast?_concat,
    Option.map_some, Option.getD_some]

namespace Gapless

/-- **The entry at `n` begins at `m.stateAfter (entries.take n)`.** -/
theorem source_eq (h : m.Gapless entries m') (hentry : entries[n]? = some entry) :
    entry.change.source = m.stateAfter (entries.take n) := by
  have hlt := (List.getElem?_eq_some_iff.1 hentry).1
  have hsource := congrArg (·[n]?) h.linked
  rw [List.getElem?_append_left (by rwa [List.length_map]), List.getElem?_map, hentry,
    Option.map_some] at hsource
  cases n with
  | zero => exact Option.some.inj hsource
  | succ n =>
    have hbefore : entries[n]? = some entries[n] := List.getElem?_eq_getElem (by omega)
    rw [List.getElem?_cons_succ, List.getElem?_map, hbefore, Option.map_some,
      Option.some.injEq] at hsource
    rw [hsource, stateAfter_take_succ hbefore]

/-- `m'.current` is `m.stateAfter entries`. -/
theorem current_eq (h : m.Gapless entries m') : m'.current = m.stateAfter entries := by
  have hlast := congrArg List.getLast? h.linked
  rw [List.getLast?_concat, List.getLast?_cons, List.getLast?_map] at hlast
  exact Option.some.inj hlast

/-- **`historyAfter` leads to `stateAfter` for every beginning of `entries`**, if and only if each
change with `isChildChange`, which `record` leaves out, keeps the key, unless nothing is kept before
it. -/
theorem leadsTo_iff (h : m.Gapless entries m')
    (hstart : m.history.LeadsTo m.current.state.key) :
    (∀ n ≤ entries.length, (m.historyAfter (entries.take n)).LeadsTo
        (m.stateAfter (entries.take n)).state.key) ↔
      ∀ n entry, entries[n]? = some entry → entry.change.event.isChildChange = true →
        (m.historyAfter (entries.take n)).changes ≠ [] →
        entry.change.target.state.key = entry.change.source.state.key := by
  constructor
  · -- An entry that is not kept leaves the history as it is, and it led to where the machine was.
    intro hleads n entry hentry hdropped hsome
    have hlt := (List.getElem?_eq_some_iff.1 hentry).1
    have hbefore := hleads n (Nat.le_of_lt hlt)
    have hafter := hleads (n + 1) hlt
    rw [historyAfter_take_succ hentry, stateAfter_take_succ hentry,
      ChangeLog.changes_record_childChange _ _ hdropped] at hafter
    rw [h.source_eq hentry]
    exact hafter.unique hbefore hsome
  · intro hstays n hn
    -- By induction over the entries. Those that are kept lead to where the machine is by
    -- themselves.
    induction n with
    | zero => exact hstart
    | succ n ih =>
      have hentry : entries[n]? = some entries[n] := List.getElem?_eq_getElem hn
      have hbefore := ih (Nat.le_of_lt hn)
      rw [← h.source_eq hentry] at hbefore
      rw [historyAfter_take_succ hentry, stateAfter_take_succ hentry]
      cases hkept : entries[n].change.event.isChildChange with
      | false => exact hbefore.record hkept
      | true =>
        rw [ChangeLog.changes_record_childChange _ _ hkept]
        by_cases hnone : (m.historyAfter (entries.take n)).changes = []
        · exact ChangeLog.leadsTo_of_changes_eq_nil hnone _
        · rwa [hstays n _ hentry hkept hnone]

end Gapless

end Machine

end Statechart
