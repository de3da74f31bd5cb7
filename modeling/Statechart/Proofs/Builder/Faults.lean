import Mathlib.Data.List.Induction
import Mathlib.Data.List.Sort
import Mathlib.Data.String.Basic
import Statechart.Builder
import Statechart.Proofs.Parts

/-! # What is wrong with a table

A table has no order: its sources, and the answers of each source, can be gone through in any order.
A check goes through the sources in the order of their keys, and takes the answers of a source as
they come. So which source it finds fault with is settled, but which of its rows is not.

* `Table.Enumeration`: an order in which to go through a table.
* `Builder.IsFault`: what is wrong with a source; `Builder.IsBlamed`: what is wrong with the least
  source that something is wrong with.
* `Builder.faultIn`: the check along an order; `Builder.tableFault?_eq`: the check of a table goes
  along the order of its rows.
* **`Builder.faultIn_eq_none_iff`**, **`Builder.faultIn_isBlamed`**: no order finds fault with a
  table that is right, and every order finds what the least source at fault can be blamed for.
* **`Builder.faultIn_orders`**: everything that this source can be blamed for is found in some
  order, so all orders agree exactly if there is at most one such thing. -/

namespace Statechart

variable {σ : Type}

/-! ## Orders of a table -/

/-- `items.eraseDups` has no duplicates. -/
theorem nodup_eraseDups {α : Type} [DecidableEq α] : ∀ items : List α, items.eraseDups.Nodup
  | [] => List.nodup_nil
  | a :: rest => by
    rw [List.eraseDups_cons, List.nodup_cons, List.mem_eraseDups, List.mem_filter]
    exact ⟨by simp, nodup_eraseDups _⟩
termination_by items => items.length
decreasing_by exact Nat.lt_succ_of_le (List.length_filter_le _ _)

namespace Table

variable {table table' : Table σ} {state : String} {event : EventKey} {spec : Spec σ}

/-- **An order in which to go through `table`**: its sources, each once, and the answers of each
source, each once. -/
structure Enumeration (table : Table σ) where
  states : List String
  events : String → List (EventKey × Spec σ)
  nodup_states : states.Nodup
  mem_states_iff {state : String} :
    state ∈ states ↔ ∃ event spec, table.get? state event = some spec
  nodup_events (state : String) : (events state).Nodup
  mem_events_iff {state : String} {event : EventKey} {spec : Spec σ} :
    (event, spec) ∈ events state ↔ table.get? state event = some spec

/-- `table.states` are the states at which `table.get?` has an answer. -/
theorem mem_states_iff :
    state ∈ table.states ↔ ∃ event spec, table.get? state event = some spec := by
  refine ⟨exists_of_mem_states, fun ⟨event, spec, hget⟩ => ?_⟩
  rw [states, List.mem_eraseDups, List.mem_map]
  exact ⟨(state, event), List.mem_map.2 ⟨_, Dict.mem_entries_iff.2 hget, rfl⟩, rfl⟩

/-- `table.events state` has no duplicates. -/
theorem nodup_events (table : Table σ) (state : String) : (table.events state).Nodup := by
  have hentries := (List.Nodup.of_map _ table.rows.nodup_keys).filter (·.1.1 == state)
  refine List.Nodup.map_on ?_ hentries
  rintro ⟨⟨source, event⟩, spec⟩ hrow ⟨⟨source', event'⟩, spec'⟩ hrow' heq
  -- The rows are those of one state, so they differ in what is kept of them.
  obtain rfl : source = state := beq_iff_eq.1 (List.mem_filter.1 hrow).2
  obtain rfl : source' = source := beq_iff_eq.1 (List.mem_filter.1 hrow').2
  cases heq
  rfl

/-- **The order of the rows of `table`.** -/
def inOrder (table : Table σ) : table.Enumeration where
  states := table.states
  events := table.events
  nodup_states := nodup_eraseDups _
  mem_states_iff := mem_states_iff
  nodup_events := table.nodup_events
  mem_events_iff := mem_events_iff

namespace Enumeration

/-- The same order for a table with the same answers. -/
def transfer (order : table.Enumeration)
    (hsame : ∀ state event, table.get? state event = table'.get? state event) :
    table'.Enumeration where
  states := order.states
  events := order.events
  nodup_states := order.nodup_states
  mem_states_iff := by simp only [← hsame]; exact order.mem_states_iff
  nodup_events := order.nodup_events
  mem_events_iff := by simp only [← hsame]; exact order.mem_events_iff

/-- `order` with `answers` for those of `state`. -/
def reorder (order : table.Enumeration) (state : String) (answers : List (EventKey × Spec σ))
    (hperm : answers.Perm (order.events state)) : table.Enumeration where
  states := order.states
  events source := if source = state then answers else order.events source
  nodup_states := order.nodup_states
  mem_states_iff := order.mem_states_iff
  nodup_events source := by
    split
    · exact hperm.nodup_iff.2 (order.nodup_events state)
    · exact order.nodup_events source
  mem_events_iff := by
    intro source event spec
    split
    next heq => rw [hperm.mem_iff, heq]; exact order.mem_events_iff
    next => exact order.mem_events_iff

@[simp] theorem events_reorder {order : table.Enumeration} {answers : List (EventKey × Spec σ)}
    (hperm : answers.Perm (order.events state)) (source : String) :
    (order.reorder state answers hperm).events source =
      if source = state then answers else order.events source := rfl

end Enumeration

end Table

/-! ## Orders of rows -/

namespace Table

variable {rows rows' : List (String × EventKey × Spec σ)}

/-- `Table.ofRows` of different `rows` does not depend on their order. -/
theorem get?_ofRows_perm (hnodup : (rows.map fun row => (row.1, row.2.1)).Nodup)
    (hperm : rows.Perm rows') (state : String) (event : EventKey) :
    (ofRows rows').get? state event = (ofRows rows).get? state event := by
  rw [Option.ext_iff]
  intro spec
  rw [get?_ofRows hnodup, get?_ofRows ((hperm.map _).nodup_iff.1 hnodup), hperm.mem_iff]

end Table

/-! ## Faults -/

namespace Builder

variable {factory : Factory σ} {table : Table σ} {lookup : Lookup} {state other : String}
  {fault : BuildError} {answers : List (EventKey × Spec σ)}

/-- The source `state` could never answer: `lookup` is `.exact`, and the factory makes states, but
not this one. -/
def IsStray (factory : Factory σ) (lookup : Lookup) (state : String) : Prop :=
  lookup = .exact ∧ factory.keys ≠ [] ∧ state ∉ factory.keys

/-- **What is wrong with the source `state` of `table`**: that it could never answer (`IsStray`), or
else the target of one of its rows. -/
inductive IsFault (factory : Factory σ) (table : Table σ) (lookup : Lookup) (state : String) :
    BuildError → Prop
  | source {event : EventKey} {spec : Spec σ} (hrow : table.get? state event = some spec)
    (hstray : IsStray factory lookup state) :
    IsFault factory table lookup state (.unknownSourceState state)
  | target {event : EventKey} {spec : Spec σ} {target : String}
    (hrow : table.get? state event = some spec) (hstray : ¬ IsStray factory lookup state)
    (hstatic : spec.staticTarget = some target) (hunknown : target ∉ factory.keys) :
    IsFault factory table lookup state (.unknownTargetState state event.name target)

/-- **What the least source with an `IsFault` can be blamed for.** -/
def IsBlamed (factory : Factory σ) (table : Table σ) (lookup : Lookup) (fault : BuildError) :
    Prop :=
  ∃ state, IsFault factory table lookup state fault ∧
    ∀ other fault', IsFault factory table lookup other fault' → state ≤ other

/-- `IsFault` holds of sources of `table` only. -/
theorem IsFault.exists_row (h : IsFault factory table lookup state fault) :
    ∃ event spec, table.get? state event = some spec := by
  cases h with
  | source hrow _ => exact ⟨_, _, hrow⟩
  | target hrow _ _ _ => exact ⟨_, _, hrow⟩

/-! ## The check along an order -/

/-- What is wrong with the source `state`, given its `answers` in some order. -/
def answersFault? (factory : Factory σ) (lookup : Lookup) (state : String)
    (answers : List (EventKey × Spec σ)) : Option BuildError :=
  if lookup = .exact ∧ !factory.isEmpty ∧ !factory.contains state then
    some (.unknownSourceState state)
  else unknownTarget? factory state answers

/-- **What is wrong with `table` along `order`**: `answersFault?` of the least source that has
one. -/
def faultIn (factory : Factory σ) (lookup : Lookup) (order : table.Enumeration) :
    Option BuildError :=
  (order.states.mergeSort (· ≤ ·)).findSome? fun state =>
    answersFault? factory lookup state (order.events state)

/-- `tableFault?` is `faultIn` along `table.inOrder`. -/
theorem tableFault?_eq : tableFault? factory table lookup = faultIn factory lookup table.inOrder :=
  rfl

/-- `faultIn` along `order.transfer` is that along `order`. -/
theorem faultIn_transfer {table' : Table σ} (order : table.Enumeration)
    (hsame : ∀ state event, table.get? state event = table'.get? state event) :
    faultIn factory lookup (order.transfer hsame) = faultIn factory lookup order := rfl

/-- `factory.contains` in terms of `factory.keys`. -/
theorem contains_eq_false_iff : factory.contains state = false ↔ state ∉ factory.keys := by
  rw [Factory.mem_keys_iff, Bool.not_eq_true]
  rfl

/-- `factory.isEmpty` in terms of `factory.keys`. -/
theorem isEmpty_eq_false_iff : factory.isEmpty = false ↔ factory.keys ≠ [] :=
  List.isEmpty_eq_false_iff

/-- `IsStray` is the first check of `answersFault?`. -/
theorem isStray_iff : IsStray factory lookup state ↔
    lookup = .exact ∧ !factory.isEmpty ∧ !factory.contains state := by
  simp only [Bool.not_eq_eq_eq_not, Bool.not_true, contains_eq_false_iff, isEmpty_eq_false_iff]
  rfl

/-- `answersFault?` of a stray source, whatever its answers are. -/
theorem answersFault?_of_isStray (h : IsStray factory lookup state) :
    answersFault? factory lookup state answers = some (.unknownSourceState state) :=
  if_pos (isStray_iff.1 h)

/-- `answersFault?` of another source is `unknownTarget?`. -/
theorem answersFault?_of_not_isStray (h : ¬ IsStray factory lookup state) :
    answersFault? factory lookup state answers = unknownTarget? factory state answers :=
  if_neg fun hstray => h (isStray_iff.2 hstray)

/-- What is wrong with `answer`. -/
def answerFault? (factory : Factory σ) (state : String) (answer : EventKey × Spec σ) :
    Option BuildError :=
  answer.2.staticTarget.bind fun target =>
    if factory.contains target then none
    else some (.unknownTargetState state answer.1.name target)

/-- `unknownTarget?` is the first `answerFault?`. -/
theorem unknownTarget?_eq :
    unknownTarget? factory state answers = answers.findSome? (answerFault? factory state) := rfl

/-- `answerFault?` is that the target is unknown. -/
theorem answerFault?_eq_some_iff {answer : EventKey × Spec σ} :
    answerFault? factory state answer = some fault ↔
      ∃ target, answer.2.staticTarget = some target ∧ target ∉ factory.keys ∧
        fault = .unknownTargetState state answer.1.name target := by
  rw [answerFault?, Option.bind_eq_some_iff]
  refine exists_congr fun target => and_congr_right fun _ => ?_
  rw [← contains_eq_false_iff]
  cases factory.contains target with
  | true => simp
  | false => simp [eq_comm]

/-- **`answersFault?` is an `IsFault`.** -/
theorem isFault_of_answersFault? (order : table.Enumeration) (hstate : state ∈ order.states)
    (h : answersFault? factory lookup state (order.events state) = some fault) :
    IsFault factory table lookup state fault := by
  by_cases hstray : IsStray factory lookup state
  · obtain ⟨event, spec, hrow⟩ := order.mem_states_iff.1 hstate
    rw [answersFault?_of_isStray hstray, Option.some.injEq] at h
    subst h
    exact .source hrow hstray
  · rw [answersFault?_of_not_isStray hstray, unknownTarget?_eq] at h
    obtain ⟨⟨event, spec⟩, hmem, hfault⟩ := List.exists_of_findSome?_eq_some h
    obtain ⟨target, hstatic, hunknown, rfl⟩ := answerFault?_eq_some_iff.1 hfault
    exact .target (order.mem_events_iff.1 hmem) hstray hstatic hunknown

/-- **`answersFault?` is there for a source with an `IsFault`**, whatever the order. -/
theorem IsFault.isSome_answersFault? (h : IsFault factory table lookup state fault)
    (order : table.Enumeration) :
    (answersFault? factory lookup state (order.events state)).isSome = true := by
  cases h with
  | source _ hstray => rw [answersFault?_of_isStray hstray]; rfl
  | @target event spec target hrow hstray hstatic hunknown =>
    have hfault : answerFault? factory state (event, spec) = _ :=
      answerFault?_eq_some_iff.2 ⟨target, hstatic, hunknown, rfl⟩
    rw [answersFault?_of_not_isStray hstray, unknownTarget?_eq, List.findSome?_isSome_iff]
    exact ⟨_, order.mem_events_iff.2 hrow, by rw [hfault]; rfl⟩

/-- **Every `IsFault` of a source is its `answersFault?`** if the right answer comes first. -/
theorem IsFault.exists_answer (h : IsFault factory table lookup state fault) :
    ∃ event spec, table.get? state event = some spec ∧
      ∀ rest, answersFault? factory lookup state ((event, spec) :: rest) = some fault := by
  cases h with
  | @source event spec hrow hstray =>
    exact ⟨event, spec, hrow, fun _ => answersFault?_of_isStray hstray⟩
  | @target event spec target hrow hstray hstatic hunknown =>
    refine ⟨event, spec, hrow, fun rest => ?_⟩
    have hfault : answerFault? factory state (event, spec) = _ :=
      answerFault?_eq_some_iff.2 ⟨target, hstatic, hunknown, rfl⟩
    rw [answersFault?_of_not_isStray hstray, unknownTarget?_eq, List.findSome?_cons, hfault]

/-! ## What a check finds -/

/-- `findSome?` along sorted items is `f` of the least one that has a result. -/
theorem findSome?_mergeSort_eq_some_iff {α β : Type} [LinearOrder α] {f : α → Option β} {b : β}
    {items : List α} (hnodup : items.Nodup) :
    (items.mergeSort (· ≤ ·)).findSome? f = some b ↔
      ∃ a ∈ items, f a = some b ∧ ∀ a' ∈ items, (f a').isSome = true → a ≤ a' := by
  have hsorted := List.pairwise_mergeSort' (· ≤ ·) items
  have hmem {a : α} : a ∈ items.mergeSort (· ≤ ·) ↔ a ∈ items := List.mem_mergeSort
  rw [List.findSome?_eq_some_iff]
  constructor
  · rintro ⟨front, a, back, hsplit, hfound, hfront⟩
    rw [hsplit] at hmem hsorted
    refine ⟨a, hmem.1 (by simp), hfound, fun a' ha' hsome => ?_⟩
    rcases List.mem_append.1 (hmem.2 ha') with hbefore | hafter
    · rw [hfront a' hbefore] at hsome
      cases hsome
    · rcases List.mem_cons.1 hafter with rfl | hback
      · exact le_rfl
      · exact List.rel_of_pairwise_cons (List.pairwise_append.1 hsorted).2.1 hback
  · rintro ⟨a, ha, hfound, hleast⟩
    obtain ⟨front, back, hsplit⟩ := List.append_of_mem (hmem.2 ha)
    refine ⟨front, a, back, hsplit, hfound, fun a' ha' => ?_⟩
    rw [← Option.not_isSome_iff_eq_none]
    intro hsome
    have hnodup' := (List.mergeSort_perm items (· ≤ ·)).nodup_iff.2 hnodup
    rw [hsplit] at hmem hsorted hnodup'
    -- An earlier item that has something to show would be the same one.
    have hle := (List.pairwise_append.1 hsorted).2.2 a' ha' a List.mem_cons_self
    have heq := le_antisymm hle (hleast a' (hmem.1 (List.mem_append_left _ ha')) hsome)
    exact List.disjoint_of_nodup_append hnodup' ha' (heq ▸ List.mem_cons_self)

/-- `faultIn` is `answersFault?` of the least source with an `IsFault`. -/
theorem faultIn_eq_some_iff {order : table.Enumeration} :
    faultIn factory lookup order = some fault ↔
      ∃ state ∈ order.states, answersFault? factory lookup state (order.events state) = some fault ∧
        ∀ other fault', IsFault factory table lookup other fault' → state ≤ other := by
  rw [faultIn, findSome?_mergeSort_eq_some_iff order.nodup_states]
  refine exists_congr fun state => and_congr_right fun _ => and_congr_right fun _ => ?_
  constructor
  · intro hleast other fault' hfault
    exact hleast other (order.mem_states_iff.2 hfault.exists_row)
      (hfault.isSome_answersFault? order)
  · intro hleast other hother hsome
    obtain ⟨fault', hfault⟩ := Option.isSome_iff_exists.1 hsome
    exact hleast other fault' (isFault_of_answersFault? order hother hfault)

/-- **`faultIn` is `none` exactly if there is no `IsFault`.** -/
theorem faultIn_eq_none_iff {order : table.Enumeration} :
    faultIn factory lookup order = none ↔
      ∀ state fault, ¬ IsFault factory table lookup state fault := by
  rw [faultIn, List.findSome?_eq_none_iff]
  constructor
  · intro hnone state fault hfault
    have hsome := hfault.isSome_answersFault? order
    rw [hnone state (List.mem_mergeSort.2 (order.mem_states_iff.2 hfault.exists_row))] at hsome
    cases hsome
  · intro hright state hstate
    rw [← Option.not_isSome_iff_eq_none, Option.isSome_iff_exists]
    rintro ⟨fault, hfault⟩
    exact hright state fault (isFault_of_answersFault? order (List.mem_mergeSort.1 hstate) hfault)

/-- **`faultIn` is `IsBlamed`.** -/
theorem faultIn_isBlamed {order : table.Enumeration}
    (h : faultIn factory lookup order = some fault) :
    IsBlamed factory table lookup fault := by
  obtain ⟨state, hstate, hfound, hleast⟩ := faultIn_eq_some_iff.1 h
  exact ⟨state, isFault_of_answersFault? order hstate hfound, hleast⟩

/-- Everything that `IsBlamed` is `faultIn` along some order. -/
theorem IsBlamed.exists_order (h : IsBlamed factory table lookup fault) :
    ∃ order : table.Enumeration, faultIn factory lookup order = some fault := by
  obtain ⟨state, hfault, hleast⟩ := h
  obtain ⟨event, spec, hrow, hfirst⟩ := hfault.exists_answer
  obtain ⟨front, back, hsplit⟩ := List.append_of_mem (Table.mem_events_iff.2 hrow)
  have hperm : ((event, spec) :: (front ++ back)).Perm (table.inOrder.events state) := by
    show List.Perm _ (table.events state)
    rw [hsplit]
    exact List.perm_middle.symm
  refine ⟨table.inOrder.reorder state _ hperm, faultIn_eq_some_iff.2 ⟨state, ?_, ?_, hleast⟩⟩
  · exact Table.mem_states_iff.2 hfault.exists_row
  · rw [Table.Enumeration.events_reorder, if_pos rfl]
    exact hfirst _

/-- Everything that `IsBlamed` is an `IsFault` of one source. -/
theorem IsBlamed.exists_source {fault' : BuildError} (h : IsBlamed factory table lookup fault)
    (h' : IsBlamed factory table lookup fault') :
    ∃ state, IsFault factory table lookup state fault ∧
      IsFault factory table lookup state fault' := by
  obtain ⟨state, hfault, hleast⟩ := h
  obtain ⟨state', hfault', hleast'⟩ := h'
  obtain rfl := le_antisymm (hleast state' fault' hfault') (hleast' state fault hfault)
  exact ⟨state, hfault, hfault'⟩

/-- **What the order of a table has a say in.** Whether `faultIn factory lookup order` is `none`
does not depend on `order`, nor does the source that is found fault with. But a `fault` is found in
some order exactly if `IsBlamed` holds for it, which is so for each unknown target of that source.
So all orders agree if and only if there is at most one such `fault`. -/
theorem faultIn_orders (factory : Factory σ) (table : Table σ) (lookup : Lookup) :
    (∀ order order' : table.Enumeration,
      faultIn factory lookup order = none ↔ faultIn factory lookup order' = none) ∧
    (∀ (order order' : table.Enumeration) (fault fault' : BuildError),
      faultIn factory lookup order = some fault → faultIn factory lookup order' = some fault' →
        ∃ state, IsFault factory table lookup state fault ∧
          IsFault factory table lookup state fault') ∧
    (∀ fault, (∃ order : table.Enumeration, faultIn factory lookup order = some fault) ↔
      IsBlamed factory table lookup fault) ∧
    ((∀ order order' : table.Enumeration,
        faultIn factory lookup order = faultIn factory lookup order') ↔
      ∀ fault fault', IsBlamed factory table lookup fault → IsBlamed factory table lookup fault' →
        fault = fault') := by
  have hnone (order order' : table.Enumeration) :
      faultIn factory lookup order = none ↔ faultIn factory lookup order' = none :=
    faultIn_eq_none_iff.trans faultIn_eq_none_iff.symm
  refine ⟨hnone, fun _ _ _ _ h h' => (faultIn_isBlamed h).exists_source (faultIn_isBlamed h'),
    fun _ => ⟨fun ⟨_, h⟩ => faultIn_isBlamed h, IsBlamed.exists_order⟩, ?_, ?_⟩
  · -- Whatever can be blamed is found in some order.
    intro hsame fault fault' hblamed hblamed'
    obtain ⟨order, hfound⟩ := hblamed.exists_order
    obtain ⟨order', hfound'⟩ := hblamed'.exists_order
    rw [hsame order order', hfound', Option.some.injEq] at hfound
    exact hfound.symm
  · intro hone order order'
    -- Both orders find something that can be blamed, or neither finds anything.
    cases hfound : faultIn factory lookup order with
    | none => exact ((hnone order order').1 hfound).symm
    | some fault =>
      cases hfound' : faultIn factory lookup order' with
      | none => rw [(hnone order order').2 hfound'] at hfound; cases hfound
      | some fault' => rw [hone _ _ (faultIn_isBlamed hfound) (faultIn_isBlamed hfound')]

/-- Two rows from `Open`, to `Busy` and to `Shut`. -/
def lostRows : List (String × EventKey × Spec State) :=
  [("Open", .domain "serve", .target "Busy"), ("Open", .domain "close", .target "Shut")]

/-- **The order of a table shows.** Two rows of `lostRows` have the source `"Open"` and unknown
targets, and `tableFault?` names the target of the row that comes first. -/
theorem tableFault?_lostRows :
    tableFault? .empty (.ofRows lostRows) .exact =
        some (.unknownTargetState "Open" "serve" "Busy") ∧
      tableFault? .empty (.ofRows lostRows.reverse) .exact =
        some (.unknownTargetState "Open" "close" "Shut") ∧
      ¬ ∀ (factory : Factory State) (table : Table State) (lookup : Lookup)
        (order order' : table.Enumeration),
          faultIn factory lookup order = faultIn factory lookup order' := by
  have hfirst : tableFault? .empty (.ofRows lostRows) .exact =
      some (.unknownTargetState "Open" "serve" "Busy") := by
    decide +kernel
  have hsecond : tableFault? .empty (.ofRows lostRows.reverse) .exact =
      some (.unknownTargetState "Open" "close" "Shut") := by
    decide +kernel
  refine ⟨hfirst, hsecond, fun hsame => ?_⟩
  have hanswers := Table.get?_ofRows_perm (by decide) (List.reverse_perm lostRows).symm
  have heq := hsame .empty (.ofRows lostRows) .exact (Table.inOrder _)
    ((Table.inOrder (.ofRows lostRows.reverse)).transfer hanswers)
  rw [← tableFault?_eq, faultIn_transfer, ← tableFault?_eq, hfirst, hsecond] at heq
  exact absurd heq (by decide)

end Builder

end Statechart
