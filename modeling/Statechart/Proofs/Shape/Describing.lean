import Mathlib.Data.List.Perm.Basic
import Statechart.Machine
import Statechart.Proofs.Builder.Chain
import Statechart.Proofs.Shape.Marks

/-! # What a machine says of its structure

A machine lists the transitions whose targets are known by their source and the name of their event.
The sort leaves transitions of one source under one name in the order in which they come from the
table, and a table has no order. Rows of one state under one name are rows for a signal and for a
domain event with the name of the signal.

* **`mergeSort_eq_mergeSort`**: lists with the same items in every class, in the same order, are
  sorted alike.
* `Machine.describeIn`: the structure of a machine along an order of its table;
  `Machine.describe_eq`: a machine describes itself along the order of its rows.
* `Table.IsFaithful`: rows of one state under one name lead to one target.
* **`Machine.describeIn_orders`**: the order shows, in the structure and in its graph, exactly if
  the table is not faithful. -/

namespace Statechart

variable {σ : Type}

/-! ## Stable sorts -/

section StableSort

variable {α : Type} {le : α → α → Bool} {p : α → Bool} {items items' : List α}

/-- `mergeSort` keeps the order of items that `le` does not tell apart. -/
theorem filter_mergeSort (htrans : ∀ a b c, le a b = true → le b c = true → le a c = true)
    (htotal : ∀ a b, (le a b || le b a) = true)
    (hclass : ∀ a b, p a = true → p b = true → le a b = true) :
    (items.mergeSort le).filter p = items.filter p := by
  have hsorted : (items.filter p).Pairwise (fun a b => le a b = true) :=
    List.pairwise_of_forall_mem_list fun a ha b hb =>
      hclass a b (List.of_mem_filter ha) (List.of_mem_filter hb)
  have hsub := (List.sublist_mergeSort htrans htotal hsorted List.filter_sublist).filter p
  have hself : (items.filter p).filter p = items.filter p := by simp
  have hlength := ((List.mergeSort_perm items le).filter p).length_eq
  rw [hself] at hsub
  exact (hsub.eq_of_length hlength.symm).symm

/-- `le` does not tell `a` and `b` apart. -/
def evenWith (le : α → α → Bool) (a b : α) : Bool := le a b && le b a

/-- Two sorted lists are equal if they have the same items in every class of `evenWith`, in the same
order. -/
theorem eq_of_filter_evenWith (hrefl : ∀ a, le a a = true)
    (hsorted : items.Pairwise fun a b => le a b = true)
    (hsorted' : items'.Pairwise fun a b => le a b = true) (hperm : items.Perm items')
    (hclass : ∀ a, items.filter (evenWith le a) = items'.filter (evenWith le a)) :
    items = items' := by
  induction items generalizing items' with
  | nil => exact (List.nil_perm.1 hperm).symm
  | cons a rest ih =>
    cases items' with
    | nil => exact List.perm_nil.1 hperm
    | cons b rest' =>
      have hab : le a b = true := by
        rcases List.mem_cons.1 (hperm.mem_iff.2 List.mem_cons_self) with rfl | hb
        · exact hrefl b
        · exact List.rel_of_pairwise_cons hsorted hb
      have hba : le b a = true := by
        rcases List.mem_cons.1 (hperm.mem_iff.1 List.mem_cons_self) with rfl | ha
        · exact hrefl a
        · exact List.rel_of_pairwise_cons hsorted' ha
      -- Both heads are in the class of the first one, so they are one item.
      have hhead := hclass a
      rw [List.filter_cons_of_pos (by simp [evenWith, hrefl]),
        List.filter_cons_of_pos (by simp [evenWith, hab, hba])] at hhead
      obtain rfl := (List.cons.inj hhead).1
      have hrest := ih (List.pairwise_cons.1 hsorted).2 (List.pairwise_cons.1 hsorted').2
        hperm.cons_inv fun c => by
          have hc := hclass c
          by_cases hin : evenWith le c a = true
          · rw [List.filter_cons_of_pos hin, List.filter_cons_of_pos hin] at hc
            exact (List.cons.inj hc).2
          · rwa [List.filter_cons_of_neg hin, List.filter_cons_of_neg hin] at hc
      rw [hrest]

/-- **`mergeSort` of two lists is the same if they have the same items in every class of
`evenWith`**, in the same order. -/
theorem mergeSort_eq_mergeSort [DecidableEq α]
    (htrans : ∀ a b c, le a b = true → le b c = true → le a c = true)
    (htotal : ∀ a b, (le a b || le b a) = true)
    (hclass : ∀ a, items.filter (evenWith le a) = items'.filter (evenWith le a)) :
    items.mergeSort le = items'.mergeSort le := by
  have hrefl (a : α) : le a a = true := by simpa using htotal a a
  have hkept (items : List α) (a : α) :
      (items.mergeSort le).filter (evenWith le a) = items.filter (evenWith le a) :=
    filter_mergeSort htrans htotal fun b c hb hc => by
      rw [evenWith, Bool.and_eq_true] at hb hc
      exact htrans b a c hb.2 hc.1
  -- An item occurs as often as in its class.
  have hperm : items.Perm items' := List.perm_iff_count.2 fun a => by
    have hself : evenWith le a a = true := by simp [evenWith, hrefl]
    rw [← List.count_filter hself, hclass a, List.count_filter hself]
  exact eq_of_filter_evenWith hrefl (List.pairwise_mergeSort htrans htotal _)
    (List.pairwise_mergeSort htrans htotal _)
    (((List.mergeSort_perm items le).trans hperm).trans (List.mergeSort_perm items' le).symm)
    fun a => by rw [hkept, hkept, hclass a]

end StableSort

/-! ## Edges -/

namespace Machine

/-- Edges are compared by `source`, and then by `event`. -/
def edgeOrder : EdgeShape → EdgeShape → Ordering :=
  compareLex (compareOn EdgeShape.source) (compareOn EdgeShape.event)

instance : Std.TransCmp edgeOrder :=
  inferInstanceAs (Std.TransCmp
    (compareLex (compareOn EdgeShape.source) (compareOn EdgeShape.event)))

/-- `edgeLe` is `edgeOrder`. -/
theorem edgeLe_eq (a b : EdgeShape) : edgeLe a b = (edgeOrder a b).isLE := rfl

theorem edgeLe_trans (a b c : EdgeShape) (hab : edgeLe a b = true) (hbc : edgeLe b c = true) :
    edgeLe a c = true := by
  rw [edgeLe_eq] at hab hbc ⊢
  exact Std.TransCmp.isLE_trans hab hbc

theorem edgeLe_total (a b : EdgeShape) : (edgeLe a b || edgeLe b a) = true := by
  have hswap : edgeOrder b a = (edgeOrder a b).swap := Std.OrientedCmp.eq_swap
  rw [edgeLe_eq, edgeLe_eq, hswap]
  cases edgeOrder a b <;> rfl

/-- `edge` is one of `source` under the name `event`. -/
def isAt (source event : String) (edge : EdgeShape) : Bool :=
  edge.source == source && edge.event == event

theorem isAt_iff {source event : String} {edge : EdgeShape} :
    isAt source event edge = true ↔ edge.source = source ∧ edge.event = event := by
  rw [isAt, Bool.and_eq_true, beq_iff_eq, beq_iff_eq]

/-- `evenWith edgeLe` is `isAt`. -/
theorem evenWith_edgeLe_iff {a b : EdgeShape} :
    evenWith edgeLe a b = true ↔ isAt a.source a.event b = true := by
  have heq : edgeOrder a b = .eq ↔ b.source = a.source ∧ b.event = a.event := by
    rw [edgeOrder, compareLex, Ordering.then_eq_eq, compareOn, compareOn,
      Std.LawfulEqCmp.compare_eq_iff_eq, Std.LawfulEqCmp.compare_eq_iff_eq, eq_comm,
      eq_comm (a := a.event)]
  have hswap : edgeOrder b a = (edgeOrder a b).swap := Std.OrientedCmp.eq_swap
  rw [isAt_iff, ← heq, evenWith, Bool.and_eq_true, edgeLe_eq, edgeLe_eq, hswap]
  cases edgeOrder a b <;> decide

/-- The edge of a row, if its target is known. -/
def edge? (state : String) (answer : EventKey × Spec σ) : Option EdgeShape :=
  answer.2.staticTarget.map fun target => ⟨state, answer.1.name, target⟩

variable (m : Machine σ)

/-- The edges whose targets are known, along `order`. -/
def edgesIn (order : m.table.Enumeration) : List EdgeShape :=
  order.states.flatMap fun state => (order.events state).filterMap (edge? state)

/-- **The structure of `m` along `order`.** -/
def describeIn (order : m.table.Enumeration) : MachineShape :=
  { m.describe with edges := (m.edgesIn order).mergeSort edgeLe }

variable {m}

/-- The members of `m.edgesIn order` are edges of rows. -/
theorem mem_edgesIn_iff {order : m.table.Enumeration} {edge : EdgeShape} :
    edge ∈ m.edgesIn order ↔ ∃ event spec, m.table.get? edge.source event = some spec ∧
      event.name = edge.event ∧ spec.staticTarget = some edge.target := by
  simp only [edgesIn, List.mem_flatMap, List.mem_filterMap, edge?, Option.map_eq_some_iff]
  constructor
  · rintro ⟨state, -, ⟨event, spec⟩, hrow, target, hstatic, rfl⟩
    exact ⟨event, spec, order.mem_events_iff.1 hrow, rfl, hstatic⟩
  · rintro ⟨event, spec, hrow, hname, hstatic⟩
    refine ⟨edge.source, order.mem_states_iff.2 ⟨event, spec, hrow⟩, (event, spec),
      order.mem_events_iff.2 hrow, edge.target, hstatic, ?_⟩
    rw [hname]

/-- `items.flatMap f` is `f a` if `f` is empty on all other items. -/
theorem flatMap_eq_of_forall_ne {α β : Type} {f : α → List β} {a : α} {items : List α}
    (hnodup : items.Nodup) (hother : ∀ b ∈ items, b ≠ a → f b = []) (hmiss : a ∉ items → f a = []) :
    items.flatMap f = f a := by
  by_cases ha : a ∈ items
  · obtain ⟨front, back, rfl⟩ := List.append_of_mem ha
    rw [List.nodup_middle, List.nodup_cons, List.mem_append, not_or] at hnodup
    have hfront : front.flatMap f = [] := List.flatMap_eq_nil_iff.2 fun b hb =>
      hother b (List.mem_append_left _ hb) fun heq => hnodup.1.1 (heq ▸ hb)
    have hback : back.flatMap f = [] := List.flatMap_eq_nil_iff.2 fun b hb =>
      hother b (by simp [hb]) fun heq => hnodup.1.2 (heq ▸ hb)
    rw [List.flatMap_append, List.flatMap_cons, hfront, hback, List.append_nil, List.nil_append]
  · rw [hmiss ha]
    exact List.flatMap_eq_nil_iff.2 fun b hb => hother b hb fun heq => ha (heq ▸ hb)

/-- **`m.edgesIn order` at a source and a name** come in the order of `order.events`. -/
theorem filter_edgesIn {order : m.table.Enumeration} {source event : String} :
    (m.edgesIn order).filter (isAt source event) =
      ((order.events source).filterMap (edge? source)).filter (isAt source event) := by
  rw [edgesIn, List.filter_flatMap]
  refine flatMap_eq_of_forall_ne order.nodup_states (fun state _ hne => ?_) fun hmiss => ?_
  · rw [List.filter_eq_nil_iff]
    intro edge hedge hat
    obtain ⟨answer, -, hanswer⟩ := List.mem_filterMap.1 hedge
    obtain ⟨target, -, rfl⟩ := Option.map_eq_some_iff.1 hanswer
    exact hne (isAt_iff.1 hat).1
  · have hnone : order.events source = [] := List.eq_nil_iff_forall_not_mem.2 fun answer hanswer =>
      hmiss (order.mem_states_iff.2 ⟨_, _, order.mem_events_iff.1 hanswer⟩)
    rw [hnone]
    rfl

/-- `m.edges` at a source and a name come in the order of `m.table.events`. -/
theorem filter_edges {source event : String} :
    m.edges.filter (isAt source event) =
      ((m.table.events source).filterMap (edge? source)).filter (isAt source event) := by
  rw [edges, Table.events, List.filterMap_map, List.filterMap_filter, List.filter_filterMap,
    List.filter_filterMap]
  refine List.filterMap_congr fun row _ => ?_
  obtain ⟨⟨state, key⟩, spec⟩ := row
  by_cases hstate : state = source
  · subst hstate
    rw [if_pos (beq_self_eq_true _)]
    rfl
  · rw [if_neg (by simpa using hstate), Option.filter_none]
    refine Option.filter_eq_none_iff.2 fun edge hedge hat => ?_
    obtain ⟨target, -, rfl⟩ := Option.map_eq_some_iff.1 hedge
    exact hstate (isAt_iff.1 hat).1

/-- **`m.describe` is `m.describeIn m.table.inOrder`.** -/
theorem describe_eq (m : Machine σ) : m.describe = m.describeIn m.table.inOrder := by
  have hedges : m.edges.mergeSort edgeLe = (m.edgesIn m.table.inOrder).mergeSort edgeLe := by
    refine mergeSort_eq_mergeSort edgeLe_trans edgeLe_total fun edge => ?_
    have hclass : evenWith edgeLe edge = isAt edge.source edge.event :=
      funext fun other => Bool.eq_iff_iff.2 evenWith_edgeLe_iff
    rw [hclass, filter_edgesIn]
    exact filter_edges
  rw [describeIn, ← hedges]
  rfl

/-- **The edges of `m.describeIn order` at a source and a name** come in the order of
`order.events`. -/
theorem filter_describeIn {order : m.table.Enumeration} {source event : String} :
    (m.describeIn order).edges.filter (isAt source event) =
      ((order.events source).filterMap (edge? source)).filter (isAt source event) := by
  rw [← filter_edgesIn]
  refine filter_mergeSort edgeLe_trans edgeLe_total fun a b ha hb => ?_
  have heven : evenWith edgeLe a b = true := by
    rw [isAt_iff] at ha hb
    exact evenWith_edgeLe_iff.2 (isAt_iff.2 ⟨hb.1.trans ha.1.symm, hb.2.trans ha.2.symm⟩)
  exact (Bool.and_eq_true _ _ ▸ heven).1

/-! ## Graphs -/

/-- The graph of `m` alone, along `order`. -/
def graphIn (m : Machine σ) (delimiter : String) (order : m.table.Enumeration) : ShapeGraph :=
  .ofLevels delimiter [⟨m.describeIn order, m.current.state.key⟩]

/-- Of the edges that `addEdge` adds at a source and a name the last one stays. -/
theorem target?_foldl_addEdge {source event : String} (edges : List EdgeShape)
    (graph : ShapeGraph) :
    (edges.foldl (fun graph edge => graph.addEdge edge.source edge.event edge.target) graph).target?
        source event =
      match (edges.filter (isAt source event)).getLast? with
      | some edge => some edge.target
      | none => graph.target? source event := by
  induction edges using List.reverseRecOn with
  | nil => rfl
  | append_singleton edges edge ih =>
    rw [List.foldl_append, List.foldl_cons, List.foldl_nil, ShapeGraph.target?_addEdge,
      List.filter_append]
    by_cases hat : isAt source event edge = true
    · rw [List.filter_cons_of_pos hat, List.filter_nil, List.getLast?_concat, if_pos]
      rw [(isAt_iff.1 hat).1, (isAt_iff.1 hat).2]
    · rw [List.filter_cons_of_neg hat, List.filter_nil, List.append_nil, ← ih, if_neg]
      exact fun heq => hat (isAt_iff.2 (Prod.mk.inj heq))

/-- `m.graphIn` shows the last edge at a source and a name. -/
theorem target?_graphIn {delimiter source event : String} {order : m.table.Enumeration}
    {edge : EdgeShape}
    (hlast : (((order.events source).filterMap (edge? source)).filter
      (isAt source event)).getLast? = some edge) :
    (m.graphIn delimiter order).target? source event = some edge.target := by
  have hfold := @target?_foldl_addEdge source event (m.describeIn order).edges
  rw [filter_describeIn, hlast] at hfold
  exact hfold _

/-! ## Where the order shows -/

end Machine

/-- **`table` is faithful**: rows of one state whose events have one name lead to one target, as far
as their targets are known. -/
def Table.IsFaithful (table : Table σ) : Prop :=
  ∀ state event event' spec spec' target target', table.get? state event = some spec →
    table.get? state event' = some spec' → event.name = event'.name →
    spec.staticTarget = some target → spec'.staticTarget = some target' → target = target'

/-- `EventKey.ofName?` of `key.name` is `key`, unless it is a domain event of a reserved name. -/
theorem EventKey.ofName?_name {key : EventKey}
    (hfree : ∀ name, key = .domain name → isReservedName name = false) :
    EventKey.ofName? key.name = some key := by
  refine EventKey.ofName?_eq_some_iff.2 ⟨rfl, fun hdomain => ?_⟩
  cases key with
  | domain name => exact hfree name rfl
  | childExit => cases hdomain
  | childChange => cases hdomain

/-- `EventKey.name` is injective, but for domain events of reserved names. -/
theorem EventKey.eq_of_name_eq {key key' : EventKey} (hname : key.name = key'.name)
    (hfree : ∀ name, key = .domain name → isReservedName name = false)
    (hfree' : ∀ name, key' = .domain name → isReservedName name = false) : key = key' := by
  have hkey := ofName?_name hfree
  rw [hname, ofName?_name hfree', Option.some.injEq] at hkey
  exact hkey.symm

/-- `IsFaithful` if no domain event of the rows has a reserved name. -/
theorem Table.isFaithful_of_free {table : Table σ}
    (hfree : ∀ state name spec, table.get? state (.domain name) = some spec →
      isReservedName name = false) : table.IsFaithful := by
  intro state event event' spec spec' target target' hrow hrow' hname hstatic hstatic'
  obtain rfl := EventKey.eq_of_name_eq hname
    (fun name heq => hfree state name spec (heq ▸ hrow))
    (fun name heq => hfree state name spec' (heq ▸ hrow'))
  rw [hrow, Option.some.injEq] at hrow'
  subst hrow'
  rw [hstatic, Option.some.injEq] at hstatic'
  exact hstatic'

namespace Machine

variable {m : Machine σ}

/-- `m.edgesIn` along two orders is the same up to order. -/
theorem edgesIn_perm (order order' : m.table.Enumeration) :
    (m.edgesIn order).Perm (m.edgesIn order') := by
  have hevents (state : String) : (order.events state).Perm (order'.events state) :=
    (List.perm_ext_iff_of_nodup (order.nodup_events state) (order'.nodup_events state)).2
      fun _ => order.mem_events_iff.trans order'.mem_events_iff.symm
  have hstates : order.states.Perm order'.states :=
    (List.perm_ext_iff_of_nodup order.nodup_states order'.nodup_states).2
      fun _ => order.mem_states_iff.trans order'.mem_states_iff.symm
  exact hstates.flatMap fun state _ => (hevents state).filterMap _

/-- **`m.describeIn` is the same along all orders if the table is faithful.** -/
theorem describeIn_eq_of_isFaithful (h : m.table.IsFaithful) (order order' : m.table.Enumeration) :
    m.describeIn order = m.describeIn order' := by
  have hedges : (m.edgesIn order).mergeSort edgeLe = (m.edgesIn order').mergeSort edgeLe := by
    refine List.Perm.eq_of_pairwise (fun a b ha hb hab hba => ?_)
      (List.pairwise_mergeSort edgeLe_trans edgeLe_total _)
      (List.pairwise_mergeSort edgeLe_trans edgeLe_total _)
      (((List.mergeSort_perm _ _).trans (edgesIn_perm order order')).trans
        (List.mergeSort_perm _ _).symm)
    -- Transitions that share a place have one target.
    obtain ⟨event, spec, hrow, hname, hstatic⟩ := mem_edgesIn_iff.1 (List.mem_mergeSort.1 ha)
    obtain ⟨event', spec', hrow', hname', hstatic'⟩ := mem_edgesIn_iff.1 (List.mem_mergeSort.1 hb)
    have heven : evenWith edgeLe a b = true := Bool.and_eq_true _ _ ▸ ⟨hab, hba⟩
    obtain ⟨hsource, hevent⟩ := isAt_iff.1 (evenWith_edgeLe_iff.1 heven)
    have htarget := h _ _ _ _ _ _ _ hrow (hsource ▸ hrow')
      (hname.trans (hevent.symm.trans hname'.symm)) hstatic hstatic'
    cases a
    cases b
    simp_all
  rw [describeIn, hedges, describeIn]

/-- Any row of `state` comes last in some order. -/
theorem exists_order_concat {state : String} {event : EventKey} {spec : Spec σ}
    (hrow : m.table.get? state event = some spec) :
    ∃ (order : m.table.Enumeration) (front : List (EventKey × Spec σ)),
      order.events state = front ++ [(event, spec)] := by
  obtain ⟨front, back, hsplit⟩ := List.append_of_mem (Table.mem_events_iff.2 hrow)
  have hperm : (front ++ back ++ [(event, spec)]).Perm (m.table.inOrder.events state) := by
    show List.Perm _ (m.table.events state)
    rw [hsplit, List.append_assoc]
    exact List.perm_append_comm.append_left front
  exact ⟨m.table.inOrder.reorder state _ hperm, front ++ back, if_pos rfl⟩

/-- **`m.graphIn` shows the target of any row in some order.** -/
theorem exists_target?_graphIn {state target : String} {event : EventKey} {spec : Spec σ}
    (hrow : m.table.get? state event = some spec) (hstatic : spec.staticTarget = some target)
    (delimiter : String) :
    ∃ order, (m.graphIn delimiter order).target? state event.name = some target := by
  obtain ⟨order, front, hevents⟩ := exists_order_concat hrow
  have hedge : edge? state (event, spec) = some ⟨state, event.name, target⟩ := by
    rw [edge?, hstatic]
    rfl
  have hat : isAt state event.name ⟨state, event.name, target⟩ = true := isAt_iff.2 ⟨rfl, rfl⟩
  have hlast : (((order.events state).filterMap (edge? state)).filter
      (isAt state event.name)).getLast? = some ⟨state, event.name, target⟩ := by
    rw [hevents, List.filterMap_append, List.filter_append, List.filterMap_cons_some hedge,
      List.filter_cons_of_pos hat]
    exact List.getLast?_concat
  exact ⟨order, target?_graphIn hlast⟩

/-- **Where the order of a table shows.** `m.describe` is `m.describeIn` along the order of the
rows. `m.describeIn order`, and the graph `m.graphIn delimiter order` of it, are the same for every
`order` exactly if `m.table.IsFaithful`. A table is if no domain event of its rows has a reserved
name. -/
theorem describeIn_orders (m : Machine σ) :
    m.describe = m.describeIn m.table.inOrder ∧
    ((∀ order order' : m.table.Enumeration, m.describeIn order = m.describeIn order') ↔
      m.table.IsFaithful) ∧
    ((∀ delimiter (order order' : m.table.Enumeration),
        m.graphIn delimiter order = m.graphIn delimiter order') ↔ m.table.IsFaithful) ∧
    ((∀ state name spec, m.table.get? state (.domain name) = some spec →
      isReservedName name = false) → m.table.IsFaithful) := by
  have hgraph (hsame : ∀ delimiter (order order' : m.table.Enumeration),
      m.graphIn delimiter order = m.graphIn delimiter order') : m.table.IsFaithful := by
    intro state event event' spec spec' target target' hrow hrow' hname hstatic hstatic'
    obtain ⟨order, htarget⟩ := exists_target?_graphIn hrow hstatic "."
    obtain ⟨order', htarget'⟩ := exists_target?_graphIn hrow' hstatic' "."
    rw [hsame "." order order', hname, htarget', Option.some.injEq] at htarget
    exact htarget.symm
  have hdescribe (h : m.table.IsFaithful) := describeIn_eq_of_isFaithful h
  refine ⟨describe_eq m, ⟨fun hsame => hgraph fun _ order order' => ?_, hdescribe⟩,
    ⟨hgraph, fun h _ order order' => ?_⟩, Table.isFaithful_of_free⟩
  · rw [graphIn, hsame order order', graphIn]
  · rw [graphIn, hdescribe h order order', graphIn]

/-- Calls for a door: the exit of `Shut` leads to `Open`, and a domain event with the name of that
exit to `Shut`. -/
def doorCalls : List (Builder.Part State State) :=
  [.factory ((Factory.empty.state "Open" fun _ => some { key := "Open" }).state "Shut"
      fun _ => some { key := "Shut" }),
    .initialKey "Shut", .onChildExit "Shut" (.target "Open"),
    .entry "Shut" (.domain "child.exit") (.target "Shut")]

/-- **`describe` depends on the order of the table of a door.** `doorCalls` add two rows from
`"Shut"` under the name `"child.exit"`, one for `.childExit` and one for a domain event of that
name. Both are in the description, and in the order of the table. -/
theorem describe_door :
    (∃ assembly, (Builder.chain doorCalls).assemble = .ok assembly ∧
      (Machine.start (.minted 0) assembly).describe.edges =
        [⟨"Shut", "child.exit", "Open"⟩, ⟨"Shut", "child.exit", "Shut"⟩]) ∧
    (∃ assembly, (Builder.chain doorCalls.reverse).assemble = .ok assembly ∧
      (Machine.start (.minted 0) assembly).describe.edges =
        [⟨"Shut", "child.exit", "Shut"⟩, ⟨"Shut", "child.exit", "Open"⟩]) ∧
    ¬ ∀ (parts : List (Builder.Part State State)) (assembly : Assembly State State)
      (id : MachineId),
      (Builder.chain parts).assemble = .ok assembly →
        ∀ order order' : (Machine.start id assembly).table.Enumeration,
          (Machine.start id assembly).describeIn order =
            (Machine.start id assembly).describeIn order' := by
  -- The edges come from the table in the order in which they are listed: all have one source and
  -- one event.
  have hedges : ∀ (calls : List (Builder.Part State State)) (edges : List EdgeShape),
      ((Builder.chain calls).assemble).map (fun assembly =>
        (Machine.start (.minted 0) assembly).edges) = .ok edges →
      edges.Pairwise (edgeLe · ·) →
      ∃ assembly, (Builder.chain calls).assemble = .ok assembly ∧
        (Machine.start (.minted 0) assembly).describe.edges = edges := by
    intro calls edges hmap hsorted
    obtain ⟨assembly, hbuilt, rfl⟩ := Builder.map_eq_ok_iff.1 hmap
    exact ⟨assembly, hbuilt, List.mergeSort_of_pairwise hsorted⟩
  have hfirst := hedges doorCalls
    [⟨"Shut", "child.exit", "Open"⟩, ⟨"Shut", "child.exit", "Shut"⟩]
    (by decide +kernel) (by decide +kernel)
  have hsecond := hedges doorCalls.reverse
    [⟨"Shut", "child.exit", "Shut"⟩, ⟨"Shut", "child.exit", "Open"⟩]
    (by decide +kernel) (by decide +kernel)
  refine ⟨hfirst, hsecond, fun hsame => ?_⟩
  obtain ⟨assembly, hassembly, -⟩ := hfirst
  have hget (event : EventKey) : (Machine.start (.minted 0) assembly).table.get? "Shut" event =
      (Table.ofRows (Builder.rowsOf doorCalls)).get? "Shut" event := by
    rw [← Builder.table_of_assemble hassembly]
    rfl
  have hexit := (hget .childExit).trans (by rfl : _ = some (.target "Open"))
  have hdomain := (hget (.domain "child.exit")).trans (by rfl : _ = some (.target "Shut"))
  obtain ⟨order, htarget⟩ := exists_target?_graphIn hexit rfl "."
  obtain ⟨order', htarget'⟩ := exists_target?_graphIn hdomain rfl "."
  rw [graphIn, hsame doorCalls assembly _ hassembly order order'] at htarget
  exact absurd (htarget.symm.trans htarget') (by decide)

end Machine

end Statechart
