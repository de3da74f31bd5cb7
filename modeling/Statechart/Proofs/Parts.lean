import Mathlib.Data.List.Nodup
import Statechart.Definition.Hierarchy
import Statechart.World.Construction

/-! # The parts of a planned machine

A plan may list the entries of a factory that are made each time they are asked for, and rows that
each answer an event of a state of their own. Such a plan has no issues, and its parts are read off
the two lists.

* **`Table.get?_ofRows`**: a table of different rows has these rows and no others.
* **`Factory.create_ofItems`**: a factory makes the state of a key by the last entry of the key.
* `Builder.tableFault?_eq_none`: a table is right if its sources and targets are known.
* **`MachinePlan.realise_eq`**: what following such a plan comes down to. -/

namespace Statechart

variable {ρ γ σ τ : Type}

/-! ## Tables -/

/-- `d.entries` are what `d.get?` finds. -/
theorem Dict.mem_entries_iff {κ α : Type} [DecidableEq κ] {d : Dict κ α} {key : κ} {value : α} :
    (key, value) ∈ d.entries ↔ d.get? key = some value := by
  rw [Dict.get?]
  constructor
  · intro hmem
    cases hlookup : d.entries.lookup key with
    | none =>
      rw [List.lookup_eq_none_iff] at hlookup
      have hne := hlookup (key, value) hmem
      simp at hne
    | some other =>
      obtain ⟨front, back, hsplit, -⟩ := List.lookup_eq_some_iff.1 hlookup
      -- Another entry is found under the same key, and no key comes twice.
      have hother : (key, other) ∈ d.entries := by rw [hsplit]; simp
      have heq := List.inj_on_of_nodup_map d.nodup_keys hmem hother rfl
      rw [Prod.mk.injEq] at heq
      rw [heq.2]
  · intro hlookup
    obtain ⟨front, back, hsplit, -⟩ := List.lookup_eq_some_iff.1 hlookup
    rw [hsplit]
    simp

/-- `table.events state` are what `table.get? state` finds. -/
theorem Table.mem_events_iff {table : Table σ} {state : String} {event : EventKey}
    {spec : Spec σ} : (event, spec) ∈ table.events state ↔ table.get? state event = some spec := by
  rw [Table.get?, ← Dict.mem_entries_iff, Table.events, List.mem_map]
  constructor
  · rintro ⟨⟨⟨source, key⟩, found⟩, hmem, heq⟩
    rw [List.mem_filter, beq_iff_eq] at hmem
    cases heq
    rw [← hmem.2]
    exact hmem.1
  · intro hmem
    exact ⟨((state, event), spec), List.mem_filter.2 ⟨hmem, beq_iff_eq.2 rfl⟩, rfl⟩

/-- `table.hasTransitions state` exactly if `table.get? state` finds something. -/
theorem Table.hasTransitions_iff {table : Table σ} {state : String} :
    table.hasTransitions state = true ↔ ∃ event spec, table.get? state event = some spec := by
  rw [Table.hasTransitions, List.any_eq_true]
  constructor
  · rintro ⟨⟨⟨source, event⟩, spec⟩, hmem, hsource⟩
    rw [beq_iff_eq] at hsource
    exact ⟨event, spec, Dict.mem_entries_iff.1 (hsource ▸ hmem)⟩
  · rintro ⟨event, spec, hget⟩
    exact ⟨((state, event), spec), Dict.mem_entries_iff.2 hget, beq_iff_eq.2 rfl⟩

/-- `table.get?` finds something at each of `table.states`. -/
theorem Table.exists_of_mem_states {table : Table σ} {state : String}
    (h : state ∈ table.states) : ∃ event spec, table.get? state event = some spec := by
  rw [Table.states, List.mem_eraseDups, List.mem_map] at h
  obtain ⟨⟨source, event⟩, hkey, rfl⟩ := h
  obtain ⟨⟨⟨source', event'⟩, spec⟩, hentry, heq⟩ := List.mem_map.1 hkey
  cases heq
  exact ⟨event, spec, Dict.mem_entries_iff.1 hentry⟩

/-- **The table of `rows`**, each given by its state, its event and what it leads to. -/
def Table.ofRows (rows : List (String × EventKey × Spec σ)) : Table σ :=
  rows.foldl (fun table row => table.insert row.1 row.2.1 row.2.2) .empty

/-- The look-up after inserting different `rows` into a table. -/
theorem Table.get?_foldl_insert {rows : List (String × EventKey × Spec σ)} {table : Table σ}
    (hnodup : (rows.map fun row => (row.1, row.2.1)).Nodup) {state : String} {event : EventKey}
    {spec : Spec σ} :
    (rows.foldl (fun table row => table.insert row.1 row.2.1 row.2.2) table).get? state event =
        some spec ↔
      (state, event, spec) ∈ rows ∨
        (state, event) ∉ (rows.map fun row => (row.1, row.2.1)) ∧
          table.get? state event = some spec := by
  induction rows generalizing table with
  | nil => simp
  | cons row rest ih =>
    obtain ⟨source, key, leads⟩ := row
    rw [List.map_cons, List.nodup_cons] at hnodup
    rw [List.foldl_cons, ih hnodup.2, Table.get?_insert, List.mem_cons, List.map_cons,
      List.mem_cons, not_or]
    -- A later row of the same state and event would take the place of this one, but there is none.
    by_cases hself : (state, event) = (source, key)
    · have hrest : (state, event) ∉ rest.map fun row => (row.1, row.2.1) := hself ▸ hnodup.1
      have hnone : (state, event, spec) ∉ rest := fun hmem =>
        hrest (List.mem_map.2 ⟨_, hmem, rfl⟩)
      cases hself
      simp [hrest, hnone, eq_comm]
    · rw [if_neg hself]
      have hother : (state, event, spec) ≠ (source, key, leads) := by
        intro heq
        cases heq
        exact hself rfl
      simp [hself, hother]

/-- **`Table.ofRows` of different `rows`** has these rows and no others. -/
theorem Table.get?_ofRows {rows : List (String × EventKey × Spec σ)}
    (hnodup : (rows.map fun row => (row.1, row.2.1)).Nodup) {state : String} {event : EventKey}
    {spec : Spec σ} :
    (Table.ofRows rows).get? state event = some spec ↔ (state, event, spec) ∈ rows := by
  rw [Table.ofRows, Table.get?_foldl_insert hnodup]
  have hempty : (Table.empty : Table σ).get? state event = none := rfl
  simp [hempty]

/-! ## Builders -/

/-- `Builder.row` of different `rows` files them in the table, without an issue. -/
theorem Builder.foldl_row {rows : List (String × EventKey × Spec σ)} {b : Builder σ τ}
    (hnodup : (rows.map fun row => (row.1, row.2.1)).Nodup)
    (hfresh : ∀ row ∈ rows, b.table.get? row.1 row.2.1 = none) :
    (rows.map fun row => (⟨row.1, .key row.2.1, row.2.2⟩ : Row σ)).foldl Builder.row b =
      { b with
        table := rows.foldl (fun table row => table.insert row.1 row.2.1 row.2.2) b.table } := by
  induction rows generalizing b with
  | nil => rfl
  | cons row rest ih =>
    obtain ⟨source, key, leads⟩ := row
    rw [List.map_cons, List.nodup_cons] at hnodup
    have hhandles : b.table.handles source key = false := by
      rw [Table.handles, hfresh _ List.mem_cons_self]
      rfl
    -- Nothing is filed where the row goes, so that no issue is noted.
    have hrow : b.row ⟨source, .key key, leads⟩ =
        { b with table := b.table.insert source key leads } := by
      show b.entry source key leads = _
      rw [Builder.entry, hhandles]
      rfl
    rw [List.map_cons, List.foldl_cons, hrow, ih hnodup.2]
    · rfl
    · intro row hrow
      have hne : (row.1, row.2.1) ≠ (source, key) := fun heq =>
        hnodup.1 (List.mem_map.2 ⟨row, hrow, heq⟩)
      rw [Table.get?_insert, if_neg hne]
      exact hfresh row (List.mem_cons_of_mem _ hrow)

/-- **`tableFault?` is `none`** if the targets are known, and the sources too where `lookup` is
`.exact`. -/
theorem Builder.tableFault?_eq_none {factory : Factory σ} {table : Table σ} {lookup : Lookup}
    (hsource : ∀ state event spec, table.get? state event = some spec → lookup = .exact →
      factory.contains state = true)
    (htarget : ∀ state event spec, table.get? state event = some spec →
      ∀ target, spec.staticTarget = some target → factory.contains target = true) :
    Builder.tableFault? factory table lookup = none := by
  rw [Builder.tableFault?, List.findSome?_eq_none_iff]
  intro state hstate
  rw [List.mem_mergeSort] at hstate
  obtain ⟨event, spec, hget⟩ := Table.exists_of_mem_states hstate
  -- A state of the table is at fault for an unknown target, or for being unknown itself.
  rw [Builder.sourceFault?, if_neg, Builder.unknownTarget?, List.findSome?_eq_none_iff]
  · rintro ⟨event, spec⟩ hmem
    have hanswer := Table.mem_events_iff.1 hmem
    cases hstatic : spec.staticTarget with
    | none => simp [hstatic]
    | some target => simp [hstatic, htarget state event spec hanswer target hstatic]
  · rintro ⟨hlookup, -, hunknown⟩
    rw [hsource state event spec hget hlookup] at hunknown
    cases hunknown

/-! ## Factories -/

/-- `item` is a `.made` one. -/
def FactoryItem.IsMade (item : FactoryItem σ) : Prop :=
  ∃ key isFinal build, item = .made key isFinal build

/-- Nothing is made beforehand for `items`. -/
def nothingMade (items : List (FactoryItem σ)) : List (Option State) :=
  items.map fun _ => none

section Factory

variable {items : List (FactoryItem (StatePlan ρ))} {key : String} {params : Params}

/-- The look-up after filing `items` that are made each time. -/
theorem Factory.find?_foldl_file (hmade : ∀ item ∈ items, item.IsMade)
    (factory : Factory (StatePlan ρ)) :
    ((items.zip (nothingMade items)).foldl
      (fun factory (item, made) => factory.file item made) factory).find? key =
        match items.findRev? (·.key == key) with
        | some (.made _ isFinal build) => some (.made build isFinal)
        | _ => factory.find? key := by
  induction items generalizing factory with
  | nil => rfl
  | cons item rest ih =>
    obtain ⟨own, isFinal, build, rfl⟩ := hmade item List.mem_cons_self
    have hrest := fun item hitem => hmade item (List.mem_cons_of_mem _ hitem)
    rw [nothingMade, List.map_cons, List.zip_cons_cons, List.foldl_cons]
    rw [← nothingMade, ih hrest, List.findRev?]
    -- Entries are filed in order, so a later one of the key has the last word.
    cases hfound : rest.findRev? (·.key == key) with
    | some found =>
      have hmem : found ∈ rest := by
        rw [List.findRev?_eq_find?_reverse] at hfound
        exact List.mem_reverse.1 (List.mem_of_find?_eq_some hfound)
      obtain ⟨_, _, _, rfl⟩ := hrest found hmem
      rfl
    | none =>
      simp only [Factory.file, Factory.find?_register]
      by_cases hkey : own = key
      · simp [FactoryItem.key, hkey]
      · simp [FactoryItem.key, hkey, Ne.symm hkey]

/-- **`Factory.ofItems` makes `createFrom?` of the items.** -/
theorem Factory.create_ofItems (hmade : ∀ item ∈ items, item.IsMade) :
    (Factory.ofItems items (nothingMade items)).create key params =
      Definition.createFrom? items key params := by
  rw [Factory.create, Factory.ofItems, Factory.find?_foldl_file hmade, Definition.createFrom?]
  cases hfound : items.findRev? (·.key == key) with
  | none => rfl
  | some found =>
    cases found with
    | made _ _ build => rfl
    | unit _ _ _ => rfl

/-- `Factory.ofItems` contains the keys of the items. -/
theorem Factory.contains_ofItems (hmade : ∀ item ∈ items, item.IsMade)
    {item : FactoryItem (StatePlan ρ)} (hitem : item ∈ items) :
    (Factory.ofItems items (nothingMade items)).contains item.key = true := by
  have hfind : (Factory.ofItems items (nothingMade items)).contains item.key =
      ((Factory.ofItems items (nothingMade items)).find? item.key).isSome := rfl
  rw [hfind, Factory.ofItems, Factory.find?_foldl_file hmade]
  cases hfound : items.findRev? (·.key == item.key) with
  | none =>
    rw [List.findRev?_eq_find?_reverse, List.find?_eq_none] at hfound
    have hne := hfound item (List.mem_reverse.2 hitem)
    simp at hne
  | some found =>
    rw [List.findRev?_eq_find?_reverse] at hfound
    obtain ⟨_, _, _, rfl⟩ := hmade found (List.mem_reverse.1 (List.mem_of_find?_eq_some hfound))
    rfl

end Factory

/-! ## Following a plan -/

section Realise

variable {items : List (FactoryItem (StatePlan ρ))} {key : String}

/-- `realiseItems` does nothing for items that are made each time. -/
theorem realiseItems_eq (host : Host ρ γ) (hmade : ∀ item ∈ items, item.IsMade) :
    realiseItems host items = (pure (nothingMade items) : Act ρ γ (List (Option State))) := by
  induction items with
  | nil => rw [realiseItems]; rfl
  | cons item rest ih =>
    obtain ⟨_, _, _, rfl⟩ := hmade item List.mem_cons_self
    rw [realiseItems, realiseItem, pure_bind,
      ih fun item hitem => hmade item (List.mem_cons_of_mem _ hitem), pure_bind]
    rfl

/-- An item that is made each time is filed under its key. -/
theorem any_isFiled_nothingMade (hmade : ∀ item ∈ items, item.IsMade) :
    ((items.zip (nothingMade items)).any fun (item, made) => item.isFiled key made) =
      (items.findRev? (·.key == key)).isSome := by
  induction items with
  | nil => rfl
  | cons item rest ih =>
    obtain ⟨own, isFinal, build, rfl⟩ := hmade item List.mem_cons_self
    rw [nothingMade, List.map_cons, List.zip_cons_cons, List.any_cons, ← nothingMade,
      ih fun item hitem => hmade item (List.mem_cons_of_mem _ hitem), List.findRev?]
    cases rest.findRev? (·.key == key) with
    | some found => simp
    | none =>
      by_cases hkey : own = key
      · simp [FactoryItem.isFiled, FactoryItem.key, hkey]
      · simp [FactoryItem.isFiled, FactoryItem.key, hkey]

/-- `realiseKey` is `realiseInitial` of `createFrom?`. -/
theorem realiseKey_eq (host : Host ρ γ) (hmade : ∀ item ∈ items, item.IsMade) :
    realiseKey host key items (nothingMade items) =
      realiseInitial host (Definition.createFrom? items key []) := by
  induction items with
  | nil => rfl
  | cons item rest ih =>
    obtain ⟨own, isFinal, build, rfl⟩ := hmade item List.mem_cons_self
    have hrest := fun item hitem => hmade item (List.mem_cons_of_mem _ hitem)
    have hnothing : nothingMade (.made own isFinal build :: rest) = none :: nothingMade rest := rfl
    rw [hnothing, realiseKey, any_isFiled_nothingMade hrest, Definition.createFrom?,
      List.findRev?]
    -- A later entry comes first.
    rw [ih hrest, Definition.createFrom?]
    cases rest.findRev? (·.key == key) with
    | some found => rfl
    | none =>
      by_cases hkey : own = key
      · simp [FactoryItem.isFiled, FactoryItem.key, hkey, realiseEntry]
      · simp [FactoryItem.isFiled, FactoryItem.key, hkey, realiseInitial]

/-- Put a machine without subscribers into the world under a new identity. -/
def Act.found (parts : Assembly (StatePlan ρ) State) : Act ρ γ (Except StartError Link) := do
  let link ← Act.allocate (.machine (Machine.start (← Act.mint) parts))
  return .ok link

/-- **`MachinePlan.realise` of items that are made each time and different rows** is
`realiseInitial` and then `Act.found`. -/
theorem MachinePlan.realise_eq (host : Host ρ γ) {config : MachineConfig}
    {rows : List (String × EventKey × Spec (StatePlan ρ))}
    (hmade : ∀ item ∈ items, item.IsMade)
    (hnodup : (rows.map fun row => (row.1, row.2.1)).Nodup)
    (hfault : Builder.tableFault? (Factory.ofItems items (nothingMade items)) (Table.ofRows rows)
      config.lookup = none) :
    MachinePlan.realise host
        ⟨.ok config, items, rows.map fun row => ⟨row.1, .key row.2.1, row.2.2⟩, some key, none, [],
          none⟩ = (do
      match ← realiseInitial host (Definition.createFrom? items key []) with
      | none => return .error (.build (.unknownInitialState key))
      | some initial =>
        Act.found ⟨initial, .ofItems items (nothingMade items), .ofRows rows, config⟩ :
      Act ρ γ (Except StartError Link)) := by
  -- What the builder has collected is known before anything is made.
  have hbuilder : MachinePlan.builder config (Factory.ofItems items (nothingMade items))
      (rows.map fun row => ⟨row.1, .key row.2.1, row.2.2⟩) (some key) none =
        { initial? := some (.key key), factory := Factory.ofItems items (nothingMade items),
          table := Table.ofRows rows, config } := by
    rw [MachinePlan.builder, Builder.foldl_row hnodup fun _ _ => rfl]
    rfl
  rw [MachinePlan.realise]
  simp only []
  rw [realiseItems_eq host hmade, pure_bind, realiseInitial, pure_bind, hbuilder]
  simp only [Builder.build, realiseKey_eq host hmade, bind_assoc]
  congr 1
  funext state?
  cases state? with
  | none => rfl
  | some state =>
    simp only [Builder.finish, hfault, pure_bind]
    rfl

end Realise

end Statechart
