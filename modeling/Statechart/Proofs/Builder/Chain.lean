import Statechart.Proofs.Builder.Faults

/-! # Chains of builder calls

A builder is put together call by call. Settings count as they were given last, rows pile up, and
what is wrong with a row is noted when the row is added; the initial state and the table are only
looked at in the end. So the outcome can be read off the list of calls.

* `Builder.Part`: a call; `Builder.chain`: the builder after some calls.
* `Builder.rowsOf`, `Builder.factoryOf`, `Builder.configOf`, `Builder.startState?`: what the calls
  have given.
* `Builder.Part.IsIssue`, `Builder.IsFirstIssue`: what is wrong with a call, and what was wrong
  first.
* `Builder.IsWellFormed`, `Builder.IsRefusal`: which calls give a machine, and why others do not.
* **`Builder.assemble_chain`**: the outcome of every chain of calls. -/

namespace Statechart

variable {σ τ : Type}

namespace Builder

/-! ## Calls -/

/-- **A call that adds a part to a builder.** -/
inductive Part (σ τ : Type) where
  | config (config : MachineConfig)
  | factory (factory : Factory σ)
  | on (state event : String) (spec : Spec σ)
  | onChildExit (state : String) (spec : Spec σ)
  | entry (state : String) (event : EventKey) (spec : Spec σ)
  | initial (state : τ)
  | initialKey (key : String)

/-- Carry out a call at `b`. -/
def add (b : Builder σ τ) : Part σ τ → Builder σ τ
  | .config config => { b with config }
  | .factory factory => { b with factory }
  | .on state event spec => b.on state event spec
  | .onChildExit state spec => b.onChildExit state spec
  | .entry state event spec => b.entry state event spec
  | .initial state => b.initial state
  | .initialKey key => b.initialKey key

/-- **The builder after `parts`**, starting from `{}`. -/
def chain (parts : List (Part σ τ)) : Builder σ τ := parts.foldl add {}

variable {part : Part σ τ} {parts before : List (Part σ τ)} {error : BuildError}

theorem chain_concat : chain (parts ++ [part]) = (chain parts).add part := by
  rw [chain, List.foldl_append, List.foldl_cons, List.foldl_nil, chain]

/-! ## What calls give -/

/-- The row that a call adds. `on` with a reserved name adds none. -/
def Part.row? : Part σ τ → Option (String × EventKey × Spec σ)
  | .on state event spec => if isReservedName event then none else some (state, .domain event, spec)
  | .onChildExit state spec => some (state, .childExit, spec)
  | .entry state event spec => some (state, event, spec)
  | _ => none

/-- What a call of `factory` gives. -/
def Part.factory? : Part σ τ → Option (Factory σ)
  | .factory given => some given
  | _ => none

/-- What a call of `config` gives. -/
def Part.config? : Part σ τ → Option MachineConfig
  | .config given => some given
  | _ => none

/-- What a call of `initial` or `initialKey` gives. -/
def Part.initial? : Part σ τ → Option (Initial τ)
  | .initial state => some (.state state)
  | .initialKey key => some (.key key)
  | _ => none

/-- **The rows of `parts`**, in their order. -/
def rowsOf (parts : List (Part σ τ)) : List (String × EventKey × Spec σ) :=
  parts.filterMap Part.row?

/-- The states and events of `rowsOf parts`. -/
def keysOf (parts : List (Part σ τ)) : List (String × EventKey) :=
  (rowsOf parts).map fun row => (row.1, row.2.1)

/-- What the last of `parts` gives that gives something. -/
def lastOf {α : Type} (given? : Part σ τ → Option α) (parts : List (Part σ τ)) : Option α :=
  (parts.filterMap given?).getLast?

/-- The factory that `parts` give last, or `Factory.empty`. -/
def factoryOf (parts : List (Part σ τ)) : Factory σ := (lastOf Part.factory? parts).getD .empty

/-- The settings that `parts` give last, or `{}`. -/
def configOf (parts : List (Part σ τ)) : MachineConfig := (lastOf Part.config? parts).getD {}

/-- The initial state that `parts` give last, itself or by its key. -/
def startOf? (parts : List (Part σ τ)) : Option (Initial τ) := lastOf Part.initial? parts

/-- **The initial state of `parts`**: the one that is given, or the one that `factoryOf parts` makes
of the key, without parameters. -/
def startState? (parts : List (Part σ σ)) : Option σ :=
  match startOf? parts with
  | some (.state state) => some state
  | some (.key key) => (factoryOf parts).create key []
  | none => none

/-! ## What is wrong with calls -/

/-- **What is wrong with a call after the calls `before`**: the name of an event is reserved, or a
state answers an event twice. -/
inductive Part.IsIssue (before : List (Part σ τ)) : Part σ τ → BuildError → Prop
  | reserved {state event : String} {spec : Spec σ} (hname : isReservedName event = true) :
    IsIssue before (.on state event spec) (.reservedEventName event)
  | duplicate {part : Part σ τ} {state : String} {event : EventKey} {spec : Spec σ}
    (hrow : part.row? = some (state, event, spec)) (hfiled : (state, event) ∈ keysOf before) :
    IsIssue before part (.duplicateTransition state event.name)

/-- Nothing is wrong with any of `parts` (`Part.IsIssue`). -/
def IsClean (parts : List (Part σ τ)) : Prop :=
  ∀ before part after, parts = before ++ part :: after → ∀ error, ¬ part.IsIssue before error

/-- **`error` is what was wrong first** with `parts`. -/
def IsFirstIssue (parts : List (Part σ τ)) (error : BuildError) : Prop :=
  ∃ before part after, parts = before ++ part :: after ∧ IsClean before ∧
    part.IsIssue before error

/-- **`parts` are well-formed**: no name is reserved and no row comes twice, there is an initial
state, the factory knows every target, and the sources too if the lookup is `.exact`. -/
structure IsWellFormed (parts : List (Part σ σ)) : Prop where
  free : ∀ state event spec, .on state event spec ∈ parts → isReservedName event = false
  distinct : (keysOf parts).Nodup
  start : (startState? parts).isSome = true
  target : ∀ state event spec, (state, event, spec) ∈ rowsOf parts →
    ∀ target guards, spec = (Spec.target target).behind guards → target ∈ (factoryOf parts).keys
  source : (configOf parts).lookup = .exact → (factoryOf parts).keys ≠ [] →
    ∀ state event spec, (state, event, spec) ∈ rowsOf parts → state ∈ (factoryOf parts).keys

/-- **Why `parts` give no machine**: what was wrong first, or else that there is no initial state,
or else what the least source at fault can be blamed for (`IsBlamed`). -/
inductive IsRefusal (parts : List (Part σ σ)) : BuildError → Prop
  | issue {error : BuildError} (hfirst : IsFirstIssue parts error) : IsRefusal parts error
  | missing (hclean : IsClean parts) (hstart : startOf? parts = none) :
    IsRefusal parts .missingInitialState
  | unknown {key : String} (hclean : IsClean parts) (hstart : startOf? parts = some (.key key))
    (hcreate : (factoryOf parts).create key [] = none) : IsRefusal parts (.unknownInitialState key)
  | table {error : BuildError} (hclean : IsClean parts) (hstart : (startState? parts).isSome = true)
    (hblamed : IsBlamed (factoryOf parts) (.ofRows (rowsOf parts)) (configOf parts).lookup error) :
    IsRefusal parts error

/-! ## The builder after some calls -/

theorem lastOf_concat {α : Type} (given? : Part σ τ → Option α) :
    lastOf given? (parts ++ [part]) = (given? part).or (lastOf given? parts) := by
  rw [lastOf, List.filterMap_append]
  cases hgiven : given? part with
  | none => rw [List.filterMap_cons_none hgiven, List.filterMap_nil, List.append_nil]; rfl
  | some a => rw [List.filterMap_cons_some hgiven, List.filterMap_nil, List.getLast?_concat]; rfl

/-- **`setting (chain parts)` is what `lastOf given? parts` gives.** -/
theorem setting_chain {α : Type} (setting : Builder σ τ → α) (given? : Part σ τ → Option α)
    (hadd : ∀ (b : Builder σ τ) part, setting (b.add part) = (given? part).getD (setting b))
    (parts : List (Part σ τ)) :
    setting (chain parts) = (lastOf given? parts).getD (setting {}) := by
  induction parts using List.reverseRecOn with
  | nil => rfl
  | append_singleton parts part ih =>
    rw [chain_concat, hadd, lastOf_concat, ih]
    cases given? part <;> rfl

/-- The reserved name of a call of `on`, if it has one. -/
def Part.reserved? : Part σ τ → Option String
  | .on _ event _ => if isReservedName event then some event else none
  | _ => none

/-- What is wrong with a call, given the table of the calls before. -/
def Part.issue? (table : Table σ) (part : Part σ τ) : Option BuildError :=
  (part.reserved?.map .reservedEventName).or <| part.row?.bind fun row =>
    if table.handles row.1 row.2.1 then some (.duplicateTransition row.1 row.2.1.name) else none

/-- `Table.insert` of a row. -/
def file (table : Table σ) (row : String × EventKey × Spec σ) : Table σ :=
  table.insert row.1 row.2.1 row.2.2

/-- `Builder.entry` inserts a row and notes its issue. -/
theorem entry_eq (b : Builder σ τ) (state : String) (event : EventKey) (spec : Spec σ) :
    b.entry state event spec =
      { b with
        table := b.table.insert state event spec
        issues := b.issues ++
          ((Part.entry state event spec : Part σ τ).issue? b.table).toList } := by
  have hissue : (Part.entry state event spec : Part σ τ).issue? b.table =
      if b.table.handles state event then some (.duplicateTransition state event.name)
      else none := rfl
  rw [entry, hissue]
  split <;> simp

/-- **The fields of `b.add part`.** -/
theorem add_eq (b : Builder σ τ) (part : Part σ τ) :
    b.add part =
      { initial? := part.initial?.or b.initial?
        factory := part.factory?.getD b.factory
        table := part.row?.elim b.table (file b.table)
        config := part.config?.getD b.config
        issues := b.issues ++ (part.issue? b.table).toList } := by
  cases part with
  | on state event spec =>
    cases hname : isReservedName event with
    | true =>
      rw [add, on, if_pos hname]
      simp [Part.initial?, Part.factory?, Part.config?, Part.row?, Part.issue?, Part.reserved?,
        hname]
    | false =>
      rw [add, on, if_neg (by simp [hname]), entry_eq]
      simp [Part.initial?, Part.factory?, Part.config?, Part.row?, Part.issue?, Part.reserved?,
        hname, file]
  | onChildExit state spec =>
    rw [add, onChildExit, entry_eq]
    rfl
  | entry state event spec =>
    rw [add, entry_eq]
    rfl
  -- The other calls add no row.
  | config given => exact congrArg (Builder.mk _ _ _ _) (List.append_nil _).symm
  | factory given => exact congrArg (Builder.mk _ _ _ _) (List.append_nil _).symm
  | initial state => exact congrArg (Builder.mk _ _ _ _) (List.append_nil _).symm
  | initialKey key => exact congrArg (Builder.mk _ _ _ _) (List.append_nil _).symm

theorem factory_chain (parts : List (Part σ τ)) : (chain parts).factory = factoryOf parts :=
  setting_chain Builder.factory Part.factory? (fun b part => by rw [add_eq]) parts

theorem config_chain (parts : List (Part σ τ)) : (chain parts).config = configOf parts :=
  setting_chain Builder.config Part.config? (fun b part => by rw [add_eq]) parts

theorem initial?_chain (parts : List (Part σ τ)) : (chain parts).initial? = startOf? parts := by
  induction parts using List.reverseRecOn with
  | nil => rfl
  | append_singleton parts part ih =>
    rw [chain_concat, add_eq, ih, startOf?, startOf?, lastOf_concat]

theorem rowsOf_concat : rowsOf (parts ++ [part]) = rowsOf parts ++ part.row?.toList := by
  rw [rowsOf, List.filterMap_append]
  cases hrow : part.row? with
  | none => rw [List.filterMap_cons_none hrow]; rfl
  | some row => rw [List.filterMap_cons_some hrow]; rfl

/-- **`(chain parts).table` is `Table.ofRows (rowsOf parts)`.** -/
theorem table_chain (parts : List (Part σ τ)) :
    (chain parts).table = Table.ofRows (rowsOf parts) := by
  induction parts using List.reverseRecOn with
  | nil => rfl
  | append_singleton parts part ih =>
    rw [chain_concat, add_eq, ih, rowsOf_concat, Table.ofRows, Table.ofRows, List.foldl_append]
    cases part.row? <;> rfl

/-! ## Issues -/

/-- `Table.ofRows` handles what some of `rows` is filed under. -/
theorem handles_ofRows_iff {rows : List (String × EventKey × Spec σ)} {state : String}
    {event : EventKey} : (Table.ofRows rows).handles state event = true ↔
      (state, event) ∈ rows.map fun row => (row.1, row.2.1) := by
  induction rows using List.reverseRecOn with
  | nil => simp [Table.ofRows, Table.handles, Table.empty, Table.get?]
  | append_singleton rows row ih =>
    have hrows : Table.ofRows (rows ++ [row]) = file (Table.ofRows rows) row := by
      rw [Table.ofRows, List.foldl_append]
      rfl
    rw [hrows, file, Table.handles, Table.get?_insert, List.map_append, List.mem_append, ← ih]
    by_cases hself : (state, event) = (row.1, row.2.1)
    · simp [hself]
    · rw [if_neg hself, List.map_cons, List.map_nil, List.mem_singleton]
      exact (or_iff_left hself).symm

/-- `Part.reserved?` is the name of a call of `on`. -/
theorem reserved?_eq_some_iff {event : String} :
    part.reserved? = some event ↔
      ∃ state spec, part = .on state event spec ∧ isReservedName event = true := by
  constructor
  · intro h
    cases part with
    | on state own spec =>
      rw [Part.reserved?, Option.ite_none_right_eq_some, Option.some.injEq] at h
      obtain ⟨hname, rfl⟩ := h
      exact ⟨state, spec, rfl, hname⟩
    | _ => cases h
  · rintro ⟨state, spec, rfl, hname⟩
    exact if_pos hname

/-- `Part.reserved?` is `none` for a call that adds a row. -/
theorem reserved?_eq_none_of_row? {row : String × EventKey × Spec σ} (h : part.row? = some row) :
    part.reserved? = none := by
  rw [Option.eq_none_iff_forall_ne_some]
  intro event hreserved
  obtain ⟨state, spec, rfl, hname⟩ := reserved?_eq_some_iff.1 hreserved
  rw [Part.row?, if_pos hname] at h
  cases h

/-- **`Part.issue?` is `Part.IsIssue`.** -/
theorem issue?_eq_some_iff :
    part.issue? (Table.ofRows (rowsOf before)) = some error ↔ part.IsIssue before error := by
  rw [Part.issue?, Option.or_eq_some_iff, Option.map_eq_some_iff]
  constructor
  · -- A reserved name is noted before anything is compared with the rows that are there.
    rintro (⟨event, hreserved, rfl⟩ | ⟨-, hnoted⟩)
    · obtain ⟨state, spec, rfl, hname⟩ := reserved?_eq_some_iff.1 hreserved
      exact .reserved hname
    · obtain ⟨⟨state, event, spec⟩, hrow, hfiled⟩ := Option.bind_eq_some_iff.1 hnoted
      rw [Option.ite_none_right_eq_some, Option.some.injEq] at hfiled
      obtain ⟨hfiled, rfl⟩ := hfiled
      exact .duplicate hrow (handles_ofRows_iff.1 hfiled)
  · intro h
    cases h with
    | reserved hname => exact .inl ⟨_, reserved?_eq_some_iff.2 ⟨_, _, rfl, hname⟩, rfl⟩
    | duplicate hrow hfiled =>
      refine .inr ⟨by rw [reserved?_eq_none_of_row? hrow]; rfl, ?_⟩
      rw [hrow, Option.bind_some, if_pos (handles_ofRows_iff.2 hfiled)]

theorem issues_concat :
    (chain (parts ++ [part])).issues =
      (chain parts).issues ++ (part.issue? (Table.ofRows (rowsOf parts))).toList := by
  rw [chain_concat, add_eq, table_chain]

/-- `IsClean` of `parts ++ [part]`. -/
theorem isClean_concat :
    IsClean (parts ++ [part]) ↔ IsClean parts ∧ ∀ error, ¬ part.IsIssue parts error := by
  constructor
  · intro h
    refine ⟨fun before own after hsplit => h before own (after ++ [part]) ?_, h parts part [] rfl⟩
    rw [hsplit, List.append_assoc, List.cons_append]
  · rintro ⟨hclean, hlast⟩ before own after hsplit
    rcases List.eq_nil_or_concat after with rfl | ⟨after, last, rfl⟩
    · obtain ⟨rfl, hpart⟩ := List.append_inj' hsplit rfl
      cases hpart
      exact hlast
    · rw [List.concat_eq_append, ← List.cons_append, ← List.append_assoc] at hsplit
      exact hclean before own after (List.append_inj' hsplit rfl).1

/-- **`(chain parts).issues` is empty exactly if `IsClean parts`.** -/
theorem issues_chain_eq_nil_iff : (chain parts).issues = [] ↔ IsClean parts := by
  induction parts using List.reverseRecOn with
  | nil =>
    refine ⟨fun _ before part after hsplit => ?_, fun _ => rfl⟩
    exact absurd hsplit (by simp)
  | append_singleton parts part ih =>
    rw [issues_concat, isClean_concat, List.append_eq_nil_iff, ih, Option.toList_eq_nil_iff,
      Option.eq_none_iff_forall_ne_some]
    simp only [ne_eq, issue?_eq_some_iff]

/-- **The first of `(chain parts).issues` is `IsFirstIssue`.** -/
theorem isFirstIssue_of_issues {issues : List BuildError}
    (h : (chain parts).issues = error :: issues) : IsFirstIssue parts error := by
  induction parts using List.reverseRecOn generalizing issues with
  | nil => cases h
  | append_singleton parts part ih =>
    rw [issues_concat] at h
    cases hissues : (chain parts).issues with
    | nil =>
      -- Nothing was wrong before, so the issue is that of the last call.
      have hissue : part.issue? (Table.ofRows (rowsOf parts)) = some error := by
        rw [hissues, List.nil_append] at h
        exact Option.mem_toList.1 (h ▸ List.mem_cons_self)
      exact ⟨parts, part, [], rfl, issues_chain_eq_nil_iff.1 hissues, issue?_eq_some_iff.1 hissue⟩
    | cons first rest =>
      rw [hissues, List.cons_append, List.cons.injEq] at h
      obtain ⟨before, own, after, hsplit, hclean, hissue⟩ := ih (h.1 ▸ hissues)
      refine ⟨before, own, after ++ [part], ?_, hclean, hissue⟩
      rw [hsplit, List.append_assoc, List.cons_append]

theorem keysOf_concat :
    keysOf (parts ++ [part]) =
      keysOf parts ++ (part.row?.map fun row => (row.1, row.2.1)).toList := by
  rw [keysOf, keysOf, rowsOf_concat, List.map_append, Option.toList_map]

/-- **`IsClean parts` exactly if no name is reserved and no row comes twice.** -/
theorem isClean_iff :
    IsClean parts ↔
      (∀ state event spec, .on state event spec ∈ parts → isReservedName event = false) ∧
        (keysOf parts).Nodup := by
  -- By induction from the last call, which is held against the rows of those before it.
  induction parts using List.reverseRecOn with
  | nil => simp [IsClean, keysOf, rowsOf]
  | append_singleton parts part ih =>
    rw [isClean_concat, ih, keysOf_concat, List.nodup_append]
    constructor
    · rintro ⟨⟨hfree, hdistinct⟩, hlast⟩
      refine ⟨fun state event spec hmem => ?_, hdistinct, by cases part.row? <;> simp, ?_⟩
      · rcases List.mem_append.1 hmem with hbefore | hself
        · exact hfree state event spec hbefore
        · obtain rfl := List.mem_singleton.1 hself
          exact Bool.eq_false_iff.2 fun hname => hlast _ (.reserved hname)
      · rintro key hkey _ hnew rfl
        obtain ⟨⟨state, event, spec⟩, hrow, rfl⟩ :=
          Option.map_eq_some_iff.1 (Option.mem_toList.1 hnew)
        exact hlast _ (.duplicate hrow hkey)
    · rintro ⟨hfree, hdistinct, -, hnew⟩
      refine ⟨⟨fun state event spec hmem => hfree state event spec (List.mem_append_left _ hmem),
        hdistinct⟩, fun error hissue => ?_⟩
      cases hissue with
      | reserved hname =>
        rw [hfree _ _ _ (List.mem_append_right _ (List.mem_singleton_self _))] at hname
        cases hname
      | duplicate hrow hfiled =>
        exact hnew _ hfiled _ (Option.mem_toList.2 (Option.map_eq_some_iff.2 ⟨_, hrow, rfl⟩)) rfl

/-! ## The outcome -/

section Results

variable {α β ε : Type} {f : α → β} {result : Except ε α}

/-- `result.map f` is `.ok` exactly if `result` is. -/
theorem map_eq_ok_iff {b : β} : result.map f = .ok b ↔ ∃ a, result = .ok a ∧ f a = b := by
  cases result <;> simp [Except.map]

/-- `result.map f` is `.error` exactly if `result` is. -/
theorem map_eq_error_iff {error : ε} : result.map f = .error error ↔ result = .error error := by
  cases result <;> simp [Except.map]

end Results

/-- **`tableFault?` of `rows` is `none` exactly if the factory knows the targets, and the sources
where `lookup` is `.exact`.** -/
theorem tableFault?_ofRows_eq_none_iff {factory : Factory σ} {lookup : Lookup}
    {rows : List (String × EventKey × Spec σ)}
    (hnodup : (rows.map fun row => (row.1, row.2.1)).Nodup) :
    tableFault? factory (.ofRows rows) lookup = none ↔
      (∀ state event spec, (state, event, spec) ∈ rows →
        ∀ target guards, spec = (Spec.target target).behind guards → target ∈ factory.keys) ∧
      (lookup = .exact → factory.keys ≠ [] →
        ∀ state event spec, (state, event, spec) ∈ rows → state ∈ factory.keys) := by
  rw [tableFault?_eq, faultIn_eq_none_iff]
  simp only [← Table.get?_ofRows hnodup]
  -- No key comes twice, so that the table has exactly the rows that were added.
  constructor
  · intro hright
    -- A fault of a source hides those of its targets, so that sources come first.
    have hsource (state event spec) (hrow : (Table.ofRows rows).get? state event = some spec) :
        ¬ IsStray factory lookup state := fun hstray => hright state _ (.source hrow hstray)
    refine ⟨fun state event spec hrow target guards hspec => ?_,
      fun hlookup hkeys state event spec hrow => ?_⟩
    · by_contra hunknown
      exact hright state _ (.target hrow (hsource state event spec hrow)
        (Spec.staticTarget_eq_some_iff.2 ⟨guards, hspec⟩) hunknown)
    · by_contra hunknown
      exact hsource state event spec hrow ⟨hlookup, hkeys, hunknown⟩
  · rintro ⟨htarget, hsource⟩ state fault hfault
    cases hfault with
    | source hrow hstray => exact hstray.2.2 (hsource hstray.1 hstray.2.1 _ _ _ hrow)
    | target hrow hstray hstatic hunknown =>
      obtain ⟨guards, hspec⟩ := Spec.staticTarget_eq_some_iff.1 hstatic
      exact hunknown (htarget _ _ _ hrow _ guards hspec)

section Assemble

variable {parts : List (Part σ σ)} {assembly : Assembly σ σ} {start : σ}

/-- `assemble` is the first of `(chain parts).issues`, if there is one. -/
theorem assemble_of_issues {issues : List BuildError}
    (h : (chain parts).issues = error :: issues) : (chain parts).assemble = .error error := by
  rw [assemble, build, h]
  rfl

/-- `assemble` of clean `parts` is `finish` of the initial state, if there is one. -/
theorem assemble_of_isClean (h : IsClean parts) :
    (chain parts).assemble =
      match startOf? parts with
      | none => .error .missingInitialState
      | some (.state state) => (chain parts).finish state
      | some (.key key) =>
        match (factoryOf parts).create key [] with
        | some state => (chain parts).finish state
        | none => .error (.unknownInitialState key) := by
  rw [assemble, build, issues_chain_eq_nil_iff.2 h, initial?_chain, factory_chain]
  cases startOf? parts with
  | none => rfl
  | some initial =>
    cases initial with
    | state state => rfl
    | key key => cases (factoryOf parts).create key [] <;> rfl

/-- `finish` is `.ok` exactly if `tableFault?` is `none`. -/
theorem finish_eq_ok_iff :
    (chain parts).finish start = .ok assembly ↔
      tableFault? (factoryOf parts) (.ofRows (rowsOf parts)) (configOf parts).lookup = none ∧
        assembly = ⟨start, factoryOf parts, .ofRows (rowsOf parts), configOf parts⟩ := by
  rw [finish, factory_chain, table_chain, config_chain]
  split
  next fault hfault => simp [hfault]
  next hnone => simp [hnone, eq_comm]

/-- `finish` is the error of `tableFault?`. -/
theorem finish_eq_error_iff :
    (chain parts).finish start = .error error ↔
      tableFault? (factoryOf parts) (.ofRows (rowsOf parts)) (configOf parts).lookup =
        some error := by
  rw [finish, factory_chain, table_chain, config_chain]
  split
  next fault hfault => simp [hfault]
  next hnone => simp [hnone]

/-- **The cases of `(chain parts).assemble`**: an issue is reported, or there is no initial state,
or `finish` checks the table. -/
theorem assemble_chain_cases (parts : List (Part σ σ)) :
    (¬ IsClean parts ∧ ∃ error, IsFirstIssue parts error ∧
      (chain parts).assemble = .error error) ∨
    (IsClean parts ∧ startState? parts = none ∧
      ∃ error, IsRefusal parts error ∧ (chain parts).assemble = .error error) ∨
    (IsClean parts ∧ ∃ start, startState? parts = some start ∧
      (chain parts).assemble = (chain parts).finish start) := by
  -- The three cases are asked for in this order.
  cases hissues : (chain parts).issues with
  | cons error issues =>
    refine .inl ⟨fun hclean => ?_, error, isFirstIssue_of_issues hissues,
      assemble_of_issues hissues⟩
    rw [issues_chain_eq_nil_iff.2 hclean] at hissues
    cases hissues
  | nil =>
    have hclean := issues_chain_eq_nil_iff.1 hissues
    rw [assemble_of_isClean hclean, startState?]
    cases hstart : startOf? parts with
    | none => exact .inr (.inl ⟨hclean, rfl, _, .missing hclean hstart, rfl⟩)
    | some initial =>
      cases initial with
      | state state => exact .inr (.inr ⟨hclean, state, rfl, rfl⟩)
      | key key =>
        cases hcreate : (factoryOf parts).create key [] with
        | none =>
          exact .inr (.inl ⟨hclean, hcreate, _, .unknown hclean hstart hcreate, by simp [hcreate]⟩)
        | some state => exact .inr (.inr ⟨hclean, state, hcreate, by simp [hcreate]⟩)

/-- The table of `assemble` is that of `rowsOf parts`. -/
theorem table_of_assemble (h : (chain parts).assemble = .ok assembly) :
    assembly.table = .ofRows (rowsOf parts) := by
  obtain ⟨-, error, -, houtcome⟩ | ⟨-, -, error, -, houtcome⟩ | ⟨-, start, -, houtcome⟩ :=
    assemble_chain_cases parts
  · rw [houtcome] at h
    cases h
  · rw [houtcome] at h
    cases h
  · rw [houtcome, finish_eq_ok_iff] at h
    rw [h.2]

/-- **The outcome of every chain of calls.** `(chain parts).assemble` is `.ok` if and only if
`IsWellFormed parts`. The assembly then has the initial state, the factory and the settings that
`parts` give, and its table has exactly the rows `rowsOf parts`. An error is one with
`IsRefusal parts error`: the first issue of a call, or else a missing or unknown initial state, or
else what the least source at fault can be blamed for. -/
theorem assemble_chain (parts : List (Part σ σ)) :
    ((∃ assembly, (chain parts).assemble = .ok assembly) ↔ IsWellFormed parts) ∧
    (∀ assembly, (chain parts).assemble = .ok assembly →
      startState? parts = some assembly.initial ∧ assembly.factory = factoryOf parts ∧
      assembly.config = configOf parts ∧
      ∀ state event spec,
        assembly.table.get? state event = some spec ↔ (state, event, spec) ∈ rowsOf parts) ∧
    ∀ error, (chain parts).assemble = .error error → IsRefusal parts error := by
  obtain ⟨hissue, error, hfirst, houtcome⟩ | ⟨hclean, hnone, error, hrefusal, houtcome⟩ |
    ⟨hclean, start, hstart, houtcome⟩ := assemble_chain_cases parts
  · rw [houtcome]
    refine ⟨⟨?_, fun h => absurd (isClean_iff.2 ⟨h.free, h.distinct⟩) hissue⟩, ?_, ?_⟩
    · -- With an issue there is no machine, and nothing else is looked at.
      rintro ⟨_, ⟨⟩⟩
    · rintro _ ⟨⟩
    · rintro _ ⟨⟩
      exact .issue hfirst
  · rw [houtcome]
    refine ⟨⟨?_, fun h => ?_⟩, ?_, ?_⟩
    · rintro ⟨_, ⟨⟩⟩
    · have hsome := h.start
      rw [hnone] at hsome
      cases hsome
    · rintro _ ⟨⟩
    · rintro _ ⟨⟩
      exact hrefusal
  · have hdistinct := (isClean_iff.1 hclean).2
    have hright : tableFault? (factoryOf parts) (.ofRows (rowsOf parts)) (configOf parts).lookup =
        none ↔ _ := tableFault?_ofRows_eq_none_iff hdistinct
    simp only [houtcome, finish_eq_ok_iff, finish_eq_error_iff]
    refine ⟨⟨?_, fun h => ⟨_, hright.2 ⟨h.target, h.source⟩, rfl⟩⟩, ?_, fun error hfault => ?_⟩
    · rintro ⟨_, hnone, -⟩
      obtain ⟨htarget, hsource⟩ := hright.1 hnone
      exact ⟨(isClean_iff.1 hclean).1, hdistinct, by rw [hstart]; rfl, htarget, hsource⟩
    · rintro _ ⟨-, rfl⟩
      exact ⟨hstart, rfl, rfl, fun _ _ _ => Table.get?_ofRows hdistinct⟩
    · exact .table hclean (by rw [hstart]; rfl) (faultIn_isBlamed (tableFault?_eq ▸ hfault))

end Assemble

/-- Calls for `Open`, which serves, and whose exit leads to `Shut`. -/
def tillCalls : List (Part State State) :=
  [.on "Open" "serve" (.target "Open"), .initialKey "Open",
    .onChildExit "Open" (.guarded (.ofState (!·.isFinal)) (.target "Shut")),
    .factory ((Factory.empty.state "Open" fun _ => some { key := "Open" }).state "Shut"
      fun _ => some { key := "Shut" })]

/-- Calls for a row from `Away` to `Nowhere`, which no factory makes. -/
def lostCalls : List (Part State State) :=
  [.entry "Away" .childChange (.target "Nowhere"), .initial { key := "Away" }]

/-- `assemble_chain` for `tillCalls`, which give a machine, and for `lostCalls`, which do not. -/
theorem assemble_till :
    IsWellFormed tillCalls ∧
      IsRefusal lostCalls (.unknownTargetState "Away" "child.change" "Nowhere") := by
  have htill : ((chain tillCalls).assemble).map (fun _ => ()) = .ok () := by decide +kernel
  have hlost : ((chain lostCalls).assemble).map (fun _ => ()) =
      .error (.unknownTargetState "Away" "child.change" "Nowhere") := by decide +kernel
  obtain ⟨assembly, htill, -⟩ := map_eq_ok_iff.1 htill
  exact ⟨(assemble_chain tillCalls).1.1 ⟨assembly, htill⟩,
    (assemble_chain lostCalls).2.2 _ (map_eq_error_iff.1 hlost)⟩

end Builder

end Statechart
