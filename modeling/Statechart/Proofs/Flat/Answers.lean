import Statechart.Flat
import Statechart.Proofs.Definition.Index
import Statechart.Proofs.Definition.Position

/-! # What a flat form says

The flat form of a definition has its leaves under their paths, and under the path of a state the
answers that the state has on its level. An answer leads to the leaf that its target resolves to,
which in a sound definition is the leaf that is entered with the target.

* `Gathers`: results that are gathered from items, if nothing stands against any of them.
* `FlatDefinition.gathers_entriesIn`: the answers of a flat form are those of the levels.
* **`FlatDefinition.Renders`**: a flat form says what an orderly definition says.
* **`FlatDefinition.renders_of_ofDefinition`**: the flat form of a definition does.
* `FlatDefinition.Mirrors`: the definition is moreover sound and has no choices.
* `FlatDefinition.Mirrors.target?_eq`: the answers are then those of the levels. -/

namespace Statechart

/-! ## Gathering results -/

/-- **`results` are gathered from `items` by `f`**: each item gives one of them, and there are no
others. -/
structure Gathers {α β ε : Type} (f : α → Except ε β) (items : α → Prop) (results : List β) :
    Prop where
  all : ∀ x, items x → ∃ y ∈ results, f x = .ok y
  only : ∀ y ∈ results, ∃ x, items x ∧ f x = .ok y

section Gathers

variable {α β ε : Type} {f : α → Except ε β} {items items' : α → Prop} {results results' : List β}

/-- `Gathers` of no items. -/
theorem Gathers.nil (h : ∀ x, ¬ items x) : Gathers f items [] :=
  ⟨fun x hx => absurd hx (h x), fun _ hy => by cases hy⟩

/-- `Gathers` of `results ++ results'`. -/
theorem Gathers.append (h : Gathers f items results) (h' : Gathers f items' results') :
    Gathers f (fun x => items x ∨ items' x) (results ++ results') := by
  constructor
  · rintro x (hx | hx)
    · obtain ⟨y, hy, hfx⟩ := h.all x hx
      exact ⟨y, List.mem_append_left _ hy, hfx⟩
    · obtain ⟨y, hy, hfx⟩ := h'.all x hx
      exact ⟨y, List.mem_append_right _ hy, hfx⟩
  · intro y hy
    rcases List.mem_append.1 hy with hy | hy
    · obtain ⟨x, hx, hfx⟩ := h.only y hy
      exact ⟨x, Or.inl hx, hfx⟩
    · obtain ⟨x, hx, hfx⟩ := h'.only y hy
      exact ⟨x, Or.inr hx, hfx⟩

/-- `Gathers` depends on which `items` there are. -/
theorem Gathers.congr (h : Gathers f items results) (hitems : ∀ x, items x ↔ items' x) :
    Gathers f items' results := by
  constructor
  · intro x hx
    exact h.all x ((hitems x).2 hx)
  · intro y hy
    obtain ⟨x, hx, hfx⟩ := h.only y hy
    exact ⟨x, (hitems x).1 hx, hfx⟩

/-- **`x >>= next` is `.ok` only if both steps are.** -/
theorem exists_of_bind_eq_ok {x : Except ε α} {next : α → Except ε β} {y : β}
    (h : x >>= next = .ok y) : ∃ a, x = .ok a ∧ next a = .ok y := by
  cases x with
  | error e => cases h
  | ok a => exact ⟨a, rfl, h⟩

/-- `xs.mapM f` that is `.ok` is `Gathers`. -/
theorem gathers_mapM {xs : List α} (h : xs.mapM f = .ok results) :
    Gathers f (· ∈ xs) results := by
  induction xs generalizing results with
  | nil =>
    cases h
    exact .nil fun _ => List.not_mem_nil
  | cons x xs ih =>
    rw [List.mapM_cons] at h
    obtain ⟨y, hfx, h⟩ := exists_of_bind_eq_ok h
    obtain ⟨ys, hrest, h⟩ := exists_of_bind_eq_ok h
    cases h
    have hfirst : Gathers f (· = x) [y] :=
      ⟨fun x' hx' => ⟨y, List.mem_singleton_self y, hx' ▸ hfx⟩,
        fun y' hy' => ⟨x, rfl, List.mem_singleton.1 hy' ▸ hfx⟩⟩
    exact (hfirst.append (ih hrest)).congr fun _ => List.mem_cons.symm

end Gathers

/-- `delimiter.intercalate (keys ++ [key])` of a declared `key` determines `keys` and `key`. -/
theorem Definition.Orderly.intercalate_concat_inj {delimiter key key' : String}
    {d level level' : Definition} {keys keys' : List String} (hd : d.Orderly delimiter)
    (hone : delimiter.length = 1) (hlevel : d.level? keys = some level)
    (hkey : level.declares key = true) (hlevel' : d.level? keys' = some level')
    (hkey' : level'.declares key' = true)
    (h : delimiter.intercalate (keys ++ [key]) = delimiter.intercalate (keys' ++ [key'])) :
    keys = keys' ∧ key = key' := by
  obtain ⟨state, hstate⟩ := Option.isSome_iff_exists.1 hkey
  obtain ⟨state', hstate'⟩ := Option.isSome_iff_exists.1 hkey'
  have hdelimits := hd.delimits hone ((at?_concat hlevel).trans hstate)
  have hdelimits' := hd.delimits hone ((at?_concat hlevel').trans hstate')
  exact List.append_singleton_inj.1
    (Path.intercalate_inj hdelimits hdelimits' (by simp) (by simp) h)

namespace FlatDefinition

variable {delimiter : String} {d level inner : Definition} {keys : List String} {key : String}
  {flat : FlatDefinition}

/-! ## Answers -/

/-- The entry of `item.2`, a transition of the level at `item.1`. -/
def answer (index : PathIndex) (item : List String × TransitionDef) :
    Except Problem (Handler × FlatTarget) :=
  entry index (Path.scope? index.delimiter item.1) item.2

/-- `item.2` is a transition of the level at `item.1`, which is inside `state` at `keys`. -/
def Rules (state : StateDef) (keys : List String) (item : List String × TransitionDef) : Prop :=
  ∃ inside level, item.1 = keys ++ inside ∧ state.at? inside = some (.composite level) ∧
    item.2 ∈ level.transitions

/-- `Rules` of a composite are those of its states and its own transitions. -/
theorem rules_composite_iff (h : inner.IsOrderly delimiter) (keys : List String)
    (item : List String × TransitionDef) :
    Rules (.composite inner) keys item ↔
      (∃ entry ∈ inner.states, Rules entry.2 (keys ++ [entry.1]) item) ∨
        item.1 = keys ∧ item.2 ∈ inner.transitions := by
  have hsplit := h.exists_at?_iff (P := fun inside state => ∃ level, item.1 = keys ++ inside ∧
    state = .composite level ∧ item.2 ∈ level.transitions)
  -- A transition inside is one of the level if no keys lead to it, and else one of the first of
  -- them.
  constructor
  · rintro ⟨inside, level, hitem, hat, ht⟩
    rcases hsplit.1 ⟨inside, _, hat, level, hitem, rfl, ht⟩ with
      ⟨level, hitem, heq, ht⟩ | ⟨entry, hentry, inside, _, hat, level, hitem, rfl, ht⟩
    · cases heq
      exact Or.inr ⟨hitem.trans (List.append_nil _), ht⟩
    · exact Or.inl ⟨entry, hentry, inside, level, hitem.trans (List.append_cons _ _ _), hat, ht⟩
  · rintro (⟨entry, hentry, inside, level, hitem, hat, ht⟩ | ⟨hitem, ht⟩)
    · obtain ⟨inside, _, hat, level, hitem, rfl, ht⟩ := hsplit.2 (Or.inr ⟨entry, hentry, inside, _,
        hat, level, hitem.trans (List.append_cons _ _ _).symm, rfl, ht⟩)
      exact ⟨inside, level, hitem, hat, ht⟩
    · exact ⟨[], inner, hitem.trans (List.append_nil _).symm, StateDef.at?_nil _, ht⟩

/-- `entriesOfStates` is `Gathers` if `entriesOfState` is, for each of `states`. -/
theorem gathers_entriesOfStates {index : PathIndex} {states : List (String × StateDef)}
    {entries : List (Handler × FlatTarget)}
    (h : entriesOfStates index (Path.scope? index.delimiter keys) states = .ok entries)
    (inside : ∀ entry ∈ states, ∀ entries,
      entriesOfState index (index.delimiter.intercalate (keys ++ [entry.1])) entry.2 = .ok entries →
      Gathers (answer index) (Rules entry.2 (keys ++ [entry.1])) entries) :
    Gathers (answer index) (fun item => ∃ entry ∈ states, Rules entry.2 (keys ++ [entry.1]) item)
      entries := by
  induction states generalizing entries with
  | nil =>
    rw [entriesOfStates] at h
    cases h
    exact .nil fun _ ⟨_, hentry, _⟩ => List.not_mem_nil hentry
  | cons first rest ih =>
    obtain ⟨key, state⟩ := first
    rw [entriesOfStates, Path.join_scope?] at h
    -- Those inside the first state are put before those inside the rest.
    obtain ⟨own, hfirst, h⟩ := exists_of_bind_eq_ok h
    obtain ⟨others, hrest, h⟩ := exists_of_bind_eq_ok h
    cases h
    have hown := inside (key, state) List.mem_cons_self own hfirst
    have hothers := ih hrest fun entry hentry => inside entry (List.mem_cons_of_mem _ hentry)
    refine (hown.append hothers).congr fun item => ?_
    simp only [List.exists_mem_cons_iff]

/-- `entriesIn` is `Gathers` if `entriesOfState` is, for each of `inner.states`. -/
theorem gathers_entriesIn {index : PathIndex} {entries : List (Handler × FlatTarget)}
    (hinner : inner.IsOrderly delimiter)
    (h : entriesIn index (Path.scope? index.delimiter keys) inner = .ok entries)
    (inside : ∀ entry ∈ inner.states, ∀ entries,
      entriesOfState index (index.delimiter.intercalate (keys ++ [entry.1])) entry.2 = .ok entries →
      Gathers (answer index) (Rules entry.2 (keys ++ [entry.1])) entries) :
    Gathers (answer index) (Rules (.composite inner) keys) entries := by
  have hrules := fun item => (rules_composite_iff hinner keys item).symm
  obtain ⟨states, transitions, initial?, issues⟩ := inner
  rw [entriesIn] at h
  obtain ⟨nested, hstates, h⟩ := exists_of_bind_eq_ok h
  obtain ⟨own, hmap, h⟩ := exists_of_bind_eq_ok h
  cases h
  -- The answers of the level itself are gathered from its transitions, each with the same keys.
  have hown : Gathers (answer index) (fun item => item.1 = keys ∧ item.2 ∈ transitions) own := by
    obtain ⟨hall, honly⟩ := gathers_mapM hmap
    constructor
    · rintro ⟨_, t⟩ ⟨rfl, ht⟩
      exact hall t ht
    · intro y hy
      obtain ⟨t, ht, hty⟩ := honly y hy
      exact ⟨(keys, t), ⟨rfl, ht⟩, hty⟩
  exact ((gathers_entriesOfStates hstates inside).append hown).congr hrules

/-- `entriesOfState` is `Gathers`, by induction on `state`. -/
theorem gathers_entriesOfState {index : PathIndex} (state : StateDef)
    (horderly : ∀ level ∈ state.levels, level.IsOrderly delimiter) :
    ∀ keys entries, keys ≠ [] →
      entriesOfState index (index.delimiter.intercalate keys) state = .ok entries →
      Gathers (answer index) (Rules state keys) entries := by
  induction state using StateDef.inside_induction with
  | leaf l =>
    intro keys entries _ h
    rw [entriesOfState] at h
    cases h
    -- Nothing inside a leaf has rules.
    refine .nil ?_
    rintro item ⟨inside, level, -, hat, -⟩
    cases inside <;> cases hat
  | composite inner ih =>
    intro keys entries hkeys h
    rw [StateDef.levels] at horderly
    rw [entriesOfState, ← Path.scope?_of_ne_nil hkeys] at h
    refine gathers_entriesIn (horderly inner inner.mem_levels_self) h fun entry hentry entries => ?_
    exact ih entry hentry (fun level hlevel =>
      horderly level (Definition.mem_levels_of_state hentry hlevel)) _ entries (by simp)

/-- **`entriesIn` of an orderly definition is `Gathers`** of the transitions of all its levels. -/
theorem gathers_of_entriesIn {index : PathIndex} {entries : List (Handler × FlatTarget)}
    (hd : d.Orderly delimiter) (h : entriesIn index none d = .ok entries) :
    Gathers (answer index) (Rules (.composite d) []) entries := by
  refine gathers_entriesIn (hd d d.mem_levels_self) h fun entry hentry entries => ?_
  exact gathers_entriesOfState entry.2 (fun level hlevel =>
    hd level (Definition.mem_levels_of_state hentry hlevel)) _ entries (by simp)

/-! ## Where answers lead -/

/-- Where a target leads, seen from `scope`. A choice is left open. -/
def leads? (index : PathIndex) (scope : Option String) : Target → Option FlatTarget
  | .key name => (index.resolve scope name).map .path
  | .choose pick => some (.choose scope pick)

/-- `leads?` is `.path path` only of a name that `index.resolve` resolves to `path`. -/
theorem leads?_eq_path_iff {index : PathIndex} {scope : Option String} {target : Target}
    {path : String} : leads? index scope target = some (.path path) ↔
      ∃ name, target = .key name ∧ index.resolve scope name = some path := by
  cases target with
  | choose pick => simp [leads?]
  | key name => simp [leads?]

/-- `answer` files where `leads?` leads under the path of `t.source`. -/
theorem answer_eq_ok_iff {index : PathIndex} {t : TransitionDef} {handler : Handler}
    {target : FlatTarget} :
    answer index (keys, t) = .ok (handler, target) ↔
      handler = ⟨index.delimiter.intercalate (keys ++ [t.source]), t.event⟩ ∧
        leads? index (Path.scope? index.delimiter keys) t.target = some target := by
  rw [answer, entry, Path.join_scope?]
  cases htarget : t.target with
  | choose pick => simp [leads?, eq_comm]
  | key name =>
    cases hresolve : index.resolve (Path.scope? index.delimiter keys) name with
    | none => simp [leads?, hresolve]
    | some path => simp [leads?, hresolve, eq_comm]

section Entries

variable {entries : List (Handler × FlatTarget)} {handler : Handler} {target target' : FlatTarget}

/-- **The entries of an orderly definition** are those of its transitions, each with `leads?` of its
target. -/
theorem mem_entries_iff (hd : d.Orderly delimiter)
    (h : entriesIn (PathIndex.ofDefinition delimiter d) none d = .ok entries) :
    (handler, target) ∈ entries ↔ ∃ keys level t, d.level? keys = some level ∧
      t ∈ level.transitions ∧ handler = ⟨delimiter.intercalate (keys ++ [t.source]), t.event⟩ ∧
      leads? (.ofDefinition delimiter d) (Path.scope? delimiter keys) t.target = some target := by
  have hgathers := gathers_of_entriesIn hd h
  constructor
  · intro hmem
    obtain ⟨⟨keys, t⟩, ⟨inside, level, hkeys, hat, ht⟩, hanswer⟩ := hgathers.only _ hmem
    obtain rfl : keys = inside := hkeys
    exact ⟨keys, level, t, Definition.level?_eq_some_iff.2 hat, ht, answer_eq_ok_iff.1 hanswer⟩
  · rintro ⟨keys, level, t, hlevel, ht, hhandler, hleads⟩
    obtain ⟨found, hmem, hanswer⟩ := hgathers.all (keys, t)
      ⟨keys, level, rfl, Definition.level?_eq_some_iff.1 hlevel, ht⟩
    rw [answer_eq_ok_iff.2 ⟨hhandler, hleads⟩] at hanswer
    cases hanswer
    exact hmem

/-- `leads?` of every target is there if `entriesIn` is `.ok`. -/
theorem isSome_leads? {t : TransitionDef} (hd : d.Orderly delimiter)
    (h : entriesIn (PathIndex.ofDefinition delimiter d) none d = .ok entries)
    (hlevel : d.level? keys = some level) (ht : t ∈ level.transitions) :
    (leads? (.ofDefinition delimiter d) (Path.scope? delimiter keys) t.target).isSome = true := by
  obtain ⟨⟨handler, target⟩, -, hanswer⟩ := (gathers_of_entriesIn hd h).all (keys, t)
    ⟨keys, level, rfl, Definition.level?_eq_some_iff.1 hlevel, ht⟩
  exact Option.isSome_iff_exists.2 ⟨target, (answer_eq_ok_iff.1 hanswer).2⟩

/-- No handler has two targets in `entries`. -/
theorem entries_agree (hd : d.Orderly delimiter) (hone : delimiter.length = 1)
    (h : entriesIn (PathIndex.ofDefinition delimiter d) none d = .ok entries)
    (hmem : (handler, target) ∈ entries) (hmem' : (handler, target') ∈ entries) :
    target = target' := by
  obtain ⟨keys, level, t, hlevel, ht, rfl, hleads⟩ := (mem_entries_iff hd h).1 hmem
  obtain ⟨keys', level', t', hlevel', ht', hhandler, hleads'⟩ := (mem_entries_iff hd h).1 hmem'
  rw [Handler.mk.injEq] at hhandler
  obtain ⟨hpath, hevent⟩ := hhandler
  -- One path means one level and one key, and a level has one transition for an event.
  obtain ⟨rfl, hsource⟩ := hd.intercalate_concat_inj hone hlevel
    ((hd.level? hlevel).source t ht) hlevel' ((hd.level? hlevel').source t' ht') hpath
  rw [hlevel] at hlevel'
  cases hlevel'
  have hfirst := (hd.level? hlevel).transition?_eq_some_iff.2 ⟨ht, rfl, rfl⟩
  have hsecond := (hd.level? hlevel).transition?_eq_some_iff.2 ⟨ht', hsource.symm, hevent.symm⟩
  rw [hfirst] at hsecond
  cases hsecond
  exact Option.some.inj (hleads.symm.trans hleads')

/-- **`flat.target?` under the path of a declared state** is `leads?` of the transition of
`level`. -/
theorem target?_eq_of_entries (hd : d.Orderly delimiter) (hone : delimiter.length = 1)
    (h : entriesIn (PathIndex.ofDefinition delimiter d) none d = .ok entries)
    (hflat : ∀ source event target,
      flat.target? source event = some target ↔ (⟨source, event⟩, target) ∈ entries)
    (hlevel : d.level? keys = some level) (hkey : level.declares key = true) (event : EventKey) :
    flat.target? (delimiter.intercalate (keys ++ [key])) event =
      (level.transition? key event).bind fun t =>
        leads? (.ofDefinition delimiter d) (Path.scope? delimiter keys) t.target := by
  refine Option.ext fun target => ?_
  rw [hflat, mem_entries_iff hd h, Option.bind_eq_some_iff]
  constructor
  · rintro ⟨keys', level', t, hlevel', ht, hhandler, hleads⟩
    rw [Handler.mk.injEq] at hhandler
    -- The path tells the level and the state, so the transition is one of this state.
    obtain ⟨rfl, rfl⟩ := hd.intercalate_concat_inj hone hlevel hkey hlevel'
      ((hd.level? hlevel').source t ht) hhandler.1
    rw [hlevel] at hlevel'
    cases hlevel'
    exact ⟨t, (hd.level? hlevel).transition?_eq_some_iff.2 ⟨ht, rfl, hhandler.2.symm⟩, hleads⟩
  · rintro ⟨t, htransition, hleads⟩
    obtain ⟨ht, rfl, rfl⟩ := (hd.level? hlevel).transition?_eq_some_iff.1 htransition
    exact ⟨keys, level, t, hlevel, ht, rfl, hleads⟩

end Entries

/-! ## Leaves -/

/-- The members of `leavesOfStates` are those of `leavesOfState`. -/
theorem mem_leavesOfStates {scope : Option String} {states : List (String × StateDef)}
    {leaf : FlatLeaf} :
    leaf ∈ leavesOfStates delimiter scope states ↔ ∃ entry ∈ states,
      leaf ∈ leavesOfState delimiter (Path.join delimiter scope entry.1) entry.2 := by
  induction states with
  | nil => simp [leavesOfStates]
  | cons first rest ih =>
    obtain ⟨key, state⟩ := first
    rw [leavesOfStates, List.mem_append, ih]
    simp

/-- `leavesIn` is `leavesOfStates` of `d.states`. -/
theorem leavesIn_eq (scope : Option String) (d : Definition) :
    leavesIn delimiter scope d = leavesOfStates delimiter scope d.states := by
  obtain ⟨states, transitions, initial?, issues⟩ := d
  rw [leavesIn]

/-- **`leavesIn` of an orderly definition** has the leaves that `StateDef.at?` finds, under
`delimiter.intercalate keys`. -/
theorem mem_leavesIn_iff (hd : d.Orderly delimiter) {leaf : FlatLeaf} :
    leaf ∈ leavesIn delimiter none d ↔ ∃ keys l,
      (StateDef.composite d).at? keys = some (.leaf l) ∧
      leaf = ⟨delimiter.intercalate keys, l⟩ := by
  -- Leaves are collected from states, and the keys that lead to a leaf are those of its path.
  have hcollect := hd.exists_collect_iff
    (fun keys state => leavesOfState delimiter (delimiter.intercalate keys) state)
    (fun keys state leaf => ∃ l, state = .leaf l ∧ leaf = ⟨delimiter.intercalate keys, l⟩)
    (by simp [leavesOfState]) (by
      intro keys inner leaf hkeys
      rw [leavesOfState, leavesIn_eq, mem_leavesOfStates, ← Path.scope?_of_ne_nil hkeys]
      simp only [Path.join_scope?, reduceCtorEq, false_and, exists_false, false_or]) leaf
  simp only [String.intercalate_singleton] at hcollect
  rw [leavesIn_eq, mem_leavesOfStates]
  refine Iff.trans hcollect ?_
  constructor
  · rintro ⟨keys, _, -, hat, l, rfl, rfl⟩
    exact ⟨keys, l, hat, rfl⟩
  · rintro ⟨keys, l, hat, rfl⟩
    exact ⟨keys, _, Definition.StandsAt.ne_nil ⟨l, hat⟩, hat, l, rfl, rfl⟩

/-! ## Composites -/

/-- The members of `compositesOfStates` are those of `compositesOfState`. -/
theorem mem_compositesOfStates {index : PathIndex} {scope : Option String}
    {states : List (String × StateDef)} {found : String × String} :
    found ∈ compositesOfStates index scope states ↔ ∃ entry ∈ states,
      found ∈ compositesOfState index (Path.join index.delimiter scope entry.1) entry.2 := by
  induction states with
  | nil => simp [compositesOfStates]
  | cons first rest ih =>
    obtain ⟨key, state⟩ := first
    rw [compositesOfStates, List.mem_append, ih]
    simp

/-- `compositesIn` is `compositesOfStates` of `d.states`. -/
theorem compositesIn_eq (index : PathIndex) (scope : Option String) (d : Definition) :
    compositesIn index scope d = compositesOfStates index scope d.states := by
  obtain ⟨states, transitions, initial?, issues⟩ := d
  rw [compositesIn]

/-- **`compositesIn` of an orderly definition** has the composites that `StateDef.at?` finds and in
which `index.leafOf` finds a leaf. -/
theorem mem_compositesIn_iff {index : PathIndex} (hd : d.Orderly index.delimiter)
    {found : String × String} :
    found ∈ compositesIn index none d ↔ ∃ keys inner, keys ≠ [] ∧
      (StateDef.composite d).at? keys = some (.composite inner) ∧
      found.1 = index.delimiter.intercalate keys ∧ index.leafOf found.1 = some found.2 := by
  -- A composite adds itself to what is collected inside it, provided that there is a leaf in it.
  have hcollect := hd.exists_collect_iff
    (fun keys state => compositesOfState index (index.delimiter.intercalate keys) state)
    (fun keys state found => ∃ inner, state = .composite inner ∧
      found.1 = index.delimiter.intercalate keys ∧ index.leafOf found.1 = some found.2)
    (by simp [compositesOfState]) (by
      intro keys inner found hkeys
      rw [compositesOfState, compositesIn_eq, List.mem_append, mem_compositesOfStates,
        ← Path.scope?_of_ne_nil hkeys]
      simp only [Path.join_scope?]
      refine or_congr_left ?_
      obtain ⟨path, leaf⟩ := found
      cases hleaf : index.leafOf (index.delimiter.intercalate keys) with
      | none =>
        simp only [Option.map_none, Option.toList_none, List.not_mem_nil, false_iff]
        rintro ⟨_, -, rfl, hfound⟩
        rw [hleaf] at hfound
        cases hfound
      | some leaf' =>
        simp only [Option.map_some, Option.toList_some, List.mem_singleton, Prod.mk.injEq]
        constructor
        · rintro ⟨rfl, rfl⟩
          exact ⟨inner, rfl, rfl, hleaf⟩
        · rintro ⟨_, -, rfl, hfound⟩
          rw [hleaf] at hfound
          exact ⟨rfl, (Option.some.inj hfound).symm⟩) found
  simp only [String.intercalate_singleton] at hcollect
  rw [compositesIn_eq, mem_compositesOfStates]
  refine Iff.trans hcollect ?_
  constructor
  · rintro ⟨keys, _, hkeys, hat, inner, rfl, hfound⟩
    exact ⟨keys, inner, hkeys, hat, hfound⟩
  · rintro ⟨keys, inner, hkeys, hat, hfound⟩
    exact ⟨keys, _, hkeys, hat, inner, rfl, hfound⟩

/-! ## A flat form and its definition -/

/-- **`flat` renders the orderly definition `d`**: it has the leaves, the initial leaf and the names
of `d`, and files under the path of a state where the transitions of the state lead. -/
structure Renders (flat : FlatDefinition) (delimiter : String) (d : Definition) : Prop where
  orderly : d.Orderly delimiter
  one : delimiter.length = 1
  index_eq : flat.index = .ofDefinition delimiter d
  mem_leaves_iff : ∀ leaf, leaf ∈ flat.leaves ↔ ∃ keys l,
    (StateDef.composite d).at? keys = some (.leaf l) ∧ leaf = ⟨delimiter.intercalate keys, l⟩
  initial_eq : flat.initial = delimiter.intercalate d.startKeys
  leads : ∀ keys level t, d.level? keys = some level → t ∈ level.transitions →
    (leads? flat.index (Path.scope? delimiter keys) t.target).isSome = true
  filed : ∀ keys level key event, d.level? keys = some level → level.declares key = true →
    flat.target? (delimiter.intercalate (keys ++ [key])) event =
      (level.transition? key event).bind fun t =>
        leads? flat.index (Path.scope? delimiter keys) t.target
  standsAt : ∀ source event path, flat.target? source event = some (.path path) →
    ∃ keys, d.StandsAt keys ∧ path = delimiter.intercalate keys

/-- The parts of `assemble`. -/
theorem eq_of_assemble (h : assemble delimiter d = .ok flat) :
    ∃ entries initial, entriesIn (PathIndex.ofDefinition delimiter d) none d = .ok entries ∧
      d.initial?.bind ((PathIndex.ofDefinition delimiter d).resolve none) = some initial ∧
      flat = {
        leaves := leavesIn delimiter none d
        composites := .ofList (compositesIn (.ofDefinition delimiter d) none d)
        transitions := .ofList entries
        initial
        index := .ofDefinition delimiter d } := by
  rw [assemble] at h
  -- Had the answers or the initial state not been found, nothing would have been put together.
  cases hentries : entriesIn (PathIndex.ofDefinition delimiter d) none d with
  | error problem =>
    rw [hentries] at h
    cases h
  | ok entries =>
    rw [hentries] at h
    cases hinitial : d.initial?.bind ((PathIndex.ofDefinition delimiter d).resolve none) with
    | none =>
      rw [hinitial] at h
      cases h
    | some initial =>
      rw [hinitial] at h
      cases h
      exact ⟨entries, initial, rfl, rfl, rfl⟩

/-- `flat.target?` after `assemble` is `leads?` of a transition of `d`. -/
theorem exists_of_target? (hd : d.Orderly delimiter) (h : assemble delimiter d = .ok flat)
    {source : String} {event : EventKey} {target : FlatTarget}
    (htarget : flat.target? source event = some target) :
    ∃ keys level t, d.level? keys = some level ∧ t ∈ level.transitions ∧
      source = delimiter.intercalate (keys ++ [t.source]) ∧ event = t.event ∧
      leads? (.ofDefinition delimiter d) (Path.scope? delimiter keys) t.target = some target := by
  obtain ⟨entries, initial, hentries, -, rfl⟩ := eq_of_assemble h
  obtain ⟨keys, level, t, hlevel, ht, hhandler, hleads⟩ :=
    (mem_entries_iff hd hentries).1 (mem_of_getElem?_ofList htarget)
  rw [Handler.mk.injEq] at hhandler
  exact ⟨keys, level, t, hlevel, ht, hhandler.1, hhandler.2, hleads⟩

/-- `assemble` gives a flat form that renders `d`. -/
theorem renders_of_assemble (hd : d.Orderly delimiter) (hone : delimiter.length = 1)
    (h : assemble delimiter d = .ok flat) : flat.Renders delimiter d := by
  obtain ⟨key, hkey, hdeclared⟩ := (hd d d.mem_levels_self).initial
  have hstandsAt : ∀ source event path, flat.target? source event = some (.path path) →
      ∃ keys, d.StandsAt keys ∧ path = delimiter.intercalate keys := by
    intro source event path htarget
    obtain ⟨keys, level, t, -, -, -, -, hleads⟩ := exists_of_target? hd h htarget
    obtain ⟨name, -, hresolve⟩ := leads?_eq_path_iff.1 hleads
    obtain ⟨keys, l, hat, hpath⟩ := PathIndex.exists_leaf_of_resolve hd hone hresolve
    exact ⟨keys, ⟨l, hat⟩, hpath⟩
  obtain ⟨entries, initial, hentries, hinitial, rfl⟩ := eq_of_assemble h
  rw [hkey, Option.bind_some] at hinitial
  have hpath := PathIndex.eq_of_resolve hd hone d.level?_nil hdeclared hinitial
  -- Two entries under one handler agree, so none of them is lost in the map.
  have hmem : ∀ source event target, (Std.ExtTreeMap.ofList entries)[
      (⟨source, event⟩ : Handler)]? = some target ↔ (⟨source, event⟩, target) ∈ entries :=
    fun _ _ _ => getElem?_ofList_iff fun _ _ _ => entries_agree hd hone hentries
  refine ⟨hd, hone, rfl, fun leaf => mem_leavesIn_iff hd, ?_, ?_, ?_, hstandsAt⟩
  · rw [hpath, Definition.startKeys_of_initial hkey, List.nil_append]
  · intro keys level t hlevel ht
    exact isSome_leads? hd hentries hlevel ht
  · intro keys level key event hlevel hkey
    refine target?_eq_of_entries hd hone hentries ?_ hlevel hkey event
    exact hmem

/-- `flat.compositeInitial?` after `assemble` is there for composites of `d` only. -/
theorem exists_of_compositeInitial? (hd : d.Orderly delimiter) (h : assemble delimiter d = .ok flat)
    {path leaf : String} (hcomposite : flat.compositeInitial? path = some leaf) :
    ∃ keys inner, keys ≠ [] ∧ (StateDef.composite d).at? keys = some (.composite inner) ∧
      path = delimiter.intercalate keys := by
  have hd' : d.Orderly (PathIndex.ofDefinition delimiter d).delimiter := hd
  obtain ⟨entries, initial, -, -, rfl⟩ := eq_of_assemble h
  obtain ⟨keys, inner, hkeys, hat, hpath, -⟩ :=
    (mem_compositesIn_iff hd').1 (mem_of_getElem?_ofList hcomposite)
  exact ⟨keys, inner, hkeys, hat, hpath⟩

/-- `ofDefinition` is `assemble` after a check that finds nothing, and then `settleCollisions`. -/
theorem exists_of_ofDefinition {config : FlattenConfig}
    (h : ofDefinition config d = some (.ok flat)) :
    d.problems config.delimiter = some [] ∧ ∃ whole, assemble config.delimiter d = .ok whole ∧
      FlatDefinition.settleCollisions config.eventCollision whole = .ok flat := by
  rw [ofDefinition] at h
  cases hproblems : d.problems config.delimiter with
  | none =>
    rw [hproblems] at h
    cases h
  | some problems =>
    rw [hproblems] at h
    cases problems with
    | cons problem problems => cases h
    | nil =>
      exact ⟨rfl, exists_of_bind_eq_ok (Option.some.inj h)⟩

/-- **`ofDefinition` gives a flat form that renders `d`** if `config.eventCollision` is
`.namespaced`. -/
theorem renders_of_ofDefinition {config : FlattenConfig} (hd : d.Orderly config.delimiter)
    (hone : config.delimiter.length = 1) (hcollision : config.eventCollision = .namespaced)
    (h : ofDefinition config d = some (.ok flat)) : flat.Renders config.delimiter d := by
  obtain ⟨-, whole, hwhole, hsettled⟩ := exists_of_ofDefinition h
  rw [hcollision] at hsettled
  cases hsettled
  exact renders_of_assemble hd hone hwhole

/-- **`flat` mirrors `d`**: it renders `d`, and `d` is sound and has no choices. -/
structure Mirrors (flat : FlatDefinition) (delimiter : String) (d : Definition) : Prop
    extends flat.Renders delimiter d where
  sound : d.Sound delimiter
  literal : d.IsLiteral

/-- **`ofDefinition` gives a flat form that mirrors `d`** if `config.eventCollision` is
`.namespaced`. -/
theorem mirrors_of_ofDefinition {config : FlattenConfig} (hd : d.Sound config.delimiter)
    (hone : config.delimiter.length = 1) (hliteral : d.IsLiteral)
    (hcollision : config.eventCollision = .namespaced)
    (h : ofDefinition config d = some (.ok flat)) : flat.Mirrors config.delimiter d :=
  ⟨renders_of_ofDefinition hd.orderly hone hcollision h, hd, hliteral⟩

/-- `flat.target?` under the path of a declared state is `level.goal?`. -/
theorem Mirrors.target?_eq (h : flat.Mirrors delimiter d) (hlevel : d.level? keys = some level)
    (hkey : level.declares key = true) (event : EventKey) (params : Params) :
    flat.target? (delimiter.intercalate (keys ++ [key])) event =
      (level.goal? key event params).map fun target =>
        .path (delimiter.intercalate (keys ++ level.enteredKeys target)) := by
  rw [h.filed keys level key event hlevel hkey]
  cases ht : level.transition? key event with
  | none =>
    rw [Definition.goal?, ht]
    rfl
  | some t =>
    -- The target is declared on the level itself, so the leaf that it resolves to is the one that
    -- is entered with it.
    have hmem := ((h.sound.level? hlevel).transition?_eq_some_iff.1 ht).1
    obtain ⟨name, hname⟩ := h.literal.exists_name (Definition.mem_levels_of_level? hlevel) hmem
    have hleads := h.leads keys level t hlevel hmem
    have hdeclared := (h.sound.level? hlevel).target t hmem name hname
    rw [(h.sound.level? hlevel).goal?_eq ht hname, Option.bind_some]
    rw [hname, leads?, Option.isSome_map, Option.isSome_iff_exists, h.index_eq] at hleads
    obtain ⟨path, hresolve⟩ := hleads
    rw [hname, leads?, h.index_eq, hresolve,
      PathIndex.eq_of_resolve h.orderly h.one hlevel hdeclared hresolve]
    rfl

end FlatDefinition

end Statechart
