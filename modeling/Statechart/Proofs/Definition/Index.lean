import Statechart.Proofs.Definition.Soundness
import Statechart.Proofs.Path

/-! # Names in an orderly definition

The paths of an orderly definition are the paths of the keys that lead somewhere, and no two lists
of keys have one path. So what an index says of a path it says of the state that the keys lead to,
and a name that a level declares stands for the leaf that is entered with it.

* **`StateDef.mem_collect_iff`**: what is collected from a state and from all those inside it.
* `Definition.Orderly.delimits`: the delimiter sets the keys apart.
* **`PathIndex.getElem?_nodes_iff`**: what an index says of a path.
* **`PathIndex.eq_of_resolve`**: the leaf of a name. -/

namespace Statechart

/-! ## Maps from lists -/

/-- The look-up after inserting `entries` that agree with each other. -/
theorem getElem?_foldl_insert {α β : Type} [Ord α] [Std.TransOrd α] [Std.LawfulEqOrd α]
    {entries : List (α × β)} {map : Std.ExtTreeMap α β} {key : α} {value : β}
    (h : ∀ k a b, (k, a) ∈ entries → (k, b) ∈ entries → a = b) :
    (entries.foldl (fun map entry => map.insert entry.1 entry.2) map)[key]? = some value ↔
      (key, value) ∈ entries ∨ key ∉ entries.map Prod.fst ∧ map[key]? = some value := by
  induction entries generalizing map with
  | nil => simp
  | cons entry rest ih =>
    obtain ⟨own, leads⟩ := entry
    have hrest : ∀ k a b, (k, a) ∈ rest → (k, b) ∈ rest → a = b := fun k a b ha hb =>
      h k a b (List.mem_cons_of_mem _ ha) (List.mem_cons_of_mem _ hb)
    rw [List.foldl_cons, ih hrest, Std.ExtTreeMap.getElem?_insert, List.mem_cons, List.map_cons,
      List.mem_cons, not_or]
    by_cases hself : key = own
    · subst hself
      rw [if_pos Std.ReflCmp.compare_self]
      -- The entry is inserted under the key itself; a later entry of the key has the same value.
      constructor
      · rintro (hmem | ⟨hnot, heq⟩)
        · exact Or.inl (Or.inr hmem)
        · obtain rfl : leads = value := Option.some.inj heq
          exact Or.inl (Or.inl rfl)
      · rintro ((heq | hmem) | ⟨⟨hne, -⟩, -⟩)
        · rw [Prod.mk.injEq] at heq
          obtain ⟨-, rfl⟩ := heq
          by_cases hknown : key ∈ rest.map Prod.fst
          · obtain ⟨⟨own, other⟩, hother, rfl⟩ := List.mem_map.1 hknown
            have hsame := h own value other List.mem_cons_self (List.mem_cons_of_mem _ hother)
            exact Or.inl (hsame ▸ hother)
          · exact Or.inr ⟨hknown, rfl⟩
        · exact Or.inl hmem
        · exact absurd rfl hne
    · have hcompare : compare own key ≠ .eq := fun heq =>
        hself (Std.LawfulEqOrd.eq_of_compare heq).symm
      rw [if_neg hcompare]
      simp [hself]

/-- **`Std.ExtTreeMap.ofList` of entries that agree** has these entries and no others. -/
theorem getElem?_ofList_iff {α β : Type} [Ord α] [Std.TransOrd α] [Std.LawfulEqOrd α]
    {entries : List (α × β)} {key : α} {value : β}
    (h : ∀ k a b, (k, a) ∈ entries → (k, b) ∈ entries → a = b) :
    (Std.ExtTreeMap.ofList entries)[key]? = some value ↔ (key, value) ∈ entries := by
  rw [Std.ExtTreeMap.ofList_eq_foldl, getElem?_foldl_insert h]
  simp

/-- What is found after inserting `entries` is one of them, or it was there before. -/
theorem mem_or_of_getElem?_foldl_insert {α β : Type} [Ord α] [Std.TransOrd α] [Std.LawfulEqOrd α]
    {entries : List (α × β)} {map : Std.ExtTreeMap α β} {key : α} {value : β}
    (h : (entries.foldl (fun map entry => map.insert entry.1 entry.2) map)[key]? = some value) :
    (key, value) ∈ entries ∨ map[key]? = some value := by
  induction entries generalizing map with
  | nil => exact Or.inr h
  | cons entry rest ih =>
    rcases ih h with hmem | hmap
    · exact Or.inl (List.mem_cons_of_mem _ hmem)
    · rw [Std.ExtTreeMap.getElem?_insert] at hmap
      split at hmap
      · rename_i heq
        cases hmap
        rw [← Std.LawfulEqOrd.eq_of_compare heq]
        exact Or.inl List.mem_cons_self
      · exact Or.inr hmap

/-- What is found in `Std.ExtTreeMap.ofList entries` is in `entries`, even if they do not agree. -/
theorem mem_of_getElem?_ofList {α β : Type} [Ord α] [Std.TransOrd α] [Std.LawfulEqOrd α]
    {entries : List (α × β)} {key : α} {value : β}
    (h : (Std.ExtTreeMap.ofList entries)[key]? = some value) : (key, value) ∈ entries := by
  rw [Std.ExtTreeMap.ofList_eq_foldl] at h
  simpa using mem_or_of_getElem?_foldl_insert h

/-- **The look-up after erasing `items.map erased`**, some of them maybe more than once. -/
theorem getElem?_foldl_erase {α β γ : Type} [Ord α] [Std.TransOrd α] [Std.LawfulEqOrd α]
    [DecidableEq α] {items : List γ} {erased : γ → α} {map : Std.ExtTreeMap α β} {key : α} :
    (items.foldl (fun map item => map.erase (erased item)) map)[key]? =
      map[key]?.filter fun _ => !items.any (erased · == key) := by
  induction items generalizing map with
  | nil => rw [List.foldl_nil]; cases map[key]? <;> rfl
  | cons item rest ih =>
    rw [List.foldl_cons, ih, Std.ExtTreeMap.getElem?_erase, List.any_cons]
    by_cases hself : erased item = key
    · rw [hself, if_pos Std.ReflCmp.compare_self]
      cases map[key]? <;> simp
    · rw [if_neg fun heq => hself (Std.LawfulEqOrd.eq_of_compare heq), beq_eq_false_iff_ne.2 hself,
        Bool.false_or]

/-! ## Collecting from all states -/

namespace Definition

variable {delimiter : String}

/-- What `StateDef.at?` finds in a composite is the composite, or is found in one of its states. -/
theorem IsOrderly.exists_at?_iff {inner : Definition} (h : inner.IsOrderly delimiter)
    {P : List String → StateDef → Prop} :
    (∃ keys state, (StateDef.composite inner).at? keys = some state ∧ P keys state) ↔
      P [] (.composite inner) ∨ ∃ entry ∈ inner.states, ∃ keys state,
        entry.2.at? keys = some state ∧ P (entry.1 :: keys) state := by
  constructor
  · rintro ⟨keys, state, hat, hP⟩
    cases keys with
    | nil =>
      rw [StateDef.at?_nil] at hat
      cases hat
      exact Or.inl hP
    | cons key keys =>
      -- The first key is that of a state right inside, and the others lead on from there.
      obtain ⟨inside, hinside, hat⟩ := Option.bind_eq_some_iff.1 hat
      exact Or.inr ⟨(key, inside), mem_of_state? hinside, keys, state, hat, hP⟩
  · rintro (hP | ⟨⟨key, inside⟩, hentry, keys, state, hat, hP⟩)
    · exact ⟨[], _, StateDef.at?_nil _, hP⟩
    · refine ⟨key :: keys, state, ?_, hP⟩
      rw [at?_cons, h.state?_of_mem hentry]
      exact hat

end Definition

/-- **The members of `collect keys state`** are what the states that `StateDef.at?` finds contribute
by `own`, by induction on `state`. -/
theorem StateDef.mem_collect_iff {α : Type} {delimiter : String}
    (collect : List String → StateDef → List α) (own : List String → StateDef → α → Prop)
    (leaf : ∀ keys l x, x ∈ collect keys (.leaf l) ↔ own keys (.leaf l) x)
    (composite : ∀ keys inner x, keys ≠ [] → (x ∈ collect keys (.composite inner) ↔
      own keys (.composite inner) x ∨
        ∃ entry ∈ inner.states, x ∈ collect (keys ++ [entry.1]) entry.2))
    (state : StateDef) (h : ∀ level ∈ state.levels, level.IsOrderly delimiter) :
    ∀ keys x, keys ≠ [] → (x ∈ collect keys state ↔
      ∃ keys' inside, state.at? keys' = some inside ∧ own (keys ++ keys') inside x) := by
  -- By induction over the states inside: no keys at all lead to the state itself, and other keys
  -- begin with that of a state right inside.
  induction state using StateDef.inside_induction with
  | leaf l =>
    intro keys x _
    rw [leaf]
    constructor
    · intro hx
      exact ⟨[], _, at?_nil _, by rwa [List.append_nil]⟩
    · rintro ⟨keys', inside, hat, hx⟩
      cases keys' with
      | nil =>
        cases hat
        rwa [List.append_nil] at hx
      | cons _ _ => cases hat
  | composite inner ih =>
    intro keys x hkeys
    rw [StateDef.levels] at h
    have hinside : ∀ entry ∈ inner.states, ∀ level ∈ entry.2.levels, level.IsOrderly delimiter :=
      fun entry hentry level hlevel =>
        h level (Definition.mem_levels_of_state hentry hlevel)
    rw [composite keys inner x hkeys,
      (h inner inner.mem_levels_self).exists_at?_iff, List.append_nil]
    refine or_congr_right (exists_congr fun entry => and_congr_right fun hentry => ?_)
    rw [ih entry hentry (hinside entry hentry) _ _ (by simp)]
    simp only [List.append_assoc, List.singleton_append]

/-- `StateDef.mem_collect_iff` for the states of `d`. -/
theorem Definition.Orderly.exists_collect_iff {α : Type} {delimiter : String} {d : Definition}
    (h : d.Orderly delimiter) (collect : List String → StateDef → List α)
    (own : List String → StateDef → α → Prop)
    (leaf : ∀ keys l x, x ∈ collect keys (.leaf l) ↔ own keys (.leaf l) x)
    (composite : ∀ keys inner x, keys ≠ [] → (x ∈ collect keys (.composite inner) ↔
      own keys (.composite inner) x ∨
        ∃ entry ∈ inner.states, x ∈ collect (keys ++ [entry.1]) entry.2)) (x : α) :
    (∃ entry ∈ d.states, x ∈ collect [entry.1] entry.2) ↔
      ∃ keys state, keys ≠ [] ∧ (StateDef.composite d).at? keys = some state ∧
        own keys state x := by
  -- There are keys to every state, and the first of them is that of a state of the outermost level.
  have hstates := fun entry (hentry : entry ∈ d.states) =>
    StateDef.mem_collect_iff collect own leaf composite entry.2
      (fun level hlevel => h level (mem_levels_of_state hentry hlevel)) [entry.1] x
      (List.cons_ne_nil _ _)
  constructor
  · rintro ⟨entry, hentry, hx⟩
    obtain ⟨keys, state, hat, hx⟩ := (hstates entry hentry).1 hx
    refine ⟨entry.1 :: keys, state, List.cons_ne_nil _ _, ?_, hx⟩
    rw [at?_cons, (h d d.mem_levels_self).state?_of_mem hentry]
    exact hat
  · rintro ⟨keys, state, hne, hat, hx⟩
    cases keys with
    | nil => exact absurd rfl hne
    | cons key keys =>
      obtain ⟨inside, hinside, hat⟩ := Option.bind_eq_some_iff.1 hat
      have hentry := mem_of_state? hinside
      exact ⟨(key, inside), hentry, (hstates _ hentry).2 ⟨keys, state, hat, hx⟩⟩

/-! ## Keys and the delimiter -/

namespace Definition

variable {delimiter : String} {d level : Definition} {state : StateDef} {keys : List String}
  {key name path : String}

/-- Every one of `keys` that lead to a state is declared on some level. -/
theorem exists_declares_of_mem (h : (StateDef.composite d).at? keys = some state)
    (hkey : key ∈ keys) : ∃ level ∈ d.levels, level.declares key = true := by
  induction keys generalizing d with
  | nil => cases hkey
  | cons first rest ih =>
    obtain ⟨inside, hinside, hat⟩ := Option.bind_eq_some_iff.1 h
    rcases List.mem_cons.1 hkey with rfl | hkey
    · exact ⟨d, d.mem_levels_self, Option.isSome_iff_exists.2 ⟨inside, hinside⟩⟩
    · cases inside with
      | leaf l =>
        cases rest with
        | nil => cases hkey
        | cons _ _ => cases hat
      | composite inner =>
        obtain ⟨level, hlevel, hdeclared⟩ := ih hat hkey
        exact ⟨level, mem_levels_of_state (mem_of_state? hinside) hlevel, hdeclared⟩

/-- The keys that an orderly level declares are plain. -/
theorem IsOrderly.isPlainKey (h : level.IsOrderly delimiter) (hkey : level.declares key = true) :
    IsPlainKey delimiter key := by
  obtain ⟨state, hstate⟩ := Option.isSome_iff_exists.1 hkey
  exact h.plain key (List.mem_map.2 ⟨(key, state), mem_of_state? hstate, rfl⟩)

/-- **`Path.Delimits` holds of keys that lead to a state**, if the delimiter is one character. -/
theorem Orderly.delimits (h : d.Orderly delimiter) (hone : delimiter.length = 1)
    (hat : (StateDef.composite d).at? keys = some state) : Path.Delimits delimiter keys := by
  obtain ⟨c, hc⟩ := List.length_eq_one_iff.1 ((String.length_toList).trans hone)
  obtain rfl : delimiter = String.singleton c := by
    rw [← String.toList_inj, hc, String.toList_singleton]
  refine ⟨c, rfl, fun key hkey => ?_⟩
  obtain ⟨level, hlevel, hdeclared⟩ := exists_declares_of_mem hat hkey
  exact Path.isQualified_eq_false_iff.1 ((h level hlevel).isPlainKey hdeclared).2.2

end Definition

/-! ## The index of a definition -/

/-- The node of an index for a state, given its path. -/
def StateDef.node (delimiter path : String) : StateDef → PathNode
  | .leaf _ => .leaf
  | .composite inner => .composite (inner.initial?.map (Path.join delimiter (some path)))

section Index

variable {delimiter : String} {d level : Definition} {state : StateDef} {keys : List String}
  {key name path : String}

/-- The members of `statesNodes` are those of `StateDef.nodes`. -/
theorem mem_statesNodes {scope : Option String} {states : List (String × StateDef)}
    {node : String × PathNode} :
    node ∈ statesNodes delimiter scope states ↔
      ∃ entry ∈ states, node ∈ entry.2.nodes delimiter (Path.join delimiter scope entry.1) := by
  induction states with
  | nil => simp [statesNodes]
  | cons first rest ih =>
    obtain ⟨key, state⟩ := first
    rw [statesNodes, List.mem_append, ih]
    simp

/-- `d.nodes` is `statesNodes` of `d.states`. -/
theorem Definition.nodes_eq (scope : Option String) (d : Definition) :
    d.nodes delimiter scope = statesNodes delimiter scope d.states := by
  obtain ⟨states, transitions, initial?, issues⟩ := d
  rw [Definition.nodes]

/-- **`d.nodes` are those of the states that `StateDef.at?` finds.** -/
theorem Definition.Orderly.mem_nodes_iff (h : d.Orderly delimiter) {node : String × PathNode} :
    node ∈ d.nodes delimiter none ↔
      ∃ keys state, keys ≠ [] ∧ (StateDef.composite d).at? keys = some state ∧
        node = (delimiter.intercalate keys, state.node delimiter (delimiter.intercalate keys)) := by
  -- The nodes of a state are collected: its own first, then those inside.
  rw [← h.exists_collect_iff (fun keys state => state.nodes delimiter (delimiter.intercalate keys))
    (fun keys state node =>
      node = (delimiter.intercalate keys, state.node delimiter (delimiter.intercalate keys)))]
  · rw [Definition.nodes_eq, mem_statesNodes]
    simp only [String.intercalate_singleton]
    rfl
  · intro keys l node
    rw [StateDef.nodes, List.mem_singleton]
    rfl
  · intro keys inner node hkeys
    rw [StateDef.nodes, List.mem_cons, Definition.nodes_eq, mem_statesNodes,
      ← Path.scope?_of_ne_nil hkeys]
    simp only [Path.join_scope?]
    rw [Path.scope?_of_ne_nil hkeys]
    rfl

/-- **The look-up in `PathIndex.ofDefinition`** finds the states that `StateDef.at?` does. -/
theorem PathIndex.getElem?_nodes_iff (h : d.Orderly delimiter) (hone : delimiter.length = 1)
    {node : PathNode} :
    (PathIndex.ofDefinition delimiter d).nodes[path]? = some node ↔
      ∃ keys state, keys ≠ [] ∧ (StateDef.composite d).at? keys = some state ∧
        path = delimiter.intercalate keys ∧
        node = state.node delimiter (delimiter.intercalate keys) := by
  rw [PathIndex.ofDefinition, getElem?_ofList_iff, h.mem_nodes_iff]
  · simp only [Prod.mk.injEq]
  · -- Two nodes of one path belong to one list of keys, and so to one state.
    intro path a b ha hb
    obtain ⟨keys₁, state₁, hne₁, hat₁, heq₁⟩ := h.mem_nodes_iff.1 ha
    obtain ⟨keys₂, state₂, hne₂, hat₂, heq₂⟩ := h.mem_nodes_iff.1 hb
    rw [Prod.mk.injEq] at heq₁ heq₂
    obtain rfl : keys₁ = keys₂ := Path.intercalate_inj (h.delimits hone hat₁)
      (h.delimits hone hat₂) hne₁ hne₂ (heq₁.1.symm.trans heq₂.1)
    rw [hat₁] at hat₂
    cases hat₂
    exact heq₁.2.trans heq₂.2.symm

/-- **The node of the state that `StateDef.at?` finds.** -/
theorem PathIndex.getElem?_nodes (h : d.Orderly delimiter) (hone : delimiter.length = 1)
    (hkeys : keys ≠ []) (hat : (StateDef.composite d).at? keys = some state) :
    (PathIndex.ofDefinition delimiter d).nodes[delimiter.intercalate keys]? =
      some (state.node delimiter (delimiter.intercalate keys)) :=
  (PathIndex.getElem?_nodes_iff h hone).2 ⟨keys, state, hkeys, hat, rfl, rfl⟩

/-! ## From a name to a leaf -/

/-- `leafWithin` finds the same leaf for different bounds. -/
theorem PathIndex.leafWithin_unique {index : PathIndex} {steps steps' : Nat} {leaf leaf' : String}
    (hleaf : index.leafWithin steps path = some leaf)
    (hleaf' : index.leafWithin steps' path = some leaf') : leaf = leaf' := by
  -- Both follow the same states. It is over when one of them meets a leaf, and then so does the
  -- other.
  induction steps generalizing path steps' with
  | zero => cases hleaf
  | succ steps ih =>
    cases steps' with
    | zero => cases hleaf'
    | succ steps' =>
      rw [PathIndex.leafWithin] at hleaf hleaf'
      cases hnode : index.nodes[path]? with
      | none =>
        rw [hnode] at hleaf
        cases hleaf
      | some node =>
        rw [hnode] at hleaf hleaf'
        cases node with
        | leaf =>
          cases hleaf
          cases hleaf'
          rfl
        | composite initial? =>
          cases initial? with
          | none => cases hleaf
          | some next => exact ih hleaf hleaf'

/-- `leafWithin` finds the leaf at `keys ++ state.innerKeys`, by induction on `state`. -/
theorem PathIndex.exists_leafWithin (h : d.Orderly delimiter) (hone : delimiter.length = 1)
    (state : StateDef) (horderly : ∀ level ∈ state.levels, level.IsOrderly delimiter) :
    ∀ keys, keys ≠ [] → (StateDef.composite d).at? keys = some state →
      ∃ steps, (PathIndex.ofDefinition delimiter d).leafWithin steps (delimiter.intercalate keys) =
        some (delimiter.intercalate (keys ++ state.innerKeys)) := by
  induction state using StateDef.inside_induction with
  | leaf l =>
    intro keys hkeys hat
    -- A leaf is found at the first step.
    refine ⟨1, ?_⟩
    rw [PathIndex.leafWithin, PathIndex.getElem?_nodes h hone hkeys hat]
    rw [StateDef.innerKeys, List.append_nil]
    rfl
  | composite inner ih =>
    intro keys hkeys hat
    rw [StateDef.levels] at horderly
    -- A composite has an initial state, which lies one key deeper and takes one step to get to.
    obtain ⟨key, hinitial, hdeclared⟩ := (horderly inner inner.mem_levels_self).initial
    obtain ⟨state, hstate⟩ := Option.isSome_iff_exists.1 hdeclared
    have hentry := Definition.mem_of_state? hstate
    have hinside : (StateDef.composite d).at? (keys ++ [key]) = some state :=
      (Definition.at?_concat (Definition.level?_eq_some_iff.2 hat)).trans hstate
    obtain ⟨steps, hsteps⟩ := ih (key, state) hentry (fun level hlevel =>
      horderly level (Definition.mem_levels_of_state hentry hlevel)) (keys ++ [key]) (by simp)
      hinside
    refine ⟨steps + 1, ?_⟩
    rw [PathIndex.leafWithin, PathIndex.getElem?_nodes h hone hkeys hat, StateDef.node, hinitial,
      Option.map_some, ← Path.scope?_of_ne_nil hkeys, Path.join_scope?]
    simp only [hsteps]
    rw [StateDef.innerKeys, Definition.startKeys_of_initial hinitial,
      Definition.enteredKeys_of_state? hstate, List.append_assoc, List.singleton_append]

/-- `locate` of a plain name that is listed in `scope`. -/
theorem PathIndex.locate_of_isPlainKey {index : PathIndex} {scope : Option String}
    (hname : IsPlainKey delimiter name)
    (hcontains : index.contains (Path.join index.delimiter scope name) = true) :
    index.locate scope name = .ok (Path.join index.delimiter scope name) := by
  -- No mark is taken off, so the name is sought as it is, in the scope itself first.
  have hhead : name.toList.takeWhile (· == escapeMark) = [] := by
    cases hlist : name.toList with
    | nil => rfl
    | cons c rest =>
      have hne : c ≠ escapeMark := fun heq => hname.2.1 (by rw [hlist, heq]; rfl)
      rw [List.takeWhile_cons_of_neg (by simpa using hne)]
  have hescapes : PathIndex.escapes name = 0 := by
    rw [PathIndex.escapes, hhead]
    rfl
  have hbare : PathIndex.bareName name = name := by
    have happend := PathIndex.replicate_escapes_append_bareName name
    rwa [hescapes, List.replicate_zero, String.ofList_nil, String.empty_append] at happend
  rw [PathIndex.locate, hescapes, hbare, PathIndex.outward]
  show index.searchWithin name ((scope.getD "").length + 1 + 1) scope = _
  simp only [PathIndex.searchWithin, hcontains, if_true]

/-- `resolve` is `leafOf` of what `locate` finds. -/
theorem PathIndex.leafOf_of_resolve {index : PathIndex} {scope : Option String} {found : String}
    (hlocate : index.locate scope name = .ok found)
    (hresolve : index.resolve scope name = some path) : index.leafOf found = some path := by
  rw [PathIndex.resolve, PathIndex.tryResolve, hlocate] at hresolve
  simp only [bind, Except.bind] at hresolve
  cases hleaf : index.leafOf found with
  | none =>
    rw [hleaf] at hresolve
    cases hresolve
  | some leaf =>
    rw [hleaf] at hresolve
    cases hresolve
    rfl

/-- `resolve` is `locate` and then `leafOf`. -/
theorem PathIndex.exists_of_resolve {index : PathIndex} {scope : Option String}
    (h : index.resolve scope name = some path) :
    ∃ found, index.locate scope name = .ok found ∧ index.leafOf found = some path := by
  cases hlocate : index.locate scope name with
  | error e =>
    rw [PathIndex.resolve, PathIndex.tryResolve, hlocate] at h
    cases h
  | ok found => exact ⟨found, rfl, PathIndex.leafOf_of_resolve hlocate h⟩

/-- **`resolve` gives the path of a leaf of `d`.** -/
theorem PathIndex.exists_leaf_of_resolve (h : d.Orderly delimiter) (hone : delimiter.length = 1)
    {scope : Option String}
    (hresolve : (PathIndex.ofDefinition delimiter d).resolve scope name = some path) :
    ∃ keys l, (StateDef.composite d).at? keys = some (.leaf l) ∧
      path = delimiter.intercalate keys := by
  obtain ⟨found, -, hleaf⟩ := PathIndex.exists_of_resolve hresolve
  have hnode := PathIndex.isLeaf_of_leafOf hleaf
  rw [PathIndex.isLeaf, beq_iff_eq, PathIndex.getElem?_nodes_iff h hone] at hnode
  obtain ⟨keys, state, -, hat, hpath, hstate⟩ := hnode
  cases state with
  | leaf l => exact ⟨keys, l, hat, hpath⟩
  | composite inner => cases hstate

/-- **`resolve` of a name that `level` declares** is the path of
`keys ++ level.enteredKeys name`. -/
theorem PathIndex.eq_of_resolve (h : d.Orderly delimiter) (hone : delimiter.length = 1)
    (hlevel : d.level? keys = some level) (hname : level.declares name = true)
    (hresolve : (PathIndex.ofDefinition delimiter d).resolve (Path.scope? delimiter keys) name =
      some path) :
    path = delimiter.intercalate (keys ++ level.enteredKeys name) := by
  obtain ⟨state, hstate⟩ := Option.isSome_iff_exists.1 hname
  have hat : (StateDef.composite d).at? (keys ++ [name]) = some state :=
    (Definition.at?_concat hlevel).trans hstate
  have hnode := PathIndex.getElem?_nodes h hone (by simp) hat
  have hcontains : (PathIndex.ofDefinition delimiter d).contains
      (Path.join delimiter (Path.scope? delimiter keys) name) = true := by
    rw [PathIndex.contains, Std.ExtTreeMap.contains_eq_isSome_getElem?, Path.join_scope?, hnode]
    rfl
  -- A name with nothing special about it is looked for in the scope, and there it is.
  have hlocate : (PathIndex.ofDefinition delimiter d).locate (Path.scope? delimiter keys) name =
      .ok (Path.join delimiter (Path.scope? delimiter keys) name) :=
    PathIndex.locate_of_isPlainKey ((h.level? hlevel).isPlainKey hname) hcontains
  -- From there on both follow initial states.
  obtain ⟨steps, hsteps⟩ := PathIndex.exists_leafWithin h hone state
    (fun inner hinner => h inner (StateDef.levels_of_at? hat hinner)) _ (by simp) hat
  have hleaf := PathIndex.leafOf_of_resolve hlocate hresolve
  rw [Path.join_scope?] at hleaf
  rw [PathIndex.leafWithin_unique hleaf hsteps, Definition.enteredKeys_of_state? hstate,
    List.append_assoc, List.singleton_append]

end Index

end Statechart
