import Statechart.Proofs.Definition.Places
import Statechart.Proofs.Definition.Resolution
import Statechart.Proofs.Flat.Answers

/-! # Nothing is lost in a flat form

A flat form keeps what a definition has on its levels in maps by joined paths, where one entry could
take the place of another. In the flat form of a definition that a check finds nothing wrong with,
no entry does.

* `FlatDefinition.leafAt?`, `FlatDefinition.compositeAt?`, `FlatDefinition.entryOf?`: what becomes
  of a state and of a transition.
* `FlatDefinition.leavesIn_eq_filterMap`: the leaves come in order of declaration.
* **`FlatDefinition.Accounts`**: a flat form has what becomes of all states and transitions, each
  once, and nothing else.
* **`FlatDefinition.exists_accounts`**: a checked definition has such a flat form. -/

namespace Statechart

namespace FlatDefinition

variable {delimiter : String} {d : Definition} {flat : FlatDefinition} {keys : List String}
  {entries : List (Handler × FlatTarget)} {path : String}

/-- The `FlatLeaf` that the leaf `place.2` at the keys `place.1` becomes. -/
def leafAt? (delimiter : String) (place : List String × StateDef) : Option FlatLeaf :=
  match place.2 with
  | .leaf l => some ⟨delimiter.intercalate place.1, l⟩
  | .composite _ => none

/-- The path of the composite `place.2` at the keys `place.1`, and that of the leaf at
`inner.startKeys`. -/
def compositeAt? (delimiter : String) (place : List String × StateDef) :
    Option (String × String) :=
  match place.2 with
  | .leaf _ => none
  | .composite inner =>
    some (delimiter.intercalate place.1, delimiter.intercalate (place.1 ++ inner.startKeys))

/-- The answer that the transition `rule.2` of the level at `rule.1` becomes: under the path of its
source, with `leads?` of its target. -/
def entryOf? (index : PathIndex) (rule : List String × TransitionDef) :
    Option (Handler × FlatTarget) :=
  (leads? index (Path.scope? index.delimiter rule.1) rule.2.target).map
    (⟨index.delimiter.intercalate (rule.1 ++ [rule.2.source]), rule.2.event⟩, ·)

/-- **`flat` accounts for `d`**: it has the leaves, the composites and the transitions of `d`, each
of them once, and no path in it leads anywhere but to a leaf. -/
structure Accounts (flat : FlatDefinition) (delimiter : String) (d : Definition) : Prop where
  /-- The leaves are those of the definition, in order of declaration. -/
  leaves_eq : flat.leaves = d.places.filterMap (leafAt? delimiter)
  /-- No two leaves have one path. -/
  nodup_leaves : (flat.leaves.map FlatLeaf.path).Nodup
  /-- The composites are those of the definition, each with its initial leaf. -/
  composites_perm : flat.composites.toList.Perm (d.places.filterMap (compositeAt? delimiter))
  /-- Every transition of every level is one entry, and every entry is one transition. -/
  entries_perm : (flat.transitions.toList.map some).Perm
    (d.rules.map (entryOf? (.ofDefinition delimiter d)))
  initial_mem : flat.initial ∈ flat.leaves.map FlatLeaf.path
  compositeInitial_mem : ∀ path leaf, flat.compositeInitial? path = some leaf →
    leaf ∈ flat.leaves.map FlatLeaf.path
  target_mem : ∀ source event path, flat.target? source event = some (.path path) →
    path ∈ flat.leaves.map FlatLeaf.path

/-! ## Leaves -/

/-- `leavesOfStates` is `filterMap` of `placesOfStates` if this holds of each of `states`. -/
theorem leavesOfStates_eq_filterMap {states : List (String × StateDef)}
    (inside : ∀ entry ∈ states, leavesOfState delimiter
        (delimiter.intercalate (keys ++ [entry.1])) entry.2 =
      entry.2.places.filterMap fun place =>
        leafAt? delimiter (keys ++ entry.1 :: place.1, place.2)) :
    leavesOfStates delimiter (Path.scope? delimiter keys) states =
      (placesOfStates states).filterMap fun place =>
        leafAt? delimiter (keys ++ place.1, place.2) := by
  induction states with
  | nil => rfl
  | cons first rest ih =>
    obtain ⟨key, state⟩ := first
    rw [leavesOfStates, Path.join_scope?, inside _ List.mem_cons_self,
      ih fun entry hentry => inside entry (List.mem_cons_of_mem _ hentry), placesOfStates,
      List.filterMap_append, List.filterMap_map]
    rfl

/-- `leavesOfState` is `filterMap` of `state.places`, by induction on `state`. -/
theorem leavesOfState_eq_filterMap (state : StateDef) : ∀ keys, keys ≠ [] →
    leavesOfState delimiter (delimiter.intercalate keys) state =
      state.places.filterMap fun place => leafAt? delimiter (keys ++ place.1, place.2) := by
  induction state using StateDef.inside_induction with
  | leaf l =>
    intro keys _
    rw [leavesOfState, StateDef.places]
    simp [leafAt?]
  | composite inner ih =>
    intro keys hkeys
    rw [leavesOfState, leavesIn_eq, ← Path.scope?_of_ne_nil hkeys, StateDef.places,
      List.filterMap_cons, Definition.places_eq]
    refine leavesOfStates_eq_filterMap fun entry hentry => ?_
    rw [ih entry hentry (keys ++ [entry.1]) (by simp)]
    simp only [List.append_assoc, List.singleton_append]

/-- **`leavesIn` is `d.places.filterMap (leafAt? delimiter)`**, in order of declaration. -/
theorem leavesIn_eq_filterMap (delimiter : String) (d : Definition) :
    leavesIn delimiter none d = d.places.filterMap (leafAt? delimiter) := by
  have hstates : leavesOfStates delimiter (Path.scope? delimiter []) d.states =
      (placesOfStates d.states).filterMap fun place => leafAt? delimiter ([] ++ place.1, place.2) :=
    leavesOfStates_eq_filterMap fun entry _ => by
      rw [leavesOfState_eq_filterMap entry.2 ([] ++ [entry.1]) (by simp)]
      simp only [List.append_assoc, List.singleton_append]
  rw [leavesIn_eq, Definition.places_eq]
  exact hstates

/-- The paths of `flat.leaves` are those of keys with `d.StandsAt keys`. -/
theorem Renders.mem_paths_iff (h : flat.Renders delimiter d) :
    path ∈ flat.leaves.map FlatLeaf.path ↔
      ∃ keys, d.StandsAt keys ∧ path = delimiter.intercalate keys := by
  rw [List.mem_map]
  constructor
  · rintro ⟨leaf, hleaf, rfl⟩
    obtain ⟨keys, l, hat, rfl⟩ := (h.mem_leaves_iff leaf).1 hleaf
    exact ⟨keys, ⟨l, hat⟩, rfl⟩
  · rintro ⟨keys, ⟨l, hat⟩, rfl⟩
    exact ⟨_, (h.mem_leaves_iff _).2 ⟨keys, l, hat, rfl⟩, rfl⟩

/-! ## No path is taken twice -/

/-- **The paths of `d.places` are different.** -/
theorem pairwise_places (hd : d.Orderly delimiter) (hone : delimiter.length = 1) :
    d.places.Pairwise fun place place' =>
      delimiter.intercalate place.1 ≠ delimiter.intercalate place'.1 := by
  have hnodup : (d.places.map fun place => delimiter.intercalate place.1).Nodup := by
    refine hd.nodup_places.of_map.map_on ?_
    rintro ⟨keys, state⟩ hplace ⟨keys', state'⟩ hplace' heq
    obtain ⟨hne, hat⟩ := hd.mem_places_iff.1 hplace
    obtain ⟨hne', hat'⟩ := hd.mem_places_iff.1 hplace'
    obtain rfl : keys = keys' := Path.intercalate_inj (hd.delimits hone hat)
      (hd.delimits hone hat') hne hne' heq
    rw [hat] at hat'
    cases hat'
    rfl
  exact List.pairwise_map.1 hnodup

/-- The paths of leaves are different. -/
theorem nodup_leafAt? (hd : d.Orderly delimiter) (hone : delimiter.length = 1) :
    ((d.places.filterMap (leafAt? delimiter)).map FlatLeaf.path).Nodup := by
  refine List.pairwise_map.2 ((pairwise_places hd hone).filterMap _ ?_)
  rintro ⟨keys, state⟩ ⟨keys', state'⟩ hne leaf hleaf leaf' hleaf'
  cases state with
  | composite inner => cases hleaf
  | leaf l =>
    cases state' with
    | composite inner => cases hleaf'
    | leaf l' =>
      cases hleaf
      cases hleaf'
      exact hne

/-- The paths of composites are different. -/
theorem nodup_compositeAt? (hd : d.Orderly delimiter) (hone : delimiter.length = 1) :
    (d.places.filterMap (compositeAt? delimiter)).Nodup := by
  refine (pairwise_places hd hone).filterMap _ ?_
  rintro ⟨keys, state⟩ ⟨keys', state'⟩ hne found hfound found' hfound'
  cases state with
  | leaf l => cases hfound
  | composite inner =>
    cases state' with
    | leaf l => cases hfound'
    | composite inner' =>
      cases hfound
      cases hfound'
      exact fun heq => hne (Prod.mk.inj heq).1

/-- `entryOf?` of each of `d.rules` is there. -/
theorem exists_entryOf? (hd : d.Orderly delimiter)
    (h : entriesIn (PathIndex.ofDefinition delimiter d) none d = .ok entries)
    {rule : List String × TransitionDef} (hrule : rule ∈ d.rules) :
    ∃ target, leads? (PathIndex.ofDefinition delimiter d) (Path.scope? delimiter rule.1)
        rule.2.target = some target ∧
      entryOf? (.ofDefinition delimiter d) rule =
        some (⟨delimiter.intercalate (rule.1 ++ [rule.2.source]), rule.2.event⟩, target) := by
  obtain ⟨level, hlevel, ht⟩ := hd.mem_rules_iff.1 hrule
  obtain ⟨target, htarget⟩ := Option.isSome_iff_exists.1 (isSome_leads? hd h hlevel ht)
  exact ⟨target, htarget, Option.map_eq_some_iff.2 ⟨target, htarget, rfl⟩⟩

/-- `entryOf?` of different `d.rules` are different. -/
theorem nodup_entryOf? (hd : d.Orderly delimiter) (hone : delimiter.length = 1)
    (h : entriesIn (PathIndex.ofDefinition delimiter d) none d = .ok entries) :
    (d.rules.map (entryOf? (.ofDefinition delimiter d))).Nodup := by
  refine hd.nodup_rules.of_map.map_on fun rule hrule rule' hrule' heq => ?_
  obtain ⟨target, -, hentry⟩ := exists_entryOf? hd h hrule
  obtain ⟨target', -, hentry'⟩ := exists_entryOf? hd h hrule'
  rw [hentry, hentry', Option.some.injEq, Prod.mk.injEq, Handler.mk.injEq] at heq
  obtain ⟨⟨hpath, hevent⟩, -⟩ := heq
  obtain ⟨level, hlevel, ht⟩ := hd.mem_rules_iff.1 hrule
  obtain ⟨level', hlevel', ht'⟩ := hd.mem_rules_iff.1 hrule'
  obtain ⟨hkeys, hsource⟩ := hd.intercalate_concat_inj hone hlevel
    ((hd.level? hlevel).source _ ht) hlevel' ((hd.level? hlevel').source _ ht') hpath
  refine List.inj_on_of_nodup_map hd.nodup_rules hrule hrule' ?_
  rw [hkeys, hsource, hevent]

/-! ## Composites and answers -/

/-- `map.toList` has no duplicates. -/
theorem nodup_toList {α β : Type} [Ord α] [Std.TransOrd α] (map : Std.ExtTreeMap α β) :
    map.toList.Nodup := by
  refine List.Nodup.of_map Prod.fst ?_
  rw [Std.ExtTreeMap.map_fst_toList_eq_keys]
  exact Std.ExtTreeMap.nodup_keys

/-- The members of `compositesIn` are `compositeAt?` of `d.places`. -/
theorem mem_compositesIn_iff_compositeAt? (hd : d.Orderly delimiter) (hone : delimiter.length = 1)
    {found : String × String} :
    found ∈ compositesIn (.ofDefinition delimiter d) none d ↔
      found ∈ d.places.filterMap (compositeAt? delimiter) := by
  have hd' : d.Orderly (PathIndex.ofDefinition delimiter d).delimiter := hd
  obtain ⟨path, leaf⟩ := found
  rw [mem_compositesIn_iff hd', List.mem_filterMap]
  constructor
  · rintro ⟨keys, inner, hne, hat, rfl, hleaf⟩
    refine ⟨(keys, .composite inner), hd.mem_places_iff.2 ⟨hne, hat⟩, ?_⟩
    -- Initial states lead to one leaf, so that what is listed is this one.
    have hentered := PathIndex.leafOf_of_at? hd hone hne hat
    obtain rfl := Option.some.inj (hleaf.symm.trans hentered)
    rfl
  · rintro ⟨⟨keys, state⟩, hplace, hfound⟩
    obtain ⟨hne, hat⟩ := hd.mem_places_iff.1 hplace
    cases state with
    | leaf l => cases hfound
    | composite inner =>
      cases hfound
      exact ⟨keys, inner, hne, hat, rfl, PathIndex.leafOf_of_at? hd hone hne hat⟩

/-- **`flat.composites` are `compositeAt?` of `d.places`**, up to order. -/
theorem composites_perm_of_assemble (hd : d.Orderly delimiter) (hone : delimiter.length = 1)
    (h : assemble delimiter d = .ok flat) :
    flat.composites.toList.Perm (d.places.filterMap (compositeAt? delimiter)) := by
  obtain ⟨entries, initial, -, -, rfl⟩ := eq_of_assemble h
  rw [List.perm_ext_iff_of_nodup (nodup_toList _) (nodup_compositeAt? hd hone)]
  rintro ⟨path, leaf⟩
  rw [← mem_compositesIn_iff_compositeAt? hd hone,
    Std.ExtTreeMap.mem_toList_iff_getElem?_eq_some, getElem?_ofList_iff]
  -- The leaf behind a path is a function of the path.
  intro path leaf leaf' hmem hmem'
  have hd' : d.Orderly (PathIndex.ofDefinition delimiter d).delimiter := hd
  obtain ⟨-, -, -, -, -, hleaf⟩ := (mem_compositesIn_iff hd').1 hmem
  obtain ⟨-, -, -, -, -, hleaf'⟩ := (mem_compositesIn_iff hd').1 hmem'
  exact Option.some.inj (hleaf.symm.trans hleaf')

/-- **`flat.transitions` are `entryOf?` of `d.rules`**, up to order. -/
theorem entries_perm_of_assemble (hd : d.Orderly delimiter) (hone : delimiter.length = 1)
    (h : assemble delimiter d = .ok flat) :
    (flat.transitions.toList.map some).Perm
      (d.rules.map (entryOf? (.ofDefinition delimiter d))) := by
  obtain ⟨entries, initial, hentries, -, rfl⟩ := eq_of_assemble h
  rw [List.perm_ext_iff_of_nodup ((nodup_toList _).map fun _ _ => Option.some.inj)
    (nodup_entryOf? hd hone hentries)]
  -- Nothing comes twice on either side, so that it is enough to have the same members.
  have hagree : ∀ handler target target', (handler, target) ∈ entries →
      (handler, target') ∈ entries → target = target' :=
    fun _ _ _ => entries_agree hd hone hentries
  intro found
  rw [List.mem_map, List.mem_map]
  constructor
  · rintro ⟨⟨handler, target⟩, hmem, rfl⟩
    rw [Std.ExtTreeMap.mem_toList_iff_getElem?_eq_some, getElem?_ofList_iff hagree,
      mem_entries_iff hd hentries] at hmem
    obtain ⟨keys, level, t, hlevel, ht, rfl, hleads⟩ := hmem
    exact ⟨(keys, t), hd.mem_rules_iff.2 ⟨level, hlevel, ht⟩,
      Option.map_eq_some_iff.2 ⟨target, hleads, rfl⟩⟩
  · rintro ⟨⟨keys, t⟩, hrule, rfl⟩
    obtain ⟨target, hleads, hentry⟩ := exists_entryOf? hd hentries hrule
    obtain ⟨level, hlevel, ht⟩ := hd.mem_rules_iff.1 hrule
    refine ⟨_, ?_, hentry.symm⟩
    rw [Std.ExtTreeMap.mem_toList_iff_getElem?_eq_some, getElem?_ofList_iff hagree,
      mem_entries_iff hd hentries]
    exact ⟨keys, level, t, hlevel, ht, rfl, hleads⟩

/-! ## The whole flat form -/

/-- `assemble` gives a flat form that accounts for `d`. -/
theorem accounts_of_assemble (hd : d.Orderly delimiter) (hone : delimiter.length = 1)
    (h : assemble delimiter d = .ok flat) : flat.Accounts delimiter d := by
  have hrenders := renders_of_assemble hd hone h
  have hleaves : flat.leaves = d.places.filterMap (leafAt? delimiter) := by
    obtain ⟨entries, initial, -, -, rfl⟩ := eq_of_assemble h
    exact leavesIn_eq_filterMap delimiter d
  have hcomposites := composites_perm_of_assemble hd hone h
  refine ⟨hleaves, hleaves ▸ nodup_leafAt? hd hone, hcomposites,
    entries_perm_of_assemble hd hone h, ?_, ?_, ?_⟩
  · exact hrenders.mem_paths_iff.2 ⟨d.startKeys, hd.standsAt_startKeys, hrenders.initial_eq⟩
  · intro path leaf hcomposite
    have hmem := hcomposites.mem_iff.1 (Std.ExtTreeMap.mem_toList_iff_getElem?_eq_some.2 hcomposite)
    -- A composite leads to the leaf that is entered with it.
    obtain ⟨⟨keys, state⟩, hplace, hfound⟩ := List.mem_filterMap.1 hmem
    cases state with
    | leaf l => cases hfound
    | composite inner =>
      cases hfound
      obtain ⟨-, hat⟩ := hd.mem_places_iff.1 hplace
      refine hrenders.mem_paths_iff.2 ⟨keys ++ inner.startKeys, ?_, rfl⟩
      obtain ⟨l, hl⟩ := Definition.exists_leaf_at?_innerKeys (.composite inner)
        fun level hlevel => hd level (StateDef.levels_of_at? hat hlevel)
      exact ⟨l, by rw [StateDef.at?_append, hat]; exact hl⟩
  · intro source event path htarget
    exact hrenders.mem_paths_iff.2 (hrenders.standsAt source event path htarget)

/-- **Flattening loses and invents nothing.** If `d.problems config.delimiter = some []`, the
delimiter is one character and the policy is `.namespaced`, then `ofDefinition config d` is some
`flat` with `flat.Accounts config.delimiter d`: its leaves are those of `d` in order, its composites
are those of `d` with their initial leaves, its entries are the transitions of `d`, each once, and
each path that is named in it is that of a leaf. -/
theorem exists_accounts {config : FlattenConfig} (h : d.problems config.delimiter = some [])
    (hone : config.delimiter.length = 1) (hcollision : config.eventCollision = .namespaced) :
    ∃ flat, ofDefinition config d = some (.ok flat) ∧ flat.Accounts config.delimiter d := by
  obtain ⟨flat, hflat⟩ := exists_ofDefinition h hcollision
  obtain ⟨-, whole, hwhole, hsettled⟩ := exists_of_ofDefinition hflat
  rw [hcollision] at hsettled
  cases hsettled
  exact ⟨flat, hflat, accounts_of_assemble (Definition.orderly_of_problems h) hone hwhole⟩

/-- A definition where `leave` leads from `Room` to `^Garden`, and `rest` from `Garden` to
`House`. -/
def lodge : Definition :=
  let room := (((({} : Definition).state "Bed").state "Desk").initial "Bed").on "Bed" "rise" "Desk"
  let house := (((({} : Definition).state "Hall").composite "Room" room).initial "Hall").on
    "Room" "leave" "^Garden"
  (((({} : Definition).state "Garden").composite "House" house).initial "Garden").on
    "Garden" "rest" "House"

/-- `exists_accounts` for `lodge` with the delimiter `"/"`. -/
theorem lodge_accounts :
    lodge.problems "/" = some [] ∧ ∃ flat,
      ofDefinition { delimiter := "/", eventCollision := .namespaced } lodge = some (.ok flat) ∧
        flat.Accounts "/" lodge := by
  have hproblems : lodge.problems "/" = some [] := by decide +kernel
  exact ⟨hproblems,
    @exists_accounts lodge { delimiter := "/", eventCollision := .namespaced } hproblems rfl rfl⟩

example : (lodge.places.filterMap (leafAt? "/")).map FlatLeaf.path =
    ["Garden", "House/Hall", "House/Room/Bed", "House/Room/Desk"] := by
  decide +kernel

end FlatDefinition

end Statechart
