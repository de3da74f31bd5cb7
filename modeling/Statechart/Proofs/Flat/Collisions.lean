import Statechart.Proofs.Flat.Gate

/-! # Which events collide

An event collides if a composite and a state inside it both handle it. This can be said of a
definition, without its flat form and without a delimiter. If composites come first, the states
inside them lose the answers that collide, and no others.

* `Definition.Handles`: a state has a transition for an event on its level.
* **`Definition.Collides`**: the name of an event is handled by a composite and inside it.
* `Definition.Overrides`: an answer that is lost if composites come first.
* `Path.isBelow_intercalate_iff`: which paths are below the path of a composite.
* **`FlatDefinition.mem_collisions_iff`**: collisions of a flat form are those of its definition.
* `FlatDefinition.isSome_target?_allowShadow_iff`: what is left if composites come first. -/

namespace Statechart

/-! ## Paths below a path -/

namespace Path

/-- Every text is `intercalate` of some keys that `c` sets apart. -/
theorem exists_intercalate (c : Char) (text : List Char) :
    ∃ keys, keys ≠ [] ∧ Delimits (String.singleton c) keys ∧
      (String.singleton c).intercalate keys = String.ofList text := by
  -- By induction over the text: the delimiter begins a new key, and other characters go to the
  -- first one.
  induction text with
  | nil => exact ⟨[""], by simp, ⟨c, rfl, by simp⟩, by simp⟩
  | cons b rest ih =>
    obtain ⟨keys, hne, ⟨c', hcc, hkeys⟩, hpath⟩ := ih
    obtain rfl : c = c' := by simpa using congrArg String.toList hcc
    have htext : String.ofList (b :: rest) = String.singleton b ++ String.ofList rest := by
      simp
    rw [htext, ← hpath]
    by_cases hb : b = c
    · subst hb
      refine ⟨"" :: keys, List.cons_ne_nil _ _, ⟨b, rfl, ?_⟩, ?_⟩
      · simpa using hkeys
      · rw [String.intercalate_cons_of_ne_nil hne, String.empty_append]
    · cases keys with
      | nil => exact absurd rfl hne
      | cons key tail =>
        refine ⟨(String.singleton b ++ key) :: tail, List.cons_ne_nil _ _, ⟨c, rfl, ?_⟩, ?_⟩
        · simpa [Ne.symm hb] using hkeys
        · cases tail with
          | nil => simp
          | cons next tail =>
            rw [String.intercalate_cons_of_ne_nil (List.cons_ne_nil _ _),
              String.intercalate_cons_of_ne_nil (List.cons_ne_nil _ _)]
            simp only [String.append_assoc]

/-- **`isBelow` of two paths holds exactly if `keys'` goes on after `keys`.** -/
theorem isBelow_intercalate_iff {delimiter : String} {keys keys' : List String}
    (h : Delimits delimiter keys) (h' : Delimits delimiter keys') (hne : keys ≠ []) :
    FlatDefinition.isBelow delimiter (delimiter.intercalate keys) (delimiter.intercalate keys') =
        true ↔ ∃ inside, inside ≠ [] ∧ keys' = keys ++ inside := by
  constructor
  · intro hbelow
    obtain ⟨after, hafter⟩ := List.isPrefixOf_iff_prefix.1 hbelow
    obtain ⟨c, rfl, hc⟩ := h
    -- What comes after the delimiter is a path as well.
    obtain ⟨inside, hinside, hdelimits, hpath⟩ := exists_intercalate c after
    obtain ⟨c', hcc, hc'⟩ := hdelimits
    obtain rfl : c = c' := by simpa using congrArg String.toList hcc
    have hwhole : (String.singleton c).intercalate keys' =
        (String.singleton c).intercalate (keys ++ inside) := by
      rw [String.intercalate_append_of_ne_nil hne hinside, hpath, ← String.toList_inj, ← hafter]
      simp
    refine ⟨inside, hinside, intercalate_inj h' ⟨c, rfl, ?_⟩ ?_ (by simp [hne]) hwhole⟩
    · intro key hkey
      rcases List.mem_append.1 hkey with hkey | hkey
      · exact hc key hkey
      · exact hc' key hkey
    · rintro rfl
      simp at hafter
  · rintro ⟨inside, hinside, rfl⟩
    refine List.isPrefixOf_iff_prefix.2 ⟨(delimiter.intercalate inside).toList, ?_⟩
    rw [String.intercalate_append_of_ne_nil hne hinside]
    simp only [String.toList_append]

end Path

variable {delimiter : String} {d : Definition} {keys : List String} {event : EventKey}

/-! ## What a definition says -/

namespace Definition

/-- **The state at `keys` handles `event`**: on its level there is a transition for it. -/
def Handles (d : Definition) (keys : List String) (event : EventKey) : Prop :=
  ∃ outer key level, keys = outer ++ [key] ∧ d.level? outer = some level ∧
    (level.transition? key event).isSome = true

/-- **A composite around `keys` handles the domain event `event`** as well. -/
def Overrides (d : Definition) (keys : List String) (event : EventKey) : Prop :=
  event.isReserved = false ∧
    ∃ outer inside, inside ≠ [] ∧ keys = outer ++ inside ∧ d.Handles outer event

/-- **The domain event `name` collides**: a state handles it that some composite overrides. -/
def Collides (d : Definition) (name : String) : Prop :=
  ∃ keys, d.Handles keys (.domain name) ∧ d.Overrides keys (.domain name)

/-- A state that handles an event is declared. -/
theorem Handles.exists_at? (h : d.Handles keys event) (hd : d.Orderly delimiter) :
    ∃ state, (StateDef.composite d).at? keys = some state := by
  obtain ⟨outer, key, level, rfl, hlevel, hsome⟩ := h
  obtain ⟨t, ht⟩ := Option.isSome_iff_exists.1 hsome
  obtain ⟨hmem, rfl, -⟩ := (hd.level? hlevel).transition?_eq_some_iff.1 ht
  rw [at?_concat hlevel]
  exact Option.isSome_iff_exists.1 ((hd.level? hlevel).source t hmem)

/-- A state that handles an event has a key. -/
theorem Handles.ne_nil (h : d.Handles keys event) : keys ≠ [] := by
  obtain ⟨outer, key, level, rfl, -, -⟩ := h
  simp

/-- There is a composite at `keys` if there is a state at `keys ++ inside`. -/
theorem exists_composite_of_at?_append {keys inside : List String} {state : StateDef}
    (hne : inside ≠ []) (h : (StateDef.composite d).at? (keys ++ inside) = some state) :
    ∃ inner, (StateDef.composite d).at? keys = some (.composite inner) := by
  rw [StateDef.at?_append] at h
  obtain ⟨outer, houter, hat⟩ := Option.bind_eq_some_iff.1 h
  cases outer with
  | composite inner => exact ⟨inner, houter⟩
  | leaf l =>
    cases inside with
    | nil => exact absurd rfl hne
    | cons key rest => cases hat

end Definition

/-! ## What a flat form says -/

namespace FlatDefinition

variable {whole flat : FlatDefinition} {c : Collision}

/-- `flat.target?` under the path of a declared state is there exactly if `d.Handles`. -/
theorem Renders.isSome_target?_iff (h : flat.Renders delimiter d) (hne : keys ≠ [])
    {state : StateDef} (hat : (StateDef.composite d).at? keys = some state) :
    (flat.target? (delimiter.intercalate keys) event).isSome = true ↔ d.Handles keys event := by
  obtain ⟨outer, key, rfl⟩ : ∃ outer key, keys = outer ++ [key] :=
    ⟨keys.dropLast, keys.getLast hne, (List.dropLast_append_getLast hne).symm⟩
  obtain ⟨level, hlevel, hstate⟩ := Definition.exists_level?_of_at?_concat hat
  rw [h.filed outer level key event hlevel (Option.isSome_iff_exists.2 ⟨state, hstate⟩)]
  constructor
  · -- An answer comes from a transition of the level, and each of these leads to an answer.
    intro hsome
    obtain ⟨target, htarget⟩ := Option.isSome_iff_exists.1 hsome
    obtain ⟨t, ht, -⟩ := Option.bind_eq_some_iff.1 htarget
    exact ⟨outer, key, level, rfl, hlevel, by rw [ht]; rfl⟩
  · rintro ⟨outer', key', level', heq, hlevel', hsome⟩
    obtain ⟨rfl, rfl⟩ := List.append_singleton_inj.1 heq
    rw [hlevel] at hlevel'
    cases hlevel'
    obtain ⟨t, ht⟩ := Option.isSome_iff_exists.1 hsome
    rw [ht, Option.bind_some]
    exact h.leads outer level t hlevel ((h.orderly.level? hlevel).transition?_eq_some_iff.1 ht).1

/-- `whole.target?` is there only under paths of states that handle the event. -/
theorem exists_handles_of_target? (hd : d.Orderly delimiter) (h : assemble delimiter d = .ok whole)
    {source : String} (hsome : (whole.target? source event).isSome = true) :
    ∃ keys, source = delimiter.intercalate keys ∧ d.Handles keys event := by
  obtain ⟨target, htarget⟩ := Option.isSome_iff_exists.1 hsome
  obtain ⟨keys, level, t, hlevel, ht, rfl, rfl, -⟩ := exists_of_target? hd h htarget
  have htransition := (hd.level? hlevel).transition?_eq_some_iff.2 ⟨ht, rfl, rfl⟩
  exact ⟨keys ++ [t.source], rfl, keys, t.source, level, rfl, hlevel, by rw [htransition]; rfl⟩

/-- `whole.compositeInitial?` is there for every composite of `d`. -/
theorem isSome_compositeInitial? (hd : d.Orderly delimiter) (h : assemble delimiter d = .ok whole)
    {inner : Definition} (hne : keys ≠ [])
    (hat : (StateDef.composite d).at? keys = some (.composite inner)) :
    (whole.compositeInitial? (delimiter.intercalate keys)).isSome = true := by
  have hd' : d.Orderly (PathIndex.ofDefinition delimiter d).delimiter := hd
  obtain ⟨leaf, hleaf⟩ := PathIndex.exists_leafOf hd (PathIndex.mem_nodes hd hne hat)
  obtain ⟨entries, initial, -, -, rfl⟩ := eq_of_assemble h
  have hmem : (delimiter.intercalate keys, leaf) ∈
      compositesIn (.ofDefinition delimiter d) none d :=
    (mem_compositesIn_iff hd').2 ⟨keys, inner, hne, hat, rfl, hleaf⟩
  rw [compositeInitial?, Std.ExtTreeMap.isSome_getElem?_iff_mem, Std.ExtTreeMap.mem_ofList,
    List.contains_iff_mem]
  exact List.mem_map_of_mem hmem

/-- **`whole.collisions` are the pairs of a composite and a state inside it that both handle an
event.** -/
theorem mem_collisions_iff (hd : d.Orderly delimiter) (hone : delimiter.length = 1)
    (h : assemble delimiter d = .ok whole) : c ∈ whole.collisions ↔
    ∃ keys inside, inside ≠ [] ∧ c.composite = delimiter.intercalate keys ∧
      c.child = delimiter.intercalate (keys ++ inside) ∧ c.event.isReserved = false ∧
      d.Handles keys c.event ∧ d.Handles (keys ++ inside) c.event := by
  have hrenders := renders_of_assemble hd hone h
  have hdelimiter : whole.delimiter = delimiter := by
    rw [FlatDefinition.delimiter, hrenders.index_eq]
    rfl
  rw [mem_collisions_iff_target?, hdelimiter]
  constructor
  · rintro ⟨hcomposite, hown, hreserved, hbelow, hother⟩
    -- The paths come from keys, and one is below the other exactly if its keys begin with the
    -- others.
    obtain ⟨leaf, hleaf⟩ := Option.isSome_iff_exists.1 hcomposite
    obtain ⟨keys, inner, hne, hat, hpath⟩ := exists_of_compositeInitial? hd h hleaf
    obtain ⟨keys', hpath', hhandles'⟩ := exists_handles_of_target? hd h hother
    obtain ⟨state', hat'⟩ := hhandles'.exists_at? hd
    rw [hpath, hpath', Path.isBelow_intercalate_iff (hd.delimits hone hat)
      (hd.delimits hone hat') hne] at hbelow
    obtain ⟨inside, hinside, rfl⟩ := hbelow
    rw [hpath] at hown
    exact ⟨keys, inside, hinside, hpath, hpath', hreserved,
      (hrenders.isSome_target?_iff hne hat).1 hown, hhandles'⟩
  · rintro ⟨keys, inside, hinside, hpath, hpath', hreserved, hhandles, hhandles'⟩
    obtain ⟨state', hat'⟩ := hhandles'.exists_at? hd
    obtain ⟨inner, hat⟩ := Definition.exists_composite_of_at?_append hinside hat'
    have hne := hhandles.ne_nil
    rw [hpath, hpath']
    refine ⟨isSome_compositeInitial? hd h hne hat, (hrenders.isSome_target?_iff hne hat).2 hhandles,
      hreserved, ?_, (hrenders.isSome_target?_iff hhandles'.ne_nil hat').2 hhandles'⟩
    exact (Path.isBelow_intercalate_iff (hd.delimits hone hat) (hd.delimits hone hat') hne).2
      ⟨inside, hinside, rfl⟩

/-- `d.Collides name` exactly if `whole.collisions` has one over `name`. -/
theorem collides_iff (hd : d.Orderly delimiter) (hone : delimiter.length = 1)
    (h : assemble delimiter d = .ok whole) (name : String) :
    d.Collides name ↔ ∃ c ∈ whole.collisions, c.event = .domain name := by
  constructor
  · rintro ⟨keys, hhandles, hdomain, outer, inside, hne, rfl, houter⟩
    exact ⟨⟨delimiter.intercalate outer, .domain name, delimiter.intercalate (outer ++ inside)⟩,
      (mem_collisions_iff hd hone h).2 ⟨outer, inside, hne, rfl, rfl, hdomain, houter, hhandles⟩,
      rfl⟩
  · rintro ⟨c, hc, hevent⟩
    obtain ⟨keys, inside, hne, -, -, hdomain, hhandles, hinside⟩ :=
      (mem_collisions_iff hd hone h).1 hc
    rw [hevent] at hdomain hhandles hinside
    exact ⟨keys ++ inside, hinside, hdomain, keys, inside, hne, rfl, hhandles⟩

/-! ## What is left if composites come first -/

/-- **`flat.target?` after `.allowShadow` is there exactly if `d.Handles` and not
`d.Overrides`.** -/
theorem isSome_target?_allowShadow_iff (hd : d.Orderly delimiter) (hone : delimiter.length = 1)
    (h : assemble delimiter d = .ok whole)
    (hsettled : settleCollisions .allowShadow whole = .ok flat) {state : StateDef}
    (hne : keys ≠ []) (hat : (StateDef.composite d).at? keys = some state) :
    (flat.target? (delimiter.intercalate keys) event).isSome = true ↔
      d.Handles keys event ∧ ¬ d.Overrides keys event := by
  have hrenders := renders_of_assemble hd hone h
  rw [target?_of_allowShadow hsettled, ← hrenders.isSome_target?_iff hne hat]
  constructor
  · intro hsome
    obtain ⟨target, htarget⟩ := Option.isSome_iff_exists.1 hsome
    obtain ⟨hwhole, hkept⟩ := Option.filter_eq_some_iff.1 htarget
    have hsome := Option.isSome_iff_exists.2 ⟨_, hwhole⟩
    have hhandles := (hrenders.isSome_target?_iff hne hat).1 hsome
    refine ⟨by rw [hwhole]; rfl, ?_⟩
    rintro ⟨hdomain, outer, inside, hinside, rfl, houter⟩
    rw [Bool.not_eq_true', List.any_eq_false] at hkept
    refine hkept ⟨delimiter.intercalate outer, event, delimiter.intercalate (outer ++ inside)⟩ ?_
      (by simp)
    exact (mem_collisions_iff hd hone h).2
      ⟨outer, inside, hinside, rfl, rfl, hdomain, houter, hhandles⟩
  · rintro ⟨hsome, hkept⟩
    obtain ⟨target, htarget⟩ := Option.isSome_iff_exists.1 hsome
    rw [htarget, Option.filter_some, if_pos]
    · rfl
    · rw [Bool.not_eq_true', List.any_eq_false]
      intro c hc hsame
      rw [Bool.and_eq_true, beq_iff_eq, beq_iff_eq] at hsame
      obtain ⟨outer, inside, hinside, -, hchild, hdomain, houter, hhandles⟩ :=
        (mem_collisions_iff hd hone h).1 hc
      rw [hsame.2] at hdomain houter hhandles
      obtain ⟨state', hat'⟩ := hhandles.exists_at? hd
      -- The path of the collision is that of the state, so the composite is around it.
      refine hkept ⟨hdomain, outer, inside, hinside, ?_, houter⟩
      exact Path.intercalate_inj (hd.delimits hone hat) (hd.delimits hone hat') hne
        hhandles.ne_nil (hsame.1.symm.trans hchild)

/-- **`.allowShadow` changes no answer to events that do not collide.** -/
theorem target?_eq_of_not_collides (hd : d.Orderly delimiter) (hone : delimiter.length = 1)
    (h : assemble delimiter d = .ok whole)
    (hsettled : settleCollisions .allowShadow whole = .ok flat) {name : String}
    (hfree : ¬ d.Collides name) (source : String) :
    flat.target? source (.domain name) = whole.target? source (.domain name) := by
  rw [target?_of_allowShadow hsettled]
  have hnone : (whole.collisions.any fun c => c.child == source && c.event == .domain name) =
      false := by
    rw [List.any_eq_false]
    intro c hc hsame
    rw [Bool.and_eq_true, beq_iff_eq, beq_iff_eq] at hsame
    exact hfree ((collides_iff hd hone h name).2 ⟨c, hc, hsame.2⟩)
  cases whole.target? source (.domain name) <;> simp [hnone]

end FlatDefinition

end Statechart
