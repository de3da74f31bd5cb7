import Statechart.Proofs.Shape.Levels

/-! # The graph of a hierarchy is a window on the graph of its flat form

From where a hierarchy stands one sees a part of its definition: the outermost states, and the
states right inside the composites on the active path. The graph of the hierarchy shows these, as
the graph of the flat form does, but for two things. Only the composites on the active path are
shown with states inside, and an edge to a composite ends at the composite and not at the leaf that
is entered with it.

* `FlatDefinition.compositesOn`, `FlatDefinition.inSight`: what one sees from a path.
* **`ShapeGraph.IsWindow`**: a graph is a window on that of a flat definition.
* `FlatDefinition.inSight_eq_true_iff`: which levels one sees.
* **`View.IsDrawn.isWindow`**: a graph that shows the levels at some keys is a window. -/

namespace Statechart

variable {delimiter : String} {d level : Definition} {state : StateDef}
  {flat : FlatDefinition} {active keys : List String} {key name : String}
  {marks : List ShapeGraph.Mark}

/-! ## What one sees from a path -/

namespace FlatDefinition

/-- **The composites on `path`**: those among its `Path.ancestors?`. -/
def compositesOn (flat : FlatDefinition) (path : String) : List String :=
  ((Path.ancestors? flat.delimiter path).getD []).filter fun around =>
    (flat.compositeInitial? around).isSome

/-- **`fullKey` is in sight from `path`**: it is an outermost state, or its parent is one of
`compositesOn path`. -/
def inSight (flat : FlatDefinition) (path fullKey : String) : Bool :=
  match (ShapeGraph.ofFlat flat).parent? fullKey with
  | none => false
  | some none => true
  | some (some parent) => (flat.compositesOn path).contains parent

end FlatDefinition

/-- **`graph` is a window on the graph of `flat`, from `path`.** -/
structure ShapeGraph.IsWindow (flat : FlatDefinition) (path : String) (graph : ShapeGraph) :
    Prop where
  /-- The nodes are those in sight. The composites on the path have states inside, and no others. -/
  node : ∀ fullKey, graph.node? fullKey =
    if flat.inSight path fullKey then
      ((ShapeGraph.ofFlat flat).node? fullKey).map fun node =>
        { node with isCompound := (flat.compositesOn path).contains fullKey }
    else none
  /-- Their parents are the same. -/
  parent : ∀ fullKey, graph.parent? fullKey =
    if flat.inSight path fullKey then (ShapeGraph.ofFlat flat).parent? fullKey else none
  /-- They have the same edges, and the leaf entered at the end of an edge is the same. -/
  target : ∀ source event, (graph.target? source event).map flat.index.leafOf =
    if flat.inSight path source then
      ((ShapeGraph.ofFlat flat).target? source event).map some
    else none
  /-- An edge ends beside its source. -/
  sibling : ∀ source event target, graph.target? source event = some target →
    (graph.node? target).isSome = true ∧ graph.parent? target = graph.parent? source
  /-- The sources that are listed have edges. -/
  listed : ∀ source, source ∈ graph.edges ↔ ∃ event, (graph.target? source event).isSome = true

/-! ## Composites on the active path -/

namespace FlatDefinition

/-- **`compositesOn` of the path of `active` are the paths of its fronts**, but for the last. -/
theorem mem_compositesOn_iff (hd : d.Orderly delimiter) (hone : delimiter.length = 1)
    (h : assemble delimiter d = .ok flat) (hactive : d.StandsAt active) {path : String} :
    path ∈ flat.compositesOn (delimiter.intercalate active) ↔
      ∃ i, i + 1 < active.length ∧ path = delimiter.intercalate (active.take (i + 1)) := by
  have hdelimiter : flat.delimiter = delimiter := by
    rw [FlatDefinition.delimiter, (renders_of_assemble hd hone h).index_eq]
    rfl
  obtain ⟨l, hl⟩ := hactive
  have hdelimits := hd.delimits hone hl
  have hlast : active.length - 1 + 1 = active.length :=
    Nat.sub_add_cancel (List.length_pos_iff.2 (Definition.StandsAt.ne_nil ⟨l, hl⟩))
  rw [compositesOn, hdelimiter, Path.ancestors?_intercalate hdelimits hlast, Option.getD_some,
    List.mem_filter, List.mem_map, isSome_compositeInitial?_iff hd h]
  constructor
  · rintro ⟨⟨front, hfront, rfl⟩, keys, inner, hne, hat, hpath⟩
    obtain ⟨i, hi, rfl⟩ := Path.mem_fronts_iff.1 hfront
    refine ⟨i, ?_, rfl⟩
    have hkey : active[i]? = some active[i] := List.getElem?_eq_getElem (by omega)
    obtain ⟨level, state, -, -, hstate, -, hleaf⟩ := Definition.StandsAt.level? ⟨l, hl⟩ hkey
    -- The last of the active states is a leaf, and so it is no composite.
    by_contra hdeep
    obtain ⟨l', rfl⟩ := hleaf (by omega)
    obtain rfl := Path.intercalate_inj (hd.delimits hone hstate) (hd.delimits hone hat)
      (List.ne_nil_of_length_pos (by rw [List.length_take]; omega)) hne hpath
    rw [hstate] at hat
    cases hat
  · rintro ⟨i, hi, rfl⟩
    have hkey : active[i]? = some active[i] := List.getElem?_eq_getElem (by omega)
    obtain ⟨level, state, -, -, hstate, hcomposite, -⟩ := Definition.StandsAt.level? ⟨l, hl⟩ hkey
    obtain ⟨inner, rfl⟩ := hcomposite hi
    refine ⟨⟨_, Path.mem_fronts_iff.2 ⟨i, by omega, rfl⟩, rfl⟩, _, inner, ?_, hstate, rfl⟩
    exact List.ne_nil_of_length_pos (by rw [List.length_take]; omega)

/-- `compositesOn` of the path of `active` has a state exactly if `View.within active` shows it as
compound. -/
theorem contains_compositesOn (hd : d.Orderly delimiter) (hone : delimiter.length = 1)
    (h : assemble delimiter d = .ok flat) (hactive : d.StandsAt active) (hne : keys ≠ [])
    (hat : (StateDef.composite d).at? keys = some state) :
    (flat.compositesOn (delimiter.intercalate active)).contains (delimiter.intercalate keys) =
      (View.within active).isCompound keys state := by
  obtain ⟨l, hl⟩ := hactive
  rw [Bool.eq_iff_iff, List.contains_iff_mem, mem_compositesOn_iff hd hone h ⟨l, hl⟩, View.within,
    List.any_eq_true]
  simp only [List.mem_range, beq_iff_eq]
  constructor
  · rintro ⟨i, hi, hpath⟩
    have hfront : Path.Delimits delimiter (active.take (i + 1)) :=
      (hd.delimits hone hl).subset fun _ hkey => List.mem_of_mem_take hkey
    exact ⟨i + 1, hi, Path.intercalate_inj (hd.delimits hone hat) hfront hne
      (List.ne_nil_of_length_pos (by rw [List.length_take]; omega)) hpath⟩
  · rintro ⟨_ | i, hi, rfl⟩
    · exact absurd List.take_zero hne
    · exact ⟨i, hi, rfl⟩

/-- **`inSight` from the path of `active` holds of the states of levels that `View.within active`
shows.** -/
theorem inSight_eq_true_iff (hd : d.IsClear delimiter) (h : assemble delimiter d = .ok flat)
    (hactive : d.StandsAt active) (hlevel : d.level? keys = some level)
    (hstate : level.state? key = some state) :
    flat.inSight (delimiter.intercalate active) (delimiter.intercalate (keys ++ [key])) = true ↔
      (View.within active).Shows keys := by
  have horderly := hd.sound.orderly
  have hparent : (ShapeGraph.ofFlat flat).parent? (delimiter.intercalate (keys ++ [key])) =
      some (Path.scope? delimiter keys) := by
    rw [ShapeGraph.ofFlat_eq_drawn,
      (isDrawn_whole hd.sound hd.one h).parent?_eq_some_iff hd hlevel hstate]
    exact ⟨trivial, rfl⟩
  -- What is in sight is settled by the composite that is drawn around a state. There is none around
  -- those of the outermost level.
  rw [inSight, hparent]
  cases keys with
  | nil =>
    refine iff_of_true rfl ⟨0, List.length_pos_iff.2 hactive.ne_nil, List.take_zero.symm⟩
  | cons first rest =>
    have hne : first :: rest ≠ [] := List.cons_ne_nil first rest
    have hat := Definition.level?_eq_some_iff.1 hlevel
    rw [Path.scope?_of_ne_nil hne]
    dsimp only
    rw [contains_compositesOn horderly hd.one h hactive hne hat, View.within, List.any_eq_true]
    simp only [List.mem_range, beq_iff_eq]

/-- `inSight` is `false` where there is no state. -/
theorem inSight_eq_false (hd : d.IsClear delimiter) (h : assemble delimiter d = .ok flat)
    {path fullKey : String} (hnot : ¬ d.IsPath delimiter fullKey) :
    flat.inSight path fullKey = false := by
  rw [inSight, ShapeGraph.ofFlat_eq_drawn,
    (isDrawn_whole hd.sound hd.one h).parent?_eq_none hd hnot]

end FlatDefinition

/-- `leafOf` of the path of a state is the path of the leaf that is entered with it. -/
theorem PathIndex.leafOf_intercalate (hd : d.Orderly delimiter) (hone : delimiter.length = 1)
    (hlevel : d.level? keys = some level) (hname : level.declares name = true) :
    (PathIndex.ofDefinition delimiter d).leafOf (delimiter.intercalate (keys ++ [name])) =
      some (delimiter.intercalate (keys ++ level.enteredKeys name)) := by
  obtain ⟨state, hstate⟩ := Option.isSome_iff_exists.1 hname
  rw [PathIndex.leafOf_of_at? hd hone (by simp) ((Definition.at?_concat hlevel).trans hstate),
    Definition.enteredKeys_of_state? hstate, List.append_assoc, List.singleton_append]

/-! ## The window -/

namespace View.IsDrawn

variable (hlive : (View.within active).IsDrawn delimiter d marks) (hd : d.IsClear delimiter)
  (h : FlatDefinition.assemble delimiter d = .ok flat) (hactive : d.StandsAt active)

include hlive hd h hactive

/-- **`fullKey` is in sight and shown, or it is neither.** -/
theorem sight_cases (fullKey : String) :
    (∃ keys level key state, d.level? keys = some level ∧ level.state? key = some state ∧
        fullKey = delimiter.intercalate (keys ++ [key]) ∧ (View.within active).Shows keys ∧
        flat.inSight (delimiter.intercalate active) fullKey = true) ∨
      (flat.inSight (delimiter.intercalate active) fullKey = false ∧
        (ShapeGraph.drawn marks).node? fullKey = none ∧
        (ShapeGraph.drawn marks).parent? fullKey = none ∧
        ∀ event, (ShapeGraph.drawn marks).target? fullKey event = none) := by
  -- A full key is the path of a state, which is shown or not, or it is not the path of any.
  by_cases hpath : d.IsPath delimiter fullKey
  · obtain ⟨keys, level, key, state, hlevel, hstate, rfl⟩ := hpath
    have hsight := FlatDefinition.inSight_eq_true_iff hd h hactive hlevel hstate
    by_cases hshows : (View.within active).Shows keys
    · exact .inl ⟨keys, level, key, state, hlevel, hstate, rfl, hshows, hsight.2 hshows⟩
    · have hunseen := Bool.eq_false_iff.2 fun hseen => hshows (hsight.1 hseen)
      refine .inr ⟨hunseen, ?_, ?_, fun event => ?_⟩
      · exact Option.eq_none_iff_forall_ne_some.2 fun node hnode =>
          hshows ((hlive.node?_eq_some_iff hd hlevel hstate).1 hnode).1
      · exact Option.eq_none_iff_forall_ne_some.2 fun parent hparent =>
          hshows ((hlive.parent?_eq_some_iff hd hlevel hstate).1 hparent).1
      · exact Option.eq_none_iff_forall_ne_some.2 fun target htarget =>
          hshows ((hlive.target?_eq_some_iff hd hlevel hstate).1 htarget).1
  · exact .inr ⟨FlatDefinition.inSight_eq_false hd h hpath, hlive.node?_eq_none hd hpath,
      hlive.parent?_eq_none hd hpath, fun _ => hlive.target?_eq_none hd hpath⟩

/-- **`node?` of `drawn marks` in terms of `ShapeGraph.ofFlat flat`.** -/
theorem node?_eq (fullKey : String) : (ShapeGraph.drawn marks).node? fullKey =
    if flat.inSight (delimiter.intercalate active) fullKey then
      ((ShapeGraph.ofFlat flat).node? fullKey).map fun node => { node with
        isCompound := (flat.compositesOn (delimiter.intercalate active)).contains fullKey }
    else none := by
  have hwhole := FlatDefinition.isDrawn_whole hd.sound hd.one h
  obtain ⟨keys, level, key, state, hlevel, hstate, rfl, hshows, hsight⟩ | ⟨hsight, hnone, -⟩ :=
    hlive.sight_cases hd h hactive fullKey
  · have hat := (Definition.at?_concat hlevel).trans hstate
    rw [hsight, ShapeGraph.ofFlat_eq_drawn,
      (hlive.node?_eq_some_iff hd hlevel hstate).2 ⟨hshows, rfl⟩,
      (hwhole.node?_eq_some_iff hd hlevel hstate).2 ⟨trivial, rfl⟩,
      FlatDefinition.contains_compositesOn hd.sound.orderly hd.one h hactive (by simp) hat]
    rfl
  · rw [hsight, hnone]
    rfl

/-- **`parent?` of `drawn marks` in terms of `ShapeGraph.ofFlat flat`.** -/
theorem parent?_eq (fullKey : String) : (ShapeGraph.drawn marks).parent? fullKey =
    if flat.inSight (delimiter.intercalate active) fullKey then
      (ShapeGraph.ofFlat flat).parent? fullKey
    else none := by
  have hwhole := FlatDefinition.isDrawn_whole hd.sound hd.one h
  obtain ⟨keys, level, key, state, hlevel, hstate, rfl, hshows, hsight⟩ | ⟨hsight, -, hnone, -⟩ :=
    hlive.sight_cases hd h hactive fullKey
  · rw [hsight, ShapeGraph.ofFlat_eq_drawn,
      (hlive.parent?_eq_some_iff hd hlevel hstate).2 ⟨hshows, rfl⟩,
      (hwhole.parent?_eq_some_iff hd hlevel hstate).2 ⟨trivial, rfl⟩]
    rfl
  · rw [hsight, hnone]
    rfl

/-- **`target?` of `drawn marks` in terms of `ShapeGraph.ofFlat flat`**, up to `leafOf`. -/
theorem leafOf_target?_eq (source event : String) :
    ((ShapeGraph.drawn marks).target? source event).map flat.index.leafOf =
      if flat.inSight (delimiter.intercalate active) source then
        ((ShapeGraph.ofFlat flat).target? source event).map some
      else none := by
  have hwhole := FlatDefinition.isDrawn_whole hd.sound hd.one h
  have hindex : flat.index = .ofDefinition delimiter d :=
    (FlatDefinition.renders_of_assemble hd.sound.orderly hd.one h).index_eq
  obtain ⟨keys, level, key, state, hlevel, hstate, rfl, hshows, hsight⟩ | ⟨hsight, -, -, hnone⟩ :=
    hlive.sight_cases hd h hactive source
  · rw [hsight, ShapeGraph.ofFlat_eq_drawn, if_pos rfl]
    by_cases htransition : ∃ t ∈ level.transitions, ∃ name, t.source = key ∧
        t.event.name = event ∧ t.target = .key name
    · -- The edge leads to a state of the level here, and to the leaf entered with it there.
      obtain ⟨t, ht, name, rfl, rfl, hname⟩ := htransition
      have hnear := (hlive.target?_eq_some_iff hd hlevel hstate).2
        ⟨hshows, t, ht, name, rfl, rfl, hname, rfl⟩
      have hfar := (hwhole.target?_eq_some_iff hd hlevel hstate).2
        ⟨trivial, t, ht, name, rfl, rfl, hname, rfl⟩
      rw [hnear, hfar, Option.map_some, Option.map_some, hindex]
      exact congrArg some (PathIndex.leafOf_intercalate hd.sound.orderly hd.one hlevel
        ((hd.sound.level? hlevel).target t ht name hname))
    · have hnone : ∀ {view : View} {marks : List ShapeGraph.Mark},
          view.IsDrawn delimiter d marks → (ShapeGraph.drawn marks).target?
            (delimiter.intercalate (keys ++ [key])) event = none := by
        intro view marks hdrawn
        refine Option.eq_none_iff_forall_ne_some.2 fun target htarget => htransition ?_
        obtain ⟨-, t, ht, name, hsource, hevent, hname, -⟩ :=
          (hdrawn.target?_eq_some_iff hd hlevel hstate).1 htarget
        exact ⟨t, ht, name, hsource, hevent, hname⟩
      rw [hnone hlive, hnone hwhole]
      rfl
  · rw [hsight, hnone]
    rfl

/-- **`target?` of `drawn marks` has the parent of its source.** -/
theorem target?_beside {source event target : String}
    (htarget : (ShapeGraph.drawn marks).target? source event = some target) :
    ((ShapeGraph.drawn marks).node? target).isSome = true ∧
      (ShapeGraph.drawn marks).parent? target = (ShapeGraph.drawn marks).parent? source := by
  obtain ⟨keys, level, key, state, hlevel, hstate, rfl, hshows, -⟩ | ⟨-, -, -, hnone⟩ :=
    hlive.sight_cases hd h hactive source
  · obtain ⟨-, t, ht, name, rfl, rfl, hname, rfl⟩ :=
      (hlive.target?_eq_some_iff hd hlevel hstate).1 htarget
    obtain ⟨state', hstate'⟩ := Option.isSome_iff_exists.1
      ((hd.sound.level? hlevel).target t ht name hname)
    have hnode := (hlive.node?_eq_some_iff hd hlevel hstate').2 ⟨hshows, rfl⟩
    refine ⟨Option.isSome_iff_exists.2 ⟨_, hnode⟩, ?_⟩
    rw [(hlive.parent?_eq_some_iff hd hlevel hstate).2 ⟨hshows, rfl⟩]
    exact (hlive.parent?_eq_some_iff hd hlevel hstate').2 ⟨hshows, rfl⟩
  · rw [hnone] at htarget
    cases htarget

/-- **`drawn marks` is a window on the graph of `flat`** if `marks` draw `View.within active`. -/
theorem isWindow : (ShapeGraph.drawn marks).IsWindow flat (delimiter.intercalate active) where
  node := hlive.node?_eq hd h hactive
  parent := hlive.parent?_eq hd h hactive
  target := hlive.leafOf_target?_eq hd h hactive
  sibling _ _ _ := hlive.target?_beside hd h hactive
  listed _ := hlive.mem_edges_iff hd

end View.IsDrawn

end Statechart
