import Statechart.Proofs.Closure
import Statechart.Proofs.Shape.Drawing
import Statechart.Proofs.Shape.Views

/-! # The graph of machines that stand one inside the other

A machine that runs a level says of its structure what the level says, whatever state it is in. So
the graph of machines that stand one inside the other shows the levels that they run, with every
target as it is named.

* `Machine.StandsIn.isRegistered`: a machine that runs a level is in a state that its factory knows.
* **`Machine.StandsIn.mem_states_iff`**, `Machine.StandsIn.mem_edges_iff`: what a machine that runs
  a level says of its structure.
* `World.Stands.getElem?_levelShapes`: the machines of a chain, one by one.
* **`World.Stands.isDrawn_within`**: what the graph of such a chain shows. -/

namespace Statechart

variable {ρ γ : Type} {host : Host ρ γ} {config : HierarchyConfig} {delimiter : String}
  {d level : Definition} {state : StateDef} {links : List Link} {keys : List String}
  {key name : String} {child : Option Link} {w : World ρ γ} {e : Engine} {i : Nat}
  {m : Machine (StatePlan ρ)}

/-! ## The structure of a machine -/

namespace Definition

/-- The keys of `levelFactory` are those that `level` declares. -/
theorem IsSound.mem_keys_levelFactory (h : level.IsSound delimiter) :
    key ∈ (levelFactory (ρ := ρ) config level).keys ↔ level.declares key = true := by
  rw [Factory.mem_keys_iff, h.find?_levelFactory, Option.isSome_map]
  rfl

/-- The markers of `levelFactory` are those of the states of `level`. -/
theorem IsSound.isFinal_levelFactory (h : level.IsSound delimiter)
    (hstate : level.state? key = some state) :
    (levelFactory (ρ := ρ) config level).isFinal key = state.isFinal := by
  rw [Factory.isFinal, h.find?_levelFactory, hstate]
  rfl

/-- `staticTarget` of `levelSpec` is the name of a target that is a `.key`. -/
theorem staticTarget_levelSpec {items : List (FactoryItem (StatePlan ρ))} {target : Target} :
    (levelSpec items target).staticTarget = some name ↔ target = .key name := by
  cases target with
  | key own => simp [levelSpec, Spec.staticTarget]
  | choose pick => simp [levelSpec, Spec.staticTarget]

end Definition

namespace Machine

/-- `Machine.StandsIn` gives `Machine.IsRegistered`. -/
theorem StandsIn.isRegistered (h : m.StandsIn host config level key child)
    (hlevel : level.IsSound delimiter) : m.IsRegistered := by
  obtain ⟨state, hstate, hfinal⟩ := h.isFinal_eq
  refine ⟨?_, fun hmarked => ?_⟩
  · rw [h.runs.factory, h.key_eq, hlevel.mem_keys_levelFactory]
    exact Option.isSome_iff_exists.2 ⟨state, hstate⟩
  · rw [h.runs.factory, h.key_eq, hlevel.isFinal_levelFactory hstate, ← hfinal, hmarked]

/-- **The states of `m.describe` are those of `level`.** -/
theorem StandsIn.mem_states_iff (h : m.StandsIn host config level key child)
    (hlevel : level.IsSound delimiter) {shape : StateShape} :
    shape ∈ m.describe.states ↔
      ∃ key state, level.state? key = some state ∧ shape = ⟨key, state.isFinal⟩ := by
  rw [(h.isRegistered hlevel).states_eq, h.runs.factory, List.mem_map]
  constructor
  · rintro ⟨key, hkey, rfl⟩
    obtain ⟨state, hstate⟩ := Option.isSome_iff_exists.1 (hlevel.mem_keys_levelFactory.1 hkey)
    exact ⟨key, state, hstate, by rw [hlevel.isFinal_levelFactory hstate]⟩
  · rintro ⟨key, state, hstate, rfl⟩
    exact ⟨key, hlevel.mem_keys_levelFactory.2 (Option.isSome_iff_exists.2 ⟨state, hstate⟩),
      by rw [hlevel.isFinal_levelFactory hstate]⟩

/-- **The edges of `m.describe` are the transitions of `level` whose targets are a `.key`.** -/
theorem StandsIn.mem_edges_iff (h : m.StandsIn host config level key child)
    (hlevel : level.IsSound delimiter) {edge : EdgeShape} :
    edge ∈ m.describe.edges ↔ ∃ t ∈ level.transitions, ∃ name, t.target = .key name ∧
      edge = ⟨t.source, t.event.name, name⟩ := by
  -- Edges are sorted when they are described, and that adds and drops none.
  have hedges : edge ∈ m.describe.edges ↔ edge ∈ m.edges := List.mem_mergeSort
  rw [hedges, edges, h.runs.table, List.mem_filterMap]
  constructor
  · rintro ⟨⟨⟨source, event⟩, spec⟩, hentry, hedge⟩
    obtain ⟨name, hname, rfl⟩ := Option.map_eq_some_iff.1 hedge
    have hget : (Definition.levelTable config level).get? source event = some spec :=
      Dict.mem_entries_iff.1 hentry
    rw [hlevel.get?_levelTable] at hget
    obtain ⟨t, ht, rfl⟩ := Option.map_eq_some_iff.1 hget
    obtain ⟨hmem, rfl, rfl⟩ := hlevel.transition?_eq_some_iff.1 ht
    exact ⟨t, hmem, name, Definition.staticTarget_levelSpec.1 hname, rfl⟩
  · rintro ⟨t, hmem, name, hname, rfl⟩
    have hget : (Definition.levelTable config level : Table (StatePlan ρ)).get? t.source t.event =
        some (Definition.levelSpec (Definition.stateItems config level.states) t.target) := by
      rw [hlevel.get?_levelTable, hlevel.transition?_eq_some_iff.2 ⟨hmem, rfl, rfl⟩]
      rfl
    refine ⟨_, Dict.mem_entries_iff.2 hget, ?_⟩
    dsimp only
    rw [Definition.staticTarget_levelSpec.2 hname]
    rfl

end Machine

/-! ## The graph of a chain -/

namespace ShapeGraph

variable {scope : Option String} {holdsChild : Bool} {shape : LevelShape}

/-- The nodes in `levelMarks` are those of the states. -/
theorem mem_levelMarks_node_iff {node : ShapeNode} {parent : Option String} :
    .node node parent ∈ levelMarks delimiter scope holdsChild shape ↔
      ∃ state ∈ shape.shape.states, node =
        { key := state.key
          fullKey := Path.join delimiter scope state.key
          isFinal := state.isFinal
          isCompound := holdsChild && state.key == shape.active } ∧ parent = scope := by
  simp only [levelMarks, List.mem_append, List.mem_map, Mark.node.injEq, reduceCtorEq, and_false,
    exists_false, or_false, eq_comm]

/-- The edges in `levelMarks` are those of the edges. -/
theorem mem_levelMarks_edge_iff {source event target : String} :
    .edge source event target ∈ levelMarks delimiter scope holdsChild shape ↔
      ∃ edge ∈ shape.shape.edges, source = Path.join delimiter scope edge.source ∧
        event = edge.event ∧ target = Path.join delimiter scope edge.target := by
  simp only [levelMarks, List.mem_append, List.mem_map, Mark.edge.injEq, reduceCtorEq, and_false,
    exists_false, false_or, eq_comm]

end ShapeGraph

/-- `View.within keys` shows the active state of a level as compound, unless it is the last. -/
theorem View.isCompound_within {active : String} (hactive : keys[i]? = some active) :
    (View.within keys).isCompound (keys.take i ++ [key]) state =
      (decide (i + 1 < keys.length) && key == active) := by
  obtain ⟨hi, rfl⟩ := List.getElem?_eq_some_iff.1 hactive
  have hlength : (keys.take i).length = i := List.length_take_of_le (Nat.le_of_lt hi)
  rw [Bool.eq_iff_iff, View.within, List.any_eq_true, Bool.and_eq_true, decide_eq_true_eq,
    beq_iff_eq]
  constructor
  · rintro ⟨j, hj, heq⟩
    rw [List.mem_range] at hj
    rw [beq_iff_eq] at heq
    -- Keys that are the same are as many, so this can only be the front part up to here.
    obtain rfl : j = i + 1 := by
      have hlengths := congrArg List.length heq
      rw [List.length_append, hlength, List.length_singleton, List.length_take] at hlengths
      omega
    rw [← List.take_append_getElem hi] at heq
    exact ⟨hj, (List.append_singleton_inj.1 heq).2⟩
  · rintro ⟨hnext, rfl⟩
    exact ⟨i + 1, List.mem_range.2 hnext, beq_iff_eq.2 (List.take_append_getElem hi)⟩

namespace World.Stands

variable (hs : w.Stands host config (.composite d) links keys)

include hs

/-- The machine that runs the level at `keys.take i`. -/
theorem exists_of_level? (hi : i < keys.length) (hlevel : d.level? (keys.take i) = some level) :
    ∃ link active m, links[i]? = some link ∧ keys[i]? = some active ∧ w.machine? link = some m ∧
      m.StandsIn host config level active links[i + 1]? := by
  have hlt : i < links.length := hs.length.symm ▸ hi
  have hlink : links[i]? = some links[i] := List.getElem?_eq_getElem hlt
  obtain ⟨level', active, m, hactive, hlevel', hm, hstands⟩ := hs.exists_machine hlink
  rw [Definition.level?_eq_some_iff.2 hlevel'] at hlevel
  cases hlevel
  exact ⟨_, active, m, hlink, hactive, hm, hstands⟩

/-- **The members of `w.levelShapes e`**, one by one. -/
theorem getElem?_levelShapes (hlinks : w.activeLinks e = links) :
    (w.levelShapes e)[i]? = links[i]?.bind fun link =>
      (w.machine? link).map fun m => ⟨m.describe, m.current.state.key⟩ := by
  let shape : Link → LevelShape := fun link =>
    ((w.machine? link).map fun m => ⟨m.describe, m.current.state.key⟩).getD default
  -- There is a machine at every link, so none is left out of the list.
  have hshape : ∀ link ∈ links,
      ((w.machine? link).map fun m => (⟨m.describe, m.current.state.key⟩ : LevelShape)) =
        some (shape link) := by
    intro link hlink
    obtain ⟨m, hm⟩ := hs.exists_of_mem hlink
    simp only [shape, hm, Option.map_some, Option.getD_some]
  rw [levelShapes, hlinks, List.filterMap_congr hshape, List.filterMap_eq_map', List.getElem?_map]
  cases hlink : links[i]? with
  | none => rfl
  | some link => exact (hshape link (List.mem_of_getElem? hlink)).symm

/-- The active keys of `w.levelShapes e` are `keys`. -/
theorem map_active_levelShapes (hlinks : w.activeLinks e = links) :
    (w.levelShapes e).map (·.active) = keys := by
  refine List.ext_getElem? fun i => ?_
  rw [List.getElem?_map, hs.getElem?_levelShapes hlinks]
  cases hlink : links[i]? with
  | none =>
    rw [List.getElem?_eq_none_iff, hs.length] at hlink
    rw [List.getElem?_eq_none hlink]
    rfl
  | some link =>
    obtain ⟨level, key, m, hkey, -, hm, hstands⟩ := hs.exists_machine hlink
    rw [hkey, Option.bind_some, hm]
    exact congrArg some hstands.key_eq

/-- **The members of `levelsMarks` of `w.levelShapes e`** are those of `levelMarks` of the machines
at `links`, each within its scope. -/
theorem mem_levelsMarks_iff (hlinks : w.activeLinks e = links) {mark : ShapeGraph.Mark} :
    mark ∈ ShapeGraph.levelsMarks delimiter none (w.levelShapes e) ↔
      ∃ i link level key m, links[i]? = some link ∧ keys[i]? = some key ∧
        d.level? (keys.take i) = some level ∧ w.machine? link = some m ∧
        m.StandsIn host config level key links[i + 1]? ∧
        mark ∈ ShapeGraph.levelMarks delimiter (Path.scope? delimiter (keys.take i))
          (decide (i + 1 < keys.length)) ⟨m.describe, key⟩ := by
  -- The shapes are those of the machines, and their active states are the keys.
  have hkeys := hs.map_active_levelShapes hlinks
  have hlength : (w.levelShapes e).length = keys.length := by
    rw [← hkeys, List.length_map]
  have hmarks : mark ∈ ShapeGraph.levelsMarks delimiter (Path.scope? delimiter [])
      (w.levelShapes e) ↔ _ := ShapeGraph.mem_levelsMarks_iff
  rw [hkeys, hlength] at hmarks
  refine hmarks.trans ?_
  simp only [hs.getElem?_levelShapes hlinks]
  constructor
  · rintro ⟨i, shape, hshape, hmark⟩
    obtain ⟨link, hlink, hshape⟩ := Option.bind_eq_some_iff.1 hshape
    obtain ⟨level, key, m, hkey, hlevel, hm, hstands⟩ := hs.exists_machine hlink
    rw [hm, Option.map_some, hstands.key_eq] at hshape
    cases hshape
    exact ⟨i, link, level, key, m, hlink, hkey, Definition.level?_eq_some_iff.2 hlevel, hm,
      hstands, hmark⟩
  · rintro ⟨i, link, level, key, m, hlink, hkey, hlevel, hm, hstands, hmark⟩
    refine ⟨i, _, ?_, hmark⟩
    rw [hlink, Option.bind_some, hm, Option.map_some, hstands.key_eq]

/-- **`levelsMarks` of `w.levelShapes e` draws `View.within keys`.** -/
theorem isDrawn_within (hd : d.Sound delimiter) (hlinks : w.activeLinks e = links) :
    (View.within keys).IsDrawn delimiter d
      (ShapeGraph.levelsMarks delimiter none (w.levelShapes e)) := by
  constructor
  · -- The states of the level of each machine.
    intro node parent
    rw [hs.mem_levelsMarks_iff hlinks]
    constructor
    · rintro ⟨i, link, level, active, m, hlink, hactive, hlevel, -, hstands, hmark⟩
      obtain ⟨shape, hshape, rfl, rfl⟩ := ShapeGraph.mem_levelMarks_node_iff.1 hmark
      obtain ⟨key, state, hstate, rfl⟩ := (hstands.mem_states_iff (hd.level? hlevel)).1 hshape
      refine ⟨keys.take i, level, key, state, ⟨i, (List.getElem?_eq_some_iff.1 hactive).1, rfl⟩,
        hlevel, hstate, ?_, rfl⟩
      rw [View.stateNode, View.isCompound_within hactive, Path.join_scope?]
    · rintro ⟨_, level, key, state, ⟨i, hi, rfl⟩, hlevel, hstate, rfl, rfl⟩
      obtain ⟨link, active, m, hlink, hactive, hm, hstands⟩ := hs.exists_of_level? hi hlevel
      refine ⟨i, link, level, active, m, hlink, hactive, hlevel, hm, hstands, ?_⟩
      refine ShapeGraph.mem_levelMarks_node_iff.2 ⟨_,
        (hstands.mem_states_iff (hd.level? hlevel)).2 ⟨key, state, hstate, rfl⟩, ?_, rfl⟩
      rw [View.stateNode, View.isCompound_within hactive, Path.join_scope?]
  · -- The transitions of the level of each machine, as far as their targets are named.
    intro source event target
    rw [hs.mem_levelsMarks_iff hlinks]
    constructor
    · rintro ⟨i, link, level, active, m, hlink, hactive, hlevel, -, hstands, hmark⟩
      obtain ⟨edge, hedge, rfl, rfl, rfl⟩ := ShapeGraph.mem_levelMarks_edge_iff.1 hmark
      obtain ⟨t, ht, name, hname, rfl⟩ := (hstands.mem_edges_iff (hd.level? hlevel)).1 hedge
      refine ⟨keys.take i, level, t, name, ⟨i, (List.getElem?_eq_some_iff.1 hactive).1, rfl⟩,
        hlevel, ht, hname, ?_, rfl, ?_⟩
      · rw [Path.join_scope?]
      · rw [Path.join_scope?]
        rfl
    · rintro ⟨_, level, t, name, ⟨i, hi, rfl⟩, hlevel, ht, hname, rfl, rfl, rfl⟩
      obtain ⟨link, active, m, hlink, hactive, hm, hstands⟩ := hs.exists_of_level? hi hlevel
      refine ⟨i, link, level, active, m, hlink, hactive, hlevel, hm, hstands, ?_⟩
      refine ShapeGraph.mem_levelMarks_edge_iff.2 ⟨_,
        (hstands.mem_edges_iff (hd.level? hlevel)).2 ⟨t, ht, name, hname, rfl⟩, ?_, rfl, ?_⟩
      · rw [Path.join_scope?]
      · rw [Path.join_scope?]
        rfl

end World.Stands

end Statechart
