import Statechart.Proofs.Flat.Inventory
import Statechart.Proofs.Flat.Sitting
import Statechart.Proofs.Shape.Views

/-! # What the graph of a flat form foretells

The graph of a flat form is drawn before any machine runs. It has the states of the definition for
its nodes, and an edge for every answer that stays and that always leads to the same leaf. Whatever
the machine of the flat form is asked, when it enters a state, the graph has foretold the state: it
is where the edge for the event ends, which starts at the path under which the answer was found.
Where the parameters of the event decide, there is no edge.

* `Definition.nodeOf`, `Definition.parentOf`: the node of a state and its parent.
* **`ShapeGraph.Charts`**: a graph charts a definition. **`FlatDefinition.charts_ofFlat`**: the
  graph of a flat form does.
* `FlatDefinition.target?_ofFlat_iff`: the edges of the graph are answers.
* `World.Receives`: an event arrives at a machine, or its turn comes.
* **`ShapeGraph.Foretells`**, **`FlatDefinition.graph_foretells`**: the graph foretells what every
  run enters. -/

namespace Statechart

variable {ρ γ : Type} {delimiter : String} {d : Definition} {flat : FlatDefinition}
  {config : FlattenConfig} {keys : List String} {key : String} {state : StateDef}
  {source event target : String}

/-- The node of the state `place.2` at the keys `place.1`. -/
def Definition.nodeOf (delimiter : String) (place : List String × StateDef) : ShapeNode where
  key := place.1.getLastD ""
  fullKey := delimiter.intercalate place.1
  isFinal := place.2.isFinal
  isCompound := place.2.isComposite

/-- The path of the composite around the state at the keys `place.1`. The outermost states have
none. -/
def Definition.parentOf (delimiter : String) (place : List String × StateDef) : Option String :=
  Path.scope? delimiter place.1.dropLast

/-- **`graph` charts `d`**: its nodes, its parents and its edges are those of `d`. -/
structure ShapeGraph.Charts (graph : ShapeGraph) (delimiter : String) (d : Definition) :
    Prop where
  /-- The nodes are the states, each once, under its path. -/
  nodes_perm : graph.nodes.toList.Perm
    (d.places.map fun place => (delimiter.intercalate place.1, Definition.nodeOf delimiter place))
  /-- The parent of each node is the path of the composite that declares the state. -/
  hierarchy_perm : graph.hierarchy.toList.Perm
    (d.places.map fun place => (delimiter.intercalate place.1, Definition.parentOf delimiter place))
  /-- A parent is a node with states inside. -/
  parent_compound : ∀ path parent, graph.parent? path = some (some parent) →
    ∃ node, graph.node? parent = some node ∧ node.isCompound = true
  /-- An edge starts in a node. -/
  edge_source : ∀ source event target, graph.target? source event = some target →
    (graph.node? source).isSome = true
  /-- An edge ends in a leaf. -/
  edge_target : ∀ source event target, graph.target? source event = some target →
    ∃ node, graph.node? target = some node ∧ node.isCompound = false
  /-- There is no edge for a transition whose target the parameters determine. -/
  choice : ∀ keys t pick, (keys, t) ∈ d.rules → t.target = .choose pick →
    graph.target? (delimiter.intercalate (keys ++ [t.source])) t.event.name = none

namespace FlatDefinition

open ShapeGraph (flatMarks Mark drawn)

/-! ## Nodes -/

/-- `View.whole.stateNode` is `Definition.nodeOf`. -/
theorem stateNode_whole (delimiter : String) (keys : List String) (key : String)
    (state : StateDef) :
    View.whole.stateNode delimiter keys key state =
      Definition.nodeOf delimiter (keys ++ [key], state) := by
  rw [View.stateNode, Definition.nodeOf, List.getLastD_concat]
  rfl

/-- **`flat.target?` is `leads?` of one of `d.rules`.** -/
theorem exists_rule_of_target? (h : ofDefinition config d = some (.ok flat)) {event : EventKey}
    {target : FlatTarget} (htarget : flat.target? source event = some target) :
    ∃ keys t, (keys, t) ∈ d.rules ∧
      source = config.delimiter.intercalate (keys ++ [t.source]) ∧ t.event = event ∧
      leads? (.ofDefinition config.delimiter d) (Path.scope? config.delimiter keys) t.target =
        some target := by
  obtain ⟨hproblems, whole, hwhole, hsettled⟩ := exists_of_ofDefinition h
  have hd := Definition.orderly_of_problems hproblems
  obtain ⟨keys, level, t, hlevel, ht, hsource, hevent, hleads⟩ :=
    exists_of_target? hd hwhole (target?_of_settleCollisions hsettled htarget)
  exact ⟨keys, t, hd.mem_rules_iff.2 ⟨level, hlevel, ht⟩, hsource, hevent.symm, hleads⟩

/-- The events of `d.rules` are equal if their names are. -/
theorem eq_of_event_name (hbuilt : d.IsBuilt) (h : ofDefinition config d = some (.ok flat))
    {rule rule' : List String × TransitionDef} (hrule : rule ∈ d.rules) (hrule' : rule' ∈ d.rules)
    (hname : rule.2.event.name = rule'.2.event.name) : rule.2.event = rule'.2.event := by
  have hd := Definition.orderly_of_problems (exists_of_ofDefinition h).1
  have hnamed : ∀ rule ∈ d.rules, EventKey.ofName? rule.2.event.name = some rule.2.event := by
    rintro ⟨keys, t⟩ hrule
    obtain ⟨level, hlevel, ht⟩ := hd.mem_rules_iff.1 hrule
    exact hbuilt.hasNames level (Definition.mem_levels_of_level? hlevel) t ht
  have hkey := hnamed rule hrule
  rw [hname, hnamed rule' hrule', Option.some.injEq] at hkey
  exact hkey.symm

section Checked

variable (hone : config.delimiter.length = 1) (h : ofDefinition config d = some (.ok flat))

include hone h

/-- **The nodes in `flatMarks flat` are those of `d.places`**, whatever `config.eventCollision`
is. -/
theorem mem_flatMarks_node_iff_place {node : ShapeNode} {parent : Option String} :
    .node node parent ∈ flatMarks flat ↔ ∃ place ∈ d.places,
      node = Definition.nodeOf config.delimiter place ∧
      parent = Definition.parentOf config.delimiter place := by
  obtain ⟨hproblems, whole, hwhole, hsettled⟩ := exists_of_ofDefinition h
  have hd := Definition.orderly_of_problems hproblems
  obtain ⟨hindex, hcomposites⟩ := names_of_settleCollisions hsettled
  -- Collisions take away answers and no states.
  have hmarks : .node node parent ∈ flatMarks flat ↔ .node node parent ∈ flatMarks whole := by
    rw [mem_flatMarks_node_iff, mem_flatMarks_node_iff, FlatDefinition.delimiter, hindex,
      (eq_of_settleCollisions hsettled).1]
    simp only [compositeInitial?, hcomposites, FlatDefinition.delimiter]
  rw [hmarks, mem_flatMarks_node_iff_exists hd hone hwhole]
  constructor
  · rintro ⟨keys, level, key, state, hlevel, hstate, rfl, rfl⟩
    refine ⟨(keys ++ [key], state), hd.mem_places_iff.2 ⟨by simp, ?_⟩, stateNode_whole .., ?_⟩
    · exact (Definition.at?_concat hlevel).trans hstate
    · rw [Definition.parentOf, List.dropLast_concat]
  · rintro ⟨⟨keys, state⟩, hplace, rfl, rfl⟩
    obtain ⟨hne, hat⟩ := hd.mem_places_iff.1 hplace
    obtain ⟨outer, key, level, rfl, hlevel, hstate, -⟩ := exists_level_of_at? hd hone hne hat
    refine ⟨outer, level, key, state, hlevel, hstate, (stateNode_whole ..).symm, ?_⟩
    rw [Definition.parentOf, List.dropLast_concat]

/-- The paths of `d.places` are different. -/
theorem nodup_paths : (d.places.map fun place => config.delimiter.intercalate place.1).Nodup :=
  List.pairwise_map.2
    (pairwise_places (Definition.orderly_of_problems (exists_of_ofDefinition h).1) hone)

/-- **`flatMarks flat` agree** (`ShapeGraph.Agree`). -/
theorem agree_flatMarks (hbuilt : d.IsBuilt) : ShapeGraph.Agree (flatMarks flat) := by
  constructor
  · intro node parent node' parent' hmark hmark' hpath
    obtain ⟨place, hplace, rfl, rfl⟩ := (mem_flatMarks_node_iff_place hone h).1 hmark
    obtain ⟨place', hplace', rfl, rfl⟩ := (mem_flatMarks_node_iff_place hone h).1 hmark'
    obtain rfl := List.inj_on_of_nodup_map (nodup_paths hone h) hplace hplace' hpath
    exact ⟨rfl, rfl⟩
  · intro source event target target' hmark hmark'
    obtain ⟨key, rfl, htarget⟩ := mem_flatMarks_edge_iff.1 hmark
    obtain ⟨key', hname, htarget'⟩ := mem_flatMarks_edge_iff.1 hmark'
    obtain ⟨keys, t, hrule, -, rfl, -⟩ := exists_rule_of_target? h htarget
    obtain ⟨keys', t', hrule', -, rfl, -⟩ := exists_rule_of_target? h htarget'
    -- Edges are known by the names of events, and answers by the events.
    rw [eq_of_event_name hbuilt h hrule' hrule hname, htarget, Option.some.injEq,
      FlatTarget.path.injEq] at htarget'
    exact htarget'

/-- **`target?` of `ShapeGraph.ofFlat` is `flat.target?`**, where that is a `.path`. -/
theorem target?_ofFlat_iff (hbuilt : d.IsBuilt) :
    (ShapeGraph.ofFlat flat).target? source event = some target ↔
      ∃ key : EventKey, key.name = event ∧ flat.target? source key = some (.path target) := by
  rw [ShapeGraph.ofFlat_eq_drawn, (agree_flatMarks hone h hbuilt).target?_drawn,
    mem_flatMarks_edge_iff]

/-- An edge of `ShapeGraph.ofFlat` is one of `d.rules` whose target is a `.key`. -/
theorem exists_rule_of_edge (hbuilt : d.IsBuilt)
    (hedge : (ShapeGraph.ofFlat flat).target? source event = some target) :
    ∃ keys t name, (keys, t) ∈ d.rules ∧ t.target = .key name ∧ t.event.name = event ∧
      source = config.delimiter.intercalate (keys ++ [t.source]) := by
  obtain ⟨key, rfl, hanswer⟩ := (target?_ofFlat_iff hone h hbuilt).1 hedge
  obtain ⟨keys, t, hrule, rfl, rfl, hleads⟩ := exists_rule_of_target? h hanswer
  cases htarget : t.target with
  | key name => exact ⟨keys, t, name, hrule, htarget, rfl, rfl⟩
  | choose pick =>
    rw [htarget] at hleads
    cases hleads

/-- **One of `d.rules` is known by the path of its source and the name of its event.** -/
theorem eq_of_path_of_name (hbuilt : d.IsBuilt) {keys' : List String} {t t' : TransitionDef}
    (hrule : (keys, t) ∈ d.rules) (hrule' : (keys', t') ∈ d.rules)
    (hpath : config.delimiter.intercalate (keys ++ [t.source]) =
      config.delimiter.intercalate (keys' ++ [t'.source]))
    (hname : t.event.name = t'.event.name) : t = t' := by
  have hd := Definition.orderly_of_problems (exists_of_ofDefinition h).1
  have hevent : t.event = t'.event := eq_of_event_name hbuilt h hrule hrule' hname
  obtain ⟨level, hlevel, ht⟩ := hd.mem_rules_iff.1 hrule
  obtain ⟨level', hlevel', ht'⟩ := hd.mem_rules_iff.1 hrule'
  obtain ⟨rfl, hsource⟩ := hd.intercalate_concat_inj hone hlevel
    ((hd.level? hlevel).source t ht) hlevel' ((hd.level? hlevel').source t' ht') hpath
  have hsame := List.inj_on_of_nodup_map hd.nodup_rules hrule hrule' (by rw [hsource, hevent])
  exact (Prod.mk.inj hsame).2

/-- **`target?` of `ShapeGraph.ofFlat` is `none` for a target that is a `.choose`.** -/
theorem target?_ofFlat_of_choose (hbuilt : d.IsBuilt) {t : TransitionDef}
    {pick : Params → Option String} (hrule : (keys, t) ∈ d.rules)
    (hpick : t.target = .choose pick) :
    (ShapeGraph.ofFlat flat).target? (config.delimiter.intercalate (keys ++ [t.source]))
      t.event.name = none := by
  refine Option.eq_none_iff_forall_ne_some.2 fun target hedge => ?_
  obtain ⟨keys', t', name, hrule', hnamed, hname, hpath⟩ := exists_rule_of_edge hone h hbuilt hedge
  rw [eq_of_path_of_name hone h hbuilt hrule hrule' hpath hname.symm, hnamed] at hpick
  cases hpick

/-- `node?` of `ShapeGraph.ofFlat`, by `d.places`. -/
theorem node?_ofFlat_iff (hbuilt : d.IsBuilt) {path : String} {node : ShapeNode} :
    (ShapeGraph.ofFlat flat).node? path = some node ↔ ∃ place ∈ d.places,
      path = config.delimiter.intercalate place.1 ∧
      node = Definition.nodeOf config.delimiter place := by
  rw [ShapeGraph.ofFlat_eq_drawn, (agree_flatMarks hone h hbuilt).node?_drawn]
  simp only [mem_flatMarks_node_iff_place hone h]
  constructor
  · rintro ⟨parent, ⟨place, hplace, rfl, -⟩, rfl⟩
    exact ⟨place, hplace, rfl, rfl⟩
  · rintro ⟨place, hplace, rfl, rfl⟩
    exact ⟨_, ⟨place, hplace, rfl, rfl⟩, rfl⟩

/-- `parent?` of `ShapeGraph.ofFlat`, by `d.places`. -/
theorem parent?_ofFlat_iff (hbuilt : d.IsBuilt) {path : String} {parent : Option String} :
    (ShapeGraph.ofFlat flat).parent? path = some parent ↔ ∃ place ∈ d.places,
      path = config.delimiter.intercalate place.1 ∧
      parent = Definition.parentOf config.delimiter place := by
  rw [ShapeGraph.ofFlat_eq_drawn, (agree_flatMarks hone h hbuilt).parent?_drawn]
  simp only [mem_flatMarks_node_iff_place hone h]
  constructor
  · rintro ⟨node, ⟨place, hplace, rfl, rfl⟩, rfl⟩
    exact ⟨place, hplace, rfl, rfl⟩
  · rintro ⟨place, hplace, rfl, rfl⟩
    exact ⟨_, ⟨place, hplace, rfl, rfl⟩, rfl⟩

/-- `map.toList` of a map with one entry for each of `d.places`, up to order. -/
theorem toList_perm_places {α : Type} {map : Std.ExtTreeMap String α}
    {value : List String × StateDef → α}
    (hmap : ∀ path a, map[path]? = some a ↔ ∃ place ∈ d.places,
      path = config.delimiter.intercalate place.1 ∧ a = value place) :
    map.toList.Perm
      (d.places.map fun place => (config.delimiter.intercalate place.1, value place)) := by
  have hpaths := nodup_paths hone h
  have hnodup : (d.places.map fun place =>
      (config.delimiter.intercalate place.1, value place)).Nodup := by
    refine List.Nodup.of_map Prod.fst ?_
    rwa [List.map_map]
  rw [List.perm_ext_iff_of_nodup (nodup_toList map) hnodup]
  rintro ⟨path, a⟩
  rw [Std.ExtTreeMap.mem_toList_iff_getElem?_eq_some, hmap, List.mem_map]
  simp only [Prod.mk.injEq, eq_comm]

/-- `node?` of keys with `d.StandsAt` is there and not compound. -/
theorem node?_ofFlat_of_standsAt (hbuilt : d.IsBuilt) (hstands : d.StandsAt keys) :
    ∃ node, (ShapeGraph.ofFlat flat).node? (config.delimiter.intercalate keys) = some node ∧
      node.isCompound = false := by
  obtain ⟨l, hat⟩ := hstands
  have hd := Definition.orderly_of_problems (exists_of_ofDefinition h).1
  have hplace := hd.mem_places_iff.2 ⟨Definition.StandsAt.ne_nil ⟨l, hat⟩, hat⟩
  exact ⟨_, (node?_ofFlat_iff hone h hbuilt).2 ⟨_, hplace, rfl, rfl⟩, rfl⟩

/-- **`ShapeGraph.ofFlat flat` charts `d`.** -/
theorem charts_ofFlat (hbuilt : d.IsBuilt) :
    (ShapeGraph.ofFlat flat).Charts config.delimiter d := by
  obtain ⟨hproblems, whole, hwhole, hsettled⟩ := exists_of_ofDefinition h
  have hd := Definition.orderly_of_problems hproblems
  have hrenders := renders_of_assemble hd hone hwhole
  refine ⟨toList_perm_places hone h fun _ _ => node?_ofFlat_iff hone h hbuilt,
    toList_perm_places hone h fun _ _ => parent?_ofFlat_iff hone h hbuilt, ?_, ?_, ?_, ?_⟩
  · -- The composite around a state is a state itself.
    intro path parent hparent
    obtain ⟨⟨keys, state⟩, hplace, -, hscope⟩ := (parent?_ofFlat_iff hone h hbuilt).1 hparent
    obtain ⟨hne, hat⟩ := hd.mem_places_iff.1 hplace
    obtain ⟨outer, key, level, rfl, hlevel, -, -⟩ := exists_level_of_at? hd hone hne hat
    rw [Definition.parentOf, List.dropLast_concat] at hscope
    have houter : outer ≠ [] := by
      rintro rfl
      cases hscope
    rw [Path.scope?_of_ne_nil houter, Option.some.injEq] at hscope
    have hinner := hd.mem_places_iff.2 ⟨houter, Definition.level?_eq_some_iff.1 hlevel⟩
    exact ⟨_, (node?_ofFlat_iff hone h hbuilt).2 ⟨_, hinner, hscope, rfl⟩, rfl⟩
  · -- An edge starts at the source of a transition, which is declared.
    intro source event target htarget
    obtain ⟨key, -, htarget⟩ := (target?_ofFlat_iff hone h hbuilt).1 htarget
    obtain ⟨keys, t, hrule, rfl, -, -⟩ := exists_rule_of_target? h htarget
    obtain ⟨level, hlevel, ht⟩ := hd.mem_rules_iff.1 hrule
    obtain ⟨state, hstate⟩ := Option.isSome_iff_exists.1 ((hd.level? hlevel).source t ht)
    have hplace := hd.mem_places_iff.2
      ⟨by simp, (Definition.at?_concat hlevel).trans hstate⟩
    exact Option.isSome_iff_exists.2
      ⟨_, (node?_ofFlat_iff hone h hbuilt).2 ⟨_, hplace, rfl, rfl⟩⟩
  · intro source event target htarget
    obtain ⟨key, -, htarget⟩ := (target?_ofFlat_iff hone h hbuilt).1 htarget
    -- It ends at a leaf.
    obtain ⟨keys, hstands, rfl⟩ :=
      hrenders.standsAt source key target (target?_of_settleCollisions hsettled htarget)
    exact node?_ofFlat_of_standsAt hone h hbuilt hstands
  · exact fun keys t pick => target?_ofFlat_of_choose hone h hbuilt

end Checked

/-! ## What a machine enters -/

/-- `flat.made?` is `flat.lead?` of a `flat.target?`. -/
theorem exists_target?_of_made? {event : Event} {paths : List String} {found : String × State}
    (h : flat.made? event paths = some found) :
    ∃ target leaf, flat.target? found.1 event.key = some target ∧
      flat.lead? target event.params = some leaf ∧ found.2 = leaf.state event.params := by
  obtain ⟨path, -, hmade⟩ := List.exists_of_findSome?_eq_some h
  obtain ⟨target, htarget, hlead⟩ := Option.bind_eq_some_iff.1 hmade
  obtain ⟨leaf, hleaf, rfl⟩ := Option.map_eq_some_iff.1 hlead
  exact ⟨target, leaf, htarget, hleaf, rfl⟩

end FlatDefinition

/-- **An event comes to be handled** by the machine at `link`: it arrives, or it is taken from the
queue. -/
inductive World.Receives (link : Link) : World ρ γ → Event → World ρ γ → Prop
  | arrives {w : World ρ γ} {event : Event} : World.Receives link w event w
  | taken {w w' : World ρ γ} {event : Event} :
    (Act.popPending link).run w = some (some event, w') → World.Receives link w event w'

/-- **`graph` foretells the resolution `found`.** The answer is that of one of `d.rules`. If its
target is a `.key`, the state that is entered is at the end of the edge for the event, and else
there is no edge. -/
def ShapeGraph.Foretells (graph : ShapeGraph) (delimiter : String) (d : Definition)
    (found : Resolution) : Prop :=
  ∃ keys t, (keys, t) ∈ d.rules ∧ t.event = found.event.key ∧
    found.matched = delimiter.intercalate (keys ++ [t.source]) ∧
    match t.target with
    | .key _ => graph.target? found.matched found.event.name = some found.target.key
    | .choose _ => graph.target? found.matched found.event.name = none

namespace FlatDefinition

/-- **`ShapeGraph.ofFlat flat` foretells what `m.finds?` finds.** -/
theorem foretells_of_finds? (hbuilt : d.IsBuilt) (hone : config.delimiter.length = 1)
    (h : ofDefinition config d = some (.ok flat)) {m : Machine (StatePlan ρ)} {event : Event}
    {found : String × State} (hfound : m.finds? flat event = some (some found)) (source : Placed) :
    (ShapeGraph.ofFlat flat).Foretells config.delimiter d
      { event, source, target := found.2, matched := found.1 } := by
  obtain ⟨paths, -, hmade⟩ := Machine.of_finds? hfound
  obtain ⟨target, leaf, hanswer, hlead, hstate⟩ := exists_target?_of_made? hmade
  obtain ⟨keys, t, hrule, hpath, hevent, hleads⟩ := exists_rule_of_target? h hanswer
  refine ⟨keys, t, hrule, hevent, hpath, ?_⟩
  cases htarget : t.target with
  | key name =>
    -- The answer leads to a path, which is the key of the leaf that is made.
    rw [htarget] at hleads
    obtain ⟨path, -, rfl⟩ := Option.map_eq_some_iff.1 hleads
    obtain ⟨-, hleaf⟩ := of_lastLeaf? hlead
    show (ShapeGraph.ofFlat flat).target? found.1 event.name = some found.2.key
    rw [hstate, FlatLeaf.state, hleaf]
    exact (target?_ofFlat_iff hone h hbuilt).2 ⟨event.key, rfl, hanswer⟩
  | choose pick =>
    show (ShapeGraph.ofFlat flat).target? found.1 event.name = none
    rw [hpath, Event.name, ← hevent]
    exact target?_ofFlat_of_choose hone h hbuilt hrule htarget

/-- **The graph of a flat form charts its definition and foretells every run.** Let `flat` be the
flat form of a definition that was built step by step (`d.IsBuilt`), with a delimiter of one
character. `ShapeGraph.ofFlat flat` has one node for each state, and its edges go from nodes to
leaves (`ShapeGraph.Charts`). `Act.startFlat` gives a machine at some `link`. Take any
`World.Moment` after that, while subscribers ask the machine for what they like, and any event that
arrives or is taken from the queue (`World.Receives`). If `Act.enter` enters a state for it, this is
what `Act.resolve` has `found`, and `ShapeGraph.Foretells` holds: the edge from `found.matched` for
the event ends at this state if the transition names its target, and there is no edge if the
parameters decide. -/
theorem graph_foretells (hbuilt : d.IsBuilt) (hone : config.delimiter.length = 1)
    (h : ofDefinition config d = some (.ok flat)) (around : Surroundings ρ γ) (depth : Nat)
    (before : World ρ γ) :
    (ShapeGraph.ofFlat flat).Charts config.delimiter d ∧
    ∃ link start, (Act.startFlat (around.host depth) flat config).run before =
        some (.ok link, start) ∧
      (around.Asks link → ∀ w, start.Moment around link depth w →
        ∀ event w₁, w.Receives link event w₁ → ∀ (host : Host ρ γ) change followUps w₂,
          (Act.enter host link event).run w₁ = some (some (change, followUps), w₂) →
          ∃ found m, (Act.resolve host link event).run w₁ = some (some found, w₁) ∧
            w₂.machine? link = some m ∧ m.current = change.target ∧
            change.target.state = found.target ∧
            (ShapeGraph.ofFlat flat).Foretells config.delimiter d found) := by
  refine ⟨charts_ofFlat hone h hbuilt, ?_⟩
  obtain ⟨_, start, hstart, link, rfl, hsits⟩ :=
    (lands_of_ofDefinition h).ends_startFlat_sits config (around.host depth) before
  refine ⟨link, start, hstart, fun hasks w hmoment event w₁ hreceives host change followUps w₂
    henter => ?_⟩
  -- The machine is in a leaf at every moment, also when it has taken an event from the queue.
  have hsits₁ : w₁.SitsAt link flat config := by
    have hsits := hmoment.sitsAt hasks hsits
    cases hreceives with
    | arrives => exact hsits
    | taken hpop => exact (Act.upholds_popPending_sits w hsits).2 _ _ hpop
  obtain ⟨m, hm, hsits₁⟩ := hsits₁
  rw [Act.run_enter hm hsits₁.toRunsFlat] at henter
  obtain ⟨found?, hfinds, heq⟩ := Option.map_eq_some_iff.1 henter
  cases found? with
  | none => cases heq
  | some found =>
    cases heq
    refine ⟨_, _, ?_, World.machine?_setCell_self hm, rfl, rfl,
      foretells_of_finds? hbuilt hone h hfinds m.current⟩
    rw [Act.run_resolve hm hsits₁.toRunsFlat, hfinds]
    rfl

end FlatDefinition

/-! ## A cafe -/

/-- A definition with `Menu` and `Order`, where `stop` is handled in `Order` and inside it, and the
target of `jump` is chosen by the event. -/
def Definition.cafe : Definition :=
  let order := ((((({} : Definition).state "Pick").finalState "Paid").initial "Pick").on
    "Pick" "pay" "Paid").on "Pick" "stop" "Paid"
  ((((((((({} : Definition).state "Menu").composite "Order" order).state "Done").initial "Menu").on
    "Menu" "open" "Order").on "Order" "stop" "Menu").choose "Order" "jump" fun params =>
      match params with
      | [.string name] => some name
      | _ => none).onChildExit "Order" "Done")

/-- `Definition.cafe` is built. -/
theorem Definition.isBuilt_cafe : Definition.cafe.IsBuilt :=
  .onChildExit _ _ (.transition _ _ _ (.transition _ _ _ (.transition _ _ _ (.initial _ (.leaf _ _
    (.composite _ (.leaf _ _ .empty)
      (.transition _ _ _ (.transition _ _ _ (.initial _ (.leaf _ _ (.leaf _ _ .empty)))))))))))

namespace FlatDefinition

/-- The flat form of `d`, if it has one. -/
def flatForm (config : FlattenConfig) (d : Definition) : FlatDefinition :=
  ((ofDefinition config d).bind Except.toOption).getD default

/-- `ofDefinition` is `flatForm` if it is `.ok`. -/
theorem ofDefinition_eq_flatForm
    (h : ((ofDefinition config d).bind Except.toOption).isSome = true) :
    ofDefinition config d = some (.ok (flatForm config d)) := by
  rw [flatForm]
  cases hresult : ofDefinition config d with
  | none =>
    rw [hresult] at h
    cases h
  | some result =>
    cases result with
    | error e =>
      rw [hresult] at h
      cases h
    | ok flat => rfl

/-- The flat form of `Definition.cafe` under `.allowShadow`. -/
def cafe : FlatDefinition := flatForm { eventCollision := .allowShadow } .cafe

/-- `ofDefinition` of `Definition.cafe`. -/
theorem ofDefinition_cafe :
    ofDefinition { eventCollision := .allowShadow } .cafe = some (.ok cafe) :=
  ofDefinition_eq_flatForm (by decide +kernel)

end FlatDefinition

namespace World

/-- The world with the machine of `FlatDefinition.cafe` in it. -/
def cafe : World Unit Unit :=
  (Act.found ⟨Definition.cafe.leafState "." ["Menu"] [], FlatDefinition.cafe.factory,
    FlatDefinition.cafe.table,
    FlatDefinition.machineConfig { eventCollision := .allowShadow }⟩).after { guest := () }

/-- `Act.startFlat` of `FlatDefinition.cafe` starts in `Menu`. -/
theorem run_startFlat_cafe :
    (Act.startFlat (Surroundings.quiet.host 1) FlatDefinition.cafe
      { eventCollision := .allowShadow }).run { guest := () } = some (.ok ⟨0⟩, cafe) := by
  have hkeys : Definition.cafe.startKeys = ["Menu"] := by decide
  rw [FlatDefinition.startFlat_eq (by decide) FlatDefinition.ofDefinition_cafe, hkeys]
  rfl

/-- The world after `open`. -/
def cafeOpened : World Unit Unit :=
  ((Request.send "open" []).perform (Surroundings.quiet.host 1) ⟨0⟩).after cafe

end World

/-- `graph_foretells` for `cafe` and `"stop"`: `"Order"` answers in `"Order.Pick"`, and the edge
ends at `"Menu"`. For `"jump"`, which the parameters decide, there is no edge. -/
theorem FlatDefinition.cafe_foretold :
    ∃ change followUps w₂ found, (Act.enter (Surroundings.quiet.host 1) ⟨0⟩
        (.domain "stop" [])).run World.cafeOpened = some (some (change, followUps), w₂) ∧
      change.source.state.key = "Order.Pick" ∧ found.matched = "Order" ∧
      found.target.key = "Menu" ∧
      (ShapeGraph.ofFlat cafe).Foretells "." .cafe found ∧
      (ShapeGraph.ofFlat cafe).Charts "." .cafe ∧
      (ShapeGraph.ofFlat cafe).target? "Order" "stop" = some "Menu" ∧
      (ShapeGraph.ofFlat cafe).target? "Order.Pick" "stop" = none ∧
      (ShapeGraph.ofFlat cafe).target? "Order" "jump" = none := by
  have hone : ({ eventCollision := .allowShadow } : FlattenConfig).delimiter.length = 1 := by decide
  -- The order is opened and then stopped. What is seen of it is computed.
  have hsent : (((Request.send "open" []).perform (Surroundings.quiet.host 1) ⟨0⟩).run
      World.cafe).isSome = true := by decide +kernel
  have hstopped : ((Act.enter (Surroundings.quiet.host 1) ⟨0⟩ (.domain "stop" [])).run
      World.cafeOpened).map (fun p => p.1.map (·.1.source.state.key)) =
        some (some "Order.Pick") := by decide +kernel
  have hresolved : ((Act.resolve (Surroundings.quiet.host 1) ⟨0⟩ (.domain "stop" [])).run
      World.cafeOpened).map (fun p => p.1.map fun found => (found.matched, found.target.key)) =
        some (some ("Order", "Menu")) := by decide +kernel
  obtain ⟨_, hsent⟩ := Act.run_eq_after hsent
  obtain ⟨⟨entered?, w₂⟩, henter, hentered⟩ := Option.map_eq_some_iff.1 hstopped
  obtain ⟨⟨change, followUps⟩, rfl, hsource⟩ := Option.map_eq_some_iff.1 hentered
  obtain ⟨hcharts, link, start, hstart, hforetells⟩ := graph_foretells Definition.isBuilt_cafe hone
    ofDefinition_cafe Surroundings.quiet 1 ({ guest := () } : World Unit Unit)
  rw [World.run_startFlat_cafe] at hstart
  cases hstart
  obtain ⟨found, m, hfound, -, -, -, hforetold⟩ := hforetells (Surroundings.asks_quiet ⟨0⟩)
    World.cafeOpened (.later (.asked hsent .done) .now) _ _ .arrives _ _ _ _ henter
  rw [hfound] at hresolved
  obtain ⟨hmatched, htarget⟩ := Prod.mk.inj (Option.some.inj (Option.some.inj hresolved))
  exact ⟨change, followUps, w₂, found, henter, hsource, hmatched, htarget, hforetold, hcharts,
    by decide +kernel, by decide +kernel, by decide +kernel⟩

end Statechart
