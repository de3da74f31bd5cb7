import Statechart.Proofs.Definition.Resolution
import Statechart.Proofs.Flat.Collisions
import Statechart.Proofs.Shape.Marks

/-! # Views of a definition

The graph of a flat form shows all levels of a definition, the graph of a hierarchy those that are
active. Both are drawn in the same way: a node for each state of a level that is shown, and an edge
for each transition of such a level whose target does not depend on the event.

* **`Definition.IsBuilt`**: a definition that is built step by step.
* `Definition.IsClear`: states and events of a definition are told apart by their names.
* **`View`**: what is shown of a definition, and how. `View.whole`, `View.within`.
* `View.IsDrawn`: marks draw a view.
* **`View.IsDrawn.node?_eq_some_iff`**, `View.IsDrawn.parent?_eq_some_iff`,
  `View.IsDrawn.target?_eq_some_iff`: what the graph says of a state.
* **`FlatDefinition.isDrawn_whole`**: the graph of a flat form shows everything. -/

namespace Statechart

variable {delimiter : String} {d level : Definition} {keys : List String} {key : String}
  {state : StateDef}

/-! ## Definitions that are built -/

namespace Definition

/-- **`d` is built by the calls of `Definition`**, and so are the definitions of its composites. -/
inductive IsBuilt : Definition → Prop
  | empty : IsBuilt {}
  | leaf {d : Definition} (key : String) (leaf : LeafDef) : IsBuilt d → IsBuilt (d.leaf key leaf)
  | composite {d inner : Definition} (key : String) :
    IsBuilt d → IsBuilt inner → IsBuilt (d.composite key inner)
  | initial {d : Definition} (key : String) : IsBuilt d → IsBuilt (d.initial key)
  | transition {d : Definition} (source event : String) (target : Target) :
    IsBuilt d → IsBuilt (d.transition source event target)
  | onChildExit {d : Definition} (source target : String) :
    IsBuilt d → IsBuilt (d.onChildExit source target)

/-- **The events of `level` have names** that `EventKey.ofName?` leads back to them. -/
def HasNames (level : Definition) : Prop :=
  ∀ t ∈ level.transitions, EventKey.ofName? t.event.name = some t.event

/-- `IsBuilt` gives `HasNames`. -/
theorem IsBuilt.hasNames_self (h : d.IsBuilt) : d.HasNames := by
  induction h with
  | empty => rintro t ⟨⟩
  | leaf _ _ _ ih => exact ih
  | composite _ _ _ ih => exact ih
  | initial _ _ ih => exact ih
  | transition source event target _ ih =>
    -- A transition under a reserved name is not added.
    rw [Definition.transition]
    split
    · exact ih
    · rename_i hname
      intro t ht
      rcases List.mem_append.1 ht with ht | ht
      · exact ih t ht
      · obtain rfl := List.mem_singleton.1 ht
        exact EventKey.ofName?_eq_some_iff.2 ⟨rfl, fun _ => Bool.not_eq_true _ ▸ hname⟩
  | onChildExit source target _ ih =>
    intro t ht
    rcases List.mem_append.1 ht with ht | ht
    · exact ih t ht
    · obtain rfl := List.mem_singleton.1 ht
      exact EventKey.ofName?_eq_some_iff.2 ⟨rfl, by rintro ⟨⟩⟩

/-- `IsBuilt` holds of the composites of `d`. -/
theorem IsBuilt.inside (h : d.IsBuilt) :
    ∀ entry ∈ d.states, ∀ inner, entry.2 = .composite inner → inner.IsBuilt := by
  -- By induction over how it is built. Only states that are added matter.
  induction h with
  | empty => rintro entry ⟨⟩
  | leaf key l _ ih =>
    intro entry hentry inner hinner
    rcases List.mem_append.1 hentry with hentry | hentry
    · exact ih entry hentry inner hinner
    · obtain rfl := List.mem_singleton.1 hentry
      cases hinner
  | composite key _ hbuilt ih _ =>
    intro entry hentry inner hinner
    rcases List.mem_append.1 hentry with hentry | hentry
    · exact ih entry hentry inner hinner
    · obtain rfl := List.mem_singleton.1 hentry
      cases hinner
      exact hbuilt
  | initial _ _ ih => exact ih
  | transition source event target _ ih =>
    rw [Definition.transition]
    split <;> exact ih
  | onChildExit _ _ _ ih => exact ih

/-- `IsBuilt` gives `HasNames` of all levels. -/
theorem IsBuilt.hasNames (h : d.IsBuilt) : ∀ level ∈ d.levels, level.HasNames := fun level hlevel =>
  (levels_induction (P := IsBuilt) (fun _ => inside) h level hlevel).hasNames_self

/-- Transitions of one level are equal if their sources and the names of their events are. -/
theorem IsOrderly.eq_of_names (h : level.IsOrderly delimiter) (hnames : level.HasNames)
    {t t' : TransitionDef} (ht : t ∈ level.transitions) (ht' : t' ∈ level.transitions)
    (hsource : t.source = t'.source) (hname : t.event.name = t'.event.name) : t = t' := by
  -- A name leads back to its event, so there is one event of a name.
  have hevent : t.event = t'.event := by
    have hname' := hnames t ht
    rw [hname, hnames t' ht', Option.some.injEq] at hname'
    exact hname'.symm
  exact List.inj_on_of_nodup_map h.distinct ht ht' (by rw [hsource, hevent])

end Definition

/-- **`d` is sound, its delimiter is one character, and its events have names** (`HasNames`). -/
structure Definition.IsClear (delimiter : String) (d : Definition) : Prop where
  sound : d.Sound delimiter
  one : delimiter.length = 1
  names : ∀ level ∈ d.levels, level.HasNames

/-- **`path` is the path of a state of `d`.** -/
def Definition.IsPath (delimiter : String) (d : Definition) (path : String) : Prop :=
  ∃ keys level key state, d.level? keys = some level ∧ level.state? key = some state ∧
    path = delimiter.intercalate (keys ++ [key])

/-- The path of a state determines its keys and the state. -/
theorem Definition.IsClear.path_inj (hd : d.IsClear delimiter) {keys' : List String}
    {level' : Definition} {key' : String} {state' : StateDef}
    (hlevel : d.level? keys = some level) (hstate : level.state? key = some state)
    (hlevel' : d.level? keys' = some level') (hstate' : level'.state? key' = some state')
    (h : delimiter.intercalate (keys ++ [key]) = delimiter.intercalate (keys' ++ [key'])) :
    keys = keys' ∧ key = key' ∧ level = level' ∧ state = state' := by
  obtain ⟨rfl, rfl⟩ := hd.sound.orderly.intercalate_concat_inj hd.one hlevel
    (Option.isSome_iff_exists.2 ⟨state, hstate⟩) hlevel'
    (Option.isSome_iff_exists.2 ⟨state', hstate'⟩) h
  rw [hlevel] at hlevel'
  cases hlevel'
  rw [hstate] at hstate'
  cases hstate'
  exact ⟨rfl, rfl, rfl, rfl⟩

/-- The source of a transition is a state of its level. -/
theorem Definition.IsClear.exists_source (hd : d.IsClear delimiter)
    (hlevel : d.level? keys = some level) {t : TransitionDef} (ht : t ∈ level.transitions) :
    ∃ state, level.state? t.source = some state :=
  Option.isSome_iff_exists.1 ((hd.sound.level? hlevel).source t ht)

/-! ## Views -/

/-- Whether a state is a composite. -/
def StateDef.isComposite : StateDef → Bool
  | .leaf _ => false
  | .composite _ => true

/-- **What is shown of a definition, and how.** -/
structure View where
  /-- Whether the level is shown that keys lead to. -/
  Shows : List String → Prop
  /-- Whether the state that keys lead to is shown with states inside. -/
  isCompound : List String → StateDef → Bool
  /-- Where the edge for a target ends, from a level that keys lead to. -/
  leads : List String → Definition → String → List String

namespace View

open ShapeGraph (Mark drawn Agree)

variable {view : View} {marks : List Mark} {fullKey event target : String} {node : ShapeNode}
  {parent : Option String}

/-- **All of a definition.** The edge for a target ends at the leaf that is entered with it. -/
def whole : View where
  Shows _ := True
  isCompound _ state := state.isComposite
  leads keys level name := keys ++ level.enteredKeys name

/-- **The levels at `active.take i`.** The edge for a target ends at the target itself. -/
def within (active : List String) : View where
  Shows keys := ∃ i < active.length, keys = active.take i
  isCompound keys _ := (List.range active.length).any fun i => keys == active.take i
  leads keys _ name := keys ++ [name]

/-- The node of `state`, given the keys of its level. -/
def stateNode (view : View) (delimiter : String) (keys : List String) (key : String)
    (state : StateDef) : ShapeNode where
  key
  fullKey := delimiter.intercalate (keys ++ [key])
  isFinal := state.isFinal
  isCompound := view.isCompound (keys ++ [key]) state

/-- **`marks` draw `view` of `d`.** -/
structure IsDrawn (view : View) (delimiter : String) (d : Definition) (marks : List Mark) :
    Prop where
  node_iff : ∀ node parent, .node node parent ∈ marks ↔ ∃ keys level key state,
    view.Shows keys ∧ d.level? keys = some level ∧ level.state? key = some state ∧
    node = view.stateNode delimiter keys key state ∧ parent = Path.scope? delimiter keys
  edge_iff : ∀ source event target, .edge source event target ∈ marks ↔ ∃ keys level t name,
    view.Shows keys ∧ d.level? keys = some level ∧ t ∈ level.transitions ∧ t.target = .key name ∧
    source = delimiter.intercalate (keys ++ [t.source]) ∧ event = t.event.name ∧
    target = delimiter.intercalate (view.leads keys level name)

/-- `IsDrawn` gives `ShapeGraph.Agree`. -/
theorem IsDrawn.agree (h : view.IsDrawn delimiter d marks) (hd : d.IsClear delimiter) :
    Agree marks := by
  constructor
  · intro node parent node' parent' hmark hmark' hkey
    obtain ⟨keys, level, key, state, -, hlevel, hstate, rfl, rfl⟩ := (h.node_iff _ _).1 hmark
    obtain ⟨keys', level', key', state', -, hlevel', hstate', rfl, rfl⟩ :=
      (h.node_iff _ _).1 hmark'
    obtain ⟨rfl, rfl, rfl, rfl⟩ := hd.path_inj hlevel hstate hlevel' hstate' hkey
    exact ⟨rfl, rfl⟩
  · intro source event target target' hmark hmark'
    obtain ⟨keys, level, t, name, -, hlevel, ht, hname, rfl, rfl, rfl⟩ := (h.edge_iff _ _ _).1 hmark
    obtain ⟨keys', level', t', name', -, hlevel', ht', hname', hpath, hevent, rfl⟩ :=
      (h.edge_iff _ _ _).1 hmark'
    -- Both edges start at the same state, and so they are of the same transition.
    obtain ⟨state, hstate⟩ := hd.exists_source hlevel ht
    obtain ⟨state', hstate'⟩ := hd.exists_source hlevel' ht'
    obtain ⟨rfl, hsource, rfl, -⟩ := hd.path_inj hlevel hstate hlevel' hstate' hpath
    obtain rfl := (hd.sound.level? hlevel).eq_of_names
      (hd.names level (Definition.mem_levels_of_level? hlevel)) ht ht' hsource hevent
    rw [hname] at hname'
    cases hname'
    rfl

/-! ### What a graph says of a state -/

/-- **`node?` of a state is `view.stateNode`** if `view.Shows` its level. -/
theorem IsDrawn.node?_eq_some_iff (h : view.IsDrawn delimiter d marks) (hd : d.IsClear delimiter)
    (hlevel : d.level? keys = some level) (hstate : level.state? key = some state) :
    (drawn marks).node? (delimiter.intercalate (keys ++ [key])) = some node ↔
      view.Shows keys ∧ node = view.stateNode delimiter keys key state := by
  rw [(h.agree hd).node?_drawn]
  constructor
  · rintro ⟨parent, hmark, hkey⟩
    obtain ⟨keys', level', key', state', hshows, hlevel', hstate', rfl, -⟩ :=
      (h.node_iff _ _).1 hmark
    obtain ⟨rfl, rfl, rfl, rfl⟩ := hd.path_inj hlevel hstate hlevel' hstate' hkey.symm
    exact ⟨hshows, rfl⟩
  · rintro ⟨hshows, rfl⟩
    exact ⟨_, (h.node_iff _ _).2 ⟨keys, level, key, state, hshows, hlevel, hstate, rfl, rfl⟩, rfl⟩

/-- **`parent?` of a state is the path of the composite around it** if `view.Shows` its level. -/
theorem IsDrawn.parent?_eq_some_iff (h : view.IsDrawn delimiter d marks) (hd : d.IsClear delimiter)
    (hlevel : d.level? keys = some level) (hstate : level.state? key = some state) :
    (drawn marks).parent? (delimiter.intercalate (keys ++ [key])) = some parent ↔
      view.Shows keys ∧ parent = Path.scope? delimiter keys := by
  rw [(h.agree hd).parent?_drawn]
  constructor
  · rintro ⟨node, hmark, hkey⟩
    obtain ⟨keys', level', key', state', hshows, hlevel', hstate', rfl, rfl⟩ :=
      (h.node_iff _ _).1 hmark
    obtain ⟨rfl, rfl, -⟩ := hd.path_inj hlevel hstate hlevel' hstate' hkey.symm
    exact ⟨hshows, rfl⟩
  · rintro ⟨hshows, rfl⟩
    exact ⟨_, (h.node_iff _ _).2 ⟨keys, level, key, state, hshows, hlevel, hstate, rfl, rfl⟩, rfl⟩

/-- **`target?` of a state is `view.leads` of its transition**, if the target is a `.key` and
`view.Shows` the level. -/
theorem IsDrawn.target?_eq_some_iff (h : view.IsDrawn delimiter d marks) (hd : d.IsClear delimiter)
    (hlevel : d.level? keys = some level) (hstate : level.state? key = some state) :
    (drawn marks).target? (delimiter.intercalate (keys ++ [key])) event = some target ↔
      view.Shows keys ∧ ∃ t ∈ level.transitions, ∃ name, t.source = key ∧ t.event.name = event ∧
        t.target = .key name ∧ target = delimiter.intercalate (view.leads keys level name) := by
  rw [(h.agree hd).target?_drawn, h.edge_iff]
  constructor
  · rintro ⟨keys', level', t, name, hshows, hlevel', ht, hname, hpath, rfl, rfl⟩
    obtain ⟨state', hstate'⟩ := hd.exists_source hlevel' ht
    obtain ⟨rfl, rfl, rfl, -⟩ := hd.path_inj hlevel hstate hlevel' hstate' hpath
    exact ⟨hshows, t, ht, name, rfl, rfl, hname, rfl⟩
  · rintro ⟨hshows, t, ht, name, rfl, rfl, hname, rfl⟩
    exact ⟨keys, level, t, name, hshows, hlevel, ht, hname, rfl, rfl, rfl⟩

/-- `node?` is `none` where there is no state. -/
theorem IsDrawn.node?_eq_none (h : view.IsDrawn delimiter d marks) (hd : d.IsClear delimiter)
    (hnot : ¬ d.IsPath delimiter fullKey) : (drawn marks).node? fullKey = none := by
  refine Option.eq_none_iff_forall_ne_some.2 fun node hnode => hnot ?_
  obtain ⟨parent, hmark, rfl⟩ := (h.agree hd).node?_drawn.1 hnode
  obtain ⟨keys, level, key, state, -, hlevel, hstate, rfl, -⟩ := (h.node_iff _ _).1 hmark
  exact ⟨keys, level, key, state, hlevel, hstate, rfl⟩

/-- `parent?` is `none` where there is no state. -/
theorem IsDrawn.parent?_eq_none (h : view.IsDrawn delimiter d marks) (hd : d.IsClear delimiter)
    (hnot : ¬ d.IsPath delimiter fullKey) : (drawn marks).parent? fullKey = none := by
  refine Option.eq_none_iff_forall_ne_some.2 fun parent hparent => hnot ?_
  obtain ⟨node, hmark, rfl⟩ := (h.agree hd).parent?_drawn.1 hparent
  obtain ⟨keys, level, key, state, -, hlevel, hstate, rfl, -⟩ := (h.node_iff _ _).1 hmark
  exact ⟨keys, level, key, state, hlevel, hstate, rfl⟩

/-- `target?` is `none` where there is no state. -/
theorem IsDrawn.target?_eq_none (h : view.IsDrawn delimiter d marks) (hd : d.IsClear delimiter)
    (hnot : ¬ d.IsPath delimiter fullKey) : (drawn marks).target? fullKey event = none := by
  refine Option.eq_none_iff_forall_ne_some.2 fun target htarget => hnot ?_
  obtain ⟨keys, level, t, name, -, hlevel, ht, -, rfl, -⟩ :=
    (h.edge_iff _ _ _).1 ((h.agree hd).target?_drawn.1 htarget)
  obtain ⟨state, hstate⟩ := hd.exists_source hlevel ht
  exact ⟨keys, level, t.source, state, hlevel, hstate, rfl⟩

/-- The members of `(drawn marks).edges` are those with a `target?`. -/
theorem IsDrawn.mem_edges_iff (h : view.IsDrawn delimiter d marks) (hd : d.IsClear delimiter) :
    fullKey ∈ (drawn marks).edges ↔
      ∃ event, ((drawn marks).target? fullKey event).isSome = true := by
  simp only [ShapeGraph.mem_edges_drawn, Option.isSome_iff_exists, (h.agree hd).target?_drawn]

end View

/-! ## The graph of a flat form -/

namespace FlatDefinition

open ShapeGraph (flatMarks pathMark answerMark?)

variable {flat : FlatDefinition} {path : String}

/-- `flat.compositeInitial?` is there for the composites of `d`. -/
theorem isSome_compositeInitial?_iff (hd : d.Orderly delimiter)
    (h : assemble delimiter d = .ok flat) : (flat.compositeInitial? path).isSome = true ↔
      ∃ keys inner, keys ≠ [] ∧ (StateDef.composite d).at? keys = some (.composite inner) ∧
        path = delimiter.intercalate keys := by
  constructor
  · intro hsome
    obtain ⟨leaf, hleaf⟩ := Option.isSome_iff_exists.1 hsome
    exact exists_of_compositeInitial? hd h hleaf
  · rintro ⟨keys, inner, hne, hat, rfl⟩
    exact isSome_compositeInitial? hd h hne hat

/-- `pathMark` of the path of `keys ++ [key]`. -/
theorem pathMark_intercalate (hdelimits : Path.Delimits delimiter (keys ++ [key]))
    (isFinal isCompound : Bool) :
    pathMark delimiter isFinal isCompound (delimiter.intercalate (keys ++ [key])) =
      .node { key, fullKey := delimiter.intercalate (keys ++ [key]), isFinal, isCompound }
        (Path.scope? delimiter keys) := by
  have hkey : Path.lastKey delimiter (delimiter.intercalate (keys ++ [key])) = key := by
    rw [Path.lastKey, Path.cutLast?_intercalate hdelimits]
    cases keys with
    | nil => simp [Path.scope?]
    | cons first rest => rfl
  rw [pathMark, hkey, Path.parent?_intercalate hdelimits]

/-- The nodes in `flatMarks flat` are those of its composites and its leaves. -/
theorem mem_flatMarks_node_iff {node : ShapeNode} {parent : Option String} :
    .node node parent ∈ flatMarks flat ↔
      (∃ path, (flat.compositeInitial? path).isSome = true ∧
        pathMark flat.delimiter false true path = .node node parent) ∨
      ∃ leaf ∈ flat.leaves,
        pathMark flat.delimiter leaf.leaf.isFinal false leaf.path = .node node parent := by
  have hanswer : ∀ entry, answerMark? entry ≠ some (.node node parent) := by
    rintro ⟨handler, _ | _⟩ <;> simp [answerMark?]
  simp only [flatMarks, List.mem_append, List.mem_map, List.mem_filterMap, hanswer, and_false,
    exists_false, or_false, Std.ExtTreeMap.mem_keys, compositeInitial?,
    Std.ExtTreeMap.isSome_getElem?_iff_mem]

/-- The edges in `flatMarks flat` are those of `flat.target?`. -/
theorem mem_flatMarks_edge_iff {source event target : String} :
    .edge source event target ∈ flatMarks flat ↔
      ∃ key : EventKey, key.name = event ∧ flat.target? source key = some (.path target) := by
  have hpath : ∀ isFinal isCompound path,
      pathMark flat.delimiter isFinal isCompound path ≠ .edge source event target := by
    simp [pathMark]
  simp only [flatMarks, List.mem_append, List.mem_map, hpath, and_false, exists_false, false_or,
    List.mem_filterMap]
  constructor
  · rintro ⟨⟨⟨own, key⟩, _ | _⟩, hentry, heq⟩
    · cases heq
      exact ⟨key, rfl, Std.ExtTreeMap.mem_toList_iff_getElem?_eq_some.1 hentry⟩
    · cases heq
  · rintro ⟨key, rfl, htarget⟩
    exact ⟨_, Std.ExtTreeMap.mem_toList_iff_getElem?_eq_some.2 htarget, rfl⟩

/-- The level around a state that `StateDef.at?` finds. -/
theorem exists_level_of_at? (hd : d.Orderly delimiter) (hone : delimiter.length = 1)
    (hne : keys ≠ []) (hat : (StateDef.composite d).at? keys = some state) :
    ∃ outer key level, keys = outer ++ [key] ∧ d.level? outer = some level ∧
      level.state? key = some state ∧ Path.Delimits delimiter keys := by
  obtain ⟨outer, key, rfl⟩ : ∃ outer key, keys = outer ++ [key] :=
    ⟨keys.dropLast, keys.getLast hne, (List.dropLast_append_getLast hne).symm⟩
  obtain ⟨level, hlevel, hstate⟩ := Definition.exists_level?_of_at?_concat hat
  exact ⟨outer, key, level, rfl, hlevel, hstate, hd.delimits hone hat⟩

/-- The nodes in `flatMarks flat` are those of all states of `d`. -/
theorem mem_flatMarks_node_iff_exists (hd : d.Orderly delimiter) (hone : delimiter.length = 1)
    (h : assemble delimiter d = .ok flat) {node : ShapeNode} {parent : Option String} :
    .node node parent ∈ flatMarks flat ↔ ∃ keys level key state, d.level? keys = some level ∧
      level.state? key = some state ∧ node = View.whole.stateNode delimiter keys key state ∧
      parent = Path.scope? delimiter keys := by
  have hrenders := renders_of_assemble hd hone h
  have hdelimiter : flat.delimiter = delimiter := by
    rw [FlatDefinition.delimiter, hrenders.index_eq]
    rfl
  rw [mem_flatMarks_node_iff, hdelimiter]
  constructor
  · rintro (⟨path, hcomposite, hmark⟩ | ⟨leaf, hleaf, hmark⟩)
    · obtain ⟨keys, inner, hne, hat, rfl⟩ :=
        (isSome_compositeInitial?_iff hd h).1 hcomposite
      obtain ⟨outer, key, level, rfl, hlevel, hstate, hdelimits⟩ :=
        exists_level_of_at? hd hone hne hat
      rw [pathMark_intercalate hdelimits] at hmark
      cases hmark
      exact ⟨outer, level, key, _, hlevel, hstate, rfl, rfl⟩
    · obtain ⟨keys, l, hat, rfl⟩ := (hrenders.mem_leaves_iff leaf).1 hleaf
      obtain ⟨outer, key, level, rfl, hlevel, hstate, hdelimits⟩ :=
        exists_level_of_at? hd hone (Definition.StandsAt.ne_nil ⟨l, hat⟩) hat
      rw [pathMark_intercalate hdelimits] at hmark
      cases hmark
      exact ⟨outer, level, key, _, hlevel, hstate, rfl, rfl⟩
  · rintro ⟨keys, level, key, state, hlevel, hstate, rfl, rfl⟩
    have hat := (Definition.at?_concat hlevel).trans hstate
    have hdelimits := hd.delimits hone hat
    -- Leaves are marked in one list, and states with states inside in another one.
    cases state with
    | leaf l =>
      refine .inr ⟨_, (hrenders.mem_leaves_iff _).2 ⟨_, l, hat, rfl⟩, ?_⟩
      rw [pathMark_intercalate hdelimits]
      rfl
    | composite inner =>
      refine .inl ⟨_, isSome_compositeInitial? hd h (by simp) hat, ?_⟩
      rw [pathMark_intercalate hdelimits]
      rfl

section Whole

variable (hd : d.Sound delimiter) (hone : delimiter.length = 1)
  (h : assemble delimiter d = .ok flat)

include hd hone h

/-- The edges in `flatMarks flat` are those of all transitions of `d` whose targets are a `.key`. -/
theorem mem_flatMarks_edge_iff_exists {source event target : String} :
    .edge source event target ∈ flatMarks flat ↔ ∃ keys level t name, d.level? keys = some level ∧
      t ∈ level.transitions ∧ t.target = .key name ∧
      source = delimiter.intercalate (keys ++ [t.source]) ∧ event = t.event.name ∧
      target = delimiter.intercalate (keys ++ level.enteredKeys name) := by
  have hrenders := renders_of_assemble hd.orderly hone h
  rw [mem_flatMarks_edge_iff]
  constructor
  · rintro ⟨key, rfl, htarget⟩
    obtain ⟨keys, level, t, hlevel, ht, rfl, rfl, hleads⟩ := exists_of_target? hd.orderly h htarget
    -- Where a choice leads is not known without the event.
    obtain ⟨name, hname, hresolve⟩ := leads?_eq_path_iff.1 hleads
    exact ⟨keys, level, t, name, hlevel, ht, hname, rfl, rfl,
      PathIndex.eq_of_resolve hd.orderly hone hlevel
        ((hd.level? hlevel).target t ht name hname) hresolve⟩
  · rintro ⟨keys, level, t, name, hlevel, ht, hname, rfl, rfl, rfl⟩
    refine ⟨t.event, rfl, ?_⟩
    have horderly := (hd.level? hlevel).toIsOrderly
    have hleads := hrenders.leads keys level t hlevel ht
    rw [hname, leads?, Option.isSome_map, Option.isSome_iff_exists, hrenders.index_eq] at hleads
    obtain ⟨leaf, hresolve⟩ := hleads
    rw [hrenders.filed keys level t.source t.event hlevel (horderly.source t ht),
      horderly.transition?_eq_some_iff.2 ⟨ht, rfl, rfl⟩, Option.bind_some, hname, leads?,
      hrenders.index_eq, hresolve, PathIndex.eq_of_resolve hd.orderly hone hlevel
        ((hd.level? hlevel).target t ht name hname) hresolve]
    rfl

/-- **`flatMarks flat` draws `View.whole`.** -/
theorem isDrawn_whole : View.whole.IsDrawn delimiter d (flatMarks flat) := by
  refine ⟨fun node parent => ?_, fun source event target => ?_⟩
  · rw [mem_flatMarks_node_iff_exists hd.orderly hone h]
    simp only [View.whole, true_and]
  · rw [mem_flatMarks_edge_iff_exists hd hone h]
    simp only [View.whole, true_and]

end Whole

end FlatDefinition

end Statechart
