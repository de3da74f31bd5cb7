import Statechart.Flat
import Statechart.Proofs.Path

/-! # Graphs, mark by mark

A graph is drawn by one mark after the other, a node or an edge at a time, and of several marks in
one place the last one stays. Where marks in one place agree, the graph shows what has been marked
and nothing else.

* `ShapeGraph.Mark`, `ShapeGraph.drawn`: the graph that is drawn with marks.
* `ShapeGraph.Agree`: marks that agree. **`ShapeGraph.Agree.node?_drawn`** and so on: what is then
  found in the graph.
* `ShapeGraph.ofLevels_eq_drawn`: the marks of a chain of machines.
* `ShapeGraph.ofFlat_eq_drawn`: the marks of a flat definition. -/

namespace Statechart

/-! ## One item after the other -/

/-- **`look` after putting `items` down one after the other**, if those in one place are the same:
each of them puts a value in one place, or none. -/
theorem look_foldl_eq_some_iff {α β κ ι : Type} [DecidableEq κ] {look : α → κ → Option β}
    {put : α → ι → α} {item : ι → Option (κ × β)}
    (hput : ∀ a i k, look (put a i) k =
      match item i with
      | none => look a k
      | some (place, b) => if place = k then some b else look a k)
    {items : List ι} {k : κ} {b : β}
    (hagree : ∀ i ∈ items, ∀ j ∈ items, ∀ b c, item i = some (k, b) → item j = some (k, c) → b = c)
    (a : α) :
    look (items.foldl put a) k = some b ↔ (∃ i ∈ items, item i = some (k, b)) ∨
      (∀ i ∈ items, ∀ c, item i ≠ some (k, c)) ∧ look a k = some b := by
  induction items generalizing a with
  | nil => simp
  | cons first rest ih =>
    have hrest := ih fun i hi j hj =>
      hagree i (List.mem_cons_of_mem _ hi) j (List.mem_cons_of_mem _ hj)
    rw [List.foldl_cons, hrest, hput]
    by_cases hfirst : ∃ c, item first = some (k, c)
    · -- The first item is put down here; a later one that is too has the same value.
      obtain ⟨c, hc⟩ := hfirst
      have hsame : ∀ i ∈ rest, ∀ b, item i = some (k, b) → b = c := fun i hi b hb =>
        hagree i (List.mem_cons_of_mem _ hi) first List.mem_cons_self b c hb hc
      simp only [hc, if_true, List.mem_cons, exists_eq_or_imp, forall_eq_or_imp]
      constructor
      · rintro (hlater | ⟨-, heq⟩)
        · exact .inl (.inr hlater)
        · cases heq
          exact .inl (.inl rfl)
      · rintro ((heq | hlater) | ⟨⟨hnone, -⟩, -⟩)
        · cases heq
          by_cases hlater : ∃ i ∈ rest, item i = some (k, b)
          · exact .inl hlater
          · refine .inr ⟨fun i hi c hc => hlater ⟨i, hi, ?_⟩, rfl⟩
            rw [hc, hsame i hi c hc]
        · exact .inl hlater
        · exact absurd rfl (hnone c)
    · -- The first item is put down elsewhere.
      have hlook : (match item first with
          | none => look a k
          | some (place, b) => if place = k then some b else look a k) = look a k := by
        cases hitem : item first with
        | none => rfl
        | some entry =>
          obtain ⟨place, c⟩ := entry
          have hne : place ≠ k := by
            rintro rfl
            exact hfirst ⟨c, hitem⟩
          exact if_neg hne
      have hnone : ∀ c, item first ≠ some (k, c) := fun c hc => hfirst ⟨c, hc⟩
      rw [hlook]
      simp [hnone]

namespace ShapeGraph

/-! ## Marks -/

/-- **A node or an edge of a graph.** -/
inductive Mark where
  /-- A node, with its parent. -/
  | node (node : ShapeNode) (parent : Option String)
  | edge (source event target : String)

/-- Add a mark to `graph`. -/
def draw (graph : ShapeGraph) : Mark → ShapeGraph
  | .node node parent => graph.addNode node parent
  | .edge source event target => graph.addEdge source event target

/-- **The graph that is drawn with `marks`**, starting from `{}`. -/
def drawn (marks : List Mark) : ShapeGraph := marks.foldl draw {}

/-- The parent of the node `fullKey`. The outermost nodes have none. -/
def parent? (graph : ShapeGraph) (fullKey : String) : Option (Option String) :=
  graph.hierarchy[fullKey]?

variable {marks : List Mark} {graph : ShapeGraph} {node : ShapeNode} {parent : Option String}
  {fullKey source event target : String}

/-- `node?` after `addNode`. -/
theorem node?_addNode :
    (graph.addNode node parent).node? fullKey =
      if node.fullKey = fullKey then some node else graph.node? fullKey := by
  show (graph.nodes.insert node.fullKey node)[fullKey]? = _
  simp only [Std.ExtTreeMap.getElem?_insert, Std.LawfulEqCmp.compare_eq_iff_eq]
  rfl

/-- `parent?` after `addNode`. -/
theorem parent?_addNode :
    (graph.addNode node parent).parent? fullKey =
      if node.fullKey = fullKey then some parent else graph.parent? fullKey := by
  show (graph.hierarchy.insert node.fullKey parent)[fullKey]? = _
  simp only [Std.ExtTreeMap.getElem?_insert, Std.LawfulEqCmp.compare_eq_iff_eq]
  rfl

/-- `target?` after `addEdge`. -/
theorem target?_addEdge {source' event' : String} :
    (graph.addEdge source event target).target? source' event' =
      if (source, event) = (source', event') then some target
      else graph.target? source' event' := by
  show ((graph.edges.insert source ((graph.edges[source]?.getD ∅).insert event
    target))[source']?.bind (·[event']?)) = _
  simp only [Std.ExtTreeMap.getElem?_insert, Std.LawfulEqCmp.compare_eq_iff_eq]
  by_cases hsource : source = source'
  · subst hsource
    simp only [if_true, Option.bind_some, Std.ExtTreeMap.getElem?_insert,
      Std.LawfulEqCmp.compare_eq_iff_eq, target?]
    by_cases hevent : event = event'
    · rw [if_pos hevent, if_pos (by rw [hevent])]
    · rw [if_neg hevent, if_neg (fun heq => hevent (Prod.mk.inj heq).2)]
      cases graph.edges[source]? <;> simp
  · rw [if_neg hsource, if_neg (fun heq => hsource (Prod.mk.inj heq).1)]
    rfl

/-- **`marks` agree**: there is one node under a full key, with one parent, and one target under a
source and an event. -/
structure Agree (marks : List Mark) : Prop where
  node : ∀ node parent node' parent', .node node parent ∈ marks → .node node' parent' ∈ marks →
    node.fullKey = node'.fullKey → node = node' ∧ parent = parent'
  target : ∀ source event target target', .edge source event target ∈ marks →
    .edge source event target' ∈ marks → target = target'

/-- The node of a mark, under its full key. -/
def Mark.node? : Mark → Option (String × ShapeNode)
  | .node node _ => some (node.fullKey, node)
  | .edge _ _ _ => none

/-- The parent of a mark, under the full key of its node. -/
def Mark.parent? : Mark → Option (String × Option String)
  | .node node parent => some (node.fullKey, parent)
  | .edge _ _ _ => none

/-- The target of a mark, under its source and its event. -/
def Mark.target? : Mark → Option ((String × String) × String)
  | .node _ _ => none
  | .edge source event target => some ((source, event), target)

/-- `look` in `drawn marks` is what `item` says of one of `marks`. -/
theorem look_drawn_eq_some_iff {β κ : Type} [DecidableEq κ] (look : ShapeGraph → κ → Option β)
    (item : Mark → Option (κ × β)) {k : κ} {b : β} (hempty : look {} k = none)
    (hdraw : ∀ graph mark k, look (graph.draw mark) k =
      match item mark with
      | none => look graph k
      | some (place, b) => if place = k then some b else look graph k)
    (hagree : ∀ mark ∈ marks, ∀ mark' ∈ marks, ∀ b c,
      item mark = some (k, b) → item mark' = some (k, c) → b = c) :
    look (drawn marks) k = some b ↔ ∃ mark ∈ marks, item mark = some (k, b) := by
  rw [drawn, look_foldl_eq_some_iff hdraw hagree, hempty]
  simp

/-- **`node?` of `drawn marks` is in `marks`.** -/
theorem Agree.node?_drawn (h : Agree marks) :
    (drawn marks).node? fullKey = some node ↔
      ∃ parent, .node node parent ∈ marks ∧ node.fullKey = fullKey := by
  rw [look_drawn_eq_some_iff ShapeGraph.node? Mark.node?]
  · constructor
    · rintro ⟨_ | _, hmark, ⟨⟩⟩
      exact ⟨_, hmark, rfl⟩
    · rintro ⟨parent, hmark, rfl⟩
      exact ⟨_, hmark, rfl⟩
  · simp [ShapeGraph.node?]
  · rintro graph (_ | _) fullKey
    · exact node?_addNode
    · rfl
  · rintro (⟨first, parent⟩ | _) hfirst (⟨second, parent'⟩ | _) hsecond _ _ ⟨⟩ heq'
    · rw [Mark.node?, Option.some.injEq, Prod.mk.injEq] at heq'
      exact (h.node _ _ _ _ hfirst hsecond heq'.1.symm).1.trans heq'.2
    · cases heq'

/-- **`parent?` of `drawn marks` is in `marks`.** -/
theorem Agree.parent?_drawn (h : Agree marks) :
    (drawn marks).parent? fullKey = some parent ↔
      ∃ node, .node node parent ∈ marks ∧ node.fullKey = fullKey := by
  rw [look_drawn_eq_some_iff ShapeGraph.parent? Mark.parent?]
  · constructor
    · rintro ⟨_ | _, hmark, ⟨⟩⟩
      exact ⟨_, hmark, rfl⟩
    · rintro ⟨node, hmark, rfl⟩
      exact ⟨_, hmark, rfl⟩
  · simp [ShapeGraph.parent?]
  · rintro graph (_ | _) fullKey
    · exact parent?_addNode
    · rfl
  · rintro (⟨first, parent⟩ | _) hfirst (⟨second, parent'⟩ | _) hsecond _ _ ⟨⟩ heq'
    · rw [Mark.parent?, Option.some.injEq, Prod.mk.injEq] at heq'
      exact (h.node _ _ _ _ hfirst hsecond heq'.1.symm).2.trans heq'.2
    · cases heq'

/-- **`target?` of `drawn marks` is in `marks`.** -/
theorem Agree.target?_drawn (h : Agree marks) :
    (drawn marks).target? source event = some target ↔ .edge source event target ∈ marks := by
  let look : ShapeGraph → String × String → Option String := fun graph place =>
    graph.target? place.1 place.2
  show look (drawn marks) (source, event) = some target ↔ _
  rw [look_drawn_eq_some_iff look Mark.target?]
  · constructor
    · rintro ⟨_ | _, hmark, ⟨⟩⟩
      exact hmark
    · exact fun hmark => ⟨_, hmark, rfl⟩
  · simp [look, ShapeGraph.target?]
  · rintro graph (_ | _) ⟨source, event⟩
    · rfl
    · exact target?_addEdge
  · rintro (_ | _) hfirst (_ | _) hsecond _ _ ⟨⟩ ⟨⟩
    exact h.target _ _ _ _ hfirst hsecond

/-- The members of `(drawn marks).edges` are the sources of edges in `marks`. -/
theorem mem_edges_drawn :
    source ∈ (drawn marks).edges ↔ ∃ event target, .edge source event target ∈ marks := by
  -- The marks are drawn one by one, into a graph that may have edges already.
  have hfold : ∀ graph : ShapeGraph, source ∈ (marks.foldl draw graph).edges ↔
      (∃ event target, .edge source event target ∈ marks) ∨ source ∈ graph.edges := by
    induction marks with
    | nil => simp
    | cons mark rest ih =>
      intro graph
      rw [List.foldl_cons, ih]
      cases mark with
      | node node parent => simp [draw, addNode]
      | edge own event target =>
        simp only [draw, addEdge, Std.ExtTreeMap.mem_insert, Std.LawfulEqCmp.compare_eq_iff_eq,
          List.mem_cons, Mark.edge.injEq]
        grind
  rw [drawn, hfold]
  simp

/-! ## The marks of a chain of machines -/

/-- The marks of `level`, within `scope`. -/
def levelMarks (delimiter : String) (scope : Option String) (holdsChild : Bool)
    (level : LevelShape) : List Mark :=
  (level.shape.states.map fun state => .node
    { key := state.key
      fullKey := Path.join delimiter scope state.key
      isFinal := state.isFinal
      isCompound := holdsChild && state.key == level.active } scope) ++
  level.shape.edges.map fun edge =>
    .edge (Path.join delimiter scope edge.source) edge.event (Path.join delimiter scope edge.target)

/-- The marks of a chain of levels, the first one within a scope. -/
def levelsMarks (delimiter : String) : Option String → List LevelShape → List Mark
  | _, [] => []
  | scope, level :: rest =>
    levelMarks delimiter scope (!rest.isEmpty) level ++
      levelsMarks delimiter (some (Path.join delimiter scope level.active)) rest

/-- `addLevel` draws `levelMarks`. -/
theorem addLevel_eq_foldl (delimiter : String) (scope : Option String) (holdsChild : Bool)
    (level : LevelShape) (graph : ShapeGraph) :
    graph.addLevel delimiter scope holdsChild level =
      (levelMarks delimiter scope holdsChild level).foldl draw graph := by
  rw [levelMarks, List.foldl_append, List.foldl_map, List.foldl_map]
  rfl

/-- `addLevels` draws `levelsMarks`. -/
theorem addLevels_eq_foldl (delimiter : String) (scope : Option String) (levels : List LevelShape)
    (graph : ShapeGraph) :
    addLevels delimiter scope levels graph =
      (levelsMarks delimiter scope levels).foldl draw graph := by
  induction levels generalizing scope graph with
  | nil => rfl
  | cons level rest ih =>
    rw [addLevels, levelsMarks, List.foldl_append, ih, addLevel_eq_foldl]

/-- **`ofLevels` is `drawn` of `levelsMarks`.** -/
theorem ofLevels_eq_drawn (delimiter : String) (levels : List LevelShape) :
    ofLevels delimiter levels = drawn (levelsMarks delimiter none levels) :=
  addLevels_eq_foldl delimiter none levels {}

/-- The members of `levelsMarks` are those of `levelMarks`, each within the active keys above. -/
theorem mem_levelsMarks_iff {delimiter : String} {front : List String} {levels : List LevelShape}
    {mark : Mark} :
    mark ∈ levelsMarks delimiter (Path.scope? delimiter front) levels ↔
      ∃ i level, levels[i]? = some level ∧
        mark ∈ levelMarks delimiter
          (Path.scope? delimiter (front ++ (levels.map (·.active)).take i))
          (decide (i + 1 < levels.length)) level := by
  induction levels generalizing front with
  | nil => simp [levelsMarks]
  | cons first rest ih =>
    -- The rest of the chain stands in the scope of one more key.
    have hscope : some (Path.join delimiter (Path.scope? delimiter front) first.active) =
        Path.scope? delimiter (front ++ [first.active]) := by
      rw [Path.join_scope?, Path.scope?_of_ne_nil (by simp)]
    have hholds : (!rest.isEmpty) = decide (0 + 1 < (first :: rest).length) := by
      cases rest <;> simp
    rw [levelsMarks, List.mem_append, hscope, ih, hholds]
    constructor
    · rintro (hmark | ⟨i, level, hlevel, hmark⟩)
      · exact ⟨0, first, rfl, by simpa using hmark⟩
      · exact ⟨i + 1, level, hlevel, by simpa using hmark⟩
    · rintro ⟨_ | i, level, hlevel, hmark⟩
      · cases hlevel
        exact .inl (by simpa using hmark)
      · exact .inr ⟨i, level, hlevel, by simpa using hmark⟩

/-! ## The marks of a flat definition -/

/-- The mark of the state at `path` of a flat definition. -/
def pathMark (delimiter : String) (isFinal isCompound : Bool) (path : String) : Mark :=
  .node { key := Path.lastKey delimiter path, fullKey := path, isFinal, isCompound }
    (Path.parent? delimiter path)

/-- The mark of an answer of a flat definition, if its target is a `.path`. -/
def answerMark? : Handler × FlatTarget → Option Mark
  | (handler, .path target) => some (.edge handler.source handler.event.name target)
  | (_, .choose _ _) => none

/-- The marks of `flat`. -/
def flatMarks (flat : FlatDefinition) : List Mark :=
  flat.composites.keys.map (pathMark flat.delimiter false true) ++
    (flat.leaves.map fun leaf => pathMark flat.delimiter leaf.leaf.isFinal false leaf.path) ++
    flat.transitions.toList.filterMap answerMark?

/-- **`ofFlat` is `drawn` of `flatMarks`.** -/
theorem ofFlat_eq_drawn (flat : FlatDefinition) : ofFlat flat = drawn (flatMarks flat) := by
  rw [drawn, flatMarks, List.foldl_append, List.foldl_append, List.foldl_map, List.foldl_map,
    List.foldl_filterMap]
  refine congrArg (fun put => flat.transitions.toList.foldl put _) ?_
  funext graph entry
  obtain ⟨handler, _ | _⟩ := entry <;> rfl

end ShapeGraph

end Statechart
