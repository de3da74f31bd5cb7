import Statechart.Proofs.World.Following
import Statechart.Proofs.World.Level

/-! # What a graph is drawn from

The graph of a hierarchy is drawn from what its machines say of their structure, and from the keys
of the states that lead from one to the next. As long as these stay, so does the graph.

* `Machine.IsRegistered`: a machine is in a state that its factory knows.
* `Machine.describe_eq_of_isRegistered`: then its structure is that of its factory and its table.
* `ShapeGraph.ofLevels_eq_of_dropLast`: it does not matter where the innermost machine stands.
* `World.levelShapes`, `World.Tidy.drawGraph_eq`: what the graph of machines is drawn from.
* `World.KeepsParts`, **`World.KeepsParts.drawGraph_eq`**: when a graph stays what it is. -/

namespace Statechart

variable {ρ γ σ : Type}

/-! ## The structure of a machine -/

/-- **`m` is in a state that its factory knows**, which has the final marker of its key. -/
structure Machine.IsRegistered (m : Machine σ) : Prop where
  known : m.current.state.key ∈ m.factory.keys
  marked : m.current.state.isFinal = true → m.factory.isFinal m.current.state.key = true

instance (m : Machine σ) : Decidable m.IsRegistered :=
  decidable_of_iff (m.current.state.key ∈ m.factory.keys ∧
      (m.current.state.isFinal = true → m.factory.isFinal m.current.state.key = true))
    ⟨fun h => ⟨h.1, h.2⟩, fun h => ⟨h.known, h.marked⟩⟩

/-- The states of `m.describe` are those of `m.factory`. -/
theorem Machine.IsRegistered.states_eq {m : Machine σ} (h : m.IsRegistered) :
    m.describe.states = m.factory.keys.map fun key => ⟨key, m.factory.isFinal key⟩ := by
  rw [describe]
  dsimp only
  rw [if_pos h.known]
  refine List.map_congr_left fun key _ => ?_
  -- The marker of the current state adds nothing to that of its key.
  by_cases hkey : key = m.current.state.key
  · cases hfinal : m.current.state.isFinal with
    | false => rw [Bool.and_false, Bool.or_false]
    | true => rw [hkey, h.marked hfinal, Bool.true_or]
  · rw [beq_eq_false_iff_ne.2 hkey, Bool.false_and, Bool.or_false]

/-- **`m.describe` depends on factory and table alone** while `m` is in states that its factory
knows. -/
theorem Machine.describe_eq_of_isRegistered {m m' : Machine σ} (h : m.IsRegistered)
    (h' : m'.IsRegistered) (hfactory : m'.factory = m.factory) (htable : m'.table = m.table) :
    m'.describe = m.describe := by
  have hedges : m'.describe.edges = m.describe.edges := by
    rw [describe, describe]
    dsimp only
    rw [edges, edges, htable]
  have hstates : m'.describe.states = m.describe.states := by
    rw [h.states_eq, h'.states_eq, hfactory]
  generalize m'.describe = shape' at hedges hstates
  generalize m.describe = shape at hedges hstates
  cases shape'
  cases shape
  cases hedges
  cases hstates
  rfl

/-! ## Graphs of levels -/

namespace ShapeGraph

variable {delimiter : String} {levels levels' : List LevelShape}

/-- `addLevel` without a child does not depend on the active key. -/
theorem addLevel_false {scope : Option String} {level level' : LevelShape} (graph : ShapeGraph)
    (hshape : level'.shape = level.shape) :
    graph.addLevel delimiter scope false level' = graph.addLevel delimiter scope false level := by
  simp only [addLevel, hshape, Bool.false_and]

/-- **`addLevels` depends on the structures of the levels and on their active keys**, but for the
innermost one. -/
theorem addLevels_eq_of_dropLast (hshapes : levels'.map (·.shape) = levels.map (·.shape))
    (hkeys : (levels'.map (·.active)).dropLast = (levels.map (·.active)).dropLast)
    (scope : Option String) (graph : ShapeGraph) :
    addLevels delimiter scope levels' graph = addLevels delimiter scope levels graph := by
  -- By induction over the levels. The active key of a level counts only where another one follows.
  induction levels generalizing levels' scope graph with
  | nil =>
    obtain rfl := List.map_eq_nil_iff.1 hshapes
    rfl
  | cons level rest ih =>
    obtain ⟨level', rest', rfl, hshape, hrest⟩ := List.map_eq_cons_iff.1 hshapes
    cases rest with
    | nil =>
      obtain rfl := List.map_eq_nil_iff.1 hrest
      exact addLevel_false graph hshape
    | cons second more =>
      obtain ⟨second', more', rfl, -, -⟩ := List.map_eq_cons_iff.1 hrest
      simp only [List.map_cons, List.dropLast_cons_cons, List.cons.injEq] at hkeys
      obtain ⟨hactive, hkeys⟩ := hkeys
      have hlevel : level' = level := by
        obtain ⟨shape, active⟩ := level
        obtain ⟨shape', active'⟩ := level'
        cases hshape
        cases hactive
        rfl
      have hnested : ∀ (second : LevelShape) (more : List LevelShape),
          addLevels delimiter scope (level :: second :: more) graph =
            addLevels delimiter (some (Path.join delimiter scope level.active)) (second :: more)
              (graph.addLevel delimiter scope true level) := fun _ _ => rfl
      rw [hlevel, hnested, hnested]
      exact ih hrest (by simpa only [List.map_cons] using hkeys) _ _

/-- `ofLevels` does not depend on the active key of the innermost level. -/
theorem ofLevels_eq_of_dropLast (hshapes : levels'.map (·.shape) = levels.map (·.shape))
    (hkeys : (levels'.map (·.active)).dropLast = (levels.map (·.active)).dropLast) :
    ofLevels delimiter levels' = ofLevels delimiter levels :=
  addLevels_eq_of_dropLast hshapes hkeys none {}

end ShapeGraph

/-! ## Graphs of machines -/

/-- **`m'` has the identity, the factory, the table and the settings of `m`.** -/
structure Machine.KeepsParts (m m' : Machine σ) : Prop where
  id : m'.id = m.id
  factory : m'.factory = m.factory
  table : m'.table = m.table
  config : m'.config = m.config

/-- `Machine.Unmoved` gives `KeepsParts`. -/
theorem Machine.Unmoved.keepsParts {m m' : Machine σ} (h : m.Unmoved m') : m.KeepsParts m' :=
  ⟨h.id, h.factory, h.table, h.config⟩

/-- `Machine.KeepsParts` is transitive. -/
theorem Machine.KeepsParts.trans {m m' m'' : Machine σ} (h : m.KeepsParts m')
    (h' : m'.KeepsParts m'') : m.KeepsParts m'' :=
  ⟨h'.id.trans h.id, h'.factory.trans h.factory, h'.table.trans h.table, h'.config.trans h.config⟩

namespace World

variable {settings : MachineConfig → Prop} {w w' w'' : World ρ γ} {e : Engine} {link : Link}
  {m m' : Machine (StatePlan ρ)}

/-- **Every machine keeps its parts** (`Machine.KeepsParts`). -/
def KeepsParts (w w' : World ρ γ) : Prop :=
  ∀ link m, w.machine? link = some m → ∃ m', w'.machine? link = some m' ∧ m.KeepsParts m'

/-- `World.Stays` of all machines gives `KeepsParts`. -/
theorem Stays.keepsParts (h : w.Stays (fun _ => True) w') : w.KeepsParts w' := by
  intro link m hm
  obtain ⟨m', hm', -, hunmoved⟩ := h.machine link m hm
  exact ⟨m', hm', (hunmoved trivial).keepsParts⟩

/-- `World.KeepsParts` is transitive. -/
theorem KeepsParts.trans (h : w.KeepsParts w') (h' : w'.KeepsParts w'') : w.KeepsParts w'' := by
  intro link m hm
  obtain ⟨m', hm', hparts⟩ := h link m hm
  obtain ⟨m'', hm'', hparts'⟩ := h' link m' hm'
  exact ⟨m'', hm'', hparts.trans hparts'⟩

/-- `World.KeepsParts` of `w.setCell link (.machine m')` if `m'` keeps the parts of `m`. -/
theorem KeepsParts.setCell (hm : w.machine? link = some m) (hparts : m.KeepsParts m') :
    w.KeepsParts (w.setCell link (.machine m')) := by
  intro other m₀ hm₀
  rw [machine?_setCell hm]
  by_cases heq : other = link
  · subst heq
    rw [hm] at hm₀
    cases hm₀
    exact ⟨m', if_pos rfl, hparts⟩
  · exact ⟨m₀, by rw [if_neg heq, hm₀], rfl, rfl, rfl, rfl⟩

/-- `Machine.describe` of the machines of `e`, each with the key of its state. -/
def levelShapes (w : World ρ γ) (e : Engine) : List LevelShape :=
  (w.activeLinks e).filterMap fun link =>
    (w.machine? link).map fun m => ⟨m.describe, m.current.state.key⟩

/-- **`Act.drawGraph` of a tidy world is `ShapeGraph.ofLevels` of `w.levelShapes e`.** -/
theorem Tidy.drawGraph_eq (hw : w.Tidy settings) :
    Act.drawGraph w e = .ofLevels e.config.delimiter (w.levelShapes e) := by
  have hchildren : (w.chain e).map (fun level =>
      Act.levelShape (w.describe? level.link) level.snapshot) =
        ((w.chain e).map (·.link)).filterMap fun link =>
          (w.machine? link).map fun m => (⟨m.describe, m.current.state.key⟩ : LevelShape) := by
    rw [List.filterMap_map, ← List.filterMap_eq_map]
    refine List.filterMap_congr fun level hlevel => ?_
    obtain ⟨m, hm, hshown, -⟩ := hw.exists_of_mem_chain hlevel
    simp only [Function.comp_apply, describe?, hm, Option.map_some, hshown]
    rfl
  rw [Act.drawGraph, levelShapes, activeLinks, List.filterMap_cons, hchildren]
  cases w.machine? e.root <;> rfl

/-- The active keys of `w.levelShapes e` are `w.activeKeys e`. -/
theorem Tidy.map_active_levelShapes (hw : w.Tidy settings) :
    (w.levelShapes e).map (·.active) = w.activeKeys e := by
  have hchildren : ((w.chain e).map (·.link)).filterMap (fun link =>
      (w.machine? link).map fun m => m.current.state.key) =
        (w.chain e).map (·.snapshot.key) := by
    rw [List.filterMap_map, ← List.filterMap_eq_map]
    refine List.filterMap_congr fun level hlevel => ?_
    obtain ⟨m, hm, hshown, -⟩ := hw.exists_of_mem_chain hlevel
    simp only [Function.comp_apply, hm, Option.map_some, hshown]
    rfl
  rw [levelShapes, List.map_filterMap, activeKeys, activeLinks, ← hchildren]
  simp only [List.filterMap_cons, Option.map_map]
  cases w.machine? e.root <;> rfl

/-- **`Act.drawGraph` is the same where no machine moves.** -/
theorem Stays.drawGraph_eq (h : w.Stays (fun _ => True) w') (hw : w.Tidy settings)
    (hw' : w'.Tidy settings) (hroot : w.HasMachine e.root) :
    Act.drawGraph w' e = Act.drawGraph w e := by
  have hlinks := h.activeLinks_eq hw hroot fun _ _ => trivial
  have hshapes : w'.levelShapes e = w.levelShapes e := by
    rw [levelShapes, levelShapes, hlinks]
    refine List.filterMap_congr fun link hlink => ?_
    obtain ⟨m, hm⟩ := hw.hasMachine_of_mem hroot hlink
    obtain ⟨m', hm', -, hunmoved⟩ := h.machine link m hm
    have hstays := hunmoved trivial
    have hdescribe : m'.describe = m.describe := by
      simp only [Machine.describe, Machine.edges, hstays.current, hstays.factory, hstays.table]
    rw [hm, hm', Option.map_some, Option.map_some, hdescribe, hstays.current]
  rw [hw.drawGraph_eq, hw'.drawGraph_eq, hshapes]

/-- **The machines of `e` are in states that their factories know** (`Machine.IsRegistered`). -/
def IsRegistered (w : World ρ γ) (e : Engine) : Prop :=
  ∀ link ∈ w.activeLinks e, ∀ m, w.machine? link = some m → m.IsRegistered

instance (w : World ρ γ) (e : Engine) : Decidable (w.IsRegistered e) :=
  decidable_of_iff (∀ link ∈ w.activeLinks e, ∀ m ∈ w.machine? link, m.IsRegistered) .rfl

/-- **`Act.drawGraph` is the same while `w.activeLinks e` is**, and `w.activeKeys e` but for the
last one. -/
theorem KeepsParts.drawGraph_eq (h : w.KeepsParts w') (hw : w.Tidy settings)
    (hw' : w'.Tidy settings) (hroot : w.HasMachine e.root)
    (hlinks : w'.activeLinks e = w.activeLinks e)
    (hkeys : (w'.activeKeys e).dropLast = (w.activeKeys e).dropLast)
    (hregistered : w.IsRegistered e) (hregistered' : w'.IsRegistered e) :
    Act.drawGraph w' e = Act.drawGraph w e := by
  have hshapes : (w'.levelShapes e).map (·.shape) = (w.levelShapes e).map (·.shape) := by
    rw [levelShapes, levelShapes, hlinks, List.map_filterMap, List.map_filterMap]
    refine List.filterMap_congr fun link hlink => ?_
    obtain ⟨m, hm⟩ := hw.hasMachine_of_mem hroot hlink
    obtain ⟨m', hm', hparts⟩ := h link m hm
    have hdescribe := Machine.describe_eq_of_isRegistered (hregistered link hlink m hm)
      (hregistered' link (hlinks ▸ hlink) m' hm') hparts.factory hparts.table
    simp only [hm, hm', Option.map_some, hdescribe]
  rw [hw.drawGraph_eq, hw'.drawGraph_eq]
  refine ShapeGraph.ofLevels_eq_of_dropLast hshapes ?_
  rw [hw.map_active_levelShapes, hw'.map_active_levelShapes, hkeys]

end World

end Statechart
