import Statechart.Config
import Statechart.Definition.Validation
import Statechart.Shape

/-!
# Flat definitions

A `FlatDefinition` describes the same states as a nested definition on a single level. Its states
are the leaves, under their paths. Composites are no states of it: as a target a composite means its
initial leaf, and what a composite answers is kept under the path of the composite.

* `FlatDefinition.ofDefinition`: the flat form of a nested definition, or what stands against it.
* `FlatDefinition.collisions`: which domain events are answered both by a composite and by a state
  below it. `EventCollision` says what becomes of them.
* `ShapeGraph.ofFlat`: the graph of a flat definition.
-/

namespace Statechart

/-- **A leaf**, under its path. -/
structure FlatLeaf where
  path : String
  leaf : LeafDef
  deriving Inhabited

/-- Where an answer of a flat definition leads. -/
inductive FlatTarget where
  /-- To a leaf. -/
  | path (path : String)
  /-- To the leaf of a name that the parameters of the event determine, seen from a scope. -/
  | choose (scope : Option String) (pick : Params → Option String)

/-- **Who answers what**: the path of a state and the key of an event. -/
structure Handler where
  source : String
  event : EventKey
  deriving DecidableEq, Inhabited

namespace Handler

/-- Handlers are ordered by path, then by key. -/
instance : Ord Handler := ⟨compareLex (compareOn source) (compareOn event)⟩

instance : Std.TransOrd Handler :=
  inferInstanceAs (Std.TransCmp (compareLex (compareOn source) (compareOn event)))

instance : Std.LawfulEqOrd Handler where
  compare_self :=
    (inferInstance : Std.ReflCmp (compareLex (compareOn source) (compareOn event))).compare_self
  eq_of_compare {a b} h := by
    have h' : (compareOn source a b).then (compareOn event a b) = .eq := h
    rw [Ordering.then_eq_eq] at h'
    have hs : a.source = b.source := Std.LawfulEqOrd.eq_of_compare h'.1
    have he : a.event = b.event := Std.LawfulEqOrd.eq_of_compare h'.2
    cases a; cases b; simp_all

end Handler

/-- **A nested definition on a single level.** -/
structure FlatDefinition where
  /-- The leaves, in order of declaration. -/
  leaves : List FlatLeaf
  /-- The initial leaf of every composite, by path. -/
  composites : Std.ExtTreeMap String String
  /-- The answers. -/
  transitions : Std.ExtTreeMap Handler FlatTarget
  /-- The path of the initial leaf. -/
  initial : String
  /-- The names of all states. -/
  index : PathIndex
  deriving Inhabited

/-- A domain event that a composite and a state below it both answer. -/
structure Collision where
  composite : String
  event : EventKey
  child : String
  deriving DecidableEq, Inhabited

/-- Why a definition has no flat form. -/
inductive FlattenError where
  /-- The definition has problems. -/
  | invalid (problems : List Problem)
  /-- A composite and a state below it answer the same event. -/
  | eventCollision (collision : Collision)
  deriving DecidableEq, Inhabited

/-- The text of a failure. -/
def FlattenError.message : FlattenError → String
  | .invalid problems => Problem.report problems
  | .eventCollision ⟨composite, event, child⟩ =>
    "Event '" ++ event.name ++ "' on composite '" ++ composite ++ "' is also handled by '" ++
      child ++ "'"

namespace FlatDefinition

/-! ## Queries -/

/-- What separates the keys of a path. -/
def delimiter (flat : FlatDefinition) : String := flat.index.delimiter

/-- The first leaf of `path`. -/
def leaf? (flat : FlatDefinition) (path : String) : Option FlatLeaf :=
  flat.leaves.find? (·.path == path)

/-- The path of the initial leaf of the composite at `path`. -/
def compositeInitial? (flat : FlatDefinition) (path : String) : Option String :=
  flat.composites[path]?

/-- Where the answer to `event` under the path `source` leads. -/
def target? (flat : FlatDefinition) (source : String) (event : EventKey) : Option FlatTarget :=
  flat.transitions[(⟨source, event⟩ : Handler)]?

/-- The paths of the states that have answers, in order. -/
def sources (flat : FlatDefinition) : List String :=
  (flat.transitions.keys.map Handler.source).eraseDups

/-- The path of the leaf of `name`, seen from `scope`. -/
def resolve (flat : FlatDefinition) (scope : Option String) (name : String) : Option String :=
  flat.index.resolve scope name

/-! ## What a nested definition contributes -/

mutual

/-- The leaves inside a definition. -/
def leavesIn (delimiter : String) (scope : Option String) : Definition → List FlatLeaf
  | ⟨states, _, _, _⟩ => leavesOfStates delimiter scope states

/-- The leaves of a list of states. -/
def leavesOfStates (delimiter : String) (scope : Option String) :
    List (String × StateDef) → List FlatLeaf
  | [] => []
  | (key, state) :: rest =>
    leavesOfState delimiter (Path.join delimiter scope key) state ++
      leavesOfStates delimiter scope rest

/-- The leaves of a state, given its path. -/
def leavesOfState (delimiter : String) (path : String) : StateDef → List FlatLeaf
  | .leaf leaf => [⟨path, leaf⟩]
  | .composite inner => leavesIn delimiter (some path) inner

end

mutual

/-- The composites inside a definition, with their initial leaves. -/
def compositesIn (index : PathIndex) (scope : Option String) :
    Definition → List (String × String)
  | ⟨states, _, _, _⟩ => compositesOfStates index scope states

/-- The composites among a list of states and inside them. -/
def compositesOfStates (index : PathIndex) (scope : Option String) :
    List (String × StateDef) → List (String × String)
  | [] => []
  | (key, state) :: rest =>
    compositesOfState index (Path.join index.delimiter scope key) state ++
      compositesOfStates index scope rest

/-- The composites of a state, given its path. -/
def compositesOfState (index : PathIndex) (path : String) : StateDef → List (String × String)
  | .leaf _ => []
  | .composite inner =>
    ((index.leafOf path).map (path, ·)).toList ++ compositesIn index (some path) inner

end

/-- The answer of `transition`, or the problem that its target names no state. -/
def entry (index : PathIndex) (scope : Option String) (transition : TransitionDef) :
    Except Problem (Handler × FlatTarget) :=
  let source := Path.join index.delimiter scope transition.source
  let handler : Handler := ⟨source, transition.event⟩
  match transition.target with
  | .choose pick => .ok (handler, .choose scope pick)
  | .key target =>
    match index.resolve scope target with
    | some path => .ok (handler, .path path)
    | none => .error (.unresolvedTarget source transition.event.name target)

mutual

/-- The answers given inside a definition, those of inner levels first. -/
def entriesIn (index : PathIndex) (scope : Option String) :
    Definition → Except Problem (List (Handler × FlatTarget))
  | ⟨states, transitions, _, _⟩ => do
    let inside ← entriesOfStates index scope states
    let own ← transitions.mapM (entry index scope)
    return inside ++ own

/-- The answers given inside a list of states. -/
def entriesOfStates (index : PathIndex) (scope : Option String) :
    List (String × StateDef) → Except Problem (List (Handler × FlatTarget))
  | [] => .ok []
  | (key, state) :: rest => do
    let first ← entriesOfState index (Path.join index.delimiter scope key) state
    let others ← entriesOfStates index scope rest
    return first ++ others

/-- The answers given inside a state, given its path. -/
def entriesOfState (index : PathIndex) (path : String) :
    StateDef → Except Problem (List (Handler × FlatTarget))
  | .leaf _ => .ok []
  | .composite inner => entriesIn index (some path) inner

end

/-! ## Collisions -/

/-- Whether `path` lies below `composite`. -/
def isBelow (delimiter composite path : String) : Bool :=
  (composite ++ delimiter).toList.isPrefixOf path.toList

/-- The events that are answered under the path `source`, in order. -/
def eventsOf (flat : FlatDefinition) (source : String) : List EventKey :=
  (flat.transitions.keys.filter (·.source == source)).map Handler.event

/-- **The `sources` below `composite`.** They are a run of the sources, which starts where the path
of the composite would be with a delimiter after it, and ends before the first source that is not
below the composite. -/
def sourcesBelow (flat : FlatDefinition) (composite : String) : List String :=
  let start := composite ++ flat.delimiter
  (flat.sources.dropWhile (compare · start == .lt)).takeWhile (isBelow flat.delimiter composite)

/-- **The collisions**, in order of composites, then of events, then of the states below. -/
def collisions (flat : FlatDefinition) : List Collision :=
  flat.composites.keys.flatMap fun composite =>
    let below := flat.sourcesBelow composite
    ((flat.eventsOf composite).filter fun event => !event.isReserved).flatMap fun event =>
      (below.filter fun child => (flat.target? child event).isSome).map fun child =>
        ⟨composite, event, child⟩

/-- Do with `collisions` what `policy` says. -/
def settleCollisions (policy : EventCollision) (flat : FlatDefinition) :
    Except FlattenError FlatDefinition :=
  let collisions := flat.collisions
  match policy with
  | .error =>
    match collisions with
    | [] => .ok flat
    | first :: _ => .error (.eventCollision first)
  | .namespaced => .ok flat
  | .allowShadow =>
    -- All collisions are known before the first answer goes.
    .ok { flat with
      transitions := collisions.foldl (fun transitions c =>
        transitions.erase ⟨c.child, c.event⟩) flat.transitions }

/-! ## The flat form -/

/-- The flat form of a definition without problems, with all its answers. -/
def assemble (delimiter : String) (definition : Definition) :
    Except FlattenError FlatDefinition := do
  let index := PathIndex.ofDefinition delimiter definition
  let entries ← (entriesIn index none definition).mapError fun problem => .invalid [problem]
  match definition.initial?.bind (index.resolve none) with
  | none => .error (.invalid [.missingInitial none])
  | some initial =>
    -- Entries of inner levels come first, so of two under one handler the outer one counts.
    return { leaves := leavesIn delimiter none definition
             composites := .ofList (compositesIn index none definition)
             transitions := .ofList entries
             initial
             index }

/-- **The flat form of `definition`**, or what stands against it: `problems`, `assemble` and
`settleCollisions`. It is `none` if the check of the definition never ends. -/
def ofDefinition (config : FlattenConfig) (definition : Definition) :
    Option (Except FlattenError FlatDefinition) := do
  match ← definition.problems config.delimiter with
  | [] =>
    return (assemble config.delimiter definition).bind (settleCollisions config.eventCollision)
  | problems => return .error (.invalid problems)

end FlatDefinition

/-! ## The graph -/

namespace ShapeGraph

/-- Add a state of a flat definition. -/
def addPath (delimiter : String) (isFinal isCompound : Bool) (path : String) (graph : ShapeGraph) :
    ShapeGraph :=
  graph.addNode { key := Path.lastKey delimiter path, fullKey := path, isFinal, isCompound }
    (Path.parent? delimiter path)

/-- **The graph of a flat definition**: composites and leaves, and an edge for every answer that
always leads to the same leaf. -/
def ofFlat (flat : FlatDefinition) : ShapeGraph :=
  let graph := flat.composites.keys.foldl (fun graph path =>
    graph.addPath flat.delimiter false true path) {}
  let graph := flat.leaves.foldl (fun graph leaf =>
    graph.addPath flat.delimiter leaf.leaf.isFinal false leaf.path) graph
  flat.transitions.toList.foldl (fun graph entry =>
    match entry.2 with
    | .path target => graph.addEdge entry.1.source entry.1.event.name target
    | .choose _ _ => graph) graph

end ShapeGraph

end Statechart
