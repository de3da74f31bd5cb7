import Statechart.Definition.PathIndex

/-!
# Checking nested definitions

`Definition.problems` lists everything that is wrong with a definition, level by level: first the
initial state, then the states with the levels inside them, then the issues from building it, then
the transitions.

A search for a name never ends if the delimiter is empty and the name stands for nothing; then there
is no list of problems, and `Definition.problems` answers `none`.
-/

namespace Statechart

namespace Definition

/-- What is wrong with the initial state. -/
def initialProblems (scope : Option String) (definition : Definition) : List Problem :=
  match definition.initial? with
  | none => [.missingInitial scope]
  | some key => if definition.declares key then [] else [.unknownInitial scope key]

/-- What is wrong with `key`, given the keys declared before it. -/
def keyProblems (delimiter : String) (scope : Option String) (earlier : List String)
    (key : String) : List Problem :=
  (if key ∈ earlier then [.duplicateState scope key] else []) ++
  (if key.isEmpty || key.toList.head? == some escapeMark || Path.isQualified delimiter key then
    [.invalidStateName scope key] else [])

/-- What is wrong with the target of `transition`, given the path of its source. -/
def targetProblems (index : PathIndex) (scope : Option String) (source : String)
    (transition : TransitionDef) : Option (List Problem) :=
  match transition.target with
  | .choose _ => some []
  | .key target =>
    match index.tryResolve scope target with
    | .ok _ => some []
    | .error .missing => some [.unresolvedTarget source transition.event.name target]
    | .error .escapesRoot => some [.escapeBeyondRoot source target]
    | .error .endless => none

/-- What is wrong with transitions, given the sources and events of those declared before them. -/
def transitionProblems (index : PathIndex) (scope : Option String) (definition : Definition) :
    List (String × EventKey) → List TransitionDef → Option (List Problem)
  | _, [] => some []
  | earlier, transition :: rest => do
    let source := Path.join index.delimiter scope transition.source
    let answered := (transition.source, transition.event)
    let unknown := if definition.declares transition.source then []
      else [.unknownSource scope transition.source]
    let repeated := if answered ∈ earlier then
        [.duplicateTransition source transition.event.name]
      else []
    let unresolved ← targetProblems index scope source transition
    let others ← transitionProblems index scope definition (answered :: earlier) rest
    return unknown ++ repeated ++ unresolved ++ others

mutual

/-- What is wrong with a definition in `scope`, and with those inside it. -/
def problemsIn (index : PathIndex) (scope : Option String) :
    Definition → Option (List Problem)
  | ⟨states, transitions, initial?, issues⟩ => do
    let definition : Definition := ⟨states, transitions, initial?, issues⟩
    let inStates ← statesProblems index scope [] states
    let inTransitions ← transitionProblems index scope definition [] transitions
    return initialProblems scope definition ++ inStates ++ issues ++ inTransitions

/-- What is wrong with states, given the keys declared before them. -/
def statesProblems (index : PathIndex) (scope : Option String) (earlier : List String) :
    List (String × StateDef) → Option (List Problem)
  | [] => some []
  | (key, state) :: rest => do
    let inside ← stateProblems index (Path.join index.delimiter scope key) state
    let others ← statesProblems index scope (key :: earlier) rest
    return keyProblems index.delimiter scope earlier key ++ inside ++ others

/-- What is wrong inside a state, given its `path`. -/
def stateProblems (index : PathIndex) (path : String) : StateDef → Option (List Problem)
  | .leaf _ => some []
  | .composite inner =>
    -- A composite without states has this problem only, whatever else is wrong inside it.
    if inner.states.isEmpty then some [.emptyComposite path]
    else problemsIn index (some path) inner

end

/-- **Everything that is wrong with a definition**, or `none` if a search for a target never ends.
-/
def problems (delimiter : String) (definition : Definition) : Option (List Problem) :=
  problemsIn (PathIndex.ofDefinition delimiter definition) none definition

end Definition

end Statechart
