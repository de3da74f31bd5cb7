import Statechart.Definition
import Statechart.Path
import Std.Data.ExtTreeMap

/-!
# Names of states and the paths they stand for

A `PathIndex` lists every state of a nested definition under its path. A name is looked up from a
scope, the path of the composite around it or `none` for the outermost one:

* every `^` at its start goes one scope outward;
* the rest is looked for in the scope, then in each scope around it;
* a composite stands for its initial state, down to a leaf.

`PathIndex.locate` finds the state of a name, `PathIndex.leafOf` follows initial states, and
`PathIndex.tryResolve` does both.

Main statements: `PathIndex.isLeaf_of_leafOf` says that what lies behind a path is a leaf, and
`PathIndex.search_ne_endless` that a search comes to an end unless the delimiter is empty.
-/

namespace Statechart

/-- The mark at the start of a name that goes one scope outward. -/
def escapeMark : Char := '^'

/-- Why a name stands for no leaf. -/
inductive Unresolved where
  /-- No scope around has a state of this name, or no leaf lies behind it. -/
  | missing
  /-- The marks at its start go beyond the outermost scope. -/
  | escapesRoot
  /-- The delimiter is empty, and the scopes around never end. -/
  | endless
  deriving DecidableEq, Inhabited

/-- What a path stands for. -/
inductive PathNode where
  | leaf
  /-- A composite, with the path of its initial state. -/
  | composite (initial : Option String)
  deriving DecidableEq, Inhabited

/-- **The states of a nested definition by path.** -/
structure PathIndex where
  nodes : Std.ExtTreeMap String PathNode
  delimiter : String
  deriving Inhabited

mutual

/-- The nodes of the states inside a definition, in order of declaration. -/
def Definition.nodes (delimiter : String) (scope : Option String) :
    Definition → List (String × PathNode)
  | ⟨states, _, _, _⟩ => statesNodes delimiter scope states

/-- The nodes of a list of states, each followed by the nodes inside it. -/
def statesNodes (delimiter : String) (scope : Option String) :
    List (String × StateDef) → List (String × PathNode)
  | [] => []
  | (key, state) :: rest =>
    state.nodes delimiter (Path.join delimiter scope key) ++ statesNodes delimiter scope rest

/-- The node of a state under its `path`, and the nodes inside it. -/
def StateDef.nodes (delimiter : String) (path : String) : StateDef → List (String × PathNode)
  | .leaf _ => [(path, .leaf)]
  | .composite inner =>
    -- The initial state may be one that is not declared.
    (path, .composite (inner.initial?.map (Path.join delimiter (some path)))) ::
      inner.nodes delimiter (some path)

end

namespace PathIndex

/-- **The index of `definition`.** -/
def ofDefinition (delimiter : String) (definition : Definition) : PathIndex where
  nodes := .ofList (definition.nodes delimiter none)
  delimiter

/-- Whether `path` stands for a state. -/
def contains (index : PathIndex) (path : String) : Bool := index.nodes.contains path

/-- Whether `path` stands for a leaf. -/
def isLeaf (index : PathIndex) (path : String) : Bool := index.nodes[path]? == some .leaf

/-! ## From a composite to a leaf -/

/-- Follow initial states from a path, up to a number of steps. -/
def leafWithin (index : PathIndex) : Nat → String → Option String
  | 0, _ => none
  | steps + 1, path =>
    match index.nodes[path]? with
    | none => none
    | some .leaf => some path
    | some (.composite none) => none
    | some (.composite (some next)) => index.leafWithin steps next

/-- **The leaf behind `path`.** A walk that is longer than there are states has come back to where
it was. -/
def leafOf (index : PathIndex) (path : String) : Option String :=
  index.leafWithin (index.nodes.size + 1) path

/-- `leafWithin` gives a leaf. -/
theorem isLeaf_of_leafWithin {index : PathIndex} {steps : Nat} {path leaf : String}
    (h : index.leafWithin steps path = some leaf) : index.isLeaf leaf = true := by
  induction steps generalizing path with
  | zero => cases h
  | succ steps ih =>
    simp only [leafWithin] at h
    split at h
    · cases h
    · rename_i hp; cases h; simp [isLeaf, hp]
    · cases h
    · exact ih h

/-- **`leafOf` gives a leaf.** -/
theorem isLeaf_of_leafOf {index : PathIndex} {path leaf : String}
    (h : index.leafOf path = some leaf) : index.isLeaf leaf = true :=
  isLeaf_of_leafWithin h

/-! ## From a name to a state -/

/-- The number of `escapeMark`s at the start of `target`. -/
def escapes (target : String) : Nat := (target.toList.takeWhile (· == escapeMark)).length

/-- `target` without the `escapeMark`s at its start. -/
def bareName (target : String) : String :=
  String.ofList (target.toList.dropWhile (· == escapeMark))

/-- `target` is its `escapes` and its `bareName`. -/
theorem replicate_escapes_append_bareName (target : String) :
    String.ofList (List.replicate (escapes target) escapeMark) ++ bareName target = target := by
  have h : ∀ cs : List Char, List.replicate (cs.takeWhile (· == escapeMark)).length escapeMark =
      cs.takeWhile (· == escapeMark) := by
    intro cs
    induction cs with
    | nil => rfl
    | cons c cs ih =>
      by_cases hc : c = escapeMark
      · subst hc; simpa [List.takeWhile_cons, List.replicate_succ] using ih
      · simp [hc]
  simp [escapes, bareName, h, ← String.ofList_append]

/-- The scope a number of levels outward, if it does not lie beyond the outermost one. -/
def outward (delimiter : String) : Nat → Option String → Option (Option String)
  | 0, scope => some scope
  | levels + 1, some scope => outward delimiter levels (Path.parent? delimiter scope)
  | _ + 1, none => none

/-- Look for `name` in a scope and in those around it, a number of them. -/
def searchWithin (index : PathIndex) (name : String) :
    Nat → Option String → Except Unresolved String
  | 0, _ => .error .endless
  | bound + 1, scope =>
    let candidate := Path.join index.delimiter scope name
    if index.contains candidate then .ok candidate
    else
      match scope with
      | none => .error .missing
      | some path => index.searchWithin name bound (Path.parent? index.delimiter path)

/-- Look for `name` in `scope` and in those around it. A path has at most one more ancestor than it
has characters, and the outermost scope lies around them all. -/
def search (index : PathIndex) (name : String) (scope : Option String) : Except Unresolved String :=
  index.searchWithin name ((scope.getD "").length + 2) scope

/-- `searchWithin` with enough steps is not `.endless`, unless the delimiter is empty. -/
theorem searchWithin_ne_endless {index : PathIndex} {name : String} {bound : Nat}
    {scope : Option String} (hd : index.delimiter ≠ "")
    (hb : scope.elim 0 (·.length + 1) < bound) :
    index.searchWithin name bound scope ≠ .error .endless := by
  induction bound generalizing scope with
  | zero => omega
  | succ bound ih =>
    simp only [searchWithin]
    split
    · simp
    · cases scope with
      | none => simp
      | some path =>
        simp only [Option.elim_some] at hb
        refine ih ?_
        cases hp : Path.parent? index.delimiter path with
        | none => simp only [Option.elim_none]; omega
        | some up =>
          have := Path.length_lt_of_parent? hd hp
          simp only [Option.elim_some]
          omega

/-- **`search` is not `.endless`**, unless the delimiter is empty. -/
theorem search_ne_endless {index : PathIndex} (hd : index.delimiter ≠ "") (name : String)
    (scope : Option String) : index.search name scope ≠ .error .endless :=
  searchWithin_ne_endless hd (by cases scope <;> simp)

/-- **The path of the state that `target` stands for in `scope`**: `outward`, and then `search`. -/
def locate (index : PathIndex) (scope : Option String) (target : String) :
    Except Unresolved String :=
  match outward index.delimiter (escapes target) scope with
  | none => .error .escapesRoot
  | some scope => index.search (bareName target) scope

/-- **The path of the leaf that `target` stands for in `scope`**, or why there is none: `locate`,
and then `leafOf`. -/
def tryResolve (index : PathIndex) (scope : Option String) (target : String) :
    Except Unresolved String := do
  match index.leafOf (← index.locate scope target) with
  | some leaf => return leaf
  | none => throw .missing

/-- `tryResolve` without the reason. -/
def resolve (index : PathIndex) (scope : Option String) (target : String) : Option String :=
  (index.tryResolve scope target).toOption

end PathIndex

end Statechart
