import Mathlib.Data.Finset.Card
import Mathlib.Logic.Relation
import Statechart.Proofs.Definition.Resolution

/-! # Following initial states

A composite leads to its initial state, which may be a composite in turn. In an index that nobody
has checked such a walk may end at a leaf, at a path under which nothing is listed, or at a
composite without initial state; or it may go round in a circle, and then it is given up.

* **`PathIndex.Enters`**: one step, from a composite to its initial state.
* `PathIndex.walk`: a number of steps. `PathIndex.IsDeadEnd`: no step and no leaf.
* **`PathIndex.leafOf_eq_some_iff`**: a leaf that is reached is found.
* **`PathIndex.isSome_walk_iff_circles`**: only circles use up the allowance, by the pigeonhole
  principle.
* `PathIndex.enters_self_of_transGen`: in the index of a definition a circle is a single step.
* **`Definition.leafOf_follows`**: all of this for the index of any definition. -/

namespace Statechart

open Relation

namespace PathIndex

variable {index : PathIndex} {steps : Nat} {path next leaf stop : String}

/-! ## Steps -/

/-- The path of the initial state of the composite at `path`. -/
def initial? (index : PathIndex) (path : String) : Option String :=
  match index.nodes[path]? with
  | some (.composite initial?) => initial?
  | _ => none

/-- **`next` is the path of the initial state of the composite at `path`**, whether or not anything
is listed there. -/
def Enters (index : PathIndex) (path next : String) : Prop :=
  index.nodes[path]? = some (.composite (some next))

/-- **Nothing is listed at `path`, or a composite without initial state.** -/
def IsDeadEnd (index : PathIndex) (path : String) : Prop :=
  index.nodes[path]? = none ∨ index.nodes[path]? = some (.composite none)

/-- The path after a number of steps, if there are so many. -/
def walk (index : PathIndex) : Nat → String → Option String
  | 0, path => some path
  | steps + 1, path => (index.initial? path).bind (index.walk steps)

/-- **The steps from `path` come into a circle.** -/
def Circles (index : PathIndex) (path : String) : Prop :=
  ∃ turn, ReflTransGen index.Enters path turn ∧ TransGen index.Enters turn turn

/-- `initial?` is a step of `Enters`. -/
theorem initial?_eq_some_iff : index.initial? path = some next ↔ index.Enters path next := by
  rw [initial?, Enters]
  split <;> simp_all

/-- No step of `Enters` starts at a leaf. -/
theorem Enters.isLeaf_eq_false (h : index.Enters path next) : index.isLeaf path = false := by
  rw [isLeaf, h]
  rfl

/-- No step of `Enters` starts at a dead end. -/
theorem Enters.not_isDeadEnd (h : index.Enters path next) : ¬ index.IsDeadEnd path := by
  rw [IsDeadEnd, h]
  simp

/-- Every path is a leaf, a dead end, or the start of a step. -/
theorem step_cases (index : PathIndex) (path : String) :
    index.isLeaf path = true ∨ index.IsDeadEnd path ∨ ∃ next, index.Enters path next := by
  rw [isLeaf, IsDeadEnd, beq_iff_eq]
  simp only [Enters]
  rcases index.nodes[path]? with _ | _ | _ | next <;> simp

/-- `walk` with one more step at the beginning. -/
theorem walk_succ (h : index.Enters path next) : index.walk (steps + 1) path =
    index.walk steps next := by
  rw [walk, initial?_eq_some_iff.2 h, Option.bind_some]

/-- `walk` is `none` if there is no step to begin with. -/
theorem walk_succ_eq_none (h : ∀ next, ¬ index.Enters path next) :
    index.walk (steps + 1) path = none := by
  have hnone : index.initial? path = none :=
    Option.eq_none_iff_forall_ne_some.2 fun next hnext => h next (initial?_eq_some_iff.1 hnext)
  rw [walk, hnone, Option.bind_none]

/-- `walk` follows `Enters`. -/
theorem reflTransGen_of_walk (h : index.walk steps path = some stop) :
    ReflTransGen index.Enters path stop := by
  induction steps generalizing path with
  | zero =>
    cases h
    exact .refl
  | succ steps ih =>
    obtain ⟨next, hnext, hrest⟩ := Option.bind_eq_some_iff.1 h
    exact .head (initial?_eq_some_iff.1 hnext) (ih hrest)

/-- `walk` of `first + second` steps. -/
theorem walk_add (index : PathIndex) (first second : Nat) (path : String) :
    index.walk (first + second) path = (index.walk first path).bind (index.walk second) := by
  induction first generalizing path with
  | zero => rw [Nat.zero_add, walk, Option.bind_some]
  | succ first ih =>
    rw [Nat.succ_add, walk, walk, Option.bind_assoc]
    congr 1
    funext next
    exact ih next

/-! ## Leaves -/

/-- `leafWithin` finds a leaf at once. -/
theorem leafWithin_of_isLeaf (h : index.isLeaf path = true) :
    index.leafWithin (steps + 1) path = some path := by
  rw [isLeaf, beq_iff_eq] at h
  rw [leafWithin, h]

/-- `leafWithin` finds nothing at a dead end. -/
theorem leafWithin_of_isDeadEnd (h : index.IsDeadEnd path) :
    index.leafWithin steps path = none := by
  cases steps with
  | zero => rfl
  | succ steps => rcases h with h | h <;> rw [leafWithin, h]

/-- `leafWithin` takes one step of `Enters` for one of its bound. -/
theorem leafWithin_of_enters (h : index.Enters path next) :
    index.leafWithin (steps + 1) path = index.leafWithin steps next := by
  rw [leafWithin, h]

/-- `leafWithin` finds what `Enters` leads to. -/
theorem reflTransGen_of_leafWithin (h : index.leafWithin steps path = some leaf) :
    ReflTransGen index.Enters path leaf := by
  induction steps generalizing path with
  | zero => cases h
  | succ steps ih =>
    rcases index.step_cases path with hleaf | hdead | ⟨next, hnext⟩
    · rw [leafWithin_of_isLeaf hleaf] at h
      cases h
      exact .refl
    · rw [leafWithin_of_isDeadEnd hdead] at h
      cases h
    · rw [leafWithin_of_enters hnext] at h
      exact .head hnext (ih h)

/-- `leafWithin` finds a leaf that `Enters` leads to, for some bound. -/
theorem exists_leafWithin_of_reflTransGen (h : ReflTransGen index.Enters path leaf)
    (hleaf : index.isLeaf leaf = true) : ∃ steps, index.leafWithin steps path = some leaf := by
  induction h using ReflTransGen.head_induction_on with
  | refl => exact ⟨1, leafWithin_of_isLeaf hleaf⟩
  | head hfirst _ ih =>
    obtain ⟨steps, hsteps⟩ := ih
    exact ⟨steps + 1, (leafWithin_of_enters hfirst).trans hsteps⟩

/-- **`leafOf` is the leaf that `Enters` leads to.** -/
theorem leafOf_eq_some_iff : index.leafOf path = some leaf ↔
    ReflTransGen index.Enters path leaf ∧ index.isLeaf leaf = true := by
  constructor
  · exact fun h => ⟨reflTransGen_of_leafWithin h, isLeaf_of_leafOf h⟩
  · rintro ⟨hwalk, hleaf⟩
    obtain ⟨steps, hsteps⟩ := exists_leafWithin_of_reflTransGen hwalk hleaf
    exact leafOf_of_leafWithin hsteps

/-- **`leafWithin` is `none` exactly if `walk` takes all the steps, or comes to a dead end
before.** -/
theorem leafWithin_eq_none_iff : index.leafWithin steps path = none ↔
    (index.walk steps path).isSome = true ∨
      ∃ done < steps, ∃ stop, index.walk done path = some stop ∧ index.IsDeadEnd stop := by
  induction steps generalizing path with
  | zero => simp [leafWithin, walk]
  | succ steps ih =>
    have hstart (stop : String) : index.walk 0 path = some stop ↔ path = stop := Option.some_inj
    rcases index.step_cases path with hleaf | hdead | ⟨next, hnext⟩
    · -- From a leaf there is no step, neither to another path nor to a dead end.
      have hnone : ∀ next, ¬ index.Enters path next := fun next hnext => by
        rw [hnext.isLeaf_eq_false] at hleaf
        cases hleaf
      have hlive : ¬ index.IsDeadEnd path := by
        rw [isLeaf, beq_iff_eq] at hleaf
        rw [IsDeadEnd, hleaf]
        simp
      rw [leafWithin_of_isLeaf hleaf, walk_succ_eq_none hnone]
      refine iff_of_false (by simp) ?_
      rintro (hsome | ⟨done, -, stop, hstop, hend⟩)
      · cases hsome
      · cases done with
        | zero => exact hlive ((hstart stop).1 hstop ▸ hend)
        | succ done =>
          rw [walk_succ_eq_none hnone] at hstop
          cases hstop
    · exact iff_of_true (leafWithin_of_isDeadEnd hdead)
        (.inr ⟨0, Nat.succ_pos steps, path, rfl, hdead⟩)
    · rw [leafWithin_of_enters hnext, walk_succ hnext, ih]
      refine or_congr_right ⟨?_, ?_⟩
      · rintro ⟨done, hdone, stop, hstop, hend⟩
        exact ⟨done + 1, Nat.succ_lt_succ hdone, stop, (walk_succ hnext).trans hstop, hend⟩
      · rintro ⟨done, hdone, stop, hstop, hend⟩
        cases done with
        | zero => exact absurd ((hstart stop).1 hstop ▸ hend) hnext.not_isDeadEnd
        | succ done =>
          rw [walk_succ hnext] at hstop
          exact ⟨done, Nat.lt_of_succ_lt_succ hdone, stop, hstop, hend⟩

/-! ## Circles -/

/-- Every step of `Enters` starts at a path that is listed. -/
theorem Enters.mem_nodes (h : index.Enters path next) : path ∈ index.nodes :=
  Std.ExtTreeMap.mem_iff_isSome_getElem?.2 (by rw [h]; rfl)

/-- `walk` goes on before its last step. -/
theorem exists_enters_of_walk {done : Nat} (h : (index.walk steps path).isSome = true)
    (hdone : done < steps) :
    ∃ here next, index.walk done path = some here ∧ index.Enters here next := by
  obtain ⟨more, rfl⟩ := Nat.exists_eq_add_of_lt hdone
  rw [Nat.add_assoc, walk_add] at h
  obtain ⟨stop, hstop⟩ := Option.isSome_iff_exists.1 h
  obtain ⟨here, hhere, hrest⟩ := Option.bind_eq_some_iff.1 hstop
  obtain ⟨next, hnext, -⟩ := Option.bind_eq_some_iff.1 hrest
  exact ⟨here, next, hhere, initial?_eq_some_iff.1 hnext⟩

/-- `walk` that comes to `stop` twice has been in a circle in between. -/
theorem transGen_of_walk_eq {first second : Nat} (hlt : first < second)
    (hfirst : index.walk first path = some stop) (hsecond : index.walk second path = some stop) :
    TransGen index.Enters stop stop := by
  obtain ⟨more, rfl⟩ := Nat.exists_eq_add_of_lt hlt
  rw [Nat.add_assoc, walk_add, hfirst, Option.bind_some] at hsecond
  obtain ⟨next, hnext, hrest⟩ := Option.bind_eq_some_iff.1 hsecond
  exact .head' (initial?_eq_some_iff.1 hnext) (reflTransGen_of_walk hrest)

/-- **`walk` of more steps than there are nodes** comes to some path twice. -/
theorem exists_walk_eq (h : (index.walk (index.nodes.size + 1) path).isSome = true) :
    ∃ first second stop, first < second ∧ index.walk first path = some stop ∧
      index.walk second path = some stop := by
  -- Every turn leads on from a path that is listed, and there are more turns than such paths.
  have hcard : index.nodes.keys.toFinset.card < (Finset.range (index.nodes.size + 1)).card := by
    rw [Finset.card_range, ← Std.ExtTreeMap.length_keys]
    exact Nat.lt_succ_of_le (List.toFinset_card_le _)
  have hmaps : ∀ done ∈ Finset.range (index.nodes.size + 1),
      (index.walk done path).getD path ∈ index.nodes.keys.toFinset := by
    intro done hdone
    obtain ⟨here, next, hhere, hnext⟩ := exists_enters_of_walk h (Finset.mem_range.1 hdone)
    rw [hhere, Option.getD_some, List.mem_toFinset]
    exact Std.ExtTreeMap.mem_keys.2 hnext.mem_nodes
  obtain ⟨first, hfirst, second, hsecond, hne, heq⟩ :=
    Finset.exists_ne_map_eq_of_card_lt_of_maps_to hcard hmaps
  obtain ⟨here, -, hhere, -⟩ := exists_enters_of_walk h (Finset.mem_range.1 hfirst)
  obtain ⟨there, -, hthere, -⟩ := exists_enters_of_walk h (Finset.mem_range.1 hsecond)
  rw [hhere, hthere, Option.getD_some, Option.getD_some] at heq
  subst heq
  rcases Nat.lt_or_gt_of_ne hne with hlt | hlt
  · exact ⟨first, second, here, hlt, hhere, hthere⟩
  · exact ⟨second, first, here, hlt, hthere, hhere⟩

/-- `walk` never ends if it comes into a circle. -/
theorem isSome_walk_of_circles (h : index.Circles path) :
    (index.walk steps path).isSome = true := by
  induction steps generalizing path with
  | zero => rfl
  | succ steps ih =>
    obtain ⟨turn, hturn, hcircle⟩ := h
    -- The first step leads to the circle, or along it.
    rcases ReflTransGen.cases_head hturn with rfl | ⟨next, hnext, hrest⟩
    · obtain ⟨next, hnext, hback⟩ := TransGen.head'_iff.1 hcircle
      rw [walk_succ hnext]
      exact ih ⟨path, hback, hcircle⟩
    · rw [walk_succ hnext]
      exact ih ⟨turn, hrest, hcircle⟩

/-- **`walk` of `index.nodes.size + 1` steps is there exactly if it `Circles`.** -/
theorem isSome_walk_iff_circles :
    (index.walk (index.nodes.size + 1) path).isSome = true ↔ index.Circles path := by
  refine ⟨fun h => ?_, isSome_walk_of_circles⟩
  obtain ⟨first, second, stop, hlt, hfirst, hsecond⟩ := exists_walk_eq h
  exact ⟨stop, reflTransGen_of_walk hfirst, transGen_of_walk_eq hlt hfirst hsecond⟩

/-- What `Enters` leads to, `walk` comes to in some number of steps. -/
theorem exists_walk_of_reflTransGen (h : ReflTransGen index.Enters path stop) :
    ∃ steps, index.walk steps path = some stop := by
  induction h using ReflTransGen.head_induction_on with
  | refl => exact ⟨0, rfl⟩
  | head hfirst _ ih =>
    obtain ⟨steps, hsteps⟩ := ih
    exact ⟨steps + 1, (walk_succ hfirst).trans hsteps⟩

/-- `Circles` excludes a dead end. -/
theorem Circles.not_isDeadEnd (h : index.Circles path)
    (hstop : ReflTransGen index.Enters path stop) : ¬ index.IsDeadEnd stop := by
  intro hdead
  obtain ⟨steps, hsteps⟩ := exists_walk_of_reflTransGen hstop
  have hmore : (index.walk (steps + 1) path).isSome = true := isSome_walk_of_circles h
  rw [walk_add, hsteps, Option.bind_some,
    walk_succ_eq_none fun next hnext => hnext.not_isDeadEnd hdead] at hmore
  cases hmore

/-- `walk` comes to a dead end in less than `index.nodes.size + 1` steps. -/
theorem exists_walk_isDeadEnd (hstop : ReflTransGen index.Enters path stop)
    (hdead : index.IsDeadEnd stop) :
    ∃ done < index.nodes.size + 1, index.walk done path = some stop := by
  obtain ⟨done, hdone⟩ := exists_walk_of_reflTransGen hstop
  refine ⟨done, ?_, hdone⟩
  -- A longer way would have been in a circle before, and from there no dead end is reached.
  by_contra hlong
  obtain ⟨more, rfl⟩ := Nat.exists_eq_add_of_le (Nat.le_of_not_lt hlong)
  rw [walk_add] at hdone
  obtain ⟨here, hhere, -⟩ := Option.bind_eq_some_iff.1 hdone
  exact (isSome_walk_iff_circles.1 (Option.isSome_of_eq_some hhere)).not_isDeadEnd hstop hdead

/-- **`leafOf` is `none` exactly if `Enters` leads into a circle or to a dead end.** -/
theorem leafOf_eq_none_iff : index.leafOf path = none ↔
    index.Circles path ∨ ∃ stop, ReflTransGen index.Enters path stop ∧ index.IsDeadEnd stop := by
  rw [leafOf, leafWithin_eq_none_iff, isSome_walk_iff_circles]
  refine or_congr_right ⟨?_, ?_⟩
  · rintro ⟨done, -, stop, hstop, hdead⟩
    exact ⟨stop, reflTransGen_of_walk hstop, hdead⟩
  · rintro ⟨stop, hstop, hdead⟩
    obtain ⟨done, hdone, hwalk⟩ := exists_walk_isDeadEnd hstop hdead
    exact ⟨done, hdone, stop, hwalk, hdead⟩

end PathIndex

/-! ## Definitions -/

variable {delimiter path next : String} {d : Definition}

/-- The path of the initial state in a node is that of the node, extended by a key. -/
theorem StateDef.exists_initial_of_mem_nodes {state : StateDef} {own : String}
    (h : (path, PathNode.composite (some next)) ∈ state.nodes delimiter own) :
    ∃ key, next = path ++ delimiter ++ key := by
  -- The composite may be the state itself, or a state inside, with a path of its own.
  induction state using StateDef.inside_induction generalizing own with
  | leaf l =>
    simp [nodes] at h
  | composite inner ih =>
    rw [nodes, List.mem_cons, Definition.nodes_eq, mem_statesNodes] at h
    rcases h with heq | ⟨entry, hentry, hnode⟩
    · simp only [Prod.mk.injEq, PathNode.composite.injEq] at heq
      obtain ⟨rfl, hinitial⟩ := heq
      obtain ⟨key, -, hkey⟩ := Option.map_eq_some_iff.1 hinitial.symm
      exact ⟨key, hkey.symm⟩
    · exact ih entry hentry hnode

/-- **`Enters` extends a path by the delimiter and a key.** -/
theorem PathIndex.exists_key_of_enters (h : (ofDefinition delimiter d).Enters path next) :
    ∃ key, next = path ++ delimiter ++ key := by
  have hnode := mem_of_getElem?_ofList h
  rw [Definition.nodes_eq, mem_statesNodes] at hnode
  obtain ⟨entry, -, hentry⟩ := hnode
  exact StateDef.exists_initial_of_mem_nodes hentry

/-- `Enters` does not make a path shorter. -/
theorem PathIndex.length_le_of_reflTransGen {stop : String}
    (h : ReflTransGen (ofDefinition delimiter d).Enters path stop) :
    path.length ≤ stop.length := by
  induction h with
  | refl => exact le_rfl
  | tail _ hlast ih =>
    obtain ⟨key, rfl⟩ := exists_key_of_enters hlast
    rw [String.length_append, String.length_append]
    omega

/-- **A circle of `Enters` is one step from `path` to itself**, and the delimiter is empty. -/
theorem PathIndex.enters_self_of_transGen
    (h : TransGen (ofDefinition delimiter d).Enters path path) :
    delimiter = "" ∧ (ofDefinition delimiter d).Enters path path := by
  obtain ⟨next, hnext, hback⟩ := TransGen.head'_iff.1 h
  obtain ⟨key, rfl⟩ := exists_key_of_enters hnext
  have hle := length_le_of_reflTransGen hback
  rw [String.length_append, String.length_append] at hle
  obtain rfl : delimiter = "" := String.length_eq_zero_iff.1 (by omega)
  obtain rfl : key = "" := String.length_eq_zero_iff.1 (by omega)
  rw [String.append_empty, String.append_empty] at hnext
  exact ⟨rfl, hnext⟩

/-- **Following initial states gives up only on a circle.** In `PathIndex.ofDefinition delimiter d`,
from any `path`:

* `leafOf path` is `some leaf` if and only if `index.Enters` leads there in some steps, and `leaf`
  is one;
* all `index.nodes.size + 1` turns of the allowance take a step if and only if `index.Circles path`;
* `leafOf path` is `none` if and only if all turns have taken a step, or `walk` has come to an
  `IsDeadEnd` before, which is if and only if there is a circle or a dead end on the way;
* if there is a circle, then there is no dead end, `delimiter = ""`, and some path on the way
  `Enters` itself. -/
theorem Definition.leafOf_follows (delimiter : String) (d : Definition) (path : String) :
    let index := PathIndex.ofDefinition delimiter d
    (∀ leaf, index.leafOf path = some leaf ↔
      ReflTransGen index.Enters path leaf ∧ index.isLeaf leaf = true) ∧
    ((index.walk (index.nodes.size + 1) path).isSome = true ↔ index.Circles path) ∧
    (index.leafOf path = none ↔ (index.walk (index.nodes.size + 1) path).isSome = true ∨
      ∃ done < index.nodes.size + 1, ∃ stop, index.walk done path = some stop ∧
        index.IsDeadEnd stop) ∧
    (index.leafOf path = none ↔ index.Circles path ∨
      ∃ stop, ReflTransGen index.Enters path stop ∧ index.IsDeadEnd stop) ∧
    (index.Circles path →
      (∀ stop, ReflTransGen index.Enters path stop → ¬ index.IsDeadEnd stop) ∧
      delimiter = "" ∧ ∃ turn, ReflTransGen index.Enters path turn ∧ index.Enters turn turn) := by
  intro index
  refine ⟨fun leaf => PathIndex.leafOf_eq_some_iff, PathIndex.isSome_walk_iff_circles,
    PathIndex.leafWithin_eq_none_iff, PathIndex.leafOf_eq_none_iff, ?_⟩
  rintro ⟨turn, hturn, hcircle⟩
  obtain ⟨hdelimiter, hself⟩ := PathIndex.enters_self_of_transGen hcircle
  exact ⟨fun stop => PathIndex.Circles.not_isDeadEnd ⟨turn, hturn, hcircle⟩, hdelimiter,
    turn, hturn, hself⟩

/-- A definition with `Box`, whose initial state has the empty key. -/
def Definition.box : Definition :=
  { states := [("Box", .composite { initial? := some "" })], initial? := some "Box" }

example : (PathIndex.ofDefinition "" .box).leafOf "Box" = none ∧
    (PathIndex.ofDefinition "" .box).initial? "Box" = some "Box" ∧
    (PathIndex.ofDefinition "/" .box).initial? "Box" = some "Box/" := by
  decide +kernel

end Statechart
