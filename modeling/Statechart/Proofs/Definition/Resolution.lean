import Mathlib.Data.List.Induction
import Mathlib.Data.List.Perm.Subperm
import Statechart.Flat
import Statechart.Proofs.Definition.Index

/-! # A checked definition has a flat form

A check that finds no problem says of every target that it stands for a leaf, seen from the level of
its transition. The initial state stands for a leaf as well, because following initial states never
takes more steps than there are states. So nothing stands against the flat form of the definition.

* **`PathIndex.leafOf_of_leafWithin`**: the steps that are allowed are enough.
* **`PathIndex.exists_leafOf`**: every state of an orderly definition stands for a leaf;
  `PathIndex.leafOf_of_at?` says for which one.
* `Definition.problemsIn_of_level?`: a checked definition has no problems on any level.
* **`Definition.isSome_resolve_target`**: every target stands for a leaf.
* **`FlatDefinition.exists_assemble`**: a checked definition has a flat form. -/

namespace Statechart

/-! ## Steps to a leaf -/

namespace PathIndex

variable {index : PathIndex} {steps : Nat} {path leaf : String}

/-- `leafWithin` finds the same leaf with a greater bound. -/
theorem leafWithin_mono (h : index.leafWithin steps path = some leaf) {more : Nat}
    (hle : steps ≤ more) : index.leafWithin more path = some leaf := by
  induction steps generalizing path more with
  | zero => cases h
  | succ steps ih =>
    obtain ⟨more, rfl⟩ : ∃ n, more = n + 1 := ⟨more - 1, by omega⟩
    unfold leafWithin at h ⊢
    cases hnode : index.nodes[path]? with
    | none => simp [hnode] at h
    | some node =>
      simp only [hnode] at h ⊢
      rcases node with _ | _ | next
      · exact h
      · exact h
      · exact ih h (by omega)

/-- **A leaf that `leafWithin` needs `steps + 1` for** has as many states on the way, all of them
different: each needs a smaller bound than the one before. -/
theorem exists_visited (h : index.leafWithin (steps + 1) path = some leaf)
    (hmore : index.leafWithin steps path = none) :
    ∃ visited : List String, visited.length = steps + 1 ∧ visited.Nodup ∧
      ∀ p ∈ visited, p ∈ index.nodes ∧ (index.leafWithin (steps + 1) p).isSome = true := by
  induction steps generalizing path with
  | zero =>
    refine ⟨[path], rfl, List.nodup_singleton path, ?_⟩
    intro p hp
    obtain rfl := List.mem_singleton.1 hp
    refine ⟨?_, by simp [h]⟩
    by_contra hmem
    simp [leafWithin, Std.ExtTreeMap.getElem?_eq_none hmem] at h
  | succ steps ih =>
    cases hnode : index.nodes[path]? with
    | none => simp [leafWithin, hnode] at h
    | some node =>
      rcases node with _ | _ | next
      · -- A leaf is reached at once.
        simp [leafWithin, hnode] at hmore
      · simp [leafWithin, hnode] at h
      · have hnext : index.leafWithin (steps + 1) next = some leaf := by
          simpa only [leafWithin, hnode] using h
        have hless : index.leafWithin steps next = none := by
          simpa only [leafWithin, hnode] using hmore
        obtain ⟨visited, hlength, hnodup, hvisited⟩ := ih hnext hless
        have hnew : path ∉ visited := by
          intro hmem
          have hsome := (hvisited path hmem).2
          rw [hmore] at hsome
          cases hsome
        refine ⟨path :: visited, by simp [hlength], List.nodup_cons.2 ⟨hnew, hnodup⟩, ?_⟩
        intro p hp
        rcases List.mem_cons.1 hp with rfl | hp
        · exact ⟨Std.ExtTreeMap.mem_iff_isSome_getElem?.2 (by simp [hnode]), by simp [h]⟩
        · obtain ⟨hmem, hsome⟩ := hvisited p hp
          obtain ⟨leaf', hleaf'⟩ := Option.isSome_iff_exists.1 hsome
          exact ⟨hmem, by simp [leafWithin_mono hleaf' (Nat.le_succ _)]⟩

/-- `leafWithin` needs at most `index.nodes.size`. -/
theorem length_le_of_leafWithin (h : index.leafWithin (steps + 1) path = some leaf)
    (hmore : index.leafWithin steps path = none) : steps + 1 ≤ index.nodes.size := by
  obtain ⟨visited, hlength, hnodup, hvisited⟩ := exists_visited h hmore
  have hsubset : visited ⊆ index.nodes.keys := fun p hp =>
    Std.ExtTreeMap.mem_keys.2 (hvisited p hp).1
  have hle := (List.subperm_of_subset hnodup hsubset).length_le
  rwa [hlength, Std.ExtTreeMap.length_keys] at hle

/-- **`leafOf` is what `leafWithin` finds for any bound.** -/
theorem leafOf_of_leafWithin (h : index.leafWithin steps path = some leaf) :
    index.leafOf path = some leaf := by
  induction steps with
  | zero => cases h
  | succ steps ih =>
    cases hless : index.leafWithin steps path with
    | some leaf' =>
      have hsame := leafWithin_mono hless (Nat.le_succ steps)
      rw [h] at hsame
      cases hsame
      exact ih hless
    | none =>
      have hle := length_le_of_leafWithin h hless
      exact leafWithin_mono h (by omega)

/-! ## Every state stands for a leaf -/

section Listed

variable {delimiter : String} {d : Definition} {node : PathNode}

/-- A node of `PathIndex.ofDefinition` is one of a state that `StateDef.at?` finds. -/
theorem exists_of_getElem?_nodes (h : d.Orderly delimiter)
    (hnode : (PathIndex.ofDefinition delimiter d).nodes[path]? = some node) :
    ∃ keys state, keys ≠ [] ∧ (StateDef.composite d).at? keys = some state ∧
      path = delimiter.intercalate keys ∧
      node = state.node delimiter (delimiter.intercalate keys) := by
  obtain ⟨keys, state, hkeys, hat, heq⟩ := h.mem_nodes_iff.1 (mem_of_getElem?_ofList hnode)
  rw [Prod.mk.injEq] at heq
  exact ⟨keys, state, hkeys, hat, heq⟩

/-- `PathIndex.ofDefinition` has a node for every state that `StateDef.at?` finds. -/
theorem mem_nodes (h : d.Orderly delimiter) {keys : List String} {state : StateDef}
    (hkeys : keys ≠ []) (hat : (StateDef.composite d).at? keys = some state) :
    delimiter.intercalate keys ∈ (PathIndex.ofDefinition delimiter d).nodes := by
  rw [PathIndex.ofDefinition, Std.ExtTreeMap.mem_ofList, List.contains_iff_mem]
  exact List.mem_map.2 ⟨_, h.mem_nodes_iff.2 ⟨keys, state, hkeys, hat, rfl⟩, rfl⟩

/-- **The initial state of a composite has a longer path**, which is listed as well. -/
theorem longer_of_composite (h : d.Orderly delimiter) {initial? : Option String}
    (hnode : (PathIndex.ofDefinition delimiter d).nodes[path]? = some (.composite initial?)) :
    ∃ next, initial? = some next ∧ next ∈ (PathIndex.ofDefinition delimiter d).nodes ∧
      path.length < next.length := by
  obtain ⟨keys, state, hkeys, hat, rfl, hstate⟩ := exists_of_getElem?_nodes h hnode
  cases state with
  | leaf l => cases hstate
  | composite inner =>
    cases hstate
    have hlevel := Definition.level?_eq_some_iff.2 hat
    have hinner := h.level? hlevel
    obtain ⟨key, hinitial, hdeclared⟩ := hinner.initial
    obtain ⟨state, hstate⟩ := Option.isSome_iff_exists.1 hdeclared
    have hnext := mem_nodes h (List.append_ne_nil_of_right_ne_nil keys (List.cons_ne_nil key []))
      ((Definition.at?_concat hlevel).trans hstate)
    rw [← Path.join_scope?, Path.scope?_of_ne_nil hkeys] at hnext
    refine ⟨_, by rw [hinitial]; rfl, hnext, ?_⟩
    -- The path of the initial state has one key more, and no key is empty.
    have hkey : 0 < key.length := Nat.pos_of_ne_zero fun hzero =>
      (hinner.isPlainKey hdeclared).1 (String.length_eq_zero_iff.1 hzero)
    rw [Path.join, String.length_append, String.length_append]
    omega

/-- `leafWithin` finds a leaf if `bound ≤ path.length + steps`, for the paths get longer with every
step. -/
theorem exists_leafWithin_of_length_lt {bound : Nat} (h : d.Orderly delimiter)
    (hbound : ∀ path ∈ (PathIndex.ofDefinition delimiter d).nodes, path.length < bound)
    {steps : Nat} (hpath : path ∈ (PathIndex.ofDefinition delimiter d).nodes)
    (hlong : bound ≤ path.length + steps) :
    ∃ leaf, (PathIndex.ofDefinition delimiter d).leafWithin steps path = some leaf := by
  induction steps generalizing path with
  | zero =>
    have := hbound path hpath
    omega
  | succ steps ih =>
    obtain ⟨node, hnode⟩ :=
      Option.isSome_iff_exists.1 (Std.ExtTreeMap.isSome_getElem?_iff_mem.2 hpath)
    simp only [leafWithin, hnode]
    cases node with
    | leaf => exact ⟨path, rfl⟩
    | composite initial? =>
      obtain ⟨next, rfl, hnext, hlonger⟩ := longer_of_composite h hnode
      exact ih hnext (by omega)

/-- **`leafOf` is there for every path that is listed.** -/
theorem exists_leafOf (h : d.Orderly delimiter)
    (hpath : path ∈ (PathIndex.ofDefinition delimiter d).nodes) :
    ∃ leaf, (PathIndex.ofDefinition delimiter d).leafOf path = some leaf := by
  -- There is a longest path.
  obtain ⟨bound, hbound⟩ : ∃ bound, ∀ path ∈ (PathIndex.ofDefinition delimiter d).nodes,
      path.length < bound := by
    refine ⟨(((d.nodes delimiter none).map fun node => node.1.length).max?.getD 0) + 1, ?_⟩
    intro path hpath
    rw [PathIndex.ofDefinition, Std.ExtTreeMap.mem_ofList, List.contains_iff_mem] at hpath
    obtain ⟨node, hnode, rfl⟩ := List.mem_map.1 hpath
    exact Nat.lt_succ_of_le (List.le_max?_getD_of_mem (List.mem_map_of_mem hnode))
  obtain ⟨leaf, hleaf⟩ := exists_leafWithin_of_length_lt h hbound hpath (Nat.le_add_left _ _)
  exact ⟨leaf, leafOf_of_leafWithin hleaf⟩

/-- **`leafOf` of a state is the path of `keys ++ state.innerKeys`.** -/
theorem leafOf_of_at? (h : d.Orderly delimiter) (hone : delimiter.length = 1) {keys : List String}
    {state : StateDef} (hkeys : keys ≠ []) (hat : (StateDef.composite d).at? keys = some state) :
    (PathIndex.ofDefinition delimiter d).leafOf (delimiter.intercalate keys) =
      some (delimiter.intercalate (keys ++ state.innerKeys)) := by
  obtain ⟨steps, hsteps⟩ := exists_leafWithin h hone state
    (fun inner hinner => h inner (StateDef.levels_of_at? hat hinner)) keys hkeys hat
  exact leafOf_of_leafWithin hsteps

end Listed

end PathIndex

/-! ## Targets -/

namespace Definition

variable {index : PathIndex} {scope : Option String} {delimiter : String} {d level : Definition}
  {keys : List String} {t : TransitionDef} {name : String}

/-- `targetProblems` is empty if `transitionProblems` is. -/
theorem targetProblems_of_mem {definition : Definition} {earlier : List (String × EventKey)}
    {transitions : List TransitionDef}
    (h : transitionProblems index scope definition earlier transitions = some [])
    (ht : t ∈ transitions) :
    targetProblems index scope (Path.join index.delimiter scope t.source) t = some [] := by
  induction transitions generalizing earlier with
  | nil => cases ht
  | cons first rest ih =>
    simp only [transitionProblems, Option.bind_eq_bind, Option.bind_eq_some_iff, Option.pure_def,
      Option.some.injEq, List.append_eq_nil_iff] at h
    obtain ⟨unresolved, hunresolved, others, hothers, ⟨-, rfl⟩, rfl⟩ := h
    rcases List.mem_cons.1 ht with rfl | ht
    · exact hunresolved
    · exact ih hothers ht

/-- `resolve` of a target is there if `targetProblems` is empty. -/
theorem isSome_resolve_of_targetProblems {source : String}
    (h : targetProblems index scope source t = some []) (hname : t.target = .key name) :
    (index.resolve scope name).isSome = true := by
  unfold targetProblems at h
  rw [hname] at h
  unfold PathIndex.resolve
  cases hresolve : index.tryResolve scope name with
  | ok path => rfl
  | error e => cases e <;> simp [hresolve] at h

/-- **`problemsIn` of every level is empty if `d.problems` is.** -/
theorem problemsIn_of_level? (h : d.problems delimiter = some [])
    (hlevel : d.level? keys = some level) :
    problemsIn (.ofDefinition delimiter d) (Path.scope? delimiter keys) level = some [] := by
  -- By induction from the last key: what is reported inside a state is reported of the level around
  -- it.
  induction keys using List.reverseRecOn generalizing level with
  | nil =>
    obtain rfl : d = level := by simpa using hlevel
    exact h
  | append_singleton front key ih =>
    rw [level?_eq_some_iff, StateDef.at?_append, Option.bind_eq_some_iff] at hlevel
    obtain ⟨state, hat, hlast⟩ := hlevel
    cases state with
    | leaf l => cases hlast
    | composite around =>
      rw [at?_cons] at hlast
      obtain ⟨next, hnext, hlast⟩ := Option.bind_eq_some_iff.1 hlast
      obtain rfl : next = .composite level := by simpa using hlast
      have haround := ih (level?_eq_some_iff.2 hat)
      have hinside := problemsIn_of_composite haround (mem_of_state? hnext) rfl
      have hjoin := Path.join_scope? delimiter front key
      rw [Path.scope?_of_ne_nil (by simp)]
      rwa [← hjoin]

/-- **`resolve` of every target is there if `d.problems` is empty.** -/
theorem isSome_resolve_target (h : d.problems delimiter = some [])
    (hlevel : d.level? keys = some level) (ht : t ∈ level.transitions)
    (hname : t.target = .key name) :
    ((PathIndex.ofDefinition delimiter d).resolve (Path.scope? delimiter keys) name).isSome =
      true := by
  obtain ⟨-, -, htransitions⟩ := level_of_problemsIn (problemsIn_of_level? h hlevel)
  exact isSome_resolve_of_targetProblems (targetProblems_of_mem htransitions ht) hname

/-- `resolve` of every state of `d` itself is there. -/
theorem Orderly.isSome_resolve (h : d.Orderly delimiter) (hdeclared : d.declares name = true) :
    ((PathIndex.ofDefinition delimiter d).resolve none name).isSome = true := by
  obtain ⟨state, hstate⟩ := Option.isSome_iff_exists.1 hdeclared
  have hat : (StateDef.composite d).at? [name] = some state := by simp [at?_cons, hstate]
  have hmem := PathIndex.mem_nodes h (List.cons_ne_nil name []) hat
  rw [String.intercalate_singleton] at hmem
  have hlocate : (PathIndex.ofDefinition delimiter d).locate none name = .ok name := by
    refine PathIndex.locate_of_isPlainKey ((h d d.mem_levels_self).isPlainKey hdeclared) ?_
    exact Std.ExtTreeMap.contains_iff_mem.2 hmem
  obtain ⟨leaf, hleaf⟩ := PathIndex.exists_leafOf h hmem
  simp [PathIndex.resolve, PathIndex.tryResolve, hlocate, hleaf, bind, Except.bind, pure,
    Except.pure, Except.toOption]

end Definition

/-! ## The flat form -/

namespace FlatDefinition

variable {index : PathIndex} {scope : Option String} {delimiter : String} {d : Definition}

/-- `xs.mapM f` is `.ok` if `f` is, on each of `xs`. -/
theorem exists_mapM_of_forall {α β ε : Type} {f : α → Except ε β} {xs : List α}
    (h : ∀ x ∈ xs, ∃ y, f x = .ok y) : ∃ ys, xs.mapM f = .ok ys := by
  induction xs with
  | nil => exact ⟨[], rfl⟩
  | cons x xs ih =>
    obtain ⟨y, hy⟩ := h x List.mem_cons_self
    obtain ⟨ys, hys⟩ := ih fun x hx => h x (List.mem_cons_of_mem _ hx)
    exact ⟨y :: ys, by simp [List.mapM_cons, hy, hys, bind, Except.bind, pure, Except.pure]⟩

/-- `entry` is `.ok` if `targetProblems` is empty. -/
theorem exists_entry {t : TransitionDef} {source : String}
    (h : Definition.targetProblems index scope source t = some []) :
    ∃ y, entry index scope t = .ok y := by
  unfold entry
  cases htarget : t.target with
  | choose pick => exact ⟨_, rfl⟩
  | key name =>
    obtain ⟨path, hpath⟩ := Option.isSome_iff_exists.1
      (Definition.isSome_resolve_of_targetProblems h htarget)
    simp only [hpath]
    exact ⟨_, rfl⟩

/-- `entriesOfStates` is `.ok` if `entriesOfState` is, for each of `states`. -/
theorem exists_entriesOfStates {states : List (String × StateDef)}
    (h : ∀ entry ∈ states, ∃ entries,
      entriesOfState index (Path.join index.delimiter scope entry.1) entry.2 = .ok entries) :
    ∃ entries, entriesOfStates index scope states = .ok entries := by
  induction states with
  | nil => exact ⟨[], rfl⟩
  | cons first rest ih =>
    obtain ⟨own, hown⟩ := h first List.mem_cons_self
    obtain ⟨others, hothers⟩ := ih fun entry hentry => h entry (List.mem_cons_of_mem _ hentry)
    exact ⟨own ++ others, by
      simp [entriesOfStates, hown, hothers, bind, Except.bind, pure, Except.pure]⟩

/-- `entriesIn` is `.ok` if `problemsIn` is empty and `entriesOfState` is `.ok`, for each state. -/
theorem exists_entriesIn_of_states (h : Definition.problemsIn index scope d = some [])
    (inside : ∀ entry ∈ d.states, ∀ path,
      Definition.stateProblems index path entry.2 = some [] →
        ∃ entries, entriesOfState index path entry.2 = .ok entries) :
    ∃ entries, entriesIn index scope d = .ok entries := by
  obtain ⟨-, hstates, htransitions⟩ := Definition.level_of_problemsIn h
  obtain ⟨-, -, hproblems⟩ := Definition.plain_of_statesProblems hstates
  obtain ⟨nested, hnested⟩ := exists_entriesOfStates fun entry hentry =>
    inside entry hentry _ (hproblems entry hentry)
  obtain ⟨own, hown⟩ := exists_mapM_of_forall fun t ht =>
    exists_entry (Definition.targetProblems_of_mem htransitions ht)
  obtain ⟨states, transitions, initial?, issues⟩ := d
  exact ⟨nested ++ own, by
    simp [entriesIn, hnested, hown, bind, Except.bind, pure, Except.pure]⟩

/-- `entriesOfState` is `.ok` if `stateProblems` is empty, by induction on `state`. -/
theorem exists_entriesOfState (state : StateDef) :
    ∀ path, Definition.stateProblems index path state = some [] →
      ∃ entries, entriesOfState index path state = .ok entries := by
  induction state using StateDef.inside_induction with
  | leaf l => exact fun _ _ => ⟨[], rfl⟩
  | composite inner ih =>
    intro path h
    unfold Definition.stateProblems at h
    split at h
    · cases h
    · unfold entriesOfState
      exact exists_entriesIn_of_states h ih

/-- **`assemble` is `.ok` if `d.problems` is empty.** -/
theorem exists_assemble (h : d.problems delimiter = some []) :
    ∃ flat, assemble delimiter d = .ok flat := by
  have hd := Definition.orderly_of_problems h
  obtain ⟨key, hinitial, hdeclared⟩ := (hd d d.mem_levels_self).initial
  obtain ⟨entries, hentries⟩ := exists_entriesIn_of_states h fun entry _ =>
    exists_entriesOfState entry.2
  obtain ⟨leaf, hleaf⟩ := Option.isSome_iff_exists.1 (hd.isSome_resolve hdeclared)
  rw [assemble, hentries, hinitial, Option.bind_some, hleaf]
  exact ⟨_, rfl⟩

/-- `ofDefinition` is `.ok` if `d.problems` is empty and `config.eventCollision` is
`.namespaced`. -/
theorem exists_ofDefinition {config : FlattenConfig} (h : d.problems config.delimiter = some [])
    (hcollision : config.eventCollision = .namespaced) :
    ∃ flat, ofDefinition config d = some (.ok flat) := by
  obtain ⟨flat, hflat⟩ := exists_assemble h
  exact ⟨flat, by simp [ofDefinition, h, hflat, hcollision, settleCollisions, Except.bind]⟩

end FlatDefinition

end Statechart
