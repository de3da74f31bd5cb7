import Statechart.Proofs.Flat.Machine
import Statechart.Proofs.Flat.Sends

/-! # What the machine of a flat form enters

The machine of a flat form looks under some paths for the first answer that leads to a leaf, and
makes the leaf from the parameters of the event. Answers whose choice comes to nothing are passed
over. Nothing else is made on the way, so what is found can be read off the flat form.

* `FlatDefinition.lead?`: the leaf that an answer leads to.
* **`FlatDefinition.made?`**: what is made of the answers under some paths.
* `Machine.finds?`: what a machine finds of an event.
* `Machine.RunsFlat.of_finds?_exit`: where the exit of a leaf is answered.
* **`Act.run_resolve`**, `Act.run_enter`: looking for an answer, and entering its state. -/

namespace Statechart

variable {ρ γ : Type} {flat : FlatDefinition} {config : FlattenConfig} {path : String}
  {paths : List String} {event : Event} {params : Params}

/-- The state of `leaf` that is entered with `params`. -/
def FlatLeaf.state (leaf : FlatLeaf) (params : Params) : State where
  key := leaf.path
  data := leaf.leaf.data params
  isFinal := leaf.leaf.isFinal

namespace FlatDefinition

/-! ## What an answer leads to -/

/-- The last leaf of `path`, which is the one that the machine makes. -/
def lastLeaf? (flat : FlatDefinition) (path : String) : Option FlatLeaf :=
  flat.leaves.findRev? (·.path == path)

/-- **The leaf that `target` leads to**, for `params`. -/
def lead? (flat : FlatDefinition) (target : FlatTarget) (params : Params) : Option FlatLeaf :=
  match target with
  | .path path => flat.lastLeaf? path
  | .choose scope pick => ((pick params).bind (flat.resolve scope)).bind flat.lastLeaf?

/-- **What is made of the answers under `paths`**: the first leaf that `lead?` finds, with the path
of the answer. -/
def made? (flat : FlatDefinition) (event : Event) (paths : List String) :
    Option (String × State) :=
  paths.findSome? fun path => (flat.target? path event.key).bind fun target =>
    (flat.lead? target event.params).map fun leaf => (path, leaf.state event.params)

/-- `lastLeaf?` gives a leaf of `path`. -/
theorem of_lastLeaf? {leaf : FlatLeaf} (h : flat.lastLeaf? path = some leaf) :
    leaf ∈ flat.leaves ∧ leaf.path = path := by
  rw [lastLeaf?, List.findRev?_eq_find?_reverse] at h
  have hpath := List.find?_some h
  exact ⟨List.mem_reverse.1 (List.mem_of_find?_eq_some h), beq_iff_eq.1 hpath⟩

/-- `lastLeaf?` is there for the path of a leaf. -/
theorem exists_lastLeaf? {leaf : FlatLeaf} (hleaf : leaf ∈ flat.leaves) :
    ∃ last, flat.lastLeaf? leaf.path = some last := by
  rw [lastLeaf?, List.findRev?_eq_find?_reverse]
  exact Option.isSome_iff_exists.1
    (List.find?_isSome.2 ⟨leaf, List.mem_reverse.2 hleaf, beq_self_eq_true _⟩)

/-- `lead?` depends on `leaves` and `index` alone. -/
theorem lead?_congr {flat' : FlatDefinition} (hleaves : flat'.leaves = flat.leaves)
    (hindex : flat'.index = flat.index) : flat'.lead? = flat.lead? := by
  have hlast : flat'.lastLeaf? = flat.lastLeaf? := by
    funext path
    rw [lastLeaf?, hleaves, lastLeaf?]
  have hresolve : flat'.resolve = flat.resolve := by
    funext scope name
    rw [resolve, hindex, resolve]
  funext target params
  cases target with
  | path path => exact congrFun hlast path
  | choose scope pick => rw [lead?, hlast, hresolve, lead?]

/-- `lead?` gives a leaf of `flat`. -/
theorem mem_leaves_of_lead? {target : FlatTarget} {leaf : FlatLeaf}
    (h : flat.lead? target params = some leaf) : leaf ∈ flat.leaves := by
  cases target with
  | path path => exact (of_lastLeaf? h).1
  | choose scope pick =>
    obtain ⟨path, -, hleaf⟩ := Option.bind_eq_some_iff.1 h
    exact (of_lastLeaf? hleaf).1

/-- **`made?` gives the state of a leaf**, found under one of `paths` that has an answer. -/
theorem of_made? {found : String × State} (h : flat.made? event paths = some found) :
    found.1 ∈ paths ∧ (flat.target? found.1 event.key).isSome = true ∧
      ∃ leaf ∈ flat.leaves, found.2 = leaf.state event.params := by
  obtain ⟨path, hpath, hmade⟩ := List.exists_of_findSome?_eq_some h
  obtain ⟨target, htarget, hlead⟩ := Option.bind_eq_some_iff.1 hmade
  obtain ⟨leaf, hleaf, rfl⟩ := Option.map_eq_some_iff.1 hlead
  exact ⟨hpath, by rw [htarget]; rfl, leaf, mem_leaves_of_lead? hleaf, rfl⟩

/-- `createFrom?` of `flat.items` is the plan of `lastLeaf?`. -/
theorem createFrom?_items_eq (flat : FlatDefinition) (path : String) (params : Params) :
    Definition.createFrom? (flat.items (ρ := ρ)) path params =
      (flat.lastLeaf? path).map (·.plan params) := by
  have hitems : (flat.items (ρ := ρ)).findRev? (·.key == path) =
      (flat.lastLeaf? path).map FlatLeaf.item := by
    rw [items, lastLeaf?, List.findRev?_eq_find?_reverse, List.findRev?_eq_find?_reverse,
      ← List.map_reverse, List.find?_map]
    rfl
  rw [Definition.createFrom?, hitems]
  cases flat.lastLeaf? path <;> rfl

/-- `(flat.spec target).resolve` is the plan of `lead?`. -/
theorem resolve_spec (flat : FlatDefinition) (target : FlatTarget) (context : EventContext) :
    (flat.spec target).resolve (flat.factory (ρ := ρ)) context =
      (flat.lead? target context.event.params).map (·.plan context.event.params) := by
  cases target with
  | path path =>
    rw [spec, Spec.resolve, factory, Factory.create_ofItems fun _ => isMade_items,
      createFrom?_items_eq]
    rfl
  | choose scope pick =>
    rw [spec, Spec.resolve, lead?]
    cases pick context.event.params with
    | none => rfl
    | some name => cases hpath : flat.resolve scope name <;> simp [hpath, create?, lastLeaf?]

/-- **`Act.firstMade` of the machine of `flat` is `made?`**, and does nothing else. -/
theorem firstMade_eq (host : Host ρ γ) (flat : FlatDefinition) (context : EventContext)
    (paths : List String) :
    Act.firstMade host flat.factory context (flat.candidatesAt context.event.key paths) =
      (pure (flat.made? context.event paths) : Act ρ γ (Option (String × State))) := by
  induction paths with
  | nil => rfl
  | cons path rest ih =>
    rw [candidatesAt, List.filterMap_cons, get?_table, ← candidatesAt, made?, List.findSome?_cons,
      ← made?]
    cases flat.target? path context.event.key with
    | none => exact ih
    | some target =>
      simp only [Option.map_some, Option.bind_some, Act.firstMade, resolve_spec]
      cases flat.lead? target context.event.params with
      | none => exact ih
      | some leaf =>
        simp only [Option.map_some, FlatLeaf.plan, StatePlan.realise_plain, pure_bind]
        rfl

end FlatDefinition

/-! ## What the machine finds -/

variable {host : Host ρ γ} {w : World ρ γ} {link : Link} {m : Machine (StatePlan ρ)}

/-- **What `m` finds of `event`**: nothing if it is misnamed, and else `made?` under
`m.lookupKeys? event`, if they come to an end. -/
def Machine.finds? (m : Machine (StatePlan ρ)) (flat : FlatDefinition) (event : Event) :
    Option (Option (String × State)) :=
  if event.isMisnamed then some none else (m.lookupKeys? event).map (flat.made? event)

/-- `m.lookupKeys?` comes to an end if the delimiter is one character. -/
theorem Machine.RunsFlat.exists_lookupKeys? (h : m.RunsFlat flat config)
    (hone : config.delimiter.length = 1) (event : Event) :
    ∃ paths, m.lookupKeys? event = some paths := by
  have hdelimiter : config.delimiter ≠ "" := by
    intro hempty
    rw [hempty] at hone
    cases hone
  have hsome := Path.isSome_ancestors? hdelimiter m.current.state.key
  rw [lookupKeys?, h.lookup_eq]
  dsimp only
  split
  · exact ⟨_, rfl⟩
  · exact Option.isSome_iff_exists.1 hsome

/-- `m.lookupKeys?` of the exit of `path` is the parent of `path` if `path` is current, and else
nothing. -/
theorem Machine.RunsFlat.lookupKeys?_exit (h : m.RunsFlat flat config) (path : String) :
    m.lookupKeys? (.childExit (.path path)) = some
      (if path = m.current.state.key then (Path.parent? config.delimiter path).toList else []) := by
  rw [lookupKeys?, h.lookup_eq]

/-- `m.finds?` is `made?` under `paths`. -/
theorem Machine.finds?_eq (hnamed : event.isMisnamed = false)
    (hpaths : m.lookupKeys? event = some paths) :
    m.finds? flat event = some (flat.made? event paths) := by
  rw [finds?, if_neg (by simp [hnamed]), hpaths]
  rfl

/-- What `m.finds?` finds is made under `m.lookupKeys?`. -/
theorem Machine.of_finds? {found : String × State} (h : m.finds? flat event = some (some found)) :
    ∃ paths, m.lookupKeys? event = some paths ∧ flat.made? event paths = some found := by
  rw [finds?] at h
  split at h
  · cases h
  · exact Option.map_eq_some_iff.1 h

/-- **`m.finds?` answers the exit of `path` only if `path` is current**, under its parent. -/
theorem Machine.RunsFlat.of_finds?_exit (h : m.RunsFlat flat config) {found : String × State}
    (hfound : m.finds? flat (.childExit (.path path)) = some (some found)) :
    path = m.current.state.key ∧ Path.parent? config.delimiter path = some found.1 ∧
      m.lookupKeys? (.childExit (.path path)) = some [found.1] ∧
      (flat.target? found.1 .childExit).isSome = true := by
  obtain ⟨paths, hpaths, hmade⟩ := of_finds? hfound
  obtain ⟨hmem, htarget, -⟩ := FlatDefinition.of_made? hmade
  rw [h.lookupKeys?_exit] at hpaths ⊢
  cases hpaths
  split at hmem
  · rename_i hcurrent
    have hparent := Option.mem_toList.1 hmem
    rw [if_pos hcurrent, hparent]
    exact ⟨hcurrent, rfl, rfl, htarget⟩
  · cases hmem

namespace Act

/-- **`Act.resolve` of the machine of `flat` is `m.finds?`**, and leaves the world as it is. -/
theorem run_resolve (hm : w.machine? link = some m) (h : m.RunsFlat flat config) :
    (resolve host link event).run w = (m.finds? flat event).map fun found? =>
      (found?.map fun found =>
        { event, source := m.current, target := found.2, matched := found.1 }, w) := by
  cases hmisnamed : event.isMisnamed with
  | true => simp [resolve, StateT.run_bind, hm, hmisnamed, Machine.finds?]
  | false =>
    -- A lookup that does not end has no answer, whatever the factory would make.
    cases hpaths : m.lookupKeys? event with
    | some paths =>
      rw [resolve_eq hm h hmisnamed hpaths (flat.firstMade_eq host ⟨event, m.current.state⟩ paths),
        Machine.finds?_eq hmisnamed hpaths]
      rfl
    | none =>
      have hcandidates : m.candidates? event = none := by
        rw [Machine.candidates?, hpaths]
        rfl
      rw [Machine.finds?, if_neg (by simp [hmisnamed]), hpaths, resolve]
      show (StateT.run (get >>= _) w) = _
      rw [StateT.run_bind, StateT.run_get]
      simp only [Option.pure_def, Option.bind_eq_bind, Option.bind_some, hm, hmisnamed,
        hcandidates, Bool.false_eq_true, if_false]
      rfl

/-- **`Act.enter` of the machine of `flat` commits to `m.finds?`**, and changes no other cell. -/
theorem run_enter (hm : w.machine? link = some m) (h : m.RunsFlat flat config) :
    (enter host link event).run w = (m.finds? flat event).map fun
      | none => (none, w)
      | some found =>
        let change := m.changeTo event m.current found.2
        (some (change, m.followUps found.2), w.setCell link (.machine (m.commit change))) := by
  rw [enter, StateT.run_bind, run_resolve hm h]
  cases m.finds? flat event with
  | none => rfl
  | some found? =>
    cases found? with
    | none => rfl
    | some found =>
      simp only [Option.map_some, Option.bind_eq_bind, Option.bind_some, StateT.run_bind,
        StateT.run_get, Option.pure_def, hm]
      rfl

end Act

end Statechart
