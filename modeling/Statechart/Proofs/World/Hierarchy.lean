import Statechart.Proofs.World.Routing
import Statechart.World.Hierarchy

/-! # Runs of a hierarchy

The hierarchy of a sound definition starts at the keys that are entered with the definition. Every
event that is sent to it then brings it where the definition says, and there is an outcome exactly
if some level answers.

* **`World.TreeAt`**: the hierarchy in use stands at keys.
* `World.TreeAt.activePath_eq`, `World.TreeAt.leaf?_eq`: what it shows there.
* **`Act.ends_startTree`**, **`Act.ends_sendToTree`**: how it starts, and what an event does. -/

namespace Statechart

variable {ρ γ : Type} {host : Host ρ γ} {config : HierarchyConfig} {delimiter : String}
  {w w' : World ρ γ} {d : Definition} {links links' : List Link} {keys keys' : List String}
  {link root : Link} {number : Nat} {m : Machine (StatePlan ρ)} {params params' : Params}
  {position : Position} {e : Engine}

namespace World

/-- **The hierarchy in use stands at `keys`.** The machines at `links`, `root` first, stand one
inside the other (`World.Stands`), down to a leaf whose data are made from `params`. -/
structure TreeAt (host : Host ρ γ) (config : HierarchyConfig) (d : Definition) (w : World ρ γ)
    (root : Link) (links : List Link) (keys : List String) (params : Params) : Prop where
  engine : ∃ number, w.tree? = some number ∧ w.HasEngine number root config
  root : links[0]? = some root
  stands : w.Stands host config (.composite d) links keys
  leaf : d.StandsAt keys
  carries : w.Carries (.composite d) links keys params

/-- `World.Keeps` keeps `World.TreeAt`. -/
theorem TreeAt.of_keeps (h : w.TreeAt host config d root links keys params)
    (hk : w.Keeps host (fun _ => True) w') : w'.TreeAt host config d root links keys params := by
  obtain ⟨number, htree, hengine⟩ := h.engine
  exact ⟨⟨number, hk.tree.trans htree, hengine.of_keeps hk⟩, h.root,
    h.stands.of_keeps hk fun _ _ => trivial, h.leaf,
    h.carries.of_keeps h.stands hk fun _ _ => trivial⟩

/-- `World.Turned` brings `World.TreeAt` to `position.keys`. -/
theorem TreeAt.of_turned (h : w.TreeAt host config d root links keys params)
    (ht : World.Turned host config d w w' links links' position)
    (hleaf : d.StandsAt position.keys) :
    w'.TreeAt host config d root links' position.keys position.leafParams := by
  obtain ⟨number, htree, hengine⟩ := h.engine
  exact ⟨⟨number, ht.keeps.tree.trans htree, hengine.of_keeps ht.keeps⟩,
    (ht.same 0 (Nat.zero_le _)).trans h.root, ht.stands, hleaf, ht.carries⟩

/-! ## What a hierarchy shows -/

/-- The engine in use of `World.TreeAt` has the root `root` and the settings `config`. -/
theorem TreeAt.exists_engine (h : w.TreeAt host config d root links keys params) :
    ∃ number e, w.engineInUse? = some (number, e) ∧ e.root = root ∧ e.config = config ∧
      w.chain e = (links.tail.take config.maxDepth).map w.levelAt := by
  obtain ⟨number, htree, e, he, hroot, rfl, -⟩ := h.engine
  refine ⟨number, e, ?_, hroot, rfl, h.stands.chain_eq h.root hroot⟩
  rw [engineInUse?, htree, Option.bind_some, he]
  rfl

/-- The snapshots of `w.levelAt` show `keys`. -/
theorem Stands.map_key_eq {state : StateDef} (h : w.Stands host config state links keys) :
    (links.map w.levelAt).map (·.snapshot.key) = keys := by
  refine List.ext_getElem? fun i => ?_
  rw [List.map_map, List.getElem?_map]
  cases hlink : links[i]? with
  | none =>
    rw [List.getElem?_eq_none_iff, h.length] at hlink
    rw [List.getElem?_eq_none hlink]
    rfl
  | some link =>
    obtain ⟨level, key, m, hkey, -, hm, hstands⟩ := h.exists_machine hlink
    rw [hkey, Option.map_some, Function.comp_apply, levelAt_of_machine? hm]
    exact congrArg some hstands.key_eq

/-- `w.activeKeys e` is `keys`, up to `e.config.maxDepth`. -/
theorem Stands.activeKeys_eq (h : w.Stands host config (.composite d) links keys)
    (hroot : links[0]? = some e.root) :
    w.activeKeys e = keys.take (e.config.maxDepth + 1) := by
  obtain ⟨level, key, m, -, -, hm, -⟩ := h.exists_machine hroot
  have hkeys := h.map_key_eq
  cases links with
  | nil => cases hroot
  | cons first rest =>
    obtain rfl : first = e.root := Option.some.inj hroot
    rw [activeKeys, hm, h.chain_eq hroot rfl, ← hkeys, List.map_cons, List.map_cons,
      levelAt_of_machine? hm, List.take_succ_cons, List.map_take, List.map_take]
    rfl

/-- **`w.activeKeys e` is `keys`**, up to `config.maxDepth`. -/
theorem TreeAt.activeKeys_eq (h : w.TreeAt host config d root links keys params)
    (he : w.engineInUse? = some (number, e)) :
    w.activeKeys e = keys.take (config.maxDepth + 1) := by
  obtain ⟨number', e', he', rfl, rfl, -⟩ := h.exists_engine
  rw [he] at he'
  cases he'
  exact h.stands.activeKeys_eq h.root

/-- **`w.activePath` is `config.delimiter.intercalate keys`** if `d.depth ≤ config.maxDepth`. -/
theorem TreeAt.activePath_eq (h : w.TreeAt host config d root links keys params)
    (hdepth : d.depth ≤ config.maxDepth) :
    (w.engineInUse?.map fun p => w.activePath p.2) = some (config.delimiter.intercalate keys) := by
  obtain ⟨number, e, he, -, rfl, -⟩ := h.exists_engine
  have hlength := h.leaf.length_le
  rw [he, Option.map_some, activePath, h.activeKeys_eq he, List.take_of_length_le (by omega)]

/-- The machine at the last of `links` is in a leaf of `d`. -/
theorem TreeAt.exists_innermost (h : w.TreeAt host config d root links keys params) :
    ∃ link leaf m, links.getLast? = some link ∧
      (StateDef.composite d).at? keys = some (.leaf leaf) ∧ w.machine? link = some m ∧
      m.current.state.data = leaf.data params := by
  obtain ⟨leaf, hleaf⟩ := h.leaf
  have hne : links ≠ [] := by
    rintro rfl
    cases h.root
  have hlast := List.getLast?_eq_some_getLast hne
  obtain ⟨m, hm⟩ := h.stands.exists_of_mem (List.getLast_mem hne)
  exact ⟨_, leaf, m, hlast, hleaf, hm, h.carries leaf _ m hleaf hlast hm⟩

/-- **`w.leaf? e` is the snapshot of the last of `links`** if `d.depth ≤ config.maxDepth`. -/
theorem TreeAt.leaf?_eq (h : w.TreeAt host config d root links keys params)
    (hdepth : d.depth ≤ config.maxDepth) (he : w.engineInUse? = some (number, e))
    (hlast : links.getLast? = some link) : w.leaf? e = w.snapshot? link := by
  obtain ⟨number', e', he', hroot, -, hchain⟩ := h.exists_engine
  rw [he] at he'
  cases he'
  have hlength := h.leaf.length_le
  rw [← h.stands.length] at hlength
  have hmem := List.mem_of_getLast? hlast
  obtain ⟨m, hm⟩ := h.stands.exists_of_mem hmem
  cases links with
  | nil => cases h.root
  | cons first rest =>
    obtain rfl : first = root := Option.some.inj h.root
    rw [List.length_cons] at hlength
    rw [leaf?, hchain, List.tail_cons, List.take_of_length_le (by omega), List.getLast?_map]
    -- Without machines below the root, the leaf is what the root shows of itself.
    cases hrest : rest.getLast? with
    | none =>
      rw [List.getLast?_eq_none_iff] at hrest
      subst hrest
      obtain rfl : first = link := Option.some.inj hlast
      rw [hroot]
      rfl
    | some last =>
      rw [List.getLast?_cons, hrest] at hlast
      obtain rfl : last = link := Option.some.inj hlast
      rw [snapshot?_of_machine? hm, Option.map_some]
      simp only [levelAt_of_machine? hm]

end World

namespace Act

/-! ## Starting -/

/-- `Act.openEngine` at `root` gives `World.HasEngine`, and keeps everything. -/
theorem ends_openEngine (hs : w.Stands host config (.composite d) links keys)
    (hroot : links[0]? = some root) :
    Ends (openEngine host root config) w fun number w' =>
      w.Keeps host (fun _ => True) w' ∧ w'.HasEngine number root config := by
  obtain ⟨level, key, m, -, -, hm, -⟩ := hs.exists_machine hroot
  -- The new engine comes last, so that those that are there keep their numbers.
  have hpush : ∀ (number : Nat) (e : Engine), w.engines[number]? = some e →
      (w.engines.push { root, config })[number]? = some e := by
    intro number e he
    obtain ⟨hlt, hget⟩ := Array.getElem?_eq_some_iff.1 he
    rw [Array.getElem?_push_lt hlt, hget]
  have hkeeps : w.Keeps host (fun _ => True)
      { w with engines := w.engines.push { root, config } } :=
    ⟨fun _ m _ hm => ⟨m, hm, .refl host m⟩, fun _ h => h,
      fun number e he => ⟨e, hpush number e he, rfl, rfl, rfl, fun _ => Or.inl⟩, Nat.le_refl _,
      Nat.le_refl _, rfl⟩
  have hengine : World.HasEngine { w with engines := w.engines.push { root, config } }
      w.engines.size root config := by
    refine ⟨{ root, config }, Array.getElem?_push_size, rfl, rfl, rfl, ?_⟩
    intro link hlink
    cases hlink
  have hpushed : Ends (modifyGet fun w : World ρ γ =>
      (w.engines.size, { w with engines := w.engines.push { root, config } })) w fun number w' =>
        w.Keeps host (fun _ => True) w' ∧ w'.HasEngine number root config :=
    ⟨_, _, rfl, hkeeps, hengine⟩
  rw [openEngine]
  refine ends_bind hpushed ?_
  rintro number w₁ ⟨hk₁, hengine₁⟩
  obtain ⟨m₁, hm₁, -⟩ := hk₁.machine root m trivial hm
  -- The root is told of its engine, and the machines inside are registered.
  refine ends_bind (ends_attach hm₁) ?_
  intro _ w₂ hk₂
  have hk₁₂ := hk₁.trans hk₂
  have hengine₂ := hengine₁.of_keeps hk₂
  refine ends_bind (ends_discard_sync (hs.of_keeps hk₁₂ fun _ _ => trivial) hroot hengine₂) ?_
  intro _ w₃ hk₃
  exact ends_pure ⟨hk₁₂.trans hk₃, hengine₂.of_keeps hk₃⟩

/-- **`Act.startTree` of a sound definition ends in `World.TreeAt` at `d.startKeys`.** -/
theorem ends_startTree (hd : d.Sound delimiter) (host : Host ρ γ) (config : HierarchyConfig)
    (w : World ρ γ) :
    Ends (startTree host d config) w fun result w' => ∃ root links, result = .ok root ∧
      w'.TreeAt host config d root links d.startKeys [] := by
  rw [startTree]
  refine ends_bind (hd.ends_realise_machinePlan host config w) ?_
  rintro _ w₁ ⟨root, rest, rfl, hmakes⟩
  have hroot : (root :: rest)[0]? = some root := rfl
  -- The machines stand where the definition starts, and the engine leaves them there.
  have hwrap : Ends (wrap host root config) w₁ fun _ w₂ =>
      w₂.TreeAt host config d root (root :: rest) d.startKeys [] := by
    rw [wrap]
    refine ends_bind (ends_openEngine hmakes.stands hroot) ?_
    rintro number w₂ ⟨hk₂, hengine⟩
    refine ends_modify ?_
    have hs := hmakes.stands.of_keeps hk₂ fun _ _ => trivial
    have hc := (hmakes.carries (List.cons_ne_nil _ _)).of_keeps hmakes.stands hk₂
      fun _ _ => trivial
    exact ⟨⟨number, rfl, hengine⟩, hroot, ⟨hs.length, hs.rung, hs.minted, hs.distinct⟩,
      hd.orderly.standsAt_startKeys, hc⟩
  refine ends_bind hwrap ?_
  intro _ w₂ htree
  exact ends_pure ⟨root, root :: rest, rfl, htree⟩

/-! ## Sending -/

/-- `Act.route` follows `d.react?`, as `Act.handle` does. -/
theorem ends_route (hd : d.Sound delimiter)
    (hs : w.Stands host config (.composite d) links keys) (hroot : links[0]? = some root)
    (hengine : w.HasEngine number root config) {name : String} {params : Params}
    (hname : isReservedName name = false) :
    Ends (route host number (.domain name params)) w fun outcome? w' =>
      match d.react? config.terminal config.maxDepth keys (.domain name) params with
      | none => outcome? = none ∧ w.Keeps host (fun _ => True) w'
      | some next => outcome?.isSome ∧
          ∃ links', World.Turned host config d w w' links links' next := by
  -- Which engines are at work concerns no machine.
  have hbusy : ∀ (w : World ρ γ) (busy : List Nat),
      w.Keeps host (fun _ => True) { w with busy } :=
    fun w busy => .of_eq rfl rfl (Nat.le_refl _) rfl
  have hk := hbusy w (number :: w.busy)
  have hstart : Ends (modify fun w : World ρ γ => { w with busy := number :: w.busy }) w
      fun (_ : Unit) w₁ => w₁ = { w with busy := number :: w.busy } := ⟨(), _, rfl, rfl⟩
  rw [route, whileBusy]
  refine ends_bind hstart ?_
  rintro _ _ rfl
  refine ends_bind (ends_handle hd (hs.of_keeps hk fun _ _ => trivial) hroot (hengine.of_keeps hk)
    hname) ?_
  intro outcome? w₂ hhandled
  have hend : Ends (modify fun w : World ρ γ => { w with busy := w.busy.drop 1 }) w₂
      fun (_ : Unit) w₃ => w₃ = { w₂ with busy := w₂.busy.drop 1 } := ⟨(), _, rfl, rfl⟩
  refine ends_bind hend ?_
  rintro _ _ rfl
  have hk' := hbusy w₂ (w₂.busy.drop 1)
  cases hreact : d.react? config.terminal config.maxDepth keys (.domain name) params with
  | none =>
    rw [hreact] at hhandled
    obtain ⟨rfl, hk₂⟩ := hhandled
    exact ends_pure ⟨rfl, (hk.trans hk₂).trans hk'⟩
  | some next =>
    rw [hreact] at hhandled
    obtain ⟨hsome, links', hturned⟩ := hhandled
    exact ends_pure ⟨hsome, links', (hturned.of_keeps hk').of_keeps_before hs hk⟩

/-- **`Act.sendToTree` follows `d.react?`** from `World.TreeAt` to `World.TreeAt`, with an outcome
exactly if some level answers. Reserved names are refused. -/
theorem ends_sendToTree (hd : d.Sound delimiter)
    (h : w.TreeAt host config d root links keys params') (name : String) (params : Params) :
    Ends (sendToTree host root name params) w fun outcome? w' =>
      match if isReservedName name then none
        else d.react? config.terminal config.maxDepth keys (.domain name) params with
      | none => outcome? = none ∧ w'.TreeAt host config d root links keys params'
      | some next => outcome?.isSome ∧ ∃ links', World.Turned host config d w w' links links' next ∧
          w'.TreeAt host config d root links' next.keys next.leafParams := by
  rw [sendToTree]
  by_cases hname : isReservedName name = true
  · rw [if_pos hname, if_pos hname]
    exact ends_pure ⟨rfl, h⟩
  · rw [if_neg hname, if_neg hname, dispatchToTree]
    obtain ⟨number, htree, hengine⟩ := h.engine
    -- The engine that is in use is the one of the hierarchy, and it routes the event.
    have hinUse : ∃ e, w.engineInUse? = some (number, e) := by
      obtain ⟨e, he, -⟩ := hengine
      refine ⟨e, ?_⟩
      rw [World.engineInUse?, htree, Option.bind_some, he]
      rfl
    obtain ⟨e, he⟩ := hinUse
    refine ends_get ?_
    simp only [he]
    refine (ends_route hd h.stands h.root hengine (Bool.not_eq_true _ ▸ hname)).mono ?_
    intro outcome? w' hrouted
    cases hreact : d.react? config.terminal config.maxDepth keys (.domain name) params with
    | none =>
      rw [hreact] at hrouted
      exact ⟨hrouted.1, h.of_keeps hrouted.2⟩
    | some next =>
      rw [hreact] at hrouted
      obtain ⟨hsome, links', hturned⟩ := hrouted
      exact ⟨hsome, links', hturned, h.of_turned hturned (Definition.StandsAt.react? hd hreact)⟩

end Act

end Statechart
