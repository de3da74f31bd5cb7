import Statechart.Proofs.World.Turn
import Statechart.World.Routing

/-! # The active chain of a hierarchy

An engine finds the machines below its root by following children. Where machines stand one inside
the other these are the machines themselves, as far down as the engine looks. Registering them
changes nothing about the states they are in.

* `World.levelAt`: what the chain says of a link.
* **`World.Stands.chain_eq`**: the chain of machines that stand one inside the other.
* `World.HasEngine`: an engine at a root, that nobody watches.
* **`Act.ends_sync`**: bringing registrations in line keeps every machine in its state. -/

namespace Statechart

variable {ρ γ : Type} {host : Host ρ γ} {config : HierarchyConfig} {kept : Link → Prop}
  {w w' : World ρ γ} {state : StateDef} {links : List Link} {keys : List String} {link root : Link}
  {depth number : Nat} {m : Machine (StatePlan ρ)}

namespace World

/-! ## Following children -/

/-- **`link` as a level of a chain**, with `w.snapshot? link`. -/
def levelAt (w : World ρ γ) (link : Link) : Level := ⟨link, (w.snapshot? link).getD default⟩

/-- `w.levelAt link` of a machine shows `m.snapshot`. -/
theorem levelAt_of_machine? (h : w.machine? link = some m) :
    w.levelAt link = ⟨link, m.snapshot⟩ := by
  rw [levelAt, snapshot?_of_machine? h]
  rfl

/-- The identity of `links[depth]` differs from those after it. -/
theorem Stands.id?_ne (h : w.Stands host config state links keys)
    (hlink : links[depth]? = some link) {later : Link} (hlater : later ∈ links.drop (depth + 1)) :
    w.id? later ≠ w.id? link := by
  intro heq
  obtain ⟨hlt, hget⟩ := List.getElem?_eq_some_iff.1 hlink
  -- Identities differ along the links, in particular from the link on.
  have hsplit : links = links.take depth ++ link :: links.drop (depth + 1) := by
    rw [← hget, List.getElem_cons_drop, List.take_append_drop]
  have hdistinct := h.distinct
  rw [hsplit, List.map_append, List.nodup_append, List.map_cons, List.nodup_cons] at hdistinct
  exact hdistinct.2.1.1 (List.mem_map.2 ⟨later, hlater, heq⟩)

/-- **`w.chainFrom` from `links[depth]?` on is `links.drop depth`**, up to `bound`. -/
theorem Stands.chainFrom_eq (h : w.Stands host config state links keys) (bound : Nat)
    (visited : List MachineId)
    (hvisited : ∀ link ∈ links.drop depth, ∀ id ∈ visited, w.id? link ≠ some id) :
    w.chainFrom bound visited links[depth]? = ((links.drop depth).take bound).map w.levelAt := by
  induction bound generalizing depth visited with
  | zero => rfl
  | succ bound ih =>
    cases hlink : links[depth]? with
    | none =>
      rw [List.drop_eq_nil_of_le (List.getElem?_eq_none_iff.1 hlink)]
      rfl
    | some link =>
      obtain ⟨hlt, hget⟩ := List.getElem?_eq_some_iff.1 hlink
      obtain ⟨level, key, m, -, -, hm, hstands⟩ := h.exists_machine hlink
      have hid := id?_of_machine? hm
      have hdrop : links.drop depth = link :: links.drop (depth + 1) := by
        rw [← hget, List.getElem_cons_drop]
      -- Machines that stand one inside the other have different identities, so none comes twice.
      have hnew : m.id ∉ visited := fun hmem =>
        hvisited link (by rw [hdrop]; exact List.mem_cons_self) m.id hmem hid
      have hchild : m.snapshot.child = links[depth + 1]? := hstands.child_eq
      rw [chainFrom, hid, snapshot?_of_machine? hm]
      simp only [if_neg hnew, hchild]
      rw [ih, hdrop, List.take_succ_cons, List.map_cons, levelAt_of_machine? hm]
      intro later hlater id hmem
      rcases List.mem_cons.1 hmem with rfl | hmem
      · rw [← hid]
        exact h.id?_ne hlink hlater
      · refine hvisited later ?_ id hmem
        rw [hdrop]
        exact List.mem_cons_of_mem _ hlater

/-- **`w.chain e` is `links.tail`**, up to `e.config.maxDepth`. -/
theorem Stands.chain_eq (h : w.Stands host config state links keys) (hroot : links[0]? = some root)
    {e : Engine} (he : e.root = root) :
    w.chain e = (links.tail.take e.config.maxDepth).map w.levelAt := by
  obtain ⟨level, key, m, -, -, hm, hstands⟩ := h.exists_machine hroot
  have hchild : m.current.state.child = links[0 + 1]? := hstands.child_eq
  rw [chain, he, hm]
  simp only [hchild]
  rw [h.chainFrom_eq, Nat.zero_add, List.drop_one]
  intro later hlater id hmem
  rw [List.mem_singleton.1 hmem, ← id?_of_machine? hm]
  exact h.id?_ne hroot hlater

/-- The length of the chain is `min (keys.length - 1) bound`. -/
theorem Stands.length_chain (h : w.Stands host config state links keys) (bound : Nat) :
    ((links.tail.take bound).map w.levelAt).length = min (keys.length - 1) bound := by
  rw [List.length_map, List.length_take, List.length_tail, h.length, Nat.min_comm]

/-! ## Engines -/

/-- **There is an engine `number` at `root` with the settings `config`**, without watchers, at which
only machines are registered. -/
def HasEngine (w : World ρ γ) (number : Nat) (root : Link) (config : HierarchyConfig) : Prop :=
  ∃ e : Engine, w.engines[number]? = some e ∧ e.root = root ∧ e.config = config ∧
    e.watchers.isEmpty = true ∧ ∀ link ∈ e.attached, (w.machine? link).isSome

/-- `World.Keeps` keeps `World.HasEngine`. -/
theorem HasEngine.of_keeps (h : w.HasEngine number root config) (hk : w.Keeps host kept w') :
    w'.HasEngine number root config := by
  obtain ⟨e, he, hroot, hconfig, hwatchers, hattached⟩ := h
  obtain ⟨e', he', hroot', hconfig', hwatchers', hattached'⟩ := hk.engine number e he
  refine ⟨e', he', hroot'.trans hroot, hconfig'.trans hconfig, hwatchers' ▸ hwatchers, ?_⟩
  intro link hlink
  rcases hattached' link hlink with hlink | hlink
  · exact hk.isMachine link (hattached link hlink)
  · exact hlink

end World

namespace Act

/-! ## Registrations -/

/-- `Act.updateEngine number f` gives `World.Keeps`, if `f` keeps the root, the settings and the
watchers. -/
theorem ends_updateEngine (host : Host ρ γ) {f : Engine → Engine}
    (hf : ∀ e : Engine, w.engines[number]? = some e → (f e).root = e.root ∧
      (f e).config = e.config ∧ (f e).watchers = e.watchers ∧
      ∀ link ∈ (f e).attached, link ∈ e.attached ∨ (w.machine? link).isSome) :
    Ends (updateEngine number f) w fun (_ : Unit) w' => w.Keeps host (fun _ => True) w' :=
  ⟨(), _, rfl, .updateEngine hf⟩

/-- `Act.attach` gives `World.Keeps`. -/
theorem ends_attach (hm : w.machine? link = some m) :
    Ends (attach host number link) w fun _ w' => w.Keeps host (fun _ => True) w' := by
  rw [attach]
  refine ends_get ?_
  simp only [hm]
  refine ends_setCell.mono ?_
  rintro _ _ rfl
  exact .setCell hm fun _ => ⟨rfl, rfl, rfl, rfl, rfl, Nat.le_refl _, fun hq => hq⟩

/-- `Act.detach` gives `World.Keeps`. -/
theorem ends_detach (hm : w.machine? link = some m) :
    Ends (detach host link) w fun _ w' => w.Keeps host (fun _ => True) w' := by
  rw [detach]
  refine ends_get ?_
  simp only [hm]
  refine ends_setCell.mono ?_
  rintro _ _ rfl
  exact .setCell hm fun _ => ⟨rfl, rfl, rfl, rfl, rfl, Nat.le_refl _, fun hq => hq⟩

/-- `Act.call` gives `World.Keeps`. -/
theorem ends_call {isJoining : Bool} (hm : w.machine? link = some m) :
    Ends (call host number isJoining link) w fun _ w' => w.Keeps host (fun _ => True) w' := by
  rw [call]
  refine ends_get ?_
  simp only [World.id?_of_machine? hm]
  refine ends_bind (ends_updateEngine host fun e _ => ⟨rfl, rfl, rfl, fun _ => Or.inl⟩) ?_
  intro _ w₁ hkeeps
  obtain ⟨m₁, hm₁, -⟩ := hkeeps.machine link m trivial hm
  -- The record is made already. What is left is to tell the machine.
  cases isJoining with
  | true =>
    refine (ends_attach hm₁).mono ?_
    intro _ w₂ hw₂
    exact hkeeps.trans hw₂
  | false =>
    refine (ends_detach hm₁).mono ?_
    intro _ w₂ hw₂
    exact hkeeps.trans hw₂

/-- `Act.call` for each of `items` gives `World.Keeps`. -/
theorem ends_forM_call {isJoining : Bool} {items : List Link}
    (hitems : ∀ link ∈ items, (w.machine? link).isSome) :
    Ends (items.forM (call host number isJoining)) w fun _ w' =>
      w.Keeps host (fun _ => True) w' := by
  refine ends_forM (.refl host _ w) ?_
  intro link hlink w₁ hw₁
  obtain ⟨m, hm⟩ := Option.isSome_iff_exists.1 (hw₁.isMachine link (hitems link hlink))
  refine (ends_call hm).mono ?_
  intro _ w₂ hw₂
  exact hw₁.trans hw₂

/-- `Act.redraw` gives `World.Keeps` if nobody watches the engine. -/
theorem ends_redraw (h : w.HasEngine number root config) :
    Ends (redraw host number) w fun _ w' => w.Keeps host (fun _ => True) w' := by
  rw [redraw]
  refine ends_bind (ends_updateEngine host fun e _ => ⟨rfl, rfl, rfl, fun _ => Or.inl⟩) ?_
  intro _ w₁ hkeeps
  obtain ⟨e, he, -, -, hwatchers, -⟩ := h.of_keeps hkeeps
  refine ends_get ?_
  simp only [he, hwatchers]
  exact ends_pure hkeeps

/-- **`Act.sync` gives the levels of `links.tail` and `World.Keeps`.** -/
theorem ends_sync (h : w.Stands host config state links keys) (hroot : links[0]? = some root)
    (hengine : w.HasEngine number root config) :
    Ends (sync host number) w fun levels w' =>
      levels = (links.tail.take config.maxDepth).map w.levelAt ∧
        w.Keeps host (fun _ => True) w' := by
  obtain ⟨e, he, heroot, rfl, hwatchers, hattached⟩ := hengine
  have hchain := h.chain_eq hroot heroot
  have hmachines : ∀ link ∈ (w.chain e).map (·.link), (w.machine? link).isSome := by
    intro link hlink
    rw [hchain, List.map_map] at hlink
    obtain ⟨own, hown, rfl⟩ := List.mem_map.1 hlink
    obtain ⟨m, hm⟩ := h.exists_of_mem (List.mem_of_mem_tail (List.mem_of_mem_take hown))
    exact Option.isSome_iff_exists.2 ⟨m, hm⟩
  rw [sync]
  refine ends_get ?_
  simp only [he]
  -- From here on only machines are registered, those of the chain.
  refine ends_bind (ends_updateEngine host fun e _ => ⟨rfl, rfl, rfl, fun link hlink =>
    Or.inr (hmachines link hlink)⟩) ?_
  intro _ w₁ hkeeps
  have hengine : w₁.HasEngine number e.root e.config :=
    World.HasEngine.of_keeps ⟨e, he, rfl, rfl, hwatchers, hattached⟩ hkeeps
  split
  · have hleaving : ∀ link ∈ e.attached.filter fun link =>
        decide (w.id? link ∉ (((w.chain e).map (·.link)).map w.id?)), (w₁.machine? link).isSome :=
      fun link hlink => hkeeps.isMachine link (hattached link (List.mem_of_mem_filter hlink))
    refine ends_bind (ends_forM_call hleaving) ?_
    intro _ w₂ hw₂
    have hjoining : ∀ link ∈ ((w.chain e).map (·.link)).filter fun link =>
        decide (w.id? link ∉ (e.attached.map w.id?)), (w₂.machine? link).isSome := fun link hlink =>
      hw₂.isMachine link (hkeeps.isMachine link (hmachines link (List.mem_of_mem_filter hlink)))
    refine ends_bind (ends_forM_call hjoining) ?_
    intro _ w₃ hw₃
    have hkept := (hkeeps.trans hw₂).trans hw₃
    refine ends_bind (ends_redraw (hengine.of_keeps (hw₂.trans hw₃))) ?_
    intro _ w₄ hw₄
    exact ends_pure ⟨hchain, hkept.trans hw₄⟩
  · exact ends_pure ⟨hchain, hkeeps⟩

/-- `Act.sync` gives `World.Keeps`, whatever its result is used for. -/
theorem ends_discard_sync (h : w.Stands host config state links keys)
    (hroot : links[0]? = some root) (hengine : w.HasEngine number root config) :
    Ends (discard (sync host number)) w fun _ w' => w.Keeps host (fun _ => True) w' :=
  ends_discard <| (ends_sync h hroot hengine).mono fun _ _ hsync => hsync.2

end Act

end Statechart
