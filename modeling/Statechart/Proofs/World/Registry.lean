import Statechart.Proofs.World.Following
import Statechart.World.Hierarchy

/-! # Who is registered

An engine keeps a list of the children it has registered, and each of them knows the engine. When
the engine brings the list in line with the active chain, no machine moves.

* `World.Enlists`: some machines are registered, or released.
* `World.Consistent`: the machines that know an engine are its root and the ones on its list.
* **`World.InLine`**: besides, the list is the active chain.
* `World.InLine.of_passes_iff`: registrations stay in line exactly if the chain stays.
* **`Act.gives_sync`**: bringing registrations in line does so, and moves no machine. -/

namespace Statechart

variable {ρ γ : Type} {settings : MachineConfig → Prop} {total : Prop} {host : Host ρ γ}
  {kept : Link → Prop} {w w' w'' : World ρ γ} {e e' : Engine} {link : Link} {number : Nat}
  {m m' : Machine (StatePlan ρ)} {items : List Link} {isJoining : Bool}

namespace World

/-! ## Registering and releasing -/

/-- `engine?` of a machine after `attach`, or after `detach`. -/
def enlistedAt (number : Nat) (isJoining : Bool) : Option Nat :=
  if isJoining then some number else none

/-- **The machines at `items` are registered with the engine `number`, or released**, and nothing
else happens. -/
structure Enlists (settings : MachineConfig → Prop) (number : Nat) (isJoining : Bool)
    (items : List Link) (w w' : World ρ γ) : Prop where
  tidy : w'.Tidy settings
  stays : w.Stays (fun _ => True) w'
  machine : ∀ link m', w'.machine? link = some m' → ∃ m, w.machine? link = some m ∧
    m'.engine? = if link ∈ items then enlistedAt number isJoining else m.engine?
  attached : ∀ (n : Nat) (e e' : Engine), w.engines[n]? = some e → w'.engines[n]? = some e' →
    e'.attached = e.attached

/-- `Enlists` for no machine. -/
theorem Enlists.refl (hw : w.Tidy settings) : w.Enlists settings number isJoining [] w := by
  refine ⟨hw, .refl _ w, fun link m hm => ⟨m, hm, by simp⟩, ?_⟩
  intro n e e' he he'
  rw [he] at he'
  cases he'
  rfl

/-- `Enlists` for `items` and then for `rest` is `Enlists` for both. -/
theorem Enlists.trans {rest : List Link} (h : w.Enlists settings number isJoining items w')
    (h' : w'.Enlists settings number isJoining rest w'') :
    w.Enlists settings number isJoining (items ++ rest) w'' := by
  refine ⟨h'.tidy, h.stays.trans h'.stays, ?_, ?_⟩
  · intro link m'' hm''
    obtain ⟨m', hm', hengine'⟩ := h'.machine link m'' hm''
    obtain ⟨m, hm, hengine⟩ := h.machine link m' hm'
    refine ⟨m, hm, ?_⟩
    rw [hengine', hengine]
    by_cases hrest : link ∈ rest
    · simp [hrest]
    · simp [hrest]
  · intro n e e'' he he''
    obtain ⟨e', he', -⟩ := h.stays.engine n e he
    exact (h'.attached n e' e'' he' he'').trans (h.attached n e e' he he')

/-- **`Enlists` for one machine**, with a change of the engine that keeps `root`, `config` and
`attached`. -/
theorem Enlists.one (hw : w.Tidy settings) (hm : w.machine? link = some m) {f : Engine → Engine}
    (hf : ∀ e : Engine, w.engines[number]? = some e → (f e).root = e.root ∧
      (f e).config = e.config ∧ (f e).attached = e.attached) :
    w.Enlists settings number isJoining [link]
      ({ w with engines := w.engines.modify number f }.setCell link
        (.machine { m with engine? := enlistedAt number isJoining })) := by
  -- The engine writes it down, and then the machine is told of its engine.
  have hnoted : w.Passes (fun _ => True) { w with engines := w.engines.modify number f } :=
    .updateEngine hf
  have htidy : { w with engines := w.engines.modify number f }.Tidy settings :=
    hw.of_eq rfl rfl (Nat.le_refl _)
  have hm₁ : { w with engines := w.engines.modify number f }.machine? link = some m := hm
  have hset : { w with engines := w.engines.modify number f }.Stays (fun _ => True)
      ({ w with engines := w.engines.modify number f }.setCell link
        (.machine { m with engine? := enlistedAt number isJoining })) :=
    .setCell hm₁ rfl fun _ => ⟨rfl, rfl, rfl, rfl, rfl, rfl, rfl, rfl, rfl⟩
  refine ⟨?tidy, hnoted.toStays.trans hset, ?machine, ?attached⟩
  case tidy =>
    exact htidy.setCell hm₁ rfl ((hw.fits link m hm).of_parts rfl rfl rfl) (hw.children link m hm)
  case machine =>
    intro other m' hm'
    obtain ⟨rfl, rfl⟩ | ⟨hne, hm'⟩ := machine?_setCell_cases hm₁ hm'
    · exact ⟨m, hm, by simp⟩
    · exact ⟨m', hm', by simp [hne]⟩
  case attached =>
    intro n e e' he he'
    exact hnoted.attached n e e' he he'

/-! ## The list of an engine -/

/-- **The machines with the engine `number` are `e.root` and those in `e.attached`.** -/
structure Registers (number : Nat) (e : Engine) (w : World ρ γ) : Prop where
  root : w.HasMachine e.root
  listed : ∀ link ∈ e.attached, w.HasMachine link ∧ link ≠ e.root
  known : ∀ link m, w.machine? link = some m →
    (m.engine? = some number ↔ link = e.root ∨ link ∈ e.attached)

/-- **`Registers` holds for the engine `number`.** -/
def Consistent (number : Nat) (w : World ρ γ) : Prop :=
  ∃ e, w.engines[number]? = some e ∧ w.Registers number e

/-- **The registrations are in line with the active chain**: `Registers` holds, and `e.attached` are
the links of `w.chain e`. -/
def InLine (number : Nat) (w : World ρ γ) : Prop :=
  ∃ e, w.engines[number]? = some e ∧ w.Registers number e ∧
    e.attached = (w.chain e).map (·.link)

/-- `InLine` gives `Consistent`. -/
theorem InLine.consistent (h : w.InLine number) : w.Consistent number := by
  obtain ⟨e, he, hregisters, -⟩ := h
  exact ⟨e, he, hregisters⟩

/-- `Registers` is kept by `Passes`. -/
theorem Registers.of_passes (h : w.Registers number e) (hw : w.Passes kept w')
    (hroot : e'.root = e.root) (hattached : e'.attached = e.attached) :
    w'.Registers number e' := by
  refine ⟨hroot ▸ hw.hasMachine h.root, ?_, ?_⟩
  · rw [hattached, hroot]
    exact fun link hlink => ⟨hw.hasMachine (h.listed link hlink).1, (h.listed link hlink).2⟩
  · rw [hattached, hroot]
    intro link m' hm'
    cases hm : w.machine? link with
    | some m => rw [hw.registered link m m' hm hm', h.known link m hm]
    | none =>
      -- A new machine is registered nowhere, and it is not on a list of machines that were there.
      rw [hw.fresh link m' hm hm']
      refine iff_of_false (by simp) ?_
      rintro (rfl | hlisted)
      · obtain ⟨m, hm₀⟩ := h.root
        rw [hm₀] at hm
        cases hm
      · obtain ⟨⟨m, hm₀⟩, -⟩ := h.listed link hlisted
        rw [hm₀] at hm
        cases hm

/-- `Consistent` is kept by `Passes`. -/
theorem Consistent.of_passes (h : w.Consistent number) (hw : w.Passes kept w') :
    w'.Consistent number := by
  obtain ⟨e, he, hregisters⟩ := h
  obtain ⟨e', he', hroot, -⟩ := hw.engine number e he
  exact ⟨e', he', hregisters.of_passes hw hroot (hw.attached number e e' he he')⟩

/-- `Registers` depends on `cells` alone. -/
theorem Registers.of_cells (h : w.Registers number e) (hcells : w'.cells = w.cells) :
    w'.Registers number e := by
  have hmachine := machine?_of_cells hcells
  refine ⟨?root, ?listed, ?known⟩
  case root =>
    rw [HasMachine, hmachine]
    exact h.root
  case listed =>
    intro link hlink
    rw [HasMachine, hmachine]
    exact h.listed link hlink
  case known =>
    rw [hmachine]
    exact h.known

/-- `Consistent` depends on `cells` and `engines` alone. -/
theorem Consistent.of_eq (h : w.Consistent number) (hcells : w'.cells = w.cells)
    (hengines : w'.engines = w.engines) : w'.Consistent number := by
  obtain ⟨e, he, hregisters⟩ := h
  exact ⟨e, hengines ▸ he, hregisters.of_cells hcells⟩

/-- `InLine` depends on `cells` and `engines` alone. -/
theorem InLine.of_eq (h : w.InLine number) (hcells : w'.cells = w.cells)
    (hengines : w'.engines = w.engines) : w'.InLine number := by
  obtain ⟨e, he, hregisters, hlist⟩ := h
  exact ⟨e, hengines ▸ he, hregisters.of_cells hcells, by rw [hlist, chain_of_cells hcells]⟩

/-- **`InLine` is kept by `Passes` if and only if `activeLinks e` are the same.** -/
theorem InLine.of_passes_iff (h : w.InLine number) (hw : w.Passes kept w') {e : Engine}
    (he : w.engines[number]? = some e) :
    w'.InLine number ↔ w'.activeLinks e = w.activeLinks e := by
  obtain ⟨e₀, he₀, hregisters, hlist⟩ := h
  rw [he] at he₀
  cases he₀
  obtain ⟨e', he', hroot, hconfig⟩ := hw.engine number e he
  have hattached := hw.attached number e e' he he'
  -- The list is what it was, so that it is a matter of the chain alone.
  have hlinks : e'.attached = (w'.chain e').map (·.link) ↔ w'.activeLinks e = w.activeLinks e := by
    rw [chain_congr hroot hconfig, hattached, hlist, activeLinks, activeLinks, List.cons_inj_right,
      eq_comm]
  rw [← hlinks]
  constructor
  · rintro ⟨e₁, he₁, -, hlist₁⟩
    rw [he'] at he₁
    cases he₁
    exact hlist₁
  · exact fun hlist' => ⟨e', he', hregisters.of_passes hw hroot hattached, hlist'⟩

/-- `InLine` is kept by `Passes` if no machine moves. -/
theorem InLine.of_passes (h : w.InLine number) (hw : w.Tidy settings)
    (hpasses : w.Passes (fun _ => True) w') : w'.InLine number := by
  have hlines := h
  obtain ⟨e, he, hregisters, -⟩ := hlines
  rw [h.of_passes_iff hpasses he]
  exact hpasses.activeLinks_eq hw hregisters.root fun _ _ => trivial

/-- In a tidy world `link ∈ items` if and only if its identity is among theirs. -/
theorem Tidy.mem_map_id? (hw : w.Tidy settings) (hitems : ∀ link ∈ items, w.HasMachine link)
    (hlink : w.HasMachine link) : w.id? link ∈ items.map w.id? ↔ link ∈ items := by
  constructor
  · intro hmem
    obtain ⟨other, hother, heq⟩ := List.mem_map.1 hmem
    obtain ⟨m, hm⟩ := hlink
    obtain ⟨m', hm'⟩ := hitems other hother
    rw [id?_of_machine? hm, id?_of_machine? hm', Option.some.injEq] at heq
    rwa [← hw.distinct other link m' m hm' hm heq]
  · exact List.mem_map_of_mem

/-- **`Registers` for another list**: `Enlists` with `false` for those that left it, then with
`true` for those that are new. -/
theorem Registers.relist {w₁ w₂ w₃ : World ρ γ} {links : List Link}
    (h : w.Registers number e) (hw : w.Tidy settings)
    (hlinks : ∀ link ∈ links, w.HasMachine link ∧ link ≠ e.root)
    (hw₁ : w₁.machine? = w.machine?)
    (hleave : w₁.Enlists settings number false
      (e.attached.filter fun link => w.id? link ∉ links.map w.id?) w₂)
    (hjoin : w₂.Enlists settings number true
      (links.filter fun link => w.id? link ∉ e.attached.map w.id?) w₃)
    (hroot : e'.root = e.root) (hattached : e'.attached = links) :
    w₃.Registers number e' := by
  have hstays := hleave.stays.trans hjoin.stays
  have hhas : ∀ link, w.HasMachine link → w₃.HasMachine link := by
    intro link hlink
    refine hstays.hasMachine ?_
    rwa [HasMachine, hw₁]
  refine ⟨hroot ▸ hhas _ h.root, ?_, ?_⟩
  · rw [hattached, hroot]
    exact fun link hlink => ⟨hhas link (hlinks link hlink).1, (hlinks link hlink).2⟩
  · intro link m₃ hm₃
    obtain ⟨m₂, hm₂, hengine₃⟩ := hjoin.machine link m₃ hm₃
    obtain ⟨m, hm, hengine₂⟩ := hleave.machine link m₂ hm₂
    rw [hw₁] at hm
    have hchain := hw.mem_map_id? (fun link hlink => (hlinks link hlink).1) ⟨m, hm⟩
    have hlist := hw.mem_map_id? (fun link hlink => (h.listed link hlink).1) ⟨m, hm⟩
    have hknown := h.known link m hm
    rw [hengine₃, hengine₂, hroot, hattached]
    simp only [List.mem_filter, decide_eq_true_eq, hchain, hlist, enlistedAt]
    -- What matters is whether the machine is on the old list and whether it is on the new one.
    by_cases hnew : link ∈ links
    · by_cases hold : link ∈ e.attached
      · simp [hnew, hold, hknown]
      · simp [hnew, hold]
    · by_cases hold : link ∈ e.attached
      · simp [hnew, hold, (h.listed link hold).2]
      · simp [hnew, hold, hknown]

/-- **`Registers.relist` for the engine `number`.** -/
theorem Consistent.relist {w₁ w₂ w₃ : World ρ γ} (h : w.Consistent number) (hw : w.Tidy settings)
    (he : w.engines[number]? = some e)
    (hlinks : ∀ link ∈ links, w.HasMachine link ∧ link ≠ e.root)
    (hmachine : w₁.machine? = w.machine?)
    (he₁ : w₁.engines[number]? = some { e with attached := links })
    (hleave : w₁.Enlists settings number false
      (e.attached.filter fun link => w.id? link ∉ links.map w.id?) w₂)
    (hjoin : w₂.Enlists settings number true
      (links.filter fun link => w.id? link ∉ e.attached.map w.id?) w₃) :
    ∃ e₃ : Engine, w₃.engines[number]? = some e₃ ∧ e₃.root = e.root ∧ e₃.config = e.config ∧
      e₃.attached = links ∧ w₃.Registers number e₃ := by
  obtain ⟨e₀, he₀, hbefore⟩ := h
  rw [he] at he₀
  cases he₀
  obtain ⟨e₂, he₂, hroot₂, hconfig₂⟩ := hleave.stays.engine number _ he₁
  obtain ⟨e₃, he₃, hroot₃, hconfig₃⟩ := hjoin.stays.engine number e₂ he₂
  have hattached : e₃.attached = links :=
    (hjoin.attached number e₂ e₃ he₂ he₃).trans (hleave.attached number _ e₂ he₁ he₂)
  exact ⟨e₃, he₃, hroot₃.trans hroot₂, hconfig₃.trans hconfig₂, hattached,
    hbefore.relist hw hlinks hmachine hleave hjoin (hroot₃.trans hroot₂) hattached⟩

/-- No link of `items` is new if `items` and `known` have the same identities. -/
theorem filter_id?_eq_nil {items known : List Link} (h : items.map w.id? = known.map w.id?) :
    items.filter (fun link => w.id? link ∉ known.map w.id?) = [] := by
  rw [List.filter_eq_nil_iff]
  intro link hlink
  rw [← h]
  simpa using ⟨link, hlink, rfl⟩

/-- **`Consistent` for a new engine**, which its root alone has for `engine?`. -/
theorem EnginesKnown.consistent {root : Link} {config : HierarchyConfig}
    {m : Machine (StatePlan ρ)} (h : w.EnginesKnown)
    (hmachine : ∀ link, w'.machine? link =
      if link = root then some { m with engine? := some w.engines.size } else w.machine? link)
    (he : w'.engines[w.engines.size]? = some { root, config }) :
    w'.Consistent w.engines.size := by
  have hroot : w'.HasMachine root := ⟨_, (hmachine root).trans (if_pos rfl)⟩
  refine ⟨_, he, hroot, by rintro _ ⟨⟩, fun link m' hm' => ?_⟩
  rw [hmachine] at hm'
  by_cases hlink : link = root
  · rw [if_pos hlink] at hm'
    cases hm'
    exact iff_of_true rfl (Or.inl hlink)
  · rw [if_neg hlink] at hm'
    -- The number is a new one, so nobody is registered with it.
    refine iff_of_false (fun hengine => ?_) ?_
    · exact Nat.lt_irrefl _ (h link m' _ hm' hengine)
    · rintro (heq | ⟨⟨⟩⟩)
      exact hlink heq

/-- **The engine `number` has the root and the settings of `e`.** -/
def Routes (number : Nat) (e : Engine) (w : World ρ γ) : Prop :=
  ∃ e' : Engine, w.engines[number]? = some e' ∧ e'.root = e.root ∧ e'.config = e.config

/-- `Routes` is kept by `Stays`. -/
theorem Stays.routes (h : w.Stays kept w') (he : w.Routes number e) : w'.Routes number e := by
  obtain ⟨e₁, he₁, hroot₁, hconfig₁⟩ := he
  obtain ⟨e₂, he₂, hroot₂, hconfig₂⟩ := h.engine number e₁ he₁
  exact ⟨e₂, he₂, hroot₂.trans hroot₁, hconfig₂.trans hconfig₁⟩

end World

namespace Act

/-! ## Bringing the list in line -/

/-- `updateEngine number f` is `Idles`, if `f` keeps `root`, `config` and `attached`. -/
theorem gives_updateEngine {f : Engine → Engine} (hw : w.Tidy settings)
    (hf : ∀ e : Engine, w.engines[number]? = some e → (f e).root = e.root ∧
      (f e).config = e.config ∧ (f e).attached = e.attached) :
    Gives total (updateEngine number f) w fun (_ : Unit) w' => w.Idles settings w' :=
  gives_modify ⟨hw.of_eq rfl rfl (Nat.le_refl _), .updateEngine hf⟩

/-- **`call` is `Enlists` for one machine.** -/
theorem gives_call (hw : w.Tidy settings) :
    Gives total (call host number isJoining link) w fun _ w' =>
      w.Enlists settings number isJoining [link] w' := by
  rw [call]
  refine gives_get ?_
  cases hid : w.id? link with
  | none =>
    -- Where nothing is no machine can be registered.
    refine gives_pure ⟨hw, .refl _ w, fun other m hm => ⟨m, hm, ?_⟩, ?_⟩
    · rw [if_neg]
      rintro hmem
      rw [List.mem_singleton.1 hmem] at hm
      rw [World.id?_of_machine? hm] at hid
      cases hid
    · intro n e e' he he'
      rw [he] at he'
      cases he'
      rfl
  | some id =>
    obtain ⟨m, hm, rfl⟩ := hw.exists_machine hid
    have hnote : Gives total (updateEngine number fun e => { e with
        calls := (m.id, isJoining) :: e.calls } : Act ρ γ Unit) w fun _ w' =>
        w' = { w with engines := w.engines.modify number fun e => { e with
          calls := (m.id, isJoining) :: e.calls } } := gives_modify rfl
    refine gives_bind hnote ?_
    rintro _ _ rfl
    have hm₁ : { w with engines := w.engines.modify number fun e => { e with
        calls := (m.id, isJoining) :: e.calls } }.machine? link = some m := hm
    cases isJoining with
    | true =>
      rw [if_pos rfl, attach]
      refine gives_get ?_
      simp only [hm₁]
      refine ends_setCell.gives.mono ?_
      rintro _ _ rfl
      exact .one hw hm fun e _ => ⟨rfl, rfl, rfl⟩
    | false =>
      rw [if_neg Bool.false_ne_true, detach]
      refine gives_get ?_
      simp only [hm₁]
      refine ends_setCell.gives.mono ?_
      rintro _ _ rfl
      exact .one hw hm fun e _ => ⟨rfl, rfl, rfl⟩

/-- **`items.forM call` is `Enlists` for `items`.** -/
theorem gives_forM_call (hw : w.Tidy settings) (items : List Link) :
    Gives total (items.forM (call host number isJoining)) w fun _ w' =>
      w.Enlists settings number isJoining items w' := by
  induction items generalizing w with
  | nil => exact gives_pure (.refl hw)
  | cons link rest ih =>
    refine gives_bind (gives_call hw) fun _ w₁ hw₁ => ?_
    exact (ih hw₁.tidy).mono fun _ w₂ hw₂ => hw₁.trans hw₂

/-- `graph` is `Idles`. -/
theorem gives_graph (hw : w.Tidy settings) :
    Gives total (graph number) w fun _ w' => w.Idles settings w' := by
  rw [graph]
  refine gives_get ?_
  split
  · exact gives_pure (.refl hw)
  · rename_i e he
    split
    · exact gives_pure (.refl hw)
    · have hset : Gives total (set { w with graphs := w.graphs + 1 } : Act ρ γ Unit) w fun _ w' =>
          w.Idles settings w' :=
        gives_modify ⟨hw.of_eq rfl rfl (Nat.le_refl _), .of_eq rfl rfl rfl rfl⟩
      refine gives_bind hset fun _ w₁ hw₁ => ?_
      refine gives_bind (gives_updateEngine hw₁.1 fun e _ => ⟨rfl, rfl, rfl⟩) fun _ w₂ hw₂ => ?_
      exact gives_pure (hw₁.trans hw₂)

/-- `redraw` is `Idles`. -/
theorem gives_redraw (hhost : host.IsCalm settings total) (hw : w.Tidy settings) :
    Gives total (redraw host number) w fun _ w' => w.Idles settings w' := by
  rw [redraw]
  refine gives_bind (gives_updateEngine hw fun e _ => ⟨rfl, rfl, rfl⟩) fun _ w₁ hw₁ => gives_get ?_
  split
  · exact gives_pure hw₁
  · split
    · refine gives_bind (gives_graph hw₁.1) fun graph? w₂ hw₂ => ?_
      have hw₁₂ := hw₁.trans hw₂
      cases graph? with
      | none => exact gives_pure hw₁₂
      | some drawn =>
        refine gives_forM hw₁₂ fun _ _ w₃ hw₃ => ?_
        exact (hhost.redrawn drawn.2 w₃ hw₃.1).mono fun _ _ hw₄ => hw₃.trans hw₄
    · exact gives_pure hw₁

/-- **`sync` gives `InLine` where `Consistent` holds**, and moves no machine, so that
`activeLinks e` stay the same. -/
theorem gives_sync (hhost : host.IsCalm settings total) (hw : w.Tidy settings)
    (he : w.Routes number e) (hroot : w.HasMachine e.root) :
    Gives total (sync host number) w fun levels w' => levels = w.chain e ∧ w'.Tidy settings ∧
      w.Stays (fun _ => True) w' ∧ w'.activeLinks e = w.activeLinks e ∧
      (w.Consistent number → w'.InLine number) := by
  obtain ⟨e', he', heroot, heconfig⟩ := he
  have hchain := World.chain_congr (w := w) heroot heconfig
  have hlinks : ∀ link ∈ (w.chain e).map (·.link), w.HasMachine link ∧ link ≠ e'.root := by
    intro link hlink
    obtain ⟨level, hlevel, rfl⟩ := List.mem_map.1 hlink
    obtain ⟨m, hm, -, hne⟩ := hw.exists_of_mem_chain hlevel
    exact ⟨⟨m, hm⟩, heroot ▸ hne⟩
  -- Where no machine moves, the chain is the same in the end.
  have hend : ∀ w', w.Stays (fun _ => True) w' → w'.activeLinks e = w.activeLinks e := fun w' hw' =>
    hw'.activeLinks_eq hw hroot fun _ _ => trivial
  have hinLine : ∀ w', w.Stays (fun _ => True) w' → ∀ e₁ : Engine, w'.engines[number]? = some e₁ →
      e₁.root = e.root → e₁.config = e.config → e₁.attached = (w.chain e).map (·.link) →
      w'.Registers number e₁ → w'.InLine number := by
    intro w' hw' e₁ he₁ hroot₁ hconfig₁ hlist hregisters
    refine ⟨e₁, he₁, hregisters, ?_⟩
    rw [hlist, World.chain_congr hroot₁ hconfig₁]
    exact (List.cons.inj (hend w' hw')).2.symm
  rw [sync]
  refine gives_get ?_
  simp only [he', hchain]
  generalize hlist : (w.chain e).map (·.link) = links at hlinks hinLine ⊢
  have hrelist : Gives total (updateEngine number fun e => { e with attached := links } :
      Act ρ γ Unit) w fun _ w' =>
      w' = { w with engines := w.engines.modify number fun e => { e with attached := links } } :=
    gives_modify rfl
  refine gives_bind hrelist ?_
  rintro _ w₁ rfl
  generalize hw₁ : { w with engines := w.engines.modify number fun e => { e with
    attached := links } } = w₁
  have hw₁tidy : w₁.Tidy settings := hw₁ ▸ hw.of_eq rfl rfl (Nat.le_refl _)
  have hw₁stays : w.Stays (fun _ => True) w₁ := hw₁ ▸ .updateEngine fun e _ => ⟨rfl, rfl⟩
  have hw₁machine : w₁.machine? = w.machine? := hw₁ ▸ rfl
  have hw₁engine : w₁.engines[number]? = some { e' with attached := links } := by
    rw [← hw₁]
    show (w.engines.modify number _)[number]? = _
    rw [Array.getElem?_modify, if_pos rfl, he']
    rfl
  have hregisters : ∀ w₂ w₃, w₁.Enlists settings number false
      (e'.attached.filter fun link => w.id? link ∉ links.map w.id?) w₂ →
      w₂.Enlists settings number true
        (links.filter fun link => w.id? link ∉ e'.attached.map w.id?) w₃ →
      w.Consistent number → w₃.InLine number := by
    intro w₂ w₃ hleave hjoin hconsistent
    obtain ⟨e₃, he₃, hroot₃, hconfig₃, hattached, hregisters⟩ :=
      hconsistent.relist hw he' hlinks hw₁machine hw₁engine hleave hjoin
    exact hinLine w₃ (hw₁stays.trans (hleave.stays.trans hjoin.stays)) e₃ he₃
      (hroot₃.trans heroot) (hconfig₃.trans heconfig) hattached hregisters
  split
  · refine gives_bind (gives_forM_call hw₁tidy _) fun _ w₂ hw₂ => ?_
    refine gives_bind (gives_forM_call hw₂.tidy _) fun _ w₃ hw₃ => ?_
    refine gives_bind (gives_redraw hhost hw₃.tidy) fun _ w₄ hw₄ => gives_pure ?_
    have hstays₃ := hw₁stays.trans (hw₂.stays.trans hw₃.stays)
    have hstays₄ := hstays₃.trans hw₄.2.toStays
    refine ⟨rfl, hw₄.1, hstays₄, hend w₄ hstays₄, fun hbefore => ?_⟩
    exact (hregisters w₂ w₃ hw₂ hw₃ hbefore).of_passes hw₃.tidy hw₄.2
  · rename_i hsame
    -- Nobody has left and nobody has joined.
    have hsame : links.map w.id? = e'.attached.map w.id? := not_not.1 hsame
    have hleave : w₁.Enlists settings number false
        (e'.attached.filter fun link => w.id? link ∉ links.map w.id?) w₁ := by
      rw [World.filter_id?_eq_nil hsame.symm]
      exact .refl hw₁tidy
    have hjoin : w₁.Enlists settings number true
        (links.filter fun link => w.id? link ∉ e'.attached.map w.id?) w₁ := by
      rw [World.filter_id?_eq_nil hsame]
      exact .refl hw₁tidy
    exact gives_pure ⟨rfl, hw₁tidy, hw₁stays, hend w₁ hw₁stays, hregisters w₁ w₁ hleave hjoin⟩

/-! ## Opening an engine -/

/-- **`openEngine` gives `InLine`** for the new engine. -/
theorem gives_openEngine (hhost : host.IsCalm settings total) {root : Link}
    {config : HierarchyConfig} (hw : w.Tidy settings) (hroot : w.HasMachine root)
    (hengines : w.EnginesKnown) :
    Gives total (openEngine host root config) w fun number w' => number = w.engines.size ∧
      w'.Tidy settings ∧ w'.busy = w.busy ∧ w'.InLine number ∧
      ∃ e, w'.engines[number]? = some e ∧ e.root = root ∧ e.config = config := by
  obtain ⟨m, hm⟩ := hroot
  rw [openEngine]
  have hpush : Gives total (modifyGet fun w =>
      (w.engines.size, { w with engines := w.engines.push { root, config } }) : Act ρ γ Nat) w
      fun number w' => number = w.engines.size ∧
        w' = { w with engines := w.engines.push { root, config } } :=
    ⟨fun _ => rfl, by rintro _ _ ⟨⟩; exact ⟨rfl, rfl⟩⟩
  refine gives_bind hpush ?_
  rintro _ _ ⟨rfl, rfl⟩
  generalize hw₁ : { w with engines := w.engines.push { root, config } } = w₁
  have hw₁tidy : w₁.Tidy settings := hw₁ ▸ hw.of_eq rfl rfl (Nat.le_refl _)
  have hw₁machine : w₁.machine? = w.machine? := hw₁ ▸ rfl
  have hm₁ : w₁.machine? root = some m := hw₁machine ▸ hm
  have hattach : Gives total (attach host w.engines.size root) w₁ fun _ w' =>
      w' = w₁.setCell root (.machine { m with engine? := some w.engines.size }) := by
    rw [attach]
    refine gives_get ?_
    simp only [hm₁]
    exact ends_setCell.gives
  refine gives_bind hattach ?_
  rintro _ w₂ rfl
  generalize hw₂ : w₁.setCell root (.machine { m with engine? := some w.engines.size }) = w₂
  have hw₂machine : ∀ link, w₂.machine? link =
      if link = root then some { m with engine? := some w.engines.size } else w.machine? link := by
    intro link
    rw [← hw₂, World.machine?_setCell hm₁, hw₁machine]
  have hw₂tidy : w₂.Tidy settings :=
    hw₂ ▸ hw₁tidy.setCell hm₁ rfl ((hw₁tidy.fits root m hm₁).of_parts rfl rfl rfl)
      (hw₁tidy.children root m hm₁)
  have hroot₂ : w₂.HasMachine root := ⟨_, (hw₂machine root).trans (if_pos rfl)⟩
  have he₂ : w₂.engines[w.engines.size]? = some { root, config } := by
    rw [← hw₂, ← hw₁]
    exact Array.getElem?_push_size
  have hconsistent := hengines.consistent hw₂machine he₂
  have hroutes : w₂.Routes w.engines.size { root, config } := ⟨_, he₂, rfl, rfl⟩
  have hsync : Gives total (discard (sync host w.engines.size)) w₂ fun _ w' => w'.Tidy settings ∧
      w₂.Stays (fun _ => True) w' ∧ w'.InLine w.engines.size :=
    gives_discard <| (gives_sync hhost hw₂tidy hroutes hroot₂).mono fun _ _ hw' =>
      ⟨hw'.2.1, hw'.2.2.1, hw'.2.2.2.2 hconsistent⟩
  refine gives_bind hsync ?_
  rintro _ w₃ ⟨hw₃, hstays, hinLine⟩
  have hbusy : w₂.busy = w.busy := by
    rw [← hw₂, ← hw₁]
    rfl
  exact gives_pure ⟨rfl, hw₃, hstays.busy.trans hbusy, hinLine, hstays.routes hroutes⟩

/-- **`wrap` gives `InLine`** for the new engine, which is in use. -/
theorem gives_wrap (hhost : host.IsCalm settings total) {root : Link} {config : HierarchyConfig}
    (hw : w.Tidy settings) (hroot : w.HasMachine root) (hengines : w.EnginesKnown) :
    Gives total (wrap host root config) w fun _ w' => w'.Tidy settings ∧
      w'.tree? = some w.engines.size ∧ w'.busy = w.busy ∧ w'.InLine w.engines.size ∧
      ∃ e, w'.engines[w.engines.size]? = some e ∧ e.root = root ∧ e.config = config := by
  rw [wrap]
  refine gives_bind (gives_openEngine hhost hw hroot hengines) ?_
  rintro _ w₁ ⟨rfl, hw₁, hbusy, hinLine, hengine⟩
  exact gives_modify ⟨hw₁.of_eq rfl rfl (Nat.le_refl _), rfl, hbusy, hinLine.of_eq rfl rfl, hengine⟩

end Act

/-- `Surroundings.quiet` is tame. -/
theorem Surroundings.isTame_quiet (depth : Nat) :
    ((quiet : Surroundings ρ γ).host (depth + 1)).IsTame settings total :=
  ⟨⟨fun _ _ _ hw => Act.gives_pure (.refl hw), fun _ _ hw => Act.gives_pure (.refl hw)⟩,
    fun _ _ _ hw => Act.gives_pure (.refl hw)⟩

end Statechart
