import Statechart.Proofs.Delivery
import Statechart.Proofs.Echo
import Statechart.Proofs.Shape.Drawing

/-! # The graph that is kept

An engine keeps the graph of its chain until other children are on the chain. Meanwhile a machine of
the chain may well move, and then the graph that is kept may be the graph of how things were.

* `World.SparesEngines`, `Host.SparesEngines`: no graph is drawn by those who are told of a change.
* `World.UpToDate`: if a graph is kept, it is the one that would be drawn.
* `Act.gives_sync_upToDate`: where other children are on the chain, what is kept is up to date.
* `World.KeepsGraph`, `Act.gives_perform_keepsGraph`: what a domain event does to the graph.
* `World.KeepsGraph.upToDate`: a graph that is kept stays up to date while those machines that have
  another one below them stand where they stood.
* **`World.Viewed`**, **`World.Viewed.graph_eq`**: when a graph is up to date, whatever domain
  events have been sent and however often it has been looked at.
* `World.kiosk_graph_outdated`: graphs that are not up to date, one for each condition. -/

namespace Statechart

variable {ρ γ : Type} {settings : MachineConfig → Prop} {host : Host ρ γ} {kept : Link → Prop}
  {w w' w'' before : World ρ γ} {e e' : Engine} {number : Nat} {root : Link} {event : Event}
  {config : HierarchyConfig}

/-- **Engines are spared** between `w` and `w'`: each of them keeps its root, its settings and its
list, and no graph is drawn, so that what is kept in `graph?` has been kept before. -/
def World.SparesEngines (w w' : World ρ γ) : Prop :=
  ∀ (number : Nat) (e : Engine), w.engines[number]? = some e →
    ∃ e' : Engine, w'.engines[number]? = some e' ∧ e'.root = e.root ∧ e'.config = e.config ∧
      e'.attached = e.attached ∧ ∀ drawn, e'.graph? = some drawn → e.graph? = some drawn

/-- `SparesEngines` holds if `engines` are the same. -/
theorem World.SparesEngines.of_eq (hengines : w'.engines = w.engines) : w.SparesEngines w' :=
  fun number e he => ⟨e, (congrArg (·[number]?) hengines).trans he, rfl, rfl, rfl, fun _ h => h⟩

/-- `SparesEngines` is transitive. -/
theorem World.SparesEngines.trans (h : w.SparesEngines w') (h' : w'.SparesEngines w'') :
    w.SparesEngines w'' := by
  intro number e he
  obtain ⟨e', he', hroot, hconfig, hattached, hgraph⟩ := h number e he
  obtain ⟨e'', he'', hroot', hconfig', hattached', hgraph'⟩ := h' number e' he'
  exact ⟨e'', he'', hroot'.trans hroot, hconfig'.trans hconfig, hattached'.trans hattached,
    fun drawn hdrawn => hgraph drawn (hgraph' drawn hdrawn)⟩

/-- **The surroundings spare the engines.** Whoever is told of a `Change` does not read the graph
(`World.SparesEngines`), and neither does a subscriber that comes with a machine. Whoever is told of
a new graph may read it: an engine that has a graph keeps it. -/
structure Host.SparesEngines (host : Host ρ γ) : Prop where
  observe : ∀ subscriber change w,
    Act.Gives False (host.observe subscriber change) w fun _ w' => w.SparesEngines w'
  enrol : host.IsCivil
  redrawn : ∀ graph w, Act.Gives False (host.redrawn graph) w fun _ w' =>
    ∀ (number : Nat) (e e' : Engine), w.engines[number]? = some e → e.graph?.isSome = true →
      w'.engines[number]? = some e' → e'.graph? = e.graph?

/-! ## Graphs that are up to date -/

namespace World

/-- **What the engine `number` keeps in `graph?` is up to date**: it is `Act.drawGraph w e`. -/
def UpToDate (number : Nat) (w : World ρ γ) : Prop :=
  ∀ e drawn, w.engines[number]? = some e → e.graph? = some drawn → drawn.2 = Act.drawGraph w e

/-- `UpToDate` depends on `cells` and `engines` alone. -/
theorem UpToDate.of_eq (h : w.UpToDate number) (hcells : w'.cells = w.cells)
    (hengines : w'.engines = w.engines) : w'.UpToDate number := by
  intro e drawn he hdrawn
  rw [hengines] at he
  rw [Act.drawGraph_congr hcells rfl rfl]
  exact h e drawn he hdrawn

/-- `UpToDate` is kept if every machine `Stays` and `graph?` is the same. -/
theorem UpToDate.of_stays (h : w.UpToDate number) (hw : w.Tidy settings) (hw' : w'.Tidy settings)
    (he : w.engines[number]? = some e) (hroot : w.HasMachine e.root)
    (hstays : w.Stays (fun _ => True) w')
    (hgraph : ∀ e', w'.engines[number]? = some e' → e'.graph? = e.graph?) :
    w'.UpToDate number := by
  intro e' drawn he' hdrawn
  obtain ⟨_, he₁, heroot, heconfig⟩ := hstays.engine number e he
  rw [he'] at he₁
  cases he₁
  rw [Act.drawGraph_congr rfl heroot heconfig, hstays.drawGraph_eq hw hw' hroot]
  exact h e drawn he (hgraph e' he' ▸ hdrawn)

/-- **A graph is kept** from `w` to `w'`: `activeLinks e` are the same, and what the engine keeps in
`graph?` is `Act.drawGraph w e`, the graph of `w`. -/
structure KeepsGraph (number : Nat) (e : Engine) (w w' : World ρ γ) : Prop where
  links : w'.activeLinks e = w.activeLinks e
  engine : ∃ e' : Engine, w'.engines[number]? = some e' ∧ e'.root = e.root ∧
    e'.config = e.config ∧ ∀ drawn, e'.graph? = some drawn → drawn.2 = Act.drawGraph w e

/-- `KeepsGraph` depends on `cells` and on the later `engines` alone. -/
theorem KeepsGraph.of_eq {w₁ w₂ : World ρ γ} (h : w.KeepsGraph number e w')
    (hcells : w₁.cells = w.cells) (hcells' : w₂.cells = w'.cells)
    (hengines' : w₂.engines = w'.engines) : w₁.KeepsGraph number e w₂ := by
  obtain ⟨e', he', heroot, heconfig, hgraph⟩ := h.engine
  refine ⟨?_, e', by rw [hengines', he'], heroot, heconfig, fun drawn hdrawn => ?_⟩
  · rw [activeLinks, activeLinks, chain_of_cells hcells, chain_of_cells hcells']
    exact h.links
  · rw [hgraph drawn hdrawn]
    exact (Act.drawGraph_congr hcells rfl rfl).symm

/-- **Machines with another one below them stand where they stood**, `(activeKeys e).dropLast`, if
`activeLinks e` are the same. -/
def Steady (e : Engine) (w w' : World ρ γ) : Prop :=
  w'.activeLinks e = w.activeLinks e → (w'.activeKeys e).dropLast = (w.activeKeys e).dropLast

instance (e : Engine) (w w' : World ρ γ) : Decidable (w.Steady e w') :=
  inferInstanceAs (Decidable (_ → _))

/-- `activeLinks e` depends on `e.root` and `e.config` alone. -/
theorem activeLinks_congr (hroot : e'.root = e.root) (hconfig : e'.config = e.config) :
    w.activeLinks e' = w.activeLinks e := by
  rw [activeLinks, activeLinks, chain_congr hroot hconfig, hroot]

/-- `Steady e` depends on `e.root` and `e.config` alone. -/
theorem Steady.congr (h : w.Steady e w') (hroot : e'.root = e.root)
    (hconfig : e'.config = e.config) : w.Steady e' w' := by
  simp only [Steady, activeKeys, activeLinks, chain_congr hroot hconfig, hroot]
  exact h

/-- `IsRegistered e` depends on `e.root` and `e.config` alone. -/
theorem IsRegistered.congr (h : w.IsRegistered e) (hroot : e'.root = e.root)
    (hconfig : e'.config = e.config) : w.IsRegistered e' := by
  rw [IsRegistered, activeLinks_congr hroot hconfig]
  exact h

/-- `IsRegistered` is kept if every machine `Stays`. -/
theorem Stays.isRegistered (h : w.Stays (fun _ => True) w') (hw : w.Tidy settings)
    (hroot : w.HasMachine e.root) (hregistered : w.IsRegistered e) : w'.IsRegistered e := by
  intro link hlink m' hm'
  rw [h.activeLinks_eq hw hroot fun _ _ => trivial] at hlink
  obtain ⟨m, hm⟩ := hw.hasMachine_of_mem hroot hlink
  obtain ⟨_, hm₁, -, hunmoved⟩ := h.machine link m hm
  rw [hm'] at hm₁
  cases hm₁
  have hstays := hunmoved trivial
  obtain ⟨hknown, hmarked⟩ := hregistered link hlink m hm
  exact ⟨by rwa [hstays.current, hstays.factory], by rwa [hstays.current, hstays.factory]⟩

/-- **`KeepsGraph` gives `UpToDate` if the step is `Steady`** and the machines on the chain are in
states that their factories know, before and after it. -/
theorem KeepsGraph.upToDate (h : w.KeepsGraph number e w') (hw : w.Tidy settings)
    (hw' : w'.Tidy settings) (hroot : w.HasMachine e.root) (hparts : w.KeepsParts w')
    (hsteady : w.Steady e w') (hregistered : w.IsRegistered e)
    (hregistered' : w'.IsRegistered e) : w'.UpToDate number := by
  obtain ⟨e', he', heroot, heconfig, hgraph⟩ := h.engine
  intro e₁ drawn he₁ hdrawn
  rw [he'] at he₁
  cases he₁
  rw [Act.drawGraph_congr rfl heroot heconfig, hparts.drawGraph_eq hw hw' hroot h.links
    (hsteady h.links) hregistered hregistered']
  exact hgraph drawn hdrawn

/-- `links` are determined by their identities in a tidy world. -/
theorem Tidy.eq_of_map_id? (hw : w.Tidy settings) {links links' : List Link}
    (hlinks : ∀ link ∈ links, w.HasMachine link) (hlinks' : ∀ link ∈ links', w.HasMachine link)
    (hids : links.map w.id? = links'.map w.id?) : links = links' := by
  induction links generalizing links' with
  | nil => exact (List.map_eq_nil_iff.1 hids.symm).symm
  | cons link rest ih =>
    obtain ⟨link', rest', rfl, hid, hrest⟩ := List.map_eq_cons_iff.1 hids.symm
    obtain ⟨m, hm⟩ := hlinks link List.mem_cons_self
    obtain ⟨m', hm'⟩ := hlinks' link' List.mem_cons_self
    rw [id?_of_machine? hm, id?_of_machine? hm', Option.some.injEq] at hid
    rw [hw.distinct link link' m m' hm hm' hid.symm,
      ih (fun other hother => hlinks other (List.mem_cons_of_mem _ hother))
        (fun other hother => hlinks' other (List.mem_cons_of_mem _ hother)) hrest.symm]

end World

namespace Act

/-! ## Drawing anew -/

/-- **`graph` gives `drawGraph w e` where `UpToDate` holds**, and keeps it. -/
theorem ends_graph (hup : w.UpToDate number) (he : w.engines[number]? = some e) :
    Ends (graph number) w fun drawn? w' => drawn?.map (·.2) = some (drawGraph w e) ∧
      w'.UpToDate number ∧ ∃ e' : Engine, w'.engines[number]? = some e' ∧ e'.graph? = drawn? := by
  rw [graph]
  refine ends_get ?_
  simp only [he]
  -- A graph that is kept is given back as it is. Else one is drawn, and that is what is kept.
  cases hgraph : e.graph? with
  | some known => exact ends_pure ⟨congrArg some (hup e known he hgraph), hup, e, he, hgraph⟩
  | none =>
    let drawn := (w.graphs, drawGraph w e)
    have hset : Ends (do
        set { w with graphs := w.graphs + 1 }
        updateEngine number fun e => { e with graph? := some drawn } : Act ρ γ Unit) w
        fun _ w' => w'.cells = w.cells ∧
          w'.engines = w.engines.modify number fun e => { e with graph? := some drawn } :=
      ⟨_, _, rfl, rfl, rfl⟩
    rw [← bind_assoc]
    refine ends_bind hset ?_
    rintro _ w' ⟨hcells, hengines⟩
    -- Keeping it changes no machine, so that it would still be drawn the same.
    have hkept : w'.engines[number]? = some { e with graph? := some drawn } := by
      rw [hengines, Array.getElem?_modify, if_pos rfl, he]
      rfl
    refine ends_pure ⟨rfl, fun e' known he' hknown => ?_, _, hkept, rfl⟩
    rw [hkept] at he'
    cases he'
    cases hknown
    exact (drawGraph_congr hcells rfl rfl).symm

/-- **`redraw` gives `UpToDate`.** -/
theorem gives_redraw_upToDate (hhost : host.IsCalm settings False) (hspares : host.SparesEngines)
    (hw : w.Tidy settings) (he : w.engines[number]? = some e) (hroot : w.HasMachine e.root) :
    Gives False (redraw host number) w fun _ w' => w'.UpToDate number := by
  have hforget : Gives False (updateEngine number fun e => { e with graph? := none } :
      Act ρ γ Unit) w fun _ w' => w.Idles settings w' ∧
        w'.engines[number]? = some { e with graph? := none } := by
    refine gives_modify ⟨⟨hw.of_eq rfl rfl (Nat.le_refl _), .updateEngine fun _ _ =>
      ⟨rfl, rfl, rfl⟩⟩, ?_⟩
    show (w.engines.modify number _)[number]? = _
    rw [Array.getElem?_modify, if_pos rfl, he]
    rfl
  rw [redraw]
  refine gives_bind hforget ?_
  rintro _ w₁ ⟨hw₁, he₁⟩
  have hup₁ : w₁.UpToDate number := by
    intro e' drawn he' hdrawn
    rw [he₁] at he'
    cases he'
    cases hdrawn
  refine gives_get ?_
  simp only [he₁]
  split
  · have hidles : Gives False (graph number) w₁ fun _ w' => w₁.Idles settings w' :=
      gives_graph hw₁.1
    have hdraws : Gives False (graph number) w₁ fun drawn? w' =>
        w₁.Idles settings w' ∧ w'.UpToDate number ∧
          ∃ e' : Engine, w'.engines[number]? = some e' ∧ e'.graph? = drawn? :=
      ⟨False.elim, fun _ w' hrun =>
        ⟨hidles.2 _ w' hrun, ((ends_graph hup₁ he₁).of_run hrun).2⟩⟩
    refine gives_bind hdraws ?_
    rintro (_ | drawn) w₂ ⟨hw₂, hup₂, e₂, he₂, hknown⟩
    · exact gives_pure hup₂
    · -- Those who watch may read the graph. It is there, so they get the one they are told of.
      obtain ⟨_, he₁', heroot, -⟩ := hw₂.2.engine number _ he₁
      rw [he₂] at he₁'
      cases he₁'
      have hroot₂ : w₂.HasMachine e₂.root := by
        rw [heroot]
        exact hw₂.known _ (hw₁.known _ hroot)
      have htold : Gives False (e.watchers.round.forM fun _ => host.redrawn drawn.2) w₂
          fun _ w' => w₂.Idles settings w' ∧
            ∀ e', w'.engines[number]? = some e' → e'.graph? = e₂.graph? := by
        refine gives_forM ⟨.refl hw₂.1, fun e' he' => ?_⟩ ?_
        · rw [he₂] at he'
          cases he'
          rfl
        · rintro _ _ w₃ ⟨hw₃, hkeeps⟩
          obtain ⟨e₃, he₃, -⟩ := hw₃.2.engine number e₂ he₂
          have hsome : e₃.graph?.isSome = true := by rw [hkeeps e₃ he₃, hknown, Option.isSome_some]
          refine ⟨False.elim, fun _ w' hrun => ⟨?_, fun e' he' => ?_⟩⟩
          · exact hw₃.trans ((hhost.redrawn drawn.2 w₃ hw₃.1).2 _ w' hrun)
          · exact ((hspares.redrawn drawn.2 w₃).2 _ w' hrun number e₃ e' he₃ hsome he').trans
              (hkeeps e₃ he₃)
      exact htold.mono fun _ w₃ hw₃ =>
        hup₂.of_stays hw₂.1 hw₃.1.1 he₂ hroot₂ hw₃.1.2.toStays hw₃.2
  · exact gives_pure hup₁

/-- **`sync` gives `UpToDate`, or it keeps `graph?`**: the second if the chain has the identities of
`e.attached`. -/
theorem gives_sync_upToDate (hhost : host.IsCalm settings False) (hspares : host.SparesEngines)
    (hw : w.Tidy settings) (he : w.engines[number]? = some e) (hroot : w.HasMachine e.root) :
    Gives False (sync host number) w fun _ w' => w'.UpToDate number ∨
      ((w.chain e).map (fun level => w.id? level.link) = e.attached.map w.id? ∧
        ∃ e' : Engine, w'.engines[number]? = some e' ∧ e'.root = e.root ∧ e'.config = e.config ∧
          e'.graph? = e.graph?) := by
  -- The list is renewed first. Only if it was another one does anything else happen.
  have hrelist : Gives False (updateEngine number fun e' => { e' with
      attached := (w.chain e).map (·.link) } : Act ρ γ Unit) w fun _ w' =>
      w.Stays (fun _ => True) w' ∧ w'.Tidy settings ∧
        w'.engines[number]? = some { e with attached := (w.chain e).map (·.link) } := by
    refine gives_modify ⟨.updateEngine fun _ _ => ⟨rfl, rfl⟩, hw.of_eq rfl rfl (Nat.le_refl _), ?_⟩
    show (w.engines.modify number _)[number]? = _
    rw [Array.getElem?_modify, if_pos rfl, he]
    rfl
  rw [sync]
  refine gives_get ?_
  simp only [he]
  refine gives_bind hrelist ?_
  rintro _ w₁ ⟨hstays₁, hw₁, he₁⟩
  split
  · refine gives_bind (gives_forM_call hw₁ _) fun _ w₂ hw₂ => ?_
    refine gives_bind (gives_forM_call hw₂.tidy _) fun _ w₃ hw₃ => ?_
    -- Listeners are moved by calls, which leave the engine with its root. The graph is drawn last.
    have hstays₃ := hw₂.stays.trans hw₃.stays
    obtain ⟨e₃, he₃, heroot, -⟩ := hstays₃.engine number _ he₁
    have hroot₃ : w₃.HasMachine e₃.root := by
      rw [heroot]
      exact (hstays₁.trans hstays₃).hasMachine hroot
    refine gives_bind (gives_redraw_upToDate hhost hspares hw₃.tidy he₃ hroot₃) ?_
    exact fun _ _ hup => gives_pure (.inl hup)
  · rename_i hsame
    refine gives_pure (.inr ⟨?_, _, he₁, rfl, rfl, rfl⟩)
    have hsame := not_not.1 hsame
    rwa [List.map_map] at hsame

end Act

/-! ## What a domain event does -/

/-- **`host` echoes itself in `EchoesOffers`** with the invariant that the world is tidy,
`SparesEngines` and `KeepsParts`. -/
theorem Host.SparesEngines.echoesOffers (hspares : host.SparesEngines)
    (hhost : host.IsTame settings False) :
    host.EchoesOffers (fun w' => w'.Tidy settings ∧ w.SparesEngines w' ∧ w.KeepsParts w')
      host := by
  have hset : ∀ {w₁ : World ρ γ} {link m m'}, w₁.Tidy settings ∧ w.SparesEngines w₁ ∧
      w.KeepsParts w₁ → w₁.machine? link = some m → m.KeepsParts m' →
      m'.current.state.Within w₁.HasMachine →
      (w₁.setCell link (.machine m')).Tidy settings ∧
        w.SparesEngines (w₁.setCell link (.machine m')) ∧
        w.KeepsParts (w₁.setCell link (.machine m')) := by
    rintro w₁ link m m' ⟨hw₁, hspared, hparts⟩ hm hkeeps hchild
    refine ⟨?_, hspared.trans (.of_eq rfl), hparts.trans (.setCell hm hkeeps)⟩
    exact hw₁.setCell hm hkeeps.id
      ((hw₁.fits link m hm).of_parts hkeeps.factory hkeeps.table hkeeps.config) hchild
  refine ⟨Host.Echoes.steps ⟨?observe, ?enter, ?queue, ?note⟩, ?delegate⟩
  case observe =>
    rintro subscriber change w₁ ⟨hw₁, hspared, hparts⟩
    refine Act.Gives.echoes ⟨False.elim, fun _ w' hrun => ?_⟩
    have hidles := (hhost.observe subscriber change w₁ hw₁).2 _ w' hrun
    exact ⟨hidles.1, hspared.trans ((hspares.observe subscriber change w₁).2 _ w' hrun),
      hparts.trans hidles.2.toStays.keepsParts⟩
  case enter =>
    rintro link event w₁ - ⟨hw₁, hspared, hparts⟩
    have hresolve : Act.Gives False (Act.resolve host link event) w₁ fun found? w' =>
        (w'.Tidy settings ∧ w.SparesEngines w' ∧ w.KeepsParts w') ∧
          ∀ found, found? = some found → found.target.Within w'.HasMachine := by
      refine ⟨False.elim, fun found? w' hrun => ?_⟩
      obtain ⟨hidles, hfound⟩ :=
        (Act.gives_resolve hhost.toIsCalm False.elim hw₁).2 found? w' hrun
      have hrests := ((Act.gives_resolve_rests hspares.enrol link event w₁).2 found? w' hrun).1
      exact ⟨⟨hidles.1, hspared.trans (.of_eq hrests.engines),
        hparts.trans hidles.2.toStays.keepsParts⟩, fun found heq => (hfound found heq).1⟩
    refine Act.Gives.echoes (Act.gives_bind hresolve ?_)
    rintro (_ | found) w₂ ⟨hw₂, htarget⟩
    · exact Act.gives_pure hw₂
    · refine Act.gives_get ?_
      split
      · exact Act.gives_pure hw₂
      · rename_i m hm
        refine Act.gives_bind Act.ends_setCell.gives ?_
        rintro _ _ rfl
        exact Act.gives_pure (hset hw₂ hm ⟨rfl, rfl, rfl, rfl⟩ (htarget found rfl))
  case queue =>
    exact fun w₁ link m pending _ hw₁ hm _ =>
      hset hw₁ hm ⟨rfl, rfl, rfl, rfl⟩ (hw₁.1.children link m hm)
  case note =>
    exact fun w₁ link m child inner _ hw₁ hm =>
      hset hw₁ hm ⟨rfl, rfl, rfl, rfl⟩ (hw₁.1.children link m hm)
  case delegate =>
    -- Where there is no machine there is nothing at all.
    intro level event w₁ hw₁ hnone
    have hcell := hw₁.1.cell?_eq_none hnone
    have hrun : (Act.delegate host level event).run w₁ = some (none, w₁) := by
      simp [Act.delegate, Act.send, StateT.run_bind, hcell, World.snapshot?]
    refine Act.Gives.echoes ⟨False.elim, fun _ w' hrun' => ?_⟩
    rw [hrun] at hrun'
    cases hrun'
    exact hw₁

namespace Act

/-- **`sync` gives `KeepsGraph` where `InLine` and `UpToDate` hold.** -/
theorem gives_sync_inLine (hhost : host.IsCalm settings False) (hspares : host.SparesEngines)
    (hw : w.Tidy settings) (hline : w.InLine number) (he : w.engines[number]? = some e)
    (hroot : w.HasMachine e.root) (hup : w.UpToDate number) :
    Gives False (sync host number) w fun levels w' => levels = w.chain e ∧ w'.Tidy settings ∧
      w.Stays (fun _ => True) w' ∧ w'.InLine number ∧ w.KeepsGraph number e w' := by
  refine ⟨False.elim, fun levels w' hrun => ?_⟩
  obtain ⟨hlevels, hw', hstays, -, hline'⟩ :=
    (gives_sync hhost hw ⟨e, he, rfl, rfl⟩ hroot).2 levels w' hrun
  refine ⟨hlevels, hw', hstays, hline' hline.consistent,
    hstays.activeLinks_eq hw hroot fun _ _ => trivial, ?_⟩
  rcases (gives_sync_upToDate hhost hspares hw he hroot).2 levels w' hrun with
    hup' | ⟨-, e', he', heroot, heconfig, hgraph⟩
  · -- What has been drawn anew is what was there before, as no machine has moved.
    obtain ⟨e', he', heroot, heconfig⟩ := hstays.engine number e he
    refine ⟨e', he', heroot, heconfig, fun drawn hdrawn => ?_⟩
    rw [hup' e' drawn he' hdrawn, drawGraph_congr rfl heroot heconfig,
      hstays.drawGraph_eq hw hw' hroot]
  · exact ⟨e', he', heroot, heconfig, fun drawn hdrawn => hup e drawn he (hgraph ▸ hdrawn)⟩

/-- **`sync` after machines have moved gives `UpToDate` or `KeepsGraph`**: the second if
`activeLinks` are those of `before`. -/
theorem gives_sync_again (hhost : host.IsCalm settings False) (hspares : host.SparesEngines)
    (hkeeps : before.KeepsGraph number e w) (hline : w.InLine number) (hw' : w'.Tidy settings)
    (hspared : w.SparesEngines w') (hparts : w.KeepsParts w') :
    Gives False (discard (sync host number)) w' fun _ w'' => w''.Tidy settings ∧
      w'.Stays (fun _ => True) w'' ∧ (w''.UpToDate number ∨ before.KeepsGraph number e w'') := by
  obtain ⟨hsame, e₁, he₁, heroot, heconfig, hgraph⟩ := hkeeps
  obtain ⟨e₀, he₀, hregisters, hlist⟩ := hline
  rw [he₁] at he₀
  cases he₀
  have hhas : ∀ link, w.HasMachine link → w'.HasMachine link := by
    rintro link ⟨m, hm⟩
    obtain ⟨m', hm', -⟩ := hparts link m hm
    exact ⟨m', hm'⟩
  -- The engine may have changed meanwhile, but not in what matters here.
  obtain ⟨e', he', heroot', heconfig', hattached, hgraph'⟩ := hspared number e₁ he₁
  have hroot : w'.HasMachine e'.root := heroot' ▸ hhas _ hregisters.root
  refine gives_discard ⟨False.elim, fun levels w'' hrun => ?_⟩
  obtain ⟨-, hw'', hstays, hactive, -⟩ :=
    (gives_sync hhost hw' ⟨e', he', rfl, rfl⟩ hroot).2 levels w'' hrun
  refine ⟨hw'', hstays, ?_⟩
  rcases (gives_sync_upToDate hhost hspares hw' he' hroot).2 levels w'' hrun with
    hup | ⟨hids, e₂, he₂, heroot₂, heconfig₂, hknown⟩
  · exact .inl hup
  · have heroot₀ := heroot'.trans heroot
    have heconfig₀ := heconfig'.trans heconfig
    refine .inr ⟨?_, e₂, he₂, heroot₂.trans heroot₀, heconfig₂.trans heconfig₀, ?_⟩
    · -- The children that are on the chain now are those that are on the list.
      have hlinks : (w'.chain e').map (·.link) = e'.attached := by
        refine hw'.eq_of_map_id? (fun link hlink => ?_) (fun link hlink => ?_) ?_
        · exact hw'.hasMachine_of_mem hroot (List.mem_cons_of_mem _ hlink)
        · exact hhas link (hregisters.listed link (hattached ▸ hlink)).1
        · rw [← hids, List.map_map]
          rfl
      rw [← hsame, ← World.activeLinks_congr heroot₀ heconfig₀, hactive, World.activeLinks, hlinks,
        hattached, heroot', ← World.activeLinks_congr heroot heconfig, World.activeLinks, hlist]
    · rw [hknown]
      exact fun drawn hdrawn => hgraph drawn (hgraph' drawn hdrawn)

/-- **`handle` gives `UpToDate` or `KeepsGraph`** for every event that is not reserved. -/
theorem gives_handle_keepsGraph (hhost : host.IsTame settings False)
    (hspares : host.SparesEngines) (hw : w.Tidy settings) (hline : w.InLine number)
    (he : w.engines[number]? = some e) (hup : w.UpToDate number)
    (hdomain : event.isReserved = false) :
    Gives False (handle host number event) w fun _ w' => w'.Tidy settings ∧ w.KeepsParts w' ∧
      (w'.UpToDate number ∨ w.KeepsGraph number e w') := by
  have hroot : w.HasMachine e.root := by
    obtain ⟨e₀, he₀, hregisters, -⟩ := hline
    rw [he] at he₀
    cases he₀
    exact hregisters.root
  rw [handle]
  refine gives_get ?_
  simp only [he, hdomain, Bool.false_eq_true, if_false]
  split
  · exact gives_pure ⟨hw, (World.Stays.refl _ w).keepsParts, .inl hup⟩
  · -- At first the list is the chain, so nothing happens to the graph.
    refine gives_bind (gives_sync_inLine hhost.toIsCalm hspares hw hline he hroot hup) ?_
    rintro _ w₁ ⟨rfl, hw₁, hstays₁, hline₁, hkeeps₁⟩
    have hmachines : ∀ level ∈ w.chain e, w₁.HasMachine level.link := by
      intro level hlevel
      obtain ⟨m, hm, -⟩ := hw.exists_of_mem_chain hlevel
      exact hstays₁.hasMachine ⟨m, hm⟩
    have hoffers : host.EchoesOffers (fun w' => w'.Tidy settings ∧ w₁.SparesEngines w' ∧
        w₁.KeepsParts w') host := hspares.echoesOffers hhost
    have hstart : w₁.Tidy settings ∧ w₁.SparesEngines w₁ ∧ w₁.KeepsParts w₁ :=
      ⟨hw₁, .of_eq rfl, (World.Stays.refl _ w₁).keepsParts⟩
    have hattempt : Gives False (attempt host e.root (w.chain e) event) w₁ fun applied? w₂ =>
        (w₂.Tidy settings ∧ w₁.SparesEngines w₂ ∧ w₁.KeepsParts w₂) ∧
          (applied? = none → w₁.Stays (fun _ => True) w₂) := by
      refine ⟨False.elim, fun applied? w₂ hrun => ⟨?_, ?_⟩⟩
      · exact (hoffers.attempt e.root (w.chain e) event hstart).gives.2 applied? w₂ hrun
      · rintro rfl
        cases ((gives_attempt hhost False.elim hw₁ hmachines).2 none w₂ hrun).2 with
        | nobody hdeclined => exact hdeclined.passes.toStays
    refine gives_get (gives_bind hattempt ?_)
    rintro (_ | ⟨depth, outcome⟩) w₂ ⟨hw₂, hidles⟩
    · -- Nobody has an answer, and no machine has moved.
      have hstays := hstays₁.trans (hidles rfl)
      obtain ⟨e₁, he₁, heroot, heconfig, hgraph⟩ := hkeeps₁.engine
      obtain ⟨e₂, he₂, heroot₂, heconfig₂, -, hgraph₂⟩ := hw₂.2.1 number e₁ he₁
      exact gives_pure ⟨hw₂.1, hstays.keepsParts, .inr
        ⟨hstays.activeLinks_eq hw hroot fun _ _ => trivial, e₂, he₂, heroot₂.trans heroot,
          heconfig₂.trans heconfig, fun drawn hdrawn => hgraph drawn (hgraph₂ drawn hdrawn)⟩⟩
    · have hlast : ∀ w₃, w₃.Tidy settings ∧ w₁.SparesEngines w₃ ∧ w₁.KeepsParts w₃ →
          Gives False (do discard (sync host number); return some outcome) w₃ fun _ w' =>
            w'.Tidy settings ∧ w.KeepsParts w' ∧
              (w'.UpToDate number ∨ w.KeepsGraph number e w') := by
        rintro w₃ ⟨hw₃, hspared, hparts⟩
        refine gives_bind (gives_sync_again hhost.toIsCalm hspares hkeeps₁ hline₁ hw₃ hspared
          hparts) ?_
        rintro _ w₄ ⟨hw₄, hstays₄, hgraph⟩
        exact gives_pure ⟨hw₄, hstays₁.keepsParts.trans (hparts.trans hstays₄.keepsParts), hgraph⟩
      refine gives_bind (hoffers.bubble number e depth _ hw₂).gives fun _ w₃ hw₃ => ?_
      split
      · refine gives_bind (hoffers.noteBelow _ _ event w₃ trivial hw₃).gives ?_
        exact fun _ w₄ hw₄ => hlast w₄ hw₄
      · exact hlast w₃ hw₃

/-- `route` gives `UpToDate` or `KeepsGraph`. -/
theorem gives_route_keepsGraph (hhost : host.IsTame settings False)
    (hspares : host.SparesEngines) (hw : w.Tidy settings) (hline : w.InLine number)
    (he : w.engines[number]? = some e) (hup : w.UpToDate number)
    (hdomain : event.isReserved = false) :
    Gives False (route host number event) w fun _ w' => w'.Tidy settings ∧ w.KeepsParts w' ∧
      (w'.UpToDate number ∨ w.KeepsGraph number e w') := by
  have hhandle : Gives False (handle host number event) { w with busy := number :: w.busy }
      fun _ w' => w'.Tidy settings ∧ { w with busy := number :: w.busy }.KeepsParts w' ∧
        (w'.UpToDate number ∨ { w with busy := number :: w.busy }.KeepsGraph number e w') :=
    gives_handle_keepsGraph hhost hspares (hw.of_eq rfl rfl (Nat.le_refl _))
      (hline.of_eq rfl rfl) he (hup.of_eq rfl rfl) hdomain
  refine gives_whileBusy (hhandle.mono ?_)
  rintro _ w' ⟨hw', hparts, hgraph⟩
  refine ⟨hw'.of_eq rfl rfl (Nat.le_refl _), hparts, ?_⟩
  exact hgraph.imp (fun hup' => hup'.of_eq rfl rfl) fun hkeeps => hkeeps.of_eq rfl rfl rfl

/-- **`dispatch` gives `UpToDate` or `KeepsGraph`**, whichever machine gets the event. -/
theorem gives_dispatch_keepsGraph (hhost : host.IsTame settings False)
    (hspares : host.SparesEngines) (h : w.Kept settings number root) (hline : w.InLine number)
    (he : w.engines[number]? = some e) (hup : w.UpToDate number) (link : Link) {event : Event}
    (hdomain : event.isReserved = false) :
    Gives False (dispatch host link event) w fun _ w' => w'.Tidy settings ∧ w.KeepsParts w' ∧
      (w'.UpToDate number ∨ w.KeepsGraph number e w') := by
  by_cases hlink : link ∈ w.activeLinks e
  · exact (gives_route_keepsGraph hhost hspares h.tidy hline he hup hdomain).of_run_eq
      (run_dispatch_of_mem h hline he hlink hdomain)
  · -- A machine off the chain handles the event by itself, and the graph does not show it.
    refine Gives.of_run_eq ⟨False.elim, fun outcome? w' hrun => ?_⟩
      (run_dispatch_of_not_mem h hline he hlink)
    have hoffers : host.EchoesOffers (fun w' => w'.Tidy settings ∧ w.SparesEngines w' ∧
        w.KeepsParts w') host := hspares.echoesOffers hhost
    have hstart : w.Tidy settings ∧ w.SparesEngines w ∧ w.KeepsParts w :=
      ⟨h.tidy, .of_eq rfl, (World.Stays.refl _ w).keepsParts⟩
    obtain ⟨hw', hspared, hparts⟩ :=
      (hoffers.dispatchLocal trivial event hstart).gives.2 outcome? w' hrun
    obtain ⟨-, -, -, hactive⟩ :=
      (lasts_dispatchLocal_of_not_mem hhost h hline he hlink).2 outcome? w' hrun
    obtain ⟨e', he', heroot, heconfig, -, hgraph⟩ := hspared number e he
    exact ⟨hw', hparts, .inr ⟨hactive, e', he', heroot, heconfig, fun drawn hdrawn =>
      hup e drawn he (hgraph drawn hdrawn)⟩⟩

/-- **`Call.perform` gives `UpToDate` or `KeepsGraph`** for every call that is no signal. -/
theorem gives_perform_keepsGraph (hhost : host.IsTame settings False)
    (hspares : host.SparesEngines) (h : w.Kept settings number root) (hline : w.InLine number)
    (he : w.engines[number]? = some e) (hup : w.UpToDate number) {call : Call}
    (hcall : call.isSignal = false) :
    Gives False (call.perform host root) w fun _ w' => w'.Tidy settings ∧ w.KeepsParts w' ∧
      (w'.UpToDate number ∨ w.KeepsGraph number e w') := by
  have hnothing : w.Tidy settings ∧ w.KeepsParts w ∧
      (w.UpToDate number ∨ w.KeepsGraph number e w) :=
    ⟨h.tidy, (World.Stays.refl _ w).keepsParts, .inl hup⟩
  have htree : ∀ event : Event, event.isReserved = false →
      Gives False (dispatchToTree host root event) w fun _ w' => w'.Tidy settings ∧
        w.KeepsParts w' ∧ (w'.UpToDate number ∨ w.KeepsGraph number e w') := fun event hdomain =>
    (gives_route_keepsGraph hhost hspares h.tidy hline he hup hdomain).of_run_eq
      (dispatchToTree_run h)
  have hmachine := fun link (event : Event) (hdomain : event.isReserved = false) =>
    gives_dispatch_keepsGraph hhost hspares h hline he hup link hdomain
  cases call with
  | send name params =>
    rw [Call.perform, sendToTree]
    split
    · exact gives_pure hnothing
    · exact htree _ rfl
  | dispatch event => exact htree event hcall
  | sendTo link name params =>
    rw [Call.perform, sendNamed]
    split
    · exact gives_pure hnothing
    · exact hmachine link _ rfl
  | dispatchTo link event => exact hmachine link event hcall

/-- **`openEngine` gives `UpToDate`** for the new engine. -/
theorem gives_openEngine_upToDate (hhost : host.IsCalm settings False)
    (hspares : host.SparesEngines) (hw : w.Tidy settings) (hroot : w.HasMachine root) :
    Gives False (openEngine host root config) w fun number w' => number = w.engines.size ∧
      w'.UpToDate number := by
  obtain ⟨m, hm⟩ := hroot
  rw [openEngine]
  have hpush : Gives False (modifyGet fun w =>
      (w.engines.size, { w with engines := w.engines.push { root, config } }) : Act ρ γ Nat) w
      fun number w₁ => number = w.engines.size ∧ w₁.Tidy settings ∧ w₁.machine? root = some m ∧
        w₁.engines[number]? = some { root, config } := by
    refine ⟨False.elim, ?_⟩
    rintro _ _ ⟨⟩
    exact ⟨rfl, hw.of_eq rfl rfl (Nat.le_refl _), hm, Array.getElem?_push_size⟩
  refine gives_bind hpush ?_
  rintro number w₁ ⟨rfl, hw₁, hm₁, he₁⟩
  have hattach : Gives False (attach host w.engines.size root) w₁ fun _ w₂ => w₂.Tidy settings ∧
      w₂.HasMachine root ∧ w₂.engines[w.engines.size]? = some { root, config } := by
    rw [attach]
    refine gives_get ?_
    simp only [hm₁]
    refine ends_setCell.gives.mono ?_
    rintro _ _ rfl
    refine ⟨?_, ⟨_, World.machine?_setCell_self hm₁⟩, he₁⟩
    exact hw₁.setCell hm₁ rfl ((hw₁.fits root m hm₁).of_parts rfl rfl rfl)
      (hw₁.children root m hm₁)
  refine gives_bind hattach ?_
  rintro _ w₂ ⟨hw₂, hroot₂, he₂⟩
  have hsync : Gives False (discard (sync host w.engines.size)) w₂ fun _ w' =>
      w'.UpToDate w.engines.size := by
    refine gives_discard ((gives_sync_upToDate hhost hspares hw₂ he₂ hroot₂).mono ?_)
    rintro _ w₃ (hup | ⟨-, e₃, he₃, -, -, hgraph⟩)
    · exact hup
    · -- The engine is a new one, so it knows no graph.
      intro e' drawn he' hdrawn
      rw [he₃] at he'
      cases he'
      rw [hgraph] at hdrawn
      cases hdrawn
  exact gives_bind hsync fun _ w₃ hup => gives_pure ⟨rfl, hup⟩

/-- `wrap` gives `UpToDate` for the new engine. -/
theorem gives_wrap_upToDate (hhost : host.IsCalm settings False) (hspares : host.SparesEngines)
    (hw : w.Tidy settings) (hroot : w.HasMachine root) :
    Gives False (wrap host root config) w fun _ w' => w'.UpToDate w.engines.size := by
  rw [wrap]
  refine gives_bind (gives_openEngine_upToDate hhost hspares hw hroot) ?_
  rintro _ w₁ ⟨rfl, hup⟩
  exact gives_modify (hup.of_eq rfl rfl)

end Act

/-! ## Looking at the graph -/

namespace World

/-- **The worlds that domain events lead to** after `Act.wrap` at `root`, with `Act.graph` in
between, and with other watchers from time to time (`watched`), where `may` holds from each world to
the next. -/
inductive Viewed (may : World ρ γ → World ρ γ → Prop) (host : Host ρ γ) (before : World ρ γ)
    (root : Link) (config : HierarchyConfig) : World ρ γ → Prop
  | wrapped {w : World ρ γ} : (Act.wrap host root config).run before = some ((), w) →
    may before w → World.Viewed may host before root config w
  | called {w w' : World ρ γ} {call : Call} {outcome? : Option Outcome} :
    World.Viewed may host before root config w → call.isSignal = false →
    (call.perform host root).run w = some (outcome?, w') → may w w' →
    World.Viewed may host before root config w'
  | looked {w w' : World ρ γ} {drawn? : Option (Nat × ShapeGraph)} :
    World.Viewed may host before root config w →
    (Act.graph before.engines.size).run w = some (drawn?, w') →
    World.Viewed may host before root config w'
  | watched {w w' : World ρ γ} {watchers : Listeners Unit} :
    World.Viewed may host before root config w →
    (Act.updateEngine before.engines.size fun e => { e with watchers }).run w = some ((), w') →
    World.Viewed may host before root config w'

/-- **The structure shows**: the step is `Steady`, and `IsRegistered` holds after it. -/
structure Shows (e : Engine) (w w' : World ρ γ) : Prop where
  steady : w.Steady e w'
  registered : w'.IsRegistered e

/-- `Kept` gives a machine at `root`. -/
theorem Kept.hasMachine (h : w.Kept settings number root) : w.HasMachine root := by
  obtain ⟨e, -, rfl, -, hroot⟩ := h.exists_engine
  exact hroot

/-- **`UpToDate` holds in every world that is `Viewed`** with `Shows`, by induction along the
run. -/
theorem Viewed.upToDate (hhost : host.IsTame settings False) (hspares : host.SparesEngines)
    (hbefore : before.Tidy settings) (hengines : before.EnginesKnown) (hrest : before.busy = [])
    (hroot : before.HasMachine root)
    (h : World.Viewed (World.Shows { root, config }) host before root config w) :
    w.Kept settings before.engines.size root ∧ w.InLine before.engines.size ∧
      (∃ e, w.engines[before.engines.size]? = some e ∧ e.root = root ∧ e.config = config) ∧
      w.UpToDate before.engines.size ∧ w.IsRegistered { root, config } := by
  -- Besides the graph, the induction carries what a call asks of the world it is made in: that it
  -- is tidy and in line, and that the engine is the one that was made around the root.
  induction h with
  | wrapped hrun hshows =>
    obtain ⟨hkept, hline⟩ := kept_of_wrap hhost.toIsCalm hbefore hengines hrest hroot hrun
    obtain ⟨-, -, -, -, hengine⟩ :=
      (Act.gives_wrap hhost.toIsCalm hbefore hroot hengines).2 () _ hrun
    exact ⟨hkept, hline, hengine,
      (Act.gives_wrap_upToDate hhost.toIsCalm hspares hbefore hroot).2 () _ hrun,
      hshows.registered⟩
  | called _ hcall hrun hshows ih =>
    -- Each of these is what one call keeps.
    obtain ⟨hkept, hline, ⟨e, he, heroot, heconfig⟩, hup, hregistered⟩ := ih
    obtain ⟨hlasts, hline'⟩ := (Act.lasts_perform_of_domain hhost hkept hline hcall).2 _ _ hrun
    obtain ⟨e', he', heroot', heconfig'⟩ := hlasts.stays.engine _ e he
    obtain ⟨-, hparts, hgraph⟩ :=
      (Act.gives_perform_keepsGraph hhost hspares hkept hline he hup hcall).2 _ _ hrun
    refine ⟨hlasts.kept, hline', ⟨e', he', heroot'.trans heroot, heconfig'.trans heconfig⟩, ?_,
      hshows.registered⟩
    rcases hgraph with hup' | hkeeps
    · -- Either the call has the graph drawn anew, or it changes nothing that would be drawn.
      exact hup'
    · exact hkeeps.upToDate hkept.tidy hlasts.kept.tidy (heroot ▸ hkept.hasMachine) hparts
        (hshows.steady.congr heroot heconfig) (hregistered.congr heroot heconfig)
        (hshows.registered.congr heroot heconfig)
  | @looked w w' drawn? _ hrun ih =>
    obtain ⟨hkept, hline, ⟨e, he, heroot, heconfig⟩, hup, hregistered⟩ := ih
    have hidles : w.Idles settings w' := by
      have hgraph : Act.Gives False (Act.graph before.engines.size) w fun _ w' =>
          w.Idles settings w' := Act.gives_graph hkept.tidy
      exact hgraph.2 drawn? w' hrun
    obtain ⟨e', he', heroot', heconfig'⟩ := hidles.2.engine _ e he
    exact ⟨(hkept.lasts_of_idles hidles).kept, hline.of_passes hkept.tidy hidles.2,
      ⟨e', he', heroot'.trans heroot, heconfig'.trans heconfig⟩,
      ((Act.ends_graph hup he).of_run hrun).2.1,
      hidles.2.toStays.isRegistered hkept.tidy hkept.hasMachine hregistered⟩
  | @watched w w' watchers _ hrun ih =>
    obtain ⟨hkept, hline, ⟨e, he, heroot, heconfig⟩, hup, hregistered⟩ := ih
    cases hrun
    let w' : World ρ γ := { w with
      engines := w.engines.modify before.engines.size fun e => { e with watchers } }
    have hidles : w.Idles settings w' :=
      ⟨hkept.tidy.of_eq rfl rfl (Nat.le_refl _), .updateEngine fun _ _ => ⟨rfl, rfl, rfl⟩⟩
    have he' : w'.engines[before.engines.size]? = some { e with watchers } := by
      rw [Array.getElem?_modify, if_pos rfl, he]
      rfl
    have hroot : w.HasMachine e.root := heroot ▸ hkept.hasMachine
    refine ⟨(hkept.lasts_of_idles hidles).kept, hline.of_passes hkept.tidy hidles.2,
      ⟨_, he', heroot, heconfig⟩, ?_,
      hidles.2.toStays.isRegistered hkept.tidy hkept.hasMachine hregistered⟩
    refine hup.of_stays hkept.tidy hidles.1 he hroot hidles.2.toStays fun e₁ he₁ => ?_
    rw [he'] at he₁
    cases he₁
    rfl

/-- **The graph of a hierarchy is up to date** whenever it is looked at. A hierarchy is made around
`root`, and domain events are sent to it and to machines, with looks at the graph in between
(`World.Viewed`). Two conditions are on the subscribers: while they are told something, they leave
the machines and their registrations alone (`Host.IsTame`), and while they are told of a change,
they do not read the graph (`Host.SparesEngines`). The others are on the run (`World.Shows`): an
event with the same `activeLinks` before and after it has the same `activeKeys.dropLast` before and
after it, and every machine of the chain is in a state that its factory knows. Then `Act.graph`
gives `ShapeGraph.ofLevels config.delimiter (w.levelShapes { root, config })`, what is drawn from
what the machines of the chain say of themselves at that time. -/
theorem Viewed.graph_eq (hhost : host.IsTame settings False) (hspares : host.SparesEngines)
    (hbefore : before.Tidy settings) (hengines : before.EnginesKnown) (hrest : before.busy = [])
    (hroot : before.HasMachine root) (config : HierarchyConfig) (w : World ρ γ)
    (h : World.Viewed (World.Shows { root, config }) host before root config w) :
    ∃ e, w.engineInUse? = some (before.engines.size, e) ∧ e.root = root ∧ e.config = config ∧
      Act.Ends (Act.graph before.engines.size) w fun drawn? _ => drawn?.map (·.2) =
        some (.ofLevels config.delimiter (w.levelShapes { root, config })) := by
  obtain ⟨hkept, -, ⟨e, he, heroot, heconfig⟩, hup, -⟩ :=
    h.upToDate hhost hspares hbefore hengines hrest hroot
  refine ⟨e, hkept.engineInUse?_eq he, heroot, heconfig, ?_⟩
  refine (Act.ends_graph hup he).mono fun drawn? _ hdrawn => ?_
  have hsame : Act.drawGraph w { root, config } = Act.drawGraph w e :=
    Act.drawGraph_congr rfl heroot.symm heconfig.symm
  rw [hdrawn.1, ← hsame, hkept.tidy.drawGraph_eq]

end World

/-- `Surroundings.quiet` spares the engines. -/
theorem Surroundings.sparesEngines_quiet (depth : Nat) :
    ((quiet : Surroundings ρ γ).host (depth + 1)).SparesEngines := by
  refine ⟨fun _ _ _ => Act.gives_pure (.of_eq rfl), fun _ _ _ => Act.gives_pure (.refl _),
    fun _ _ => Act.gives_pure fun number e e' he _ he' => ?_⟩
  rw [he] at he'
  cases he'
  rfl

namespace World

/-- `shopOpened` after a look at the graph. -/
def shopShown : World Unit Unit :=
  (Act.graph shopFitted.engines.size).after shopOpened

/-- `shopShown` after `serveCall`, so that the shop is closed. -/
def shopClosed : World Unit Unit :=
  (serveCall.perform (Surroundings.quiet.host 1) ⟨1⟩).after shopShown

/-- `Viewed.graph_eq` for `shopServed`, where the shop has closed after its graph was looked at. -/
theorem shop_graph_eq :
    World.Viewed (World.Shows { root := ⟨1⟩, config := {} }) (Surroundings.quiet.host 1) shopFitted
        ⟨1⟩ {} shopClosed ∧
      shopClosed.activeKeys { root := ⟨1⟩, config := {} } = ["Closed"] ∧
      ∃ e, shopClosed.engineInUse? = some (shopFitted.engines.size, e) ∧ e.root = ⟨1⟩ ∧
        e.config = {} ∧
        Act.Ends (Act.graph shopFitted.engines.size) shopClosed fun drawn? _ => drawn?.map (·.2) =
          some (.ofLevels "." (shopClosed.levelShapes { root := ⟨1⟩, config := {} })) := by
  have hhost : (Surroundings.quiet.host 1 : Host Unit Unit).IsTame (·.lookup = .exact) True :=
    Surroundings.isTame_quiet 0
  obtain ⟨htidy, hengines⟩ := tidy_shopFitted
  have hrest : shopFitted.busy = [] := by decide +kernel
  have hroot : shopFitted.HasMachine ⟨1⟩ := Option.isSome_iff_exists.1 (by decide +kernel)
  -- Each step is run, and `run_eq_after` names the world it leads to.
  have hwrap : ((Act.wrap (Surroundings.quiet.host 1) ⟨1⟩ {}).run shopFitted).isSome = true := by
    decide +kernel
  have hlook : ((Act.graph shopFitted.engines.size).run shopOpened).isSome = true := by
    decide +kernel
  have hserve : ((serveCall.perform (Surroundings.quiet.host 1) ⟨1⟩).run shopShown).isSome =
      true := by
    decide +kernel
  obtain ⟨_, hwrapped⟩ := Act.run_eq_after hwrap
  obtain ⟨_, hlooked⟩ := Act.run_eq_after hlook
  obtain ⟨_, hserved⟩ := Act.run_eq_after hserve
  have hviewed : World.Viewed (World.Shows { root := ⟨1⟩, config := {} })
      (Surroundings.quiet.host 1) shopFitted ⟨1⟩ {} shopClosed := by
    have hopened : World.Shows { root := ⟨1⟩, config := {} } shopFitted shopOpened :=
      ⟨by decide +kernel, by decide +kernel⟩
    have hclosed : World.Shows { root := ⟨1⟩, config := {} } shopShown shopClosed :=
      ⟨by decide +kernel, by decide +kernel⟩
    exact .called (.looked (.wrapped hwrapped hopened) hlooked) rfl hserved hclosed
  exact ⟨hviewed, by decide +kernel, Viewed.graph_eq hhost.of_total
    (Surroundings.sparesEngines_quiet 0) htidy hengines hrest hroot {} shopClosed hviewed⟩

end World

/-! ## A graph that is out of date -/

/-- The parts of a till, which is `"Shut"`. -/
def Assembly.till : Assembly (StatePlan Unit) State where
  initial := { key := "Shut" }
  factory := Factory.empty.register "Shut" (.constant (.plain "Shut" .null false) false)
  table := .empty
  config := {}

/-- The parts of a kiosk, with the same till `⟨0⟩` in `"Morning"` and in `"Evening"`. -/
def Assembly.kiosk : Assembly (StatePlan Unit) State where
  initial := { key := "Morning", child := some ⟨0⟩ }
  factory := ["Morning", "Evening"].foldl (fun factory key =>
    factory.register key (.constant ⟨key, .null, false, some (.live ⟨0⟩), true⟩ false)) .empty
  table := Table.empty.insert "Morning" (.domain "turn") (.target "Evening")
  config := {}

/-- The parts of a candle: `"Lit"` with a final marker, of which its factory says nothing, and then
`"Out"`. -/
def Assembly.candle : Assembly (StatePlan Unit) State where
  initial := { key := "Lit", isFinal := true }
  factory := ["Lit", "Out"].foldl (fun factory key =>
    factory.register key (.constant (.plain key .null false) false)) .empty
  table := Table.empty.insert "Lit" (.domain "turn") (.target "Out")
  config := {}

/-- The parts of a ride, which is `"Over"`, a final state, as soon as it starts. -/
def Assembly.ride : Assembly (StatePlan Unit) State where
  initial := { key := "Over", isFinal := true }
  factory := Factory.empty.register "Over" (.constant (.plain "Over" .null true) true)
  table := .empty
  config := {}

/-- The parts of a ferry: in `"Crossing"` it has the ride `⟨0⟩` below it, whose exit leads to
`"Harbour"`, and `"drift"` to `"Aground"` with the ride below it. -/
def Assembly.ferry : Assembly (StatePlan Unit) State where
  initial := { key := "Shore" }
  factory :=
    (["Crossing", "Aground"].foldl (fun factory key =>
      factory.register key (.constant ⟨key, .null, false, some (.live ⟨0⟩), true⟩ false))
      (["Shore", "Harbour"].foldl (fun factory key =>
        factory.register key (.constant (.plain key .null false) false)) .empty))
  table := ((Table.empty.insert "Shore" (.domain "turn") (.target "Crossing")).insert "Crossing"
    .childExit (.build fun _ => some (.plain "Harbour" .null false))).insert "Crossing"
      (.domain "drift") (.build fun _ => some ⟨"Aground", .null, false, some (.live ⟨0⟩), true⟩)
  config := {}

/-- **Surroundings whose subscribers call `Act.graph 0`** when they are told of a change. -/
def Surroundings.curious : Surroundings ρ γ :=
  { quiet with observe := fun _ _ _ => discard (Act.graph 0) }

/-- `curious` is tame. -/
theorem Surroundings.isTame_curious (depth : Nat) :
    ((curious : Surroundings ρ γ).host (depth + 1)).IsTame settings False :=
  ⟨⟨fun _ _ _ hw => Act.gives_pure (.refl hw), fun _ _ hw => Act.gives_pure (.refl hw)⟩,
    fun _ _ _ hw => Act.gives_discard (Act.gives_graph hw)⟩

namespace World

/-- A world with a kiosk, its till, and a candle. -/
def kiosk : World Unit Unit where
  cells := #[.machine (.start (.minted 0) .till), .machine (.start (.minted 1) .kiosk),
    .machine (.start (.minted 2) .candle)]
  minted := 3
  guest := ()

/-- A world with a ride and a ferry, to which somebody has subscribed. -/
def ferry : World Unit Unit where
  cells := #[.machine (.start (.minted 0) .ride),
    .machine { Machine.start (.minted 1) .ferry with
      listeners := (({} : Listeners Nat).subscribe 0).2 }]
  minted := 2
  guest := ()

/-- `w` after `Act.wrap` at `root`. -/
def wrapped (w : World Unit Unit) (root : Link) : World Unit Unit :=
  (Act.wrap (Surroundings.quiet.host 1) root {}).after w

/-- `w.wrapped root` after a look at the graph. -/
def shown (w : World Unit Unit) (root : Link) : World Unit Unit :=
  (Act.graph w.engines.size).after (w.wrapped root)

/-- The call that sends `"turn"`. -/
def turnCall : Call := .send "turn" []

/-- `w.shown root` after `turnCall`. -/
def turned (w : World Unit Unit) (root : Link) : World Unit Unit :=
  (turnCall.perform (Surroundings.quiet.host 1) root).after (w.shown root)

/-- The node for `key` in the graph of the engine 0. -/
def nodeShown? (w : World Unit Unit) (key : String) : Option ShapeNode :=
  (((Act.graph 0).run w).bind (·.1)).bind (·.2.node? key)

/-- **The graph of the hierarchy around `root` is out of date**: it is another one than the one that
`ShapeGraph.ofLevels` makes of what the machines of the chain say of themselves. -/
def Outdated (w : World Unit Unit) (root : Link) : Prop :=
  Act.Ends (Act.graph 0) w fun drawn? _ =>
    drawn?.map (·.2) ≠ some (.ofLevels "." (w.levelShapes { root, config := {} }))

/-- `Outdated` holds if the node for some `key` is another one. -/
theorem outdated_of_node {w : World Unit Unit} {root : Link} (key : String)
    (hends : ((Act.graph 0).run w).isSome = true)
    (hnode : w.nodeShown? key ≠
      (ShapeGraph.ofLevels "." (w.levelShapes { root, config := {} })).node? key) :
    w.Outdated root := by
  obtain ⟨⟨drawn?, w'⟩, hrun⟩ := Option.isSome_iff_exists.1 hends
  refine ⟨drawn?, w', hrun, fun heq => hnode ?_⟩
  obtain ⟨drawn, rfl, hdrawn⟩ := Option.map_eq_some_iff.1 heq
  simp [nodeShown?, hrun, hdrawn]

/-- `w.turned root` is `Viewed`. -/
theorem viewed_turned {may : World Unit Unit → World Unit Unit → Prop} {w : World Unit Unit}
    {root : Link} (hwrap : ((Act.wrap (Surroundings.quiet.host 1) root {}).run w).isSome = true)
    (hlook : ((Act.graph w.engines.size).run (w.wrapped root)).isSome = true)
    (hturn : ((turnCall.perform (Surroundings.quiet.host 1) root).run (w.shown root)).isSome = true)
    (hmay : may w (w.wrapped root)) (hmay' : may (w.shown root) (w.turned root)) :
    World.Viewed may (Surroundings.quiet.host 1) w root {} (w.turned root) := by
  obtain ⟨_, hwrapped⟩ := Act.run_eq_after hwrap
  obtain ⟨_, hshown⟩ := Act.run_eq_after hlook
  obtain ⟨_, hturned⟩ := Act.run_eq_after hturn
  exact .called (.looked (.wrapped hwrapped hmay) hshown) rfl hturned hmay'

/-- `ferry` after `Act.wrap` at the ferry. -/
def ferryWrapped (host : Host Unit Unit) : World Unit Unit := (Act.wrap host ⟨1⟩ {}).after ferry

/-- `ferryWrapped host` with a watcher. -/
def ferryWatched (host : Host Unit Unit) : World Unit Unit :=
  (Act.updateEngine 0 fun e => { e with watchers := (({} : Listeners Unit).subscribe ()).2 }).after
    (ferryWrapped host)

/-- `w` after `turnCall` to the ferry. -/
def sailed (host : Host Unit Unit) (w : World Unit Unit) : World Unit Unit :=
  (turnCall.perform host ⟨1⟩).after w

/-- The ferry after `"turn"`, with `curious` subscribers. -/
def ferryRead : World Unit Unit :=
  sailed (Surroundings.curious.host 1) (ferryWrapped (Surroundings.curious.host 1))

/-- The ferry after `"turn"`, with subscribers that send `"drift"` and with a watcher. -/
def ferryAground : World Unit Unit :=
  sailed ((Surroundings.eager ⟨1⟩ "drift").host 9)
    (ferryWatched ((Surroundings.eager ⟨1⟩ "drift").host 9))

/-- `ferryRead` is `Viewed` with `Shows` and `Outdated`. -/
theorem outdated_ferryRead :
    World.Viewed (World.Shows { root := ⟨1⟩, config := {} }) (Surroundings.curious.host 1) ferry
      ⟨1⟩ {} ferryRead ∧ ferryRead.Outdated ⟨1⟩ := by
  have hwrap : ((Act.wrap (Surroundings.curious.host 1) ⟨1⟩ {}).run ferry).isSome = true := by
    decide +kernel
  have hsail : ((turnCall.perform (Surroundings.curious.host 1) ⟨1⟩).run
      (ferryWrapped (Surroundings.curious.host 1))).isSome = true := by decide +kernel
  obtain ⟨_, hwrapped⟩ := Act.run_eq_after hwrap
  obtain ⟨_, hsailed⟩ := Act.run_eq_after hsail
  exact ⟨.called (.wrapped hwrapped ⟨by decide +kernel, by decide +kernel⟩) rfl hsailed
    ⟨by decide +kernel, by decide +kernel⟩,
    outdated_of_node "Crossing" (by decide +kernel) (by decide +kernel)⟩

/-- `ferryAground` is `Viewed` with `Shows` and `Outdated`: its graph is drawn in the middle of the
event, for the watcher. -/
theorem outdated_ferryAground :
    World.Viewed (World.Shows { root := ⟨1⟩, config := {} })
      ((Surroundings.eager ⟨1⟩ "drift").host 9) ferry ⟨1⟩ {} ferryAground ∧
      ferryAground.Outdated ⟨1⟩ := by
  have hwrap : ((Act.wrap ((Surroundings.eager ⟨1⟩ "drift").host 9) ⟨1⟩ {}).run ferry).isSome =
      true := by
    decide +kernel
  have hsail : ((turnCall.perform ((Surroundings.eager ⟨1⟩ "drift").host 9) ⟨1⟩).run
      (ferryWatched ((Surroundings.eager ⟨1⟩ "drift").host 9))).isSome = true := by
    decide +kernel
  obtain ⟨_, hwrapped⟩ := Act.run_eq_after hwrap
  obtain ⟨_, hsailed⟩ := Act.run_eq_after hsail
  exact ⟨.called (.watched (.wrapped hwrapped ⟨by decide +kernel, by decide +kernel⟩) rfl) rfl
    hsailed ⟨by decide +kernel, by decide +kernel⟩,
    outdated_of_node "Crossing" (by decide +kernel) (by decide +kernel)⟩

/-- **The graph of a kiosk goes out of date**, and so does that of a candle, and that of a ferry
with a subscriber that uses the hierarchy, so `Viewed.graph_eq` needs each of its conditions. The
kiosk turns from `"Morning"` to `"Evening"` with the same till below it, against `World.Steady`, and
its graph still shows the till in the morning. The candle is `"Lit"` with a final marker that its
factory does not know, against `World.IsRegistered`, and its graph still shows the marker when it is
`"Out"`. The subscriber of the ferry reads the graph on the way (`Surroundings.curious`), against
`Host.SparesEngines`, and the graph still shows the ride when the ferry is in the `"Harbour"`. If
the subscriber sends `"drift"` instead (`Surroundings.eager`), against `Host.IsTame`, the ferry runs
`"Aground"` with its ride, and the graph that a watcher has been told of shows the ride where it was
before. -/
theorem kiosk_graph_outdated :
    (World.Viewed (fun _ w => w.IsRegistered { root := ⟨1⟩, config := {} })
        (Surroundings.quiet.host 1) kiosk ⟨1⟩ {} (kiosk.turned ⟨1⟩) ∧
      (kiosk.turned ⟨1⟩).Outdated ⟨1⟩) ∧
    (World.Viewed (fun w w' => w.Steady { root := ⟨2⟩, config := {} } w' ∧
        ∀ m, w'.machine? ⟨2⟩ = some m → m.current.state.key ∈ m.factory.keys)
        (Surroundings.quiet.host 1) kiosk ⟨2⟩ {} (kiosk.turned ⟨2⟩) ∧
      (kiosk.turned ⟨2⟩).Outdated ⟨2⟩) ∧
    ((Surroundings.curious.host 1 : Host Unit Unit).IsTame (fun _ => True) False ∧
      World.Viewed (World.Shows { root := ⟨1⟩, config := {} }) (Surroundings.curious.host 1) ferry
        ⟨1⟩ {} ferryRead ∧ ferryRead.Outdated ⟨1⟩) ∧
    World.Viewed (World.Shows { root := ⟨1⟩, config := {} })
        ((Surroundings.eager ⟨1⟩ "drift").host 9) ferry ⟨1⟩ {} ferryAground ∧
      ferryAground.Outdated ⟨1⟩ := by
  refine ⟨⟨viewed_turned (by decide +kernel) (by decide +kernel) (by decide +kernel)
      (by decide +kernel) (by decide +kernel),
      outdated_of_node "Morning" (by decide +kernel) (by decide +kernel)⟩,
    ⟨viewed_turned (by decide +kernel) (by decide +kernel) (by decide +kernel)
      (by decide +kernel) (by decide +kernel),
      outdated_of_node "Lit" (by decide +kernel) (by decide +kernel)⟩,
    ⟨Surroundings.isTame_curious 0, outdated_ferryRead⟩, outdated_ferryAground⟩

end World

end Statechart
