import Statechart.Proofs.Mirroring
import Statechart.Proofs.Shape.Cache
import Statechart.Proofs.Shape.Levels
import Statechart.Proofs.Shape.Window

/-! # The graph of a definition in use

A machine of a definition that enters a state gets new machines below it. So where an event leaves
the same machines on the chain, those that have another one below them have not moved, and the graph
that is kept is the one that would be drawn. It shows the levels that the machines run, and these
are what can be seen of the graph of the flat form from the active path.

* `World.Anchors`: machines that have an earlier one below them are where they were.
* **`World.isInvariant_anchored`**: no call puts an end to this.
* `World.Anchored.shows`: so a call lets the structure show.
* **`World.Toured`**: the worlds that domain events lead to, with looks at the graph in between.
* `World.Toured.viewed`: the graph is up to date in all of them.
* **`Definition.graph_isWindow`**: it is a window on the graph of the flat form. -/

namespace Statechart

variable {ρ γ : Type} {settings : MachineConfig → Prop} {host : Host ρ γ}
  {config : HierarchyConfig} {delimiter : String} {w w' before : World ρ γ} {d : Definition}
  {links links' : List Link} {keys keys' : List String} {link root : Link} {depth : Nat}
  {params : Params} {e : Engine}

namespace World

/-! ## Machines that are anchored -/

/-- **Earlier machines anchor those above them**: a machine of `before` that has another one of
`before` below it on `links` is at its key in `keys`. -/
def Anchors (before : World ρ γ) (links : List Link) (keys : List String) : Prop :=
  ∀ i link child m, links[i]? = some link → links[i + 1]? = some child →
    before.HasMachine child → before.machine? link = some m → keys[i]? = some m.current.state.key

/-- `World.Stands` gives `World.Anchors`. -/
theorem Stands.anchors (h : w.Stands host config (.composite d) links keys) :
    w.Anchors links keys := by
  intro i link child m hlink _ _ hm
  obtain ⟨level, key, m', hkey, -, hm', hstands⟩ := h.exists_machine hlink
  rw [hm] at hm'
  cases hm'
  rw [hkey, hstands.key_eq]

/-- **`World.Turn` keeps `World.Anchors`.** The machines around the one that takes a turn are where
they were, and those below it are new. -/
theorem Anchors.of_turn (h : before.Anchors links keys)
    (hknown : ∀ link, before.HasMachine link → w.HasMachine link)
    (hturn : World.Turn host config d w w' links links' keys' depth params)
    (hkeys : keys'.take depth = keys.take depth) : before.Anchors links' keys' := by
  intro i link child m hlink hchild hbefore hm
  have hsame : ∀ {j}, j ≤ depth → links'[j]? = links[j]? := by
    intro j hj
    rw [← List.getElem?_take_of_lt (Nat.lt_succ_of_le hj), hturn.same,
      List.getElem?_take_of_lt (Nat.lt_succ_of_le hj)]
  by_cases hi : i < depth
  · rw [hsame (Nat.le_of_lt hi)] at hlink
    rw [hsame hi] at hchild
    rw [← List.getElem?_take_of_lt hi, hkeys, List.getElem?_take_of_lt hi]
    exact h i link child m hlink hchild hbefore hm
  · -- The machine below is a new one, so it was not there in the earlier world.
    have hnew : child ∈ links'.drop (depth + 1) := by
      refine List.mem_iff_getElem?.2 ⟨i - depth, ?_⟩
      rw [List.getElem?_drop, ← hchild]
      congr 1
      omega
    obtain ⟨m', hm'⟩ := hknown child hbefore
    rw [machine?_eq_none_of_le (hturn.fresh child hnew).1] at hm'
    cases hm'

/-- **`d` is anchored in `before`**: it is embodied below `root`, all machines of `before` are still
there, and `World.Anchors` holds. -/
structure Anchored (settings : MachineConfig → Prop) (config : HierarchyConfig) (d : Definition)
    (root : Link) (before w : World ρ γ) : Prop where
  tidy : w.Tidy settings
  known : ∀ link, before.HasMachine link → w.HasMachine link
  embodies : ∃ links keys, w.Stands Host.silent config (.composite d) links keys ∧
    links[0]? = some root ∧ d.StandsAt keys ∧ before.Anchors links keys

/-- `World.Embodies` gives `World.Anchored` in the same world. -/
theorem Embodies.anchored (h : w.Embodies config d root) (hw : w.Tidy settings) :
    w.Anchored settings config d root w := by
  obtain ⟨links, keys, hs, hroot, hleaf⟩ := h
  exact ⟨hw, fun _ hlink => hlink, links, keys, hs, hroot, hleaf, hs.anchors⟩

namespace Anchored

/-- `World.Anchored` gives `World.Embodies`. -/
theorem toEmbodies (h : before.Anchored settings config d root w) : w.Embodies config d root := by
  obtain ⟨links, keys, hs, hroot, hleaf, -⟩ := h.embodies
  exact ⟨links, keys, hs, hroot, hleaf⟩

/-- `World.Anchored` depends on `cells`, `shared` and `minted` alone. -/
theorem of_cells (h : before.Anchored settings config d root w) (hcells : w'.cells = w.cells)
    (hshared : w'.shared = w.shared) (hminted : w'.minted = w.minted) :
    before.Anchored settings config d root w' := by
  obtain ⟨links, keys, hs, hroot, hleaf, hanchors⟩ := h.embodies
  refine ⟨h.tidy.of_eq hcells hshared (Nat.le_of_eq hminted.symm), fun link hlink => ?_, links,
    keys, hs.of_cells hcells hminted, hroot, hleaf, hanchors⟩
  rw [HasMachine, machine?_of_cells hcells]
  exact h.known link hlink

/-- `World.Idles` keeps `World.Anchored`. -/
theorem of_idles (h : before.Anchored settings config d root w) (hidles : w.Idles settings w') :
    before.Anchored settings config d root w' := by
  obtain ⟨links, keys, hs, hroot, hleaf, hanchors⟩ := h.embodies
  exact ⟨hidles.1, fun link hlink => hidles.known link (h.known link hlink), links, keys,
    hs.of_idles hidles, hroot, hleaf, hanchors⟩

end Anchored

/-- **`World.Anchored` is invariant** (`World.IsInvariant`). -/
theorem isInvariant_anchored (hd : d.Sound delimiter) :
    World.IsInvariant settings (before.Anchored settings config d root) False := by
  have hkeeps : ∀ {w w' : World ρ γ}, before.Anchored settings config d root w →
      w.Stays (fun _ => False) w' → ∀ link, before.HasMachine link → w'.HasMachine link :=
    fun hw hstays link hlink => hstays.hasMachine (hw.known link hlink)
  refine ⟨fun w hw => hw.tidy, ?aside, fun w w' hw hidles => hw.of_idles hidles, ?tweak, ?resolve⟩
  case aside => exact fun w w' hw hcells hshared hminted _ _ => hw.of_cells hcells hshared hminted
  case tweak =>
    intro w link m m' hw hm hid hfactory htable hconfig hcurrent hrevision
    have halike : m.Alike (Host.silent : Host ρ γ) m' :=
      ⟨hid, hfactory, htable, hconfig, hcurrent, hrevision, fun _ => m'.isQuiet_silent⟩
    obtain ⟨links, keys, hs, hroot, hleaf, hanchors⟩ := hw.embodies
    refine ⟨hw.tidy.setCell hm hid ((hw.tidy.fits link m hm).of_parts hfactory htable hconfig)
      (hcurrent ▸ hw.tidy.children link m hm), hkeeps hw (.setCell hm hid False.elim), links, keys,
      ?_, hroot, hleaf, hanchors⟩
    exact hs.of_keeps (.setCell hm fun _ => halike) fun _ _ => trivial
  case resolve =>
    intro host hcalm w link event hw
    refine ⟨False.elim, fun found? w' hrun => ?_⟩
    obtain ⟨hidles, hfound⟩ := (Act.gives_resolve hcalm False.elim hw.tidy).2 found? w' hrun
    have hw' := hw.of_idles hidles
    refine ⟨hw', ?_⟩
    rintro found m rfl hm
    have htidy : (w'.setCell link (.machine (m.commit
        (m.changeTo found.event found.source found.target)))).Tidy settings :=
      hw'.tidy.setCell hm rfl ((hw'.tidy.fits link m hm).of_parts rfl rfl rfl) (hfound found rfl).1
    refine ⟨htidy, hkeeps hw' (.setCell hm rfl False.elim), ?_⟩
    obtain ⟨links, keys, hs, hroot, hleaf, hanchors⟩ := hw.embodies
    -- The machine is one of the definition and takes a turn, or it is elsewhere.
    by_cases hlink : link ∈ links
    · obtain ⟨depth, links', keys', -, hleaf', hkeys, hturn⟩ := hs.turn_of_resolve hd hlink hrun hm
      exact ⟨links', keys', hturn.stands, hturn.root_eq.trans hroot, hleaf',
        hanchors.of_turn hw.known hturn hkeys⟩
    · exact ⟨links, keys, (hs.of_idles hidles).setCell_of_not_mem hm hlink, hroot, hleaf, hanchors⟩

/-! ## Structure that shows -/

/-- `w.activeLinks e` is `links` if `d.depth ≤ e.config.maxDepth`. -/
theorem Stands.activeLinks_eq_self (hs : w.Stands host config (.composite d) links keys)
    (hroot : links[0]? = some e.root) (hleaf : d.StandsAt keys)
    (hdepth : d.depth ≤ e.config.maxDepth) : w.activeLinks e = links := by
  have hlength := hleaf.length_le
  rw [hs.activeLinks_eq hroot, List.take_of_length_le (by rw [hs.length]; omega)]

/-- `w.activeKeys e` is `keys` if `d.depth ≤ e.config.maxDepth`. -/
theorem Stands.activeKeys_eq_self (hs : w.Stands host config (.composite d) links keys)
    (hroot : links[0]? = some e.root) (hleaf : d.StandsAt keys)
    (hdepth : d.depth ≤ e.config.maxDepth) : w.activeKeys e = keys := by
  have hlength := hleaf.length_le
  rw [hs.activeKeys_eq hroot, List.take_of_length_le (by omega)]

/-- `World.Embodies` gives `World.IsRegistered`. -/
theorem Embodies.isRegistered (hd : d.Sound delimiter) (h : w.Embodies config d root) :
    w.IsRegistered { root, config } := by
  obtain ⟨links, keys, hs, hroot, -⟩ := h
  intro link hlink m hm
  rw [hs.activeLinks_eq hroot] at hlink
  obtain ⟨i, hi⟩ := List.mem_iff_getElem?.1 (List.mem_of_mem_take hlink)
  obtain ⟨level, key, m', -, hlevel, hm', hstands⟩ := hs.exists_machine hi
  rw [hm] at hm'
  cases hm'
  exact hstands.isRegistered (hd.level? (Definition.level?_eq_some_iff.2 hlevel))

/-- **`World.Anchored` gives `World.Steady`**: machines that have another one below them have not
moved, if the chain is the same. -/
theorem Anchored.steady (h : before.Anchored settings config d root w)
    (hbefore : before.Embodies config d root) (hdepth : d.depth ≤ config.maxDepth) :
    before.Steady { root, config } w := by
  obtain ⟨links, keys, hs, hroot, hleaf⟩ := hbefore
  obtain ⟨links', keys', hs', hroot', hleaf', hanchors⟩ := h.embodies
  intro hlinks
  rw [hs.activeLinks_eq_self hroot hleaf hdepth, hs'.activeLinks_eq_self hroot' hleaf' hdepth]
    at hlinks
  subst hlinks
  rw [hs.activeKeys_eq_self hroot hleaf hdepth, hs'.activeKeys_eq_self hroot' hleaf' hdepth]
  have hlength : keys'.length = keys.length := hs'.length.symm.trans hs.length
  refine List.ext_getElem? fun i => ?_
  rw [List.getElem?_dropLast, List.getElem?_dropLast, hlength]
  split
  · rename_i hi
    have hlt : i + 1 < links'.length := by
      rw [hs.length]
      omega
    have hlink : links'[i]? = some links'[i] := List.getElem?_eq_getElem (Nat.lt_of_succ_lt hlt)
    have hchild : links'[i + 1]? = some links'[i + 1] := List.getElem?_eq_getElem hlt
    obtain ⟨level, key, m, hkey, -, hm, hstands⟩ := hs.exists_machine hlink
    -- The machine below was there before, so it anchors the one that it is the child of.
    rw [hkey, ← hstands.key_eq]
    exact hanchors i _ _ m hlink hchild (hs.exists_of_mem (List.mem_of_getElem? hchild)) hm
  · rfl

/-- **`World.Anchored` gives `World.Shows`.** -/
theorem Anchored.shows (hd : d.Sound delimiter) (h : before.Anchored settings config d root w)
    (hbefore : before.Embodies config d root) (hdepth : d.depth ≤ config.maxDepth) :
    World.Shows { root, config } before w :=
  ⟨h.steady hbefore hdepth, h.toEmbodies.isRegistered hd⟩

/-! ## Runs -/

/-- **The worlds that domain events lead to** after `Act.startTree`, with calls of `Act.graph` in
between. The events may be sent to the hierarchy or to any machine. -/
inductive Toured (host : Host ρ γ) (d : Definition) (config : HierarchyConfig)
    (before : World ρ γ) (root : Link) : World ρ γ → Prop
  | started {w : World ρ γ} : (Act.startTree host d config).run before = some (.ok root, w) →
    World.Toured host d config before root w
  | called {w w' : World ρ γ} {call : Call} {outcome? : Option Outcome} :
    World.Toured host d config before root w → call.isSignal = false →
    (call.perform host root).run w = some (outcome?, w') →
    World.Toured host d config before root w'
  | looked {w w' : World ρ γ} {number : Nat} {e : Engine} {drawn? : Option (Nat × ShapeGraph)} :
    World.Toured host d config before root w → w.engineInUse? = some (number, e) →
    (Act.graph number).run w = some (drawn?, w') →
    World.Toured host d config before root w'

/-- **A hierarchy has been made around the machine `root`**, and since then it has been used
(`World.Viewed`). -/
structure MadeAround (settings : MachineConfig → Prop) (host : Host ρ γ) (config : HierarchyConfig)
    (d : Definition) (root : Link) (made w : World ρ γ) : Prop where
  tidy : made.Tidy settings
  engines : made.EnginesKnown
  rest : made.busy = []
  machine : made.HasMachine root
  viewed : World.Viewed (World.Shows { root, config }) host made root config w
  embodies : w.Embodies config d root

section Runs

variable (hd : d.Sound delimiter) (hdepth : d.depth ≤ config.maxDepth)
  (hhost : host.IsTame settings False)

include hd hdepth hhost

/-- **`Act.startTree` gives `World.MadeAround`.** -/
theorem exists_madeAround_of_startTree (hsettings : settings (Definition.levelConfig config))
    (hbefore : before.Tidy settings) (hengines : before.EnginesKnown) (hrest : before.busy = [])
    (hrun : (Act.startTree host d config).run before = some (.ok root, w)) :
    ∃ made : World ρ γ, made.MadeAround settings host config d root w := by
  have hstart : Act.Gives False (Act.startTree host d config) before fun result w =>
      ∀ root, result = .ok root →
        ∃ made : World ρ γ, made.MadeAround settings host config d root w := by
    rw [Act.startTree]
    refine Act.gives_bind (Act.gives_realise_embodies hd hhost.toIsCalm hsettings hbefore) ?_
    rintro (error | first) w₁ ⟨⟨htidy, hpasses⟩, hok⟩
    · exact Act.gives_pure (by simp)
    · obtain ⟨hmachine, hembodies⟩ := hok first rfl
      -- The hierarchy is wrapped around a machine that has been made by the plan, and nothing that
      -- happens while it is wrapped makes it another one.
      have hupholds : host.Upholds settings (w₁.Anchored settings config d first) False :=
        hhost.upholds (isInvariant_anchored hd)
      have hwrap : Act.Gives False (Act.wrap host first config) w₁ fun _ w =>
          w₁.Anchored settings config d first w := by
        rw [Act.wrap]
        refine Act.gives_bind (hupholds.openEngine config
          ((hembodies.anchored htidy).of_cells rfl rfl rfl) hmachine) ?_
        rintro _ w₂ ⟨-, hw₂⟩
        exact Act.gives_modify (hw₂.of_cells rfl rfl rfl)
      have hviewed : Act.Gives False (Act.wrap host first config) w₁ fun _ w =>
          w₁.MadeAround settings host config d first w :=
        ⟨False.elim, fun _ w hrun => by
          have hw := hwrap.2 _ w hrun
          exact ⟨htidy, hpasses.enginesKnown hengines, hpasses.busy.trans hrest, hmachine,
            .wrapped hrun (hw.shows hd hembodies hdepth), hw.toEmbodies⟩⟩
      refine Act.gives_bind hviewed fun _ w₂ hw₂ => Act.gives_pure ?_
      rintro _ ⟨⟩
      exact ⟨w₁, hw₂⟩
  exact hstart.2 _ w hrun root rfl

/-- **`World.Toured` gives `World.MadeAround`**, if `observe` asks for no graph in between
(`Host.SparesEngines`). -/
theorem Toured.exists_madeAround (hspares : host.SparesEngines)
    (hsettings : settings (Definition.levelConfig config)) (hbefore : before.Tidy settings)
    (hengines : before.EnginesKnown) (hrest : before.busy = [])
    (h : World.Toured host d config before root w) :
    ∃ made : World ρ γ, made.MadeAround settings host config d root w := by
  induction h with
  | started hrun =>
    exact exists_madeAround_of_startTree hd hdepth hhost hsettings hbefore hengines hrest hrun
  | @called w w' call outcome? _ hcall hrun ih =>
    obtain ⟨made, hmade⟩ := ih
    obtain ⟨hkept, -⟩ := hmade.viewed.upToDate hhost hspares hmade.tidy hmade.engines hmade.rest
      hmade.machine
    -- The world in which the call is made is the earlier world that machines are anchored in.
    have hw' : w.Anchored settings config d root w' :=
      ((hhost.upholds (isInvariant_anchored hd)).perform root call w
        (hmade.embodies.anchored hkept.tidy)).2 outcome? w' hrun
    exact ⟨made, { hmade with
      viewed := .called hmade.viewed hcall hrun (hw'.shows hd hmade.embodies hdepth)
      embodies := hw'.toEmbodies }⟩
  | @looked w w' number e drawn? _ hinUse hrun ih =>
    obtain ⟨made, hmade⟩ := ih
    obtain ⟨hkept, -, ⟨e', he', -⟩, -⟩ := hmade.viewed.upToDate hhost hspares hmade.tidy
      hmade.engines hmade.rest hmade.machine
    -- The engine in use is the one that was put there at first.
    rw [hkept.engineInUse?_eq he'] at hinUse
    cases hinUse
    have hidles : w.Idles settings w' :=
      (Act.gives_graph hkept.tidy : Act.Gives False _ w _).2 drawn? w' hrun
    exact ⟨made, { hmade with
      viewed := .looked hmade.viewed hrun
      embodies := ((hmade.embodies.anchored hkept.tidy).of_idles hidles).toEmbodies }⟩

end Runs

/-- **The graph of `w.levelShapes` is a window (`IsWindow`) on that of `flat`**, from the active
path. -/
theorem Embodies.isWindow (h : w.Embodies e.config d e.root) (hd : d.IsClear e.config.delimiter)
    (hdepth : d.depth ≤ e.config.maxDepth) {flat : FlatDefinition}
    (hflat : FlatDefinition.assemble e.config.delimiter d = .ok flat) :
    (ShapeGraph.ofLevels e.config.delimiter (w.levelShapes
      { root := e.root, config := e.config })).IsWindow flat (w.activePath e) := by
  obtain ⟨links, keys, hs, hroot, hleaf⟩ := h
  rw [ShapeGraph.ofLevels_eq_drawn, activePath, hs.activeKeys_eq_self hroot hleaf hdepth]
  exact (hs.isDrawn_within hd.sound (hs.activeLinks_eq_self hroot hleaf hdepth)).isWindow hd hflat
    hleaf

end World

/-- **The graph of a hierarchy is a window on the graph of the flat form.** A definition `d` without
`hierarchyProblems` is started as a hierarchy with `d.depth ≤ config.maxDepth`, and domain events
are sent to it and to its machines, with looks at the graph in between (`World.Toured`). Subscribers
leave the machines and their registrations alone while they are told something (`Host.IsTame`), and
they do not read the graph while they are told of a change (`Host.SparesEngines`). Whenever the
graph is looked at, it is in `ShapeGraph.IsWindow flat (w'.activePath e)`: it shows the nodes of the
graph of `flat` that are beside an active state, those and no others. The composites on the active
path have states inside, the edges are the same, and where an edge leads to a composite, its initial
leaf is entered in the flat form. -/
theorem Definition.graph_isWindow {d : Definition} {config : HierarchyConfig}
    {flatConfig : FlattenConfig} {flat : FlatDefinition} (hbuilt : d.IsBuilt)
    (hproblems : d.hierarchyProblems config.delimiter = some [])
    (hflat : FlatDefinition.ofDefinition flatConfig d = some (.ok flat))
    (hcollision : flatConfig.eventCollision = .namespaced)
    (hdelimiter : flatConfig.delimiter = config.delimiter) (hone : config.delimiter.length = 1)
    (hdepth : d.depth ≤ config.maxDepth) {host : Host ρ γ} (hhost : host.IsTame settings False)
    (hspares : host.SparesEngines) (hsettings : settings (levelConfig config))
    {before : World ρ γ} (hbefore : before.Tidy settings) (hengines : before.EnginesKnown)
    (hrest : before.busy = []) :
    ∃ root w, (Act.startTree host d config).run before = some (.ok root, w) ∧
      ∀ w', World.Toured host d config before root w' →
        ∃ number e, w'.engineInUse? = some (number, e) ∧
          Act.Ends (Act.graph number) w' fun drawn? _ =>
            ∃ drawn, drawn? = some drawn ∧ drawn.2.IsWindow flat (w'.activePath e) := by
  have hd := sound_of_hierarchyProblems hproblems
  have hclear : d.IsClear config.delimiter := ⟨hd, hone, hbuilt.hasNames⟩
  -- With namespaced answers all of them stay, so that the flat form is the whole one.
  obtain ⟨-, whole, hwhole, hsettled⟩ := FlatDefinition.exists_of_ofDefinition hflat
  rw [hcollision] at hsettled
  cases hsettled
  rw [hdelimiter] at hwhole
  obtain ⟨_, w, hrun, root, -, rfl, -⟩ := Act.ends_startTree hd host config before
  refine ⟨root, w, hrun, fun w' htoured => ?_⟩
  -- What is drawn is up to date, and it is drawn from machines that are those of the definition.
  obtain ⟨made, hmade⟩ := htoured.exists_madeAround hd hdepth hhost hspares hsettings hbefore
    hengines hrest
  obtain ⟨e, hinUse, rfl, rfl, hends⟩ := hmade.viewed.graph_eq hhost hspares hmade.tidy
    hmade.engines hmade.rest hmade.machine
  refine ⟨_, e, hinUse, hends.mono fun drawn? _ hdrawn => ?_⟩
  obtain ⟨drawn, rfl, heq⟩ := Option.map_eq_some_iff.1 hdrawn
  exact ⟨drawn, rfl, heq ▸ hmade.embodies.isWindow hclear hdepth hwhole⟩

/-- `graph_isWindow` for `stairs`. -/
theorem Definition.stairs_graph_isWindow :
    stairs.IsBuilt ∧ stairs.hierarchyProblems "." = some [] ∧ ∃ flat,
      FlatDefinition.ofDefinition { eventCollision := .namespaced } stairs = some (.ok flat) ∧
      ∃ root w, (Act.startTree (Surroundings.quiet.host 1) stairs {}).run
          ({ guest := () } : World Unit Unit) = some (.ok root, w) ∧
        ∀ w', World.Toured (Surroundings.quiet.host 1) stairs {} ({ guest := () } : World Unit Unit)
            root w' →
          ∃ number e, w'.engineInUse? = some (number, e) ∧
            Act.Ends (Act.graph number) w' fun drawn? _ =>
              ∃ drawn, drawn? = some drawn ∧ drawn.2.IsWindow flat (w'.activePath e) := by
  -- The stairs are built and checked. All else is settled by the theorem.
  have hbuilt : stairs.IsBuilt :=
    .initial _ (.onChildExit _ _ (.onChildExit _ _ (.leaf _ _ (.composite _ (.composite _ .empty
      (.initial _ (.transition _ _ _ (.leaf _ _ (.leaf _ _ .empty)))))
      (.initial _ (.leaf _ _ .empty))))))
  have hproblems : stairs.hierarchyProblems ({} : HierarchyConfig).delimiter = some [] := by
    decide +kernel
  have hcollision : ({ eventCollision := .namespaced } : FlattenConfig).eventCollision =
      .namespaced := rfl
  have hchecked : stairs.problems "." = some [] := by decide +kernel
  obtain ⟨flat, hflat⟩ := FlatDefinition.exists_ofDefinition hchecked hcollision
  have hhost : (Surroundings.quiet.host 1 : Host Unit Unit).IsTame (fun _ => True) True :=
    Surroundings.isTame_quiet 0
  exact ⟨hbuilt, hproblems, flat, hflat, graph_isWindow hbuilt hproblems hflat hcollision rfl
    (by decide) (by decide) hhost.of_total (Surroundings.sparesEngines_quiet 0) trivial
    (World.tidy_empty ()) (fun _ _ _ hm => by cases hm) rfl⟩

end Statechart
