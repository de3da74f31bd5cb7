import Statechart.Proofs.Definition.Check
import Statechart.Proofs.Upholding

/-! # Hierarchies that mirror their definition

The machines below the root of an instantiated definition are not kept together by anything but the
children of their states: a child is made whenever a composite is entered, at any depth, by whatever
machine enters it. Still the hierarchy is a picture of its definition at all times. Each machine
runs the level at the keys above it and stands in a state that is declared there, a composite has
the machine of its own level inside, and nothing that is made on the way ever fails.

* `Definition.fits_machinePlan`: the plan of a definition makes machines only.
* `World.Embodies`: machines that stand one inside the other, below a root, down to a leaf.
* **`World.isInvariant_upright`**: no call puts an end to this.
* `World.Attained`: the worlds that calls and subscriptions lead to.
* **`World.Mirrors`**: a hierarchy in use shows where its definition is.
* **`Definition.instantiated_iff_and_mirrored`**: what can be instantiated, and that it mirrors its
  definition from then on. -/

namespace Statechart

variable {ρ γ : Type} {settings : MachineConfig → Prop} {known : Link → Prop} {host : Host ρ γ}
  {around : Surroundings ρ γ} {config : HierarchyConfig} {delimiter : String}
  {w w' before : World ρ γ} {d level : Definition} {state : StateDef} {links : List Link}
  {keys : List String} {key : String} {link root : Link} {number : Nat} {tree? : Option Nat}
  {m m' : Machine (StatePlan ρ)} {event : Event} {e : Engine} {call : Call}

/-! ## The plan of a definition -/

namespace Definition

/-- `createFrom? items key params` fits if all `items` do. -/
theorem stateFits_createFrom? {items : List (FactoryItem (StatePlan ρ))}
    (h : ∀ item ∈ items, itemFits settings known item) (key : String) (params : Params) :
    stateFits settings known (createFrom? items key params) := by
  unfold createFrom?
  split
  · rename_i hfound
    rw [List.findRev?_eq_find?_reverse] at hfound
    exact h _ (List.mem_reverse.1 (List.mem_of_find?_eq_some hfound)) params
  · trivial

/-- `levelSpec items target` fits if all `items` do. -/
theorem specFits_levelSpec {items : List (FactoryItem (StatePlan ρ))}
    (h : ∀ item ∈ items, itemFits settings known item) (target : Target) :
    specFits settings known (levelSpec items target) := by
  cases target with
  | key name => trivial
  | choose pick =>
    intro params
    show stateFits settings known ((pick params).bind fun name => createFrom? items name params)
    cases pick params with
    | none => trivial
    | some name => exact stateFits_createFrom? h name params

/-- `d.machinePlan config` fits if the plans of all its states do. -/
theorem fits_machinePlan_of_states (hsettings : settings (levelConfig config))
    (inside : ∀ entry ∈ d.states, ∀ key params,
      (statePlan config key entry.2 params : StatePlan ρ).Fits settings known) :
    (d.machinePlan config : MachinePlan ρ).Fits settings known := by
  have hitems : ∀ item ∈ (stateItems config d.states : List (FactoryItem (StatePlan ρ))),
      itemFits settings known item := by
    intro item hitem
    obtain ⟨entry, hentry, rfl⟩ := mem_stateItems.1 hitem
    rw [stateItem_eq]
    exact fun params => inside entry hentry entry.1 params
  rw [machinePlan_eq]
  refine ⟨?_, (itemsFit_iff settings known).2 hitems, (rowsFit_iff settings known).2 ?_, trivial⟩
  · rintro _ ⟨⟩
    exact hsettings
  · intro row hrow
    obtain ⟨_, hmem, rfl⟩ := List.mem_map.1 hrow
    obtain ⟨t, -, rfl⟩ := List.mem_map.1 hmem
    exact specFits_levelSpec hitems t.target

/-- `statePlan config key state params` fits. -/
theorem fits_statePlan (hsettings : settings (levelConfig config)) (state : StateDef) :
    ∀ key params, (statePlan config key state params : StatePlan ρ).Fits settings known := by
  induction state using StateDef.inside_induction with
  | leaf l => exact fun _ _ => trivial
  | composite inner ih => exact fun _ _ => fits_machinePlan_of_states hsettings ih

/-- **`d.machinePlan config` fits**, with no link from outside. -/
theorem fits_machinePlan (hsettings : settings (levelConfig config)) (d : Definition) :
    (d.machinePlan config : MachinePlan ρ).Fits settings known :=
  fits_machinePlan_of_states hsettings fun entry _ => fits_statePlan hsettings entry.2

end Definition

/-! ## Standing whoever listens -/

/-- A host with `Surroundings.quiet`. `World.Stands` is stated with it where nothing is asked of
subscribers. -/
def Host.silent : Host ρ γ := Surroundings.quiet.host 1

/-- Every machine `IsQuiet` for `Host.silent`. -/
theorem Machine.isQuiet_silent (m : Machine (StatePlan ρ)) :
    m.IsQuiet (Host.silent : Host ρ γ) :=
  fun _ _ _ w => ⟨w.guest, rfl⟩

/-- `Unmoved` gives `Alike Host.silent`. -/
theorem Machine.Unmoved.alike (h : m.Unmoved m') : m.Alike (Host.silent : Host ρ γ) m' :=
  ⟨h.id, h.factory, h.table, h.config, h.current, Nat.le_of_eq h.revision.symm,
    fun _ => m'.isQuiet_silent⟩

namespace World

/-- `Stands` is kept while the world `Idles`. -/
theorem Stands.of_idles (h : w.Stands Host.silent config state links keys)
    (hidles : w.Idles settings w') : w'.Stands Host.silent config state links keys := by
  refine h.of_alike (fun link _ m hm => ?_) fun link hlink => ?_
  · obtain ⟨m', hm', -, hunmoved⟩ := hidles.2.machine link m hm
    exact ⟨m', hm', (hunmoved trivial).alike⟩
  · obtain ⟨m, hm⟩ := h.exists_of_mem hlink
    obtain ⟨m', hm', -⟩ := hidles.2.machine link m hm
    obtain ⟨n, hn, hlt⟩ := hidles.1.minted link m' hm'
    exact ⟨n, by rw [id?_of_machine? hm', hn], hlt⟩

/-- **`d` is embodied below `root`**: machines stand one inside the other (`World.Stands`) at keys
`d.StandsAt`, whoever listens to them. -/
def Embodies (config : HierarchyConfig) (d : Definition) (root : Link) (w : World ρ γ) : Prop :=
  ∃ links keys, w.Stands Host.silent config (.composite d) links keys ∧ links[0]? = some root ∧
    d.StandsAt keys

/-- `Embodies` is kept if all machines stay `Alike`. -/
theorem Embodies.of_keeps (h : w.Embodies config d root)
    (hkeeps : w.Keeps Host.silent (fun _ => True) w') : w'.Embodies config d root := by
  obtain ⟨links, keys, hs, hroot, hleaf⟩ := h
  exact ⟨links, keys, hs.of_keeps hkeeps fun _ _ => trivial, hroot, hleaf⟩

/-- `Stands` depends on `cells` and `minted` alone. -/
theorem Stands.of_cells (h : w.Stands host config state links keys) (hcells : w'.cells = w.cells)
    (hminted : w'.minted = w.minted) : w'.Stands host config state links keys := by
  have hid : w'.id? = w.id? := by
    funext link
    rw [id?, id?, cell?, cell?, hcells]
  refine h.of_alike (fun link _ m hm => ⟨m, ?_, .refl _ m⟩) ?_
  · rw [machine?_of_cells hcells, hm]
  · rw [hid, hminted]
    exact h.minted

/-- `Stands` is kept if a machine at no link of it changes. -/
theorem Stands.setCell_of_not_mem (h : w.Stands Host.silent config state links keys)
    (hm : w.machine? link = some m) (hlink : link ∉ links) :
    (w.setCell link (.machine m')).Stands Host.silent config state links keys := by
  have hkeeps : w.Keeps Host.silent (· ≠ link) (w.setCell link (.machine m')) :=
    .setCell hm fun hne => absurd rfl hne
  refine h.of_keeps hkeeps ?_
  rintro other hother rfl
  exact hlink hother

/-- `Embodies` depends on `cells` and `minted` alone. -/
theorem Embodies.of_cells (h : w.Embodies config d root) (hcells : w'.cells = w.cells)
    (hminted : w'.minted = w.minted) : w'.Embodies config d root := by
  obtain ⟨links, keys, hs, hroot, hleaf⟩ := h
  exact ⟨links, keys, hs.of_cells hcells hminted, hroot, hleaf⟩

/-! ## A machine that moves -/

/-- `Act.resolve` finds nothing for an event with `isMisnamed`. -/
theorem resolve_of_isMisnamed (hmisnamed : event.isMisnamed = true) :
    (Act.resolve host link event).run w = some (none, w) := by
  rw [Act.resolve]
  show StateT.run (get >>= _) w = _
  rw [StateT.run_bind, StateT.run_get]
  simp only [Option.pure_def, Option.bind_eq_bind, Option.bind_some]
  split
  · rfl
  · rw [if_pos hmisnamed]
    rfl

/-- **A machine of `World.Stands` that enters the state which `Act.resolve` has found takes a
`World.Turn`**, to keys that `d.StandsAt`. -/
theorem Stands.turn_of_resolve (hd : d.Sound delimiter)
    (hs : w.Stands Host.silent config (.composite d) links keys) (hlink : link ∈ links)
    {found : Resolution} (hrun : (Act.resolve host link event).run w = some (some found, w'))
    (hm : w'.machine? link = some m) :
    ∃ depth links' keys', links[depth]? = some link ∧ d.StandsAt keys' ∧
      keys'.take depth = keys.take depth ∧
      World.Turn Host.silent config d w (w'.setCell link (.machine (m.commit
        (m.changeTo found.event found.source found.target)))) links links' keys' depth
        event.params := by
  have hnamed : event.isMisnamed = false := by
    by_contra hmisnamed
    rw [resolve_of_isMisnamed (Bool.not_eq_false _ ▸ hmisnamed)] at hrun
    cases hrun
  obtain ⟨depth, hdepth⟩ := List.mem_iff_getElem?.1 hlink
  obtain ⟨level, key, m₀, hkey, hlevel, hm₀, hin⟩ := hs.exists_machine hdepth
  have hlevel := Definition.level?_eq_some_iff.2 hlevel
  cases hgoal : level.goal? key event.key event.params with
  | none =>
    rw [Act.resolve_of_goal?_eq_none hm₀ hin (hd.level? hlevel) hgoal] at hrun
    cases hrun
  | some target =>
    obtain ⟨state, hstate⟩ := Option.isSome_iff_exists.1 (Definition.declares_of_goal? hgoal)
    have hinside := hd.inside hlevel hstate
    obtain ⟨inner, hfound, hmakes⟩ :=
      (Act.ends_resolve_of_goal? hm₀ hin (hd.level? hlevel) hnamed hgoal hstate hinside).of_run hrun
    cases hfound
    obtain ⟨m₁, hm₁, halike⟩ := hmakes.keeps.machine link m₀ trivial hm₀
    rw [hm] at hm₁
    cases hm₁
    have hruns := hin.runs.alike halike
    have hsince : m₀.current.since ≤ m.revision := halike.current ▸ hruns.since
    -- The machine was like this before, so it takes a turn as it would have done then.
    let entered := m.commit (m.changeTo event m₀.current
      (state.enter target event.params inner.head?))
    have hentered : (w'.setCell link (.machine entered)).machine? link = some entered :=
      machine?_setCell_self hm
    have hturn := hs.turn_of_makes hlevel hdepth hm₀ hstate hmakes
      (.setCell hm fun hne => absurd rfl hne) hentered halike.id (Nat.lt_succ_of_le hsince) rfl
      (hruns.standsIn_commit hstate event m₀.current event.params inner.head?)
    have hmove : d.move? keys depth event.key event.params =
        some (keys.take depth ++ target :: state.innerKeys) := by
      rw [Definition.move?_of_level? hlevel hkey, hgoal, Option.map_some,
        Definition.enteredKeys_of_state? hstate]
    refine ⟨depth, _, _, hdepth, .of_move? hd hmove, ?_, hturn⟩
    have hlt := (List.getElem?_eq_some_iff.1 hkey).1
    rw [List.take_append_of_le_length (by rw [List.length_take]; omega), List.take_take,
      Nat.min_self]

/-- `World.Turn` keeps the first link. -/
theorem Turn.root_eq {links' : List Link} {keys' : List String} {depth : Nat} {params : Params}
    (h : World.Turn host config d w w' links links' keys' depth params) :
    links'[0]? = links[0]? := by
  rw [← List.getElem?_take_of_lt (Nat.succ_pos depth), h.same,
    List.getElem?_take_of_lt (Nat.succ_pos depth)]

/-- **`Embodies` is kept when a machine of it enters the state which `Act.resolve` has found.** -/
theorem Stands.embodies_enter (hd : d.Sound delimiter)
    (hs : w.Stands Host.silent config (.composite d) links keys) (hroot : links[0]? = some root)
    (hlink : link ∈ links) {found : Resolution}
    (hrun : (Act.resolve host link event).run w = some (some found, w'))
    (hm : w'.machine? link = some m) :
    (w'.setCell link (.machine (m.commit
      (m.changeTo found.event found.source found.target)))).Embodies config d root := by
  obtain ⟨depth, links', keys', -, hleaf, -, hturn⟩ := hs.turn_of_resolve hd hlink hrun hm
  exact ⟨links', keys', hturn.stands, hturn.root_eq.trans hroot, hleaf⟩

/-! ## What calls uphold -/

/-- **A hierarchy is upright**: the world is `Tidy`, `d` is `Embodies` below `root`, and the engine
`number` routes there. -/
structure Upright (settings : MachineConfig → Prop) (config : HierarchyConfig) (d : Definition)
    (number : Nat) (root : Link) (tree? : Option Nat) (w : World ρ γ) : Prop where
  tidy : w.Tidy settings
  embodies : w.Embodies config d root
  routes : w.Routes number { root, config }
  tree : w.tree? = tree?

/-- `Upright` is kept while the world `Idles`. -/
theorem Upright.of_idles (h : w.Upright settings config d number root tree?)
    (hidles : w.Idles settings w') : w'.Upright settings config d number root tree? := by
  obtain ⟨links, keys, hs, hroot, hleaf⟩ := h.embodies
  exact ⟨hidles.1, ⟨links, keys, hs.of_idles hidles, hroot, hleaf⟩,
    hidles.2.toStays.routes h.routes, hidles.2.tree.trans h.tree⟩

/-- **`Upright` is a `World.IsInvariant`**, so no call puts an end to it. -/
theorem isInvariant_upright (hd : d.Sound delimiter) :
    World.IsInvariant settings
      (World.Upright settings config d number root tree? : World ρ γ → Prop) False := by
  refine ⟨fun w hw => hw.tidy, ?aside, fun w w' hw hidles => hw.of_idles hidles, ?tweak, ?resolve⟩
  case aside =>
    intro w w' hw hcells hshared hminted htree hroutes
    exact ⟨hw.tidy.of_eq hcells hshared (Nat.le_of_eq hminted.symm),
      hw.embodies.of_cells hcells hminted, hroutes _ _ hw.routes, htree.trans hw.tree⟩
  case tweak =>
    intro w link m m' hw hm hid hfactory htable hconfig hcurrent hrevision
    have halike : m.Alike (Host.silent : Host ρ γ) m' :=
      ⟨hid, hfactory, htable, hconfig, hcurrent, hrevision, fun _ => m'.isQuiet_silent⟩
    exact ⟨hw.tidy.setCell hm hid ((hw.tidy.fits link m hm).of_parts hfactory htable hconfig)
        (hcurrent ▸ hw.tidy.children link m hm),
      hw.embodies.of_keeps (.setCell hm fun _ => halike), hw.routes, hw.tree⟩
  case resolve =>
    intro host hcalm w link event hw
    refine ⟨False.elim, fun found? w' hrun => ?_⟩
    obtain ⟨hidles, hfound⟩ :=
      (Act.gives_resolve hcalm False.elim hw.tidy).2 found? w' hrun
    have hw' := hw.of_idles hidles
    refine ⟨hw', ?_⟩
    rintro found m rfl hm
    obtain ⟨hwithin, -⟩ := hfound found rfl
    have htidy : (w'.setCell link (.machine (m.commit
        (m.changeTo found.event found.source found.target)))).Tidy settings :=
      hw'.tidy.setCell hm rfl ((hw'.tidy.fits link m hm).of_parts rfl rfl rfl) hwithin
    -- A machine enters a state. It is one of those that embody the definition, which then embody it
    -- with this state, or it is another one.
    obtain ⟨links, keys, hs, hroot, hleaf⟩ := hw.embodies
    refine ⟨htidy, ?_, hw'.routes, hw'.tree⟩
    by_cases hlink : link ∈ links
    · exact hs.embodies_enter hd hroot hlink hrun hm
    · exact ⟨links, keys, (hs.of_idles hidles).setCell_of_not_mem hm hlink, hroot, hleaf⟩

end World

/-! ## Pictures of a definition -/

/-- **`m` mirrors `state` of `level`**: its factory, its table and its settings are those of
`level`, and it is in the state `key`, with the marker that is declared. -/
structure Machine.Mirrors (config : HierarchyConfig) (level : Definition) (key : String)
    (state : StateDef) (m : Machine (StatePlan ρ)) : Prop where
  factory : m.factory = level.levelFactory config
  table : m.table = level.levelTable config
  config : m.config = Definition.levelConfig config
  key_eq : m.current.state.key = key
  declared : level.state? key = some state
  isFinal : m.current.state.isFinal = state.isFinal

/-- `StandsIn` gives `Mirrors`. -/
theorem Machine.StandsIn.mirrors {child : Option Link}
    (h : m.StandsIn host config level key child) (hstate : level.state? key = some state) :
    m.Mirrors config level key state := by
  obtain ⟨state', hstate', hfinal⟩ := h.isFinal_eq
  rw [hstate] at hstate'
  cases hstate'
  exact ⟨h.runs.factory, h.runs.table, h.runs.config, h.key_eq, hstate, hfinal⟩

namespace World

/-- There is a machine at `link` that `Mirrors` the initial state of `level`. -/
def StartsAt (config : HierarchyConfig) (level : Definition) (w : World ρ γ) (link : Link) : Prop :=
  ∃ m initial state, w.machine? link = some m ∧ level.initial? = some initial ∧
    m.Mirrors config level initial state

/-- **The machine at `link` enters whatever `level` says**: for every event that may arrive,
`Act.resolve` comes to an end with the state `level.goal?`, and with a machine that `StartsAt` the
inner level if this is a composite. -/
def Enters (config : HierarchyConfig) (level : Definition) (key : String) (link : Link)
    (w : World ρ γ) : Prop :=
  ∀ (host : Host ρ γ) (event : Event), event.isMisnamed = false →
    Act.Ends (Act.resolve host link event) w fun found? w' =>
      found?.map (·.target.key) = level.goal? key event.key event.params ∧
      ∀ found inner, found? = some found →
        level.state? found.target.key = some (.composite inner) →
        ∃ child, found.target.child = some child ∧ w'.StartsAt config inner child

/-- **The hierarchy in use mirrors `d`**: the machine at each depth `Mirrors` the state of its own
key on the level at the keys above it, and `Enters` what that level says. This is a composite if
there is a machine below it, and a leaf if there is none, unless the chain goes on beyond
`maxDepth`. -/
structure Mirrors (config : HierarchyConfig) (d : Definition) (root : Link) (w : World ρ γ) :
    Prop where
  inUse : ∃ number e, w.engineInUse? = some (number, e) ∧ e.root = root ∧ e.config = config
  keys : ∀ number e, w.engineInUse? = some (number, e) →
    (w.activeKeys e).length = (w.activeLinks e).length
  rungs : ∀ number e i link key, w.engineInUse? = some (number, e) →
    (w.activeLinks e)[i]? = some link → (w.activeKeys e)[i]? = some key →
    ∃ level state m, d.level? ((w.activeKeys e).take i) = some level ∧
      w.machine? link = some m ∧ m.Mirrors config level key state ∧
      (i + 1 < (w.activeLinks e).length → ∃ inner, state = .composite inner) ∧
      (i + 1 = (w.activeLinks e).length → (∃ leaf, state = .leaf leaf) ∨ i = config.maxDepth) ∧
      w.Enters config level key link

/-- The first machine in `World.Makes` of a composite `StartsAt` the level inside it. -/
theorem Makes.exists_startsAt {inner : Definition} {inside : List Link}
    (h : w.Makes host config w' (.composite inner) inside) (hinner : inner.IsSound delimiter) :
    ∃ child, inside.head? = some child ∧ w'.StartsAt config inner child := by
  obtain ⟨initial, hinitial, hdeclared⟩ := hinner.initial
  obtain ⟨first, hfirst⟩ := Option.isSome_iff_exists.1 hdeclared
  have hkeys : (StateDef.composite inner).innerKeys = initial :: first.innerKeys := by
    rw [StateDef.innerKeys, Definition.startKeys_of_initial hinitial,
      Definition.enteredKeys_of_state? hfirst]
  have hlength := h.stands.length
  rw [hkeys, List.length_cons] at hlength
  have hchild : inside[0]? = some inside[0] := List.getElem?_eq_getElem (by omega)
  obtain ⟨level, key, m, hkey, hlevel, hm, hin⟩ := h.stands.exists_machine hchild
  rw [hkeys] at hkey
  cases hkey
  cases hlevel
  exact ⟨inside[0], List.head?_eq_getElem?.trans hchild, m, initial, first, hm, hinitial,
    hin.mirrors hfirst⟩

/-- `World.Stands` gives `Enters` for each of its machines. -/
theorem Stands.enters (hd : d.Sound delimiter) {depth : Nat}
    (hs : w.Stands Host.silent config (.composite d) links keys) (hlink : links[depth]? = some link)
    (hkey : keys[depth]? = some key) (hlevel : d.level? (keys.take depth) = some level) :
    w.Enters config level key link := by
  obtain ⟨level', key', m, hkey', hlevel', hm, hin⟩ := hs.exists_machine hlink
  rw [hkey] at hkey'
  rw [Definition.level?_eq_some_iff.2 hlevel'] at hlevel
  cases hkey'
  cases hlevel
  have hlevel := Definition.level?_eq_some_iff.2 hlevel'
  intro host event hnamed
  cases hgoal : level.goal? key event.key event.params with
  | none =>
    exact ⟨none, w, Act.resolve_of_goal?_eq_none hm hin (hd.level? hlevel) hgoal, rfl, by simp⟩
  | some target =>
    -- The state that is led to is declared, so that the machines inside it can be made.
    obtain ⟨state, hstate⟩ := Option.isSome_iff_exists.1 (Definition.declares_of_goal? hgoal)
    have hinside := hd.inside hlevel hstate
    refine (Act.ends_resolve_of_goal? hm hin (hd.level? hlevel) hnamed hgoal hstate hinside).mono ?_
    rintro _ w' ⟨inside, rfl, hmakes⟩
    refine ⟨rfl, ?_⟩
    rintro _ inner ⟨rfl⟩ hcomposite
    have hcomposite : level.state? target = some (.composite inner) := hcomposite
    rw [hstate] at hcomposite
    cases hcomposite
    exact hmakes.exists_startsAt (hinside inner inner.mem_levels_self)

/-- The engine of `Upright` is in use. -/
theorem Upright.engineInUse? (h : w.Upright settings config d number root (some number)) :
    ∃ e, w.engineInUse? = some (number, e) ∧ e.root = root ∧ e.config = config := by
  obtain ⟨e, he, hroot, hconfig⟩ := h.routes
  refine ⟨e, ?_, hroot, hconfig⟩
  rw [World.engineInUse?, h.tree, Option.bind_some, he]
  rfl

/-- **`Upright` gives `Mirrors`.** -/
theorem Upright.mirrors (hd : d.Sound delimiter)
    (h : w.Upright settings config d number root (some number)) : w.Mirrors config d root := by
  obtain ⟨e, hinUse, rfl, rfl⟩ := h.engineInUse?
  obtain ⟨links, keys, hs, hroot, hleaf⟩ := h.embodies
  have hkeys := hs.activeKeys_eq hroot
  have hlinks := hs.activeLinks_eq hroot
  refine ⟨⟨number, e, hinUse, rfl, rfl⟩, ?_, ?_⟩
  · intro number' e' hinUse'
    rw [hinUse] at hinUse'
    cases hinUse'
    rw [hkeys, hlinks, List.length_take, List.length_take, hs.length]
  · intro number' e' i link key hinUse' hlink hkey
    rw [hinUse] at hinUse'
    cases hinUse'
    rw [hkeys, List.getElem?_take] at hkey
    rw [hlinks, List.getElem?_take] at hlink
    split at hlink
    · rename_i hlt
      rw [if_pos hlt] at hkey
      obtain ⟨level, state, hlevel, hstate, -, hcomposite, hlast⟩ := hleaf.level? hkey
      obtain ⟨level', key', m, hkey', hlevel', hm, hin⟩ := hs.exists_machine hlink
      rw [hkey] at hkey'
      cases hkey'
      rw [Definition.level?_eq_some_iff.2 hlevel'] at hlevel
      cases hlevel
      have hlevel := Definition.level?_eq_some_iff.2 hlevel'
      refine ⟨level, state, m, ?_, hm, hin.mirrors hstate, ?_, ?_, hs.enters hd hlink hkey hlevel⟩
      · rw [hkeys, List.take_take, Nat.min_eq_left (Nat.le_of_lt hlt)]
        exact hlevel
      · intro hdeep
        rw [hlinks, List.length_take, hs.length] at hdeep
        exact hcomposite (by omega)
      · intro hend
        rw [hlinks, List.length_take, hs.length] at hend
        -- The last machine that is shown is the last one, or it is as deep as the engine looks.
        by_cases hdeepest : i = e.config.maxDepth
        · exact Or.inr hdeepest
        · exact Or.inl (hlast (by omega))
    · cases hlink

end World

/-- **`level` builds every child**: for each composite its factory creates a plan, and
`StatePlan.realise` comes to an end with a machine that `StartsAt` the level inside. -/
def Definition.BuildsChildren (ρ γ : Type) (config : HierarchyConfig) (level : Definition) : Prop :=
  ∀ key inner params, level.state? key = some (.composite inner) →
    ∃ plan : StatePlan ρ, (level.levelFactory config).create key params = some plan ∧
      ∀ (host : Host ρ γ) (w : World ρ γ), Act.Ends (plan.realise host) w fun made w' =>
        ∃ state child, made = some state ∧ state.key = key ∧ state.child = some child ∧
          w'.StartsAt config inner child

/-- **Every level of a sound definition `BuildsChildren`.** -/
theorem Definition.Sound.buildsChildren (hd : d.Sound delimiter) (hlevel : level ∈ d.levels) :
    level.BuildsChildren ρ γ config := by
  intro key inner params hinner
  have hinside : ∀ other ∈ inner.levels, other.IsSound delimiter := fun other hother =>
    hd other (mem_levels_of_mem hlevel (mem_levels_of_state (mem_of_state? hinner) hother))
  refine ⟨statePlan config key (.composite inner) params, ?_, fun host w => ?_⟩
  · rw [(hd level hlevel).create_levelFactory, hinner]
    rfl
  · refine (ends_realise_statePlan Host.silent config (.composite inner) hinside key params w).mono
      ?_
    rintro _ w' ⟨inside, rfl, hmakes⟩
    obtain ⟨child, hchild, hstarts⟩ := hmakes.exists_startsAt (hinside inner inner.mem_levels_self)
    exact ⟨_, child, rfl, rfl, hchild, hstarts⟩

/-- **`MachinePlan.realise` for a sound definition gives `Embodies`**, and the world `Idles`. -/
theorem Act.gives_realise_embodies (hd : d.Sound delimiter) (hhost : host.IsCalm settings False)
    (hsettings : settings (Definition.levelConfig config)) (hbefore : before.Tidy settings) :
    Act.Gives False ((d.machinePlan config).realise host) before fun result w =>
      before.Idles settings w ∧ ∀ root, result = .ok root →
        w.HasMachine root ∧ w.Embodies config d root := by
  refine ⟨False.elim, fun result w hrun => ?_⟩
  obtain ⟨hidles, hmachine⟩ := (MachinePlan.gives_realise hhost _ before
    (Definition.fits_machinePlan hsettings d) hbefore).2 result w hrun
  obtain ⟨first, rest, rfl, hmakes⟩ :=
    (hd.ends_realise_machinePlan Host.silent config before).of_run hrun
  refine ⟨hidles, ?_⟩
  rintro _ ⟨⟩
  exact ⟨hmachine first rfl, _, _, hmakes.stands, rfl, hd.orderly.standsAt_startKeys⟩

namespace World

/-! ## The worlds that are attained -/

/-- **The worlds that a hierarchy attains** after `Act.startTree`: any `Call`, and `Act.subscribe`
to any machine. -/
inductive Attained (host : Host ρ γ) (d : Definition) (config : HierarchyConfig)
    (before : World ρ γ) (root : Link) : World ρ γ → Prop
  | start {w : World ρ γ} : (Act.startTree host d config).run before = some (.ok root, w) →
    World.Attained host d config before root w
  | call {w w' : World ρ γ} {call : Call} {outcome? : Option Outcome} :
    World.Attained host d config before root w →
    (call.perform host root).run w = some (outcome?, w') →
    World.Attained host d config before root w'
  | subscribe {w w' : World ρ γ} {link : Link} {subscriber : Nat} {handle? : Option Nat} :
    World.Attained host d config before root w →
    (Act.subscribe link subscriber).run w = some (handle?, w') →
    World.Attained host d config before root w'
  | unsubscribe {w w' : World ρ γ} {link : Link} {handle : Nat} :
    World.Attained host d config before root w →
    (Act.unsubscribe link handle).run w = some ((), w') →
    World.Attained host d config before root w'

/-- **`Act.wrap` around a machine that `Embodies` gives `Upright`.** -/
theorem Embodies.gives_wrap (hembodies : w.Embodies config d root) (htidy : w.Tidy settings)
    (hmachine : w.HasMachine root)
    (hhost : ∀ number tree?, host.Upholds settings
      (World.Upright settings config d number root tree?) False) :
    Act.Gives False (Act.wrap host root config) w fun _ w' =>
      ∃ number, w'.Upright settings config d number root (some number) := by
  have hpushed : World.Upright settings config d w.engines.size root w.tree?
      { w with engines := w.engines.push { root, config } } :=
    ⟨htidy.of_eq rfl rfl (Nat.le_refl _), hembodies.of_cells rfl rfl,
      ⟨_, Array.getElem?_push_size, rfl, rfl⟩, rfl⟩
  rw [Act.wrap]
  refine Act.gives_bind ((hhost w.engines.size w.tree?).openEngine config hpushed hmachine) ?_
  rintro number w₁ ⟨rfl, hw₁⟩
  exact Act.gives_modify ⟨_, hw₁.tidy.of_eq rfl rfl (Nat.le_refl _),
    hw₁.embodies.of_cells rfl rfl, hw₁.routes, rfl⟩

/-- **`Act.startTree` gives `Upright`.** -/
theorem upright_of_startTree (hd : d.Sound delimiter) (haround : around.MakesCalls settings root)
    (hsettings : settings (Definition.levelConfig config)) {depth : Nat}
    (hbefore : before.Tidy settings)
    (hrun : (Act.startTree (around.host depth) d config).run before = some (.ok root, w)) :
    ∃ number, w.Upright settings config d number root (some number) := by
  have hhost : ∀ number tree?, (around.host depth).Upholds settings
      (World.Upright settings config d number root tree?) False := fun _ _ =>
    haround.upholds (isInvariant_upright hd) depth
  have hmade := Act.gives_realise_embodies hd (hhost 0 none).toIsCalm hsettings hbefore
  have hstart : Act.Gives False (Act.startTree (around.host depth) d config) before
      fun result w => result = .ok root →
        ∃ number, w.Upright settings config d number root (some number) := by
    rw [Act.startTree]
    refine Act.gives_bind hmade ?_
    rintro result w₁ ⟨⟨htidy, -⟩, hok⟩
    cases result with
    | error error => exact Act.gives_pure (by simp)
    | ok first =>
      -- The root is the machine that the plan has made.
      by_cases hfirst : first = root
      · subst hfirst
        obtain ⟨hmachine, hembodies⟩ := hok first rfl
        exact Act.gives_bind (hembodies.gives_wrap htidy hmachine hhost) fun _ w₂ hw₂ =>
          Act.gives_pure fun _ => hw₂
      · have hwrap : Act.Gives False (Act.wrap (around.host depth) first config) w₁
            fun _ _ => True := ⟨False.elim, fun _ _ _ => trivial⟩
        refine Act.gives_bind hwrap fun _ _ _ => Act.gives_pure ?_
        rintro ⟨⟩
        exact absurd rfl hfirst
  exact hstart.2 _ _ hrun rfl

/-- **`Upright` holds in every world that is `Attained`**, by induction along the calls. -/
theorem Attained.upright (hd : d.Sound delimiter) (haround : around.MakesCalls settings root)
    (hsettings : settings (Definition.levelConfig config)) {depth : Nat}
    (hbefore : before.Tidy settings)
    (h : World.Attained (around.host depth) d config before root w) :
    ∃ number, w.Upright settings config d number root (some number) := by
  have hhost : ∀ number, (around.host depth).Upholds settings
      (World.Upright settings config d number root (some number)) False := fun _ =>
    haround.upholds (isInvariant_upright hd) depth
  induction h with
  | start hrun => exact upright_of_startTree hd haround hsettings hbefore hrun
  | @call w w' call outcome? _ hrun ih =>
    obtain ⟨number, hw⟩ := ih
    exact ⟨number, ((hhost number).perform root call w hw).2 _ _ hrun⟩
  | @subscribe w w' link subscriber handle? _ hrun ih =>
    obtain ⟨number, hw⟩ := ih
    exact ⟨number, ((hhost number).subscribe link subscriber w hw).2 _ _ hrun⟩
  | @unsubscribe w w' link handle _ hrun ih =>
    obtain ⟨number, hw⟩ := ih
    exact ⟨number, ((hhost number).unsubscribe link handle w hw).2 _ _ hrun⟩

end World

/-- `Act.instantiate` is `Act.startTree` if `d.hierarchyProblems` is `[]`. -/
theorem Act.run_instantiate (host : Host ρ γ) (before : World ρ γ)
    (hproblems : d.hierarchyProblems config.delimiter = some []) :
    (Act.instantiate host d config).run before =
      (do return (← Act.startTree host d config).mapError .build :
        Act ρ γ (Except InstantiateError Link)).run before := by
  rw [Act.instantiate, hproblems]

/-- **`Act.instantiate` comes to an end**: with a root if and only if `d.hierarchyProblems` is `[]`,
else with these problems, and never with an error in building a machine. -/
theorem Act.ends_instantiate (hdelimiter : config.delimiter ≠ "") (host : Host ρ γ)
    (before : World ρ γ) :
    Act.Ends (Act.instantiate host d config) before fun result _ =>
      ((∃ root, result = .ok root) ↔ d.hierarchyProblems config.delimiter = some []) ∧
      (∀ problems, result = .error (.invalid problems) →
        d.hierarchyProblems config.delimiter = some problems) ∧
      ∀ error, result ≠ .error (.build error) := by
  obtain ⟨problems, hproblems⟩ := Definition.exists_hierarchyProblems hdelimiter d
  rw [hproblems]
  cases problems with
  | nil =>
    have hd := Definition.sound_of_hierarchyProblems hproblems
    obtain ⟨_, w, hrun, root, -, rfl, -⟩ := Act.ends_startTree hd host config before
    refine ⟨.ok root, w, ?_, ⟨fun _ => rfl, fun _ => ⟨root, rfl⟩⟩, by simp, by simp⟩
    rw [Act.run_instantiate host before hproblems, StateT.run_bind, hrun]
    rfl
  | cons first rest =>
    rw [Act.instantiate, hproblems]
    exact Act.ends_pure ⟨by simp, by simp, by simp⟩

/-- **What can be instantiated, and that it mirrors its definition.** `Definition.hierarchyProblems`
comes to an end, and it is `[]` exactly if `Definition.problems` is and every target that is named
is declared on the level of its transition. `Act.instantiate` comes to an end, too. It gives a root
in this case and no other, else it reports the problems, and it never fails to build a machine. No
machine ever fails to build a child. Whatever events and signals the hierarchy is given afterwards,
and whoever listens (`World.Attained`), it mirrors the definition (`World.Mirrors`). -/
theorem Definition.instantiated_iff_and_mirrored (d : Definition) (config : HierarchyConfig)
    (hdelimiter : config.delimiter ≠ "") :
    (∃ problems, d.hierarchyProblems config.delimiter = some problems ∧
      (problems = [] ↔ d.problems config.delimiter = some [] ∧
        ∀ level ∈ d.levels, ∀ t ∈ level.transitions, ∀ name, t.target = .key name →
          level.declares name = true)) ∧
    (∀ (host : Host ρ γ) (before : World ρ γ),
      Act.Ends (Act.instantiate host d config) before fun result _ =>
        ((∃ root, result = .ok root) ↔ d.problems config.delimiter = some [] ∧
          ∀ level ∈ d.levels, ∀ t ∈ level.transitions, ∀ name, t.target = .key name →
            level.declares name = true) ∧
        (∀ problems, result = .error (.invalid problems) →
          d.hierarchyProblems config.delimiter = some problems) ∧
        ∀ error, result ≠ .error (.build error)) ∧
    (d.hierarchyProblems config.delimiter = some [] →
      (∀ level ∈ d.levels, level.BuildsChildren ρ γ config) ∧
      ∀ (around : Surroundings ρ γ) (depth : Nat) (before : World ρ γ),
        ∃ root w, (Act.startTree (around.host depth) d config).run before = some (.ok root, w) ∧
          (Act.instantiate (around.host depth) d config).run before = some (.ok root, w) ∧
          ∀ settings : MachineConfig → Prop, settings (levelConfig config) →
            before.Tidy settings → around.MakesCalls settings root →
            ∀ w', World.Attained (around.host depth) d config before root w' →
              w'.Mirrors config d root) := by
  refine ⟨?_, fun host before => ?_, fun hnone => ?_⟩
  · obtain ⟨problems, hproblems⟩ := exists_hierarchyProblems hdelimiter d
    refine ⟨problems, hproblems, ?_⟩
    rw [← hierarchyProblems_eq_nil_iff, hproblems, Option.some.injEq]
  · rw [← hierarchyProblems_eq_nil_iff]
    exact Act.ends_instantiate hdelimiter host before
  · have hd := sound_of_hierarchyProblems hnone
    refine ⟨fun level hlevel => hd.buildsChildren hlevel, fun around depth before => ?_⟩
    obtain ⟨_, w, hrun, root, -, rfl, -⟩ := Act.ends_startTree hd (around.host depth) config before
    have hinstantiated : (Act.instantiate (around.host depth) d config).run before =
        some (.ok root, w) := by
      rw [Act.run_instantiate _ before hnone, StateT.run_bind, hrun]
      rfl
    refine ⟨root, w, hrun, hinstantiated, fun settings hsettings hbefore haround w' hattained => ?_⟩
    obtain ⟨number, hw'⟩ := hattained.upright hd haround hsettings hbefore
    exact hw'.mirrors hd

/-- `instantiated_iff_and_mirrored` for `stairs`. -/
theorem Definition.stairs_mirrored :
    ({} : HierarchyConfig).delimiter ≠ "" ∧ stairs.hierarchyProblems "." = some [] ∧ ∃ root w,
      (Act.instantiate (Surroundings.quiet.host 1) stairs {}).run
        ({ guest := () } : World Unit Unit) = some (.ok root, w) ∧
      ∀ w' : World Unit Unit,
        World.Attained (Surroundings.quiet.host 1) stairs {} { guest := () } root w' →
        w'.Mirrors {} stairs root := by
  have hdelimiter : ({} : HierarchyConfig).delimiter ≠ "" := by decide
  have hproblems : stairs.hierarchyProblems "." = some [] := by decide +kernel
  obtain ⟨root, w, -, hrun, hmirrors⟩ :=
    ((instantiated_iff_and_mirrored stairs {} hdelimiter).2.2 hproblems).2 Surroundings.quiet 1
      { guest := () }
  exact ⟨hdelimiter, hproblems, root, w, hrun, hmirrors (fun _ => True) trivial
    (World.tidy_empty ()) (Surroundings.makesCalls_quiet root)⟩

end Statechart
