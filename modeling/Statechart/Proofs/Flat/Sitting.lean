import Statechart.Proofs.Flat.Exits
import Statechart.Proofs.Flat.Requests

/-! # A flat machine sits in a leaf

Whatever a machine of a flat form is asked, it goes from leaf to leaf of the definition, and makes
each leaf from the parameters of the event that leads there. It queues exits of terminal leaves
inside composites, and nothing else. This holds whenever anyone may look: before and after every
request, when subscribers learn of a change, and each time a follow-up is taken from the queue.

* `FlatDefinition.IsExit`: an event that entering a leaf may produce.
* **`Machine.Sits`**: a machine is in a leaf, and its queue is in order.
* `Machine.Sits.commit`: entering the state of an answer leads to a leaf.
* `World.SitsAt`: the machine at a link sits in a leaf.
* **`World.Moment.sitsAt`**: it does so at every moment.
* **`FlatDefinition.always_in_leaf`**: a flat machine is always in a declared leaf. -/

namespace Statechart

variable {ρ γ : Type} {flat : FlatDefinition} {config : FlattenConfig} {host : Host ρ γ}
  {around : Surroundings ρ γ} {w w' : World ρ γ} {link : Link} {m m' : Machine (StatePlan ρ)}
  {event : Event} {path : String} {params : Params} {leaf : FlatLeaf}

/-! ## Terminal leaves and their exits -/

namespace FlatDefinition

/-- Whether `leaf` is terminal: by its marker, or because nothing is answered under its path. -/
def isTerminal (flat : FlatDefinition) (policy : TerminalPolicy) (leaf : FlatLeaf) : Bool :=
  policy.isTerminal leaf.leaf.isFinal (flat.sources.contains leaf.path)

/-- **`event` is the exit of a leaf of `flat`** that is terminal and inside a composite. -/
def IsExit (flat : FlatDefinition) (config : FlattenConfig) (event : Event) : Prop :=
  ∃ leaf ∈ flat.leaves, event = .childExit (.path leaf.path) ∧
    Path.isQualified config.delimiter leaf.path = true ∧ flat.isTerminal config.terminal leaf = true

/-- `flat.table` has transitions at the members of `flat.sources`. -/
theorem hasTransitions_table :
    (flat.table (ρ := ρ)).hasTransitions path = flat.sources.contains path := by
  rw [Bool.eq_iff_iff, Table.hasTransitions_iff, List.contains_iff_mem, mem_sources_iff]
  refine exists_congr fun event => ?_
  rw [get?_table, Option.isSome_iff_exists]
  constructor
  · rintro ⟨spec, hspec⟩
    obtain ⟨target, htarget, -⟩ := Option.map_eq_some_iff.1 hspec
    exact ⟨target, htarget⟩
  · rintro ⟨target, htarget⟩
    exact ⟨flat.spec target, by rw [htarget]; rfl⟩

end FlatDefinition

/-- `m.isTerminal` of the state of a leaf is `flat.isTerminal`. -/
theorem Machine.RunsFlat.isTerminal_state (h : m.RunsFlat flat config) (leaf : FlatLeaf)
    (params : Params) :
    m.isTerminal (leaf.state params) = flat.isTerminal config.terminal leaf := by
  rw [Machine.isTerminal, h.table, h.settings, FlatLeaf.state, FlatDefinition.hasTransitions_table]
  rfl

/-- **`m.followUps` of the state of a leaf** is its exit, if it is terminal and inside a
composite. -/
theorem Machine.RunsFlat.followUps_state (h : m.RunsFlat flat config) (leaf : FlatLeaf)
    (params : Params) :
    m.followUps (leaf.state params) =
      if Path.isQualified config.delimiter leaf.path && flat.isTerminal config.terminal leaf then
        [.childExit (.path leaf.path)] else [] := by
  have hauto : m.config.autoExit = true := by
    rw [h.settings]
    rfl
  rw [Machine.followUps, h.lookup_eq]
  dsimp only
  rw [hauto, Bool.true_and, h.isTerminal_state]
  rfl

/-! ## The invariant of a machine -/

namespace Machine

/-- **The parameters of the event that entered the current state**: those of `m.change?`, and none
in the initial state. -/
def entryParams (m : Machine (StatePlan ρ)) : Params :=
  match m.change? with
  | none => []
  | some change => change.event.params

/-- **`m` sits in a leaf of the flat form that it runs.** The leaf is made from `m.entryParams`,
`m.change?` has entered it, and the queue holds exits (`IsExit`) only. No engine routes its
events. -/
structure Sits (m : Machine (StatePlan ρ)) (flat : FlatDefinition) (config : FlattenConfig) :
    Prop extends m.RunsFlat flat config where
  engine? : m.engine? = none
  leaf : ∃ leaf ∈ flat.leaves, m.current.state = leaf.state m.entryParams
  entered : ∀ change, m.change? = some change → change.target = m.current
  pending : ∀ event ∈ m.pending, flat.IsExit config event

/-- `Machine.start` in a leaf sits there. -/
theorem sits_start (hleaf : leaf ∈ flat.leaves) (id : MachineId) :
    (Machine.start id ⟨leaf.state [], flat.factory (ρ := ρ), flat.table,
      FlatDefinition.machineConfig config⟩).Sits flat config :=
  ⟨⟨rfl, rfl, rfl⟩, rfl, ⟨leaf, hleaf, rfl⟩, by rintro _ ⟨⟩, by rintro _ ⟨⟩⟩

/-- `Machine.Unmoved` keeps `Sits`. -/
theorem Sits.of_unmoved (h : m.Sits flat config) (hunmoved : m.Unmoved m')
    (hengine : m'.engine? = none) : m'.Sits flat config := by
  have hparams : m'.entryParams = m.entryParams := by
    rw [entryParams, hunmoved.change?, entryParams]
  refine ⟨⟨hunmoved.factory.trans h.factory, hunmoved.table.trans h.table,
    hunmoved.config.trans h.settings⟩, hengine, ?_, ?_, ?_⟩
  · rw [hunmoved.current, hparams]
    exact h.leaf
  · rw [hunmoved.current, hunmoved.change?]
    exact h.entered
  · rw [hunmoved.pending]
    exact h.pending

/-- `Sits` for another queue of exits. -/
theorem Sits.setPending (h : m.Sits flat config) {pending : List Event}
    (hpending : ∀ event ∈ pending, flat.IsExit config event) :
    Sits { m with pending } flat config :=
  ⟨h.toRunsFlat.setPending pending, h.engine?, h.leaf, h.entered, hpending⟩

/-- **`m.commit` to what `m.finds?` finds gives `Sits`.** -/
theorem Sits.commit (h : m.Sits flat config) {found : String × State}
    (hfound : m.finds? flat event = some (some found)) :
    (m.commit (m.changeTo event m.current found.2)).Sits flat config := by
  obtain ⟨paths, -, hmade⟩ := of_finds? hfound
  obtain ⟨-, -, hleaf⟩ := FlatDefinition.of_made? hmade
  exact ⟨h.toRunsFlat.commit _, h.engine?, hleaf, by rintro _ ⟨⟩; rfl, h.pending⟩

/-- `m.followUps` of what `m.finds?` finds are exits. -/
theorem Sits.isExit_of_mem_followUps (h : m.Sits flat config) {found : String × State}
    (hfound : m.finds? flat event = some (some found)) :
    ∀ exit ∈ m.followUps found.2, flat.IsExit config exit := by
  obtain ⟨paths, -, hmade⟩ := of_finds? hfound
  obtain ⟨-, -, leaf, hleaf, hstate⟩ := FlatDefinition.of_made? hmade
  intro exit hexit
  rw [hstate, h.followUps_state] at hexit
  split at hexit
  · rename_i hterminal
    rw [Bool.and_eq_true] at hterminal
    exact ⟨leaf, hleaf, List.mem_singleton.1 hexit, hterminal⟩
  · cases hexit

end Machine

/-! ## The invariant of a world -/

/-- **The machine at `link` sits in a leaf** (`Machine.Sits`). -/
def World.SitsAt (link : Link) (flat : FlatDefinition) (config : FlattenConfig) (w : World ρ γ) :
    Prop :=
  ∃ m, w.machine? link = some m ∧ m.Sits flat config

/-- `World.Spares` keeps `World.SitsAt`. -/
theorem World.SitsAt.of_spares (h : w.SitsAt link flat config) (hspares : w.Spares link w') :
    w'.SitsAt link flat config := by
  obtain ⟨m, hm, hsits⟩ := h
  obtain ⟨m', hm', hunmoved, hengine⟩ := hspares m hm
  exact ⟨m', hm', hsits.of_unmoved hunmoved (hengine.trans hsits.engine?)⟩

namespace Act

/-- `Act.enter` keeps `World.SitsAt`, and gives exits only. -/
theorem gives_enter_sits (hw : w.SitsAt link flat config) (event : Event) :
    Gives False (enter host link event) w fun result w' => w'.SitsAt link flat config ∧
      ∀ entered, result = some entered → ∀ exit ∈ entered.2, flat.IsExit config exit := by
  obtain ⟨m, hm, hsits⟩ := hw
  refine ⟨False.elim, fun result w' hrun => ?_⟩
  rw [run_enter hm hsits.toRunsFlat] at hrun
  obtain ⟨found?, hfinds, heq⟩ := Option.map_eq_some_iff.1 hrun
  cases found? with
  | none =>
    cases heq
    exact ⟨⟨m, hm, hsits⟩, by simp⟩
  | some found =>
    cases heq
    refine ⟨⟨_, World.machine?_setCell_self hm, hsits.commit hfinds⟩, ?_⟩
    rintro _ ⟨⟩
    exact hsits.isExit_of_mem_followUps hfinds

/-- `Act.popPending` upholds `World.SitsAt`. -/
theorem upholds_popPending_sits :
    Upholds (World.SitsAt link flat config) (popPending link : Act ρ γ (Option Event)) := by
  rintro w ⟨m, hm, hsits⟩
  cases hpending : m.pending with
  | nil =>
    refine (ends_popPending_of_nil hm hpending).gives.mono ?_
    rintro _ _ ⟨-, rfl⟩
    exact ⟨m, hm, hsits⟩
  | cons event rest =>
    have hrest : Machine.Sits { m with pending := rest } flat config :=
      hsits.setPending fun exit hexit =>
        hsits.pending exit (hpending ▸ List.mem_cons_of_mem _ hexit)
    exact (ends_popPending_of_cons hm hpending).gives.mono fun _ _ hw' => ⟨_, hw'.2, hrest⟩

/-- `Act.pushPending` keeps `World.SitsAt`. -/
theorem gives_pushPending_sits (hw : w.SitsAt link flat config) {events : List Event}
    (hevents : ∀ event ∈ events, flat.IsExit config event) :
    Gives False (pushPending link events) w fun _ w' => w'.SitsAt link flat config := by
  obtain ⟨m, hm, hsits⟩ := hw
  refine (ends_pushPending_of_machine? hm events).gives.mono fun _ _ hm' => ⟨_, hm', ?_⟩
  exact hsits.setPending fun event hevent =>
    (List.mem_append.1 hevent).elim (hsits.pending event) (hevents event)

/-- `Act.cancelPending` upholds `World.SitsAt`. -/
theorem upholds_cancelPending_sits :
    Upholds (World.SitsAt link flat config) (cancelPending link : Act ρ γ Nat) := by
  rintro w ⟨m, hm, hsits⟩
  exact (ends_cancelPending_of_machine? hm).gives.mono fun _ _ hm' =>
    ⟨_, hm', hsits.setPending (by rintro _ ⟨⟩)⟩

section Requests

variable (hobserve : ∀ subscriber change,
  Upholds (World.SitsAt link flat config) (host.observe subscriber change))

include hobserve

/-- `Act.notify` upholds `World.SitsAt` if `observe` does. -/
theorem upholds_notify_sits (change : Change) :
    Upholds (World.SitsAt link flat config) (notify host link change) := by
  rintro w ⟨m, hm, hsits⟩
  rw [notify]
  refine gives_get ?_
  simp only [hm]
  exact upholds_forM (fun subscriber _ => hobserve subscriber change) w ⟨m, hm, hsits⟩

/-- **`Act.step` keeps `World.SitsAt`**, and gives exits only. -/
theorem gives_step_sits (hw : w.SitsAt link flat config) (event : Event) :
    Gives False (step host link event) w fun result w' => w'.SitsAt link flat config ∧
      ∀ entered, result = some entered → ∀ exit ∈ entered.2, flat.IsExit config exit := by
  rw [step_eq]
  refine gives_bind (gives_enter_sits hw event) ?_
  rintro (_ | ⟨change, followUps⟩) w₁ ⟨hw₁, hexits⟩
  · exact gives_pure ⟨hw₁, hexits⟩
  · refine gives_bind (upholds_notify_sits hobserve change w₁ hw₁) fun _ w₂ hw₂ => ?_
    exact gives_pure ⟨hw₂, hexits⟩

/-- **`Act.flushWithin` upholds `World.SitsAt`.** -/
theorem upholds_flushWithin_sits (bound : Nat) :
    Upholds (World.SitsAt link flat config) (flushWithin host link bound) := by
  induction bound with
  | zero => exact upholds_cancelPending_sits.discard.bind fun _ => upholds_pure _
  | succ bound ih =>
    refine upholds_popPending_sits.bind fun event? => ?_
    cases event? with
    | none => exact upholds_pure _
    | some event =>
      intro w hw
      refine gives_bind (gives_step_sits hobserve hw event) ?_
      rintro (_ | ⟨change, followUps⟩) w₁ ⟨hw₁, hexits⟩
      · exact ih w₁ hw₁
      · exact gives_bind (gives_pushPending_sits hw₁ (hexits _ rfl)) fun _ w₂ hw₂ =>
          gives_bind (ih w₂ hw₂) fun _ _ hw₃ => gives_pure hw₃

/-- `Act.flush` upholds `World.SitsAt`. -/
theorem upholds_flush_sits : Upholds (World.SitsAt link flat config) (flush host link) := by
  refine upholds_get fun w hw => ?_
  split
  · exact gives_pure hw
  · exact upholds_flushWithin_sits hobserve _ w hw

/-- `Act.settle` keeps `World.SitsAt`. -/
theorem gives_settle_sits (hw : w.SitsAt link flat config) {followUps : List Event}
    (hexits : ∀ exit ∈ followUps, flat.IsExit config exit) :
    Gives False (settle host link followUps) w fun _ w' => w'.SitsAt link flat config := by
  rw [settle]
  split
  · exact gives_pure hw
  · refine gives_bind (gives_pushPending_sits hw hexits) fun _ w₁ hw₁ => gives_get ?_
    split
    · exact gives_pure hw₁
    · split
      · exact (upholds_flush_sits hobserve).discard w₁ hw₁
      · exact gives_pure hw₁

/-- **`Act.dispatch` upholds `World.SitsAt`.** -/
theorem upholds_dispatch_sits (event : Event) :
    Upholds (World.SitsAt link flat config) (dispatch host link event) := by
  rintro w ⟨m, hm, hsits⟩
  rw [dispatch]
  refine gives_get ?_
  simp only [hm, hsits.engine?, Option.filter_none]
  rw [dispatchLocal]
  refine gives_bind (gives_step_sits hobserve ⟨m, hm, hsits⟩ event) ?_
  rintro (_ | ⟨change, followUps⟩) w₁ ⟨hw₁, hexits⟩
  · exact gives_get (gives_pure hw₁)
  · refine gives_get ?_
    split
    · rename_i heq _
      cases heq
      exact gives_bind (gives_settle_sits hobserve hw₁ (hexits _ rfl)) fun _ _ hw₂ => gives_pure hw₂
    · exact gives_pure hw₁

/-- **`Request.perform` upholds `World.SitsAt`.** -/
theorem upholds_perform_sits (request : Request) :
    Upholds (World.SitsAt link flat config) (request.perform host link) := by
  cases request with
  | send name params =>
    refine UpholdsIf.discard ?_
    rw [sendNamed]
    split
    · exact upholds_pure _
    · exact upholds_dispatch_sits hobserve _
  | dispatch event => exact (upholds_dispatch_sits hobserve event).discard
  | flush => exact (upholds_flush_sits hobserve).discard
  | cancel => exact upholds_cancelPending_sits.discard

/-! ## What comes up during a request -/

/-- `World.SitsAt` holds in the worlds of `Act.FlushShows`. -/
theorem FlushShows.sitsAt {bound : Nat} (h : FlushShows host link bound w w')
    (hw : w.SitsAt link flat config) : w'.SitsAt link flat config := by
  induction h with
  | turn => exact hw
  | enters hpop henters =>
    obtain ⟨entered, henter⟩ := henters
    exact ((gives_enter_sits ((upholds_popPending_sits _ hw).2 _ _ hpop) _).2 _ _ henter).1
  | dropped hpop hstep _ ih =>
    have hw₁ := (upholds_popPending_sits _ hw).2 _ _ hpop
    exact ih ((gives_step_sits hobserve hw₁ _).2 _ _ hstep).1
  | applied hpop hstep hpush _ ih =>
    have hw₁ := (upholds_popPending_sits _ hw).2 _ _ hpop
    obtain ⟨hw₂, hexits⟩ := (gives_step_sits hobserve hw₁ _).2 _ _ hstep
    exact ih ((gives_pushPending_sits hw₂ (hexits _ rfl)).2 _ _ hpush)

/-- `World.SitsAt` holds in the worlds of `Act.EventShows`. -/
theorem EventShows.sitsAt (h : EventShows host link event w w') (hw : w.SitsAt link flat config) :
    w'.SitsAt link flat config := by
  cases h with
  | enters henters =>
    obtain ⟨entered, henter⟩ := henters
    exact ((gives_enter_sits hw _).2 _ _ henter).1
  | settles hstep _ hpush _ _ hflush =>
    obtain ⟨hw₁, hexits⟩ := (gives_step_sits hobserve hw _).2 _ _ hstep
    exact hflush.sitsAt hobserve ((gives_pushPending_sits hw₁ (hexits _ rfl)).2 _ _ hpush)

end Requests

end Act

/-- **`World.SitsAt` holds at every `World.Moment`.** -/
theorem World.Moment.sitsAt {depth : Nat} (h : w.Moment around link depth w')
    (hasks : around.Asks link) (hw : w.SitsAt link flat config) : w'.SitsAt link flat config := by
  refine h.invariant hasks (fun _ _ => World.SitsAt.of_spares) ?_ hw
  refine fun host hobserve request => ⟨Act.upholds_perform_sits hobserve request, ?_⟩
  rintro w w' hw hshows
  cases request with
  | send name params => exact hshows.2.sitsAt hobserve hw
  | dispatch event => exact Act.EventShows.sitsAt hobserve hshows hw
  | flush =>
    obtain ⟨m, -, hflush⟩ := hshows
    exact hflush.sitsAt hobserve hw
  | cancel => exact hshows.elim

/-! ## Flat machines -/

/-- `Act.startFlat` of a flat form that `Lands` gives `World.SitsAt`. -/
theorem FlatDefinition.Lands.ends_startFlat_sits (h : flat.Lands) (config : FlattenConfig)
    (host : Host ρ γ) (w : World ρ γ) :
    Act.Ends (Act.startFlat host flat config) w fun result w' => ∃ link, result = .ok link ∧
      w'.SitsAt link flat config := by
  refine (h.ends_startFlat_machine config host w).mono ?_
  rintro _ w' ⟨link, leaf, hleaf, rfl, -, hm⟩
  exact ⟨link, rfl, _, hm, Machine.sits_start hleaf _⟩

namespace FlatDefinition

variable {d : Definition} {keys : List String} {l : LeafDef}

/-- The leaves of `ofDefinition` are those that `StateDef.at?` finds. -/
theorem exists_at?_of_mem_leaves (hone : config.delimiter.length = 1)
    (h : ofDefinition config d = some (.ok flat)) (hleaf : leaf ∈ flat.leaves) :
    ∃ keys l, (StateDef.composite d).at? keys = some (.leaf l) ∧
      leaf = ⟨config.delimiter.intercalate keys, l⟩ := by
  obtain ⟨hproblems, whole, hwhole, hsettled⟩ := exists_of_ofDefinition h
  have hrenders := renders_of_assemble (Definition.orderly_of_problems hproblems) hone hwhole
  rw [(eq_of_settleCollisions hsettled).1] at hleaf
  exact (hrenders.mem_leaves_iff leaf).1 hleaf

/-- `flat.leaf?` at the path of a leaf of `d` is this leaf, and `flat.compositeInitial?` is `none`
there. -/
theorem leaf?_of_at? (hone : config.delimiter.length = 1)
    (h : ofDefinition config d = some (.ok flat))
    (hat : (StateDef.composite d).at? keys = some (.leaf l)) :
    flat.leaf? (config.delimiter.intercalate keys) =
        some ⟨config.delimiter.intercalate keys, l⟩ ∧
      flat.compositeInitial? (config.delimiter.intercalate keys) = none := by
  obtain ⟨hproblems, whole, hwhole, hsettled⟩ := exists_of_ofDefinition h
  have hd := Definition.orderly_of_problems hproblems
  have hrenders := renders_of_assemble hd hone hwhole
  have hleaves := (eq_of_settleCollisions hsettled).1
  have hmem := (hrenders.mem_leaves_iff _).2 ⟨keys, l, hat, rfl⟩
  constructor
  · rw [leaf?, hleaves]
    -- No two leaves have one path, so that the first one with this path is the leaf.
    cases hfound : whole.leaves.find? (·.path == config.delimiter.intercalate keys) with
    | none => exact absurd (beq_self_eq_true _) (List.find?_eq_none.1 hfound _ hmem)
    | some found =>
      have hpath := List.find?_some hfound
      rw [hrenders.eq_of_mem_leaves (List.mem_of_find?_eq_some hfound) (beq_iff_eq.1 hpath) hat]
  · -- Neither have a leaf and a composite.
    rw [compositeInitial?, (names_of_settleCollisions hsettled).2]
    refine Option.eq_none_iff_forall_ne_some.2 fun initial hinitial => ?_
    obtain ⟨keys', inner, hkeys', hat', hpath⟩ := exists_of_compositeInitial? hd hwhole hinitial
    obtain rfl : keys = keys' := Path.intercalate_inj (hd.delimits hone hat)
      (hd.delimits hone hat') (Definition.StandsAt.ne_nil ⟨l, hat⟩) hkeys' hpath
    rw [hat] at hat'
    cases hat'

/-- **`Act.startFlat` is `Act.found` in `d.leafState` of `d.startKeys`**, whatever
`config.eventCollision` is. -/
theorem startFlat_eq (hone : config.delimiter.length = 1)
    (h : ofDefinition config d = some (.ok flat)) (host : Host ρ γ) :
    (Act.startFlat host flat config : Act ρ γ _) = Act.found
      ⟨d.leafState config.delimiter d.startKeys [], flat.factory, flat.table,
        machineConfig config⟩ := by
  obtain ⟨hproblems, whole, hwhole, hsettled⟩ := exists_of_ofDefinition h
  have hrenders := renders_of_assemble (Definition.orderly_of_problems hproblems) hone hwhole
  obtain ⟨hleaves, hinitial, -⟩ := eq_of_settleCollisions hsettled
  obtain ⟨l, hl⟩ := hrenders.orderly.standsAt_startKeys
  obtain ⟨leaf, hleaf, hpath, hrealise⟩ :=
    (lands_of_ofDefinition h).exists_realise_machinePlan config host
  rw [hleaves] at hleaf
  rw [hinitial, hrenders.initial_eq] at hpath
  rw [Act.startFlat, hrealise, hrenders.eq_of_mem_leaves hleaf hpath hl,
    Definition.leafState_of_at? hl]

/-- `Act.startFlat` starts a machine in any world. -/
theorem exists_startFlat (hone : config.delimiter.length = 1)
    (h : ofDefinition config d = some (.ok flat)) (host : Host ρ γ) (before : World ρ γ) :
    ∃ start, (Act.startFlat host flat config).run before = some (.ok ⟨before.cells.size⟩, start) ∧
      start.machine? ⟨before.cells.size⟩ = some (Machine.start (.minted before.minted)
        ⟨d.leafState config.delimiter d.startKeys [], flat.factory, flat.table,
          machineConfig config⟩) := by
  rw [startFlat_eq hone h]
  obtain ⟨_, start, hrun, rfl, -, -, hm⟩ := Act.ends_found host
  exact ⟨start, hrun, hm⟩

/-- **A flat machine is always in a declared leaf.** Let `flat` be the flat form of `d` under any
`config` with a delimiter of one character. Then `Act.startFlat` gives a machine at some `link`. At
every `World.Moment` after that, while subscribers ask the machine for what they like
(`around.Asks link`), there are `keys` that lead to a `leaf` of `d`, such that `m.current.state.key`
is `config.delimiter.intercalate keys`. The flat form lists this path as that leaf and not as a
composite, the state has the marker of the leaf and no child, and its data is
`leaf.data change.event.params` for the last `change`, or `leaf.data []` if there was none. -/
theorem always_in_leaf (hone : config.delimiter.length = 1)
    (h : ofDefinition config d = some (.ok flat)) (around : Surroundings ρ γ) (depth : Nat)
    (before : World ρ γ) :
    ∃ link start, (Act.startFlat (around.host depth) flat config).run before =
        some (.ok link, start) ∧
      (around.Asks link → ∀ w, start.Moment around link depth w →
        ∃ m keys leaf, w.machine? link = some m ∧
          (StateDef.composite d).at? keys = some (.leaf leaf) ∧
          m.current.state.key = config.delimiter.intercalate keys ∧
          flat.leaf? m.current.state.key = some ⟨m.current.state.key, leaf⟩ ∧
          flat.compositeInitial? m.current.state.key = none ∧
          m.current.state.isFinal = leaf.isFinal ∧ m.current.state.child = none ∧
          (m.change? = none → m.current.state.data = leaf.data []) ∧
          ∀ change, m.change? = some change → change.target = m.current ∧
            m.current.state.data = leaf.data change.event.params) := by
  obtain ⟨_, start, hstart, link, rfl, hsits⟩ :=
    (lands_of_ofDefinition h).ends_startFlat_sits config (around.host depth) before
  refine ⟨link, start, hstart, fun hasks w hmoment => ?_⟩
  obtain ⟨m, hm, hsits⟩ := hmoment.sitsAt hasks hsits
  -- The state is that of a leaf of the flat form, and its leaves are those of the definition.
  obtain ⟨leaf, hleaf, hstate⟩ := hsits.leaf
  obtain ⟨keys, l, hat, rfl⟩ := exists_at?_of_mem_leaves hone h hleaf
  obtain ⟨hfound, hnone⟩ := leaf?_of_at? hone h hat
  refine ⟨m, keys, l, hm, hat, ?_⟩
  rw [hstate]
  refine ⟨rfl, hfound, hnone, rfl, rfl, fun hchange => ?_, fun change hchange => ?_⟩
  · rw [Machine.entryParams, hchange]
    rfl
  · refine ⟨hsits.entered change hchange, ?_⟩
    rw [Machine.entryParams, hchange]
    rfl

/-- `always_in_leaf` for `checkout` in `World.checkoutCancelled`, the world in which subscribers
learn that the payment is cancelled, while they learn that it was authorized. The leaf is
`"Cart"`. -/
theorem checkout_always_in_leaf :
    ∃ m keys leaf, World.checkoutCancelled.machine? ⟨0⟩ = some m ∧
      (StateDef.composite .checkout).at? keys = some (.leaf leaf) ∧
      m.current.state.key = ".".intercalate keys ∧ m.current.state.key = "Cart" ∧
      ∃ change, m.change? = some change ∧ change.target = m.current ∧
        m.current.state.data = leaf.data change.event.params := by
  have hone : ({} : FlattenConfig).delimiter.length = 1 := by decide
  have hwatched : ((Act.subscribe ⟨0⟩ 7).run World.checkout).isSome = true := by decide +kernel
  have hauthorized : ((Act.enter (World.cancelling.host (2 + 1)) ⟨0⟩
      (.domain "authorize" [])).run World.checkoutWatched).map (·.1.isSome) = some true := by
    decide +kernel
  have hcancelled : ((Act.enter (World.cancelling.host 2) ⟨0⟩ (.domain "cancel" [])).run
      World.checkoutAuthorized).map (·.1.isSome) = some true := by decide +kernel
  have hcart : (World.checkoutCancelled.machine? ⟨0⟩).map
      (fun m => (m.current.state.key, m.change?.isSome)) = some ("Cart", true) := by decide +kernel
  obtain ⟨_, hsubscribed⟩ := Act.run_eq_after hwatched
  -- One request is made inside the other, and both show a moment at which subscribers are told.
  have houter : (Request.send "authorize" []).Shows (World.cancelling.host (2 + 1)) ⟨0⟩
      World.checkoutWatched World.checkoutAuthorized :=
    ⟨by decide, .enters (Act.enters_after hauthorized)⟩
  have hinner : (Request.send "cancel" []).Shows (World.cancelling.host 2) ⟨0⟩
      World.checkoutAuthorized World.checkoutCancelled :=
    ⟨by decide, .enters (Act.enters_after hcancelled)⟩
  obtain ⟨link, start, hstart, halways⟩ :=
    always_in_leaf hone ofDefinition_checkout World.cancelling 3 { guest := () }
  rw [World.run_startFlat_checkout] at hstart
  cases hstart
  obtain ⟨m, keys, leaf, hm, hat, hkey, -, -, -, -, -, hdata⟩ :=
    halways (Surroundings.asks_prompt ⟨0⟩ "cancel") World.checkoutCancelled
      (.later (.spares (World.spares_of_run_subscribe hsubscribed) .done)
        (.inside houter (.during hinner)))
  rw [hm] at hcart
  obtain ⟨hkey', hchange⟩ := Prod.mk.inj (Option.some.inj hcart)
  obtain ⟨change, hchange⟩ := Option.isSome_iff_exists.1 hchange
  exact ⟨m, keys, leaf, hm, hat, hkey, hkey', change, hchange, hdata change hchange⟩

end FlatDefinition

end Statechart
