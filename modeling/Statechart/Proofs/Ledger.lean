import Statechart.Proofs.Changelog
import Statechart.Proofs.World.Register

/-! # The ledger of an engine

From time to time an engine brings its registrations in line with the active chain: before and after
events that it handles, also those that are sent while somebody is told of another one. Its ledger
lists the children that were on the chain each time, and whatever happens in between, the register
of the engine is balanced.

* `World.Ledger`, `World.Ledger.balances`: one entry for each time, and the register after that.
* `Job`: an errand, an event for a child of any kind, or another hierarchy.
* `Host.Reacts`, **`Host.CarriesTraffic`**: what surroundings do when they are told of something.
* **`World.Unfolds`**: the worlds that come up when jobs are done one after the other, or one in the
  middle of the other.
* `Surroundings.carriesTraffic`: subscribers that do jobs through the host that they are given.
* **`World.Unfolds.calls_balance`**: in all of these worlds the register is balanced, and those who
  watch are told of another chain the next time that registrations are brought in line. -/

namespace Statechart

variable {ρ γ : Type}

/-! ## Ledgers -/

/-- `w` with one more engine, at `root` with `config`. -/
def World.withEngine (w : World ρ γ) (root : Link) (config : HierarchyConfig) : World ρ γ :=
  { w with engines := w.engines.push { root, config } }

/-- **The ledger of the engine `number`** from the world `start` on: `w.chainIds e` for each
`Act.sync` of it, the last one first. In between there is only `KeepsRegister number`. -/
inductive World.Ledger (number : Nat) (start : World ρ γ) :
    List (List MachineId) → World ρ γ → Prop
  | start : World.Ledger number start [] start
  | apart {history : List (List MachineId)} {w w' : World ρ γ} :
    World.Ledger number start history w → w.KeepsRegister number w' →
    World.Ledger number start history w'
  | sync {host : Host ρ γ} {history : List (List MachineId)} {w w' : World ρ γ} {e : Engine}
    {levels : List Level} :
    World.Ledger number start history w → host.AdoptsApart number → w.engines[number]? = some e →
    (Act.sync host.unwatched number).run w = some (levels, w') →
    World.Ledger number start (w.chainIds e :: history) w'

/-- **`w` has some `World.Ledger`** for the engine that `before.withEngine root config` has
added. -/
def World.Accounts (before : World ρ γ) (root : Link) (config : HierarchyConfig) (w : World ρ γ) :
    Prop :=
  ∃ history, (before.withEngine root config).Ledger before.engines.size history w

section Ledger

variable {host : Host ρ γ} {before w w' : World ρ γ} {root : Link} {config : HierarchyConfig}
  {id : MachineId} {history : List (List MachineId)} {number : Nat}

namespace World

/-- The engine of `before.withEngine root config` is at `before.engines.size`. -/
theorem getElem?_withEngine (before : World ρ γ) (root : Link) (config : HierarchyConfig) :
    (before.withEngine root config).engines[before.engines.size]? =
      some { root, config } := by
  rw [withEngine, Array.getElem?_push, if_pos rfl]

/-- **`Balances` holds wherever there is a `Ledger`**, and `e.attached` has the identities of the
first list in `history`. -/
theorem Ledger.balances (h : (before.withEngine root config).Ledger before.engines.size history w)
    (hroot : before.id? root = some id) :
    ∃ e, w.engines[before.engines.size]? = some e ∧ e.root = root ∧ w.Balances id e ∧
      w.idsOf e.attached = history.headD [] := by
  induction h with
  | start =>
    -- An engine is made with nobody registered and no calls.
    refine ⟨_, getElem?_withEngine before root config, rfl, ⟨hroot, ?_, ?_, ?_, ?_, ?_⟩, rfl⟩
    · rintro _ ⟨⟩
    · exact List.nodup_nil
    · rintro ⟨⟩
    · exact fun _ => trivial
    · exact fun _ => ⟨nofun, nofun⟩
  | apart _ hkeeps ih =>
    obtain ⟨e, he, heroot, hbalances, hhistory⟩ := ih
    -- Others leave the register alone.
    obtain ⟨e', he', heroot', -⟩ := hkeeps.engine e he
    obtain ⟨hbalances', hids⟩ := hbalances.keeps he hkeeps he'
    exact ⟨e', he', heroot'.trans heroot, hbalances', hids.trans hhistory⟩
  | sync _ hhost he hrun ih =>
    obtain ⟨e, he₁, heroot, hbalances, -⟩ := ih
    rw [he] at he₁
    cases he₁
    -- The engine brings it in line with the chain.
    have haligns := (Act.gives_sync_aligns hhost he hbalances.known).2 _ _ hrun
    obtain ⟨e', he', heroot', -⟩ := haligns.engine _ he
    obtain ⟨hbalances', hids⟩ := hbalances.aligns he haligns he'
    exact ⟨e', he', heroot'.trans heroot, hbalances', hids⟩

/-- `Accounts` is kept by `KeepsRegister`. -/
theorem Accounts.keeps (h : before.Accounts root config w)
    (hkeeps : w.KeepsRegister before.engines.size w') : before.Accounts root config w' := by
  obtain ⟨history, hledger⟩ := h
  exact ⟨history, hledger.apart hkeeps⟩

/-- `Accounts` is kept when a device has another memory. -/
theorem Accounts.device {child : Link} {device : Device} {memory memory' : Nat}
    (h : before.Accounts root config w) (hc : w.cell? child = some (.device id device memory)) :
    before.Accounts root config (w.setCell child (.device id device memory')) :=
  h.keeps (.setCell hc rfl)

end World

/-- **`Act.sync host.unwatched` keeps `Accounts`**, whichever engine it is for. -/
theorem Act.gives_sync_accounts (hhost : host.AdoptsApart before.engines.size)
    (hw : before.Accounts root config w) :
    Act.Gives False (Act.sync host.unwatched number) w fun _ w' =>
      before.Accounts root config w' := by
  refine ⟨False.elim, fun levels w' hrun => ?_⟩
  by_cases hne : number = before.engines.size
  · subst hne
    obtain ⟨history, hledger⟩ := hw
    cases he : w.engines[before.engines.size]? with
    | none =>
      have hnothing : (Act.sync host.unwatched before.engines.size).run w = some ([], w) := by
        simp [Act.sync, he]
      cases hnothing.symm.trans hrun
      exact ⟨history, hledger⟩
    | some e => exact ⟨_, hledger.sync hhost he hrun⟩
  · exact hw.keeps ((Act.grows_sync_of_ne hhost hne w).2 levels w' hrun)

end Ledger

/-! ## Jobs -/

/-- **What can be asked for**: an `Errand`, an event for a child of any kind, or another
hierarchy. -/
inductive Job where
  /-- An errand to machines, or to the hierarchy in use. Its root is given. -/
  | errand (root : Link) (task : Errand)
  /-- A child of any kind is to get an event. -/
  | send (child : Link) (event : Event)
  /-- A hierarchy is to be made around a machine. -/
  | wrap (root : Link) (config : HierarchyConfig)

/-- **What happens when a `Job` is done.** -/
def Job.perform (host : Host ρ γ) : Job → Act ρ γ Unit
  | .errand root task => task.perform host root
  | .send child event => discard <| Act.send host child event
  | .wrap root config => Act.wrap host root config

/-- **What `host` does between `w` and `w'` on its own account**: `observe` a change, `deliver` an
event, or be told of a graph by `redrawn`. -/
inductive Host.Reacts (host : Host ρ γ) : World ρ γ → World ρ γ → Prop
  | observe {subscriber : Nat} {change : Change} {w w' : World ρ γ} :
    (host.observe subscriber change).run w = some ((), w') → host.Reacts w w'
  | deliver {link : Link} {event : Event} {outcome? : Option Outcome} {w w' : World ρ γ} :
    (host.deliver link event).run w = some (outcome?, w') → host.Reacts w w'
  | redrawn {graph : ShapeGraph} {w w' : World ρ γ} :
    (host.redrawn graph).run w = some ((), w') → host.Reacts w w'

/-- **`host` makes and adopts children without touching the register** of the engine `number`: what
`registered` and `enrol` do is `World.KeepsRegister number`. -/
structure Host.MakesApart (number : Nat) (host : Host ρ γ) : Prop where
  registered : host.AdoptsApart number
  enrol : host.EnrolsWithin (World.KeepsRegister number)

open Classical in
/-- `act`, or no result at all in a world with `stops`. -/
noncomputable def Act.unless {α : Type} (stops : World ρ γ → Prop) (act : Act ρ γ α) :
    Act ρ γ α := do
  if stops (← get) then failure else act

/-- **`host` with `Act.unless stops`** wherever it is told of something: `observe`, `deliver` and
`redrawn`. -/
noncomputable def Host.breakingOff (host : Host ρ γ) (stops : World ρ γ → Prop) : Host ρ γ where
  observe subscriber change := .unless stops (host.observe subscriber change)
  deliver link event := .unless stops (host.deliver link event)
  enrol := host.enrol
  registered := host.registered
  redrawn graph := .unless stops (host.redrawn graph)

/-- **While `job` is done, somebody is told of something in the world `w₁`**: with
`host.breakingOff (· = w₁)` it does not come to the end that it comes to with `host`. -/
def Job.TellsIn (job : Job) (host : Host ρ γ) (w w₁ : World ρ γ) : Prop :=
  ∃ w', (job.perform host).run w = some ((), w') ∧
    (job.perform (host.breakingOff (· = w₁))).run w ≠ some ((), w')

/-- **The worlds that come up from `w` on**, for the register of the engine `number`: `w` itself up
to `KeepsRegister`, the world after a `Job` (`job`), and each world in which somebody is told of
something during a `Job` (`midway`), and so on from there. Each `Job` may have a host of its own,
with `MakesApart`, whose reactions unfold as well. -/
inductive World.Unfolds (number : Nat) : World ρ γ → World ρ γ → Prop
  | apart {w w' : World ρ γ} : w.KeepsRegister number w' → World.Unfolds number w w'
  | trans {w w' w'' : World ρ γ} : World.Unfolds number w w' → World.Unfolds number w' w'' →
    World.Unfolds number w w''
  | job {host : Host ρ γ} {job : Job} {w w' : World ρ γ} : host.MakesApart number →
    (∀ w w', host.Reacts w w' → World.Unfolds number w w') →
    (job.perform host).run w = some ((), w') → World.Unfolds number w w'
  | midway {host : Host ρ γ} {job : Job} {w w' : World ρ γ} : host.MakesApart number →
    (∀ w w', host.Reacts w w' → World.Unfolds number w w') →
    job.TellsIn host w w' → World.Unfolds number w w'

/-- **`host` only does jobs when it is told of something**: `MakesApart`, and whatever it `Reacts`
is `World.Unfolds`. -/
structure Host.CarriesTraffic (number : Nat) (host : Host ρ γ) : Prop
    extends host.MakesApart number where
  reacts : ∀ w w', host.Reacts w w' → w.Unfolds number w'

/-! ## What all jobs do to a register -/

section Jobs

variable {host : Host ρ γ} {before w w' : World ρ γ} {root : Link} {config : HierarchyConfig}
  {id : MachineId} {number : Nat} {stops : World ρ γ → Prop}

/-- `Act.enter` leaves the register alone, if `host.enrol` does. -/
theorem Act.grows_enter (henrol : host.EnrolsWithin (World.KeepsRegister number)) (link : Link)
    (event : Event) : Act.Grows (World.KeepsRegister number) (Act.enter host link event) := by
  have hR := World.isGrowth_keepsRegister (ρ := ρ) (γ := γ) number
  intro w
  refine Act.gives_bind (Act.gives_resolve_grows hR henrol link event w) ?_
  rintro (_ | found) w₁ ⟨hkeeps, -⟩
  · exact Act.gives_pure hkeeps
  · refine Act.gives_get ?_
    split
    · exact Act.gives_pure hkeeps
    · rename_i m hm
      refine Act.gives_bind Act.ends_setCell.gives ?_
      rintro _ _ rfl
      exact Act.gives_pure (hkeeps.trans (.setMachine hm rfl))

/-- `act.unless stops` echoes `act` in a world without `stops`. -/
theorem Act.Gives.echoes_unless {α : Type} {act : Act ρ γ α} {post : α → World ρ γ → Prop}
    (h : Act.Gives False act w post) (hstops : ¬ stops w) :
    Act.Echoes act (act.unless stops) w post := by
  have hsame : (act.unless stops).run w = act.run w := by
    simp [Act.unless, hstops]
  exact h.echoes.of_run_eq rfl hsame

section Reacting

variable (hreacts : ∀ w w', host.Reacts w w' → before.Accounts root config w →
    before.Accounts root config w')
  (hstops : ∀ w, before.Accounts root config w → ¬ stops w)

include hreacts hstops

/-- `act.unless stops` echoes `act` if `stops` excludes worlds with `Accounts`, and what `act` does
is `host.Reacts`, which keeps `Accounts`. -/
theorem Act.echoes_reacting {α : Type} {act : Act ρ γ α} (hw : before.Accounts root config w)
    (hact : ∀ a w', act.run w = some (a, w') → host.Reacts w w') :
    Act.Echoes act (act.unless stops) w fun _ w' => before.Accounts root config w' :=
  Act.Gives.echoes_unless ⟨False.elim, fun a w' hrun => hreacts w w' (hact a w' hrun) hw⟩
    (hstops w hw)

/-- **`Act.sync` echoes with `host.breakingOff stops`**: `run_sync` puts what the watchers do to the
end, where `Accounts` holds. -/
theorem Act.echoes_sync (hhost : host.AdoptsApart before.engines.size)
    (hw : before.Accounts root config w) :
    Act.Echoes (Act.sync host number) (Act.sync (host.breakingOff stops) number) w
      fun _ w' => before.Accounts root config w' := by
  cases he : w.engines[number]? with
  | none =>
    refine Act.echoes_get ?_
    rw [he]
    exact Act.echoes_pure hw
  | some e =>
    -- Without those who watch there is no difference between the surroundings.
    have hunwatched : Act.sync (host.breakingOff stops).unwatched number =
        Act.sync host.unwatched number := rfl
    refine Act.Echoes.of_run_eq ?_ (Act.run_sync host he) (Act.run_sync _ he)
    rw [hunwatched]
    refine (Act.gives_sync_accounts hhost hw).echoes.bind fun levels w₁ hw₁ => ?_
    refine Act.echoes_get ?_
    refine (Act.echoes_forM hw₁ fun graph _ w₂ hw₂ => ?_).bind fun _ _ hw₂ => Act.echoes_pure hw₂
    exact Act.echoes_reacting hreacts hstops hw₂ fun _ _ => .redrawn

/-- **`host.breakingOff stops` echoes `host` in `EchoesRouting`**, with the invariant `Accounts`, if
no world with `stops` has it and `host.Reacts` keeps it. -/
theorem Host.MakesApart.echoesRouting (hhost : host.MakesApart before.engines.size) :
    host.EchoesRouting (before.Accounts root config) (host.breakingOff stops) := by
  -- Nothing that is done to a machine makes it another one.
  have hset : ∀ (w : World ρ γ) link m (m' : Machine (StatePlan ρ)),
      before.Accounts root config w → w.machine? link = some m → m'.id = m.id →
      before.Accounts root config (w.setCell link (.machine m')) :=
    fun w link m m' hw hm hid => hw.keeps (.setMachine hm hid)
  have hsteps : host.Echoes (fun _ => True) (before.Accounts root config)
      (host.breakingOff stops) := by
    refine ⟨fun subscriber change w hw => ?observe, fun link event w _ hw => ?enter, ?queue, ?note⟩
    case observe => exact Act.echoes_reacting hreacts hstops hw fun _ _ => .observe
    case enter =>
      rw [Act.enter_congr (show (host.breakingOff stops).enrol = host.enrol from rfl)]
      exact ((Act.grows_enter hhost.enrol link event w).mono fun _ _ hkeeps =>
        hw.keeps hkeeps).echoes
    case queue => exact fun w link m pending _ hw hm _ => hset w link m _ hw hm rfl
    case note => exact fun w link m child inner _ hw hm => hset w link m _ hw hm rfl
  refine ⟨⟨hsteps.steps, fun level event w hw _ => ?delegate⟩, fun number w hw => ?sync, ?enlist,
    ?busy⟩
  case delegate =>
    exact Host.echoes_delegate
      (fun link event w hw => Act.echoes_reacting hreacts hstops hw fun _ _ => .deliver)
      (fun _ _ _ _ _ _ => World.Accounts.device) level event hw
  case sync => exact Act.echoes_sync hreacts hstops hhost.registered hw
  case enlist => exact fun w link m engine? hw hm => hset w link m _ hw hm rfl
  case busy => exact fun w busy hw => hw.keeps (.of_eq rfl rfl)

/-- **`Act.openEngine` echoes with `host.breakingOff stops`**, also for another engine than that of
`Accounts`. -/
theorem Host.MakesApart.echoesOpening (hhost : host.MakesApart before.engines.size) (other : Link)
    (settings : HierarchyConfig) (hw : before.Accounts root config (w.withEngine other settings)) :
    Act.Echoes (Act.openEngine host other settings)
      (Act.openEngine (host.breakingOff stops) other settings) w
      fun number w' => number = w.engines.size ∧ before.Accounts root config w' := by
  have hpush : Act.Gives False (modifyGet fun w => (w.engines.size, w.withEngine other settings) :
      Act ρ γ Nat) w fun number w' =>
        number = w.engines.size ∧ before.Accounts root config w' :=
    ⟨False.elim, by rintro _ _ ⟨⟩; exact ⟨rfl, hw⟩⟩
  refine hpush.echoes.bind ?_
  rintro number w₁ ⟨rfl, hw₁⟩
  have hattach : Act.Gives False (Act.attach host w.engines.size other) w₁ fun _ w' =>
      before.Accounts root config w' :=
    (Act.grows_attach hhost.registered _ other w₁).mono fun _ _ hkeeps => hw₁.keeps hkeeps
  refine hattach.echoes.bind fun _ w₂ hw₂ => ?_
  have hrouting := hhost.echoesRouting hreacts hstops
  exact (hrouting.sync _ w₂ hw₂).discard.bind fun _ _ hw₃ => Act.echoes_pure ⟨rfl, hw₃⟩

/-- **`Job.perform` echoes with `host.breakingOff stops`.** -/
theorem Host.MakesApart.echoesJob (hhost : host.MakesApart before.engines.size) (job : Job)
    (hw : before.Accounts root config w) :
    Act.Echoes (job.perform host) (job.perform (host.breakingOff stops)) w
      fun _ w' => before.Accounts root config w' := by
  cases job with
  | errand other task => exact (hhost.echoesRouting hreacts hstops).perform task hw
  | send child event =>
    exact (Host.echoes_send
      (fun link event w hw => Act.echoes_reacting hreacts hstops hw fun _ _ => .deliver)
      (fun _ _ _ _ _ _ => World.Accounts.device) child event hw).discard
  | wrap other settings =>
    have hpushed := hw.keeps (.push w before.engines.size { root := other, config := settings })
    refine (hhost.echoesOpening hreacts hstops other settings hpushed).bind ?_
    rintro _ _ ⟨-, hw₁⟩
    exact Act.echoes_modify (hw₁.keeps (.of_eq rfl rfl))

end Reacting

/-- **`World.Unfolds` keeps `Accounts`.** For `midway`, the world in which somebody is told is taken
for `stops`: without `Accounts` there, the job would echo. -/
theorem World.Unfolds.accounts (h : w.Unfolds before.engines.size w')
    (hw : before.Accounts root config w) : before.Accounts root config w' := by
  induction h with
  | apart hkeeps => exact hw.keeps hkeeps
  | trans _ _ ih ih' => exact ih' (ih hw)
  | @job host job w w' hhost _ hrun ih =>
    have hnever (w : World ρ γ) (_ : before.Accounts root config w) : ¬ False := not_false
    exact (hhost.echoesJob ih hnever job hw).gives.2 _ _ hrun
  | @midway host job w w₁ hhost _ htells ih =>
    -- If it were not accounted for there, breaking off would make no difference.
    by_contra hnot
    obtain ⟨w', hrun, hbroken⟩ := htells
    have hnever (w : World ρ γ) (hw : before.Accounts root config w) : ¬ w = w₁ := by
      rintro rfl
      exact hnot hw
    exact hbroken ((hhost.echoesJob ih hnever job hw).2 _ _ hrun).1

/-- **`Act.openEngine` gives `Accounts`** for the engine that it adds. -/
theorem Act.gives_openEngine_accounts (hhost : host.CarriesTraffic before.engines.size)
    (root : Link) (config : HierarchyConfig) :
    Act.Gives False (Act.openEngine host root config) before fun engine w' =>
      engine = before.engines.size ∧ before.Accounts root config w' := by
  have hreacts (w w' : World ρ γ) (h : host.Reacts w w') (hw : before.Accounts root config w) :
      before.Accounts root config w' := (hhost.reacts w w' h).accounts hw
  have hnever (w : World ρ γ) (_ : before.Accounts root config w) : ¬ False := not_false
  exact (hhost.echoesOpening hreacts hnever root config ⟨[], .start⟩).gives

end Jobs

/-! ## Subscribers that do jobs -/

section Traffic

variable {host : Host ρ γ} {around : Surroundings ρ γ} {w w' : World ρ γ} {number : Nat} {job : Job}

/-- `Job.perform` of a host that `CarriesTraffic` is `World.Unfolds`. -/
theorem Host.CarriesTraffic.unfolds (h : host.CarriesTraffic number)
    (hrun : (job.perform host).run w = some ((), w')) : w.Unfolds number w' :=
  .job h.toMakesApart h.reacts hrun

/-- **`around.host depth` carries traffic at every `depth`**, if `around.observe` does with each
host that carries traffic, `around.redrawn` unfolds, and children are made apart. -/
theorem Surroundings.carriesTraffic (hmakes : (around.host 0).MakesApart number)
    (hobserve : ∀ host, host.CarriesTraffic number → ∀ subscriber change w w',
      (around.observe host subscriber change).run w = some ((), w') → w.Unfolds number w')
    (hredrawn : ∀ graph w w', (around.redrawn graph).run w = some ((), w') → w.Unfolds number w')
    (depth : Nat) : (around.host depth).CarriesTraffic number := by
  induction depth with
  | zero =>
    refine ⟨hmakes, ?_⟩
    rintro w w' (hrun | hrun | hrun)
    · cases hrun
    · cases hrun
    · exact hredrawn _ w w' hrun
  | succ depth ih =>
    refine ⟨⟨hmakes.registered, hmakes.enrol⟩, ?_⟩
    rintro w w' (hrun | @⟨link, event, outcome?, _, _, hrun⟩ | hrun)
    · exact hobserve (around.host depth) ih _ _ w w' hrun
    · -- An event that is delivered is dispatched by a call that is nested less deeply.
      let dispatching : Job := .errand link (.request (.dispatchTo link event))
      have hrun : (Act.dispatch (around.host depth) link event).run w = some (outcome?, w') := hrun
      have hjob : (dispatching.perform (around.host depth)).run w = some ((), w') := by
        show (discard (Act.dispatch (around.host depth) link event)).run w = _
        rw [Act.run_discard, hrun]
        rfl
      exact ih.unfolds hjob
    · exact hredrawn _ w w' hrun

/-- `Surroundings.prompt`, in which subscribers send `name` to `other`, carries traffic. -/
theorem Surroundings.carriesTraffic_prompt (other : Link) (name : String) (number depth : Nat) :
    ((prompt other name : Surroundings ρ γ).host depth).CarriesTraffic number := by
  have hR := World.isGrowth_keepsRegister (ρ := ρ) (γ := γ) number
  have hmakes : ((prompt other name : Surroundings ρ γ).host 0).MakesApart number :=
    ⟨fun _ _ => Act.grows_pure hR (), fun _ _ => Act.grows_pure hR ()⟩
  refine carriesTraffic hmakes ?_ ?_ depth
  · intro host hhost subscriber change w w' hrun
    have hjob : ((Job.errand other (.request (.sendTo other name []))).perform host).run w =
        some ((), w') := hrun
    exact hhost.unfolds hjob
  · rintro _ w _ ⟨⟩
    exact .apart (.refl number w)

end Traffic

/-! ## Registers that are balanced -/

/-- **Calls to attach and to detach balance.** `Act.openEngine` puts an engine at `root`, and then
the world unfolds (`World.Unfolds`): jobs are done, one after the other or one in the middle of
another, through any host, and they touch the register of this engine only by calls to `Act.sync`.
The assumption on the host is `Host.CarriesTraffic`. At every world `w` that comes up there is a
`World.Ledger` with the `history` of the chains that were synced, and `w.Balances m.id e` holds:
each child was attached and detached in turns, the root and doubles are never in `e.attached`, and a
child is there if and only if its last call attached it. The children that are there are those of
the last chain in `history`. The next `Act.sync` tells those who watch the graph, if and only if the
chain is another one by then. -/
theorem World.Unfolds.calls_balance {host : Host ρ γ} {before w₁ w : World ρ γ} {root : Link}
    {config : HierarchyConfig} {m : Machine (StatePlan ρ)} {number : Nat}
    (hhost : host.CarriesTraffic before.engines.size) (hroot : before.machine? root = some m)
    (hopen : (Act.openEngine host root config).run before = some (number, w₁))
    (h : w₁.Unfolds number w) :
    ∃ e history, w.engines[number]? = some e ∧ e.root = root ∧
      (before.withEngine root config).Ledger number history w ∧ w.Balances m.id e ∧
      w.idsOf e.attached = history.headD [] ∧
      ∀ host' : Host ρ γ, (Act.sync host' number).run w = (do
        let levels ← Act.sync host'.unwatched number
        let now ← get
        (if w.chainIds e = history.headD [] then [] else now.tidings number).forM host'.redrawn
        return levels : Act ρ γ (List Level)).run w := by
  obtain ⟨rfl, hw₁⟩ := (Act.gives_openEngine_accounts hhost root config).2 number w₁ hopen
  obtain ⟨history, hledger⟩ := h.accounts hw₁
  obtain ⟨e, he, heroot, hbalances, hhistory⟩ := hledger.balances (id?_of_machine? hroot)
  refine ⟨e, history, he, heroot, hledger, hbalances, hhistory, fun host' => ?_⟩
  have hsame : ((w.chain e).map (·.link)).map w.id? = e.attached.map w.id? ↔
      w.chainIds e = history.headD [] := by
    rw [map_id?_eq fun _ => isSome_id?_of_mem_chain, map_id?_eq hbalances.known, hhistory]
    exact (List.map_injective_iff.2 fun _ _ heq => Option.some.inj heq).eq_iff
  rw [Act.run_sync host' he]
  simp only [hsame]

/-! ## A theatre -/

/-- The parts of a play, which is `"On"`. -/
def Assembly.play : Assembly (StatePlan Unit) State where
  initial := { key := "On" }
  factory := Factory.empty.register "On" (.constant (.plain "On" .null false) false)
  table := .empty
  config := {}

/-- The parts of a theatre: the same play `⟨0⟩` in `"Afternoon"` and in `"Evening"`, with `"Break"`
between. -/
def Assembly.theatre : Assembly (StatePlan Unit) State where
  initial := { key := "Afternoon", child := some ⟨0⟩ }
  factory :=
    (Factory.empty.register "Break" (.constant (.plain "Break" .null false) false)).register
      "Evening" (.constant ⟨"Evening", .null, false, some (.live ⟨0⟩), true⟩ false)
  table := (Table.empty.insert "Afternoon" (.domain "ring") (.target "Break")).insert "Break"
    (.domain "ring") (.target "Evening")
  config := {}

namespace World

/-- `Machine.start` of a theatre, with a subscriber. -/
def theTheatre : Machine (StatePlan Unit) :=
  { Machine.start (.minted 1) .theatre with listeners := (({} : Listeners Nat).subscribe 0).2 }

/-- A world with `theTheatre` and its play. -/
def theatre : World Unit Unit where
  cells := #[.machine (.start (.minted 0) .play), .machine theTheatre]
  minted := 2
  guest := ()

/-- Surroundings in which `"ring"` is sent to `⟨1⟩` whenever somebody is told of a change. -/
def bell : Host Unit Unit := (Surroundings.prompt ⟨1⟩ "ring").host 9

/-- `theatre` after `Act.openEngine` at `⟨1⟩`. -/
def theatreOpened : World Unit Unit := (Act.openEngine bell ⟨1⟩ {}).after theatre

/-- `w` with the engine `0` in use and a watcher. -/
def watched (w : World Unit Unit) : World Unit Unit :=
  { w with
    tree? := some 0
    engines := w.engines.modify 0 fun e => { e with watchers := (e.watchers.subscribe ()).2 } }

/-- `w.watched` leaves every register alone. -/
theorem keepsRegister_watched (w : World Unit Unit) (number : Nat) :
    w.KeepsRegister number w.watched := by
  let used : World Unit Unit := { w with tree? := some 0 }
  have hused : w.KeepsRegister number used := .of_eq rfl rfl
  exact hused.trans (.modify fun _ _ => ⟨rfl, rfl, rfl⟩)

/-- The job to send `"ring"` to `⟨1⟩`. -/
def ring : Job := .errand ⟨1⟩ (.request (.send "ring" []))

/-- `theatreOpened.watched` after `ring`, which `bell` follows by another `"ring"`. -/
def theatreRung : World Unit Unit := (ring.perform bell).after theatreOpened.watched

/-- `Unfolds.calls_balance` for `theatre` in the middle of a bell (`theatreRung`). The play
`.minted 0` has left the chain and come back, so its calls are `[true, false, true]`. -/
theorem theatre_balances :
    theatre.machine? ⟨1⟩ = some theTheatre ∧
      (Act.openEngine bell ⟨1⟩ {}).run theatre = some (0, theatreOpened) ∧
      theatreOpened.Unfolds 0 theatreRung ∧
      theatreRung.engines[0]?.map (·.callsFor (.minted 0)) = some [true, false, true] ∧
      ∃ e history, theatreRung.engines[0]? = some e ∧ e.root = ⟨1⟩ ∧
        (theatre.withEngine ⟨1⟩ {}).Ledger 0 history theatreRung ∧
        theatreRung.Balances (.minted 1) e ∧ theatreRung.idsOf e.attached = history.headD [] ∧
        ∀ host' : Host Unit Unit, (Act.sync host' 0).run theatreRung = (do
          let levels ← Act.sync host'.unwatched 0
          let now ← get
          (if theatreRung.chainIds e = history.headD [] then []
            else now.tidings 0).forM host'.redrawn
          return levels : Act Unit Unit (List Level)).run theatreRung := by
  have hhost (number : Nat) : bell.CarriesTraffic number :=
    Surroundings.carriesTraffic_prompt ⟨1⟩ "ring" number 9
  have hroot : theatre.machine? ⟨1⟩ = some theTheatre := rfl
  have hopens : ((Act.openEngine bell ⟨1⟩ {}).run theatre).map (·.1) = some 0 := by
    decide +kernel
  have hrings : ((ring.perform bell).run theatreOpened.watched).isSome = true := by decide +kernel
  obtain ⟨⟨_, w₁⟩, hopened, rfl⟩ := Option.map_eq_some_iff.1 hopens
  cases Act.eq_after hopened
  obtain ⟨_, hrung⟩ := Act.run_eq_after hrings
  have hunfolds : theatreOpened.Unfolds 0 theatreRung :=
    .trans (.apart (keepsRegister_watched theatreOpened 0)) ((hhost 0).unfolds hrung)
  exact ⟨hroot, hopened, hunfolds, by decide +kernel,
    Unfolds.calls_balance (hhost _) hroot hopened hunfolds⟩

end World

end Statechart
