import Statechart.Proofs.World.Calling

/-! # Registrations and the active chain

The children that are registered with a hierarchy are meant to be those of its active chain. A
domain event that the engine handles brings registrations in line with the chain, but a signal does
not: the machine that gets it handles it by itself, and may well change the chain. Subscribers may
make calls of all kinds while a call is being answered.

* `Call`, **`World.Ran`**: calls from outside, and the worlds that they lead to.
* `World.Leads`, **`Surroundings.MakesCalls`**: subscribers that make calls as well.
* **`Act.lasts_perform`**: what one call does to registrations.
* **`World.in_line_iff_signals_followed`**: registrations are in line after every call if they are
  after signals. -/

namespace Statechart

variable {ρ γ : Type} {settings : MachineConfig → Prop} {host : Host ρ γ}
  {around : Surroundings ρ γ} {w w' before : World ρ γ} {e : Engine} {link root : Link}
  {number : Nat} {event : Event} {config : HierarchyConfig} {call : Call}

/-! ## Calls -/

/-- **A call from outside** to a hierarchy or to a machine. -/
inductive Call where
  /-- A domain event is sent to the hierarchy by its name. -/
  | send (name : String) (params : Params)
  /-- An event is dispatched to the hierarchy. -/
  | dispatch (event : Event)
  /-- A domain event is sent to a machine by its name. -/
  | sendTo (link : Link) (name : String) (params : Params)
  /-- An event is dispatched to a machine. -/
  | dispatchTo (link : Link) (event : Event)

namespace Call

/-- The machine that a call is for, or `none` if it is for the hierarchy. -/
def target? : Call → Option Link
  | .send _ _ => none
  | .dispatch _ => none
  | .sendTo link _ _ => some link
  | .dispatchTo link _ => some link

/-- The call gives an event with `isReserved`. -/
def isSignal : Call → Bool
  | .send _ _ => false
  | .dispatch event => event.isReserved
  | .sendTo _ _ _ => false
  | .dispatchTo _ event => event.isReserved

/-- **What happens when a `Call` is made.** -/
def perform (host : Host ρ γ) (root : Link) : Call → Act ρ γ (Option Outcome)
  | .send name params => Act.sendToTree host root name params
  | .dispatch event => Act.dispatchToTree host root event
  | .sendTo link name params => Act.sendNamed host link name params
  | .dispatchTo link event => Act.dispatch host link event

/-- The call is for the hierarchy, or for a machine in `w.activeLinks e` of the engine in use. -/
def Admissible (w : World ρ γ) (call : Call) : Prop :=
  ∀ link, call.target? = some link →
    ∃ number e, w.engineInUse? = some (number, e) ∧ link ∈ w.activeLinks e

end Call

namespace World

/-- **The worlds that calls lead to** after `Act.wrap` at `root`: calls that are `Admissible`, one
after the other. -/
inductive Ran (host : Host ρ γ) (before : World ρ γ) (root : Link) (config : HierarchyConfig) :
    World ρ γ → Prop
  | wrapped {w : World ρ γ} : (Act.wrap host root config).run before = some ((), w) →
    World.Ran host before root config w
  | called {w w' : World ρ γ} {call : Call} {outcome? : Option Outcome} :
    World.Ran host before root config w → call.Admissible w →
    (call.perform host root).run w = some (outcome?, w') → World.Ran host before root config w'

/-- **What a subscriber may do** from `w` to `w'`: calls that are `Admissible`, with `World.Idles`
in between. -/
inductive Leads (settings : MachineConfig → Prop) (host : Host ρ γ) (root : Link) :
    World ρ γ → World ρ γ → Prop
  | done {w : World ρ γ} : World.Leads settings host root w w
  | idles {w w' w'' : World ρ γ} : (w.Tidy settings → w.Idles settings w') →
    World.Leads settings host root w' w'' → World.Leads settings host root w w''
  | calls {w w' w'' : World ρ γ} {call : Call} {outcome? : Option Outcome} : call.Admissible w →
    (call.perform host root).run w = some (outcome?, w') →
    World.Leads settings host root w' w'' → World.Leads settings host root w w''

/-- **Signals are followed**: after every call from outside with `isSignal`, `e.attached` are the
links of the chain. -/
def SignalsFollowed (host : Host ρ γ) (before : World ρ γ) (root : Link)
    (config : HierarchyConfig) : Prop :=
  ∀ (w w' : World ρ γ) (call : Call) (outcome? : Option Outcome) (number : Nat) (e : Engine),
    World.Ran host before root config w → call.Admissible w → call.isSignal = true →
    (call.perform host root).run w = some (outcome?, w') →
    w'.engineInUse? = some (number, e) → e.attached = (w'.chain e).map (·.link)

end World

/-- **Subscribers that make calls** (`World.Leads`), through the host that they are given. What
`enrol` and `redrawn` do is `World.Idles`. -/
structure Surroundings.MakesCalls (settings : MachineConfig → Prop) (root : Link)
    (around : Surroundings ρ γ) : Prop where
  observe : ∀ host subscriber change w w',
    (around.observe host subscriber change).run w = some ((), w') →
    World.Leads settings host root w w'
  enrol : ∀ subscriber link w w', w.Tidy settings →
    (around.enrol subscriber link).run w = some ((), w') → w.Idles settings w'
  redrawn : ∀ graph w w', w.Tidy settings →
    (around.redrawn graph).run w = some ((), w') → w.Idles settings w'

namespace Act

/-! ## One call -/

/-- The engine `owns` each machine in `w.activeLinks e`. -/
theorem owns_of_mem {m : Machine (StatePlan ρ)} (he : w.engines[number]? = some e)
    (hm : w.machine? link = some m) (hlink : link ∈ w.activeLinks e) :
    owns w number m.id = true := by
  rw [owns, he]
  dsimp only
  rw [Bool.or_eq_true, List.any_eq_true]
  rcases List.mem_cons.1 hlink with rfl | hlink
  · exact Or.inl (beq_iff_eq.2 (World.id?_of_machine? hm))
  · obtain ⟨level, hlevel, rfl⟩ := List.mem_map.1 hlink
    exact Or.inr ⟨level, hlevel, beq_iff_eq.2 (World.id?_of_machine? hm)⟩

/-- **`dispatch` to a machine in `w.activeLinks e` is `World.Lasts`**, and it keeps `InLine` if the
event is not reserved. -/
theorem lasts_dispatch (hhost : host.IsSteady settings number root)
    (h : w.Kept settings number root) (he : w.engines[number]? = some e)
    (hlink : link ∈ w.activeLinks e) (event : Event) :
    Gives False (dispatch host link event) w fun _ w' => w.Lasts settings number root w' ∧
      (event.isReserved = false → w.InLine number → w'.InLine number) := by
  rw [dispatch]
  refine gives_get ?_
  cases hm : w.machine? link with
  | none => exact gives_pure ⟨.refl h, fun _ hline => hline⟩
  | some m =>
    have hlocal : (event.isReserved = false → ¬ w.InLine number) →
        Gives False (dispatchLocal host link event) w fun _ w' =>
          w.Lasts settings number root w' ∧
            (event.isReserved = false → w.InLine number → w'.InLine number) := fun hdomain =>
      (lasts_dispatchLocal hhost h).mono fun _ w' hw' =>
        ⟨hw'.1, fun hfalse hline => absurd hline (hdomain hfalse)⟩
    dsimp only
    cases hfilter : m.engine?.filter w.isAlive with
    | none =>
      -- If registrations are in line, every machine of the chain knows the engine, which is alive.
      refine hlocal fun _ hline => ?_
      obtain ⟨e', he', hregisters, hlist⟩ := hline
      rw [he] at he'
      cases he'
      have hknown : m.engine? = some number := by
        rw [hregisters.known link m hm, hlist]
        exact List.mem_cons.1 hlink
      rw [hknown, Option.filter_some, if_pos ((h.isAlive_iff number).2 rfl)] at hfilter
      cases hfilter
    | some n =>
      obtain ⟨-, hn⟩ := Option.filter_eq_some_iff.1 hfilter
      obtain rfl := (h.isAlive_iff n).1 hn
      dsimp only
      split
      · rename_i hsignal
        refine hlocal fun hdomain => ?_
        rw [hsignal] at hdomain
        cases hdomain
      · rw [owns_of_mem he hm hlink, if_pos rfl]
        exact lasts_route hhost h event

/-- **`Call.perform` is `World.Lasts`** for an `Admissible` call, and it keeps `InLine` if the call
is no signal. -/
theorem lasts_perform (hhost : host.IsSteady settings number root)
    (h : w.Kept settings number root) (hcall : call.Admissible w) :
    Gives False (call.perform host root) w fun _ w' => w.Lasts settings number root w' ∧
      (call.isSignal = false → w.InLine number → w'.InLine number) := by
  obtain ⟨e, he, -⟩ := h.exists_engine
  have hinUse := h.engineInUse?_eq he
  have htree : ∀ event, Gives False (dispatchToTree host root event) w fun _ w' =>
      w.Lasts settings number root w' ∧
        (event.isReserved = false → w.InLine number → w'.InLine number) := by
    intro event
    rw [dispatchToTree]
    refine gives_get ?_
    rw [hinUse]
    exact lasts_route hhost h event
  -- A machine that gets an event by itself is on the chain.
  have hmachine : ∀ link, call.target? = some link → link ∈ w.activeLinks e := by
    intro link hlink
    obtain ⟨number', e', hinUse', hmem⟩ := hcall link hlink
    rw [hinUse] at hinUse'
    cases hinUse'
    exact hmem
  cases call with
  | send name params =>
    rw [Call.perform, sendToTree]
    split
    · exact gives_pure ⟨.refl h, fun _ hline => hline⟩
    · exact htree (.domain name params)
  | dispatch event => exact htree event
  | sendTo link name params =>
    rw [Call.perform, sendNamed]
    split
    · exact gives_pure ⟨.refl h, fun _ hline => hline⟩
    · exact lasts_dispatch hhost h he (hmachine link rfl) (.domain name params)
  | dispatchTo link event => exact lasts_dispatch hhost h he (hmachine link rfl) event

end Act

/-! ## Calls inside others -/

/-- `World.Leads` is `World.Lasts`. -/
theorem World.Leads.lasts (hhost : host.IsSteady settings number root)
    (hleads : World.Leads settings host root w w') (h : w.Kept settings number root) :
    w.Lasts settings number root w' := by
  induction hleads with
  | done => exact .refl h
  | idles hidles _ ih =>
    have hlasts := h.lasts_of_idles (hidles h.tidy)
    exact hlasts.trans (ih hlasts.kept)
  | calls hcall hrun _ ih =>
    have hlasts := ((Act.lasts_perform hhost h hcall).2 _ _ hrun).1
    exact hlasts.trans (ih hlasts.kept)

/-- **`MakesCalls` gives `IsSteady`** at every `depth`, by induction on it. -/
theorem Surroundings.MakesCalls.isSteady (h : around.MakesCalls settings root) (number : Nat)
    (depth : Nat) : (around.host depth).IsSteady settings number root := by
  -- Calls that are made inside a call are nested less deeply.
  induction depth with
  | zero =>
    refine ⟨⟨fun subscriber link w hw => ?_, fun graph w hw => ?_⟩, fun _ _ w _ => ?_⟩
    · exact ⟨False.elim, fun _ w' hrun => h.enrol subscriber link w w' hw hrun⟩
    · exact ⟨False.elim, fun _ w' hrun => h.redrawn graph w w' hw hrun⟩
    · exact ⟨False.elim, by rintro _ _ ⟨⟩⟩
  | succ depth ih =>
    refine ⟨⟨fun subscriber link w hw => ?_, fun graph w hw => ?_⟩,
      fun subscriber change w hw => ?_⟩
    · exact ⟨False.elim, fun _ w' hrun => h.enrol subscriber link w w' hw hrun⟩
    · exact ⟨False.elim, fun _ w' hrun => h.redrawn graph w w' hw hrun⟩
    · exact ⟨False.elim, fun _ w' hrun => (h.observe _ subscriber change w w' hrun).lasts ih hw⟩

/-- `Surroundings.quiet` makes no calls. -/
theorem Surroundings.makesCalls_quiet (root : Link) :
    (quiet : Surroundings ρ γ).MakesCalls settings root := by
  refine ⟨fun _ _ _ w w' hrun => ?observe, fun _ _ w w' hw hrun => ?enrol,
    fun _ w w' hw hrun => ?redrawn⟩
  case observe =>
    cases hrun
    exact .done
  case enrol =>
    cases hrun
    exact .refl hw
  case redrawn =>
    cases hrun
    exact .refl hw

/-- **Surroundings whose subscribers send `name`** to the hierarchy whenever they are told of a
change. -/
def Surroundings.eager (root : Link) (name : String) : Surroundings ρ γ :=
  { quiet with observe := fun host _ _ => discard (Act.sendToTree host root name []) }

/-- `Surroundings.eager` makes calls. -/
theorem Surroundings.makesCalls_eager (root : Link) (name : String) :
    (eager root name : Surroundings ρ γ).MakesCalls settings root := by
  refine ⟨fun host _ _ w w' hrun => ?observe, fun _ _ w w' hw hrun => ?enrol,
    fun _ w w' hw hrun => ?redrawn⟩
  case observe =>
    rw [eager, Act.run_discard, Option.map_eq_some_iff] at hrun
    obtain ⟨⟨outcome?, w₁⟩, hsent, heq⟩ := hrun
    cases heq
    have hcall : (Call.send name []).Admissible w := by rintro _ ⟨⟩
    exact .calls hcall hsent .done
  case enrol =>
    cases hrun
    exact .refl hw
  case redrawn =>
    cases hrun
    exact .refl hw

/-! ## Registrations follow the chain -/

namespace World

/-- `Act.wrap` gives `Kept` and `InLine`. -/
theorem kept_of_wrap (hhost : host.IsCalm settings False) (hbefore : before.Tidy settings)
    (hengines : before.EnginesKnown) (hrest : before.busy = []) (hroot : before.HasMachine root)
    (hrun : (Act.wrap host root config).run before = some ((), w)) :
    w.Kept settings before.engines.size root ∧ w.InLine before.engines.size := by
  obtain ⟨htidy, htree, hbusy, hline, e, he, heroot, -⟩ :=
    (Act.gives_wrap hhost hbefore hroot hengines).2 () w hrun
  refine ⟨⟨htidy, htree, ?_, ⟨e, he, heroot⟩, hline.consistent⟩, hline⟩
  rw [hbusy, hrest]
  rintro _ ⟨⟩

/-- **`Kept` holds in every world that is `Ran`.** -/
theorem Ran.kept (haround : around.MakesCalls settings root) {depth : Nat}
    (hbefore : before.Tidy settings) (hengines : before.EnginesKnown) (hrest : before.busy = [])
    (hroot : before.HasMachine root)
    (h : World.Ran (around.host depth) before root config w) :
    w.Kept settings before.engines.size root := by
  have hhost := haround.isSteady before.engines.size depth
  induction h with
  | wrapped hrun => exact (kept_of_wrap hhost.toIsCalm hbefore hengines hrest hroot hrun).1
  | called _ hcall hrun ih => exact ((Act.lasts_perform hhost ih hcall).2 _ _ hrun).1.kept

/-- **Registrations follow the active chain exactly if signals are followed.** A hierarchy is made
around `root`, and calls are made to it and to machines of its chain (`World.Ran`), while
subscribers make such calls as well (`Surroundings.MakesCalls`). After every call from outside
`World.InLine` holds, which is that the machines that are registered are those of the chain as it is
then, if and only if `World.SignalsFollowed`: the list of the engine is that of the chain after
signals. -/
theorem in_line_iff_signals_followed (haround : around.MakesCalls settings root) (depth : Nat)
    (hbefore : before.Tidy settings) (hengines : before.EnginesKnown) (hrest : before.busy = [])
    (hroot : before.HasMachine root) (config : HierarchyConfig) :
    (∀ w, World.Ran (around.host depth) before root config w →
        w.InLine before.engines.size) ↔
      World.SignalsFollowed (around.host depth) before root config := by
  have hhost := haround.isSteady before.engines.size depth
  constructor
  · intro hall w w' call outcome? number e hran hcall _ hrun hinUse
    have hran' := hran.called hcall hrun
    -- After a signal the engine is the same one, and its list is that of the chain.
    obtain ⟨e', he', -, hlist⟩ := hall w' hran'
    rw [(hran'.kept haround hbefore hengines hrest hroot).engineInUse?_eq he'] at hinUse
    cases hinUse
    exact hlist
  · intro hfollowed w hran
    -- By induction over the calls. Domain events keep registrations in line by themselves, and
    -- signals do so by assumption.
    induction hran with
    | wrapped hrun => exact (kept_of_wrap hhost.toIsCalm hbefore hengines hrest hroot hrun).2
    | @called w w' call outcome? hran hcall hrun ih =>
      have hkept := hran.kept haround hbefore hengines hrest hroot
      obtain ⟨hlasts, hdomain⟩ := (Act.lasts_perform hhost hkept hcall).2 _ _ hrun
      cases hsignal : call.isSignal with
      | false => exact hdomain hsignal ih
      | true =>
        obtain ⟨e, he, hregisters⟩ := hlasts.kept.consistent
        exact ⟨e, he, hregisters, hfollowed w w' call outcome? _ e hran hcall hsignal hrun
          (hlasts.kept.engineInUse?_eq he)⟩

end World

/-! ## A switch -/

/-- The plan of a lamp: `"go"` leads from `"on"` to `"off"`. -/
def MachinePlan.lamp : MachinePlan Unit where
  config := .ok {}
  factory := [.made "on" false fun _ => some (.plain "on" .null false),
    .made "off" false fun _ => some (.plain "off" .null false)]
  rows := [⟨"on", .event "go", .target "off"⟩]
  initialKey? := some "on"
  initial? := none
  subscribers := []
  shareAs? := none

/-- The plan of a switch: `.childExit` leads from `"Idle"` to `"Busy"`, with a lamp below it. -/
def MachinePlan.switch : MachinePlan Unit where
  config := .ok {}
  factory := [.made "Idle" false fun _ => some (.plain "Idle" .null false),
    .made "Busy" false fun _ => some
      { key := "Busy", data := .null, isFinal := false, child? := some (.machine lamp)
        needsChild := true }]
  rows := [⟨"Idle", .key .childExit, .target "Busy"⟩]
  initialKey? := some "Idle"
  initial? := none
  subscribers := []
  shareAs? := none

namespace World

/-- The world after `MachinePlan.switch.realise`. -/
def switch : World Unit Unit :=
  (MachinePlan.switch.realise (Surroundings.quiet.host 1)).after { guest := () }

/-- `switch` after `Act.wrap` at the switch. -/
def switchInUse : World Unit Unit :=
  (Act.wrap (Surroundings.quiet.host 1) ⟨0⟩ {}).after switch

/-- The call that dispatches `.childExit` to the hierarchy. -/
def exitCall : Call := .dispatch (.childExit (.path "x"))

/-- `switchInUse` after `exitCall`. -/
def switchOn : World Unit Unit :=
  (exitCall.perform (Surroundings.quiet.host 1) ⟨0⟩).after switchInUse

/-- `in_line_iff_signals_followed` for `switch`, in surroundings where subscribers send `"go"`. -/
theorem switch_in_line_iff :
    switch.busy = [] ∧ switch.HasMachine ⟨0⟩ ∧
      ((∀ w, World.Ran ((Surroundings.eager ⟨0⟩ "go").host 9) switch ⟨0⟩ {} w →
          w.InLine switch.engines.size) ↔
        World.SignalsFollowed ((Surroundings.eager ⟨0⟩ "go").host 9) switch ⟨0⟩ {}) := by
  have hhost : (Surroundings.quiet.host 1 : Host Unit Unit).IsTame (fun _ => True) True :=
    Surroundings.isTame_quiet 0
  have hfits : MachinePlan.switch.Fits (fun _ => True)
      ({ guest := () } : World Unit Unit).HasMachine := by
    simp [MachinePlan.switch, MachinePlan.lamp, MachinePlan.Fits, itemsFit, itemFits, rowsFit,
      specFits, stateFits, StatePlan.plain, StatePlan.Fits, childFits, ChildPlan.Fits]
  obtain ⟨_, hidles, -⟩ :=
    (MachinePlan.gives_realise hhost.toIsCalm .switch _ hfits (tidy_empty ())).after trivial
  have hengines : switch.EnginesKnown := hidles.2.enginesKnown fun _ _ _ hm => by cases hm
  have hrest : switch.busy = [] := by decide +kernel
  have hroot : switch.HasMachine ⟨0⟩ := Option.isSome_iff_exists.1 (by decide +kernel)
  exact ⟨hrest, hroot, in_line_iff_signals_followed (Surroundings.makesCalls_eager ⟨0⟩ "go") 9
    hidles.1 hengines hrest hroot {}⟩

/-- **A signal leaves the lamp of `switch` unregistered**, although the lamp is on the active chain:
`World.InLine` fails for `switchOn`. -/
theorem switch_falls_out_of_line :
    World.Ran (Surroundings.quiet.host 1) switch ⟨0⟩ {} switchOn ∧
      ¬ switchOn.InLine switch.engines.size := by
  have hwrap : ((Act.wrap (Surroundings.quiet.host 1) ⟨0⟩ {}).run switch).isSome = true := by
    decide +kernel
  have hexit : ((exitCall.perform (Surroundings.quiet.host 1) ⟨0⟩).run switchInUse).isSome =
      true := by
    decide +kernel
  -- When the exit has been handled, the list is empty and the chain is not.
  have hlists : (switchOn.engines[switch.engines.size]?).map (fun e =>
      (e.attached, (switchOn.chain e).map (·.link))) = some ([], [⟨1⟩]) := by decide +kernel
  obtain ⟨_, hwrapped⟩ := Act.run_eq_after hwrap
  obtain ⟨outcome?, hcalled⟩ := Act.run_eq_after hexit
  have hadmissible : exitCall.Admissible switchInUse := by rintro _ ⟨⟩
  refine ⟨(Ran.wrapped hwrapped).called hadmissible hcalled, ?_⟩
  rintro ⟨e', he', -, hlist⟩
  rw [he', Option.map_some, Option.some.injEq, Prod.mk.injEq, ← hlist] at hlists
  obtain ⟨hnone, hone⟩ := hlists
  rw [hnone] at hone
  cases hone

end World

end Statechart
