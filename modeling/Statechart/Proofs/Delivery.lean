import Statechart.Proofs.Registration
import Statechart.Proofs.Touch

/-! # Where an event is sent

A domain event may be sent to a hierarchy, or straight to one of its machines. As long as the
subscribers leave the machines alone this makes no difference: a machine of the active chain passes
the event on to the engine, and a machine that has left the chain knows the engine no longer, so it
handles the event by itself and the hierarchy does not notice.

* **`World.Served`**: the worlds that domain events lead to, wherever they are sent.
* `World.InLine.engine?_eq_some_iff`: with registrations in line, the machines that know the engine
  are those of the active chain.
* `Act.run_dispatch_of_mem`, `Act.run_dispatch_of_not_mem`: what a machine makes of a domain event.
* **`World.delivered_alike`**: where an event is sent does not matter. -/

namespace Statechart

variable {ρ γ : Type} {settings : MachineConfig → Prop} {total : Prop} {host : Host ρ γ}
  {w w' before : World ρ γ} {e : Engine} {link root : Link} {number : Nat} {event : Event}
  {config : HierarchyConfig} {call : Call} {m : Machine (StatePlan ρ)}

namespace World

/-- **The worlds that domain events lead to** after `Act.wrap` at `root`: any `Call` that is no
signal, to the hierarchy or to a machine. -/
inductive Served (host : Host ρ γ) (before : World ρ γ) (root : Link) (config : HierarchyConfig) :
    World ρ γ → Prop
  | wrapped {w : World ρ γ} : (Act.wrap host root config).run before = some ((), w) →
    World.Served host before root config w
  | called {w w' : World ρ γ} {call : Call} {outcome? : Option Outcome} :
    World.Served host before root config w → call.isSignal = false →
    (call.perform host root).run w = some (outcome?, w') → World.Served host before root config w'

/-! ## Who knows the engine -/

/-- **With `InLine`, `m.engine?` is the engine `number` if and only if the machine is in
`w.activeLinks e`.** -/
theorem InLine.engine?_eq_some_iff (hline : w.InLine number) (he : w.engines[number]? = some e)
    (hm : w.machine? link = some m) : m.engine? = some number ↔ link ∈ w.activeLinks e := by
  obtain ⟨e', he', hregisters, hlist⟩ := hline
  rw [he] at he'
  cases he'
  rw [hregisters.known link m hm, hlist]
  exact List.mem_cons.symm

end World

/-- `IsTame settings total` gives `IsTame settings False`. -/
theorem Host.IsTame.of_total (hhost : host.IsTame settings total) : host.IsTame settings False where
  enrol subscriber link w hw := ⟨False.elim, (hhost.enrol subscriber link w hw).2⟩
  redrawn graph w hw := ⟨False.elim, (hhost.redrawn graph w hw).2⟩
  observe subscriber change w hw := ⟨False.elim, (hhost.observe subscriber change w hw).2⟩

/-- `IsTame` gives `IsSteady`. -/
theorem Host.IsTame.isSteady (hhost : host.IsTame settings total) :
    host.IsSteady settings number root where
  toIsCalm := hhost.of_total.toIsCalm
  observe subscriber change w h :=
    (hhost.of_total.observe subscriber change w h.tidy).mono fun _ _ => h.lasts_of_idles

namespace Act

/-! ## One event at one machine -/

/-- `dispatchToTree` is `route` of the engine in use. -/
theorem dispatchToTree_run (h : w.Kept settings number root) :
    (dispatchToTree host root event).run w = (route host number event).run w := by
  obtain ⟨e, he, -⟩ := h.exists_engine
  simp [dispatchToTree, h.engineInUse?_eq he]

/-- **`dispatch` is `route` for a machine in `w.activeLinks e`**, if the event is not reserved. -/
theorem run_dispatch_of_mem (h : w.Kept settings number root) (hline : w.InLine number)
    (he : w.engines[number]? = some e) (hlink : link ∈ w.activeLinks e)
    (hdomain : event.isReserved = false) :
    (dispatch host link event).run w = (route host number event).run w := by
  obtain ⟨e', he', -, -, hroot⟩ := h.exists_engine
  rw [he] at he'
  cases he'
  obtain ⟨m, hm⟩ := h.tidy.hasMachine_of_mem hroot hlink
  have hknown : m.engine? = some number := (hline.engine?_eq_some_iff he hm).2 hlink
  have halive : m.engine?.filter w.isAlive = some number := by
    rw [hknown, Option.filter_some, if_pos ((h.isAlive_iff number).2 rfl)]
  have howns : owns w number m.id = true := owns_of_mem he hm hlink
  simp [dispatch, hm, halive, hdomain, howns]

/-- **`dispatch` is `dispatchLocal` for a machine that is not in `w.activeLinks e`.** -/
theorem run_dispatch_of_not_mem (h : w.Kept settings number root) (hline : w.InLine number)
    (he : w.engines[number]? = some e) (hlink : link ∉ w.activeLinks e) :
    (dispatch host link event).run w = (dispatchLocal host link event).run w := by
  cases hm : w.machine? link with
  | none => simp [dispatch, dispatchLocal, step, resolve, hm]
  | some m =>
    -- Whoever else the machine is registered with is not in use.
    have hunknown : m.engine?.filter w.isAlive = none := by
      rw [Option.filter_eq_none_iff]
      intro other hother halive
      obtain rfl := (h.isAlive_iff other).1 halive
      exact hlink ((hline.engine?_eq_some_iff he hm).1 hother)
    simp [dispatch, hm, hunknown]

/-- **`dispatchLocal` of a machine that is not in `w.activeLinks e` moves no other machine**, and
keeps `InLine` and `activeLinks e`. -/
theorem lasts_dispatchLocal_of_not_mem (hhost : host.IsTame settings total)
    (h : w.Kept settings number root) (hline : w.InLine number)
    (he : w.engines[number]? = some e) (hlink : link ∉ w.activeLinks e) :
    Gives False (dispatchLocal host link event) w fun _ w' =>
      w.Lasts settings number root w' ∧ w'.InLine number ∧ w.Stays (· ≠ link) w' ∧
        w'.activeLinks e = w.activeLinks e := by
  obtain ⟨e', he', -, -, hroot⟩ := h.exists_engine
  rw [he] at he'
  cases he'
  refine (gives_dispatchLocal hhost.of_total False.elim h.tidy).mono ?_
  rintro outcome? w' ⟨hw', hmeets⟩
  have hpasses := hmeets.passes
  have hactive : w'.activeLinks e = w.activeLinks e :=
    hpasses.activeLinks_eq h.tidy hroot fun other hother heq => hlink (heq ▸ hother)
  exact ⟨h.lasts_of_passes hw' hpasses, (hline.of_passes_iff hpasses he).2 hactive,
    hpasses.toStays, hactive⟩

/-! ## Calls that give domain events -/

/-- `dispatch` keeps `InLine`, if the event is not reserved. -/
theorem lasts_dispatch_of_domain (hhost : host.IsTame settings total)
    (h : w.Kept settings number root) (hline : w.InLine number)
    (hdomain : event.isReserved = false) :
    Gives False (dispatch host link event) w fun _ w' =>
      w.Lasts settings number root w' ∧ w'.InLine number := by
  obtain ⟨e, he, -⟩ := h.exists_engine
  by_cases hlink : link ∈ w.activeLinks e
  · exact (lasts_dispatch hhost.isSteady h he hlink event).mono fun _ _ hw' =>
      ⟨hw'.1, hw'.2 hdomain hline⟩
  · exact ((lasts_dispatchLocal_of_not_mem hhost h hline he hlink).mono fun _ _ hw' =>
      ⟨hw'.1, hw'.2.1⟩).of_run_eq (run_dispatch_of_not_mem h hline he hlink)

/-- **`Call.perform` keeps `InLine`** for every call that is no signal. -/
theorem lasts_perform_of_domain (hhost : host.IsTame settings total)
    (h : w.Kept settings number root) (hline : w.InLine number) (hcall : call.isSignal = false) :
    Gives False (call.perform host root) w fun _ w' =>
      w.Lasts settings number root w' ∧ w'.InLine number := by
  have hadmissible : call.target? = none → Gives False (call.perform host root) w fun _ w' =>
      w.Lasts settings number root w' ∧ w'.InLine number := fun htarget =>
    (lasts_perform hhost.isSteady h fun link hlink => by rw [htarget] at hlink; cases hlink).mono
      fun _ _ hw' => ⟨hw'.1, hw'.2 hcall hline⟩
  cases call with
  | send name params => exact hadmissible rfl
  | dispatch event => exact hadmissible rfl
  | sendTo link name params =>
    rw [Call.perform, sendNamed]
    split
    · exact gives_pure ⟨.refl h, hline⟩
    · exact lasts_dispatch_of_domain hhost h hline rfl
  | dispatchTo link event => exact lasts_dispatch_of_domain hhost h hline hcall

/-! ## Coming to an end -/

/-- `route` comes to an end, if machines look up events at their states alone. -/
theorem isSome_run_route (hhost : host.IsTame settings total)
    (hplain : total → ∀ c, settings c → c.lookup = .exact) (h : w.Kept settings number root)
    (hdomain : event.isReserved = false) (ht : total) :
    ((route host number event).run w).isSome = true := by
  obtain ⟨e, he, -, -, hroot⟩ := h.exists_engine
  have hhandle : Gives total (handle host number event) { w with busy := number :: w.busy }
      fun _ _ => True := by
    by_cases hmisnamed : event.isMisnamed = true
    · rw [handle]
      refine gives_get ?_
      simp only [he, hmisnamed, if_true]
      exact gives_pure trivial
    · exact (gives_handle hhost hplain h.whileBusy.tidy he hroot (by simpa using hmisnamed)
        hdomain).mono fun _ _ _ => trivial
  have hroute : Gives total (route host number event) w fun _ _ => True := gives_whileBusy hhandle
  exact hroute.1 ht

end Act

namespace World

/-! ## Where an event is sent -/

/-- **`Kept` and `InLine` hold in every world that is `Served`**, by induction along the calls. -/
theorem Served.kept (hhost : host.IsTame settings total) (hbefore : before.Tidy settings)
    (hengines : before.EnginesKnown) (hrest : before.busy = []) (hroot : before.HasMachine root)
    (h : World.Served host before root config w) :
    w.Kept settings before.engines.size root ∧ w.InLine before.engines.size ∧
      ∃ e, w.engines[before.engines.size]? = some e ∧ e.root = root ∧ e.config = config := by
  have hsteady : host.IsSteady settings before.engines.size root := hhost.isSteady
  induction h with
  | wrapped hrun =>
    obtain ⟨hkept, hline⟩ := kept_of_wrap hsteady.toIsCalm hbefore hengines hrest hroot hrun
    obtain ⟨-, -, -, -, hengine⟩ :=
      (Act.gives_wrap hsteady.toIsCalm hbefore hroot hengines).2 () _ hrun
    exact ⟨hkept, hline, hengine⟩
  | called _ hcall hrun ih =>
    obtain ⟨hkept, hline, e, he, heroot, heconfig⟩ := ih
    obtain ⟨hlasts, hline'⟩ := (Act.lasts_perform_of_domain hhost hkept hline hcall).2 _ _ hrun
    obtain ⟨e', he', heroot', heconfig'⟩ := hlasts.stays.engine _ e he
    exact ⟨hlasts.kept, hline', e', he', heroot'.trans heroot, heconfig'.trans heconfig⟩

/-- **Where an event is sent does not matter.** Subscribers leave the machines alone
(`Host.IsTame`), a hierarchy is made around `root`, and domain events are sent to the hierarchy or
straight to machines (`World.Served`). Then `Act.dispatch host link event` is
`Act.dispatchToTree host root event` for every `link` in `w.activeLinks e`, with the same outcome
and the same world. For a machine that is not on the chain, like one that has left it, it is
`Act.dispatchLocal host link event`, while nothing happens to any other machine and the chain stays
as it is. If machines look up events at their states alone, all of this comes to an end
(`total`). -/
theorem delivered_alike (hhost : host.IsTame settings total)
    (hplain : total → ∀ c, settings c → c.lookup = .exact) (hbefore : before.Tidy settings)
    (hengines : before.EnginesKnown) (hrest : before.busy = []) (hroot : before.HasMachine root)
    (config : HierarchyConfig) (w : World ρ γ) (h : World.Served host before root config w) :
    ∃ e, w.engineInUse? = some (before.engines.size, e) ∧ e.root = root ∧ e.config = config ∧
      ∀ (event : Event) (link : Link), event.isReserved = false →
        (link ∈ w.activeLinks e →
          (Act.dispatch host link event).run w = (Act.dispatchToTree host root event).run w) ∧
        (link ∉ w.activeLinks e →
          (Act.dispatch host link event).run w = (Act.dispatchLocal host link event).run w ∧
          ∀ outcome? w', (Act.dispatch host link event).run w = some (outcome?, w') →
            w.Stays (· ≠ link) w' ∧ w'.activeLinks e = w.activeLinks e) ∧
        (total → ((Act.dispatch host link event).run w).isSome = true) := by
  obtain ⟨hkept, hline, e, he, heroot, heconfig⟩ := h.kept hhost hbefore hengines hrest hroot
  refine ⟨e, hkept.engineInUse?_eq he, heroot, heconfig, fun event link hdomain => ?_⟩
  refine ⟨fun hlink => ?_, fun hlink => ?_, fun ht => ?_⟩
  · rw [Act.run_dispatch_of_mem hkept hline he hlink hdomain, Act.dispatchToTree_run hkept]
  · have hlocal : (Act.dispatch host link event).run w =
        (Act.dispatchLocal host link event).run w :=
      Act.run_dispatch_of_not_mem hkept hline he hlink
    refine ⟨hlocal, fun outcome? w' hrun => ?_⟩
    rw [hlocal] at hrun
    obtain ⟨-, -, hstays, hactive⟩ :=
      (Act.lasts_dispatchLocal_of_not_mem hhost hkept hline he hlink).2 _ _ hrun
    exact ⟨hstays, hactive⟩
  · -- On the chain the engine routes the event, and off it the machine handles it. Both come to an
    -- end.
    by_cases hlink : link ∈ w.activeLinks e
    · rw [Act.run_dispatch_of_mem hkept hline he hlink hdomain]
      exact Act.isSome_run_route hhost hplain hkept hdomain ht
    · rw [Act.run_dispatch_of_not_mem hkept hline he hlink]
      exact (Act.gives_dispatchLocal hhost hplain hkept.tidy).1 ht

/-! ## The clerk of a shop -/

/-- The world after `MachinePlan.shop.realise`, without a hierarchy. -/
def shopFitted : World Unit Unit :=
  (MachinePlan.shop.realise (Surroundings.quiet.host 1)).after { guest := () }

/-- `shopFitted` is tidy, and no machine there has an engine. -/
theorem tidy_shopFitted : shopFitted.Tidy (·.lookup = .exact) ∧ shopFitted.EnginesKnown := by
  have hhost : (Surroundings.quiet.host 1 : Host Unit Unit).IsTame (·.lookup = .exact) True :=
    Surroundings.isTame_quiet 0
  have hfits := MachinePlan.fits_shop ({ guest := () } : World Unit Unit).HasMachine
  obtain ⟨_, hidles, -⟩ :=
    (MachinePlan.gives_realise hhost.toIsCalm .shop _ hfits (tidy_empty ())).after trivial
  exact ⟨hidles.1, hidles.2.enginesKnown fun _ _ _ hm => by cases hm⟩

/-- `shopFitted` after `Act.wrap` at the shop. -/
def shopOpened : World Unit Unit :=
  (Act.wrap (Surroundings.quiet.host 1) ⟨1⟩ {}).after shopFitted

/-- The call that sends `"serve"` to the clerk. -/
def serveCall : Call := .sendTo ⟨0⟩ "serve" []

/-- `shopOpened` after `serveCall`, so that the shop is closed. -/
def shopServed : World Unit Unit :=
  (serveCall.perform (Surroundings.quiet.host 1) ⟨1⟩).after shopOpened

/-- `delivered_alike` for the clerk `⟨0⟩` of a shop. In `shopOpened` its events go to the shop
`⟨1⟩`, and in `shopServed`, when the shop has closed, they go to the clerk alone. -/
theorem shop_delivered_alike :
    World.Served (Surroundings.quiet.host 1) shopFitted ⟨1⟩ {} shopServed ∧
      (Act.dispatch (Surroundings.quiet.host 1) ⟨0⟩ (.domain "serve" [])).run shopOpened =
        (Act.dispatchToTree (Surroundings.quiet.host 1) ⟨1⟩ (.domain "serve" [])).run shopOpened ∧
      (Act.dispatch (Surroundings.quiet.host 1) ⟨0⟩ (.domain "serve" [])).run shopServed =
        (Act.dispatchLocal (Surroundings.quiet.host 1) ⟨0⟩ (.domain "serve" [])).run shopServed ∧
      ((Act.dispatch (Surroundings.quiet.host 1) ⟨0⟩ (.domain "serve" [])).run
        shopServed).isSome = true := by
  have hhost : (Surroundings.quiet.host 1 : Host Unit Unit).IsTame (·.lookup = .exact) True :=
    Surroundings.isTame_quiet 0
  obtain ⟨htidy, hengines⟩ := tidy_shopFitted
  have hrest : shopFitted.busy = [] := by decide +kernel
  have hroot : shopFitted.HasMachine ⟨1⟩ := Option.isSome_iff_exists.1 (by decide +kernel)
  have hwrap : ((Act.wrap (Surroundings.quiet.host 1) ⟨1⟩ {}).run shopFitted).isSome = true := by
    decide +kernel
  have hserve : ((serveCall.perform (Surroundings.quiet.host 1) ⟨1⟩).run shopOpened).isSome =
      true := by
    decide +kernel
  obtain ⟨_, hwrapped⟩ := Act.run_eq_after hwrap
  obtain ⟨_, hserved⟩ := Act.run_eq_after hserve
  have hopened : World.Served (Surroundings.quiet.host 1) shopFitted ⟨1⟩ {} shopOpened :=
    .wrapped hwrapped
  have hclosed : World.Served (Surroundings.quiet.host 1) shopFitted ⟨1⟩ {} shopServed :=
    hopened.called rfl hserved
  have hplain : True → ∀ c : MachineConfig, c.lookup = .exact → c.lookup = .exact :=
    fun _ _ hlookup => hlookup
  obtain ⟨e, he, -, -, halike⟩ :=
    delivered_alike hhost hplain htidy hengines hrest hroot {} shopOpened hopened
  obtain ⟨e', he', -, -, halike'⟩ :=
    delivered_alike hhost hplain htidy hengines hrest hroot {} shopServed hclosed
  -- The clerk is on the chain at first, and no longer when the shop has closed.
  have hthere : shopOpened.engineInUse?.map (fun p => shopOpened.activeLinks p.2) =
      some [⟨1⟩, ⟨0⟩] := by decide +kernel
  have hgone : shopServed.engineInUse?.map (fun p => shopServed.activeLinks p.2) =
      some [⟨1⟩] := by decide +kernel
  rw [he, Option.map_some, Option.some.injEq] at hthere
  rw [he', Option.map_some, Option.some.injEq] at hgone
  obtain ⟨hrouted, -, -⟩ := halike (.domain "serve" []) ⟨0⟩ rfl
  obtain ⟨-, hlocal, hends⟩ := halike' (.domain "serve" []) ⟨0⟩ rfl
  exact ⟨hclosed, hrouted (by rw [hthere]; decide), (hlocal (by rw [hgone]; decide)).1,
    hends trivial⟩

end World

end Statechart
