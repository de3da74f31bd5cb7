import Statechart.Proofs.Flat.Queue

/-! # Exits of the machine of a flat form

A composite of a definition may have an exit: it is left once the leaf inside is terminal. When an
event has been handled to its end, the machine of a flat form is in no leaf that should have been
left in this way. This holds whatever its subscribers send meanwhile, as long as there are not more
exits than the machine may process.

* `Definition.HasExitAt`: a composite has an exit.
* **`FlatDefinition.exits_closed`**: after each event no exit is open.
* `FlatDefinition.checkout_exits_closed`: a payment that is cancelled once it is authorized. -/

namespace Statechart

variable {ρ γ : Type} {flat : FlatDefinition} {config : FlattenConfig} {d : Definition}

/-- **The composite at `keys` has an exit**: on the level around it a transition for `.childExit`
leads from it to a name. `Builder` leaves the target of no exit to a choice. -/
def Definition.HasExitAt (d : Definition) (keys : List String) : Prop :=
  ∃ outer key level t name, keys = outer ++ [key] ∧ d.level? outer = some level ∧
    t ∈ level.transitions ∧ t.source = key ∧ t.event = .childExit ∧ t.target = .key name

namespace FlatDefinition

/-- **`flat.target?` of `.childExit` is there if `d.HasExitAt keys`**, whatever
`config.eventCollision` is. -/
theorem exists_target?_of_hasExitAt (hone : config.delimiter.length = 1)
    (h : ofDefinition config d = some (.ok flat)) {keys : List String} (hexit : d.HasExitAt keys) :
    ∃ path, flat.target? (config.delimiter.intercalate keys) .childExit = some (.path path) := by
  obtain ⟨hproblems, whole, hwhole, hsettled⟩ := exists_of_ofDefinition h
  have hd := Definition.orderly_of_problems hproblems
  have hrenders := renders_of_assemble hd hone hwhole
  obtain ⟨outer, key, level, t, name, rfl, hlevel, ht, rfl, hevent, htarget⟩ := hexit
  have hfound := (hd.level? hlevel).transition?_eq_some_iff.2 ⟨ht, rfl, hevent⟩
  have hleads := hrenders.leads outer level t hlevel ht
  rw [htarget, leads?, Option.isSome_map, Option.isSome_iff_exists] at hleads
  obtain ⟨path, hpath⟩ := hleads
  refine ⟨path, ?_⟩
  rw [target?_eq_of_isReserved hsettled rfl,
    hrenders.filed outer level t.source .childExit hlevel ((hd.level? hlevel).source t ht), hfound,
    Option.bind_some, htarget, leads?, hpath]
  rfl

/-- A machine that is `Machine.Closed` is in no terminal leaf inside a composite that has an
exit. -/
theorem not_finished_of_closed (hone : config.delimiter.length = 1)
    (h : ofDefinition config d = some (.ok flat)) {m : Machine (StatePlan ρ)} {keys : List String}
    {l : LeafDef} (hat : (StateDef.composite d).at? keys = some (.leaf l))
    (hkey : m.current.state.key = config.delimiter.intercalate keys)
    (hclosed : m.Closed flat config) : ¬ (m.isFinished = true ∧ d.HasExitAt keys.dropLast) := by
  rintro ⟨hfinished, hexit⟩
  have hd := Definition.orderly_of_problems (exists_of_ofDefinition h).1
  obtain ⟨path, hpath⟩ := exists_target?_of_hasExitAt hone h hexit
  have hfront : keys.dropLast ≠ [] := by
    obtain ⟨outer, key, -, -, -, hkeys, -⟩ := hexit
    rw [hkeys]
    exact List.append_ne_nil_of_right_ne_nil outer (List.cons_ne_nil key [])
  have hdelimits := hd.delimits hone hat
  have hne := Definition.StandsAt.ne_nil ⟨l, hat⟩
  rw [← List.dropLast_append_getLast hne] at hdelimits
  -- The composite around the leaf has the path of its keys but the last.
  refine hclosed hfinished _ path ?_ hpath
  rw [hkey, ← List.dropLast_append_getLast hne, Path.parent?_intercalate hdelimits,
    List.dropLast_append_getLast hne, Path.scope?_of_ne_nil hfront]

/-- **After each send under `.drain` no exit is open.** Let `flat` be the flat form of `d` under any
`config` with `config.followUps = .drain` and a delimiter of one character. Then `Act.startFlat`
gives a machine at some `link`, and events may reach it in any `World.Stretch`, while subscribers
send it more of them (`around.Sends link`). Whenever `Act.sendNamed` gives an outcome there, and
`Act.SendUncut` holds, which is that no limit has cut it short, then afterwards `m.pending = []`,
and `m` is in a leaf of `d`, with its path `config.delimiter.intercalate keys` and its marker. That
leaf is not both terminal for `m` and inside a composite with an exit,
`d.HasExitAt keys.dropLast`. -/
theorem exits_closed (hone : config.delimiter.length = 1) (hdrain : config.followUps = .drain)
    (h : ofDefinition config d = some (.ok flat)) (around : Surroundings ρ γ) (depth : Nat)
    (before : World ρ γ) :
    ∃ link start, (Act.startFlat (around.host depth) flat config).run before =
        some (.ok link, start) ∧
      (around.Sends link → ∀ w, start.Stretch (around.host depth) link (fun _ _ => True) w →
        ∀ name params outcome w',
          (Act.sendNamed (around.host depth) link name params).run w = some (some outcome, w') →
          Act.SendUncut (around.host depth) link (World.Told around link depth)
            (.domain name params) w →
          ∃ m keys leaf, w'.machine? link = some m ∧ m.RunsFlat flat config ∧ m.pending = [] ∧
            (StateDef.composite d).at? keys = some (.leaf leaf) ∧
            m.current.state.key = config.delimiter.intercalate keys ∧
            m.current.state.isFinal = leaf.isFinal ∧
            ¬ (m.isFinished = true ∧ d.HasExitAt keys.dropLast)) := by
  obtain ⟨hproblems, whole, hwhole, hsettled⟩ := exists_of_ofDefinition h
  have hd := Definition.orderly_of_problems hproblems
  have hrenders := renders_of_assemble hd hone hwhole
  have hlands := lands_of_ofDefinition h
  obtain ⟨_, start, hstart, link, leaf, hleaf, rfl, -, hm₀⟩ :=
    hlands.ends_startFlat_machine config (around.host depth) before
  refine ⟨link, start, hstart, fun hsends w hstretch name params outcome w' hsend huncut => ?_⟩
  have hhost : (around.host depth).Abides link flat config (World.Told around link depth) :=
    hsends.abides hlands hdrain depth
  -- No follow-up waits when an event is sent from outside.
  obtain ⟨m, hm, hin, hdrains⟩ := hstretch.drains hhost hlands hdrain hm₀
    ⟨⟨rfl, rfl, rfl⟩, rfl, leaf, hleaf, rfl, rfl⟩
  have hempty : m.pending = [] := hdrains.elim id id
  rw [Act.sendNamed] at hsend
  split at hsend
  · cases hsend
  · obtain ⟨m', hm', hin', hdrains', hsettled'⟩ :=
      (Act.gives_dispatch_flat hhost hlands hdrain hm hin _).2 _ _ hsend
    have hempty' : m'.pending = [] := hdrains'.elim id fun hsame => hsame.trans hempty
    have hclosed : m'.Closed flat config := by
      have hdone := hsettled' huncut
      rw [hempty'] at hdone
      exact hdone.closed
    obtain ⟨leaf', hleaf', hkey, hfinal⟩ := hin'.leaf
    rw [(eq_of_settleCollisions hsettled).1] at hleaf'
    obtain ⟨keys, l, hat, rfl⟩ := (hrenders.mem_leaves_iff leaf').1 hleaf'
    exact ⟨m', keys, l, hm', hin'.toRunsFlat, hempty', hat, hkey, hfinal,
      not_finished_of_closed hone h hat hkey hclosed⟩

end FlatDefinition

/-! ## A checkout -/

/-- A payment, which is left for `Review` once it is authorized, and for `Cart` by `cancel`. -/
def Definition.checkout : Definition where
  states := [
    ("Cart", .leaf {}),
    ("Payment", .composite {
      states := [("Entry", .leaf {}), ("Authorized", .leaf { isFinal := true })]
      transitions := [⟨"Entry", .domain "authorize", .key "Authorized"⟩]
      initial? := some "Entry" }),
    ("Review", .leaf {})]
  transitions := [
    ⟨"Payment", .domain "cancel", .key "Cart"⟩,
    ⟨"Payment", .childExit, .key "Review"⟩]
  initial? := some "Payment"

namespace FlatDefinition

/-- The flat form of `Definition.checkout`. -/
def checkout : FlatDefinition :=
  match ofDefinition {} .checkout with
  | some (.ok flat) => flat
  | _ => default

/-- `ofDefinition` of `Definition.checkout`. -/
theorem ofDefinition_checkout : ofDefinition {} .checkout = some (.ok checkout) := by
  have hsome : ((ofDefinition {} .checkout).bind Except.toOption).isSome = true := by
    decide +kernel
  rw [checkout]
  cases hresult : ofDefinition {} .checkout with
  | none =>
    rw [hresult] at hsome
    cases hsome
  | some result =>
    cases result with
    | error e =>
      rw [hresult] at hsome
      cases hsome
    | ok flat => rfl

/-- `FlatDefinition.checkout` renders `Definition.checkout`. -/
theorem renders_checkout : checkout.Renders "." .checkout := by
  obtain ⟨hproblems, whole, hwhole, hsettled⟩ := exists_of_ofDefinition ofDefinition_checkout
  rw [eq_of_settleCollisions_error hsettled]
  exact renders_of_assemble (Definition.orderly_of_problems hproblems) rfl hwhole

end FlatDefinition

namespace World

/-- The world with the machine of `FlatDefinition.checkout` in it. -/
def checkout : World Unit Unit :=
  (Act.found ⟨Definition.checkout.leafState "." ["Payment", "Entry"] [],
    FlatDefinition.checkout.factory, FlatDefinition.checkout.table,
    FlatDefinition.machineConfig {}⟩).after { guest := () }

/-- `World.checkout` with a subscriber to the machine. -/
def checkoutWatched : World Unit Unit := (Act.subscribe ⟨0⟩ 7).after checkout

/-- Subscribers send `cancel` whenever they are told of a change. -/
def cancelling : Surroundings Unit Unit := .prompt ⟨0⟩ "cancel"

/-- The world after `authorize` has been entered, before anyone is told of it. -/
def checkoutAuthorized : World Unit Unit :=
  (Act.enter (cancelling.host 3) ⟨0⟩ (.domain "authorize" [])).after checkoutWatched

/-- The world after `cancel` has been entered as well, before anyone is told of it. -/
def checkoutCancelled : World Unit Unit :=
  (Act.enter (cancelling.host 2) ⟨0⟩ (.domain "cancel" [])).after checkoutAuthorized

/-- `Act.SendUncut` of `cancel` in `World.checkoutAuthorized`. -/
theorem sendUncut_cancel : Act.SendUncut (cancelling.host 2) ⟨0⟩ (Told cancelling ⟨0⟩ 2)
    (.domain "cancel" []) checkoutAuthorized := by
  -- The subscriber is told of the cancelling, tries to cancel again, and comes to nothing.
  have hround : (checkoutCancelled.machine? ⟨0⟩).map (·.listeners.round) = some [7] := by
    decide +kernel
  have hdone : ((Act.enter (cancelling.host 1) ⟨0⟩ (.domain "cancel" [])).run
      checkoutCancelled).map (·.1) = some none := by decide +kernel
  have hnone : ((Act.step (cancelling.host 2) ⟨0⟩ (.domain "cancel" [])).run
      checkoutAuthorized).map (fun p => p.1.map (·.2)) = some (some []) := by decide +kernel
  constructor
  · intro change followUps w₁ w₂ henter hnotify
    obtain ⟨m, hm, hround⟩ := Option.map_eq_some_iff.1 hround
    obtain ⟨⟨_, w'⟩, hrun, rfl⟩ := Option.map_eq_some_iff.1 hdone
    obtain rfl : w₁ = checkoutCancelled := Act.eq_after henter
    exact told_prompt hm hround (by decide) (Act.sendUncut_of_run_enter hrun) hnotify
  · intro change followUps w₁ w₂ m hstep hsome
    rw [hstep] at hnone
    cases hnone
    exact absurd rfl hsome

/-- The world in which the exit of `Payment.Authorized` waits. -/
def checkoutQueued : World Unit Unit :=
  (Act.pushPending ⟨0⟩ [.childExit (.path "Payment.Authorized")]).after
    ((Act.step (cancelling.host 3) ⟨0⟩ (.domain "authorize" [])).after checkoutWatched)

/-- `Act.FlushUncut` in `World.checkoutQueued`: the payment has been left already. -/
theorem flushUncut_checkoutQueued : Act.FlushUncut (cancelling.host 3) ⟨0⟩ (Told cancelling ⟨0⟩ 3)
    (255 + 1) checkoutQueued := by
  -- The exit is taken from the queue, but its state is not active any more.
  have hpopped : ((Act.popPending ⟨0⟩).run checkoutQueued).map (·.1) =
      some (some (.childExit (.path "Payment.Authorized"))) := by decide +kernel
  have hstale : ((Act.enter (cancelling.host 3) ⟨0⟩ (.childExit (.path "Payment.Authorized"))).run
      ((Act.popPending ⟨0⟩).after checkoutQueued)).map
        (fun p => (p.1, (p.2.machine? ⟨0⟩).map (·.pending))) = some (none, some []) := by
    decide +kernel
  rw [Act.FlushUncut]
  intro event w₁ hpop
  rw [hpop] at hpopped
  cases hpopped
  rw [← Act.eq_after hpop] at hstale
  obtain ⟨⟨_, w₂⟩, henter, heq⟩ := Option.map_eq_some_iff.1 hstale
  obtain ⟨rfl, hpending⟩ := Prod.mk.inj heq
  obtain ⟨m, hm, hnone⟩ := Option.map_eq_some_iff.1 hpending
  have hstep := Act.run_step_of_run_enter henter
  refine ⟨(Act.sendUncut_of_run_enter henter).1, fun w₃ hstep' => ?_, fun _ _ w₃ _ hstep' => ?_⟩
  · rw [hstep] at hstep'
    cases hstep'
    exact Act.flushUncut_of_pending hm hnone 255
  · rw [hstep] at hstep'
    cases hstep'

/-- `Act.SendUncut` of `authorize` in `World.checkoutWatched`. -/
theorem sendUncut_authorize : Act.SendUncut (cancelling.host 3) ⟨0⟩ (Told cancelling ⟨0⟩ 3)
    (.domain "authorize" []) checkoutWatched := by
  have hround : (checkoutAuthorized.machine? ⟨0⟩).map (·.listeners.round) = some [7] := by
    decide +kernel
  have hexit : ((Act.step (cancelling.host 3) ⟨0⟩ (.domain "authorize" [])).run
      checkoutWatched).map (fun p => p.1.map (·.2)) =
        some (some [.childExit (.path "Payment.Authorized")]) := by decide +kernel
  have hlimit : (checkoutQueued.machine? ⟨0⟩).map (·.config.maxFollowUps) = some 256 := by
    decide +kernel
  constructor
  · intro change followUps w₁ w₂ henter hnotify
    obtain ⟨m, hm, hround⟩ := Option.map_eq_some_iff.1 hround
    -- The subscriber cancels, and that is not cut.
    obtain rfl : w₁ = checkoutAuthorized := Act.eq_after henter
    exact told_prompt hm hround (by decide) sendUncut_cancel hnotify
  · intro change followUps w₁ w₂ m hstep _ hpush hm _
    rw [hstep] at hexit
    cases hexit
    -- After that, the exit is queued, and the queue is processed.
    have hqueued : w₂ = checkoutQueued := by
      rw [checkoutQueued, ← Act.eq_after hstep]
      exact Act.eq_after hpush
    rw [← hqueued, hm] at hlimit
    have hbound : m.config.maxFollowUps = 255 + 1 := Option.some.inj hlimit
    rw [hbound, hqueued]
    exact flushUncut_checkoutQueued

/-- `Act.startFlat` of `FlatDefinition.checkout` starts in `Payment.Entry`. -/
theorem run_startFlat_checkout :
    (Act.startFlat (cancelling.host 3) FlatDefinition.checkout {}).run { guest := () } =
      some (.ok ⟨0⟩, checkout) := by
  have hkeys : Definition.checkout.startKeys = ["Payment", "Entry"] := by decide
  rw [Act.startFlat, FlatDefinition.renders_checkout.realise_machinePlan, hkeys]
  rfl

end World

/-- `exits_closed` for `checkout` and `"authorize"`, while a subscriber cancels the payment as soon
as it is authorized (`World.cancelling`). The exit of the payment does not stay open: the machine
ends in `"Cart"`, and nothing waits. -/
theorem FlatDefinition.checkout_exits_closed :
    ∃ outcome w', (Act.sendNamed (World.cancelling.host 3) ⟨0⟩ "authorize" []).run
        World.checkoutWatched = some (some outcome, w') ∧
      (w'.machine? ⟨0⟩).map (·.current.state.key) = some "Cart" ∧
      ∃ m keys leaf, w'.machine? ⟨0⟩ = some m ∧ m.RunsFlat checkout {} ∧ m.pending = [] ∧
        (StateDef.composite .checkout).at? keys = some (.leaf leaf) ∧
        m.current.state.key = ".".intercalate keys ∧ m.current.state.isFinal = leaf.isFinal ∧
        ¬ (m.isFinished = true ∧ Definition.checkout.HasExitAt keys.dropLast) := by
  have hone : ({} : FlattenConfig).delimiter.length = 1 := by decide
  -- What the run shows is computed, and that nothing is left open follows from the theorem.
  have hsent : ((Act.sendNamed (World.cancelling.host 3) ⟨0⟩ "authorize" []).run
      World.checkoutWatched).map (fun p => (p.1.isSome,
        (p.2.machine? ⟨0⟩).map (·.current.state.key))) = some (true, some "Cart") := by
    decide +kernel
  have hwatched : ((Act.subscribe ⟨0⟩ 7).run World.checkout).isSome = true := by decide +kernel
  obtain ⟨⟨outcome?, w'⟩, hrun, hshown⟩ := Option.map_eq_some_iff.1 hsent
  obtain ⟨hsome, hcart⟩ := Prod.mk.inj hshown
  obtain ⟨outcome, rfl⟩ := Option.isSome_iff_exists.1 hsome
  obtain ⟨_, hsubscribed⟩ := Act.run_eq_after hwatched
  obtain ⟨link, start, hstart, hclosed⟩ :=
    exits_closed hone rfl ofDefinition_checkout World.cancelling 3 { guest := () }
  rw [World.run_startFlat_checkout] at hstart
  cases hstart
  refine ⟨outcome, w', hrun, hcart, hclosed (Surroundings.sends_prompt ⟨0⟩ "cancel") _ ?_ _ _ _ _
    hrun World.sendUncut_authorize⟩
  exact .spares (World.spares_of_run_subscribe hsubscribed) .done

end Statechart
