import Statechart.Proofs.Flat.Sitting

/-! # Exits that wait

The exits that a flat machine queues may wait, while other events move the machine away, back into
the same leaf, or into another composite whose states have the same names. When its turn comes, an
exit is applied only if the machine is in the leaf of the exit, and then only by the composite right
around this leaf. What is further out is not asked.

* `FlatDefinition.exists_of_isExit`: an event that entering a leaf may produce, in the definition.
* **`FlatDefinition.no_stale_exit`**: no exit is applied in another state than its own.
* `FlatDefinition.checkout_exit_waits`: the exit of a payment that waits to be processed. -/

namespace Statechart

variable {ρ γ : Type} {flat : FlatDefinition} {config : FlattenConfig} {d : Definition}
  {event : Event}

/-- **`flat.IsExit` holds of exits of terminal leaves of `d`** that are directly inside a
composite. -/
theorem FlatDefinition.exists_of_isExit (hone : config.delimiter.length = 1)
    (h : ofDefinition config d = some (.ok flat)) (hexit : flat.IsExit config event) :
    ∃ outer key leaf, outer ≠ [] ∧
      (StateDef.composite d).at? (outer ++ [key]) = some (.leaf leaf) ∧
      event = .childExit (.path (config.delimiter.intercalate (outer ++ [key]))) ∧
      flat.isTerminal config.terminal
        ⟨config.delimiter.intercalate (outer ++ [key]), leaf⟩ = true := by
  obtain ⟨leaf, hleaf, rfl, hqualified, hterminal⟩ := hexit
  obtain ⟨keys, l, hat, rfl⟩ := exists_at?_of_mem_leaves hone h hleaf
  have hd := Definition.orderly_of_problems (exists_of_ofDefinition h).1
  have hdelimits := hd.delimits hone hat
  have hne := Definition.StandsAt.ne_nil ⟨l, hat⟩
  obtain ⟨outer, key, rfl⟩ : ∃ outer key, keys = outer ++ [key] :=
    ⟨keys.dropLast, keys.getLast hne, (List.dropLast_append_getLast hne).symm⟩
  refine ⟨outer, key, l, ?_, hat, rfl, hterminal⟩
  rintro rfl
  rw [Path.isQualified_intercalate hdelimits] at hqualified
  cases hqualified

/-- **No exit is applied in another state than its own.** Let `flat` be the flat form of `d` with a
delimiter of one character. Then `Act.startFlat` gives a machine at some `link`. At every
`World.Moment` after that, while subscribers ask the machine for what they like
(`around.Asks link`), each event in `m.pending` is the `.childExit` of a terminal leaf at keys
`outer ++ [key]` with `outer ≠ []`. If `Act.popPending` takes one out and `Act.resolve` finds an
answer to it, then `m` is in the leaf of this exit, the answer is that of the composite at `outer`
directly around it, and `m.lookupKeys?` looks under no other path. -/
theorem FlatDefinition.no_stale_exit (hone : config.delimiter.length = 1)
    (h : ofDefinition config d = some (.ok flat)) (around : Surroundings ρ γ) (depth : Nat)
    (before : World ρ γ) :
    ∃ link start, (Act.startFlat (around.host depth) flat config).run before =
        some (.ok link, start) ∧
      (around.Asks link → ∀ w, start.Moment around link depth w →
        ∃ m, w.machine? link = some m ∧ m.RunsFlat flat config ∧
          (∀ event ∈ m.pending, ∃ outer key leaf, outer ≠ [] ∧
            (StateDef.composite d).at? (outer ++ [key]) = some (.leaf leaf) ∧
            event = .childExit (.path (config.delimiter.intercalate (outer ++ [key]))) ∧
            config.terminal.isTerminal leaf.isFinal
              (flat.sources.contains (config.delimiter.intercalate (outer ++ [key]))) = true) ∧
          ∀ (host : Host ρ γ) event w₁ found w₂,
            (Act.popPending link).run w = some (some event, w₁) →
            (Act.resolve host link event).run w₁ = some (some found, w₂) →
            ∃ outer key level, outer ≠ [] ∧ d.level? outer = some level ∧
              event = .childExit (.path (config.delimiter.intercalate (outer ++ [key]))) ∧
              m.current.state.key = config.delimiter.intercalate (outer ++ [key]) ∧
              found.matched = config.delimiter.intercalate outer ∧
              (flat.target? found.matched .childExit).isSome = true ∧
              m.lookupKeys? event = some [found.matched]) := by
  obtain ⟨_, start, hstart, link, rfl, hsits⟩ :=
    (lands_of_ofDefinition h).ends_startFlat_sits config (around.host depth) before
  refine ⟨link, start, hstart, fun hasks w hmoment => ?_⟩
  obtain ⟨m, hm, hsits⟩ := hmoment.sitsAt hasks hsits
  refine ⟨m, hm, hsits.toRunsFlat,
    fun event hevent => exists_of_isExit hone h (hsits.pending event hevent), ?_⟩
  intro host event w₁ found w₂ hpop hresolve
  -- What is taken from the queue is its first exit, and the machine is the same but for its queue.
  have htaken : ∃ rest, m.pending = event :: rest ∧
      w₁.machine? link = some { m with pending := rest } := by
    cases hpending : m.pending with
    | nil =>
      have hempty := (Act.ends_popPending_of_nil hm hpending).of_run hpop
      cases hempty.1
    | cons first rest =>
      obtain ⟨hfirst, hm₁⟩ := (Act.ends_popPending_of_cons hm hpending).of_run hpop
      cases hfirst
      exact ⟨rest, rfl, hm₁⟩
  obtain ⟨rest, hpending, hm₁⟩ := htaken
  obtain ⟨outer, key, leaf, houter, hat, rfl, -⟩ :=
    exists_of_isExit hone h (hsits.pending event (hpending ▸ List.mem_cons_self))
  have hruns := hsits.toRunsFlat.setPending rest
  rw [Act.run_resolve hm₁ hruns] at hresolve
  obtain ⟨found?, hfinds, heq⟩ := Option.map_eq_some_iff.1 hresolve
  obtain ⟨hfound, -⟩ := Prod.mk.inj heq
  obtain ⟨made, rfl, rfl⟩ := Option.map_eq_some_iff.1 hfound
  obtain ⟨hcurrent, hparent, hpaths, htarget⟩ := hruns.of_finds?_exit hfinds
  have hd := Definition.orderly_of_problems (exists_of_ofDefinition h).1
  obtain ⟨level, hlevel, -⟩ := Definition.exists_level?_of_at?_concat hat
  rw [Path.parent?_intercalate (hd.delimits hone hat), Path.scope?_of_ne_nil houter] at hparent
  exact ⟨outer, key, level, houter, hlevel, rfl, hcurrent.symm, (Option.some.inj hparent).symm,
    htarget, hpaths⟩

namespace World

/-- The world with the machine of `FlatDefinition.checkout` in it, whose exits wait. -/
def checkoutPatient : World Unit Unit :=
  (Act.found ⟨Definition.checkout.leafState "." ["Payment", "Entry"] [],
    FlatDefinition.checkout.factory, FlatDefinition.checkout.table,
    FlatDefinition.machineConfig { followUps := .queue }⟩).after { guest := () }

/-- `Act.startFlat` of `FlatDefinition.checkout` with `followUps := .queue`. -/
theorem run_startFlat_checkoutPatient :
    (Act.startFlat (Surroundings.quiet.host 1) FlatDefinition.checkout
      { followUps := .queue }).run { guest := () } = some (.ok ⟨0⟩, checkoutPatient) := by
  have hkeys : Definition.checkout.startKeys = ["Payment", "Entry"] := by decide
  have hrenders : FlatDefinition.checkout.Renders
      ({ followUps := .queue } : FlattenConfig).delimiter .checkout :=
    FlatDefinition.renders_checkout
  rw [Act.startFlat, hrenders.realise_machinePlan, hkeys]
  rfl

/-- The world after `authorize`, in which the exit of `Payment.Authorized` waits. -/
def checkoutWaiting : World Unit Unit :=
  ((Request.send "authorize" []).perform (Surroundings.quiet.host 1) ⟨0⟩).after checkoutPatient

end World

/-- `no_stale_exit` for `checkout` in `World.checkoutWaiting`, where the exit of
`"Payment.Authorized"` waits. It is answered by `"Payment"`, while the machine is in that leaf. -/
theorem FlatDefinition.checkout_exit_waits :
    ∃ m found w₁ w₂, World.checkoutWaiting.machine? ⟨0⟩ = some m ∧
      (Act.popPending ⟨0⟩).run World.checkoutWaiting =
        some (some (.childExit (.path "Payment.Authorized")), w₁) ∧
      (Act.resolve (Surroundings.quiet.host 1) ⟨0⟩
        (.childExit (.path "Payment.Authorized"))).run w₁ = some (some found, w₂) ∧
      m.current.state.key = "Payment.Authorized" ∧ found.matched = "Payment" ∧
      m.lookupKeys? (.childExit (.path "Payment.Authorized")) = some [found.matched] := by
  have hone : ({ followUps := .queue } : FlattenConfig).delimiter.length = 1 := by decide
  have hflat : ofDefinition { followUps := .queue } .checkout = some (.ok checkout) :=
    ofDefinition_checkout
  -- The payment is authorized, and its exit waits. It is taken from the queue and looked up.
  have hsent : (((Request.send "authorize" []).perform (Surroundings.quiet.host 1) ⟨0⟩).run
      World.checkoutPatient).isSome = true := by decide +kernel
  have hpopped : ((Act.popPending ⟨0⟩).run World.checkoutWaiting).map (·.1) =
      some (some (.childExit (.path "Payment.Authorized"))) := by decide +kernel
  have hfound : ((Act.resolve (Surroundings.quiet.host 1) ⟨0⟩
      (.childExit (.path "Payment.Authorized"))).run
        ((Act.popPending ⟨0⟩).after World.checkoutWaiting)).map (·.1.map (·.matched)) =
      some (some "Payment") := by decide +kernel
  obtain ⟨_, hsent⟩ := Act.run_eq_after hsent
  obtain ⟨⟨_, w₁⟩, hpop, rfl⟩ := Option.map_eq_some_iff.1 hpopped
  rw [← Act.eq_after hpop] at hfound
  obtain ⟨⟨found?, w₂⟩, hresolve, hfound⟩ := Option.map_eq_some_iff.1 hfound
  obtain ⟨found, hsome, hmatched⟩ := Option.map_eq_some_iff.1 hfound
  obtain rfl : found? = some found := hsome
  obtain ⟨link, start, hstart, hstale⟩ :=
    no_stale_exit hone hflat Surroundings.quiet 1 ({ guest := () } : World Unit Unit)
  rw [World.run_startFlat_checkoutPatient] at hstart
  cases hstart
  obtain ⟨m, hm, -, -, hexits⟩ :=
    hstale (Surroundings.asks_quiet ⟨0⟩) World.checkoutWaiting (.later (.asked hsent .done) .now)
  obtain ⟨outer, key, level, -, -, hevent, hcurrent, -, -, hpaths⟩ :=
    hexits _ _ _ _ _ hpop hresolve
  rw [Event.childExit.injEq, ChildRef.path.injEq] at hevent
  exact ⟨m, found, w₁, w₂, hm, hpop, hresolve, hcurrent.trans hevent.symm, hmatched, hpaths⟩

end Statechart
