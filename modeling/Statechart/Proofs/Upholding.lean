import Statechart.Proofs.Registration

/-! # What all calls uphold

However deeply calls are nested, machines change in a few ways only. A machine looks for an answer
to an event, and may enter the state of the answer; beside that, it takes notes, it queues events,
and it is registered or released. So what holds of a world of machines, and is upheld when one
machine looks for an answer and enters the state that it has found, is upheld by every call.

* **`World.IsInvariant`**: what has to be known of an invariant.
* `Host.Upholds`: surroundings that uphold an invariant, and come to an end if they have to.
* `Host.UpholdsAt.dispatchLocal`, `Host.Upholds.handle`: one machine, and a hierarchy.
* **`Host.Upholds.perform`**: every call upholds the invariant.
* **`Surroundings.MakesCalls.upholds`**: so do subscribers that make calls. -/

namespace Statechart

variable {ρ γ : Type} {settings : MachineConfig → Prop} {J : World ρ γ → Prop}
  {host : Host ρ γ} {around : Surroundings ρ γ} {w w' before : World ρ γ} {link root : Link}
  {number : Nat} {event : Event} {config : HierarchyConfig} {total : Prop}

/-! ## Invariants of worlds of machines -/

/-- **`J` is an invariant of a world of machines**: it is kept when the world `Idles`, when
`Act.resolve` looks for an answer, when a machine enters the state that was found, when anything
else about a machine changes, and when engines go on to route. `Act.resolve` comes to an end if
`total` holds. -/
structure World.IsInvariant (settings : MachineConfig → Prop) (J : World ρ γ → Prop)
    (total : Prop) : Prop where
  tidy : ∀ w, J w → w.Tidy settings
  /-- Engines go on to route, each around its root. -/
  aside : ∀ w w', J w → w'.cells = w.cells → w'.shared = w.shared → w'.minted = w.minted →
    w'.tree? = w.tree? → (∀ number e, w.Routes number e → w'.Routes number e) → J w'
  idles : ∀ w w', J w → w.Idles settings w' → J w'
  /-- A machine takes notes, queues events, has other subscribers, or is registered elsewhere. -/
  tweak : ∀ (w : World ρ γ) link m m', J w → w.machine? link = some m → m'.id = m.id →
    m'.factory = m.factory → m'.table = m.table → m'.config = m.config → m'.current = m.current →
    m.revision ≤ m'.revision → J (w.setCell link (.machine m'))
  /-- A machine looks for an answer, and may enter the state that it has found. -/
  resolve : ∀ host : Host ρ γ, host.IsCalm settings total → ∀ w link event, J w →
    Act.Gives total (Act.resolve host link event) w fun found? w' => J w' ∧
      ∀ found m, found? = some found → w'.machine? link = some m →
        J (w'.setCell link (.machine (m.commit (m.changeTo found.event found.source found.target))))

/-- **The surroundings uphold the invariant `J`**: `observe` does, and `enrol` and `redrawn` are
calm (`IsCalm`). They come to an end if `total` holds. -/
structure Host.Upholds (settings : MachineConfig → Prop) (J : World ρ γ → Prop) (host : Host ρ γ)
    (total : Prop) : Prop extends Host.IsCalm settings host total where
  invariant : World.IsInvariant settings J total
  observe : ∀ subscriber change, Act.UpholdsIf total J (host.observe subscriber change)

/-- `IsTame` upholds every invariant. -/
theorem Host.IsTame.upholds (h : host.IsTame settings total)
    (hJ : World.IsInvariant settings J total) : host.Upholds settings J total :=
  ⟨h.toIsCalm, hJ, fun subscriber change w hw =>
    (h.observe subscriber change w (hJ.tidy w hw)).mono fun _ w' hidles =>
      hJ.idles w w' hw hidles⟩

/-- **The machine at `link` upholds `J`**: `observe`, `Act.resolve`, `commit` to the state that was
found, and any other change of the machine (`tweak`). -/
structure Host.UpholdsAt (J : World ρ γ → Prop) (host : Host ρ γ) (link : Link) (total : Prop) :
    Prop where
  observe : ∀ subscriber change, Act.UpholdsIf total J (host.observe subscriber change)
  tweak : ∀ (w : World ρ γ) m m', J w → w.machine? link = some m → m'.id = m.id →
    m'.factory = m.factory → m'.table = m.table → m'.config = m.config → m'.current = m.current →
    m.revision ≤ m'.revision → J (w.setCell link (.machine m'))
  resolve : ∀ w event, J w →
    Act.Gives total (Act.resolve host link event) w fun found? w' => J w' ∧
      ∀ found m, found? = some found → w'.machine? link = some m →
        J (w'.setCell link (.machine (m.commit (m.changeTo found.event found.source found.target))))

/-- `Host.Upholds` gives `UpholdsAt` for every `link`. -/
theorem Host.Upholds.upholdsAt (h : host.Upholds settings J total) (link : Link) :
    host.UpholdsAt J link total :=
  ⟨h.observe, fun w => h.invariant.tweak w link,
    fun w event => h.invariant.resolve host h.toIsCalm w link event⟩

/-! ## One machine -/

namespace Host.UpholdsAt

/-- `Act.notify` upholds `J`. -/
theorem notify (h : host.UpholdsAt J link total) (change : Change) :
    Act.UpholdsIf total J (Act.notify host link change) := by
  refine Act.upholds_get fun w hw => ?_
  split
  · exact Act.gives_pure hw
  · exact Act.upholds_forM (fun subscriber _ => h.observe subscriber change) w hw

/-- `Act.updateMachine link f` upholds `J`, if `f` keeps the parts of the machine and its state. -/
theorem updateMachine (h : host.UpholdsAt J link total)
    {f : Machine (StatePlan ρ) → Machine (StatePlan ρ)}
    (hf : ∀ m, (f m).id = m.id ∧ (f m).factory = m.factory ∧ (f m).table = m.table ∧
      (f m).config = m.config ∧ (f m).current = m.current ∧ m.revision ≤ (f m).revision) :
    Act.UpholdsIf total J (Act.updateMachine link f) := by
  refine Act.upholds_get fun w hw => ?_
  split
  · rename_i m hm
    refine Act.ends_setCell.gives.mono ?_
    rintro _ _ rfl
    obtain ⟨hid, hfactory, htable, hconfig, hcurrent, hrevision⟩ := hf m
    exact h.tweak w m _ hw hm hid hfactory htable hconfig hcurrent hrevision
  · exact Act.gives_pure hw

/-- **`Act.step` upholds `J`.** -/
theorem step (h : host.UpholdsAt J link total) (event : Event) :
    Act.UpholdsIf total J (Act.step host link event) := by
  intro w hw
  refine Act.gives_bind (h.resolve w event hw) ?_
  rintro (_ | found) w₁ ⟨hw₁, henter⟩
  · exact Act.gives_pure hw₁
  · refine Act.gives_get ?_
    split
    · exact Act.gives_pure hw₁
    · rename_i m hm
      -- Entering the state is the one change that a step makes by itself. Subscribers are told of
      -- it after that.
      have hset : Act.Gives total (Act.setCell link (.machine (m.commit
          (m.changeTo found.event found.source found.target))) : Act ρ γ Unit) w₁
          fun _ w' => J w' := by
        refine Act.ends_setCell.gives.mono ?_
        rintro _ _ rfl
        exact henter found m rfl hm
      refine Act.gives_bind hset fun _ w₂ hw₂ => ?_
      exact Act.gives_bind (h.notify _ w₂ hw₂) fun _ _ hw₃ => Act.gives_pure hw₃

/-- `Act.noteBelow` upholds `J`. -/
theorem noteBelow (h : host.UpholdsAt J link total) (child : ChildRef) (inner : Event) :
    Act.UpholdsIf total J (Act.noteBelow host link child inner) := by
  refine Act.upholds_get fun w hw => ?_
  split
  · exact Act.gives_pure hw
  · rename_i m hm
    have hset : Act.Gives total (Act.setCell link (.machine (m.commit
        (m.changeBelow child inner))) : Act ρ γ Unit) w fun _ w' => J w' := by
      refine Act.ends_setCell.gives.mono ?_
      rintro _ _ rfl
      exact h.tweak w m _ hw hm rfl rfl rfl rfl rfl (Nat.le_succ _)
    exact Act.gives_bind hset fun _ w₁ hw₁ => h.notify _ w₁ hw₁

/-- `Act.popPending` upholds `J`. -/
theorem popPending (h : host.UpholdsAt J link total) :
    Act.UpholdsIf total J (Act.popPending link) := by
  refine Act.upholds_get fun w hw => ?_
  split
  · exact Act.gives_pure hw
  · rename_i m hm
    split
    · exact Act.gives_pure hw
    · refine Act.gives_bind (Act.ends_setCell.gives) ?_
      rintro _ _ rfl
      exact Act.gives_pure (h.tweak w m _ hw hm rfl rfl rfl rfl rfl (Nat.le_refl _))

/-- `Act.cancelPending` upholds `J`. -/
theorem cancelPending (h : host.UpholdsAt J link total) :
    Act.UpholdsIf total J (Act.cancelPending link) := by
  refine Act.upholds_get fun w hw => ?_
  split
  · exact Act.gives_pure hw
  · rename_i m hm
    refine Act.gives_bind (Act.ends_setCell.gives) ?_
    rintro _ _ rfl
    exact Act.gives_pure (h.tweak w m _ hw hm rfl rfl rfl rfl rfl (Nat.le_refl _))

/-- `Act.pushPending` upholds `J`. -/
theorem pushPending (h : host.UpholdsAt J link total) (events : List Event) :
    Act.UpholdsIf total J (Act.pushPending link events) :=
  h.updateMachine fun _ => ⟨rfl, rfl, rfl, rfl, rfl, Nat.le_refl _⟩

/-- **`Act.flushWithin` upholds `J`.** -/
theorem flushWithin (h : host.UpholdsAt J link total) (bound : Nat) :
    Act.UpholdsIf total J (Act.flushWithin host link bound) := by
  induction bound with
  | zero => exact h.cancelPending.discard.bind fun _ => Act.upholds_pure _
  | succ bound ih =>
    refine h.popPending.bind fun event? => ?_
    cases event? with
    | none => exact Act.upholds_pure _
    | some event =>
      refine (h.step event).bind fun result => ?_
      cases result with
      | none => exact ih
      | some entered =>
        exact (h.pushPending entered.2).bind fun _ => ih.bind fun _ => Act.upholds_pure _

/-- `Act.flush` upholds `J`. -/
theorem flush (h : host.UpholdsAt J link total) :
    Act.UpholdsIf total J (Act.flush host link) := by
  refine Act.upholds_get fun w hw => ?_
  split
  · exact Act.gives_pure hw
  · exact h.flushWithin _ w hw

/-- `Act.settle` upholds `J`. -/
theorem settle (h : host.UpholdsAt J link total) (followUps : List Event) :
    Act.UpholdsIf total J (Act.settle host link followUps) := by
  rw [Act.settle]
  split
  · exact Act.upholds_pure _
  · refine (h.pushPending followUps).bind fun _ => Act.upholds_get fun w hw => ?_
    split
    · exact Act.gives_pure hw
    · split
      · exact h.flush.discard w hw
      · exact Act.gives_pure hw

/-- **`Act.dispatchLocal` upholds `J`.** -/
theorem dispatchLocal (h : host.UpholdsAt J link total) (event : Event) :
    Act.UpholdsIf total J (Act.dispatchLocal host link event) := by
  refine (h.step event).bind fun result => Act.upholds_get fun w hw => ?_
  split
  · exact (h.settle _).bind (fun _ => Act.upholds_pure _) w hw
  · exact Act.gives_pure hw

end Host.UpholdsAt

namespace Host.Upholds

/-- **`Act.dispatchLocal` upholds `J`.** -/
theorem dispatchLocal (h : host.Upholds settings J total) (link : Link) (event : Event) :
    Act.UpholdsIf total J (Act.dispatchLocal host link event) :=
  (h.upholdsAt link).dispatchLocal event

/-! ## Offering an event -/

/-- `Act.tryLevel` upholds `J`. -/
theorem tryLevel (h : host.Upholds settings J total) (rung : Level) (event : Event) :
    Act.UpholdsIf total J (Act.tryLevel host rung event) := by
  intro w hw
  cases hm : w.machine? rung.link with
  | some m =>
    have htry : Act.Gives total (Act.tryOn host rung.link event) w fun attempt w' =>
        J w' ∧ attempt ≠ .unsupported := by
      rw [Act.tryOn]
      refine Act.gives_get ?_
      rw [hm]
      refine Act.gives_bind (h.dispatchLocal rung.link event w hw) fun outcome? w₁ hw₁ => ?_
      cases outcome? with
      | none => exact Act.gives_pure ⟨hw₁, by simp⟩
      | some outcome => exact Act.gives_pure ⟨hw₁, by simp⟩
    refine Act.gives_bind htry ?_
    rintro attempt w₁ ⟨hw₁, hsupported⟩
    cases attempt with
    | applied outcome => exact Act.gives_pure hw₁
    | unhandled => exact Act.gives_pure hw₁
    | unsupported => exact absurd rfl hsupported
  | none =>
    -- There are machines only, so nothing is sent where there is none.
    have hcell := (h.invariant.tidy w hw).cell?_eq_none hm
    have hrun : (Act.tryLevel host rung event).run w = some (none, w) := by
      simp [Act.tryLevel, Act.tryOn, Act.delegate, Act.send, hm, hcell, World.snapshot?]
    refine ⟨fun _ => by rw [hrun]; rfl, fun _ w' hrun' => ?_⟩
    rw [hrun] at hrun'
    cases hrun'
    exact hw

/-- `Act.attemptLevels` upholds `J`. -/
theorem attemptLevels (h : host.Upholds settings J total) (event : Event)
    (rungs : List (Level × Nat)) : Act.UpholdsIf total J (Act.attemptLevels host event rungs) := by
  induction rungs with
  | nil => exact Act.upholds_pure _
  | cons rung rest ih =>
    refine (h.tryLevel rung.1 event).bind fun outcome? => ?_
    cases outcome? with
    | none => exact ih
    | some outcome => exact Act.upholds_pure _

/-- **`Act.attempt` upholds `J`.** -/
theorem attempt (h : host.Upholds settings J total) (root : Link) (levels : List Level)
    (event : Event) : Act.UpholdsIf total J (Act.attempt host root levels event) := by
  refine (h.attemptLevels event _).bind fun applied? => ?_
  cases applied? with
  | some applied => exact Act.upholds_pure _
  | none => exact (h.dispatchLocal root event).bind fun _ => Act.upholds_pure _

/-- `Act.tryExit` upholds `J`. -/
theorem tryExit (h : host.Upholds settings J total) (root : Link) (levels : List Level)
    (exit : Event) (depth : Nat) :
    Act.UpholdsIf total J (Act.tryExit host root levels exit depth) := by
  cases depth with
  | zero => exact (h.dispatchLocal root exit).bind fun _ => Act.upholds_pure _
  | succ above =>
    rw [Act.tryExit]
    split
    · exact Act.upholds_pure _
    · exact (h.tryLevel _ exit).bind fun _ => Act.upholds_pure _

/-- **`Act.bubbleFrom` upholds `J`.** -/
theorem bubbleFrom (h : host.Upholds settings J total) (number : Nat) (e : Engine) (depth : Nat) :
    Act.UpholdsIf total J (Act.bubbleFrom host number e depth) := by
  induction depth with
  | zero => exact Act.upholds_pure _
  | succ parent ih =>
    -- What is on the chain does not matter here.
    have hchain : Act.UpholdsIf total J (Act.chainOf number) :=
      Act.upholds_get fun w hw => Act.gives_pure hw
    refine hchain.bind fun levels => ?_
    split
    · exact Act.upholds_pure _
    · split
      · refine Act.upholds_get fun w hw => ?_
        split
        · exact Act.gives_pure hw
        · refine (h.tryExit e.root levels _ parent).bind (fun isTaken => ?_) w hw
          split
          · exact ih
          · exact Act.upholds_pure _
      · exact Act.upholds_pure _

/-- `Act.bubble` upholds `J`. -/
theorem bubble (h : host.Upholds settings J total) (number : Nat) (e : Engine) (handled : Nat)
    (before : List (Option MachineId)) :
    Act.UpholdsIf total J (Act.bubble host number e handled before) :=
  Act.UpholdsIf.bind (Act.upholds_get fun _ hw => Act.gives_pure hw) fun _ =>
    Act.upholds_get fun w hw => h.bubbleFrom number e _ w hw

/-! ## Registrations -/

/-- `modify f` upholds `J`, if `f` keeps cells, names and the engine in use, and engines go on to
route. -/
theorem beside (h : host.Upholds settings J total) {f : World ρ γ → World ρ γ}
    (hf : ∀ w, (f w).cells = w.cells ∧ (f w).shared = w.shared ∧ (f w).minted = w.minted ∧
      (f w).tree? = w.tree? ∧ ∀ number e, w.Routes number e → (f w).Routes number e) :
    Act.UpholdsIf total J (modify f : Act ρ γ Unit) := by
  intro w hw
  obtain ⟨hcells, hshared, hminted, htree, hroutes⟩ := hf w
  exact Act.gives_modify (h.invariant.aside w _ hw hcells hshared hminted htree hroutes)

/-- `Act.updateEngine number f` upholds `J`, if `f` keeps `root` and `config`. -/
theorem updateEngine (h : host.Upholds settings J total) (number : Nat) (f : Engine → Engine)
    (hf : ∀ e, (f e).root = e.root ∧ (f e).config = e.config) :
    Act.UpholdsIf total J (Act.updateEngine number f : Act ρ γ Unit) :=
  h.beside fun w => by
    have hstays : w.Stays (fun _ => True) { w with engines := w.engines.modify number f } :=
      .updateEngine fun e _ => hf e
    exact ⟨rfl, rfl, rfl, rfl, fun _ _ => hstays.routes⟩

/-- `Act.attach` upholds `J`. -/
theorem attach (h : host.Upholds settings J total) (number : Nat) (hlink : w.HasMachine link)
    (hw : J w) : Act.Gives total (Act.attach host number link) w fun _ w' => J w' := by
  obtain ⟨m, hm⟩ := hlink
  refine Act.gives_get ?_
  simp only [hm]
  refine Act.ends_setCell.gives.mono ?_
  rintro _ _ rfl
  exact h.invariant.tweak w link m _ hw hm rfl rfl rfl rfl rfl (Nat.le_refl _)

/-- `Act.detach` upholds `J`. -/
theorem detach (h : host.Upholds settings J total) (hlink : w.HasMachine link) (hw : J w) :
    Act.Gives total (Act.detach host link) w fun _ w' => J w' := by
  obtain ⟨m, hm⟩ := hlink
  refine Act.gives_get ?_
  simp only [hm]
  refine Act.ends_setCell.gives.mono ?_
  rintro _ _ rfl
  exact h.invariant.tweak w link m _ hw hm rfl rfl rfl rfl rfl (Nat.le_refl _)

/-- `Act.call` upholds `J`. -/
theorem call (h : host.Upholds settings J total) (number : Nat) (isJoining : Bool) (link : Link) :
    Act.UpholdsIf total J (Act.call host number isJoining link) := by
  refine Act.upholds_get fun w hw => ?_
  split
  · exact Act.gives_pure hw
  · rename_i id hid
    obtain ⟨m, hm, rfl⟩ := (h.invariant.tidy w hw).exists_machine hid
    let note : Engine → Engine := fun e => { e with calls := (m.id, isJoining) :: e.calls }
    -- The machine is still there when the call has been recorded, so that it can be told.
    have hnote : Act.Gives total (Act.updateEngine number note : Act ρ γ Unit) w fun _ w' =>
        w'.HasMachine link ∧ J w' := by
      refine ⟨fun _ => rfl, fun _ w' hrun => ⟨?_, ?_⟩⟩
      · cases hrun
        exact ⟨m, hm⟩
      · exact (h.updateEngine number note (fun _ => ⟨rfl, rfl⟩) w hw).2 _ w' hrun
    refine Act.gives_bind hnote ?_
    rintro _ w₁ ⟨hlink, hw₁⟩
    split
    · exact h.attach number hlink hw₁
    · exact h.detach hlink hw₁

/-- `Act.redraw` upholds `J`. -/
theorem redraw (h : host.Upholds settings J total) (number : Nat) :
    Act.UpholdsIf total J (Act.redraw host number) := fun w hw =>
  (Act.gives_redraw h.toIsCalm (h.invariant.tidy w hw)).mono fun _ w' hidles =>
    h.invariant.idles w w' hw hidles

/-- **`Act.sync` upholds `J`.** -/
theorem sync (h : host.Upholds settings J total) (number : Nat) :
    Act.UpholdsIf total J (Act.sync host number) := by
  refine Act.upholds_get fun w hw => ?_
  split
  · exact Act.gives_pure hw
  · refine (h.updateEngine number _ ?_).bind (fun _ => ?_) w hw
    · exact fun _ => ⟨rfl, rfl⟩
    split
    · refine (Act.upholds_forM fun link _ => h.call number false link).bind fun _ => ?_
      refine (Act.upholds_forM fun link _ => h.call number true link).bind fun _ => ?_
      exact (h.redraw number).bind fun _ => Act.upholds_pure _
    · exact Act.upholds_pure _

/-! ## Calls -/

/-- **`Act.handle` upholds `J`.** -/
theorem handle (h : host.Upholds settings J total) (number : Nat) (event : Event) :
    Act.UpholdsIf total J (Act.handle host number event) := by
  refine Act.upholds_get fun w hw => ?_
  split
  · exact Act.gives_pure hw
  · rename_i e _
    split
    · exact Act.gives_pure hw
    · split
      · exact h.dispatchLocal e.root event w hw
      · -- What is not for the root alone is offered along the chain, between two times that
        -- registrations are brought in line.
        refine (h.sync number).bind (fun levels => Act.upholds_get fun w hw => ?_) w hw
        refine (h.attempt e.root levels event).bind (fun applied? => ?_) w hw
        cases applied? with
        | none => exact Act.upholds_pure _
        | some applied =>
          refine (h.bubble number e applied.1 _).bind fun _ => ?_
          have hlast : Act.UpholdsIf total J
              (do discard (Act.sync host number); return some applied.2 :
                Act ρ γ (Option Outcome)) :=
            (h.sync number).discard.bind fun _ => Act.upholds_pure _
          dsimp only
          split
          · exact ((h.upholdsAt e.root).noteBelow _ event).bind fun _ => hlast
          · exact hlast

/-- `Act.route` upholds `J`. -/
theorem route (h : host.Upholds settings J total) (number : Nat) (event : Event) :
    Act.UpholdsIf total J (Act.route host number event) := by
  have hbusy : ∀ busy : List Nat → List Nat,
      Act.UpholdsIf total J (modify fun w => { w with busy := busy w.busy } : Act ρ γ Unit) :=
    fun _ => h.beside fun _ => ⟨rfl, rfl, rfl, rfl, fun _ _ hroutes => hroutes⟩
  refine (hbusy (number :: ·)).bind fun _ => ?_
  exact (h.handle number event).bind fun _ => (hbusy (·.drop 1)).bind fun _ => Act.upholds_pure _

/-- **`Act.dispatch` upholds `J`.** -/
theorem dispatch (h : host.Upholds settings J total) (link : Link) (event : Event) :
    Act.UpholdsIf total J (Act.dispatch host link event) := by
  refine Act.upholds_get fun w hw => ?_
  split
  · exact Act.gives_pure hw
  · rename_i m hm
    split
    · exact h.dispatchLocal link event w hw
    · split
      · exact h.dispatchLocal link event w hw
      · split
        · exact h.route _ event w hw
        · refine Act.gives_bind Act.ends_setCell.gives ?_
          rintro _ _ rfl
          exact h.dispatchLocal link event _
            (h.invariant.tweak w link m _ hw hm rfl rfl rfl rfl rfl (Nat.le_refl _))

/-- **`Call.perform` upholds `J`.** -/
theorem perform (h : host.Upholds settings J total) (root : Link) (call : Call) :
    Act.UpholdsIf total J (call.perform host root) := by
  have htree : ∀ event, Act.UpholdsIf total J (Act.dispatchToTree host root event) := by
    intro event
    refine Act.upholds_get fun w hw => ?_
    split
    · exact h.route _ event w hw
    · exact h.dispatch root event w hw
  -- The calls differ in the machine that the event arrives at.
  cases call with
  | send name params =>
    rw [Call.perform, Act.sendToTree]
    split
    · exact Act.upholds_pure _
    · exact htree _
  | dispatch event => exact htree event
  | sendTo link name params =>
    rw [Call.perform, Act.sendNamed]
    split
    · exact Act.upholds_pure _
    · exact h.dispatch link _
  | dispatchTo link event => exact h.dispatch link event

/-- `Act.subscribe` upholds `J`. -/
theorem subscribe (h : host.Upholds settings J total) (link : Link) (subscriber : Nat) :
    Act.UpholdsIf total J (Act.subscribe link subscriber) := by
  refine Act.upholds_get fun w hw => ?_
  split
  · rename_i m hm
    refine Act.gives_bind Act.ends_setCell.gives ?_
    rintro _ _ rfl
    exact Act.gives_pure (h.invariant.tweak w link m _ hw hm rfl rfl rfl rfl rfl (Nat.le_refl _))
  · exact Act.gives_pure hw

/-- `Act.unsubscribe` upholds `J`. -/
theorem unsubscribe (h : host.Upholds settings J total) (link : Link) (handle : Nat) :
    Act.UpholdsIf total J (Act.unsubscribe link handle) :=
  (h.upholdsAt link).updateMachine fun _ => ⟨rfl, rfl, rfl, rfl, rfl, Nat.le_refl _⟩

/-- **`Act.openEngine` upholds `J`**, if `J` holds with the new engine. -/
theorem openEngine (h : host.Upholds settings J total) (config : HierarchyConfig)
    (hw : J { w with engines := w.engines.push { root, config } }) (hroot : w.HasMachine root) :
    Act.Gives total (Act.openEngine host root config) w fun number w' =>
      number = w.engines.size ∧ J w' := by
  have hpush : Act.Gives total (modifyGet fun w =>
      (w.engines.size, { w with engines := w.engines.push { root, config } }) : Act ρ γ Nat) w
      fun number w' => w'.HasMachine root ∧ number = w.engines.size ∧ J w' :=
    ⟨fun _ => rfl, by rintro _ _ ⟨⟩; exact ⟨hroot, rfl, hw⟩⟩
  refine Act.gives_bind hpush ?_
  rintro number w₁ ⟨hroot₁, rfl, hw₁⟩
  refine Act.gives_bind (h.attach w.engines.size hroot₁ hw₁) fun _ w₂ hw₂ => ?_
  exact Act.gives_bind ((h.sync w.engines.size).discard w₂ hw₂) fun _ w₃ hw₃ =>
    Act.gives_pure ⟨rfl, hw₃⟩

end Host.Upholds

/-! ## Runs -/

/-- `World.Leads` keeps `J`. -/
theorem World.Leads.upholds (h : host.Upholds settings J total)
    (hleads : World.Leads settings host root w w') (hw : J w) : J w' := by
  induction hleads with
  | done => exact hw
  | @idles w w' _ hidles _ ih =>
    exact ih (h.invariant.idles w w' hw (hidles (h.invariant.tidy w hw)))
  | calls _ hrun _ ih => exact ih ((h.perform root _ _ hw).2 _ _ hrun)

/-- **`MakesCalls` upholds every invariant** at every `depth`, by induction on it. -/
theorem Surroundings.MakesCalls.upholds (h : around.MakesCalls settings root)
    (hJ : World.IsInvariant settings J False) (depth : Nat) :
    (around.host depth).Upholds settings J False := by
  have hcalm : ∀ depth, (around.host depth).IsCalm settings False :=
    fun depth => (h.isSteady 0 depth).toIsCalm
  -- Calls that are made inside a call are nested less deeply.
  induction depth with
  | zero => exact ⟨hcalm 0, hJ, fun _ _ w _ => ⟨False.elim, by rintro _ _ ⟨⟩⟩⟩
  | succ depth ih =>
    refine ⟨hcalm (depth + 1), hJ, fun subscriber change w hw => ⟨False.elim, fun _ w' hrun => ?_⟩⟩
    exact (h.observe _ subscriber change w w' hrun).upholds ih hw

end Statechart
