import Statechart.Proofs.Flat.Entering
import Statechart.Proofs.Flat.Gate

/-! # The queue of the machine of a flat form

When the machine of a flat form enters a terminal leaf inside a composite, it queues the exit of the
leaf, and it tries the exit before the event is handled to its end. Meanwhile subscribers may send
it further events, which process the same queue. Whatever they do, the exit of the leaf that was
entered last is in the queue as long as it has not been tried, so in the end it has been tried in
this leaf, where it is answered if the composite has an answer.

* `Machine.InLeaf`: a machine runs a flat form and is in one of its leaves.
* `Machine.Closed`: no exit of the current leaf is left open.
* **`Machine.Settled`**: none is, or the exit of the current leaf is still to come.
* `Host.Abides`: surroundings that bring a machine from leaf to leaf, and leave its exits settled.
* **`Act.gives_step_flat`**, `Act.gives_flushWithin_flat`, `Act.gives_dispatch_flat`: one step, the
  processing of the queue, and one event.
* **`Surroundings.Sends.abides`**: subscribers that send abide, however deeply calls are nested. -/

namespace Statechart

variable {ρ γ : Type} {host : Host ρ γ} {around : Surroundings ρ γ} {w w' : World ρ γ}
  {link : Link} {m m' m'' : Machine (StatePlan ρ)} {flat : FlatDefinition} {config : FlattenConfig}
  {told : World ρ γ → World ρ γ → Prop} {event : Event}

/-! ## States of leaves -/

namespace FlatDefinition

/-- **`state` is one of a leaf of `flat`**: it has the path and the final marker of the leaf. -/
def HasLeaf (flat : FlatDefinition) (state : State) : Prop :=
  ∃ leaf ∈ flat.leaves, state.key = leaf.path ∧ state.isFinal = leaf.leaf.isFinal

end FlatDefinition

/-! ## The machine and its queue -/

namespace Machine

/-- **`m` runs `flat` and is in one of its leaves.** No engine routes its events. -/
structure InLeaf (m : Machine (StatePlan ρ)) (flat : FlatDefinition) (config : FlattenConfig) :
    Prop extends m.RunsFlat flat config where
  engine? : m.engine? = none
  leaf : flat.HasLeaf m.current.state

/-- **No exit of the current leaf is open**: the leaf is not terminal, or what is around it has no
answer to `.childExit`. -/
def Closed (m : Machine (StatePlan ρ)) (flat : FlatDefinition) (config : FlattenConfig) : Prop :=
  m.isFinished = true → ∀ above path,
    Path.parent? config.delimiter m.current.state.key = some above →
      flat.target? above .childExit ≠ some (.path path)

/-- **The exits of `m` are settled by `events`**, which are still to come: `Closed`, or the exit of
the current leaf is among them. -/
def Settled (m : Machine (StatePlan ρ)) (flat : FlatDefinition) (config : FlattenConfig)
    (events : List Event) : Prop :=
  m.Closed flat config ∨ .childExit (.path m.current.state.key) ∈ events

/-- The queue of `m'` is that of `m`, or empty. -/
def Drains (m m' : Machine (StatePlan ρ)) : Prop := m'.pending = [] ∨ m'.pending = m.pending

/-- **What becomes of `m` while events arrive**: `Unmoved`, or `Settled` by its queue and
`Drains`. -/
def Follows (m : Machine (StatePlan ρ)) (flat : FlatDefinition) (config : FlattenConfig)
    (m' : Machine (StatePlan ρ)) : Prop :=
  m.Unmoved m' ∨ m'.Settled flat config m'.pending ∧ m.Drains m'

/-- `Unmoved` gives `Drains`. -/
theorem Unmoved.drains (h : m.Unmoved m') : m.Drains m' := Or.inr h.pending

/-- `Drains` is transitive. -/
theorem Drains.trans (h : m.Drains m') (h' : m'.Drains m'') : m.Drains m'' := by
  rcases h' with h' | h'
  · exact Or.inl h'
  · rcases h with h | h
    · exact Or.inl (h'.trans h)
    · exact Or.inr (h'.trans h)

/-- `Unmoved` keeps `Settled`. -/
theorem Settled.of_unmoved {events : List Event} (h : m.Settled flat config events)
    (hunmoved : m.Unmoved m') : m'.Settled flat config events := by
  have hfinished : m'.isFinished = m.isFinished := by
    simp only [isFinished, isTerminal, hunmoved.config, hunmoved.table, hunmoved.current]
  rw [Settled, Closed, hfinished, hunmoved.current]
  exact h

/-- `Settled` by `event :: events` is `Settled` by `events`, if `m` is `Closed` should `event` be
the exit of the current leaf. -/
theorem Settled.tail {events : List Event} (h : m.Settled flat config (event :: events))
    (htried : event = .childExit (.path m.current.state.key) → m.Closed flat config) :
    m.Settled flat config events := by
  rcases h with h | h
  · exact Or.inl h
  · rcases List.mem_cons.1 h with h | h
    · exact Or.inl (htried h.symm)
    · exact Or.inr h

/-- `Settled` by no events is `Closed`. -/
theorem Settled.closed (h : m.Settled flat config []) : m.Closed flat config :=
  h.resolve_right List.not_mem_nil

/-- `Follows` gives `Drains`. -/
theorem Follows.drains (h : m.Follows flat config m') : m.Drains m' :=
  h.elim Unmoved.drains fun h => h.2

/-- `Follows` is transitive. -/
theorem Follows.trans (h : m.Follows flat config m') (h' : m'.Follows flat config m'') :
    m.Follows flat config m'' := by
  rcases h' with h' | ⟨hsettled, hdrains⟩
  · rcases h with h | ⟨hsettled, hdrains⟩
    · exact Or.inl (h.trans h')
    · refine Or.inr ⟨?_, hdrains.trans h'.drains⟩
      rw [h'.pending]
      exact hsettled.of_unmoved h'
  · exact Or.inr ⟨hsettled, h.drains.trans hdrains⟩

/-- `Unmoved` keeps `InLeaf`. -/
theorem InLeaf.of_unmoved (h : m.InLeaf flat config) (hunmoved : m.Unmoved m')
    (hengine : m'.engine? = none) : m'.InLeaf flat config :=
  ⟨⟨hunmoved.factory.trans h.factory, hunmoved.table.trans h.table,
    hunmoved.config.trans h.settings⟩, hengine, by rw [hunmoved.current]; exact h.leaf⟩

/-- `InLeaf` for another queue. -/
theorem InLeaf.setPending (h : m.InLeaf flat config) (pending : List Event) :
    InLeaf { m with pending } flat config :=
  ⟨h.toRunsFlat.setPending pending, h.engine?, h.leaf⟩

/-- **`m` is `Settled` by `m.followUps` of its current state.** -/
theorem RunsFlat.settled_followUps (h : m.RunsFlat flat config) :
    m.Settled flat config (m.followUps m.current.state) := by
  have hauto : m.config.autoExit = true := by
    rw [h.settings]
    rfl
  rw [followUps, h.lookup_eq]
  dsimp only
  rw [hauto, Bool.true_and]
  split
  · exact Or.inr List.mem_cons_self
  · rename_i hnone
    -- Without a follow-up the leaf is not terminal, or there is no composite around it.
    refine Or.inl fun hfinished above path habove _ => hnone ?_
    have hqualified : Path.isQualified config.delimiter m.current.state.key = true := by
      obtain ⟨parts, hparts, -⟩ := Option.map_eq_some_iff.1 habove
      exact Option.isSome_iff_exists.2 ⟨parts, hparts⟩
    rw [hqualified, Bool.true_and]
    exact hfinished

end Machine

/-- The machine at `link` is `InLeaf` and `known`. -/
def World.LeafAt (w : World ρ γ) (link : Link) (flat : FlatDefinition) (config : FlattenConfig)
    (known : Machine (StatePlan ρ) → Prop) : Prop :=
  ∃ m, w.machine? link = some m ∧ m.InLeaf flat config ∧ known m

/-! ## What an event does -/

namespace Act

/-- `Act.resolve` of a machine that is `InLeaf` keeps the world, and finds a state of a leaf. -/
theorem eq_of_run_resolve (hm : w.machine? link = some m) (h : m.InLeaf flat config)
    {found? : Option Resolution} (hrun : (resolve host link event).run w = some (found?, w')) :
    w' = w ∧ ∀ found, found? = some found → flat.HasLeaf found.target := by
  rw [run_resolve hm h.toRunsFlat] at hrun
  obtain ⟨made?, hfinds, heq⟩ := Option.map_eq_some_iff.1 hrun
  cases heq
  refine ⟨rfl, fun found hfound => ?_⟩
  obtain ⟨made, rfl, rfl⟩ := Option.map_eq_some_iff.1 hfound
  obtain ⟨paths, -, hmade⟩ := Machine.of_finds? hfinds
  obtain ⟨-, -, leaf, hleaf, hstate⟩ := FlatDefinition.of_made? hmade
  exact ⟨leaf, hleaf, by rw [hstate]; rfl, by rw [hstate]; rfl⟩

/-- **A machine is `Closed` if `Act.resolve` finds no answer to the exit of its current leaf.** -/
theorem closed_of_run_resolve (hlands : flat.Lands) (hm : w.machine? link = some m)
    (h : m.InLeaf flat config)
    (hrun : (resolve host link (.childExit (.path m.current.state.key))).run w = some (none, w')) :
    m.Closed flat config := by
  intro _ above path habove htarget
  obtain ⟨leaf, hleaf, rfl⟩ := hlands.target _ _ _ htarget
  obtain ⟨last, hlast⟩ := FlatDefinition.exists_lastLeaf? hleaf
  have hpaths : m.lookupKeys? (.childExit (.path m.current.state.key)) = some [above] := by
    rw [h.lookupKeys?_exit, if_pos rfl, habove]
    rfl
  rw [run_resolve hm h.toRunsFlat, Machine.finds?_eq rfl hpaths] at hrun
  simp [FlatDefinition.made?, Event.key, htarget, FlatDefinition.lead?, hlast] at hrun

end Act

/-- **The surroundings abide by `flat`**: `observe` leaves the machine at `link` `InLeaf`, and
`Drains` its queue. Between worlds that are `told` it `Follows` as well. -/
structure Host.Abides (host : Host ρ γ) (link : Link) (flat : FlatDefinition)
    (config : FlattenConfig) (told : World ρ γ → World ρ γ → Prop) : Prop where
  observe : ∀ subscriber change w m, w.machine? link = some m → m.InLeaf flat config →
    Act.Gives False (host.observe subscriber change) w fun _ w' =>
      w'.LeafAt link flat config m.Drains
  told : ∀ w w' m, w.machine? link = some m → m.InLeaf flat config → told w w' →
    w'.LeafAt link flat config (m.Follows flat config)

namespace Act

/-- `Act.notify` gives `InLeaf` and `Drains`. -/
theorem gives_notify_flat (hhost : host.Abides link flat config told)
    (hm : w.machine? link = some m) (h : m.InLeaf flat config) (change : Change) :
    Gives False (notify host link change) w fun _ w' => w'.LeafAt link flat config m.Drains := by
  rw [notify]
  refine gives_get ?_
  simp only [hm]
  refine gives_forM ⟨m, hm, h, Or.inr rfl⟩ fun subscriber _ w₁ hw₁ => ?_
  obtain ⟨m₁, hm₁, h₁, hdrains⟩ := hw₁
  refine (hhost.observe subscriber change w₁ m₁ hm₁ h₁).mono ?_
  rintro _ w₂ ⟨m₂, hm₂, h₂, hdrains'⟩
  exact ⟨m₂, hm₂, h₂, hdrains.trans hdrains'⟩

/-- `Act.enter` gives `InLeaf`, `Settled` by the follow-ups, with the same queue. Without an answer
the world is the same, and `Closed` if the event is the exit of the current leaf. -/
theorem gives_enter_flat (hlands : flat.Lands) (hm : w.machine? link = some m)
    (h : m.InLeaf flat config) (event : Event) :
    Gives False (enter host link event) w fun result w' =>
      match result with
      | none => w' = w ∧
        (event = .childExit (.path m.current.state.key) → m.Closed flat config)
      | some (_, followUps) => w'.LeafAt link flat config fun m' =>
        m'.pending = m.pending ∧ m'.Settled flat config followUps := by
  have hresolve : Gives False (resolve host link event) w fun found? w' =>
      w' = w ∧ ∀ found, found? = some found → flat.HasLeaf found.target :=
    ⟨False.elim, fun _ _ hrun => eq_of_run_resolve hm h hrun⟩
  rw [enter]
  refine gives_bind hresolve.with_run ?_
  rintro (_ | found) _ ⟨hrun, rfl, hleaf⟩
  · -- Without an answer nothing changes. If the exit of the leaf has been tried, it is closed.
    refine gives_pure ⟨rfl, ?_⟩
    rintro rfl
    exact closed_of_run_resolve hlands hm h hrun
  · refine gives_get ?_
    simp only [hm]
    refine gives_bind ends_setCell.gives ?_
    rintro _ _ rfl
    have hruns := h.commit (m.changeTo found.event found.source found.target)
    exact gives_pure ⟨_, World.machine?_setCell_self hm,
      ⟨hruns, h.engine?, hleaf found rfl⟩, rfl, hruns.settled_followUps⟩

/-- **`Act.step` gives `InLeaf`**, and `Settled` by the queue and the follow-ups if it is uncut
(`StepUncut`). -/
theorem gives_step_flat (hhost : host.Abides link flat config told) (hlands : flat.Lands)
    (hm : w.machine? link = some m) (h : m.InLeaf flat config) (event : Event) :
    Gives False (step host link event) w fun result w' =>
      match result with
      | none => w' = w ∧
        (event = .childExit (.path m.current.state.key) → m.Closed flat config)
      | some (_, followUps) => w'.LeafAt link flat config fun m' => m.Drains m' ∧
        (StepUncut host link told event w → m'.Settled flat config (m'.pending ++ followUps)) := by
  rw [step_eq]
  refine gives_bind (gives_enter_flat hlands hm h event).with_run ?_
  rintro (_ | ⟨change, followUps⟩) w₁ ⟨henter, hw₁⟩
  · exact gives_pure hw₁
  · obtain ⟨m₁, hm₁, h₁, hpending, hsettled⟩ := hw₁
    refine gives_bind (gives_notify_flat hhost hm₁ h₁ change).with_run ?_
    rintro _ w₂ ⟨hnotify, m₂, hm₂, h₂, hdrains⟩
    refine gives_pure ⟨m₂, hm₂, h₂, ?_, fun huncut => ?_⟩
    · rwa [Machine.Drains, ← hpending]
    · -- Subscribers leave the machine in the leaf that it has entered, or settle its exits.
      obtain ⟨m₃, hm₃, -, hfollows⟩ :=
        hhost.told w₁ w₂ m₁ hm₁ h₁ (huncut change followUps w₁ w₂ henter hnotify)
      obtain rfl : m₃ = m₂ := Option.some.inj (hm₃.symm.trans hm₂)
      rcases hfollows with hunmoved | ⟨hsettled', -⟩
      · exact (hsettled.of_unmoved hunmoved).imp_right (List.mem_append_right _)
      · exact hsettled'.imp_right (List.mem_append_left _)

/-- `Act.popPending` takes the first of the queue, and keeps `Settled`. -/
theorem gives_popPending_flat (hm : w.machine? link = some m) (h : m.InLeaf flat config) :
    Gives False (popPending link) w fun event? w' =>
      match event? with
      | none => m.pending = [] ∧ w' = w
      | some event => w'.LeafAt link flat config fun m' =>
        m.pending = event :: m'.pending ∧ ∀ events, m.Settled flat config events →
          m'.Settled flat config events := by
  cases hpending : m.pending with
  | nil =>
    refine (ends_popPending_of_nil hm hpending).gives.mono ?_
    rintro _ _ ⟨rfl, rfl⟩
    exact ⟨rfl, rfl⟩
  | cons event rest =>
    refine (ends_popPending_of_cons hm hpending).gives.mono ?_
    rintro _ _ ⟨rfl, hm'⟩
    exact ⟨_, hm', h.setPending rest, rfl, fun _ hs => hs⟩

/-- `Act.pushPending` of events that settle the exits gives `Settled`. -/
theorem gives_pushPending_flat (hm : w.machine? link = some m) (h : m.InLeaf flat config)
    (events : List Event) :
    Gives False (pushPending link events) w fun _ w' => w'.LeafAt link flat config fun m' =>
      m.Settled flat config (m.pending ++ events) → m'.Settled flat config m'.pending := by
  exact (ends_pushPending_of_machine? hm events).gives.mono fun _ _ hm' =>
    ⟨_, hm', h.setPending _, fun hs => hs⟩

/-- **`Act.flushWithin` empties the queue**, and gives `Closed` from `Settled` if it is uncut
(`FlushUncut`). -/
theorem gives_flushWithin_flat (hhost : host.Abides link flat config told) (hlands : flat.Lands)
    (bound : Nat) (hm : w.machine? link = some m) (h : m.InLeaf flat config) :
    Gives False (flushWithin host link bound) w fun _ w' => w'.LeafAt link flat config fun m' =>
      m'.pending = [] ∧ (m.Settled flat config m.pending →
        FlushUncut host link told bound w → m'.Closed flat config) := by
  induction bound generalizing w m with
  | zero =>
    rw [flushWithin]
    refine gives_bind (ends_discard_cancelPending hm).gives fun _ _ hm' => ?_
    refine gives_pure ⟨_, hm', h.setPending [], rfl, fun hsettled huncut => ?_⟩
    -- Nothing is left in the queue, so the exit of the current leaf is not either.
    rw [huncut m hm] at hsettled
    exact hsettled.closed
  | succ bound ih =>
    rw [flushWithin]
    refine gives_bind (gives_popPending_flat hm h).with_run ?_
    rintro (_ | event) w₁ ⟨hpop, hw₁⟩
    · obtain ⟨hnone, rfl⟩ := hw₁
      refine gives_pure ⟨m, hm, h, hnone, fun hsettled _ => ?_⟩
      rw [hnone] at hsettled
      exact hsettled.closed
    · obtain ⟨m₁, hm₁, h₁, hpending, hkeeps⟩ := hw₁
      refine gives_bind (gives_step_flat hhost hlands hm₁ h₁ event).with_run ?_
      rintro (_ | ⟨change, followUps⟩) w₂ ⟨hstep, hw₂⟩
      · obtain ⟨rfl, htried⟩ := hw₂
        refine (ih hm₁ h₁).mono ?_
        rintro _ w' ⟨m', hm', h', hnone, hclosed⟩
        refine ⟨m', hm', h', hnone, fun hsettled huncut => ?_⟩
        -- The exit of the current leaf is closed if it has been tried, and else it still waits.
        rw [hpending] at hsettled
        exact hclosed ((hkeeps _ hsettled).tail htried) ((huncut event w₂ hpop).2.1 w₂ hstep)
      · obtain ⟨m₂, hm₂, h₂, -, hsettled₂⟩ := hw₂
        refine gives_bind (gives_pushPending_flat hm₂ h₂ followUps).with_run ?_
        rintro _ w₃ ⟨hpush, m₃, hm₃, h₃, hsettled₃⟩
        refine gives_bind (ih hm₃ h₃) fun _ w' hw' => gives_pure ?_
        obtain ⟨m', hm', h', hnone, hclosed⟩ := hw'
        refine ⟨m', hm', h', hnone, fun _ huncut => ?_⟩
        obtain ⟨hone, -, hmore⟩ := huncut event w₁ hpop
        exact hclosed (hsettled₃ (hsettled₂ hone)) (hmore change followUps w₂ w₃ hstep hpush)

/-- **`Act.settle` gives `Drains`**, and `Settled` by the queue if the follow-ups are processed
uncut. -/
theorem gives_settle_flat (hhost : host.Abides link flat config told) (hlands : flat.Lands)
    (hdrain : config.followUps = .drain) (hm : w.machine? link = some m)
    (h : m.InLeaf flat config) (followUps : List Event) :
    Gives False (settle host link followUps) w fun _ w' => w'.LeafAt link flat config fun m' =>
      m.Drains m' ∧ (m.Settled flat config (m.pending ++ followUps) →
        (∀ w₁ m₁, followUps ≠ [] → (pushPending link followUps).run w = some ((), w₁) →
          w₁.machine? link = some m₁ → m₁.config.followUps = .drain →
          FlushUncut host link told m₁.config.maxFollowUps w₁) →
        m'.Settled flat config m'.pending) := by
  rw [settle]
  by_cases hnone : followUps = []
  · rw [hnone, List.isEmpty_nil, if_pos rfl]
    refine gives_pure ⟨m, hm, h, Or.inr rfl, fun hsettled _ => ?_⟩
    rwa [List.append_nil] at hsettled
  · rw [if_neg (by rwa [List.isEmpty_iff])]
    -- The follow-ups are queued behind what was waiting, and all of it is processed.
    refine gives_bind (gives_pushPending_flat hm h followUps).with_run ?_
    rintro _ w₁ ⟨hpush, m₁, hm₁, h₁, hsettled₁⟩
    have hpolicy : m₁.config.followUps = .drain := by
      rw [h₁.settings]
      exact hdrain
    refine gives_get ?_
    simp only [hm₁, hpolicy, if_true]
    refine gives_discard ?_
    rw [flush]
    refine gives_get ?_
    simp only [hm₁]
    refine (gives_flushWithin_flat hhost hlands _ hm₁ h₁).mono ?_
    rintro _ w' ⟨m', hm', h', hempty, hclosed⟩
    refine ⟨m', hm', h', Or.inl hempty, fun hsettled huncut => ?_⟩
    exact Or.inl (hclosed (hsettled₁ hsettled) (huncut w₁ m₁ hnone hpush hm₁ hpolicy))

/-- **`Act.dispatch` gives `Drains`**, and `Settled` by the queue if it is uncut (`SendUncut`). -/
theorem gives_dispatch_flat (hhost : host.Abides link flat config told) (hlands : flat.Lands)
    (hdrain : config.followUps = .drain) (hm : w.machine? link = some m)
    (h : m.InLeaf flat config) (event : Event) :
    Gives False (dispatch host link event) w fun outcome? w' =>
      match outcome? with
      | none => w' = w
      | some _ => w'.LeafAt link flat config fun m' => m.Drains m' ∧
        (SendUncut host link told event w → m'.Settled flat config m'.pending) := by
  rw [dispatch]
  refine gives_get ?_
  simp only [hm, h.engine?, Option.filter_none]
  rw [dispatchLocal]
  refine gives_bind (gives_step_flat hhost hlands hm h event).with_run ?_
  rintro (_ | ⟨change, followUps⟩) w₁ ⟨hstep, hw₁⟩
  · exact gives_get (gives_pure hw₁.1)
  · -- An answer is entered first. Then its follow-ups are settled.
    obtain ⟨m₁, hm₁, h₁, hdrains, hsettled⟩ := hw₁
    refine gives_get ?_
    simp only [hm₁]
    refine gives_bind (gives_settle_flat hhost hlands hdrain hm₁ h₁ followUps) ?_
    rintro _ w₂ ⟨m₂, hm₂, h₂, hdrains', hsettled'⟩
    refine gives_pure ⟨m₂, hm₂, h₂, hdrains.trans hdrains', fun huncut => ?_⟩
    exact hsettled' (hsettled huncut.1) fun w' m' hsome hpush hm' =>
      huncut.2 change followUps w₁ w' m' hstep hsome hpush hm'

end Act

/-! ## Stretches of events -/

/-- **`World.Stretch` gives `R` between the machine before and after**, if `R` holds of `Unmoved`,
is transitive, and holds of each event that arrives. -/
theorem World.Stretch.leafAt {known : Event → World ρ γ → Prop}
    {R : Machine (StatePlan ρ) → Machine (StatePlan ρ) → Prop}
    (hstretch : w.Stretch host link known w') (hunmoved : ∀ m m', m.Unmoved m' → R m m')
    (htrans : ∀ m m' m'', R m m' → R m' m'' → R m m'')
    (harrives : ∀ event w w' m outcome?, known event w → w.machine? link = some m →
      m.InLeaf flat config → (Act.dispatch host link event).run w = some (outcome?, w') →
      w'.LeafAt link flat config (R m))
    (hm : w.machine? link = some m) (h : m.InLeaf flat config) :
    w'.LeafAt link flat config (R m) := by
  induction hstretch generalizing m with
  | done => exact ⟨m, hm, h, hunmoved m m (.refl m)⟩
  | spares hspares _ ih =>
    obtain ⟨m₁, hm₁, hunmoved₁, hengine⟩ := hspares m hm
    obtain ⟨m₂, hm₂, h₂, hR⟩ := ih hm₁ (h.of_unmoved hunmoved₁ (hengine.trans h.engine?))
    exact ⟨m₂, hm₂, h₂, htrans m m₁ m₂ (hunmoved m m₁ hunmoved₁) hR⟩
  | arrives hknown hrun _ ih =>
    obtain ⟨m₁, hm₁, h₁, hR₁⟩ := harrives _ _ _ m _ hknown hm h hrun
    obtain ⟨m₂, hm₂, h₂, hR₂⟩ := ih hm₁ h₁
    exact ⟨m₂, hm₂, h₂, htrans m m₁ m₂ hR₁ hR₂⟩

/-- `World.Stretch` gives `Drains`. -/
theorem World.Stretch.drains {known : Event → World ρ γ → Prop}
    (hstretch : w.Stretch host link known w') (hhost : host.Abides link flat config told)
    (hlands : flat.Lands) (hdrain : config.followUps = .drain) (hm : w.machine? link = some m)
    (h : m.InLeaf flat config) : w'.LeafAt link flat config m.Drains := by
  refine hstretch.leafAt (fun _ _ => Machine.Unmoved.drains) (fun _ _ _ => Machine.Drains.trans) ?_
    hm h
  intro event w w' m outcome? _ hm h hrun
  have hsent := (Act.gives_dispatch_flat hhost hlands hdrain hm h event).2 _ _ hrun
  cases outcome? with
  | none =>
    obtain rfl : w' = w := hsent
    exact ⟨m, hm, h, Or.inr rfl⟩
  | some outcome =>
    obtain ⟨m', hm', h', hdrains, -⟩ := hsent
    exact ⟨m', hm', h', hdrains⟩

/-- **`World.Stretch` of events that are uncut gives `Follows`.** -/
theorem World.Stretch.follows (hstretch : w.Stretch host link (Act.SendUncut host link told) w')
    (hhost : host.Abides link flat config told) (hlands : flat.Lands)
    (hdrain : config.followUps = .drain) (hm : w.machine? link = some m)
    (h : m.InLeaf flat config) : w'.LeafAt link flat config (m.Follows flat config) := by
  refine hstretch.leafAt (fun _ _ => Or.inl) (fun _ _ _ => Machine.Follows.trans) ?_ hm h
  intro event w w' m outcome? huncut hm h hrun
  have hsent := (Act.gives_dispatch_flat hhost hlands hdrain hm h event).2 _ _ hrun
  cases outcome? with
  | none =>
    obtain rfl : w' = w := hsent
    exact ⟨m, hm, h, Or.inl (.refl m)⟩
  | some outcome =>
    obtain ⟨m', hm', h', hdrains, hsettled⟩ := hsent
    exact ⟨m', hm', h', Or.inr ⟨hsettled huncut, hdrains⟩⟩

/-- **Subscribers that send (`Surroundings.Sends`) abide at every `depth`**, by induction on it. -/
theorem Surroundings.Sends.abides (hsends : around.Sends link) (hlands : flat.Lands)
    (hdrain : config.followUps = .drain) (depth : Nat) :
    (around.host depth).Abides link flat config (World.Told around link depth) := by
  -- Calls that are made inside a call are nested less deeply.
  induction depth with
  | zero =>
    constructor
    · rintro subscriber change w m hm h
      exact ⟨False.elim, by rintro _ _ ⟨⟩⟩
    · intro w w' m hm h htold
      rw [World.Told] at htold
      exact htold.leafAt (fun _ _ => Or.inl) (fun _ _ _ => Machine.Follows.trans)
        (fun _ _ _ _ _ hnever => hnever.elim) hm h
  | succ depth ih =>
    constructor
    · intro subscriber change w m hm h
      exact ⟨False.elim, fun _ w' hrun =>
        (hsends _ subscriber change w w' hrun).drains ih hlands hdrain hm h⟩
    · intro w w' m hm h htold
      rw [World.Told] at htold
      exact htold.follows ih hlands hdrain hm h

end Statechart
