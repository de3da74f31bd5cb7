import Statechart.Config.Format
import Statechart.Proofs.Ancestry
import Statechart.Proofs.Flat.Sends
import Statechart.Proofs.World.Rest

/-! # Follow-ups are processed a limited number at a time

Entering a terminal state may produce an event, and handling the event may enter a terminal state
again. So a queue of follow-ups may grow as fast as it is processed. A machine therefore takes a
limited number of turns, one event a turn from the front of the queue, and then forgets what still
waits.

* **`Machine.Endless`**: an event for which a machine looks under one key after the other without
  end. It takes an empty delimiter, and the exit of a nested state is never such an event.
* `Host.LeavesAlone`: those around a machine leave it alone.
* `Act.gives_resolve_unless`: looking for an answer comes to an end unless it is without end.
* `Act.gives_step_applies`: a step applies one transition, or none.
* **`World.Turns`**, **`World.Processes`**: turns, and the processing of follow-ups in turns.
* `Act.gives_flushWithin_processes`: this is what processing follow-ups is.
* **`Act.followUps_bounded`**: when processing and sending come to an end, and what they apply. -/

namespace Statechart

variable {ρ γ σ : Type}

/-! ## Events without an end -/

namespace Machine

variable {m m' : Machine σ} {event : Event}

/-- **`m` looks for an answer to `event` without end**: `m.config.lookup` is `.ancestors ""`, and
`event` is not the exit of a nested state, which is looked for under one key. -/
def Endless (m : Machine σ) (event : Event) : Prop :=
  m.config.lookup = .ancestors "" ∧ event.isMisnamed = false ∧
    ∀ path, event ≠ .childExit (.path path)

/-- The exit of a nested state is not `Endless`. -/
theorem not_endless_exit (path : String) : ¬ m.Endless (.childExit (.path path)) :=
  fun h => h.2.2 path rfl

/-- `Endless` depends on `m.config` alone. -/
theorem endless_congr (h : m'.config = m.config) : m'.Endless event ↔ m.Endless event := by
  rw [Endless, h, Endless]

/-- **`m'` is `m` after `count` transitions**, with the same settings and queue. -/
structure Applies (count : Nat) (m m' : Machine σ) : Prop where
  config : m'.config = m.config
  revision : m'.revision = m.revision + count
  pending : m'.pending = m.pending

end Machine

/-! ## Steps -/

/-- **Those around a machine leave it alone**: `observe` and `enrol` come to an end and are in
`World.Spares link`. -/
structure Host.LeavesAlone (host : Host ρ γ) (link : Link) : Prop where
  observe : ∀ subscriber change w,
    Act.Ends (host.observe subscriber change) w fun _ w' => w.Spares link w'
  enrol : ∀ subscriber child w,
    Act.Ends (host.enrol subscriber child) w fun _ w' => w.Spares link w'

/-- `Spares link` is kept by whatever makes new cells (`IsGrowth`). -/
theorem World.isGrowth_spares (link : Link) :
    IsGrowth fun w w' : World ρ γ => w.Spares link w' := by
  refine ⟨.refl link, fun _ _ _ => .trans, fun w _ m hm => ⟨m, hm, .refl m, rfl⟩,
    fun w _ m hm => ⟨m, hm, .refl m, rfl⟩, fun w cell _ m hm => ?_⟩
  exact ⟨m, machine?_addCell_of_machine? hm, .refl m, rfl⟩

namespace Act

variable {w : World ρ γ} {host : Host ρ γ} {link : Link} {m : Machine (StatePlan ρ)}

/-- **`resolve` comes to an end if and only if `event` is not `Endless`**, and then `R` holds, for
every `R` that is `IsGrowth` and kept by `enrol`. -/
theorem gives_resolve_unless {R : World ρ γ → World ρ γ → Prop} {event : Event}
    (hR : World.IsGrowth R) (hwithin : host.EnrolsIf (¬ m.Endless event) R)
    (hm : w.machine? link = some m) :
    Gives (¬ m.Endless event) (resolve host link event) w fun _ w' =>
      ¬ m.Endless event ∧ R w w' := by
  rw [resolve]
  refine gives_get ?_
  simp only [hm]
  split
  · rename_i hmisnamed
    refine gives_pure ⟨fun hendless => ?_, hR.refl w⟩
    rw [hendless.2.1] at hmisnamed
    cases hmisnamed
  · rename_i hnamed
    split
    · rename_i hnone
      -- Nothing comes of looking without end.
      obtain ⟨hlookup, hnot⟩ := Machine.candidates?_eq_none_iff.1 hnone
      have hendless : m.Endless event := ⟨hlookup, Bool.not_eq_true _ ▸ hnamed, hnot⟩
      exact ⟨fun hends => absurd hendless hends, by rintro _ _ ⟨⟩⟩
    · rename_i candidates hsome
      have hends : ¬ m.Endless event := fun hendless => by
        rw [Machine.candidates?_eq_none_iff.2 ⟨hendless.1, hendless.2.2⟩] at hsome
        cases hsome
      refine gives_bind (grows_firstMade hR hwithin m.factory ⟨event, m.current.state⟩ candidates w)
        fun found? w₁ hw₁ => ?_
      exact gives_pure ⟨hends, hw₁⟩

/-- `resolve` leaves the machine alone. -/
theorem gives_resolve_spares (hhost : host.LeavesAlone link) (hm : w.machine? link = some m)
    (event : Event) :
    Gives (¬ m.Endless event) (resolve host link event) w fun _ w' =>
      ¬ m.Endless event ∧ w.Spares link w' :=
  gives_resolve_unless (World.isGrowth_spares link)
    (fun subscriber child w => (hhost.enrol subscriber child w).gives) hm

/-- `notify` leaves the machine alone. -/
theorem ends_notify_spares (hhost : host.LeavesAlone link) (change : Change) (w : World ρ γ) :
    Ends (notify host link change) w fun _ w' => w.Spares link w' := by
  rw [notify]
  refine ends_get ?_
  split
  · exact ends_pure (.refl link w)
  · exact ends_forM (.refl link w) fun subscriber _ w₁ hw₁ =>
      (hhost.observe subscriber change w₁).mono fun _ _ hw₂ => hw₁.trans hw₂

/-- **`step` applies one transition with a result, and none without**; its follow-ups are exits of
nested states. -/
theorem gives_step_applies (hhost : host.LeavesAlone link) (hm : w.machine? link = some m)
    (event : Event) :
    Gives (¬ m.Endless event) (step host link event) w fun applied? w' => ¬ m.Endless event ∧
      ∃ m', w'.machine? link = some m' ∧ m.Applies (if applied?.isSome then 1 else 0) m' ∧
        ∀ applied, applied? = some applied → ∀ exit ∈ applied.2,
          ∃ path, exit = .childExit (.path path) := by
  rw [step]
  refine gives_bind (gives_resolve_spares hhost hm event) ?_
  rintro (_ | found) w₁ ⟨hends, hspares⟩
  · obtain ⟨m₁, hm₁, hunmoved, -⟩ := hspares m hm
    exact gives_pure ⟨hends, m₁, hm₁, ⟨hunmoved.config, hunmoved.revision, hunmoved.pending⟩,
      by rintro _ ⟨⟩⟩
  · obtain ⟨m₁, hm₁, hunmoved, -⟩ := hspares m hm
    show Gives _ (transition host link found) w₁ _
    rw [transition]
    refine gives_get ?_
    simp only [hm₁]
    refine gives_bind ends_setCell.gives ?_
    rintro _ _ rfl
    refine gives_bind (ends_notify_spares hhost _ _).gives fun _ w₂ hw₂ => ?_
    obtain ⟨m₂, hm₂, hunmoved₂, -⟩ := hw₂ _ (World.machine?_setCell_self hm₁)
    -- Nobody who is told of the change touches the machine.
    refine gives_pure ⟨hends, m₂, hm₂, ⟨?_, ?_, ?_⟩, ?_⟩
    · exact hunmoved₂.config.trans hunmoved.config
    · exact hunmoved₂.revision.trans (congrArg (· + 1) hunmoved.revision)
    · exact hunmoved₂.pending.trans hunmoved.pending
    · rintro _ ⟨⟩ exit hexit
      exact Machine.exists_path_of_mem_followUps hexit

end Act

/-! ## Turns -/

/-- **The event that is taken from the queue** and, if it is answered, the change and its
follow-ups. -/
structure QueueTurn where
  event : Event
  applied? : Option (Change × List Event)

/-- The follow-ups that `turn` adds to the queue. -/
def QueueTurn.followUps (turn : QueueTurn) : List Event := (turn.applied?.map (·.2)).getD []

/-- How many of `turns` apply a transition. -/
def QueueTurn.countApplied (turns : List QueueTurn) : Nat := turns.countP (·.applied?.isSome)

/-- **The machine at `link` takes turns**: `popPending`, `step`, and `pushPending` for what comes of
it. -/
inductive World.Turns (host : Host ρ γ) (link : Link) :
    World ρ γ → List QueueTurn → World ρ γ → Prop
  | done {w : World ρ γ} : World.Turns host link w [] w
  | dropped {w w₁ w₂ w' : World ρ γ} {event : Event} {turns : List QueueTurn} :
    (Act.popPending link).run w = some (some event, w₁) →
    (Act.step host link event).run w₁ = some (none, w₂) → World.Turns host link w₂ turns w' →
    World.Turns host link w (⟨event, none⟩ :: turns) w'
  | applied {w w₁ w₂ w₃ w' : World ρ γ} {event : Event} {applied : Change × List Event}
    {turns : List QueueTurn} : (Act.popPending link).run w = some (some event, w₁) →
    (Act.step host link event).run w₁ = some (some applied, w₂) →
    (Act.pushPending link applied.2).run w₂ = some ((), w₃) → World.Turns host link w₃ turns w' →
    World.Turns host link w (⟨event, some applied⟩ :: turns) w'

/-- **The machine at `link` processes its queue** in at most `bound` turns. `rest` still waits after
them, and is forgotten. -/
structure World.Processes (host : Host ρ γ) (link : Link) (bound : Nat)
    (m : Machine (StatePlan ρ)) (turns : List QueueTurn) (rest : List Event) (w w' : World ρ γ) :
    Prop where
  /-- Events are taken in the order of the queue, and what turns add comes behind what waits. -/
  inOrder : turns.map QueueTurn.event ++ rest = m.pending ++ turns.flatMap QueueTurn.followUps
  bounded : turns.length ≤ bound
  /-- Nothing is forgotten before the limit is reached. -/
  cut : rest ≠ [] → turns.length = bound
  /-- After the turns the machine has applied as many transitions as turns were answered. Its queue
  is emptied then. -/
  emptied : ∃ w₁ m₁, w.Turns host link turns w₁ ∧ w₁.machine? link = some m₁ ∧
    m₁.config = m.config ∧ m₁.revision = m.revision + QueueTurn.countApplied turns ∧
    m₁.pending = rest ∧ w'.machine? link = some { m₁ with pending := [] }

section Processing

variable {w w' w₁ : World ρ γ} {host : Host ρ γ} {link : Link} {m m₁ : Machine (StatePlan ρ)}
  {bound : Nat} {turns : List QueueTurn} {rest others added : List Event} {event : Event}

/-- **`Processes` with one more turn in front.** -/
theorem World.Processes.cons {turn : QueueTurn} (h : w₁.Processes host link bound m₁ turns rest w')
    (hpending : m.pending = turn.event :: others)
    (hnext : m.Applies (if turn.applied?.isSome then 1 else 0) { m₁ with pending := m.pending })
    (hadded : m₁.pending = others ++ turn.followUps)
    (hturn : ∀ turns w₂, w₁.Turns host link turns w₂ → w.Turns host link (turn :: turns) w₂) :
    w.Processes host link (bound + 1) m (turn :: turns) rest w' := by
  refine ⟨?_, Nat.succ_le_succ h.bounded, fun hrest => congrArg (· + 1) (h.cut hrest), ?_⟩
  · rw [List.map_cons, List.cons_append, h.inOrder, hadded, hpending, List.flatMap_cons,
      List.append_assoc, List.cons_append]
  · obtain ⟨w₂, m₂, hturns, hm₂, hconfig, hrevision, hrest, hm'⟩ := h.emptied
    refine ⟨w₂, m₂, hturn turns w₂ hturns, hm₂, hconfig.trans hnext.config, ?_, hrest, hm'⟩
    have hfirst : m₁.revision = _ := hnext.revision
    rw [hrevision, hfirst, QueueTurn.countApplied, QueueTurn.countApplied, List.countP_cons]
    omega

/-- `countApplied turns ≤ bound`. -/
theorem World.Processes.countApplied_le (h : w.Processes host link bound m turns rest w') :
    QueueTurn.countApplied turns ≤ bound :=
  Nat.le_trans List.countP_le_length h.bounded

namespace Act

/-- **No event among the first `bound` in the queue is `Endless`.** What turns add to the queue
never is. -/
def NoneEndless (m : Machine (StatePlan ρ)) (bound : Nat) : Prop :=
  ∀ event ∈ m.pending.take bound, ¬ m.Endless event

/-- `NoneEndless m (bound + 1)` is that the first event is not `Endless`, and `NoneEndless m₁ bound`
after its turn. -/
theorem noneEndless_succ_iff (hpending : m.pending = event :: others)
    (hconfig : m₁.config = m.config) (hadded : m₁.pending = others ++ added)
    (hexits : ∀ exit ∈ added, ∃ path, exit = .childExit (.path path)) :
    NoneEndless m (bound + 1) ↔ ¬ m.Endless event ∧ NoneEndless m₁ bound := by
  have hnone : ∀ exit ∈ added.take (bound - others.length), ¬ m.Endless exit := by
    intro exit hexit
    obtain ⟨path, rfl⟩ := hexits exit (List.mem_of_mem_take hexit)
    exact Machine.not_endless_exit path
  simp only [NoneEndless, hpending, hadded, List.take_succ_cons, List.take_append,
    List.forall_mem_cons, List.forall_mem_append, Machine.endless_congr hconfig]
  exact and_congr_right fun _ => ⟨fun hothers => ⟨hothers, hnone⟩, And.left⟩

/-- **`flushWithin` comes to an end if and only if `NoneEndless m bound`**, and then it is
`World.Processes` and gives `countApplied turns`. -/
theorem gives_flushWithin_processes (hhost : host.LeavesAlone link) (bound : Nat)
    (hm : w.machine? link = some m) :
    Gives (NoneEndless m bound) (flushWithin host link bound) w fun count w' =>
      NoneEndless m bound ∧ ∃ turns rest, w.Processes host link bound m turns rest w' ∧
        count = QueueTurn.countApplied turns := by
  -- The queue may grow with every turn, but the number of turns that are left gets smaller.
  induction bound generalizing w m with
  | zero =>
    refine gives_bind (ends_discard_cancelPending hm).gives fun _ w' hm' => gives_pure ?_
    have hprocesses : w.Processes host link 0 m [] m.pending w' :=
      ⟨(List.append_nil _).symm, Nat.le_refl _, fun _ => rfl, w, m, .done, hm, rfl, rfl, rfl, hm'⟩
    exact ⟨by rintro _ ⟨⟩, [], m.pending, hprocesses, rfl⟩
  | succ bound ih =>
    rw [flushWithin]
    cases hpending : m.pending with
    | nil =>
      refine gives_bind (ends_popPending_of_nil hm hpending).gives ?_
      rintro _ w' ⟨rfl, heq⟩
      rw [heq]
      have hprocesses : w.Processes host link (bound + 1) m [] [] w :=
        ⟨by rw [hpending]; rfl, Nat.zero_le _, fun hne => absurd rfl hne, w, m, .done, hm, rfl, rfl,
          hpending, by rw [hm, ← hpending]⟩
      refine gives_pure ⟨?_, [], [], hprocesses, rfl⟩
      rw [NoneEndless, hpending]
      rintro _ ⟨⟩
    | cons event others =>
      refine gives_bind (ends_popPending_of_cons hm hpending).gives.with_run ?_
      rintro _ w₁ ⟨hpop, rfl, hm₁⟩
      -- The event is handled with the queue behind it.
      have hfirst : event ∈ m.pending.take (bound + 1) := by
        rw [hpending]
        exact List.mem_cons_self
      have hstep := gives_step_applies hhost hm₁ event
      refine gives_bind (hstep.imp_total fun hnone => hnone event hfirst).with_run ?_
      rintro (_ | applied) w₂ ⟨hstep, hhead, m₂, hm₂, happlies, hexits⟩
      · have hiff : NoneEndless m (bound + 1) ↔ ¬ m.Endless event ∧ NoneEndless m₂ bound :=
          noneEndless_succ_iff hpending happlies.config
            (happlies.pending.trans (List.append_nil _).symm) (by rintro _ ⟨⟩)
        refine ((ih hm₂).imp_total fun hnone => (hiff.1 hnone).2).mono ?_
        rintro count w' ⟨hnone, turns, rest, hprocesses, rfl⟩
        refine ⟨hiff.2 ⟨hhead, hnone⟩, ⟨event, none⟩ :: turns, rest, ?_, rfl⟩
        exact hprocesses.cons hpending ⟨happlies.config, happlies.revision, rfl⟩
          (happlies.pending.trans (List.append_nil _).symm) fun _ _ => .dropped hpop hstep
      · refine gives_bind (ends_pushPending_of_machine? hm₂ applied.2).gives.with_run ?_
        rintro _ w₃ ⟨hpush, hm₃⟩
        have hadded : m₂.pending ++ applied.2 = others ++ applied.2 := by rw [happlies.pending]
        have hiff : NoneEndless m (bound + 1) ↔ ¬ m.Endless event ∧
            NoneEndless { m₂ with pending := m₂.pending ++ applied.2 } bound :=
          noneEndless_succ_iff hpending happlies.config hadded (hexits applied rfl)
        refine gives_bind ((ih hm₃).imp_total fun hnone => (hiff.1 hnone).2) ?_
        rintro count w' ⟨hnone, turns, rest, hprocesses, rfl⟩
        refine gives_pure ⟨hiff.2 ⟨hhead, hnone⟩, ⟨event, some applied⟩ :: turns, rest, ?_, ?_⟩
        · exact hprocesses.cons hpending ⟨happlies.config, happlies.revision, rfl⟩ hadded
            fun _ _ => .applied hpop hstep hpush
        · rw [QueueTurn.countApplied, QueueTurn.countApplied, List.countP_cons]
          rfl

/-- `flush` is `flushWithin` for `m.config.maxFollowUps`. -/
theorem gives_flush_processes (hhost : host.LeavesAlone link) (hm : w.machine? link = some m) :
    Gives (NoneEndless m m.config.maxFollowUps) (flush host link) w fun count w' =>
      NoneEndless m m.config.maxFollowUps ∧ ∃ turns rest,
        w.Processes host link m.config.maxFollowUps m turns rest w' ∧
          count = QueueTurn.countApplied turns := by
  rw [flush]
  refine gives_get ?_
  simp only [hm]
  exact gives_flushWithin_processes hhost _ hm

/-! ## Sends -/

/-- **The machine at `link` has applied `count ≤ limit` transitions** since it was `m`. If its queue
was empty, it is empty again. -/
structure AppliedWithin (link : Link) (m : Machine (StatePlan ρ)) (limit count : Nat)
    (w' : World ρ γ) : Prop where
  counted : count ≤ limit
  left : ∃ m', w'.machine? link = some m' ∧ m'.revision = m.revision + count ∧
    (m.pending = [] → m'.pending = [])

/-- `settle` under `.drain` comes to an end, with `AppliedWithin` for `maxFollowUps`, if nothing in
the queue is `Endless`. -/
theorem ends_settle_appliedWithin (hhost : host.LeavesAlone link) (hm : w.machine? link = some m)
    (hdrain : m.config.followUps = .drain) (hqueue : ∀ event ∈ m.pending, ¬ m.Endless event)
    (hexits : ∀ exit ∈ added, ∃ path, exit = .childExit (.path path)) :
    Ends (settle host link added) w fun _ w' =>
      ∃ count, AppliedWithin link m m.config.maxFollowUps count w' := by
  rw [settle]
  split
  · exact ends_pure ⟨0, Nat.zero_le _, m, hm, rfl, id⟩
  · refine ends_bind (ends_pushPending_of_machine? hm added) ?_
    rintro _ w₁ hm₁
    refine ends_get ?_
    simp only [hm₁, hdrain, if_true]
    refine ends_discard ?_
    -- What waited before is no event without an end, and what is added are exits.
    have hnone : NoneEndless { m with pending := m.pending ++ added } m.config.maxFollowUps := by
      intro event hevent
      rcases List.mem_append.1 (List.mem_of_mem_take hevent) with hold | hnew
      · exact hqueue event hold
      · obtain ⟨path, rfl⟩ := hexits event hnew
        exact Machine.not_endless_exit path
    refine ((gives_flush_processes hhost hm₁).ends hnone).mono ?_
    rintro count w' ⟨-, turns, rest, hprocesses, rfl⟩
    obtain ⟨w₂, m₂, -, -, -, hrevision, -, hm'⟩ := hprocesses.emptied
    exact ⟨_, hprocesses.countApplied_le, _, hm', hrevision, fun _ => rfl⟩

/-- **`act` handles `event` within the limit**: it comes to an end if and only if `event` is not
`Endless`, then with `AppliedWithin` for `maxFollowUps + 1`, and with an outcome exactly if
`0 < count`. -/
structure HandlesWithin (act : Act ρ γ (Option Outcome)) (link : Link) (m : Machine (StatePlan ρ))
    (event : Event) (w : World ρ γ) : Prop where
  ends_iff : (act.run w).isSome = true ↔ ¬ m.Endless event
  handled : ∀ outcome? w', act.run w = some (outcome?, w') →
    ∃ count, AppliedWithin link m (m.config.maxFollowUps + 1) count w' ∧
      (outcome?.isSome ↔ 0 < count)

/-- `HandlesWithin` as what `act` gives. -/
theorem handlesWithin_iff {act : Act ρ γ (Option Outcome)} : HandlesWithin act link m event w ↔
    Gives (¬ m.Endless event) act w fun outcome? w' => ¬ m.Endless event ∧
      ∃ count, AppliedWithin link m (m.config.maxFollowUps + 1) count w' ∧
        (outcome?.isSome ↔ 0 < count) := by
  constructor
  · intro h
    refine ⟨h.ends_iff.2, fun outcome? w' hrun => ⟨h.ends_iff.1 ?_, h.handled outcome? w' hrun⟩⟩
    rw [hrun]
    rfl
  · intro h
    refine ⟨⟨fun hsome => ?_, h.1⟩, fun outcome? w' hrun => (h.2 outcome? w' hrun).2⟩
    obtain ⟨⟨outcome?, w'⟩, hrun⟩ := Option.isSome_iff_exists.1 hsome
    exact (h.2 outcome? w' hrun).1

/-- `dispatchLocal` is `HandlesWithin`. -/
theorem handlesWithin_dispatchLocal (hhost : host.LeavesAlone link)
    (hm : w.machine? link = some m) (hdrain : m.config.followUps = .drain)
    (hqueue : ∀ event ∈ m.pending, ¬ m.Endless event) (event : Event) :
    HandlesWithin (dispatchLocal host link event) link m event w := by
  rw [handlesWithin_iff, dispatchLocal]
  refine gives_bind (gives_step_applies hhost hm event) ?_
  rintro (_ | applied) w₁ ⟨hends, m₁, hm₁, happlies, hexits⟩
  · refine gives_get (gives_pure ⟨hends, 0, ⟨Nat.zero_le _, m₁, hm₁, happlies.revision, ?_⟩, ?_⟩)
    · rw [happlies.pending]
      exact id
    · exact iff_of_false (by rintro ⟨⟩) (Nat.lt_irrefl 0)
  · refine gives_get ?_
    simp only [hm₁]
    -- The answer counts for one, and its follow-ups for the others.
    have hdrain₁ : m₁.config.followUps = .drain := happlies.config ▸ hdrain
    have hqueue₁ : ∀ event ∈ m₁.pending, ¬ m₁.Endless event := fun event hevent => by
      rw [Machine.endless_congr happlies.config]
      exact hqueue event (happlies.pending ▸ hevent)
    refine gives_bind
      (ends_settle_appliedWithin hhost hm₁ hdrain₁ hqueue₁ (hexits applied rfl)).gives ?_
    rintro _ w₂ ⟨count, hcount, m₂, hm₂, hrevision, hpending⟩
    refine gives_pure ⟨hends, count + 1, ⟨?_, m₂, hm₂, ?_, ?_⟩, ?_⟩
    · rw [happlies.config] at hcount
      exact Nat.succ_le_succ hcount
    · have hfirst : m₁.revision = m.revision + 1 := happlies.revision
      omega
    · rw [happlies.pending] at hpending
      exact hpending
    · exact iff_of_true rfl (Nat.succ_pos count)

/-- **`event` is for the machine itself**: it is in no engine that is alive and owns it, or `event`
is reserved. -/
def HandlesItself (w : World ρ γ) (m : Machine (StatePlan ρ)) (event : Event) : Prop :=
  ∀ engine, m.engine?.filter w.isAlive = some engine →
    event.isReserved = true ∨ owns w engine m.id = false

/-- **`dispatch` is `dispatchLocal` if the event is for the machine itself**, once it has forgotten
an engine that does not own it. -/
theorem gives_dispatch_itself {total : Prop} {post : Option Outcome → World ρ γ → Prop}
    (hm : w.machine? link = some m) (hself : HandlesItself w m event)
    (hlocal : Gives total (dispatchLocal host link event) w post)
    (hfree : Gives total (dispatchLocal host link event)
      (w.setCell link (.machine { m with engine? := none })) post) :
    Gives total (dispatch host link event) w post := by
  rw [dispatch]
  refine gives_get ?_
  simp only [hm]
  split
  · exact hlocal
  · rename_i engine hfilter
    split
    · exact hlocal
    · rename_i hdomain
      rw [if_neg (Bool.not_eq_true _ ▸ (hself engine hfilter).resolve_left hdomain)]
      -- The machine has left the hierarchy. It forgets the engine, and nothing else.
      refine gives_bind ends_setCell.gives ?_
      rintro _ _ rfl
      exact hfree

/-- `dispatch` is `HandlesWithin` for an event that is for the machine itself. -/
theorem handlesWithin_dispatch (hhost : host.LeavesAlone link) (hm : w.machine? link = some m)
    (hdrain : m.config.followUps = .drain) (hqueue : ∀ event ∈ m.pending, ¬ m.Endless event)
    (hself : HandlesItself w m event) :
    HandlesWithin (dispatch host link event) link m event w := by
  have hlocal := handlesWithin_iff.1 (handlesWithin_dispatchLocal hhost hm hdrain hqueue event)
  have hm₁ : (w.setCell link (.machine { m with engine? := none })).machine? link =
      some { m with engine? := none } := World.machine?_setCell_self hm
  have hfree := handlesWithin_dispatchLocal hhost hm₁ hdrain hqueue event
  refine handlesWithin_iff.2 (gives_dispatch_itself hm hself hlocal ?_)
  refine (handlesWithin_iff.1 hfree).mono fun outcome? w' hw' => ?_
  obtain ⟨hends, count, ⟨hcount, hend⟩, hiff⟩ := hw'
  exact ⟨hends, count, ⟨hcount, hend⟩, hiff⟩

/-- `sendNamed` is `HandlesWithin` for an event that is for the machine itself. A reserved name is
refused at once. -/
theorem handlesWithin_sendNamed {name : String} {params : Params} (hhost : host.LeavesAlone link)
    (hm : w.machine? link = some m) (hdrain : m.config.followUps = .drain)
    (hqueue : ∀ event ∈ m.pending, ¬ m.Endless event)
    (hself : HandlesItself w m (.domain name params)) :
    HandlesWithin (sendNamed host link name params) link m (.domain name params) w := by
  rw [sendNamed]
  split
  · rename_i hreserved
    have hends : ¬ m.Endless (.domain name params) := fun hendless => by
      have hnamed : isReservedName name = false := hendless.2.1
      rw [hreserved] at hnamed
      cases hnamed
    refine ⟨iff_of_true rfl hends, ?_⟩
    rintro _ _ ⟨⟩
    exact ⟨0, ⟨Nat.zero_le _, m, hm, rfl, id⟩, iff_of_false (by rintro ⟨⟩) (Nat.lt_irrefl 0)⟩
  · exact handlesWithin_dispatch hhost hm hdrain hqueue hself

/-- **At most `maxFollowUps` follow-ups are processed at a time**, if those around leave the machine
alone (`Host.LeavesAlone`). `Act.flush` comes to an end if and only if
`NoneEndless m m.config.maxFollowUps`. It takes the events in order, with those that come of them
behind (`World.Processes`), and applies and counts no more than the limit. Under `.drain`, with
nothing endless in the queue, `dispatchLocal`, `dispatch` and `sendNamed` are `HandlesWithin` the
same limit, with one transition more for the event itself; each comes to an end if and only if the
event is not `Machine.Endless`. -/
theorem followUps_bounded (hhost : host.LeavesAlone link) (hm : w.machine? link = some m) :
    (((flush host link).run w).isSome = true ↔ NoneEndless m m.config.maxFollowUps) ∧
    (∀ count w', (flush host link).run w = some (count, w') →
      count ≤ m.config.maxFollowUps ∧ ∃ turns rest,
        w.Processes host link m.config.maxFollowUps m turns rest w' ∧
          count = QueueTurn.countApplied turns) ∧
    (m.config.followUps = .drain → (∀ event ∈ m.pending, ¬ m.Endless event) →
      (∀ event, HandlesWithin (dispatchLocal host link event) link m event w) ∧
      (∀ event, HandlesItself w m event →
        HandlesWithin (dispatch host link event) link m event w) ∧
      ∀ name params, HandlesItself w m (.domain name params) →
        HandlesWithin (sendNamed host link name params) link m (.domain name params) w) := by
  have hflush := gives_flush_processes hhost hm
  refine ⟨⟨fun hsome => ?_, hflush.1⟩, fun count w' hrun => ?_, fun hdrain hqueue => ⟨?_, ?_, ?_⟩⟩
  · obtain ⟨⟨count, w'⟩, hrun⟩ := Option.isSome_iff_exists.1 hsome
    exact (hflush.2 count w' hrun).1
  · obtain ⟨-, turns, rest, hprocesses, rfl⟩ := hflush.2 count w' hrun
    exact ⟨hprocesses.countApplied_le, turns, rest, hprocesses, rfl⟩
  · exact handlesWithin_dispatchLocal hhost hm hdrain hqueue
  · exact fun event => handlesWithin_dispatch hhost hm hdrain hqueue
  · exact fun name params => handlesWithin_sendNamed hhost hm hdrain hqueue

end Act

end Processing

/-! ## A carousel, and a well -/

/-- `Surroundings.quiet` leaves every machine alone. -/
theorem Surroundings.leavesAlone_quiet (depth : Nat) (link : Link) :
    ((quiet : Surroundings ρ γ).host (depth + 1)).LeavesAlone link :=
  ⟨fun _ _ w => Act.ends_pure (.refl link w), fun _ _ w => Act.ends_pure (.refl link w)⟩

/-- The parts of a carousel: the exit of `"Ride.round"`, a final state, leads to itself, at most 3
times in a row. -/
def Assembly.carousel : Assembly (StatePlan Unit) State where
  initial := { key := "Ride.round", isFinal := true }
  factory := Factory.empty.register "Ride.round" (.constant (.plain "Ride.round" .null true) true)
  table := (Table.empty.insert "Ride" .childExit (.target "Ride.round")).insert "Ride.round"
    (.domain "push") (.target "Ride.round")
  config := { lookup := .ancestors ".", autoExit := true, maxFollowUps := 3 }

/-- The parts of a well, which looks under ancestors with the delimiter `""`. -/
def Assembly.well : Assembly (StatePlan Unit) State where
  initial := { key := "Top" }
  factory := ["Top", "Bottom"].foldl (fun factory key =>
    factory.register key (.constant (.plain key .null false) false)) .empty
  table := Table.empty.insert "Top" (.domain "drop") (.target "Bottom")
  config := { lookup := .ancestors "" }

namespace World

/-- A machine in `round` of `Ride`, whose exit waits. -/
def theCarousel : Machine (StatePlan Unit) :=
  { Machine.start (.minted 0) .carousel with pending := [.childExit (.path "Ride.round")] }

/-- A well at `"Top"`. -/
def theWell : Machine (StatePlan Unit) := .start (.minted 0) .well

/-- A world with the one machine `m`. -/
def alone (m : Machine (StatePlan Unit)) : World Unit Unit where
  cells := #[.machine m]
  minted := 1
  guest := ()

/-- `followUps_bounded` for `theCarousel`, whose rounds end where the next one begins. It stops
after 3 of them, and with `"push"` after 4. -/
theorem carousel_stops :
    ((Act.flush (Surroundings.quiet.host 1) ⟨0⟩).run (alone theCarousel)).map (·.1) = some 3 ∧
    (∃ turns rest w', (alone theCarousel).Processes (Surroundings.quiet.host 1) ⟨0⟩ 3 theCarousel
      turns rest w' ∧ 3 = QueueTurn.countApplied turns) ∧
    (Act.dispatchLocal (Surroundings.quiet.host 1) ⟨0⟩ (.domain "push" [])).HandlesWithin ⟨0⟩
      theCarousel (.domain "push" []) (alone theCarousel) ∧
    (Act.sendNamed (Surroundings.quiet.host 1) ⟨0⟩ "push" []).HandlesWithin ⟨0⟩ theCarousel
      (.domain "push" []) (alone theCarousel) ∧
    (((Act.sendNamed (Surroundings.quiet.host 1) ⟨0⟩ "push" []).after
      (alone theCarousel)).machine? ⟨0⟩).map (fun m => (m.revision, m.pending)) = some (4, []) := by
  have hm : (alone theCarousel).machine? ⟨0⟩ = some theCarousel := rfl
  obtain ⟨-, hflushed, hsent⟩ :=
    Act.followUps_bounded (Surroundings.leavesAlone_quiet 0 ⟨0⟩) hm
  obtain ⟨hlocal, -, hnamed⟩ := hsent rfl fun event hevent => by
    rw [List.mem_singleton.1 hevent]
    exact Machine.not_endless_exit "Ride.round"
  have hthree : ((Act.flush (Surroundings.quiet.host 1) ⟨0⟩).run (alone theCarousel)).map (·.1) =
      some 3 := by
    decide +kernel
  obtain ⟨⟨count, w'⟩, hrun, rfl⟩ := Option.map_eq_some_iff.1 hthree
  obtain ⟨-, turns, rest, hprocesses, hcount⟩ := hflushed _ w' hrun
  refine ⟨hthree, ⟨turns, rest, w', hprocesses, hcount⟩, hlocal _, hnamed "push" [] ?_, ?_⟩
  · rintro engine ⟨⟩
  · decide +kernel

/-- **A send to `theWell` never returns**, although its follow-ups are processed at once and its
queue is empty: it looks under the ancestors of a key with the delimiter `""`.
`MachineConfig.ofJson` accepts these settings, and `tableFault?` finds nothing wrong with its
table. -/
theorem well_never_answers :
    (MachineConfig.ofJson
        "\x7b\"lookup\":\x7b\"mode\":\"ancestors\",\"delimiter\":\"\"\x7d\x7d").toOption =
      some theWell.config ∧
    Builder.tableFault? theWell.factory theWell.table theWell.config.lookup = none ∧
    theWell.config.followUps = .drain ∧ theWell.pending = [] ∧
    ((Act.sendNamed (Surroundings.quiet.host 1) ⟨0⟩ "drop" []).run (alone theWell)).isNone =
      true :=
  ⟨by decide +kernel, by decide +kernel, rfl, rfl, by decide +kernel⟩

end World

end Statechart
