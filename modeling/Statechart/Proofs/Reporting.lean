import Statechart.Proofs.Chronicle
import Statechart.Proofs.Echo
import Statechart.Proofs.Offers

/-! # What the root reports

Those who watch a hierarchy look at its root. Whatever an event does anywhere on the chain, the
record of the root tells of it.

* `Machine.IsWellKept`, `World.Ready`: what the root and its engine are like at any time.
* `World.LeavesRoot`: the root and its engine are left alone.
* `World.Moves`, `Act.gives_dispatchLocal_moves`: the root enters states, one after the other.
* `World.Rising`, **`World.Passage`**: an event that is handled, with all offers of it and of exits.
* **`Act.root_reports`**: what is added to the record of the root. -/

namespace Statechart

variable {ρ γ : Type} {host : Host ρ γ} {w w' w'' : World ρ γ} {e : Engine} {root link : Link}
  {number depth : Nat} {event : Event} {outcome? : Option Outcome} {changes later : List Change}

/-! ## The root and its engine -/

/-- **The record of `m` is well kept**: it has entered no state after its last change, and all that
waits in `m.pending` are exits. -/
structure Machine.IsWellKept {σ : Type} (m : Machine σ) : Prop where
  since : m.current.since ≤ m.revision
  pending : ∀ event ∈ m.pending, event.IsExit

/-- `IsWellKept` is kept by `KeepsRecord`. -/
theorem Machine.IsWellKept.keeps {σ : Type} {m m' : Machine σ} (h : m.IsWellKept)
    (hkeeps : m.KeepsRecord m') : m'.IsWellKept := by
  refine ⟨?_, fun event hevent => ?_⟩
  · rw [hkeeps.current, hkeeps.revision]
    exact h.since
  · exact (hkeeps.pending event hevent).elim (h.pending event) fun hexit => hexit

namespace World

/-- **The root is ready to report**: the engine `number` is at `root`, and the machine there
`IsWellKept`. -/
structure Ready (number : Nat) (root : Link) (w : World ρ γ) : Prop where
  engine : ∃ e, w.engines[number]? = some e ∧ e.root = root
  machine : ∃ m, w.machine? root = some m ∧ m.IsWellKept

/-- **The root is left alone**: `KeepsRecordAt root`, and the engine `number` stays at its root. -/
structure LeavesRoot (number : Nat) (root : Link) (w w' : World ρ γ) : Prop where
  record : w.KeepsRecordAt root w'
  engine : ∀ e, w.engines[number]? = some e →
    ∃ e', w'.engines[number]? = some e' ∧ e'.root = e.root

namespace LeavesRoot

/-- `LeavesRoot` is reflexive. -/
theorem refl (w : World ρ γ) : w.LeavesRoot number root w :=
  ⟨.refl root w, fun e he => ⟨e, he, rfl⟩⟩

/-- `LeavesRoot` is transitive. -/
theorem trans (h : w.LeavesRoot number root w') (h' : w'.LeavesRoot number root w'') :
    w.LeavesRoot number root w'' := by
  refine ⟨h.record.trans h'.record, fun e he => ?_⟩
  obtain ⟨e', he', hroot⟩ := h.engine e he
  obtain ⟨e'', he'', hroot'⟩ := h'.engine e' he'
  exact ⟨e'', he'', hroot'.trans hroot⟩

/-- `LeavesRoot` holds if the record is kept and `engines` are the same. -/
theorem of_engines (hrecord : w.KeepsRecordAt root w') (hengines : w'.engines = w.engines) :
    w.LeavesRoot number root w' :=
  ⟨hrecord, fun e he => ⟨e, by rw [hengines, he], rfl⟩⟩

/-- `LeavesRoot` holds while the world `Rests`. -/
theorem of_rests (h : w.Rests w') : w.LeavesRoot number root w' :=
  .of_engines (h.machine root) h.engines

/-- `Ready` is kept by `LeavesRoot`. -/
theorem ready (h : w.LeavesRoot number root w') (hw : w.Ready number root) :
    w'.Ready number root := by
  obtain ⟨⟨e, he, hroot⟩, m, hm, hkept⟩ := hw
  obtain ⟨e', he', hroot'⟩ := h.engine e he
  obtain ⟨m', hm', hkeeps⟩ := h.record m hm
  exact ⟨⟨e', he', hroot'.trans hroot⟩, m', hm', hkept.keeps hkeeps⟩

end LeavesRoot

/-- **The root enters states by `changes`**, one after the other: `World.Chronicle` with `.moved`
entries only, and `Ready` in the end. -/
structure Moves (number : Nat) (root : Link) (w w' : World ρ γ) (changes : List Change) :
    Prop where
  chronicle : w.Chronicle root w' (changes.map .moved)
  ready : w'.Ready number root

namespace Moves

/-- `LeavesRoot` is `Moves` with no changes. -/
theorem of_leavesRoot (hw : w.Ready number root) (h : w.LeavesRoot number root w') :
    w.Moves number root w' [] :=
  ⟨.of_keeps h.record, h.ready hw⟩

/-- `Moves` for `changes` and then for `later` is `Moves` for both. -/
theorem trans (h : w.Moves number root w' changes) (h' : w'.Moves number root w'' later) :
    w.Moves number root w'' (changes ++ later) :=
  ⟨List.map_append ▸ h.chronicle.trans h'.chronicle, h'.ready⟩

/-- `Moves` and then `LeavesRoot` is `Moves`. -/
theorem leavesRoot (h : w.Moves number root w' changes) (h' : w'.LeavesRoot number root w'') :
    w.Moves number root w'' changes :=
  ⟨h.chronicle.rests h'.record, h'.ready h.ready⟩

/-- `LeavesRoot` and then `Moves` is `Moves`. -/
theorem of_leavesRoot_moves (h : w.LeavesRoot number root w')
    (h' : w'.Moves number root w'' changes) : w.Moves number root w'' changes :=
  ⟨(Chronicle.of_keeps h.record).trans h'.chronicle, h'.ready⟩

end Moves

end World

/-- **The surroundings leave the root alone**: `observe`, `registered` and `redrawn` are in
`World.LeavesRoot`, and `enrol` lets the world rest (`IsCivil`). -/
structure Host.LeavesRoot (number : Nat) (root : Link) (host : Host ρ γ) : Prop where
  observe : ∀ subscriber change w, Act.Gives False (host.observe subscriber change) w fun _ w' =>
    w.LeavesRoot number root w'
  enrol : host.IsCivil
  registered : ∀ link isJoining w, Act.Gives False (host.registered link isJoining) w fun _ w' =>
    w.LeavesRoot number root w'
  redrawn : ∀ graph w, Act.Gives False (host.redrawn graph) w fun _ w' =>
    w.LeavesRoot number root w'

namespace Act

/-! ## Events at the root -/

/-- `notify` leaves the root alone. -/
theorem gives_notify_leavesRoot (hhost : host.LeavesRoot number root) (link : Link)
    (change : Change) (w : World ρ γ) :
    Gives False (notify host link change) w fun _ w' => w.LeavesRoot number root w' := by
  refine gives_get ?_
  split
  · exact gives_pure (.refl w)
  · refine gives_forM (.refl w) fun subscriber _ w₁ hw₁ => ?_
    exact (hhost.observe subscriber change w₁).mono fun _ _ hw₂ => hw₁.trans hw₂

/-- **`step` of the root gives `Moves`** with its change, or with none. -/
theorem gives_step_moves (hhost : host.LeavesRoot number root) (hw : w.Ready number root)
    (event : Event) :
    Gives False (step host root event) w fun entered? w' =>
      w.Moves number root w' (entered?.map (·.1)).toList ∧
      ∀ entered, entered? = some entered →
        entered.1.event = event ∧ ∀ followUp ∈ entered.2, followUp.IsExit := by
  refine gives_bind (gives_resolve_rests hhost.enrol root event w) ?_
  rintro (_ | found) w₁ ⟨hrests, hfound⟩
  · exact gives_pure ⟨.of_leavesRoot hw (.of_rests hrests), by rintro _ ⟨⟩⟩
  · obtain ⟨hevent, m₀, hm₀, hsource⟩ := hfound found rfl
    have hleaves : w.LeavesRoot number root w₁ := .of_rests hrests
    have hw₁ := hleaves.ready hw
    obtain ⟨m, hm, hkept⟩ := hw₁.machine
    show Gives False (transition host root found) w₁ _
    rw [transition]
    refine gives_get ?_
    simp only [hm]
    refine gives_bind ends_setCell.gives ?_
    rintro _ _ rfl
    -- The root is still in the state in which it has looked for the answer.
    obtain ⟨m₁, hm₁, hkeeps⟩ := hrests.machine root m₀ hm₀
    rw [hm] at hm₁
    cases hm₁
    have hmoved : w.Moves number root (w₁.setCell root (.machine (m.commit
        (m.changeTo found.event found.source found.target))))
        [m.changeTo found.event found.source found.target] := by
      rw [hsource, ← hkeeps.current]
      refine ⟨(World.Chronicle.of_keeps hleaves.record).moved hm, hw₁.engine, _,
        World.machine?_setCell_self hm, Nat.le_refl _, hkept.pending⟩
    refine gives_bind (gives_notify_leavesRoot hhost root _ _) fun _ w₂ hw₂ => gives_pure ?_
    refine ⟨hmoved.leavesRoot hw₂, ?_⟩
    rintro _ ⟨⟩
    exact ⟨hevent, fun followUp => Machine.isExit_of_mem_followUps⟩

/-- `popPending` of the root leaves it alone, and gives an exit. -/
theorem gives_popPending_leavesRoot (hw : w.Ready number root) :
    Gives False (popPending root : Act ρ γ (Option Event)) w fun event? w' =>
      w.LeavesRoot number root w' ∧ ∀ event, event? = some event → event.IsExit := by
  obtain ⟨m, hm, hkept⟩ := hw.machine
  rw [popPending]
  refine gives_get ?_
  simp only [hm]
  split
  · exact gives_pure ⟨.refl w, by rintro _ ⟨⟩⟩
  · rename_i event rest hpending
    -- What is left in the queue was in it before.
    refine gives_bind ends_setCell.gives ?_
    rintro _ _ rfl
    refine gives_pure ⟨.of_rests (.setCell hm (.queue ?_)), ?_⟩
    · intro later hlater
      rw [hpending]
      exact .inl (List.mem_cons_of_mem _ hlater)
    · rintro _ ⟨⟩
      exact hkept.pending event (hpending ▸ List.mem_cons_self)

/-- `cancelPending` of the root leaves it alone. -/
theorem gives_cancelPending_leavesRoot (number : Nat) :
    Gives False (cancelPending root : Act ρ γ Nat) w fun _ w' => w.LeavesRoot number root w' := by
  refine gives_get ?_
  split
  · exact gives_pure (.refl w)
  · rename_i m hm
    refine gives_bind ends_setCell.gives ?_
    rintro _ _ rfl
    exact gives_pure (.of_rests (.setCell hm (.queue (by rintro _ ⟨⟩))))

/-- `pushPending` of exits to the root leaves it alone. -/
theorem gives_pushPending_leavesRoot (number : Nat) {events : List Event}
    (hexits : ∀ event ∈ events, event.IsExit) :
    Gives False (pushPending root events : Act ρ γ Unit) w fun _ w' =>
      w.LeavesRoot number root w' := by
  refine gives_get ?_
  split
  · rename_i m hm
    refine ends_setCell.gives.mono ?_
    rintro _ _ rfl
    refine .of_rests (.setCell hm (.queue fun event hevent => ?_))
    exact (List.mem_append.1 hevent).imp_right (hexits event)
  · exact gives_pure (.refl w)

/-- **`flushWithin` of the root gives `Moves`** on exits. -/
theorem gives_flushWithin_moves (hhost : host.LeavesRoot number root) (hw : w.Ready number root)
    (bound : Nat) :
    Gives False (flushWithin host root bound) w fun _ w' => ∃ exits,
      w.Moves number root w' exits ∧ ∀ change ∈ exits, change.event.IsExit := by
  -- What is taken from the queue is an exit, and so is all that a turn adds to it: this is what the
  -- induction carries from turn to turn.
  induction bound generalizing w with
  | zero =>
    have hcancel : Gives False (discard (cancelPending root : Act ρ γ Nat)) w fun _ w' =>
        w.LeavesRoot number root w' := gives_discard (gives_cancelPending_leavesRoot number)
    refine gives_bind hcancel fun _ w₁ hw₁ => ?_
    exact gives_pure ⟨[], .of_leavesRoot hw hw₁, by rintro _ ⟨⟩⟩
  | succ bound ih =>
    refine gives_bind (gives_popPending_leavesRoot hw) ?_
    rintro (_ | event) w₁ ⟨hw₁, hevent⟩
    · exact gives_pure ⟨[], .of_leavesRoot hw hw₁, by rintro _ ⟨⟩⟩
    · refine gives_bind (gives_step_moves hhost (hw₁.ready hw) event) ?_
      rintro (_ | entered) w₂ ⟨hw₂, hentered⟩
      · refine (ih hw₂.ready).mono ?_
        rintro _ w₃ ⟨exits, hw₃, hexits⟩
        exact ⟨exits, .of_leavesRoot_moves hw₁ (hw₂.trans hw₃), hexits⟩
      · -- The state that is entered is one more of the record, ahead of those of the later turns.
        obtain ⟨hsame, hfollowUps⟩ := hentered entered rfl
        refine gives_bind (gives_pushPending_leavesRoot number hfollowUps) fun _ w₃ hw₃ => ?_
        have hmoved := World.Moves.of_leavesRoot_moves hw₁ (hw₂.leavesRoot hw₃)
        refine gives_bind (ih hmoved.ready) ?_
        rintro _ w₄ ⟨exits, hw₄, hexits⟩
        refine gives_pure ⟨_, hmoved.trans hw₄, fun change hchange => ?_⟩
        rcases List.mem_cons.1 hchange with rfl | hlater
        · rw [hsame]
          exact hevent event rfl
        · exact hexits change hlater

/-- `settle` of the root gives `Moves` on exits, if its `followUps` are exits. -/
theorem gives_settle_moves (hhost : host.LeavesRoot number root) (hw : w.Ready number root)
    {followUps : List Event} (hfollowUps : ∀ event ∈ followUps, event.IsExit) :
    Gives False (settle host root followUps) w fun _ w' => ∃ exits,
      w.Moves number root w' exits ∧ ∀ change ∈ exits, change.event.IsExit := by
  -- In three of the four cases nothing is processed at all.
  have hnone : ∀ w', w.LeavesRoot number root w' → ∃ exits,
      w.Moves number root w' exits ∧ ∀ change ∈ exits, change.event.IsExit :=
    fun w' hw' => ⟨[], .of_leavesRoot hw hw', by rintro _ ⟨⟩⟩
  rw [settle]
  split
  · exact gives_pure (hnone w (.refl w))
  · refine gives_bind (gives_pushPending_leavesRoot number hfollowUps) fun _ w₁ hw₁ => gives_get ?_
    split
    · exact gives_pure (hnone w₁ hw₁)
    · rename_i m hm
      split
      · refine gives_discard ?_
        rw [flush]
        refine gives_get ?_
        simp only [hm]
        refine (gives_flushWithin_moves hhost (hw₁.ready hw) _).mono ?_
        rintro _ w₂ ⟨exits, hw₂, hexits⟩
        exact ⟨exits, .of_leavesRoot_moves hw₁ hw₂, hexits⟩
      · exact gives_pure (hnone w₁ hw₁)

/-- **`dispatchLocal` of the root gives `Moves`**: with no changes if there is no outcome, and
otherwise on the event first and on exits after that. -/
theorem gives_dispatchLocal_moves (hhost : host.LeavesRoot number root)
    (hw : w.Ready number root) (event : Event) :
    Gives False (dispatchLocal host root event) w fun outcome? w' =>
      ∃ changes, w.Moves number root w' changes ∧ (outcome? = none → changes = []) ∧
        (outcome?.isSome = true → ∃ first rest, changes = first :: rest ∧ first.event = event ∧
          ∀ change ∈ rest, change.event.IsExit) := by
  rw [dispatchLocal]
  refine gives_bind (gives_step_moves hhost hw event) ?_
  rintro (_ | entered) w₁ ⟨hw₁, hentered⟩
  · exact gives_get (gives_pure ⟨[], hw₁, fun _ => rfl, by rintro ⟨⟩⟩)
  · obtain ⟨hsame, hfollowUps⟩ := hentered entered rfl
    obtain ⟨m, hm, -⟩ := hw₁.ready.machine
    refine gives_get ?_
    simp only [hm]
    refine gives_bind (gives_settle_moves hhost hw₁.ready hfollowUps) ?_
    rintro _ w₂ ⟨exits, hw₂, hexits⟩
    exact gives_pure ⟨_, hw₁.trans hw₂, by rintro ⟨⟩, fun _ => ⟨_, _, rfl, hsame, hexits⟩⟩

end Act

/-! ## Offers to children -/

/-- `host` echoes itself in `Host.Echoes` for machines other than the root, with the invariant
`LeavesRoot`. -/
theorem Host.LeavesRoot.echoes (hhost : host.LeavesRoot number root) (w : World ρ γ) :
    host.Echoes (· ≠ root) (fun w' => w.LeavesRoot number root w') host := by
  refine ⟨fun subscriber change w₁ hw₁ => ?observe, fun link event w₁ hlink hw₁ => ?enter, ?queue,
    ?note⟩
  case observe =>
    -- The other machine tells subscribers, enters a state, changes its queue, or notes something:
    -- none of it is at the root.
    exact ((hhost.observe subscriber change w₁).mono fun _ _ hw₂ => hw₁.trans hw₂).echoes
  case enter =>
    have henter : Act.Gives False (Act.enter host link event) w₁ fun _ w' =>
        w.LeavesRoot number root w' := by
      refine Act.gives_bind (Act.gives_resolve_rests hhost.enrol link event w₁) ?_
      rintro (_ | found) w₂ ⟨hrests, -⟩
      · exact Act.gives_pure (hw₁.trans (.of_rests hrests))
      · refine Act.gives_get ?_
        split
        · exact Act.gives_pure (hw₁.trans (.of_rests hrests))
        · refine Act.gives_bind Act.ends_setCell.gives ?_
          rintro _ _ rfl
          exact Act.gives_pure ((hw₁.trans (.of_rests hrests)).trans
            (.of_engines (.setCell_of_ne hlink.symm) rfl))
    exact henter.echoes
  case queue =>
    exact fun w₁ link m pending hlink hw₁ _ _ =>
      hw₁.trans (.of_engines (.setCell_of_ne hlink.symm) rfl)
  case note =>
    exact fun w₁ link m child inner hlink hw₁ _ =>
      hw₁.trans (.of_engines (.setCell_of_ne hlink.symm) rfl)

/-- An offer to a child that is no machine `LeavesRoot` alone. -/
def Offer.IsDiscreet (number : Nat) (root : Link) (o : Offer ρ γ) : Prop :=
  o.IsSendOnly → o.before.LeavesRoot number root o.after

/-- **`Act.tryLevel` for a child leaves the root alone**, if the offer `IsDiscreet`. -/
theorem World.LeavesRoot.of_tryLevel (hhost : host.LeavesRoot number root) {rung : Level}
    (hne : rung.link ≠ root)
    (hrun : (Act.tryLevel host rung event).run w = some (outcome?, w'))
    (hdiscreet : Offer.IsDiscreet number root
      ⟨rung.link, depth, some rung.snapshot, w, w', outcome?⟩) :
    w.LeavesRoot number root w' := by
  cases hm : w.machine? rung.link with
  | none => exact hdiscreet ⟨rfl, hm⟩
  | some m =>
    rw [Act.tryLevel_run hm] at hrun
    exact ((hhost.echoes w).steps.dispatchLocal hne event (.refl w)).gives.2 _ _ hrun

namespace World

/-- **`World.Round` gives `Moves`**: with no changes unless the last offer is to the root and has an
outcome, and then on the event first and on exits after that. -/
theorem Round.moves {rungs : List (Level × Nat)} {offers : List (Offer ρ γ)}
    (h : World.Round host root event rungs w w' offers) (hhost : host.LeavesRoot number root)
    (hw : w.Ready number root) (hrungs : ∀ rung ∈ rungs, rung.1.link ≠ root ∧ 0 < rung.2)
    (hdiscreet : ∀ o ∈ offers, o.IsDiscreet number root) :
    ∃ changes last, w.Moves number root w' changes ∧ offers.getLast? = some last ∧
      (last.outcome? = none ∨ 0 < last.depth → changes = []) ∧
      (last.outcome?.isSome = true → last.depth = 0 → ∃ first rest, changes = first :: rest ∧
        first.event = event ∧ ∀ change ∈ rest, change.event.IsExit) := by
  induction h with
  | root hrun =>
    obtain ⟨changes, hmoves, hnone, hsome⟩ :=
      (Act.gives_dispatchLocal_moves hhost hw event).2 _ _ hrun
    refine ⟨changes, _, hmoves, rfl, ?_, fun houtcome _ => hsome houtcome⟩
    rintro (houtcome | hdepth)
    · exact hnone houtcome
    · exact absurd hdepth (Nat.lt_irrefl 0)
  | taken hrun =>
    -- A child has the outcome, so the root is not made an offer any more.
    obtain ⟨hne, hpositive⟩ := hrungs _ List.mem_cons_self
    have hleaves := LeavesRoot.of_tryLevel hhost hne hrun (hdiscreet _ List.mem_cons_self)
    refine ⟨[], _, .of_leavesRoot hw hleaves, rfl, fun _ => rfl, fun _ hdepth => ?_⟩
    exact absurd hdepth (Nat.ne_of_gt hpositive)
  | passed hrun _ ih =>
    obtain ⟨hne, -⟩ := hrungs _ List.mem_cons_self
    have hleaves := LeavesRoot.of_tryLevel hhost hne hrun (hdiscreet _ List.mem_cons_self)
    obtain ⟨changes, last, hmoves, hlast, hnone, hsome⟩ := ih (hleaves.ready hw)
      (fun rung hrung => hrungs rung (List.mem_cons_of_mem _ hrung))
      (fun o ho => hdiscreet o (List.mem_cons_of_mem _ ho))
    refine ⟨changes, last, .of_leavesRoot_moves hleaves hmoves, ?_, hnone, hsome⟩
    rw [List.getLast?_cons, hlast, Option.getD_some]

/-- No level of `w.chain e` is at `e.root`. -/
theorem ne_root_of_mem_chain {level : Level} (h : level ∈ w.chain e) : level.link ≠ e.root := by
  have hnodup := w.nodup_activeLinks e
  rw [activeLinks, List.nodup_cons] at hnodup
  exact fun heq => hnodup.1 (heq ▸ List.mem_map_of_mem h)

/-- No child in `w.rungs e` is at `e.root`, and each has a depth above 0. -/
theorem ne_of_mem_rungs {rung : Level × Nat} (h : rung ∈ w.rungs e) :
    rung.1.link ≠ e.root ∧ 0 < rung.2 := by
  rw [rungs, List.mem_reverse] at h
  exact ⟨ne_root_of_mem_chain (List.fst_mem_of_mem_zipIdx h), List.le_snd_of_mem_zipIdx h⟩

/-! ## Exits -/

/-- The chain of the engine `number`. -/
def children (w : World ρ γ) (number : Nat) : List Level :=
  (w.engines[number]?.map w.chain).getD []

/-- The identity of the child at `depth` in `w.children number` if `Act.isFinished` holds for it. -/
def finishedAt? (w : World ρ γ) (number : Nat) (e : Engine) (depth : Nat) : Option MachineId :=
  ((w.children number)[depth]?.filter fun child => Act.isFinished e.config child.snapshot).bind
    fun child => w.id? child.link

/-- **Exits that rise from `depth`**: the exit of the child below, if it is `finishedAt?`, is
offered to the machine above, and with an outcome it goes on from there. -/
inductive Rising (host : Host ρ γ) (number : Nat) (e : Engine) :
    Nat → World ρ γ → World ρ γ → List (Offer ρ γ) → Prop
  | still {depth : Nat} {w : World ρ γ} : World.Rising host number e depth w w []
  | root {w w' : World ρ γ} {id : MachineId} {outcome? : Option Outcome} :
    w.finishedAt? number e 0 = some id →
    (Act.dispatchLocal host e.root (.childExit (.machine id))).run w = some (outcome?, w') →
    World.Rising host number e 1 w w' [⟨e.root, 0, none, w, w', outcome?⟩]
  | parent {above : Nat} {w w₁ w' : World ρ γ} {parent : Level} {id : MachineId}
    {outcome? : Option Outcome} {offers : List (Offer ρ γ)} :
    w.finishedAt? number e (above + 1) = some id → (w.children number)[above]? = some parent →
    (Act.tryLevel host parent (.childExit (.machine id))).run w = some (outcome?, w₁) →
    World.Rising host number e (above + 1) w₁ w' offers →
    World.Rising host number e (above + 2) w w'
      (⟨parent.link, above + 1, some parent.snapshot, w, w₁, outcome?⟩ :: offers)

/-- No level of `w.children number` is at `root`. -/
theorem Ready.ne_of_mem_children (hw : w.Ready number root) {level : Level}
    (h : level ∈ w.children number) : level.link ≠ root := by
  obtain ⟨⟨e, he, rfl⟩, -⟩ := hw
  rw [children, he, Option.map_some, Option.getD_some] at h
  exact ne_root_of_mem_chain h

/-- **`World.Rising` gives `Moves` on exits.** -/
theorem Rising.moves {offers : List (Offer ρ γ)} (h : World.Rising host number e depth w w' offers)
    (hhost : host.LeavesRoot number e.root) (hw : w.Ready number e.root)
    (hdiscreet : ∀ o ∈ offers, o.IsDiscreet number e.root) :
    ∃ exits, w.Moves number e.root w' exits ∧ ∀ change ∈ exits, change.event.IsExit := by
  -- Only the last exit can be one that the root takes. All others are offered to children.
  induction h with
  | still => exact ⟨[], .of_leavesRoot hw (.refl _), by rintro _ ⟨⟩⟩
  | @root w w' id outcome? _ hrun =>
    obtain ⟨changes, hmoves, hnone, hsome⟩ :=
      (Act.gives_dispatchLocal_moves hhost hw (.childExit (.machine id))).2 _ _ hrun
    refine ⟨changes, hmoves, ?_⟩
    cases outcome? with
    | none =>
      rw [hnone rfl]
      rintro _ ⟨⟩
    | some outcome =>
      obtain ⟨first, rest, rfl, hfirst, hrest⟩ := hsome rfl
      exact List.forall_mem_cons.2 ⟨⟨_, hfirst⟩, hrest⟩
  | parent _ hparent hrun _ ih =>
    -- A child is not the root, and its offer is discreet.
    have hne := hw.ne_of_mem_children (List.mem_of_getElem? hparent)
    have hleaves := LeavesRoot.of_tryLevel hhost hne hrun (hdiscreet _ List.mem_cons_self)
    obtain ⟨exits, hmoves, hexits⟩ := ih (hleaves.ready hw)
      fun o ho => hdiscreet o (List.mem_cons_of_mem _ ho)
    exact ⟨exits, .of_leavesRoot_moves hleaves hmoves, hexits⟩

/-- The children from the depth `handled` on that are not in `before`, up to the first one that
is. -/
def newcomers (w : World ρ γ) (number handled : Nat) (before : List (Option MachineId)) :
    List Level :=
  ((w.children number).drop handled).takeWhile fun level => !before.contains (w.id? level.link)

end World

namespace Act

/-- `chainOf number` gives `w.children number`. -/
theorem gives_chainOf_children (number : Nat) :
    Gives False (chainOf number : Act ρ γ (List Level)) w fun levels w' =>
      levels = w.children number ∧ w = w' :=
  gives_get (gives_pure ⟨rfl, rfl⟩)

/-- **`bubbleFrom` gives `World.Rising`.** -/
theorem gives_bubbleFrom_rising (number : Nat) (e : Engine) (depth : Nat) :
    Gives False (bubbleFrom host number e depth) w fun _ w' => ∃ offers,
      World.Rising host number e depth w w' offers := by
  induction depth generalizing w with
  | zero => exact gives_pure ⟨[], .still⟩
  | succ depth ih =>
    rw [bubbleFrom]
    refine gives_bind (gives_chainOf_children number) ?_
    rintro _ _ ⟨rfl, rfl⟩
    cases hchild : (w.children number)[depth]? with
    | none => exact gives_pure ⟨[], .still⟩
    | some child =>
      dsimp only
      split
      · rename_i hfinished
        refine gives_get ?_
        cases hid : w.id? child.link with
        | none => exact gives_pure ⟨[], .still⟩
        | some id =>
          have hexit : w.finishedAt? number e depth = some id := by
            rw [World.finishedAt?, hchild, Option.filter_some, if_pos hfinished, Option.bind_some,
              hid]
          dsimp only
          -- The exit goes to the root from the first level, and to a child from all deeper ones.
          cases depth with
          | zero =>
            rw [tryExit, bind_assoc]
            refine gives_bind gives_run fun outcome? w₁ hrun => ?_
            rw [pure_bind]
            split
            · exact gives_pure ⟨_, .root hexit hrun⟩
            · exact gives_pure ⟨_, .root hexit hrun⟩
          | succ above =>
            rw [tryExit]
            cases hparent : (w.children number)[above]? with
            | none => exact gives_pure ⟨[], .still⟩
            | some parent =>
              dsimp only
              rw [bind_assoc]
              refine gives_bind gives_run fun outcome? w₁ hrun => ?_
              rw [pure_bind]
              split
              · refine ih.mono ?_
                rintro _ w₂ ⟨offers, hoffers⟩
                exact ⟨_, .parent hexit hparent hrun hoffers⟩
              · exact gives_pure ⟨_, .parent hexit hparent hrun .still⟩
      · exact gives_pure ⟨[], .still⟩

/-- `bubble` gives `World.Rising` from below the innermost of `newcomers`. -/
theorem gives_bubble_rising (number : Nat) (e : Engine) (handled : Nat)
    (before : List (Option MachineId)) :
    Gives False (bubble host number e handled before) w fun _ w' => ∃ offers,
      World.Rising host number e (handled + (w.newcomers number handled before).length) w w'
        offers := by
  rw [bubble]
  refine gives_bind (gives_chainOf_children number) ?_
  rintro _ w ⟨rfl, rfl⟩
  have hnewcomers : w.newcomers number handled before =
      ((w.children number).drop handled).takeWhile fun level => w.id? level.link ∉ before := by
    simp only [World.newcomers, List.contains_eq_mem, decide_not]
  rw [hnewcomers]
  exact gives_get (gives_bubbleFrom_rising number e _)

end Act

/-! ## Events that are handled -/

/-- `noteBelow` for the root if the event was handled below it. -/
def Act.noteHandled (host : Host ρ γ) (root : Link) (event : Event) (handled : Nat)
    (machine : MachineId) : Act ρ γ Unit :=
  if 0 < handled then noteBelow host root (.machine machine) event else return ()

/-- **An event that is handled**, with the offers of it (`World.Round`) and of the exits that rise
after it (`World.Rising`): none if its name is reserved, those that all decline without an outcome,
and otherwise those up to the outcome, after which the root takes its note and the engine syncs. -/
inductive World.Passage (host : Host ρ γ) (number : Nat) (e : Engine) (event : Event)
    (w : World ρ γ) : World ρ γ → List (Offer ρ γ) → Option Outcome → Prop
  | refused : event.isMisnamed = true → World.Passage host number e event w w [] none
  | declined {w₀ w' : World ρ γ} {offers : List (Offer ρ γ)} :
    (Act.sync host number).run w = some (w.chain e, w₀) →
    World.Round host e.root event (w.rungs e) w₀ w' offers → (∀ o ∈ offers, o.outcome? = none) →
    World.Passage host number e event w w' offers none
  | taken {w₀ w₁ w₂ w₃ w' : World ρ γ} {levels : List Level} {offers exits : List (Offer ρ γ)}
    {last : Offer ρ γ} {outcome : Outcome} :
    (Act.sync host number).run w = some (w.chain e, w₀) →
    World.Round host e.root event (w.rungs e) w₀ w₁ offers → offers.getLast? = some last →
    last.outcome? = some outcome →
    World.Rising host number e (last.depth + (w₁.newcomers number last.depth
      ((w.chain e).map fun level => w₀.id? level.link)).length) w₁ w₂ exits →
    (Act.noteHandled host e.root event last.depth outcome.machine).run w₂ = some ((), w₃) →
    (Act.sync host number).run w₃ = some (levels, w') →
    World.Passage host number e event w w' (offers ++ exits) (some (outcome.atDepth last.depth))

/-- **`handle` gives `World.Passage`** for every event that is not reserved. -/
theorem Act.gives_handle_passage (he : w.engines[number]? = some e)
    (hdomain : event.isReserved = false) :
    Gives False (handle host number event) w fun outcome? w' =>
      ∃ offers, World.Passage host number e event w w' offers outcome? := by
  rw [handle]
  refine gives_get ?_
  simp only [he, hdomain, Bool.false_eq_true, if_false]
  split
  · rename_i hmisnamed
    exact gives_pure ⟨[], .refused hmisnamed⟩
  · refine gives_bind (gives_sync_levels he).with_run ?_
    rintro _ w₀ ⟨hsync, rfl⟩
    refine gives_get (gives_bind (gives_attempt_round (w.chain e)) ?_)
    rintro applied? w₁ ⟨offers, last, hround, hlast, rfl⟩
    rw [Offer.applied?]
    cases houtcome : last.outcome? with
    | none =>
      refine gives_pure ⟨offers, .declined hsync hround (hround.outcome?_eq_none hlast ?_)⟩
      rw [Offer.applied?, houtcome]
      rfl
    | some outcome =>
      simp only [Option.map_some]
      refine gives_bind (gives_bubble_rising number e last.depth _) ?_
      rintro _ w₂ ⟨exits, hrising⟩
      -- The note of the root and the last synchronization follow in any case, so they are taken
      -- care of before it is asked at which depth the event was handled.
      have hnoted : Gives False (noteHandled host e.root event last.depth outcome.machine) w₂
          fun _ w₃ => (noteHandled host e.root event last.depth outcome.machine).run w₂ =
            some ((), w₃) := gives_run
      have hlast : ∀ w₃, (noteHandled host e.root event last.depth outcome.machine).run w₂ =
          some ((), w₃) → Gives False (do
            discard (sync host number)
            return some (outcome.atDepth last.depth)) w₃ fun outcome? w' =>
              ∃ offers, World.Passage host number e event w w' offers outcome? := by
        intro w₃ hnote
        have hsynced : Gives False (discard (sync host number)) w₃ fun _ w' =>
            ∃ levels, (sync host number).run w₃ = some (levels, w') :=
          gives_discard (gives_run.mono fun levels _ hrun => ⟨levels, hrun⟩)
        refine gives_bind hsynced ?_
        rintro _ w' ⟨levels, hsync'⟩
        exact gives_pure ⟨_, .taken hsync hround hlast houtcome hrising hnote hsync'⟩
      rw [noteHandled] at hnoted hlast
      split
      · rename_i hdeep
        rw [if_pos hdeep] at hnoted hlast
        exact gives_bind hnoted fun _ => hlast
      · rename_i hroot
        rw [if_neg hroot] at hlast
        exact hlast w₂ rfl

/-! ## What the root tells -/

/-- `host` echoes itself in `EchoesRegistering` with the invariant `LeavesRoot`. -/
theorem Host.LeavesRoot.echoesRegistering (hhost : host.LeavesRoot number root)
    (w : World ρ γ) :
    host.EchoesRegistering (fun w' => w.LeavesRoot number root w') host := by
  refine ⟨fun w₁ other f hf hw₁ => ?engine, fun w₁ graphs hw₁ => ?graphs,
    fun w₁ link m engine? hw₁ hm => ?enlist, fun link isJoining w₁ hw₁ _ _ => ?registered,
    fun graph w₁ hw₁ => ?redrawn⟩
  case engine =>
    refine hw₁.trans ⟨.of_cells rfl, fun e he => ?_⟩
    show ∃ e', (w₁.engines.modify other f)[number]? = some e' ∧ e'.root = e.root
    rw [Array.getElem?_modify, he]
    split
    · exact ⟨f e, rfl, (hf e).1⟩
    · exact ⟨e, rfl, rfl⟩
  case graphs => exact hw₁.trans (.of_engines (.of_cells rfl) rfl)
  case enlist => exact hw₁.trans (.of_rests (.setCell hm (.enlist m engine?)))
  case registered =>
    exact ((hhost.registered link isJoining w₁).mono fun _ _ hw₂ => hw₁.trans hw₂).echoes
  case redrawn => exact ((hhost.redrawn graph w₁).mono fun _ _ hw₂ => hw₁.trans hw₂).echoes

/-- `sync` leaves the root alone. -/
theorem Act.gives_sync_leavesRoot (hhost : host.LeavesRoot number root) (other : Nat)
    (w : World ρ γ) :
    Gives False (sync host other) w fun _ w' => w.LeavesRoot number root w' :=
  ((hhost.echoesRegistering w).sync other (.refl w)).gives

/-- `noteHandled` adds one note to the record of the root if `0 < handled`, and none otherwise. -/
theorem Act.gives_noteHandled (hhost : host.LeavesRoot number root) (hw : w.Ready number root)
    (event : Event) (handled : Nat) (machine : MachineId) :
    Gives False (noteHandled host root event handled machine) w fun _ w' => w'.Ready number root ∧
      ∃ notes, w.Chronicle root w' (notes.map .noted) ∧ (handled = 0 → notes = []) ∧
        (0 < handled → ∃ note, notes = [note] ∧ note.event = .childChange (.machine machine) event)
    := by
  rw [noteHandled]
  split
  · rename_i hdeep
    obtain ⟨m, hm, hkept⟩ := hw.machine
    rw [noteBelow]
    refine gives_get ?_
    simp only [hm]
    refine gives_bind ends_setCell.gives ?_
    rintro _ _ rfl
    -- The change is made first. Those who are told of it leave the root ready.
    have hready : (w.setCell root (.machine (m.commit (m.changeBelow (.machine machine)
        event)))).Ready number root :=
      ⟨hw.engine, _, World.machine?_setCell_self hm, Nat.le_succ_of_le hkept.since, hkept.pending⟩
    refine (gives_notify_leavesRoot hhost root _ _).mono fun _ w₁ hw₁ => ⟨hw₁.ready hready, ?_⟩
    refine ⟨[_], (World.Chronicle.start.noted hm).rests hw₁.record, ?_, fun _ => ⟨_, rfl, rfl⟩⟩
    exact fun hzero => absurd hdeep (Nat.not_lt.2 (Nat.le_of_eq hzero))
  · rename_i hroot
    exact gives_pure ⟨hw, [], .start, fun _ => rfl, fun hdeep => absurd hdeep hroot⟩

/-- **What the root tells of an event**, from `m` to `m'` through `moves` and `notes`: without an
outcome nothing, with one at depth 0 at least one move, and with one below moves on exits and one
note. `m'.current.since` is another one exactly if `moves ≠ []`. -/
structure Machine.Tells {σ : Type} (event : Event) (outcome? : Option Outcome) (m m' : Machine σ)
    (moves notes : List Change) : Prop where
  nothing : outcome? = none → moves = [] ∧ notes = [] ∧ m'.current = m.current ∧
    m'.revision = m.revision ∧ m'.change? = m.change?
  atRoot : ∀ outcome, outcome? = some outcome → outcome.depth = 0 → moves ≠ [] ∧ notes = [] ∧
    m'.revision = m.revision + moves.length
  below : ∀ outcome, outcome? = some outcome → 0 < outcome.depth →
    (∀ change ∈ moves, change.event.IsExit) ∧ m'.revision = m.revision + moves.length + 1 ∧
    ∃ note, notes = [note] ∧ m'.change? = some note ∧
      note.event = .childChange (.machine outcome.machine) event ∧
      note.source = m'.current ∧ note.target = m'.current
  identity : m'.current.since ≠ m.current.since ↔ moves ≠ []

/-- **`World.Passage` adds `moves` and then `notes` to the record of the root**, with the cases of
`Machine.Tells`. -/
theorem World.Passage.chronicle {offers : List (Offer ρ γ)}
    (h : World.Passage host number e event w w' offers outcome?)
    (hhost : host.LeavesRoot number e.root) (hw : w.Ready number e.root)
    (hdiscreet : ∀ o ∈ offers, o.IsDiscreet number e.root) :
    w'.Ready number e.root ∧ ∃ moves notes,
      w.Chronicle e.root w' (moves.map .moved ++ notes.map .noted) ∧
      (outcome? = none → moves = [] ∧ notes = []) ∧
      (∀ outcome, outcome? = some outcome → outcome.depth = 0 → moves ≠ [] ∧ notes = []) ∧
      ∀ outcome, outcome? = some outcome → 0 < outcome.depth →
        (∀ change ∈ moves, change.event.IsExit) ∧ ∃ note, notes = [note] ∧
          note.event = .childChange (.machine outcome.machine) event := by
  cases h with
  | refused =>
    exact ⟨hw, [], [], .start, fun _ => ⟨rfl, rfl⟩, by rintro _ ⟨⟩, by rintro _ ⟨⟩⟩
  | declined hsync hround hnobody =>
    have hleaves := (Act.gives_sync_leavesRoot hhost number w).2 _ _ hsync
    obtain ⟨changes, last, hmoves, hlast, hnone, -⟩ := hround.moves hhost (hleaves.ready hw)
      (fun _ => ne_of_mem_rungs) hdiscreet
    obtain rfl := hnone (.inl (hnobody last (List.mem_of_getLast? hlast)))
    have hmoved := Moves.of_leavesRoot_moves hleaves hmoves
    exact ⟨hmoved.ready, [], [], hmoved.chronicle, fun _ => ⟨rfl, rfl⟩, by rintro _ ⟨⟩,
      by rintro _ ⟨⟩⟩
  | @taken w₀ w₁ w₂ w₃ w' levels offers exits last outcome hsync hround hlast houtcome hrising hnote
      hsync' =>
    -- The record grows in the round, while exits rise, and with the note, one after the other.
    have hleaves := (Act.gives_sync_leavesRoot hhost number w).2 _ _ hsync
    obtain ⟨changes, last', hmoves, hlast', hnone, hsome⟩ := hround.moves hhost
      (hleaves.ready hw) (fun _ => ne_of_mem_rungs) fun o ho =>
        hdiscreet o (List.mem_append_left _ ho)
    rw [hlast] at hlast'
    cases hlast'
    obtain ⟨rises, hrises, hexits⟩ := hrising.moves hhost hmoves.ready fun o ho =>
      hdiscreet o (List.mem_append_right _ ho)
    have hmoved := Moves.of_leavesRoot_moves hleaves (hmoves.trans hrises)
    obtain ⟨hready, notes, hnotes, hzero, hdeep⟩ :=
      (Act.gives_noteHandled hhost hmoved.ready event last.depth outcome.machine).2 _ _ hnote
    have hleaves' := (Act.gives_sync_leavesRoot hhost number w₃).2 _ _ hsync'
    refine ⟨hleaves'.ready hready, changes ++ rises, notes,
      (hmoved.chronicle.trans hnotes).rests hleaves'.record, by rintro ⟨⟩, ?_, ?_⟩
    · rintro _ ⟨⟩ hdepth
      obtain ⟨first, rest, rfl, -⟩ := hsome (Option.isSome_iff_exists.2 ⟨_, houtcome⟩) hdepth
      exact ⟨by simp, hzero hdepth⟩
    · rintro _ ⟨⟩ hdepth
      obtain rfl := hnone (.inr hdepth)
      exact ⟨hexits, hdeep hdepth⟩

/-- `Gapless []` keeps `current`, `revision` and `change?`. -/
theorem Machine.Gapless.eq_of_nil {σ : Type} {m m' : Machine σ} (h : m.Gapless [] m') :
    m'.current = m.current ∧ m'.revision = m.revision ∧ m'.change? = m.change? :=
  ⟨h.current_eq, h.revision, h.change?⟩

/-- `Gapless` with a note as its last entry: `m'.change?` is this note, and it is about
`m'.current`. -/
theorem Machine.Gapless.eq_of_noted {σ : Type} {m m' : Machine σ} {entries : List Entry}
    {note : Change} (h : m.Gapless (entries ++ [.noted note]) m') :
    m'.change? = some note ∧ note.source = m'.current ∧ note.target = m'.current := by
  have hlast : m'.current = note.target := by
    rw [h.current_eq, Machine.stateAfter, List.getLast?_concat]
    rfl
  obtain ⟨hsame, -⟩ := h.noted note (List.mem_append_right _ (List.mem_singleton_self _))
  refine ⟨?_, by rw [hlast, hsame], hlast.symm⟩
  rw [h.change?, List.getLast?_concat]
  rfl

namespace Act

/-- **The root reports every event that is handled.** Let the surroundings leave the root alone
(`Host.LeavesRoot`). When `Act.handle` runs with an event that is not reserved, `World.Passage`
holds with the `offers` that are made of the event and of the exits that rise after it. If these are
discreet as well (`Offer.IsDiscreet`), then what is added to the record of the root are `moves` and
then `notes` (`World.Chronicle`), without a gap (`Machine.Gapless`), and `Machine.Tells` says which:
nothing without an outcome, at least one move if the outcome has depth 0, and at a greater depth
moves on exits only and one note with the child and the event, in the state that the root is in. The
state of the root is another one exactly if `moves ≠ []`. -/
theorem root_reports (hhost : host.LeavesRoot number e.root) (he : w.engines[number]? = some e)
    {m : Machine (StatePlan ρ)} (hm : w.machine? e.root = some m) (hkept : m.IsWellKept)
    (hdomain : event.isReserved = false)
    (hrun : (handle host number event).run w = some (outcome?, w')) :
    ∃ offers, World.Passage host number e event w w' offers outcome? ∧
      ((∀ o ∈ offers, o.IsDiscreet number e.root) → ∃ m' moves notes,
        w'.machine? e.root = some m' ∧ m'.IsWellKept ∧
        w.Chronicle e.root w' (moves.map .moved ++ notes.map .noted) ∧
        m.Gapless (moves.map .moved ++ notes.map .noted) m' ∧
        m.Tells event outcome? m' moves notes) := by
  obtain ⟨offers, hpassage⟩ := (gives_handle_passage he hdomain).2 outcome? w' hrun
  refine ⟨offers, hpassage, fun hdiscreet => ?_⟩
  obtain ⟨⟨-, m', hm', hkept'⟩, moves, notes, hchronicle, hnothing, hroot, hbelow⟩ :=
    hpassage.chronicle hhost ⟨⟨e, he, rfl⟩, m, hm, hkept⟩ hdiscreet
  obtain ⟨m₁, hm₁, hgapless⟩ := hchronicle.exists_gapless hm hkept.since
  rw [hm'] at hm₁
  cases hm₁
  have hrevision := hgapless.revision
  rw [List.length_append, List.length_map, List.length_map] at hrevision
  -- Notes leave the state as it is, so its identity tells whether a state was entered.
  have hidentity : m'.current.since ≠ m.current.since ↔ moves ≠ [] := by
    rw [hchronicle.since_ne_iff hm hkept.since hm']
    cases moves with
    | nil => simp
    | cons first rest => simp
  refine ⟨m', moves, notes, hm', hkept', hchronicle, hgapless, fun hnone => ?_,
    fun outcome houtcome hdepth => ?_, fun outcome houtcome hdepth => ?_, hidentity⟩
  · obtain ⟨rfl, rfl⟩ := hnothing hnone
    exact ⟨rfl, rfl, hgapless.eq_of_nil⟩
  · obtain ⟨hmoves, rfl⟩ := hroot outcome houtcome hdepth
    exact ⟨hmoves, rfl, hrevision⟩
  · obtain ⟨hexits, note, rfl, hevent⟩ := hbelow outcome houtcome hdepth
    obtain ⟨hchange, hsource, htarget⟩ := hgapless.eq_of_noted
    exact ⟨hexits, hrevision, note, rfl, hchange, hevent, hsource, htarget⟩

end Act

/-! ## A counter that reports -/

/-- `Surroundings.quiet` leaves every root alone. -/
theorem Surroundings.leavesRoot_quiet (depth number : Nat) (root : Link) :
    ((quiet : Surroundings ρ γ).host (depth + 1)).LeavesRoot number root :=
  ⟨fun _ _ w => Act.gives_pure (.refl w), fun _ _ w => Act.gives_pure (.refl w),
    fun _ _ w => Act.gives_pure (.refl w), fun _ w => Act.gives_pure (.refl w)⟩

/-- **`tryLevel` for a shell leaves the root alone** if the machine inside is another one and in no
engine. -/
theorem Act.gives_tryLevel_shell {around : Surroundings ρ γ} {nesting : Nat} {rung : Level}
    {id : MachineId} {inner : Link} {isMute : Bool} {hiddenIn : Option String}
    {m : Machine (StatePlan ρ)} (hhost : (around.host nesting).LeavesRoot number root)
    (hcell : w.cell? rung.link = some (.shell id inner isMute hiddenIn))
    (hm : w.machine? inner = some m) (hfree : m.engine? = none) (hne : inner ≠ root) :
    Gives False (tryLevel (around.host (nesting + 1)) rung event) w fun _ w' =>
      w.LeavesRoot number root w' := by
  have hshell : w.machine? rung.link = none := by
    cases hmachine : w.machine? rung.link with
    | none => rfl
    | some m' =>
      rw [World.machine?_eq_some_iff, hcell] at hmachine
      cases hmachine
  have htried : Gives False (tryOn (around.host (nesting + 1)) rung.link event) w fun attempt w' =>
      attempt = .unsupported ∧ w = w' := by
    refine gives_get ?_
    rw [hshell]
    exact gives_pure ⟨rfl, rfl⟩
  -- The machine inside belongs to no engine, so what is delivered to it is handled by itself.
  have hdelivered : Gives False ((around.host (nesting + 1)).deliver inner event) w fun _ w' =>
      w.LeavesRoot number root w' := by
    show Gives False (dispatch (around.host nesting) inner event) w _
    rw [dispatch]
    refine gives_get ?_
    simp only [hm, hfree, Option.filter_none]
    exact ((hhost.echoes w).steps.dispatchLocal hne event (.refl w)).gives
  have hsent : Gives False (send (around.host (nesting + 1)) rung.link event) w fun _ w' =>
      w.LeavesRoot number root w' := by
    rw [send]
    refine gives_get ?_
    simp only [hcell]
    exact gives_bind hdelivered fun _ _ hw₁ => gives_pure hw₁
  refine gives_bind htried ?_
  rintro _ _ ⟨rfl, rfl⟩
  refine gives_bind hsent fun outcome? w₁ hw₁ => ?_
  cases outcome? with
  | some outcome => exact gives_pure hw₁
  | none =>
    refine gives_get ?_
    dsimp only
    split
    · split
      · exact gives_pure hw₁
      · exact gives_pure hw₁
    · exact gives_pure hw₁

/-- The machine inside the shell at `link`, if it is in no engine. -/
def World.innerAt? (w : World ρ γ) (link : Link) : Option Link :=
  match w.cell? link with
  | some (.shell _ inner _ _) =>
    match w.machine? inner with
    | some m => if m.engine?.isNone then some inner else none
    | none => none
  | _ => none

/-- `innerAt?` is the machine inside a shell, and in no engine. -/
theorem World.exists_of_innerAt? {inner : Link} (h : w.innerAt? link = some inner) :
    ∃ id isMute hiddenIn m, w.cell? link = some (.shell id inner isMute hiddenIn) ∧
      w.machine? inner = some m ∧ m.engine? = none := by
  rw [innerAt?] at h
  split at h
  · rename_i hcell
    split at h
    · rename_i hm
      split at h
      · rename_i hfree
        cases h
        exact ⟨_, _, _, _, hcell, hm, Option.isNone_iff_eq_none.1 hfree⟩
      · cases h
    · cases h
  · cases h

/-- `World.Round` with one child that takes the event has one offer. -/
theorem World.Round.eq_single {rung : Level} {offers : List (Offer ρ γ)}
    (h : World.Round host root event [(rung, depth)] w w' offers)
    (htaken : ((Act.tryLevel host rung event).run w).map (·.1.isSome) = some true) :
    ∃ outcome, (Act.tryLevel host rung event).run w = some (some outcome, w') ∧
      offers = [⟨rung.link, depth, some rung.snapshot, w, w', some outcome⟩] := by
  cases h with
  | taken hrun => exact ⟨_, hrun, rfl⟩
  | passed hrun =>
    rw [hrun] at htaken
    cases htaken

/-- `World.Rising` from depth 1 offers to the root alone, so that all offers are discreet. -/
theorem World.Rising.isDiscreet {offers : List (Offer ρ γ)}
    (h : World.Rising host number e depth w w' offers) (hdepth : depth = 1) :
    ∀ o ∈ offers, o.IsDiscreet number root := by
  cases h with
  | still => rintro _ ⟨⟩
  | root =>
    rintro o ho ⟨hshown, -⟩
    rw [List.mem_singleton.1 ho] at hshown
    cases hshown
  | parent => cases hdepth

/-- **`World.Passage` has discreet offers only**, if the only child is a shell around a machine in
no engine, and it takes the event with no newcomers below it. -/
theorem World.Passage.isDiscreet {around : Surroundings ρ γ} {nesting : Nat}
    {offers : List (Offer ρ γ)} {rung : Level × Nat} {w₀ w₁ : World ρ γ} {inner : Link}
    (h : World.Passage (around.host (nesting + 1)) number e event w w' offers outcome?)
    (hhost : (around.host nesting).LeavesRoot number e.root) (hrungs : w.rungs e = [rung])
    (hw₀ : w₀ = (Act.sync (around.host (nesting + 1)) number).after w)
    (hw₁ : w₁ = (Act.tryLevel (around.host (nesting + 1)) rung.1 event).after w₀)
    (htaken : ((Act.tryLevel (around.host (nesting + 1)) rung.1 event).run w₀).map (·.1.isSome) =
      some true)
    (hinner : w₀.innerAt? rung.1.link = some inner) (hne : inner ≠ e.root)
    (hnewcomers : rung.2 + (w₁.newcomers number rung.2
      ((w.chain e).map fun level => w₀.id? level.link)).length = 1) :
    ∀ o ∈ offers, o.IsDiscreet number e.root := by
  obtain ⟨rung, depth⟩ := rung
  cases h with
  | refused => rintro _ ⟨⟩
  | declined hsync hround hnobody =>
    rw [hrungs, Act.eq_after hsync, ← hw₀] at hround
    obtain ⟨outcome, -, rfl⟩ := hround.eq_single htaken
    cases hnobody _ (List.mem_singleton_self _)
  | taken hsync hround hlast houtcome hrising hnote hsync' =>
    -- The worlds in between are those that the hypotheses compute with.
    have hfirst := Act.eq_after hsync
    rw [← hw₀] at hfirst
    subst hfirst
    rw [hrungs] at hround
    obtain ⟨outcome, hrun, rfl⟩ := hround.eq_single htaken
    cases hlast
    have hsecond := Act.eq_after hrun
    rw [← hw₁] at hsecond
    subst hsecond
    intro o ho
    rcases List.mem_append.1 ho with hoffer | hexit
    · obtain ⟨id, isMute, hiddenIn, m, hcell, hm, hfree⟩ := exists_of_innerAt? hinner
      rw [List.mem_singleton.1 hoffer]
      exact fun _ => (Act.gives_tryLevel_shell hhost hcell hm hfree hne).2 _ _ hrun
    · exact hrising.isDiscreet hnewcomers o hexit

/-- `root_reports` for `World.counter none` and `"serve"`, which the clerk at depth 1 takes. -/
theorem Act.counter_reports :
    ∃ w' outcome? m, (World.counter none).engines[0]? = some (World.counterEngine none) ∧
      (World.counter none).machine? (World.counterEngine none).root = some m ∧ m.IsWellKept ∧
      (handle Host.counter 0 (.domain "serve" [])).run (World.counter none) =
        some (outcome?, w') ∧ outcome?.map (·.depth) = some 1 ∧
      ∃ m' moves notes, w'.machine? (World.counterEngine none).root = some m' ∧
        m.Gapless (moves.map .moved ++ notes.map .noted) m' ∧
        m.Tells (.domain "serve" []) outcome? m' moves notes := by
  let w : World Unit Unit := World.counter none
  let e := World.counterEngine none
  let rung := (w.rungs e).headD default
  let w₀ := (sync Host.counter 0).after w
  let w₁ := (tryLevel Host.counter rung.1 (.domain "serve" [])).after w₀
  let inner := (w₀.innerAt? rung.1.link).getD default
  let m := (w.machine? e.root).getD default
  -- What can be computed is computed once, from the names above.
  have hsome : (w.engines[0]?).isSome = true := by decide +kernel
  have hmachine : (w.machine? e.root).isSome = true := by decide +kernel
  have hkept : m.current.since ≤ m.revision ∧ m.pending = [] := by decide +kernel
  have hlength : (w.rungs e).length = 1 := by decide +kernel
  have hserved : ((handle Host.counter 0 (.domain "serve" [])).run w).map
      (fun served => served.1.map (·.depth)) = some (some 1) := by decide +kernel
  have htaken : ((tryLevel Host.counter rung.1 (.domain "serve" [])).run w₀).map (·.1.isSome) =
      some true := by decide +kernel
  have hinner : w₀.innerAt? rung.1.link = some inner ∧ inner ≠ e.root := by decide +kernel
  have hnewcomers : rung.2 + (w₁.newcomers 0 rung.2
      ((w.chain e).map fun level => w₀.id? level.link)).length = 1 := by decide +kernel
  have he : w.engines[0]? = some e := by
    obtain ⟨e', he'⟩ := Option.isSome_iff_exists.1 hsome
    show _ = some ((w.engines[0]?).getD default)
    rw [he', Option.getD_some]
  have hm : w.machine? e.root = some m := by
    obtain ⟨m', hm'⟩ := Option.isSome_iff_exists.1 hmachine
    show _ = some ((w.machine? e.root).getD default)
    rw [hm', Option.getD_some]
  have hrungs : w.rungs e = [rung] := by
    obtain ⟨first, hfirst⟩ := List.length_eq_one_iff.1 hlength
    show _ = [(w.rungs e).headD default]
    rw [hfirst, List.headD_cons]
  have hw₀ : w₀ = (sync Host.counter 0).after w := rfl
  have hw₁ : w₁ = (tryLevel Host.counter rung.1 (.domain "serve" [])).after w₀ := rfl
  have hwellKept : m.IsWellKept := by
    refine ⟨hkept.1, fun event hevent => ?_⟩
    rw [hkept.2] at hevent
    cases hevent
  obtain ⟨⟨outcome?, w'⟩, hrun, hdepth⟩ := Option.map_eq_some_iff.1 hserved
  obtain ⟨offers, hpassage, hreports⟩ :=
    root_reports (Surroundings.leavesRoot_quiet 1 0 e.root) he hm hwellKept rfl hrun
  have hdiscreet := hpassage.isDiscreet (Surroundings.leavesRoot_quiet 0 0 e.root) hrungs hw₀ hw₁
    htaken hinner.1 hinner.2 hnewcomers
  obtain ⟨m', moves, notes, hm', -, -, hgapless, htells⟩ := hreports hdiscreet
  exact ⟨w', outcome?, m, he, hm, hwellKept, hrun, hdepth, m', moves, notes, hm', hgapless, htells⟩

end Statechart
