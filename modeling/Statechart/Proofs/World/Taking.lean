import Statechart.Proofs.Ancestry
import Statechart.Proofs.World.Making
import Statechart.World.Routing

/-! # A machine takes an event

In a tidy world an event that arrives at a machine concerns this machine alone. Either it has no
answer, and then nothing happens to any machine; or it enters the state of its answer, perhaps with
follow-ups of its own, and nothing happens to any other machine. Machines are called plain here if
they look up an event at their states alone: then there are no follow-ups, and all of this comes to
an end.

* `World.MovesAt`: at most one machine moves.
* **`World.Declines`**, **`World.Takes`**: a machine has no answer to an event, or takes it.
* **`Act.gives_dispatchLocal`**: a machine that gets an event declines it or takes it. -/

namespace Statechart

variable {ρ γ : Type} {settings : MachineConfig → Prop} {plain : Prop} {host : Host ρ γ}
  {w w' w'' : World ρ γ} {link : Link} {m m' : Machine (StatePlan ρ)} {event : Event}

namespace World

/-! ## One machine at most -/

/-- **At most the machine at `link` moves**, and `w'` is tidy. -/
def MovesAt (settings : MachineConfig → Prop) (link : Link) (w w' : World ρ γ) : Prop :=
  w'.Tidy settings ∧ w.Passes (· ≠ link) w'

/-- `World.Idles` is `MovesAt` for any `link`. -/
theorem Idles.movesAt (h : w.Idles settings w') (link : Link) : w.MovesAt settings link w' :=
  ⟨h.1, h.2.mono fun _ _ => trivial⟩

/-- `MovesAt` is transitive. -/
theorem MovesAt.trans (h : w.MovesAt settings link w') (h' : w'.MovesAt settings link w'') :
    w.MovesAt settings link w'' :=
  ⟨h'.1, h.2.trans h'.2⟩

/-- `MovesAt` of `w.setCell link (.machine m')` if `m'` keeps identity, parts and `engine?` of
`m`. -/
theorem MovesAt.setCell (hw : w.Tidy settings) (hm : w.machine? link = some m) (hid : m'.id = m.id)
    (hfactory : m'.factory = m.factory) (htable : m'.table = m.table)
    (hconfig : m'.config = m.config) (hengine : m'.engine? = m.engine?)
    (hchild : m'.current.state.Within w.HasMachine) :
    w.MovesAt settings link (w.setCell link (.machine m')) :=
  ⟨hw.setCell hm hid ((hw.fits link m hm).of_parts hfactory htable hconfig) hchild,
    .setCell hm hid hengine fun hne => absurd rfl hne⟩

/-! ## Declining and taking -/

/-- **The machine at `link` declines `event`**: `Act.resolve` finds nothing, and no machine
moves. -/
structure Declines (host : Host ρ γ) (link : Link) (event : Event) (w w' : World ρ γ) : Prop where
  resolve : (Act.resolve host link event).run w = some (none, w')
  passes : w.Passes (fun _ => True) w'

/-- **A machine takes an event**: it has an answer, and no other machine moves. If machines are
`plain`, it enters the state of the answer and does nothing else. -/
structure Takes (plain : Prop) (host : Host ρ γ) (link : Link) (event : Event) (w w' : World ρ γ)
    (outcome : Outcome) : Prop where
  passes : w.Passes (· ≠ link) w'
  entered : ∃ m found w₁, w.machine? link = some m ∧
    (Act.resolve host link event).run w = some (some found, w₁) ∧
    outcome = m.outcome (m.changeTo event m.current found.target) ∧
    (plain → ∃ m', w'.machine? link = some m' ∧
      (m.commit (m.changeTo event m.current found.target)).Unmoved m')

/-- **What `Act.dispatchLocal` does to a world**, by its outcome: `World.Declines` without one,
`World.Takes` with one. -/
inductive Meets (plain : Prop) (host : Host ρ γ) (link : Link) (event : Event) (w w' : World ρ γ) :
    Option Outcome → Prop
  | declines : w.Declines host link event w' → World.Meets plain host link event w w' none
  | takes {outcome : Outcome} : w.Takes plain host link event w' outcome →
    World.Meets plain host link event w w' (some outcome)

/-- `World.Meets` moves no machine but the one at `link`. -/
theorem Meets.passes {outcome? : Option Outcome} (h : w.Meets plain host link event w' outcome?) :
    w.Passes (· ≠ link) w' := by
  cases h with
  | declines h => exact h.passes.mono fun _ _ => trivial
  | takes h => exact h.passes

/-- **The machine at `link` notes that `child` changed** by `inner`: its last change is
`m.changeBelow child inner`, its state is the same, and no other machine moves. -/
structure Notes (link : Link) (child : ChildRef) (inner : Event) (w w' : World ρ γ) : Prop where
  passes : w.Passes (· ≠ link) w'
  noted : ∃ m m', w.machine? link = some m ∧ w'.machine? link = some m' ∧
    (m.commit (m.changeBelow child inner)).Unmoved m'

end World

/-! ## One event at one machine -/

namespace Act

/-- A tidy world idles during `Act.firstMade`, and the child of the state that is found is a machine
of it. -/
theorem gives_firstMade (hhost : host.IsCalm settings plain) (hm : m.Fits settings w.HasMachine)
    {context : EventContext} {candidates : List (String × Spec (StatePlan ρ))}
    (hfits : ∀ candidate ∈ candidates, specFits settings w.HasMachine candidate.2)
    (hw : w.Tidy settings) :
    Gives plain (firstMade host m.factory context candidates) w fun found? w' =>
      w.Idles settings w' ∧ ∀ found, found? = some found → found.2.Within w'.HasMachine := by
  induction candidates generalizing w with
  | nil => exact gives_pure ⟨.refl hw, by rintro _ ⟨⟩⟩
  | cons candidate rest ih =>
    obtain ⟨key, spec⟩ := candidate
    have hrest := fun other hother => hfits other (List.mem_cons_of_mem _ hother)
    rw [firstMade]
    split
    · exact ih hm hrest hw
    · rename_i plan hplan
      have hplanFits := hm.resolve (hfits _ List.mem_cons_self) hplan
      refine gives_bind (plan.gives_realise hhost w hplanFits hw) ?_
      rintro (_ | state) w₁ ⟨hw₁, hstate⟩
      · -- A plan that came to nothing may still have made machines.
        have hrest₁ := fun other hother => specFits.mono hw₁.known _ (hrest other hother)
        exact (ih (hm.mono hw₁.known) hrest₁ hw₁.1).mono fun _ _ hw₂ =>
          ⟨hw₁.trans hw₂.1, hw₂.2⟩
      · refine gives_pure ⟨hw₁, ?_⟩
        rintro _ ⟨⟩
        exact hstate state rfl

/-- **A tidy world idles during `Act.resolve`.** It comes to an end unless some machine has
`Lookup.ancestors ""`. -/
theorem gives_resolve (hhost : host.IsCalm settings plain)
    (hcuts : plain → ∀ c, settings c → c.lookup ≠ .ancestors "") (hw : w.Tidy settings) :
    Gives plain (resolve host link event) w fun found? w' => w.Idles settings w' ∧
      ∀ found, found? = some found → found.target.Within w'.HasMachine ∧ ∃ m,
        w.machine? link = some m ∧ found.event = event ∧ found.source = m.current := by
  rw [resolve]
  refine gives_get ?_
  cases hm : w.machine? link with
  | none => exact gives_pure ⟨.refl hw, by rintro _ ⟨⟩⟩
  | some m =>
    have hfits := hw.fits link m hm
    dsimp only
    split
    · exact gives_pure ⟨.refl hw, by rintro _ ⟨⟩⟩
    · cases hcandidates : m.candidates? event with
      | none =>
        -- There is no last key to look under only if the delimiter is empty.
        exact ⟨fun ht => absurd (Machine.candidates?_eq_none_iff.1 hcandidates).1
          (hcuts ht m.config hfits.config), by rintro _ _ ⟨⟩⟩
      | some candidates =>
        have hspecs : ∀ candidate ∈ candidates, specFits settings w.HasMachine candidate.2 := by
          intro candidate hcandidate
          obtain ⟨keys, -, rfl⟩ := Option.map_eq_some_iff.1 hcandidates
          obtain ⟨key, -, hkey⟩ := List.mem_filterMap.1 hcandidate
          obtain ⟨spec, hspec, rfl⟩ := Option.map_eq_some_iff.1 hkey
          exact hfits.table key event.key spec hspec
        refine gives_bind (gives_firstMade hhost hfits hspecs hw) fun found? w₁ hw₁ => ?_
        refine gives_pure ⟨hw₁.1, fun found hfound => ?_⟩
        obtain ⟨made, hmade, rfl⟩ := Option.map_eq_some_iff.1 hfound
        exact ⟨hw₁.2 made hmade, m, rfl, rfl, rfl⟩

/-- A tidy world idles during `Act.notify`. -/
theorem gives_notify (hhost : host.IsTame settings plain) {change : Change} (hw : w.Tidy settings) :
    Gives plain (notify host link change) w fun _ w' => w.Idles settings w' := by
  rw [notify]
  refine gives_get ?_
  split
  · exact gives_pure (.refl hw)
  · refine gives_forM (.refl hw) fun subscriber _ w₁ hw₁ => ?_
    exact (hhost.observe subscriber change w₁ hw₁.1).mono fun _ _ hw₂ => hw₁.trans hw₂

/-- **`Machine.commit` and `Act.notify` move at most the machine at `link`.** -/
theorem gives_commit (hhost : host.IsTame settings plain) {change : Change} (hw : w.Tidy settings)
    (hm : w.machine? link = some m) (hchild : change.target.state.Within w.HasMachine) :
    Gives plain (do setCell link (.machine (m.commit change))
                    notify host link change : Act ρ γ Unit) w fun _ w' =>
      w.MovesAt settings link w' ∧
        ∃ m', w'.machine? link = some m' ∧ (m.commit change).Unmoved m' := by
  have hset : w.MovesAt settings link (w.setCell link (.machine (m.commit change))) :=
    .setCell hw hm rfl rfl rfl rfl rfl hchild
  refine gives_bind ends_setCell.gives ?_
  rintro _ _ rfl
  refine (gives_notify hhost hset.1).mono fun _ w₁ hw₁ => ⟨hset.trans (hw₁.movesAt link), ?_⟩
  obtain ⟨m', hm', -, hunmoved⟩ := hw₁.2.machine link _ (World.machine?_setCell_self hm)
  exact ⟨m', hm', hunmoved trivial⟩

/-- **`Act.transition` commits to `m.changeTo` the target of `found`**, and gives `m.followUps` of
it. -/
theorem gives_transition (hhost : host.IsTame settings plain) {found : Resolution}
    (hw : w.Tidy settings) (hm : w.machine? link = some m)
    (htarget : found.target.Within w.HasMachine) :
    Gives plain (transition host link found) w fun result w' => w.MovesAt settings link w' ∧
      result = some (m.changeTo found.event found.source found.target,
        m.followUps found.target) ∧
      ∃ m', w'.machine? link = some m' ∧
        (m.commit (m.changeTo found.event found.source found.target)).Unmoved m' := by
  rw [transition]
  refine gives_get ?_
  simp only [hm]
  rw [← bind_assoc]
  refine gives_bind (gives_commit hhost hw hm htarget) fun _ w₁ hw₁ => ?_
  exact gives_pure ⟨hw₁.1, rfl, hw₁.2⟩

/-- **`Act.noteBelow` gives `World.Notes`.** -/
theorem gives_noteBelow (hhost : host.IsTame settings plain) {child : ChildRef}
    (hw : w.Tidy settings) (hm : w.machine? link = some m) :
    Gives plain (noteBelow host link child event) w fun _ w' => w'.Tidy settings ∧
      w.Notes link child event w' := by
  rw [noteBelow]
  refine gives_get ?_
  simp only [hm]
  refine (gives_commit hhost hw hm (hw.children link m hm)).mono ?_
  rintro _ w' ⟨hmoves, m', hm', hunmoved⟩
  exact ⟨hmoves.1, hmoves.2, m, m', hm, hm', hunmoved⟩

/-- What `Act.step` does to a world, by its result: `World.Declines`, or a commitment to the target
that `Act.resolve` found. -/
def Stepped (settings : MachineConfig → Prop) (host : Host ρ γ) (link : Link) (event : Event)
    (w w' : World ρ γ) : Option (Change × List Event) → Prop
  | none => w.Declines host link event w' ∧ w'.Tidy settings
  | some (change, followUps) => w.MovesAt settings link w' ∧ ∃ m found w₁ m',
      w.machine? link = some m ∧ (resolve host link event).run w = some (some found, w₁) ∧
      change = m.changeTo event m.current found.target ∧ followUps = m.followUps found.target ∧
      w'.machine? link = some m' ∧ (m.commit change).Unmoved m'

/-- **`Act.step` gives `Act.Stepped`.** -/
theorem gives_step (hhost : host.IsTame settings plain)
    (hplain : plain → ∀ c, settings c → c.lookup = .exact) (hw : w.Tidy settings) :
    Gives plain (step host link event) w fun result w' =>
      Stepped settings host link event w w' result := by
  have hcuts : plain → ∀ c, settings c → c.lookup ≠ .ancestors "" := fun ht c hc hempty => by
    rw [hplain ht c hc] at hempty
    cases hempty
  rw [step]
  refine gives_bind (gives_resolve hhost.toIsCalm hcuts hw).with_run ?_
  rintro found? w₁ ⟨hrun, hw₁, hfound⟩
  cases found? with
  | none => exact gives_pure ⟨⟨hrun, hw₁.2⟩, hw₁.1⟩
  | some found =>
    obtain ⟨htarget, m, hm, rfl, hsource⟩ := hfound found rfl
    -- While the new state was made nothing happened to the machine.
    obtain ⟨m₁, hm₁, -, hunmoved⟩ := hw₁.2.machine link m hm
    have hunmoved := hunmoved trivial
    have hchange : m₁.changeTo found.event found.source found.target =
        m.changeTo found.event m.current found.target := by
      unfold Machine.changeTo
      rw [hunmoved.revision, hsource]
    have hfollowUps : m₁.followUps found.target = m.followUps found.target := by
      unfold Machine.followUps Machine.isTerminal
      rw [hunmoved.config, hunmoved.table]
    refine (gives_transition hhost hw₁.1 hm₁ htarget).mono ?_
    rintro _ w₂ ⟨hw₂, rfl, m₂, hm₂, hunmoved₂⟩
    refine ⟨(hw₁.movesAt link).trans hw₂, m, found, w₁, m₂, hm, hrun, hchange, hfollowUps, hm₂, ?_⟩
    exact (hunmoved.commit _).trans hunmoved₂

/-! ## Follow-ups -/

/-- `Act.updateMachine link f` gives `MovesAt`, if `f` keeps identity, parts, engine and state. -/
theorem gives_updateMachine {f : Machine (StatePlan ρ) → Machine (StatePlan ρ)}
    (hf : ∀ m, (f m).id = m.id ∧ (f m).factory = m.factory ∧ (f m).table = m.table ∧
      (f m).config = m.config ∧ (f m).engine? = m.engine? ∧ (f m).current = m.current)
    (hw : w.Tidy settings) :
    Gives plain (updateMachine link f) w fun (_ : Unit) w' => w.MovesAt settings link w' := by
  rw [updateMachine]
  refine gives_get ?_
  cases hm : w.machine? link with
  | none => exact gives_pure ((World.Idles.refl hw).movesAt link)
  | some m =>
    obtain ⟨hid, hfactory, htable, hconfig, hengine, hcurrent⟩ := hf m
    refine ends_setCell.gives.mono ?_
    rintro _ _ rfl
    exact .setCell hw hm hid hfactory htable hconfig hengine (hcurrent ▸ hw.children link m hm)

/-- `Act.pushPending` gives `MovesAt`. -/
theorem gives_pushPending (events : List Event) (hw : w.Tidy settings) :
    Gives plain (pushPending link events) w fun (_ : Unit) w' => w.MovesAt settings link w' :=
  gives_updateMachine (fun _ => ⟨rfl, rfl, rfl, rfl, rfl, rfl⟩) hw

/-- `Act.cancelPending` gives `MovesAt`. -/
theorem gives_cancelPending (hw : w.Tidy settings) :
    Gives plain (cancelPending link) w fun _ w' => w.MovesAt settings link w' := by
  rw [cancelPending]
  refine gives_get ?_
  cases hm : w.machine? link with
  | none => exact gives_pure ((World.Idles.refl hw).movesAt link)
  | some m =>
    refine gives_bind ends_setCell.gives ?_
    rintro _ _ rfl
    exact gives_pure (.setCell hw hm rfl rfl rfl rfl rfl (hw.children link m hm))

/-- `Act.popPending` gives `MovesAt`. -/
theorem gives_popPending (hw : w.Tidy settings) :
    Gives plain (popPending link) w fun _ w' => w.MovesAt settings link w' := by
  rw [popPending]
  refine gives_get ?_
  cases hm : w.machine? link with
  | none => exact gives_pure ((World.Idles.refl hw).movesAt link)
  | some m =>
    dsimp only
    split
    · exact gives_pure ((World.Idles.refl hw).movesAt link)
    · refine gives_bind ends_setCell.gives ?_
      rintro _ _ rfl
      exact gives_pure (.setCell hw hm rfl rfl rfl rfl rfl (hw.children link m hm))

/-- **`Act.flushWithin` keeps every `invariant`** that `MovesAt` and `Act.step` keep. -/
theorem gives_flushWithin {invariant : World ρ γ → Prop}
    (htidy : ∀ w, invariant w → w.Tidy settings)
    (hmoves : ∀ w w', invariant w → w.MovesAt settings link w' → invariant w')
    (hstep : ∀ event w, invariant w →
      Gives plain (step host link event) w fun _ w' => invariant w')
    (bound : Nat) (hw : invariant w) :
    Gives plain (flushWithin host link bound) w fun _ w' => invariant w' := by
  -- Every follow-up uses up one of those that are allowed.
  induction bound generalizing w with
  | zero =>
    have hcancel : Gives plain (cancelPending link) w fun _ w' => invariant w' :=
      (gives_cancelPending (htidy w hw)).mono fun _ w₁ hw₁ => hmoves w w₁ hw hw₁
    rw [flushWithin]
    exact gives_bind (gives_discard hcancel) fun _ _ hw₁ => gives_pure hw₁
  | succ bound ih =>
    rw [flushWithin]
    refine gives_bind (gives_popPending (htidy w hw)) fun event? w₁ hw₁ => ?_
    have hpopped := hmoves w w₁ hw hw₁
    cases event? with
    | none => exact gives_pure hpopped
    | some event =>
      refine gives_bind (hstep event w₁ hpopped) ?_
      rintro (_ | ⟨change, followUps⟩) w₂ hw₂
      · exact ih hw₂
      · refine gives_bind (gives_pushPending followUps (htidy w₂ hw₂)) fun _ w₃ hw₃ => ?_
        exact gives_bind (ih (hmoves w₂ w₃ hw₂ hw₃)) fun _ _ hw₄ => gives_pure hw₄

/-- **`Act.settle` keeps every `invariant`** that `MovesAt` and `Act.step` keep. -/
theorem gives_settle {invariant : World ρ γ → Prop}
    (htidy : ∀ w, invariant w → w.Tidy settings)
    (hmoves : ∀ w w', invariant w → w.MovesAt settings link w' → invariant w')
    (hstep : ∀ event w, invariant w →
      Gives plain (step host link event) w fun _ w' => invariant w')
    (followUps : List Event) (hw : invariant w) :
    Gives plain (settle host link followUps) w fun _ w' => invariant w' := by
  cases followUps with
  | nil => exact gives_pure hw
  | cons event rest =>
    refine gives_bind (gives_pushPending (event :: rest) (htidy w hw)) fun _ w₁ hw₁ => gives_get ?_
    -- Follow-ups that are queued are a move of the machine, and processing them is a run of steps.
    have hpushed := hmoves w w₁ hw hw₁
    split
    · exact gives_pure hpushed
    · rename_i m hm
      split
      · refine gives_discard ?_
        rw [flush]
        refine gives_get ?_
        simp only [hm]
        exact gives_flushWithin htidy hmoves hstep _ hpushed
      · exact gives_pure hpushed

/-- **`Act.settle` gives `MovesAt`**, and does nothing if there are no `followUps`. -/
theorem gives_settle_movesAt (hhost : host.IsTame settings plain)
    (hplain : plain → ∀ c, settings c → c.lookup = .exact) (followUps : List Event)
    (hw : w.Tidy settings) :
    Gives plain (settle host link followUps) w fun _ w' => w.MovesAt settings link w' ∧
      (followUps = [] → w' = w) := by
  cases followUps with
  | nil => exact gives_pure ⟨(World.Idles.refl hw).movesAt link, fun _ => rfl⟩
  | cons event rest =>
    have hstep : ∀ event w₁, w.MovesAt settings link w₁ →
        Gives plain (step host link event) w₁ fun _ w' => w.MovesAt settings link w' := by
      intro event w₁ hw₁
      refine (gives_step hhost hplain hw₁.1).mono ?_
      rintro (_ | ⟨change, followUps⟩) w₂ hw₂
      · exact hw₁.trans ⟨hw₂.2, hw₂.1.passes.mono fun _ _ => trivial⟩
      · exact hw₁.trans hw₂.1
    have hsettle := gives_settle (w := w) (fun _ hw₁ => hw₁.1) (fun _ _ hw₁ hw₂ => hw₁.trans hw₂)
      hstep (event :: rest) ((World.Idles.refl hw).movesAt link)
    exact hsettle.mono fun _ _ hw' => ⟨hw', by rintro ⟨⟩⟩

/-! ## All of it -/

/-- **`Act.dispatchLocal` gives `World.Meets`.** -/
theorem gives_dispatchLocal (hhost : host.IsTame settings plain)
    (hplain : plain → ∀ c, settings c → c.lookup = .exact) (hw : w.Tidy settings) :
    Gives plain (dispatchLocal host link event) w fun outcome? w' => w'.Tidy settings ∧
      w.Meets plain host link event w' outcome? := by
  rw [dispatchLocal]
  refine gives_bind (gives_step hhost hplain hw) ?_
  rintro (_ | ⟨change, followUps⟩) w₁ hw₁
  · exact gives_get (gives_pure ⟨hw₁.2, .declines hw₁.1⟩)
  · obtain ⟨hmoves, m, found, w₀, m₁, hm, hrun, rfl, rfl, hm₁, hunmoved⟩ := hw₁
    refine gives_get ?_
    simp only [hm₁]
    refine gives_bind (gives_settle_movesAt hhost hplain _ hmoves.1) ?_
    rintro _ w₂ ⟨hsettled, hnothing⟩
    have houtcome : m₁.outcome (m.changeTo event m.current found.target) =
        m.outcome (m.changeTo event m.current found.target) := by
      unfold Machine.outcome
      rw [hunmoved.id]
      rfl
    rw [houtcome]
    have hpasses := (hmoves.trans hsettled).2
    refine gives_pure ⟨hsettled.1, .takes ⟨hpasses, m, found, w₀, hm, hrun, rfl, ?_⟩⟩
    intro hall
    -- With one key to look under nothing can follow up.
    have hempty : m.followUps found.target = [] := by
      rw [Machine.followUps, hplain hall m.config (hw.fits link m hm).config]
    rw [hnothing hempty]
    exact ⟨m₁, hm₁, hunmoved⟩

end Act

end Statechart
