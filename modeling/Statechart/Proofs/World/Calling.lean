import Statechart.Proofs.World.Course

/-! # Subscribers that call back

A subscriber that learns of a change may give events to the hierarchy and to its machines, while the
event behind the change is still being handled. Any machine may have moved when it is done. What
lasts is the hierarchy: its engine is in use, and it knows who knows it. This is enough for the
engine to bring registrations in line in the end.

* **`World.Kept`**: a hierarchy in use, with an engine that knows who knows it.
* **`World.Lasts`**: a hierarchy is kept while machines move.
* `Host.IsSteady`: subscribers that let a hierarchy last.
* `Act.lasts_dispatchLocal`: it lasts when a machine handles an event by itself.
* **`Act.lasts_route`**: it lasts when its engine routes an event, and a domain event leaves
  registrations in line. -/

namespace Statechart

variable {ρ γ : Type} {settings : MachineConfig → Prop} {number depth : Nat} {root link : Link}
  {host : Host ρ γ} {kept : Link → Prop} {w w' w'' : World ρ γ} {e : Engine} {event : Event}
  {m : Machine (StatePlan ρ)}

/-! ## A hierarchy that lasts -/

namespace World

/-- **The hierarchy around `root` is kept**: the world is tidy, the engine `number` is there and in
use, no other one is busy, and `Consistent` holds. -/
structure Kept (settings : MachineConfig → Prop) (number : Nat) (root : Link) (w : World ρ γ) :
    Prop where
  tidy : w.Tidy settings
  tree : w.tree? = some number
  busy : ∀ other ∈ w.busy, other = number
  engine : ∃ e, w.engines[number]? = some e ∧ e.root = root
  consistent : w.Consistent number

/-- **The hierarchy lasts**: it is `Kept` afterwards, and no machine is lost. -/
structure Lasts (settings : MachineConfig → Prop) (number : Nat) (root : Link) (w w' : World ρ γ) :
    Prop where
  kept : w'.Kept settings number root
  stays : w.Stays (fun _ => False) w'

/-- `engineInUse?` is the engine `number`. -/
theorem Kept.engineInUse?_eq (h : w.Kept settings number root) (he : w.engines[number]? = some e) :
    w.engineInUse? = some (number, e) := by
  rw [engineInUse?, h.tree, Option.bind_some, he]
  rfl

/-- The engine of `Kept`, whose root is a machine. -/
theorem Kept.exists_engine (h : w.Kept settings number root) :
    ∃ e, w.engines[number]? = some e ∧ e.root = root ∧ w.Routes number e ∧
      w.HasMachine e.root := by
  obtain ⟨e, he, hroot⟩ := h.engine
  obtain ⟨e', he', hregisters⟩ := h.consistent
  rw [he] at he'
  cases he'
  exact ⟨e, he, hroot, ⟨e, he, rfl, rfl⟩, hregisters.root⟩

/-- `isAlive other` if and only if `other = number`. -/
theorem Kept.isAlive_iff (h : w.Kept settings number root) (other : Nat) :
    w.isAlive other = true ↔ other = number := by
  rw [isAlive, h.tree, Bool.or_eq_true, beq_iff_eq, Option.some.injEq, List.contains_iff_mem]
  constructor
  · rintro (rfl | hbusy)
    · rfl
    · exact h.busy other hbusy
  · exact fun heq => Or.inl heq.symm

/-- `Lasts` is reflexive where `Kept` holds. -/
theorem Lasts.refl (h : w.Kept settings number root) : w.Lasts settings number root w :=
  ⟨h, .refl _ w⟩

/-- `Lasts` is transitive. -/
theorem Lasts.trans (h : w.Lasts settings number root w') (h' : w'.Lasts settings number root w'') :
    w.Lasts settings number root w'' :=
  ⟨h'.kept, h.stays.trans h'.stays⟩

/-- `Lasts` holds if `Stays` and `Consistent` do. -/
theorem Kept.lasts (h : w.Kept settings number root) (hw' : w'.Tidy settings)
    (hstays : w.Stays kept w') (hconsistent : w'.Consistent number) :
    w.Lasts settings number root w' := by
  obtain ⟨e, he, hroot⟩ := h.engine
  obtain ⟨e', he', hroot', -⟩ := hstays.engine number e he
  refine ⟨⟨hw', hstays.tree.trans h.tree, ?_, ⟨e', he', hroot'.trans hroot⟩, hconsistent⟩,
    ⟨fun link m hm => ?_, hstays.engine, hstays.tree, hstays.busy⟩⟩
  · rw [hstays.busy]
    exact h.busy
  · obtain ⟨m', hm', hid, -⟩ := hstays.machine link m hm
    exact ⟨m', hm', hid, False.elim⟩

/-- `Lasts` holds if `Passes` does. -/
theorem Kept.lasts_of_passes (h : w.Kept settings number root) (hw' : w'.Tidy settings)
    (hpasses : w.Passes kept w') : w.Lasts settings number root w' :=
  h.lasts hw' hpasses.toStays (h.consistent.of_passes hpasses)

/-- `Lasts` holds while the world `Idles`. -/
theorem Kept.lasts_of_idles (h : w.Kept settings number root) (hidles : w.Idles settings w') :
    w.Lasts settings number root w' :=
  h.lasts_of_passes hidles.1 hidles.2

/-- `Lasts` holds while one machine moves (`MovesAt`). -/
theorem Kept.lasts_of_movesAt (h : w.Kept settings number root)
    (hmoves : w.MovesAt settings link w') : w.Lasts settings number root w' :=
  h.lasts_of_passes hmoves.1 hmoves.2

/-- `Kept` holds with `number` in `busy`. -/
theorem Kept.whileBusy (h : w.Kept settings number root) :
    { w with busy := number :: w.busy }.Kept settings number root := by
  refine ⟨h.tidy.of_eq rfl rfl (Nat.le_refl _), h.tree, ?_, h.engine, h.consistent.of_eq rfl rfl⟩
  intro other hother
  rcases List.mem_cons.1 hother with rfl | hother
  · rfl
  · exact h.busy other hother

/-- `Lasts` with `number` in `busy` is `Lasts` once that is over. -/
theorem Lasts.whileBusy (h : w.Kept settings number root)
    (hlasts : { w with busy := number :: w.busy }.Lasts settings number root w') :
    w.Lasts settings number root { w' with busy := w'.busy.drop 1 } := by
  obtain ⟨hkept, hstays⟩ := hlasts
  have hbusy : w'.busy.drop 1 = w.busy := by
    rw [hstays.busy]
    rfl
  refine ⟨⟨hkept.tidy.of_eq rfl rfl (Nat.le_refl _), hkept.tree, ?_, hkept.engine,
    hkept.consistent.of_eq rfl rfl⟩, hstays.machine, hstays.engine, hstays.tree, hbusy⟩
  rw [hbusy]
  exact h.busy

end World

/-- **The subscribers let the hierarchy last**: `observe` is in `World.Lasts`, and the rest
`IsCalm`. -/
structure Host.IsSteady (settings : MachineConfig → Prop) (number : Nat) (root : Link)
    (host : Host ρ γ) : Prop extends Host.IsCalm settings host False where
  observe : ∀ subscriber change w, w.Kept settings number root →
    Act.Gives False (host.observe subscriber change) w fun _ w' => w.Lasts settings number root w'

namespace Act

/-! ## One machine -/

/-- `notify` is `Lasts`. -/
theorem lasts_notify (hhost : host.IsSteady settings number root) {change : Change}
    (h : w.Kept settings number root) :
    Gives False (notify host link change) w fun _ w' => w.Lasts settings number root w' := by
  rw [notify]
  refine gives_get ?_
  split
  · exact gives_pure (.refl h)
  · refine gives_forM (.refl h) fun subscriber _ w₁ hw₁ => ?_
    exact (hhost.observe subscriber change w₁ hw₁.kept).mono fun _ _ hw₂ => hw₁.trans hw₂

/-- `commit` and then `notify` is `Lasts`. -/
theorem lasts_commit (hhost : host.IsSteady settings number root) {change : Change}
    (h : w.Kept settings number root) (hm : w.machine? link = some m)
    (hchild : change.target.state.Within w.HasMachine) :
    Gives False (do setCell link (.machine (m.commit change))
                    notify host link change : Act ρ γ Unit) w fun _ w' =>
      w.Lasts settings number root w' := by
  have hset : w.MovesAt settings link (w.setCell link (.machine (m.commit change))) :=
    .setCell h.tidy hm rfl rfl rfl rfl rfl hchild
  refine gives_bind ends_setCell.gives ?_
  rintro _ _ rfl
  have hlasts := h.lasts_of_movesAt hset
  exact (lasts_notify hhost hlasts.kept).mono fun _ _ hw₁ => hlasts.trans hw₁

/-- `noteBelow` is `Lasts`. -/
theorem lasts_noteBelow (hhost : host.IsSteady settings number root) {child : ChildRef}
    (h : w.Kept settings number root) :
    Gives False (noteBelow host link child event) w fun _ w' =>
      w.Lasts settings number root w' := by
  rw [noteBelow]
  refine gives_get ?_
  split
  · exact gives_pure (.refl h)
  · rename_i m hm
    exact lasts_commit hhost h hm (h.tidy.children link m hm)

/-- `transition` is `Lasts`. -/
theorem lasts_transition (hhost : host.IsSteady settings number root) {found : Resolution}
    (h : w.Kept settings number root) (hm : w.machine? link = some m)
    (htarget : found.target.Within w.HasMachine) :
    Gives False (transition host link found) w fun result w' =>
      w.Lasts settings number root w' ∧ result ≠ none := by
  rw [transition]
  refine gives_get ?_
  simp only [hm]
  rw [← bind_assoc]
  refine gives_bind (lasts_commit hhost h hm htarget) fun _ w₁ hw₁ => ?_
  exact gives_pure ⟨hw₁, by rintro ⟨⟩⟩

/-- **`step` is `Lasts`**, and `Idles` without a result. -/
theorem lasts_step (hhost : host.IsSteady settings number root)
    (h : w.Kept settings number root) :
    Gives False (step host link event) w fun result w' => w.Lasts settings number root w' ∧
      (result = none → w.Idles settings w') ∧ (result.isSome = true → w'.HasMachine link) := by
  rw [step]
  refine gives_bind (gives_resolve hhost.toIsCalm False.elim h.tidy) ?_
  rintro (_ | found) w₁ ⟨hw₁, hfound⟩
  · exact gives_pure ⟨h.lasts_of_idles hw₁, fun _ => hw₁, by rintro ⟨⟩⟩
  · obtain ⟨htarget, m, hm, -⟩ := hfound found rfl
    have hlasts := h.lasts_of_idles hw₁
    obtain ⟨m₁, hm₁⟩ := hw₁.known link ⟨m, hm⟩
    refine (lasts_transition hhost hlasts.kept hm₁ htarget).mono ?_
    rintro result w₂ ⟨hw₂, hresult⟩
    exact ⟨hlasts.trans hw₂, fun hnone => absurd hnone hresult,
      fun _ => hw₂.stays.hasMachine ⟨m₁, hm₁⟩⟩

/-- `settle` is `Lasts`. -/
theorem lasts_settle (hhost : host.IsSteady settings number root) (followUps : List Event)
    (h : w.Kept settings number root) :
    Gives False (settle host link followUps) w fun _ w' => w.Lasts settings number root w' := by
  refine gives_settle (fun _ hw₁ => hw₁.kept.tidy)
    (fun _ _ hw₁ hmoves => hw₁.trans (hw₁.kept.lasts_of_movesAt hmoves)) ?_ followUps (.refl h)
  exact fun event w₁ hw₁ => (lasts_step hhost hw₁.kept).mono fun _ _ hw₂ => hw₁.trans hw₂.1

/-- **`dispatchLocal` is `Lasts`**, and `Idles` without an outcome. -/
theorem lasts_dispatchLocal (hhost : host.IsSteady settings number root)
    (h : w.Kept settings number root) :
    Gives False (dispatchLocal host link event) w fun outcome? w' =>
      w.Lasts settings number root w' ∧ (outcome? = none → w.Idles settings w') := by
  rw [dispatchLocal]
  refine gives_bind (lasts_step hhost h) ?_
  rintro (_ | ⟨change, followUps⟩) w₁ ⟨hw₁, hidles, hthere⟩
  · exact gives_get (gives_pure ⟨hw₁, fun _ => hidles rfl⟩)
  · obtain ⟨m₁, hm₁⟩ := hthere rfl
    refine gives_get ?_
    simp only [hm₁]
    refine gives_bind (lasts_settle hhost _ hw₁.kept) fun _ w₂ hw₂ => ?_
    exact gives_pure ⟨hw₁.trans hw₂, by rintro ⟨⟩⟩

/-! ## The course of an event -/

/-- `tryLevel` is `Lasts`, and `Idles` without an outcome. -/
theorem lasts_tryLevel (hhost : host.IsSteady settings number root)
    (h : w.Kept settings number root) {rung : Level} (hrung : w.HasMachine rung.link) :
    Gives False (tryLevel host rung event) w fun outcome? w' =>
      w.Lasts settings number root w' ∧ (outcome? = none → w.Idles settings w') := by
  obtain ⟨m, hm⟩ := hrung
  exact (lasts_dispatchLocal hhost h).of_run_eq (tryLevel_run hm)

/-- `attemptLevels` is `Lasts`, and `Idles` without a result. -/
theorem lasts_attemptLevels (hhost : host.IsSteady settings number root)
    (rungs : List (Level × Nat)) (h : w.Kept settings number root)
    (hmachines : ∀ rung ∈ rungs, w.HasMachine rung.1.link) :
    Gives False (attemptLevels host event rungs) w fun result w' =>
      w.Lasts settings number root w' ∧ (result = none → w.Idles settings w') := by
  induction rungs generalizing w with
  | nil => exact gives_pure ⟨.refl h, fun _ => .refl h.tidy⟩
  | cons rung rest ih =>
    obtain ⟨level, depth⟩ := rung
    rw [attemptLevels]
    refine gives_bind (lasts_tryLevel hhost h (hmachines _ List.mem_cons_self)) ?_
    rintro (_ | outcome) w₁ ⟨hw₁, hidles⟩
    · have hrest : ∀ other ∈ rest, w₁.HasMachine other.1.link := fun other hother =>
        hw₁.stays.hasMachine (hmachines other (List.mem_cons_of_mem _ hother))
      exact (ih hw₁.kept hrest).mono fun _ _ hw₂ =>
        ⟨hw₁.trans hw₂.1, fun hnone => (hidles rfl).trans (hw₂.2 hnone)⟩
    · exact gives_pure ⟨hw₁, by rintro ⟨⟩⟩

/-- **`attempt` is `Lasts`**, and `Idles` without a result. -/
theorem lasts_attempt (hhost : host.IsSteady settings number root)
    (h : w.Kept settings number root) {levels : List Level}
    (hmachines : ∀ level ∈ levels, w.HasMachine level.link) :
    Gives False (attempt host link levels event) w fun result w' =>
      w.Lasts settings number root w' ∧ (result = none → w.Idles settings w') := by
  have hrungs : ∀ rung ∈ (levels.zipIdx 1).reverse, w.HasMachine rung.1.link := by
    intro rung hrung
    exact hmachines rung.1 (List.fst_mem_of_mem_zipIdx (List.mem_reverse.1 hrung))
  rw [attempt]
  refine gives_bind (lasts_attemptLevels hhost _ h hrungs) ?_
  rintro (_ | applied) w₁ ⟨hw₁, hidles⟩
  · refine gives_bind (lasts_dispatchLocal hhost hw₁.kept) ?_
    rintro (_ | outcome) w₂ ⟨hw₂, hidles₂⟩
    · exact gives_pure ⟨hw₁.trans hw₂, fun _ => (hidles rfl).trans (hidles₂ rfl)⟩
    · exact gives_pure ⟨hw₁.trans hw₂, by rintro ⟨⟩⟩
  · exact gives_pure ⟨hw₁, by rintro ⟨⟩⟩

/-- `tryExit` is `Lasts`. -/
theorem lasts_tryExit (hhost : host.IsSteady settings number root)
    (h : w.Kept settings number root) {levels : List Level}
    (hmachines : ∀ level ∈ levels, w.HasMachine level.link) :
    Gives False (tryExit host link levels event depth) w fun _ w' =>
      w.Lasts settings number root w' := by
  cases depth with
  | zero =>
    rw [tryExit]
    exact gives_bind (lasts_dispatchLocal hhost h) fun _ _ hw₁ => gives_pure hw₁.1
  | succ above =>
    rw [tryExit]
    split
    · exact gives_pure (.refl h)
    · rename_i parent hparent
      have hthere := hmachines parent (List.mem_of_getElem? hparent)
      exact gives_bind (lasts_tryLevel hhost h hthere) fun _ _ hw₁ => gives_pure hw₁.1

/-- **`bubbleFrom` is `Lasts`.** -/
theorem lasts_bubbleFrom (hhost : host.IsSteady settings number root) (depth : Nat)
    (h : w.Kept settings number root) (he : w.Routes number e) :
    Gives False (bubbleFrom host number e depth) w fun _ w' =>
      w.Lasts settings number root w' := by
  induction depth generalizing w with
  | zero => exact gives_pure (.refl h)
  | succ parent ih =>
    rw [bubbleFrom]
    refine gives_bind (gives_chainOf he) ?_
    rintro _ _ ⟨rfl, rfl⟩
    split
    · exact gives_pure (.refl h)
    · split
      · refine gives_get ?_
        split
        · exact gives_pure (.refl h)
        · refine gives_bind (lasts_tryExit hhost h fun level hlevel => ?_) fun isTaken w₁ hw₁ => ?_
          · -- An exit is tried at a machine of the chain.
            obtain ⟨m, hm, -⟩ := h.tidy.exists_of_mem_chain hlevel
            exact ⟨m, hm⟩
          · split
            · exact (ih hw₁.kept (hw₁.stays.routes he)).mono fun _ _ hw₂ => hw₁.trans hw₂
            · exact gives_pure hw₁
      · exact gives_pure (.refl h)

/-! ## An event for the hierarchy -/

/-- **`sync` is `Lasts`**, and gives `InLine`. -/
theorem lasts_sync (hhost : host.IsSteady settings number root)
    (h : w.Kept settings number root) (he : w.Routes number e) :
    Gives False (sync host number) w fun levels w' => levels = w.chain e ∧
      w.Lasts settings number root w' ∧ w'.InLine number := by
  have hmachine : w.HasMachine e.root := by
    obtain ⟨e', he', hroot, -⟩ := he
    obtain ⟨e₀, he₀, -, -, hmachine⟩ := h.exists_engine
    rw [he'] at he₀
    cases he₀
    rwa [hroot] at hmachine
  refine (gives_sync hhost.toIsCalm h.tidy he hmachine).mono ?_
  rintro levels w₁ ⟨hlevels, hw₁, hstays, -, hinLine⟩
  have hline := hinLine h.consistent
  exact ⟨hlevels, h.lasts hw₁ hstays hline.consistent, hline⟩

/-- **`handle` is `Lasts`**, and it keeps `InLine` if the event is not reserved. -/
theorem lasts_handle (hhost : host.IsSteady settings number root)
    (h : w.Kept settings number root) (event : Event) :
    Gives False (handle host number event) w fun _ w' => w.Lasts settings number root w' ∧
      (event.isReserved = false → w.InLine number → w'.InLine number) := by
  obtain ⟨e, he, -, hroutes, hroot⟩ := h.exists_engine
  rw [handle]
  refine gives_get ?_
  simp only [he]
  split
  · exact gives_pure ⟨.refl h, fun _ hline => hline⟩
  · split
    · -- The root handles a signal by itself, and registrations are left to be as they are.
      rename_i hsignal
      refine (lasts_dispatchLocal hhost h).mono fun _ w' hw' => ⟨hw'.1, fun hdomain => ?_⟩
      rw [hsignal] at hdomain
      cases hdomain
    · refine gives_bind (lasts_sync hhost h hroutes) ?_
      rintro _ w₁ ⟨rfl, hw₁, hline₁⟩
      have hmachines : ∀ level ∈ w.chain e, w₁.HasMachine level.link := by
        intro level hlevel
        obtain ⟨m, hm, -⟩ := h.tidy.exists_of_mem_chain hlevel
        exact hw₁.stays.hasMachine ⟨m, hm⟩
      refine gives_get ?_
      refine gives_bind (lasts_attempt hhost hw₁.kept hmachines) ?_
      rintro (_ | ⟨depth, outcome⟩) w₂ ⟨hw₂, hidles⟩
      · have hline₂ := hline₁.of_passes hw₁.kept.tidy (hidles rfl).2
        exact gives_pure ⟨hw₁.trans hw₂, fun _ _ => hline₂⟩
      · -- However far the machines have moved, the engine looks at the chain once more.
        have hlast : ∀ w₃, w₂.Lasts settings number root w₃ →
            Gives False (do discard (sync host number); return some outcome) w₃ fun _ w' =>
              w.Lasts settings number root w' ∧
                (event.isReserved = false → w.InLine number → w'.InLine number) := by
          intro w₃ hw₃
          have hroutes₃ := (hw₁.trans (hw₂.trans hw₃)).stays.routes hroutes
          have hsync : Gives False (discard (sync host number)) w₃ fun _ w' =>
              w₃.Lasts settings number root w' ∧ w'.InLine number :=
            gives_discard ((lasts_sync hhost hw₃.kept hroutes₃).mono fun _ _ hw' => hw'.2)
          refine gives_bind hsync fun _ w₄ hw₄ => gives_pure ?_
          exact ⟨(hw₁.trans (hw₂.trans hw₃)).trans hw₄.1, fun _ _ => hw₄.2⟩
        have hbubble : Gives False (bubble host number e depth
            ((w.chain e).map fun level => w₁.id? level.link)) w₂ fun _ w' =>
            w₂.Lasts settings number root w' := by
          have hroutes₂ := (hw₁.trans hw₂).stays.routes hroutes
          rw [bubble]
          refine gives_bind (gives_chainOf hroutes₂) ?_
          rintro _ _ ⟨rfl, rfl⟩
          exact gives_get (lasts_bubbleFrom hhost _ hw₂.kept hroutes₂)
        refine gives_bind hbubble fun _ w₃ hw₃ => ?_
        split
        · refine gives_bind (lasts_noteBelow hhost hw₃.kept) fun _ w₄ hw₄ => ?_
          exact hlast w₄ (hw₃.trans hw₄)
        · exact hlast w₃ hw₃

/-- `Gives` for an act while `number` is in `busy`. -/
theorem gives_whileBusy {α : Type} {total : Prop} {act : Act ρ γ α} {post : α → World ρ γ → Prop}
    (h : Gives total act { w with busy := number :: w.busy } fun a w' =>
      post a { w' with busy := w'.busy.drop 1 }) :
    Gives total (whileBusy number act) w post := by
  rw [whileBusy]
  have hpush : Gives total (modify fun w => { w with busy := number :: w.busy } : Act ρ γ Unit) w
      fun _ w' => w' = { w with busy := number :: w.busy } := gives_modify rfl
  refine gives_bind hpush ?_
  rintro _ _ rfl
  refine gives_bind h fun a w' hpost => ?_
  exact gives_bind (gives_modify hpost) fun _ _ hw' => gives_pure hw'

/-- **`route` is `Lasts`**, and it keeps `InLine` if the event is not reserved. -/
theorem lasts_route (hhost : host.IsSteady settings number root)
    (h : w.Kept settings number root) (event : Event) :
    Gives False (route host number event) w fun _ w' => w.Lasts settings number root w' ∧
      (event.isReserved = false → w.InLine number → w'.InLine number) := by
  rw [route]
  refine gives_whileBusy ((lasts_handle hhost h.whileBusy event).mono fun _ w' hw' => ?_)
  exact ⟨hw'.1.whileBusy h, fun hdomain hline =>
    (hw'.2 hdomain (hline.of_eq rfl rfl)).of_eq rfl rfl⟩

end Act

end Statechart
