import Statechart.Proofs.World.Upkeep
import Statechart.World.Construction

/-! # Worlds that rest

A machine is in a state, and it has a record of its changes: the last one, their number and the
history. Much of what goes on in a world leaves all of this alone, whatever there is in it beside
machines. This holds in particular while plans are followed and answers are looked for.

* **`Machine.KeepsRecord`**: a machine is where it was, with the record that it had.
* **`World.Rests`**: every machine keeps its record, and every other child stays as it is.
* `Host.IsCivil`: subscribers that come with machines let the world rest.
* `World.IsGrowth`: ways in which a world may change when something is made in it.
* **`StatePlan.grows_realise`** and its companions, one for each kind of plan: a world grows while a
  plan is followed, which comes to an end if those who come with machines do.
* **`Act.gives_resolve_grows`**, `Act.gives_resolve_rests`: a world grows in such a way while a
  machine looks for an answer, and so it rests.
* `Act.resolve_congr`: an answer does not depend on who listens. -/

namespace Statechart

variable {ρ γ σ : Type}

/-- The event is some `.childExit`. -/
def Event.IsExit (event : Event) : Prop := ∃ child, event = .childExit child

/-- `m.followUps state` are exits of nested states. -/
theorem Machine.exists_path_of_mem_followUps {m : Machine σ} {state : State} {event : Event}
    (h : event ∈ m.followUps state) : ∃ path, event = .childExit (.path path) := by
  rw [followUps] at h
  split at h
  · cases h
  · split at h
    · exact ⟨_, List.mem_singleton.1 h⟩
    · cases h

/-- **`m'` has the record of `m`**: its parts, its state, its last change, its revision and its
history are the same. Only exits may be added to the queue. -/
structure Machine.KeepsRecord (m m' : Machine σ) : Prop where
  id : m'.id = m.id
  factory : m'.factory = m.factory
  table : m'.table = m.table
  config : m'.config = m.config
  current : m'.current = m.current
  change? : m'.change? = m.change?
  revision : m'.revision = m.revision
  history : m'.history = m.history
  pending : ∀ event ∈ m'.pending, event ∈ m.pending ∨ event.IsExit

/-- `KeepsRecord` is reflexive. -/
theorem Machine.KeepsRecord.refl (m : Machine σ) : m.KeepsRecord m :=
  ⟨rfl, rfl, rfl, rfl, rfl, rfl, rfl, rfl, fun _ => .inl⟩

/-- `KeepsRecord` for another `engine?`. -/
theorem Machine.KeepsRecord.enlist (m : Machine σ) (engine? : Option Nat) :
    m.KeepsRecord { m with engine? } :=
  ⟨rfl, rfl, rfl, rfl, rfl, rfl, rfl, rfl, fun _ => .inl⟩

/-- `KeepsRecord` for another queue, with only exits added. -/
theorem Machine.KeepsRecord.queue {m : Machine σ} {pending : List Event}
    (h : ∀ event ∈ pending, event ∈ m.pending ∨ event.IsExit) :
    m.KeepsRecord { m with pending } :=
  ⟨rfl, rfl, rfl, rfl, rfl, rfl, rfl, rfl, h⟩

/-- `KeepsRecord` is transitive. -/
theorem Machine.KeepsRecord.trans {m m' m'' : Machine σ} (h : m.KeepsRecord m')
    (h' : m'.KeepsRecord m'') : m.KeepsRecord m'' := by
  refine ⟨h'.id.trans h.id, h'.factory.trans h.factory, h'.table.trans h.table,
    h'.config.trans h.config, h'.current.trans h.current, h'.change?.trans h.change?,
    h'.revision.trans h.revision, h'.history.trans h.history, fun event hevent => ?_⟩
  rcases h'.pending event hevent with hbefore | hexit
  · exact h.pending event hbefore
  · exact .inr hexit

namespace World

variable {w w' w'' : World ρ γ} {link : Link} {m m' : Machine (StatePlan ρ)} {cell : Cell ρ}

/-- **The machine at `link` keeps its record** (`Machine.KeepsRecord`), if there is one. -/
def KeepsRecordAt (link : Link) (w w' : World ρ γ) : Prop :=
  ∀ m, w.machine? link = some m → ∃ m', w'.machine? link = some m' ∧ m.KeepsRecord m'

/-- `KeepsRecordAt` is reflexive. -/
theorem KeepsRecordAt.refl (link : Link) (w : World ρ γ) : w.KeepsRecordAt link w :=
  fun m hm => ⟨m, hm, .refl m⟩

/-- `KeepsRecordAt` is transitive. -/
theorem KeepsRecordAt.trans (h : w.KeepsRecordAt link w') (h' : w'.KeepsRecordAt link w'') :
    w.KeepsRecordAt link w'' := by
  intro m hm
  obtain ⟨m', hm', hkeeps⟩ := h m hm
  obtain ⟨m'', hm'', hkeeps'⟩ := h' m' hm'
  exact ⟨m'', hm'', hkeeps.trans hkeeps'⟩

/-- `KeepsRecordAt` holds if `cells` are the same. -/
theorem KeepsRecordAt.of_cells (hcells : w'.cells = w.cells) : w.KeepsRecordAt link w' :=
  fun m hm => ⟨m, by rw [machine?_of_cells hcells, hm], .refl m⟩

/-- `KeepsRecordAt link` for `setCell` at another link. -/
theorem KeepsRecordAt.setCell_of_ne {other : Link} (hne : link ≠ other) :
    w.KeepsRecordAt link (w.setCell other cell) := by
  intro m hm
  refine ⟨m, ?_, .refl m⟩
  rw [machine?_eq_some_iff, cell?_setCell, if_neg hne]
  exact machine?_eq_some_iff.1 hm

/-- `KeepsRecordAt link` for `setCell` with a machine of the same record. -/
theorem KeepsRecordAt.setCell (hm : w.machine? link = some m) (hkeeps : m.KeepsRecord m') :
    w.KeepsRecordAt link (w.setCell link (.machine m')) := by
  intro m₀ hm₀
  rw [hm] at hm₀
  cases hm₀
  exact ⟨m', machine?_setCell_self hm, hkeeps⟩

/-- **`w` rests**: every machine keeps its record (`KeepsRecordAt`), and every other cell and every
engine stays as it is. There may be new cells. -/
structure Rests (w w' : World ρ γ) : Prop where
  machine : ∀ link, w.KeepsRecordAt link w'
  other : ∀ link cell, w.cell? link = some cell → w.machine? link = none →
    w'.cell? link = some cell
  engines : w'.engines = w.engines

/-- `Rests` holds if `cells` and `engines` are the same. -/
theorem Rests.of_eq (hcells : w'.cells = w.cells) (hengines : w'.engines = w.engines) :
    w.Rests w' := by
  have hcell : w'.cell? = w.cell? := by
    funext link
    rw [cell?, cell?, hcells]
  refine ⟨fun link m hm => ⟨m, ?_, .refl m⟩, fun link cell hc _ => ?_, hengines⟩
  · rw [machine?_of_cells hcells, hm]
  · rw [hcell, hc]

/-- `Rests` is reflexive. -/
theorem Rests.refl (w : World ρ γ) : w.Rests w := .of_eq rfl rfl

/-- `Rests` is transitive. -/
theorem Rests.trans (h : w.Rests w') (h' : w'.Rests w'') : w.Rests w'' := by
  refine ⟨fun link => (h.machine link).trans (h'.machine link), fun link cell hc hnone => ?_,
    h'.engines.trans h.engines⟩
  have hc' := h.other link cell hc hnone
  refine h'.other link cell hc' ?_
  -- What is no machine has not become one.
  cases hm' : w'.machine? link with
  | none => rfl
  | some m' =>
    rw [machine?_eq_some_iff, hc', Option.some.injEq] at hm'
    rw [machine?_eq_some_iff.2 (hm' ▸ hc)] at hnone
    cases hnone

/-- `Rests` for `setCell` with a machine of the same record. -/
theorem Rests.setCell (hm : w.machine? link = some m) (hkeeps : m.KeepsRecord m') :
    w.Rests (w.setCell link (.machine m')) := by
  refine ⟨fun other => ?_, fun other cell hc hnone => ?_, rfl⟩
  · by_cases heq : other = link
    · subst heq
      exact .setCell hm hkeeps
    · exact .setCell_of_ne heq
  · rw [cell?_setCell, if_neg, hc]
    rintro rfl
    rw [hm] at hnone
    cases hnone

/-- `Rests` for `addCell`. -/
theorem Rests.addCell (w : World ρ γ) (cell : Cell ρ) : w.Rests (w.addCell cell).2 :=
  ⟨fun _ m hm => ⟨m, machine?_addCell_of_machine? hm, .refl m⟩,
    fun _ _ hc _ => cell?_addCell_of_cell? hc, rfl⟩

end World

/-! ## Following plans -/

/-- **`host.enrol` lets the world rest** (`World.Rests`). -/
def Host.IsCivil (host : Host ρ γ) : Prop :=
  ∀ subscriber link w, Act.Gives False (host.enrol subscriber link) w fun _ w' => w.Rests w'

/-- **`R` is a way in which a world may grow**: it is reflexive and transitive, and holds for new
identities (`mint`), shared names (`share`) and new cells without subscribers (`add`). -/
structure World.IsGrowth (R : World ρ γ → World ρ γ → Prop) : Prop where
  refl : ∀ w, R w w
  trans : ∀ w w' w'', R w w' → R w' w'' → R w w''
  mint : ∀ (w : World ρ γ) minted, R w { w with minted }
  share : ∀ (w : World ρ γ) shared, R w { w with shared }
  add : ∀ (w : World ρ γ) (cell : Cell ρ),
    (∀ m, cell = .machine m → m.listeners.round = []) → R w (w.addCell cell).2

/-- `Rests` is `IsGrowth`. -/
theorem World.isGrowth_rests : IsGrowth (Rests : World ρ γ → World ρ γ → Prop) :=
  ⟨.refl, fun _ _ _ => .trans, fun _ _ => .of_eq rfl rfl, fun _ _ => .of_eq rfl rfl,
    fun w cell _ => .addCell w cell⟩

section Growth

variable {R : World ρ γ → World ρ γ → Prop} {host host' : Host ρ γ} {total : Prop}

namespace Act

/-- `act` gives `R`, from every world. -/
def Grows {α : Type} (R : World ρ γ → World ρ γ → Prop) (act : Act ρ γ α) : Prop :=
  ∀ w, Gives False act w fun _ w' => R w w'

/-- **`act` gives `R`, from every world**, and comes to an end if `total` holds. -/
def GrowsIf {α : Type} (total : Prop) (R : World ρ γ → World ρ γ → Prop) (act : Act ρ γ α) :
    Prop :=
  ∀ w, Gives total act w fun _ w' => R w w'

end Act

/-- `host.enrol` gives `R` (`Act.Grows`). -/
def Host.EnrolsWithin (R : World ρ γ → World ρ γ → Prop) (host : Host ρ γ) : Prop :=
  ∀ subscriber link, Act.Grows R (host.enrol subscriber link)

/-- `host.enrol` gives `R`, and comes to an end if `total` holds (`Act.GrowsIf`). -/
def Host.EnrolsIf (total : Prop) (R : World ρ γ → World ρ γ → Prop) (host : Host ρ γ) : Prop :=
  ∀ subscriber link, Act.GrowsIf total R (host.enrol subscriber link)

namespace Act

variable {α β : Type}

/-- `GrowsIf` for `pure a`. -/
theorem grows_pure (hR : World.IsGrowth R) (a : α) : GrowsIf total R (pure a : Act ρ γ α) :=
  fun w => gives_pure (hR.refl w)

/-- `GrowsIf` for `act >>= f`. -/
theorem GrowsIf.bind {act : Act ρ γ α} {f : α → Act ρ γ β} (h : GrowsIf total R act)
    (hR : World.IsGrowth R) (hf : ∀ a, GrowsIf total R (f a)) : GrowsIf total R (act >>= f) :=
  fun w => gives_bind (h w) fun a w₁ hw₁ =>
    (hf a w₁).mono fun _ w₂ hw₂ => hR.trans w w₁ w₂ hw₁ hw₂

/-- `Grows` for `act >>= f`. -/
theorem Grows.bind {act : Act ρ γ α} {f : α → Act ρ γ β} (h : Grows R act)
    (hR : World.IsGrowth R) (hf : ∀ a, Grows R (f a)) : Grows R (act >>= f) :=
  GrowsIf.bind h hR hf

/-- `GrowsIf` for `get >>= f`. -/
theorem grows_get {f : World ρ γ → Act ρ γ β} (hf : ∀ w, Gives total (f w) w fun _ w' => R w w') :
    GrowsIf total R (get >>= f) :=
  fun w => gives_get (hf w)

/-- `GrowsIf` for `items.forM f`. -/
theorem grows_forM (hR : World.IsGrowth R) {items : List α} {f : α → Act ρ γ Unit}
    (hf : ∀ item ∈ items, GrowsIf total R (f item)) : GrowsIf total R (items.forM f) := by
  intro w
  refine gives_forM (hR.refl w) fun item hitem w₁ hw₁ => ?_
  exact (hf item hitem w₁).mono fun _ w₂ hw₂ => hR.trans w w₁ w₂ hw₁ hw₂

/-- `GrowsIf` for `mint`. -/
theorem grows_mint (hR : World.IsGrowth R) : GrowsIf total R (mint : Act ρ γ MachineId) :=
  fun w => ⟨fun _ => rfl, by rintro _ _ ⟨⟩; exact hR.mint w _⟩

/-- `GrowsIf` for `allocate` of a cell without subscribers. -/
theorem grows_allocate (hR : World.IsGrowth R) {cell : Cell ρ}
    (hcell : ∀ m, cell = .machine m → m.listeners.round = []) :
    GrowsIf total R (allocate cell : Act ρ γ Link) :=
  fun w => ⟨fun _ => rfl, by rintro _ _ ⟨⟩; exact hR.add w cell hcell⟩

/-- `install` lets the world grow. -/
theorem grows_install (hR : World.IsGrowth R) (hhost : host.EnrolsIf total R)
    (parts : Assembly (StatePlan ρ) State) (shareAs? : Option String) (subscribers : List ρ) :
    GrowsIf total R (install host parts shareAs? subscribers) := by
  -- Each part of it lets the world grow: a name is given, a cell is added, and it may be shared and
  -- subscribed to.
  have hshare : ∀ name link, GrowsIf total R
      (modify fun w => { w with shared := w.shared.insert name link } : Act ρ γ Unit) :=
    fun _ _ w => gives_modify (hR.share w _)
  have hrest : ∀ link, GrowsIf total R (do
      subscribers.forM fun subscriber => host.enrol subscriber link
      return link : Act ρ γ Link) := fun link =>
    (grows_forM hR fun subscriber _ => hhost subscriber link).bind hR fun _ => grows_pure hR _
  have hnew : ∀ id m, (Cell.machine (.start id parts) : Cell ρ) = .machine m →
      m.listeners.round = [] := by
    rintro _ _ ⟨⟩
    rfl
  refine (grows_mint hR).bind hR fun id => (grows_allocate hR (hnew id)).bind hR fun link => ?_
  cases shareAs? with
  | none => exact hrest link
  | some name => exact (hshare name link).bind hR fun _ => hrest link

/-- `Builder.build` lets the world grow, if `make` does. -/
theorem grows_build (hR : World.IsGrowth R) {b : Builder (StatePlan ρ) State}
    {make : String → Act ρ γ (Option State)} (hmake : ∀ key, GrowsIf total R (make key)) :
    GrowsIf total R (b.build make) := by
  unfold Builder.build
  split
  · exact grows_pure hR _
  · exact grows_pure hR _
  · exact grows_pure hR _
  · refine (hmake _).bind hR fun state? => ?_
    cases state? with
    | none => exact grows_pure hR _
    | some state => exact grows_pure hR _

end Act

mutual

/-- `StatePlan.realise` lets the world grow. -/
theorem StatePlan.grows_realise (hR : World.IsGrowth R) (hhost : host.EnrolsIf total R) :
    ∀ plan : StatePlan ρ, Act.GrowsIf total R (plan.realise host)
  | ⟨key, data, isFinal, child?, needsChild⟩ => by
    rw [StatePlan.realise]
    refine (grows_realiseChild hR hhost child?).bind hR ?_
    rintro ⟨wanted, child⟩
    show Act.GrowsIf total R (if _ then _ else _)
    split
    · exact Act.grows_pure hR _
    · exact Act.grows_pure hR _

/-- `realiseChild` lets the world grow. -/
theorem grows_realiseChild (hR : World.IsGrowth R) (hhost : host.EnrolsIf total R) :
    ∀ child? : Option (ChildPlan ρ), Act.GrowsIf total R (realiseChild host child?)
  | none => by
    rw [realiseChild]
    exact Act.grows_pure hR _
  | some child => by
    rw [realiseChild]
    exact (ChildPlan.grows_realise hR hhost child).bind hR fun _ => Act.grows_pure hR _

/-- `ChildPlan.realise` lets the world grow. -/
theorem ChildPlan.grows_realise (hR : World.IsGrowth R) (hhost : host.EnrolsIf total R) :
    ∀ child : ChildPlan ρ, Act.GrowsIf total R (child.realise host)
  | .live link => by
    rw [ChildPlan.realise]
    exact Act.grows_pure hR _
  | .shared name => by
    rw [ChildPlan.realise]
    exact Act.grows_get fun w => Act.gives_pure (hR.refl w)
  | .machine plan => by
    rw [ChildPlan.realise]
    exact (MachinePlan.grows_realise hR hhost plan).bind hR fun _ => Act.grows_pure hR _
  | .device device => by
    rw [ChildPlan.realise]
    refine (Act.grows_mint hR).bind hR fun _ => ?_
    exact (Act.grows_allocate hR (by rintro _ ⟨⟩)).bind hR fun _ => Act.grows_pure hR _
  | .sendOnly plan isMute hiddenIn => by
    rw [ChildPlan.realise]
    refine (MachinePlan.grows_realise hR hhost plan).bind hR ?_
    rintro (error | inner)
    · exact Act.grows_pure hR _
    · refine Act.grows_get fun w => ?_
      split
      · exact ((Act.grows_allocate hR (by rintro _ ⟨⟩)).bind hR fun _ => Act.grows_pure hR _) w
      · exact Act.gives_pure (hR.refl w)

/-- **`MachinePlan.realise` lets the world grow.** -/
theorem MachinePlan.grows_realise (hR : World.IsGrowth R) (hhost : host.EnrolsIf total R) :
    ∀ plan : MachinePlan ρ, Act.GrowsIf total R (plan.realise host)
  | ⟨.error fault, items, rows, initialKey?, initial?, subscribers, shareAs?⟩ => by
    rw [MachinePlan.realise]
    exact Act.grows_pure hR _
  | ⟨.ok config, items, rows, initialKey?, initial?, subscribers, shareAs?⟩ => by
    rw [MachinePlan.realise]
    refine (grows_realiseItems hR hhost items).bind hR fun made => ?_
    refine (grows_realiseInitial hR hhost initial?).bind hR fun state? => ?_
    refine (Act.grows_build hR fun key => grows_realiseKey hR hhost key items made).bind hR ?_
    rintro (error | parts)
    · exact Act.grows_pure hR _
    · exact (Act.grows_install hR hhost parts shareAs? subscribers).bind hR fun _ =>
        Act.grows_pure hR _

/-- `realiseItems` lets the world grow. -/
theorem grows_realiseItems (hR : World.IsGrowth R) (hhost : host.EnrolsIf total R) :
    ∀ items : List (FactoryItem (StatePlan ρ)), Act.GrowsIf total R (realiseItems host items)
  | [] => by
    rw [realiseItems]
    exact Act.grows_pure hR _
  | item :: rest => by
    rw [realiseItems]
    exact (grows_realiseItem hR hhost item).bind hR fun _ =>
      (grows_realiseItems hR hhost rest).bind hR fun _ => Act.grows_pure hR _

/-- `realiseItem` lets the world grow. -/
theorem grows_realiseItem (hR : World.IsGrowth R) (hhost : host.EnrolsIf total R) :
    ∀ item : FactoryItem (StatePlan ρ), Act.GrowsIf total R (realiseItem host item)
  | .unit key isFinal state => by
    rw [realiseItem]
    exact StatePlan.grows_realise hR hhost state
  | .made key isFinal build => by
    rw [realiseItem]
    exact Act.grows_pure hR _

/-- `realiseInitial` lets the world grow. -/
theorem grows_realiseInitial (hR : World.IsGrowth R) (hhost : host.EnrolsIf total R) :
    ∀ plan? : Option (StatePlan ρ), Act.GrowsIf total R (realiseInitial host plan?)
  | none => by
    rw [realiseInitial]
    exact Act.grows_pure hR _
  | some plan => by
    rw [realiseInitial]
    exact StatePlan.grows_realise hR hhost plan

/-- `realiseKey` lets the world grow. -/
theorem grows_realiseKey (hR : World.IsGrowth R) (hhost : host.EnrolsIf total R) (key : String) :
    ∀ (items : List (FactoryItem (StatePlan ρ))) (made : List (Option State)),
      Act.GrowsIf total R (realiseKey host key items made)
  | [], made => by
    rw [realiseKey]
    · exact Act.grows_pure hR _
    · rintro _ _ _ _ ⟨⟩
  | item :: rest, [] => by
    rw [realiseKey]
    · exact Act.grows_pure hR _
    · rintro _ _ _ _ _ ⟨⟩
  | item :: rest, made :: restMade => by
    rw [realiseKey]
    split
    · exact grows_realiseKey hR hhost key rest restMade
    · split
      · exact grows_realiseEntry hR hhost item
      · exact Act.grows_pure hR _

/-- `realiseEntry` lets the world grow. -/
theorem grows_realiseEntry (hR : World.IsGrowth R) (hhost : host.EnrolsIf total R)
    {made : Option State} :
    ∀ item : FactoryItem (StatePlan ρ), Act.GrowsIf total R (realiseEntry host made item)
  | .unit key isFinal state => by
    rw [realiseEntry]
    exact Act.grows_pure hR _
  | .made key isFinal build => by
    rw [realiseEntry]
    exact grows_realiseInitial hR hhost (build [])

end

mutual

/-- `StatePlan.realise` depends on `host.enrol` alone. -/
theorem StatePlan.realise_congr (h : host'.enrol = host.enrol) :
    ∀ plan : StatePlan ρ, (plan.realise host' : Act ρ γ (Option State)) = plan.realise host
  | ⟨key, data, isFinal, child?, needsChild⟩ => by
    rw [StatePlan.realise, StatePlan.realise, realiseChild_congr h child?]

/-- `realiseChild` depends on `host.enrol` alone. -/
theorem realiseChild_congr (h : host'.enrol = host.enrol) : ∀ child? : Option (ChildPlan ρ),
    (realiseChild host' child? : Act ρ γ (Bool × Option Link)) = realiseChild host child?
  | none => by rw [realiseChild, realiseChild]
  | some child => by rw [realiseChild, realiseChild, ChildPlan.realise_congr h child]

/-- `ChildPlan.realise` depends on `host.enrol` alone. -/
theorem ChildPlan.realise_congr (h : host'.enrol = host.enrol) :
    ∀ child : ChildPlan ρ, (child.realise host' : Act ρ γ (Option Link)) = child.realise host
  | .live link => by rw [ChildPlan.realise, ChildPlan.realise]
  | .shared name => by rw [ChildPlan.realise, ChildPlan.realise]
  | .machine plan => by
    rw [ChildPlan.realise, ChildPlan.realise, MachinePlan.realise_congr h plan]
  | .device device => by rw [ChildPlan.realise, ChildPlan.realise]
  | .sendOnly plan isMute hiddenIn => by
    rw [ChildPlan.realise, ChildPlan.realise, MachinePlan.realise_congr h plan]

/-- `MachinePlan.realise` depends on `host.enrol` alone. -/
theorem MachinePlan.realise_congr (h : host'.enrol = host.enrol) : ∀ plan : MachinePlan ρ,
    (plan.realise host' : Act ρ γ (Except StartError Link)) = plan.realise host
  | ⟨.error fault, items, rows, initialKey?, initial?, subscribers, shareAs?⟩ => by
    rw [MachinePlan.realise, MachinePlan.realise]
  | ⟨.ok config, items, rows, initialKey?, initial?, subscribers, shareAs?⟩ => by
    have hinstall : ∀ parts, Act.install host' parts shareAs? subscribers =
        Act.install host parts shareAs? subscribers := by
      intro parts
      rw [Act.install, Act.install, h]
    simp only [MachinePlan.realise, realiseItems_congr h items, realiseInitial_congr h initial?,
      realiseKey_congr h _ items, hinstall]

/-- `realiseItems` depends on `host.enrol` alone. -/
theorem realiseItems_congr (h : host'.enrol = host.enrol) :
    ∀ items : List (FactoryItem (StatePlan ρ)),
    (realiseItems host' items : Act ρ γ (List (Option State))) = realiseItems host items
  | [] => by rw [realiseItems, realiseItems]
  | item :: rest => by
    rw [realiseItems, realiseItems, realiseItem_congr h item, realiseItems_congr h rest]

/-- `realiseItem` depends on `host.enrol` alone. -/
theorem realiseItem_congr (h : host'.enrol = host.enrol) : ∀ item : FactoryItem (StatePlan ρ),
    (realiseItem host' item : Act ρ γ (Option State)) = realiseItem host item
  | .unit key isFinal state => by
    rw [realiseItem, realiseItem, StatePlan.realise_congr h state]
  | .made key isFinal build => by rw [realiseItem, realiseItem]

/-- `realiseInitial` depends on `host.enrol` alone. -/
theorem realiseInitial_congr (h : host'.enrol = host.enrol) : ∀ plan? : Option (StatePlan ρ),
    (realiseInitial host' plan? : Act ρ γ (Option State)) = realiseInitial host plan?
  | none => by rw [realiseInitial, realiseInitial]
  | some plan => by rw [realiseInitial, realiseInitial, StatePlan.realise_congr h plan]

/-- `realiseKey` depends on `host.enrol` alone. -/
theorem realiseKey_congr (h : host'.enrol = host.enrol) (key : String) :
    ∀ (items : List (FactoryItem (StatePlan ρ))) (made : List (Option State)),
      (realiseKey host' key items made : Act ρ γ (Option State)) = realiseKey host key items made
  | [], made => by simp only [realiseKey]
  | item :: rest, [] => by simp only [realiseKey]
  | item :: rest, made :: restMade => by
    simp only [realiseKey, realiseKey_congr h key rest restMade, realiseEntry_congr h made item]

/-- `realiseEntry` depends on `host.enrol` alone. -/
theorem realiseEntry_congr (h : host'.enrol = host.enrol) (made : Option State) :
    ∀ item : FactoryItem (StatePlan ρ),
    (realiseEntry host' made item : Act ρ γ (Option State)) = realiseEntry host made item
  | .unit key isFinal state => by rw [realiseEntry, realiseEntry]
  | .made key isFinal build => by
    rw [realiseEntry, realiseEntry, realiseInitial_congr h (build [])]

end

/-! ## Looking for an answer -/

namespace Act

/-- **`resolve` depends on `host.enrol` alone.** -/
theorem resolve_congr (h : host'.enrol = host.enrol) (link : Link) (event : Event) :
    resolve host' link event = resolve host link event := by
  have hfirst : ∀ (factory : Factory (StatePlan ρ)) context candidates,
      firstMade host' factory context candidates = firstMade host factory context candidates := by
    intro factory context candidates
    induction candidates with
    | nil => rfl
    | cons candidate rest ih =>
      obtain ⟨key, spec⟩ := candidate
      simp only [firstMade, ih, StatePlan.realise_congr h]
  simp only [resolve, hfirst]

/-- `firstMade` lets the world grow. -/
theorem grows_firstMade (hR : World.IsGrowth R) (hhost : host.EnrolsIf total R)
    (factory : Factory (StatePlan ρ)) (context : EventContext)
    (candidates : List (String × Spec (StatePlan ρ))) :
    GrowsIf total R (firstMade host factory context candidates) := by
  induction candidates with
  | nil => exact grows_pure hR _
  | cons candidate rest ih =>
    obtain ⟨key, spec⟩ := candidate
    rw [firstMade]
    split
    · exact ih
    · refine (StatePlan.grows_realise hR hhost _).bind hR fun state? => ?_
      cases state? with
      | none => exact ih
      | some state => exact grows_pure hR _

/-- **`resolve` lets the world grow**, and what it finds is about the event and the current state of
the machine. -/
theorem gives_resolve_grows (hR : World.IsGrowth R) (hhost : host.EnrolsWithin R) (link : Link)
    (event : Event) (w : World ρ γ) :
    Gives False (resolve host link event) w fun found? w' => R w w' ∧
      ∀ found, found? = some found → found.event = event ∧
        ∃ m, w.machine? link = some m ∧ found.source = m.current := by
  rw [resolve]
  refine gives_get ?_
  split
  · exact gives_pure ⟨hR.refl w, by rintro _ ⟨⟩⟩
  · rename_i m hm
    split
    · exact gives_pure ⟨hR.refl w, by rintro _ ⟨⟩⟩
    · split
      · exact ⟨False.elim, by rintro _ _ ⟨⟩⟩
      · refine gives_bind (grows_firstMade hR hhost _ _ _ w) fun found? w₁ hw₁ => ?_
        refine gives_pure ⟨hw₁, fun found hfound => ?_⟩
        obtain ⟨⟨matched, target⟩, -, rfl⟩ := Option.map_eq_some_iff.1 hfound
        exact ⟨rfl, m, hm, rfl⟩

/-- **`resolve` lets the world rest**, and what it finds is about the event and the current state of
the machine. -/
theorem gives_resolve_rests (hhost : host.IsCivil) (link : Link) (event : Event) (w : World ρ γ) :
    Gives False (resolve host link event) w fun found? w' => w.Rests w' ∧
      ∀ found, found? = some found → found.event = event ∧
        ∃ m, w.machine? link = some m ∧ found.source = m.current :=
  gives_resolve_grows World.isGrowth_rests hhost link event w

end Act

end Growth

end Statechart
