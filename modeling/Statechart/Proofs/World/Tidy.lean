import Statechart.Proofs.World.Upkeep
import Statechart.World.Construction

/-! # Worlds of machines

In a tidy world every cell holds a machine, with an identity of its own and with settings of some
kind, and no link leads nowhere. Plans from which only such machines can be made fit into it, and so
does a machine whose states and answers are such plans.

* **`StatePlan.Fits`**, `Machine.Fits`: what fits into a world of machines.
* **`World.Tidy`**: a world of machines.
* **`World.Idles`**: a world stays tidy, and nothing happens to its machines.
* `Host.IsCalm`, `Host.IsTame`: surroundings, and subscribers, that leave the machines alone. -/

namespace Statechart

variable {ρ γ σ : Type}

/-- **There is a machine at `link`.** -/
def World.HasMachine (w : World ρ γ) (link : Link) : Prop := ∃ m, w.machine? link = some m

/-- The child of `state` is `known`, if it has one. -/
def State.Within (known : Link → Prop) (state : State) : Prop :=
  ∀ child, state.child = some child → known child

/-! ## Plans that fit -/

section Fits

variable (settings : MachineConfig → Prop) (known : Link → Prop)

mutual

/-- **The plan of a state fits**: only machines come of it, with `settings`, and it gives back only
links that are `known`. -/
def StatePlan.Fits : StatePlan ρ → Prop
  | ⟨_, _, _, child?, _⟩ => childFits child?

/-- `ChildPlan.Fits`, if there is to be a child. -/
def childFits : Option (ChildPlan ρ) → Prop
  | none => True
  | some child => child.Fits

/-- The plan of a child fits: a link that is `known`, a shared name, or the plan of a machine that
fits. -/
def ChildPlan.Fits : ChildPlan ρ → Prop
  | .live link => known link
  | .shared _ => True
  | .machine plan => plan.Fits
  | .device _ => False
  | .sendOnly _ _ _ => False

/-- **The plan of a machine fits**: its config has `settings`, and its factory, its rows and its
initial state fit. -/
def MachinePlan.Fits : MachinePlan ρ → Prop
  | ⟨config, items, rows, _, initial?, _, _⟩ =>
    (∀ c, config = .ok c → settings c) ∧ itemsFit items ∧ rowsFit rows ∧ stateFits initial?

/-- `itemFits` for every entry of a factory. -/
def itemsFit : List (FactoryItem (StatePlan ρ)) → Prop
  | [] => True
  | item :: rest => itemFits item ∧ itemsFit rest

/-- What `item` makes fits, whatever the parameters. -/
def itemFits : FactoryItem (StatePlan ρ) → Prop
  | .unit _ _ state => state.Fits
  | .made _ _ build => ∀ params, stateFits (build params)

/-- `specFits` for every row of a table. -/
def rowsFit : List (Row (StatePlan ρ)) → Prop
  | [] => True
  | ⟨_, _, spec⟩ :: rest => specFits spec ∧ rowsFit rest

/-- What `spec` leads to fits, whatever it depends on. -/
def specFits : Spec (StatePlan ρ) → Prop
  | .target _ => True
  | .build make => ∀ params, stateFits (make params)
  | .context make => ∀ context, stateFits (make context)
  | .guarded _ next => specFits next

/-- `StatePlan.Fits`, if there is a plan. -/
def stateFits : Option (StatePlan ρ) → Prop
  | none => True
  | some plan => plan.Fits

end

/-- `itemsFit items` if and only if `itemFits` for each of `items`. -/
theorem itemsFit_iff {items : List (FactoryItem (StatePlan ρ))} :
    itemsFit settings known items ↔ ∀ item ∈ items, itemFits settings known item := by
  induction items with
  | nil => simp [itemsFit]
  | cons item rest ih => simp [itemsFit, ih]

/-- `rowsFit rows` if and only if `specFits` for each of `rows`. -/
theorem rowsFit_iff {rows : List (Row (StatePlan ρ))} :
    rowsFit settings known rows ↔ ∀ row ∈ rows, specFits settings known row.spec := by
  induction rows with
  | nil => simp [rowsFit]
  | cons row rest ih =>
    obtain ⟨state, answers, spec⟩ := row
    simp [rowsFit, ih]

/-- `StatePlan.ofState state` fits if `state.Within known`. -/
theorem StatePlan.fits_ofState {state : State} (h : state.Within known) :
    (StatePlan.ofState state : StatePlan ρ).Fits settings known := by
  obtain ⟨key, data, isFinal, child⟩ := state
  cases child with
  | none => trivial
  | some link => exact h link rfl

/-- Whatever `factory.create` gives fits. -/
def Factory.Fits (factory : Factory (StatePlan ρ)) : Prop :=
  ∀ key params plan, factory.create key params = some plan → plan.Fits settings known

/-- Whatever `table.get?` gives fits. -/
def Table.Fits (table : Table (StatePlan ρ)) : Prop :=
  ∀ key event spec, table.get? key event = some spec → specFits settings known spec

/-- **A machine fits**: `m.config` has `settings`, and `m.factory` and `m.table` fit. -/
structure Machine.Fits (m : Machine (StatePlan ρ)) : Prop where
  config : settings m.config
  factory : m.factory.Fits settings known
  table : m.table.Fits settings known

end Fits

section Known

variable {settings : MachineConfig → Prop} {known known' : Link → Prop}

mutual

/-- `StatePlan.Fits` is kept where more links are known. -/
theorem StatePlan.Fits.mono (hknown : ∀ link, known link → known' link) :
    ∀ plan : StatePlan ρ, plan.Fits settings known → plan.Fits settings known'
  | ⟨_, _, _, child?, _⟩, h => childFits.mono hknown child? h

/-- `childFits` is kept where more links are known. -/
theorem childFits.mono (hknown : ∀ link, known link → known' link) :
    ∀ child? : Option (ChildPlan ρ), childFits settings known child? →
      childFits settings known' child?
  | none, _ => trivial
  | some child, h => ChildPlan.Fits.mono hknown child h

/-- `ChildPlan.Fits` is kept where more links are known. -/
theorem ChildPlan.Fits.mono (hknown : ∀ link, known link → known' link) :
    ∀ child : ChildPlan ρ, child.Fits settings known → child.Fits settings known'
  | .live link, h => hknown link h
  | .shared _, _ => trivial
  | .machine plan, h => MachinePlan.Fits.mono hknown plan h
  | .device _, h => h.elim
  | .sendOnly _ _ _, h => h.elim

/-- `MachinePlan.Fits` is kept where more links are known. -/
theorem MachinePlan.Fits.mono (hknown : ∀ link, known link → known' link) :
    ∀ plan : MachinePlan ρ, plan.Fits settings known → plan.Fits settings known'
  | ⟨_, items, rows, _, initial?, _, _⟩, ⟨hconfig, hitems, hrows, hinitial⟩ =>
    ⟨hconfig, itemsFit.mono hknown items hitems, rowsFit.mono hknown rows hrows,
      stateFits.mono hknown initial? hinitial⟩

/-- `itemsFit` is kept where more links are known. -/
theorem itemsFit.mono (hknown : ∀ link, known link → known' link) :
    ∀ items : List (FactoryItem (StatePlan ρ)), itemsFit settings known items →
      itemsFit settings known' items
  | [], _ => trivial
  | item :: rest, h => ⟨itemFits.mono hknown item h.1, itemsFit.mono hknown rest h.2⟩

/-- `itemFits` is kept where more links are known. -/
theorem itemFits.mono (hknown : ∀ link, known link → known' link) :
    ∀ item : FactoryItem (StatePlan ρ), itemFits settings known item →
      itemFits settings known' item
  | .unit _ _ state, h => StatePlan.Fits.mono hknown state h
  | .made _ _ build, h => fun params => stateFits.mono hknown (build params) (h params)

/-- `rowsFit` is kept where more links are known. -/
theorem rowsFit.mono (hknown : ∀ link, known link → known' link) :
    ∀ rows : List (Row (StatePlan ρ)), rowsFit settings known rows →
      rowsFit settings known' rows
  | [], _ => trivial
  | ⟨_, _, spec⟩ :: rest, h => ⟨specFits.mono hknown spec h.1, rowsFit.mono hknown rest h.2⟩

/-- `specFits` is kept where more links are known. -/
theorem specFits.mono (hknown : ∀ link, known link → known' link) :
    ∀ spec : Spec (StatePlan ρ), specFits settings known spec → specFits settings known' spec
  | .target _, _ => trivial
  | .build make, h => fun params => stateFits.mono hknown (make params) (h params)
  | .context make, h => fun context => stateFits.mono hknown (make context) (h context)
  | .guarded _ next, h => specFits.mono hknown next h

/-- `stateFits` is kept where more links are known. -/
theorem stateFits.mono (hknown : ∀ link, known link → known' link) :
    ∀ plan? : Option (StatePlan ρ), stateFits settings known plan? →
      stateFits settings known' plan?
  | none, _ => trivial
  | some plan, h => StatePlan.Fits.mono hknown plan h

end

/-- `Factory.Fits` is kept where more links are known. -/
theorem Factory.Fits.mono {factory : Factory (StatePlan ρ)} (h : factory.Fits settings known)
    (hknown : ∀ link, known link → known' link) : factory.Fits settings known' :=
  fun key params plan hplan => StatePlan.Fits.mono hknown plan (h key params plan hplan)

/-- `Table.Fits` is kept where more links are known. -/
theorem Table.Fits.mono {table : Table (StatePlan ρ)} (h : table.Fits settings known)
    (hknown : ∀ link, known link → known' link) : table.Fits settings known' :=
  fun key event spec hspec => specFits.mono hknown spec (h key event spec hspec)

/-- `Machine.Fits` is kept where more links are known. -/
theorem Machine.Fits.mono {m : Machine (StatePlan ρ)} (h : m.Fits settings known)
    (hknown : ∀ link, known link → known' link) : m.Fits settings known' :=
  ⟨h.config, h.factory.mono hknown, h.table.mono hknown⟩

/-- `Machine.Fits` depends on `factory`, `table` and `config` alone. -/
theorem Machine.Fits.of_parts {m m' : Machine (StatePlan ρ)} (h : m.Fits settings known)
    (hfactory : m'.factory = m.factory) (htable : m'.table = m.table)
    (hconfig : m'.config = m.config) : m'.Fits settings known :=
  ⟨hconfig ▸ h.config, hfactory ▸ h.factory, htable ▸ h.table⟩

/-- `spec.resolve m.factory` fits if `spec` and `m` do. -/
theorem Machine.Fits.resolve {m : Machine (StatePlan ρ)} (h : m.Fits settings known)
    {context : EventContext} {spec : Spec (StatePlan ρ)} {plan : StatePlan ρ}
    (hspec : specFits settings known spec) (hplan : spec.resolve m.factory context = some plan) :
    plan.Fits settings known := by
  -- Only targets come from the factory. Guards let through what is behind them.
  induction spec with
  | target key => exact h.factory _ _ _ hplan
  | build make =>
    have hmade := hspec context.event.params
    rw [Spec.resolve] at hplan
    rwa [hplan] at hmade
  | context make =>
    have hmade := hspec context
    rw [Spec.resolve] at hplan
    rwa [hplan] at hmade
  | guarded guard next ih =>
    rw [Spec.resolve] at hplan
    split at hplan
    · exact ih hspec hplan
    · cases hplan

end Known

/-! ## Tidy worlds -/

section Worlds

variable (settings : MachineConfig → Prop)

/-- **`w` is tidy**: every cell holds a machine that fits, no child of a state and no shared name
leads elsewhere, and the machines have different identities, which have all been minted. -/
structure World.Tidy (w : World ρ γ) : Prop where
  machines : ∀ link cell, w.cell? link = some cell → ∃ m, cell = .machine m
  fits : ∀ link m, w.machine? link = some m → m.Fits settings w.HasMachine
  children : ∀ link m, w.machine? link = some m → m.current.state.Within w.HasMachine
  shared : ∀ name link, w.shared.get? name = some link → w.HasMachine link
  minted : ∀ link m, w.machine? link = some m → ∃ n, m.id = .minted n ∧ n < w.minted
  distinct : ∀ link link' m m', w.machine? link = some m → w.machine? link' = some m' →
    m.id = m'.id → link = link'

/-- **The world idles**: it is tidy afterwards, and nothing happens to its machines and
registrations (`World.Passes`). -/
def World.Idles (w w' : World ρ γ) : Prop :=
  w'.Tidy settings ∧ w.Passes (fun _ => True) w'

/-- **The surroundings are calm**: in a tidy world `enrol` and `redrawn` are in `World.Idles`, and
come to an end if `total` holds. -/
structure Host.IsCalm (host : Host ρ γ) (total : Prop) : Prop where
  enrol : ∀ subscriber link w, w.Tidy settings →
    Act.Gives total (host.enrol subscriber link) w fun _ w' => w.Idles settings w'
  redrawn : ∀ graph w, w.Tidy settings →
    Act.Gives total (host.redrawn graph) w fun _ w' => w.Idles settings w'

/-- **The subscribers are tame**: `IsCalm`, and `observe` is in `World.Idles` as well. -/
structure Host.IsTame (host : Host ρ γ) (total : Prop) : Prop
    extends Host.IsCalm settings host total where
  observe : ∀ subscriber change w, w.Tidy settings →
    Act.Gives total (host.observe subscriber change) w fun _ w' => w.Idles settings w'

end Worlds

section Tidy

variable {settings : MachineConfig → Prop} {kept : Link → Prop} {w w' w'' : World ρ γ} {link : Link}
  {m m' : Machine (StatePlan ρ)}

/-- `HasMachine` is kept by `Stays`. -/
theorem World.Stays.hasMachine (h : w.Stays kept w') (hlink : w.HasMachine link) :
    w'.HasMachine link := by
  obtain ⟨m, hm⟩ := hlink
  obtain ⟨m', hm', -⟩ := h.machine link m hm
  exact ⟨m', hm'⟩

/-- A world without `cells` is tidy. -/
theorem World.tidy_empty (guest : γ) : ({ guest } : World ρ γ).Tidy settings := by
  have hcell : ∀ link, ({ guest } : World ρ γ).cell? link = none := fun link =>
    Array.getElem?_eq_none (Nat.zero_le _)
  have hmachine : ∀ link m, ({ guest } : World ρ γ).machine? link ≠ some m := by
    intro link m hm
    rw [World.machine?_eq_some_iff, hcell] at hm
    cases hm
  refine ⟨?_, fun link m hm => absurd hm (hmachine link m),
    fun link m hm => absurd hm (hmachine link m), ?_, fun link m hm => absurd hm (hmachine link m),
    fun link _ m _ hm => absurd hm (hmachine link m)⟩
  · intro link cell hc
    rw [hcell] at hc
    cases hc
  · intro name link hname
    cases hname

/-- `Tidy` is kept if `cells` and `shared` are the same. -/
theorem World.Tidy.of_eq (h : w.Tidy settings) (hcells : w'.cells = w.cells)
    (hshared : w'.shared = w.shared) (hminted : w.minted ≤ w'.minted) : w'.Tidy settings := by
  -- All that is asked of a tidy world is a matter of its cells.
  have hcell : w'.cell? = w.cell? := by
    funext link
    rw [World.cell?, World.cell?, hcells]
  have hmachine := World.machine?_of_cells hcells
  have hhas : (w'.HasMachine : Link → Prop) = w.HasMachine := by
    unfold World.HasMachine
    rw [hmachine]
  refine ⟨?machines, ?fits, ?children, ?shared, ?minted, ?distinct⟩
  case machines =>
    rw [hcell]
    exact h.machines
  case fits =>
    rw [hmachine, hhas]
    exact h.fits
  case children =>
    rw [hmachine, hhas]
    exact h.children
  case shared =>
    rw [hshared, hhas]
    exact h.shared
  case minted =>
    intro link m hm
    obtain ⟨n, hid, hlt⟩ := h.minted link m (hmachine ▸ hm)
    exact ⟨n, hid, Nat.lt_of_lt_of_le hlt hminted⟩
  case distinct =>
    rw [hmachine]
    exact h.distinct

/-- `Tidy` is kept if a machine is shared under a name. -/
theorem World.Tidy.share (h : w.Tidy settings) (hlink : w.HasMachine link) (name : String) :
    { w with shared := w.shared.insert name link }.Tidy settings := by
  refine ⟨h.machines, h.fits, h.children, ?_, h.minted, h.distinct⟩
  intro other link' hother
  have hget : (w.shared.insert name link).get? other = some link' := hother
  rw [Dict.get?_insert] at hget
  split at hget
  · cases hget
    exact hlink
  · exact h.shared other link' hget

/-- A link with an `id?` leads to a machine. -/
theorem World.Tidy.exists_machine (h : w.Tidy settings) {id : MachineId}
    (hid : w.id? link = some id) : ∃ m, w.machine? link = some m ∧ m.id = id := by
  obtain ⟨cell, hcell, rfl⟩ := Option.map_eq_some_iff.1 hid
  obtain ⟨m, rfl⟩ := h.machines link cell hcell
  exact ⟨m, World.machine?_eq_some_iff.2 hcell, rfl⟩

/-- `w.cell?` is `none` where `w.machine?` is. -/
theorem World.Tidy.cell?_eq_none (h : w.Tidy settings) (hnone : w.machine? link = none) :
    w.cell? link = none := by
  refine Option.eq_none_iff_forall_ne_some.2 fun cell hcell => ?_
  obtain ⟨m, rfl⟩ := h.machines link cell hcell
  rw [World.machine?_eq_some_iff.2 hcell] at hnone
  cases hnone

/-- `Tidy` is kept by `setCell` with a machine that fits and has the same identity. -/
theorem World.Tidy.setCell (h : w.Tidy settings) (hm : w.machine? link = some m)
    (hid : m'.id = m.id) (hfits : m'.Fits settings w.HasMachine)
    (hchild : m'.current.state.Within w.HasMachine) :
    (w.setCell link (.machine m')).Tidy settings := by
  have hstays : w.Stays (fun _ => False) (w.setCell link (.machine m')) :=
    .setCell hm hid False.elim
  have hknown : ∀ other, w.HasMachine other → (w.setCell link (.machine m')).HasMachine other :=
    fun _ hother => hstays.hasMachine hother
  -- Every machine is the new one or was there before, with the same identity.
  have hidentity : ∀ other m₁, (w.setCell link (.machine m')).machine? other = some m₁ →
      ∃ m₀, w.machine? other = some m₀ ∧ m₁.id = m₀.id := by
    intro other m₁ hm₁
    obtain ⟨rfl, rfl⟩ | ⟨-, hm₁⟩ := World.machine?_setCell_cases hm hm₁
    · exact ⟨m, hm, hid⟩
    · exact ⟨m₁, hm₁, rfl⟩
  refine ⟨?machines, ?fits, ?children, ?shared, ?minted, ?distinct⟩
  case machines =>
    intro other cell hc
    rw [World.cell?_setCell] at hc
    split at hc
    · obtain ⟨_, -, rfl⟩ := Option.map_eq_some_iff.1 hc
      exact ⟨m', rfl⟩
    · exact h.machines other cell hc
  case fits =>
    intro other m₁ hm₁
    obtain ⟨-, rfl⟩ | ⟨-, hm₁⟩ := World.machine?_setCell_cases hm hm₁
    · exact hfits.mono hknown
    · exact (h.fits other m₁ hm₁).mono hknown
  case children =>
    intro other m₁ hm₁ child hinside
    obtain ⟨-, rfl⟩ | ⟨-, hm₁⟩ := World.machine?_setCell_cases hm hm₁
    · exact hknown child (hchild child hinside)
    · exact hknown child (h.children other m₁ hm₁ child hinside)
  case shared =>
    intro name other hother
    exact hknown other (h.shared name other hother)
  case minted =>
    intro other m₁ hm₁
    obtain ⟨m₀, hm₀, heq⟩ := hidentity other m₁ hm₁
    rw [heq]
    exact h.minted other m₀ hm₀
  case distinct =>
    intro other other' m₁ m₁' hm₁ hm₁' heq
    obtain ⟨m₀, hm₀, heq₀⟩ := hidentity other m₁ hm₁
    obtain ⟨m₀', hm₀', heq₀'⟩ := hidentity other' m₁' hm₁'
    exact h.distinct other other' m₀ m₀' hm₀ hm₀' (heq₀.symm.trans (heq.trans heq₀'))

/-- `Tidy` is kept by `addCell` of a machine that fits, with a new identity. -/
theorem World.Tidy.addCell (h : w.Tidy settings) (hid : m.id = .minted w.minted)
    (hengine : m.engine? = none) (hfits : m.Fits settings w.HasMachine)
    (hchild : m.current.state.Within w.HasMachine) :
    ({ w with minted := w.minted + 1 }.addCell (.machine m)).2.Tidy settings := by
  have hbefore : ∀ {other m₁},
      ({ w with minted := w.minted + 1 }.addCell (.machine m)).2.machine? other = some m₁ →
        other = ⟨w.cells.size⟩ ∧ m₁ = m ∨ w.machine? other = some m₁ :=
    World.machine?_addCell_cases
  have hpasses : { w with minted := w.minted + 1 }.Passes (fun _ => False)
      ({ w with minted := w.minted + 1 }.addCell (.machine m)).2 := .addCell hengine
  have hknown : ∀ other, w.HasMachine other →
      ({ w with minted := w.minted + 1 }.addCell (.machine m)).2.HasMachine other :=
    fun _ hother => hpasses.hasMachine hother
  -- The identity is the next one, which no machine has yet.
  have hnew : ∀ other m₀, w.machine? other = some m₀ → m₀.id ≠ m.id := by
    intro other m₀ hm₀ heq
    obtain ⟨n, hn, hlt⟩ := h.minted other m₀ hm₀
    rw [heq, hid, MachineId.minted.injEq] at hn
    omega
  refine ⟨?machines, ?fits, ?children, ?shared, ?minted, ?distinct⟩
  case machines =>
    intro other cell hc
    rw [World.cell?_addCell] at hc
    split at hc
    · cases hc
      exact ⟨m, rfl⟩
    · exact h.machines other cell hc
  case fits =>
    intro other m₁ hm₁
    obtain ⟨-, rfl⟩ | hm₁ := hbefore hm₁
    · exact hfits.mono hknown
    · exact (h.fits other m₁ hm₁).mono hknown
  case children =>
    intro other m₁ hm₁ child hinside
    obtain ⟨-, rfl⟩ | hm₁ := hbefore hm₁
    · exact hknown child (hchild child hinside)
    · exact hknown child (h.children other m₁ hm₁ child hinside)
  case shared =>
    intro name other hother
    exact hknown other (h.shared name other hother)
  case minted =>
    intro other m₁ hm₁
    obtain ⟨-, rfl⟩ | hm₁ := hbefore hm₁
    · exact ⟨w.minted, hid, Nat.lt_succ_self _⟩
    · obtain ⟨n, hn, hlt⟩ := h.minted other m₁ hm₁
      exact ⟨n, hn, Nat.lt_succ_of_lt hlt⟩
  case distinct =>
    intro other other' m₁ m₁' hm₁ hm₁' heq
    obtain ⟨rfl, rfl⟩ | hold := hbefore hm₁
    · obtain ⟨rfl, -⟩ | hold' := hbefore hm₁'
      · rfl
      · exact absurd heq.symm (hnew other' m₁' hold')
    · obtain ⟨-, rfl⟩ | hold' := hbefore hm₁'
      · exact absurd heq (hnew other m₁ hold)
      · exact h.distinct other other' m₁ m₁' hold hold' heq

/-- `Idles` is reflexive in a tidy world. -/
theorem World.Idles.refl (h : w.Tidy settings) : w.Idles settings w := ⟨h, .refl _ w⟩

/-- `Idles` is transitive. -/
theorem World.Idles.trans (h : w.Idles settings w') (h' : w'.Idles settings w'') :
    w.Idles settings w'' :=
  ⟨h'.1, h.2.trans h'.2⟩

/-- `Idles` for a machine that is shared under a name. -/
theorem World.Idles.share (h : w.Tidy settings) (hlink : w.HasMachine link) (name : String) :
    w.Idles settings { w with shared := w.shared.insert name link } :=
  ⟨h.share hlink name, .of_eq rfl rfl rfl rfl⟩

/-- `Idles` for `addCell` of a machine that fits, with a new identity. -/
theorem World.Idles.addCell (h : w.Tidy settings) (hid : m.id = .minted w.minted)
    (hengine : m.engine? = none) (hfits : m.Fits settings w.HasMachine)
    (hchild : m.current.state.Within w.HasMachine) :
    w.Idles settings ({ w with minted := w.minted + 1 }.addCell (.machine m)).2 := by
  have hminted : w.Passes (fun _ => True) { w with minted := w.minted + 1 } :=
    .of_eq rfl rfl rfl rfl
  exact ⟨h.addCell hid hengine hfits hchild, hminted.trans (.addCell hengine)⟩

/-- `HasMachine` is kept by `Idles`. -/
theorem World.Idles.known (h : w.Idles settings w') (link : Link) (hlink : w.HasMachine link) :
    w'.HasMachine link :=
  h.2.hasMachine hlink

end Tidy

end Statechart
