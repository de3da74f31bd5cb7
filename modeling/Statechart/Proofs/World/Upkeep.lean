import Statechart.Proofs.World.Frame

/-! # Machines to which nothing happens

Much of what happens in a world moves no machine, or just one. What is kept besides is the state of
every other machine with all that belongs to it, and who is registered where.

* **`Machine.Unmoved`**: nothing happened to a machine.
* **`World.Stays`**: nothing happened to the machines at some links.
* **`World.Passes`**: registrations are kept as well.
* `World.Passes.setCell`, `World.Passes.addCell`: the changes of which a run is made up. -/

namespace Statechart

variable {ρ γ σ : Type}

/-- **Nothing happened to `m`**: its parts, its state, its last change, its history and its queue
are the same. It may have other subscribers, and `engine?` may be another one. -/
structure Machine.Unmoved (m m' : Machine σ) : Prop where
  id : m'.id = m.id
  factory : m'.factory = m.factory
  table : m'.table = m.table
  config : m'.config = m.config
  current : m'.current = m.current
  change? : m'.change? = m.change?
  revision : m'.revision = m.revision
  history : m'.history = m.history
  pending : m'.pending = m.pending

/-- `Unmoved` is reflexive. -/
theorem Machine.Unmoved.refl (m : Machine σ) : m.Unmoved m :=
  ⟨rfl, rfl, rfl, rfl, rfl, rfl, rfl, rfl, rfl⟩

/-- `Unmoved` is transitive. -/
theorem Machine.Unmoved.trans {m m' m'' : Machine σ} (h : m.Unmoved m') (h' : m'.Unmoved m'') :
    m.Unmoved m'' :=
  ⟨h'.id.trans h.id, h'.factory.trans h.factory, h'.table.trans h.table, h'.config.trans h.config,
    h'.current.trans h.current, h'.change?.trans h.change?, h'.revision.trans h.revision,
    h'.history.trans h.history, h'.pending.trans h.pending⟩

/-- `snapshot` is kept by `Unmoved`. -/
theorem Machine.Unmoved.snapshot_eq {m m' : Machine σ} (h : m.Unmoved m') :
    m'.snapshot = m.snapshot := by
  simp [Machine.snapshot, h.table, h.current, h.revision]

/-- `Unmoved` is kept by `commit`. -/
theorem Machine.Unmoved.commit {m m' : Machine σ} (h : m.Unmoved m') (change : Change) :
    (m.commit change).Unmoved (m'.commit change) := by
  have hhistory : (m'.commit change).history = (m.commit change).history := by
    show m'.history.record change = m.history.record change
    rw [h.history]
  exact ⟨h.id, h.factory, h.table, h.config, rfl, rfl, rfl, hhistory, h.pending⟩

namespace World

variable {kept kept' : Link → Prop} {w w' w'' : World ρ γ} {link : Link}
  {m m' : Machine (StatePlan ρ)}

/-- **Nothing happened to the machines at links with `kept`** (`Machine.Unmoved`). Those at the
others keep their identities, and every engine its root and its settings. -/
structure Stays (kept : Link → Prop) (w w' : World ρ γ) : Prop where
  machine : ∀ link m, w.machine? link = some m → ∃ m', w'.machine? link = some m' ∧ m'.id = m.id ∧
    (kept link → m.Unmoved m')
  engine : ∀ (number : Nat) (e : Engine), w.engines[number]? = some e →
    ∃ e' : Engine, w'.engines[number]? = some e' ∧ e'.root = e.root ∧ e'.config = e.config
  tree : w'.tree? = w.tree?
  busy : w'.busy = w.busy

/-- **`Stays`, and registrations are kept**: every machine has its `engine?`, a new one has none,
and engines keep `attached`. -/
structure Passes (kept : Link → Prop) (w w' : World ρ γ) : Prop extends Stays kept w w' where
  registered : ∀ link m m', w.machine? link = some m → w'.machine? link = some m' →
    m'.engine? = m.engine?
  fresh : ∀ link m', w.machine? link = none → w'.machine? link = some m' → m'.engine? = none
  attached : ∀ (number : Nat) (e e' : Engine), w.engines[number]? = some e →
    w'.engines[number]? = some e' → e'.attached = e.attached

/-! ### Keeping everything -/

/-- `machine?` depends on `cells` alone. -/
theorem machine?_of_cells (hcells : w'.cells = w.cells) : w'.machine? = w.machine? := by
  funext link
  rw [machine?, machine?, cell?, cell?, hcells]

/-- `Passes` holds if `cells`, `engines`, `tree?` and `busy` are the same. -/
theorem Passes.of_eq (hcells : w'.cells = w.cells) (hengines : w'.engines = w.engines)
    (htree : w'.tree? = w.tree?) (hbusy : w'.busy = w.busy) : w.Passes kept w' := by
  have hmachine := congrFun (machine?_of_cells hcells)
  refine ⟨⟨?machine, ?engine, htree, hbusy⟩, ?registered, ?fresh, ?attached⟩
  case machine =>
    intro link m hm
    exact ⟨m, (hmachine link).trans hm, rfl, fun _ => .refl m⟩
  case engine =>
    intro number e he
    exact ⟨e, by rw [hengines, he], rfl, rfl⟩
  case registered =>
    intro link m m' hm hm'
    rw [hmachine, hm] at hm'
    cases hm'
    rfl
  case fresh =>
    intro link m' hm hm'
    rw [hmachine, hm] at hm'
    cases hm'
  case attached =>
    intro number e e' he he'
    rw [hengines, he] at he'
    cases he'
    rfl

/-- `Passes` is reflexive. -/
theorem Passes.refl (kept : Link → Prop) (w : World ρ γ) : w.Passes kept w :=
  .of_eq rfl rfl rfl rfl

/-- `Stays` is reflexive. -/
theorem Stays.refl (kept : Link → Prop) (w : World ρ γ) : w.Stays kept w :=
  (Passes.refl kept w).toStays

/-- `Stays` is transitive. -/
theorem Stays.trans (h : w.Stays kept w') (h' : w'.Stays kept w'') : w.Stays kept w'' := by
  refine ⟨?_, ?_, h'.tree.trans h.tree, h'.busy.trans h.busy⟩
  · intro link m hm
    obtain ⟨m', hm', hid, hunmoved⟩ := h.machine link m hm
    obtain ⟨m'', hm'', hid', hunmoved'⟩ := h'.machine link m' hm'
    exact ⟨m'', hm'', hid'.trans hid, fun hk => (hunmoved hk).trans (hunmoved' hk)⟩
  · intro number e he
    obtain ⟨e', he', hroot, hconfig⟩ := h.engine number e he
    obtain ⟨e'', he'', hroot', hconfig'⟩ := h'.engine number e' he'
    exact ⟨e'', he'', hroot'.trans hroot, hconfig'.trans hconfig⟩

/-- `Passes` is transitive. -/
theorem Passes.trans (h : w.Passes kept w') (h' : w'.Passes kept w'') : w.Passes kept w'' := by
  refine ⟨h.toStays.trans h'.toStays, ?registered, ?fresh, ?attached⟩
  case registered =>
    intro link m m'' hm hm''
    obtain ⟨m', hm', -⟩ := h.machine link m hm
    exact (h'.registered link m' m'' hm' hm'').trans (h.registered link m m' hm hm')
  case fresh =>
    intro link m'' hm hm''
    cases hm' : w'.machine? link with
    | none => exact h'.fresh link m'' hm' hm''
    | some m' => exact (h'.registered link m' m'' hm' hm'').trans (h.fresh link m' hm hm')
  case attached =>
    intro number e e'' he he''
    obtain ⟨e', he', -⟩ := h.engine number e he
    exact (h'.attached number e' e'' he' he'').trans (h.attached number e e' he he')

/-- **`engine?` of every machine is the number of an engine that there is.** -/
def EnginesKnown (w : World ρ γ) : Prop :=
  ∀ link m number, w.machine? link = some m → m.engine? = some number → number < w.engines.size

/-- `EnginesKnown` is kept by `Passes`. -/
theorem Passes.enginesKnown (h : w.Passes kept w') (hw : w.EnginesKnown) : w'.EnginesKnown := by
  intro link m' number hm' hengine
  cases hm : w.machine? link with
  | none =>
    rw [h.fresh link m' hm hm'] at hengine
    cases hengine
  | some m =>
    rw [h.registered link m m' hm hm'] at hengine
    have he := Array.getElem?_eq_getElem (hw link m number hm hengine)
    obtain ⟨e', he', -⟩ := h.engine number _ he
    exact (Array.getElem?_eq_some_iff.1 he').1

/-- `Stays` for fewer links. -/
theorem Stays.mono (h : w.Stays kept w') (hkept : ∀ link, kept' link → kept link) :
    w.Stays kept' w' := by
  refine ⟨fun link m hm => ?_, h.engine, h.tree, h.busy⟩
  obtain ⟨m', hm', hid, hunmoved⟩ := h.machine link m hm
  exact ⟨m', hm', hid, fun hk => hunmoved (hkept link hk)⟩

/-- `Passes` for fewer links. -/
theorem Passes.mono (h : w.Passes kept w') (hkept : ∀ link, kept' link → kept link) :
    w.Passes kept' w' :=
  ⟨h.toStays.mono hkept, h.registered, h.fresh, h.attached⟩

/-! ### Changing cells -/

/-- **`Stays` for `setCell`** with a machine that is `Unmoved` if its link is `kept`. -/
theorem Stays.setCell (hm : w.machine? link = some m) (hid : m'.id = m.id)
    (hkept : kept link → m.Unmoved m') : w.Stays kept (w.setCell link (.machine m')) := by
  refine ⟨?_, fun number e he => ⟨e, he, rfl, rfl⟩, rfl, rfl⟩
  intro other m₀ hm₀
  rw [machine?_setCell hm]
  by_cases heq : other = link
  · subst heq
    rw [hm] at hm₀
    cases hm₀
    exact ⟨m', if_pos rfl, hid, hkept⟩
  · exact ⟨m₀, by rw [if_neg heq, hm₀], rfl, fun _ => .refl m₀⟩

/-- **`Passes` for `setCell`** with a machine that has the same `engine?`. -/
theorem Passes.setCell (hm : w.machine? link = some m) (hid : m'.id = m.id)
    (hengine : m'.engine? = m.engine?) (hkept : kept link → m.Unmoved m') :
    w.Passes kept (w.setCell link (.machine m')) := by
  refine ⟨.setCell hm hid hkept, ?registered, ?fresh, ?attached⟩
  case registered =>
    -- The machine that is replaced, or another one that stays.
    intro other m₀ m₁ hm₀ hm₁
    obtain ⟨rfl, rfl⟩ | ⟨-, hm₁⟩ := machine?_setCell_cases hm hm₁
    · rw [hm] at hm₀
      cases hm₀
      exact hengine
    · rw [hm₀] at hm₁
      cases hm₁
      rfl
  case fresh =>
    intro other m₁ hnone hm₁
    obtain ⟨rfl, rfl⟩ | ⟨-, hm₁⟩ := machine?_setCell_cases hm hm₁
    · rw [hm] at hnone
      cases hnone
    · rw [hnone] at hm₁
      cases hm₁
  case attached =>
    intro number e e' he he'
    have hsame : w.engines[number]? = some e' := he'
    rw [he] at hsame
    cases hsame
    rfl

/-- **`Passes` for `addCell`** of a machine without `engine?`. -/
theorem Passes.addCell (hengine : m.engine? = none) :
    w.Passes kept (w.addCell (.machine m)).2 := by
  refine ⟨⟨?machine, fun number e he => ⟨e, he, rfl, rfl⟩, rfl, rfl⟩, ?registered, ?fresh,
    ?attached⟩
  case machine =>
    intro link m₀ hm₀
    exact ⟨m₀, machine?_addCell_of_machine? hm₀, rfl, fun _ => .refl m₀⟩
  case registered =>
    intro link m₀ m₁ hm₀ hm₁
    rw [machine?_addCell_of_machine? hm₀] at hm₁
    cases hm₁
    rfl
  case fresh =>
    intro link m₁ hnone hm₁
    obtain ⟨-, rfl⟩ | hm₁ := machine?_addCell_cases hm₁
    · exact hengine
    · rw [hnone] at hm₁
      cases hm₁
  case attached =>
    intro number e e' he he'
    have hsame : w.engines[number]? = some e' := he'
    rw [he] at hsame
    cases hsame
    rfl

/-! ### Changing engines -/

/-- **`Stays` for `engines.modify number f`**, if `f` keeps `root` and `config`. -/
theorem Stays.updateEngine {number : Nat} {f : Engine → Engine}
    (hf : ∀ e : Engine, w.engines[number]? = some e → (f e).root = e.root ∧
      (f e).config = e.config) :
    w.Stays kept { w with engines := w.engines.modify number f } := by
  refine ⟨fun link m hm => ⟨m, hm, rfl, fun _ => .refl m⟩, ?_, rfl, rfl⟩
  intro other e he
  rw [Array.getElem?_modify, he]
  by_cases heq : number = other
  · subst heq
    exact ⟨f e, by rw [if_pos rfl]; rfl, hf e he⟩
  · exact ⟨e, if_neg heq, rfl, rfl⟩

/-- **`Passes` for `engines.modify number f`**, if `f` keeps `root`, `config` and `attached`. -/
theorem Passes.updateEngine {number : Nat} {f : Engine → Engine}
    (hf : ∀ e : Engine, w.engines[number]? = some e → (f e).root = e.root ∧
      (f e).config = e.config ∧ (f e).attached = e.attached) :
    w.Passes kept { w with engines := w.engines.modify number f } := by
  refine ⟨.updateEngine fun e he => ⟨(hf e he).1, (hf e he).2.1⟩, ?registered, ?fresh, ?attached⟩
  case registered =>
    intro link m m' hm hm'
    have hsame : w.machine? link = some m' := hm'
    rw [hm] at hsame
    cases hsame
    rfl
  case fresh =>
    intro link m' hnone hm'
    have hsame : w.machine? link = some m' := hm'
    rw [hnone] at hsame
    cases hsame
  case attached =>
    -- Only what is kept of an engine is compared, and the change keeps it.
    intro other e e' he he'
    have hmodified : (w.engines.modify number f)[other]? = some e' := he'
    rw [Array.getElem?_modify, he] at hmodified
    by_cases heq : number = other
    · subst heq
      rw [if_pos rfl] at hmodified
      cases hmodified
      exact (hf e he).2.2
    · rw [if_neg heq] at hmodified
      cases hmodified
      rfl

end World

end Statechart
