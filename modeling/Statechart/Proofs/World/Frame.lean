import Statechart.Proofs.Act
import Statechart.World.Transition

/-! # What a world keeps

Most of what happens in a world leaves its machines in the states they are in. What is made is made
elsewhere, under new identities, and what is written down beside a machine does not move it.

* `Host.IsPassive`: a subscriber that only takes notes.
* `Machine.Alike`: the same machine, standing in the same state.
* **`World.Keeps`**: a world keeps the machines at some links, and its engines.
* `World.Keeps.setCell`, `World.Keeps.addCell`, `World.Keeps.updateEngine`: the changes of which a
  run is made up.
* `Act.ends_notify`: subscribers that are passive leave everything in its place.
* `Act.ends_popPending_of_cons`, `Act.ends_pushPending_of_machine?`: the queue of a machine. -/

namespace Statechart

variable {ρ γ σ : Type}

/-- **`host.observe subscriber` changes nothing but `guest`.** -/
def Host.IsPassive (host : Host ρ γ) (subscriber : Nat) : Prop :=
  ∀ change w, ∃ guest, (host.observe subscriber change).run w = some ((), { w with guest })

/-- All subscribers of `m` are passive. -/
def Machine.IsQuiet (host : Host ρ γ) (m : Machine σ) : Prop :=
  ∀ subscriber ∈ m.listeners.round, host.IsPassive subscriber

/-- **`m'` is the same machine in the same state as `m`.** It may have noted changes below it, and
`engine?` may be another one. -/
structure Machine.Alike (host : Host ρ γ) (m m' : Machine σ) : Prop where
  id : m'.id = m.id
  factory : m'.factory = m.factory
  table : m'.table = m.table
  config : m'.config = m.config
  current : m'.current = m.current
  revision : m.revision ≤ m'.revision
  quiet : m.IsQuiet host → m'.IsQuiet host

/-- `Alike` is reflexive. -/
theorem Machine.Alike.refl (host : Host ρ γ) (m : Machine σ) : m.Alike host m :=
  ⟨rfl, rfl, rfl, rfl, rfl, Nat.le_refl _, fun hq => hq⟩

/-- `Alike` is transitive. -/
theorem Machine.Alike.trans {host : Host ρ γ} {m m' m'' : Machine σ} (h : m.Alike host m')
    (h' : m'.Alike host m'') : m.Alike host m'' :=
  ⟨h'.id.trans h.id, h'.factory.trans h.factory, h'.table.trans h.table, h'.config.trans h.config,
    h'.current.trans h.current, Nat.le_trans h.revision h'.revision,
    fun hq => h'.quiet (h.quiet hq)⟩

namespace World

variable {host : Host ρ γ} {kept kept' : Link → Prop} {w w' w'' : World ρ γ} {link link' : Link}
  {m m' : Machine (StatePlan ρ)}

/-! ## Machines at links -/

/-- `machine? link` is `some m` if and only if `cell? link` is `some (.machine m)`. -/
theorem machine?_eq_some_iff : w.machine? link = some m ↔ w.cell? link = some (.machine m) := by
  rw [machine?]
  constructor
  · intro h
    split at h
    · rename_i hcell
      cases h
      exact hcell
    · cases h
  · intro h
    rw [h]

/-- `id? link` for a machine. -/
theorem id?_of_machine? (h : w.machine? link = some m) : w.id? link = some m.id := by
  rw [id?, machine?_eq_some_iff.1 h]
  rfl

/-- `snapshot? link` for a machine. -/
theorem snapshot?_of_machine? (h : w.machine? link = some m) :
    w.snapshot? link = some m.snapshot := by
  rw [snapshot?, machine?_eq_some_iff.1 h]

/-- `machine? link` is `none` beyond `cells`. -/
theorem machine?_eq_none_of_le (h : w.cells.size ≤ link.place) : w.machine? link = none := by
  have hcell : w.cell? link = none := Array.getElem?_eq_none h
  rw [machine?, hcell]

/-- `machine?` after `setCell` at the link of a machine. -/
theorem machine?_setCell (h : w.machine? link = some m) :
    (w.setCell link (.machine m')).machine? link' =
      if link' = link then some m' else w.machine? link' := by
  rw [machine?, cell?_setCell]
  by_cases heq : link' = link
  · rw [if_pos heq, if_pos heq, machine?_eq_some_iff.1 h]
    rfl
  · rw [if_neg heq, if_neg heq]
    rfl

/-- `machine?` after `setCell`, at the same link. -/
theorem machine?_setCell_self (h : w.machine? link = some m) :
    (w.setCell link (.machine m')).machine? link = some m' :=
  (machine?_setCell h).trans (if_pos rfl)

/-- `machine?` after `setCell` is the new machine, or another one that was there before. -/
theorem machine?_setCell_cases {found : Machine (StatePlan ρ)} (h : w.machine? link = some m)
    (hfound : (w.setCell link (.machine m')).machine? link' = some found) :
    link' = link ∧ found = m' ∨ link' ≠ link ∧ w.machine? link' = some found := by
  rw [machine?_setCell h] at hfound
  split at hfound
  · rename_i heq
    exact Or.inl ⟨heq, (Option.some.inj hfound).symm⟩
  · rename_i hne
    exact Or.inr ⟨hne, hfound⟩

/-- `machine?` after `addCell` of a machine. -/
theorem machine?_addCell :
    (w.addCell (.machine m)).2.machine? link =
      if link = ⟨w.cells.size⟩ then some m else w.machine? link := by
  have hnew : (w.addCell (.machine m)).1 = ⟨w.cells.size⟩ := rfl
  rw [machine?, cell?_addCell, hnew]
  by_cases heq : link = ⟨w.cells.size⟩
  · rw [if_pos heq, if_pos heq]
  · rw [if_neg heq, if_neg heq]
    rfl

/-- `cell?` after `addCell`, at an old link. -/
theorem cell?_addCell_of_cell? {cell cell' : Cell ρ} (h : w.cell? link = some cell) :
    (w.addCell cell').2.cell? link = some cell := by
  rw [cell?_addCell, if_neg, h]
  rintro rfl
  rw [cell?_addCell_link] at h
  cases h

/-- `machine?` after `addCell`, at the link of a machine. -/
theorem machine?_addCell_of_machine? {cell : Cell ρ} (h : w.machine? link = some m) :
    (w.addCell cell).2.machine? link = some m :=
  machine?_eq_some_iff.2 (cell?_addCell_of_cell? (machine?_eq_some_iff.1 h))

/-- `machine?` after `addCell` is the new machine, or one that was there before. -/
theorem machine?_addCell_cases {found : Machine (StatePlan ρ)}
    (hfound : (w.addCell (.machine m)).2.machine? link = some found) :
    link = ⟨w.cells.size⟩ ∧ found = m ∨ w.machine? link = some found := by
  rw [machine?_addCell] at hfound
  split at hfound
  · rename_i heq
    exact Or.inl ⟨heq, (Option.some.inj hfound).symm⟩
  · exact Or.inr hfound

/-! ## Keeping machines and engines -/

/-- **What a world keeps**: the machines at links with `kept` are `Alike`, those at the others are
machines still, and engines keep `root`, `config` and `watchers`. -/
structure Keeps (host : Host ρ γ) (kept : Link → Prop) (w w' : World ρ γ) : Prop where
  machine : ∀ link m, kept link → w.machine? link = some m →
    ∃ m', w'.machine? link = some m' ∧ m.Alike host m'
  isMachine : ∀ link, (w.machine? link).isSome → (w'.machine? link).isSome
  engine : ∀ (number : Nat) (e : Engine), w.engines[number]? = some e →
    ∃ e' : Engine, w'.engines[number]? = some e' ∧ e'.root = e.root ∧ e'.config = e.config ∧
      e'.watchers = e.watchers ∧
      ∀ link ∈ e'.attached, link ∈ e.attached ∨ (w'.machine? link).isSome
  minted : w.minted ≤ w'.minted
  size : w.cells.size ≤ w'.cells.size
  tree : w'.tree? = w.tree?

/-- `Keeps` holds if `cells`, `engines` and `tree?` are the same. -/
theorem Keeps.of_eq (hcells : w'.cells = w.cells) (hengines : w'.engines = w.engines)
    (hminted : w.minted ≤ w'.minted) (htree : w'.tree? = w.tree?) : w.Keeps host kept w' := by
  have hmachine : ∀ link, w'.machine? link = w.machine? link := by
    intro link
    rw [machine?, machine?, cell?, cell?, hcells]
  refine ⟨?machine, ?isMachine, ?engine, hminted, Nat.le_of_eq (by rw [hcells]), htree⟩
  case machine =>
    intro link m _ hm
    exact ⟨m, (hmachine link).trans hm, .refl host m⟩
  case isMachine =>
    intro link hm
    rwa [hmachine]
  case engine =>
    intro number e he
    exact ⟨e, by rw [hengines, he], rfl, rfl, rfl, fun _ => Or.inl⟩

/-- `Keeps` is reflexive. -/
theorem Keeps.refl (host : Host ρ γ) (kept : Link → Prop) (w : World ρ γ) : w.Keeps host kept w :=
  .of_eq rfl rfl (Nat.le_refl _) rfl

/-- `Keeps` is transitive. -/
theorem Keeps.trans (h : w.Keeps host kept w') (h' : w'.Keeps host kept w'') :
    w.Keeps host kept w'' := by
  refine ⟨?machine, ?isMachine, ?engine, Nat.le_trans h.minted h'.minted,
    Nat.le_trans h.size h'.size, h'.tree.trans h.tree⟩
  case machine =>
    intro link m hkept hm
    obtain ⟨m', hm', halike⟩ := h.machine link m hkept hm
    obtain ⟨m'', hm'', halike'⟩ := h'.machine link m' hkept hm'
    exact ⟨m'', hm'', halike.trans halike'⟩
  case isMachine =>
    intro link hm
    exact h'.isMachine link (h.isMachine link hm)
  case engine =>
    intro number e he
    obtain ⟨e', he', hroot, hconfig, hwatchers, hattached⟩ := h.engine number e he
    obtain ⟨e'', he'', hroot', hconfig', hwatchers', hattached'⟩ := h'.engine number e' he'
    refine ⟨e'', he'', hroot'.trans hroot, hconfig'.trans hconfig, hwatchers'.trans hwatchers, ?_⟩
    intro link hlink
    -- Whoever is on the list now was there before, or has come since, as a machine.
    rcases hattached' link hlink with hlink | hlink
    · exact (hattached link hlink).imp_right (h'.isMachine link)
    · exact Or.inr hlink

/-- `Keeps` for fewer links. -/
theorem Keeps.mono (h : w.Keeps host kept w') (hkept : ∀ link, kept' link → kept link) :
    w.Keeps host kept' w' :=
  { h with machine := fun link m hk => h.machine link m (hkept link hk) }

/-- **`Keeps` for `setCell`** with a machine that is `Alike` if its link is `kept`. -/
theorem Keeps.setCell (hm : w.machine? link = some m) (halike : kept link → m.Alike host m') :
    w.Keeps host kept (w.setCell link (.machine m')) := by
  refine ⟨?machine, ?isMachine, fun number e he => ⟨e, he, rfl, rfl, rfl, fun _ => Or.inl⟩,
    Nat.le_refl _, ?size, rfl⟩
  case machine =>
    -- The machine itself, or another one that is as it was.
    intro link' m₀ hkept hm₀
    rw [machine?_setCell hm]
    by_cases heq : link' = link
    · subst heq
      rw [hm] at hm₀
      cases hm₀
      exact ⟨m', if_pos rfl, halike hkept⟩
    · exact ⟨m₀, by rw [if_neg heq, hm₀], .refl host m₀⟩
  case isMachine =>
    intro link' hsome
    rw [machine?_setCell hm]
    by_cases heq : link' = link
    · rw [if_pos heq]
      rfl
    · rwa [if_neg heq]
  case size => exact Nat.le_of_eq Array.size_setIfInBounds.symm

/-- **`Keeps` for `addCell`.** -/
theorem Keeps.addCell : w.Keeps host kept (w.addCell (.machine m)).2 := by
  refine ⟨?machine, ?isMachine, fun number e he => ⟨e, he, rfl, rfl, rfl, fun _ => Or.inl⟩,
    Nat.le_refl _, ?size, rfl⟩
  case machine =>
    intro link m₀ _ hm₀
    exact ⟨m₀, machine?_addCell_of_machine? hm₀, .refl host m₀⟩
  case isMachine =>
    intro link hsome
    obtain ⟨m₀, hm₀⟩ := Option.isSome_iff_exists.1 hsome
    rw [machine?_addCell_of_machine? hm₀]
    rfl
  case size =>
    rw [World.addCell, Array.size_push]
    exact Nat.le_succ _

/-- **`Keeps` for `engines.modify number f`**, if `f` keeps `root`, `config` and `watchers`. -/
theorem Keeps.updateEngine {number : Nat} {f : Engine → Engine}
    (hf : ∀ e : Engine, w.engines[number]? = some e → (f e).root = e.root ∧
      (f e).config = e.config ∧ (f e).watchers = e.watchers ∧
      ∀ link ∈ (f e).attached, link ∈ e.attached ∨ (w.machine? link).isSome) :
    w.Keeps host kept { w with engines := w.engines.modify number f } := by
  refine ⟨fun link m _ hm => ⟨m, hm, .refl host m⟩, fun link hm => hm, ?_, Nat.le_refl _,
    Nat.le_refl _, rfl⟩
  intro other e he
  rw [Array.getElem?_modify, he]
  by_cases heq : number = other
  · subst heq
    obtain ⟨hroot, hconfig, hwatchers, hattached⟩ := hf e he
    exact ⟨f e, by rw [if_pos rfl]; rfl, hroot, hconfig, hwatchers, hattached⟩
  · exact ⟨e, if_neg heq, rfl, rfl, rfl, fun _ => Or.inl⟩

/-- `id?` is kept by `Keeps`. -/
theorem Keeps.id? (h : w.Keeps host kept w') (hkept : kept link) (hm : w.machine? link = some m) :
    w'.id? link = w.id? link := by
  obtain ⟨m', hm', halike⟩ := h.machine link m hkept hm
  rw [id?_of_machine? hm, id?_of_machine? hm', halike.id]

end World

namespace Act

variable {host : Host ρ γ} {w : World ρ γ} {link : Link} {m : Machine (StatePlan ρ)}

/-- `Ends` for `setCell`. -/
theorem ends_setCell {cell : Cell ρ} :
    Ends (setCell link cell) w fun (_ : Unit) w' => w' = w.setCell link cell :=
  ⟨(), _, rfl, rfl⟩

/-- **`notify` changes nothing but `guest`** if `m.IsQuiet host`. -/
theorem ends_notify {change : Change} (hm : w.machine? link = some m) (hq : m.IsQuiet host) :
    Ends (notify host link change) w fun _ w' => ∃ guest, w' = { w with guest } := by
  rw [notify]
  refine ends_get ?_
  simp only [hm]
  -- Whatever the subscribers remember, the world is the same but for that.
  refine ends_forM ⟨w.guest, rfl⟩ fun subscriber hsubscriber w₁ hw₁ => ?_
  obtain ⟨guest, rfl⟩ := hw₁
  obtain ⟨guest', hrun⟩ := hq subscriber hsubscriber change { w with guest }
  exact ⟨(), _, hrun, guest', rfl⟩

/-! ## The queue of a machine -/

/-- `popPending` gives `none` if the queue is empty. -/
theorem ends_popPending_of_nil (hm : w.machine? link = some m) (hpending : m.pending = []) :
    Ends (popPending link) w fun event? w' => event? = none ∧ w' = w := by
  rw [popPending]
  refine ends_get ?_
  simp only [hm, hpending]
  exact ends_pure ⟨rfl, rfl⟩

/-- `popPending` gives the first event of the queue. -/
theorem ends_popPending_of_cons {event : Event} {rest : List Event}
    (hm : w.machine? link = some m) (hpending : m.pending = event :: rest) :
    Ends (popPending link) w fun event? w' => event? = some event ∧
      w'.machine? link = some { m with pending := rest } := by
  rw [popPending]
  refine ends_get ?_
  simp only [hm, hpending]
  refine ends_bind ends_setCell ?_
  rintro _ _ rfl
  exact ends_pure ⟨rfl, World.machine?_setCell_self hm⟩

/-- `pushPending` puts `events` at the end of the queue. -/
theorem ends_pushPending_of_machine? (hm : w.machine? link = some m) (events : List Event) :
    Ends (pushPending link events) w fun _ w' =>
      w'.machine? link = some { m with pending := m.pending ++ events } := by
  rw [pushPending, updateMachine]
  refine ends_get ?_
  simp only [hm]
  exact ends_setCell.mono (by rintro _ _ rfl; exact World.machine?_setCell_self hm)

/-- `cancelPending` empties the queue. -/
theorem ends_cancelPending_of_machine? (hm : w.machine? link = some m) :
    Ends (cancelPending link) w fun _ w' =>
      w'.machine? link = some { m with pending := [] } := by
  rw [cancelPending]
  refine ends_get ?_
  simp only [hm]
  refine ends_bind ends_setCell ?_
  rintro _ _ rfl
  exact ends_pure (World.machine?_setCell_self hm)

/-- `discard cancelPending` empties the queue. -/
theorem ends_discard_cancelPending (hm : w.machine? link = some m) :
    Ends (discard (cancelPending link)) w fun _ w' =>
      w'.machine? link = some { m with pending := [] } :=
  ends_discard (ends_cancelPending_of_machine? hm)

end Act

end Statechart
