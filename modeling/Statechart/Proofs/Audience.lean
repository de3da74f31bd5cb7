import Statechart.Proofs.Changelog

/-! # The audience of a machine

Whoever has subscribed to a machine is told of its changes, one subscriber after the other. A
subscriber that is told may change the machine again. There is a round for the new change then, and
only after it does the round at hand go on: whoever comes later in it learns of the new change
first.

* `Diary`, **`Surroundings.keepingDiary`**: it is written down who is told of which change, and who
  changes the machine when told.
* `World.Errands`: errands, one after the other.
* `Seat`, **`World.Seats`**: a subscriber of a machine, behind others that are told before it.
* `World.LeavesSeat`, **`Surroundings.LeavesSeat`**: what may happen beside errands.
* `Seat.Follows`: a subscriber has been told of each change once, and of all in order exactly if
  nobody ahead of it has changed the machine.
* **`World.Errands.follows_changes`**: so it is with every subscriber after any errands. -/

namespace Statechart

variable {ρ γ : Type}

/-! ## Diaries -/

/-- **A diary**, beside what the surroundings remember (`guest`). -/
structure Diary (γ : Type) where
  guest : γ
  /-- Who was told of which change, one call after the other. -/
  told : List (Nat × Change) := []
  /-- Those who have changed the machine when they were told of a change. -/
  meddlers : List Nat := []

/-- **The changes that `subscriber` was told of** in `told`, in order. -/
def heardBy (subscriber : Nat) (told : List (Nat × Change)) : List Change :=
  (told.filter (·.1 = subscriber)).map (·.2)

section HeardBy

variable {subscriber other : Nat} {change : Change} {told later : List (Nat × Change)}

@[simp]
theorem heardBy_append :
    heardBy subscriber (told ++ later) = heardBy subscriber told ++ heardBy subscriber later := by
  rw [heardBy, List.filter_append, List.map_append]
  rfl

@[simp]
theorem heardBy_cons_self :
    heardBy subscriber ((subscriber, change) :: told) = change :: heardBy subscriber told := by
  simp [heardBy]

/-- What `other` is told is not in `heardBy subscriber`. -/
theorem heardBy_cons_of_ne (hne : other ≠ subscriber) :
    heardBy subscriber ((other, change) :: told) = heardBy subscriber told := by
  simp [heardBy, hne]

end HeardBy

namespace World

/-- `w` with `(subscriber, change)` at the end of `told`. -/
def tell (subscriber : Nat) (change : Change) (w : World ρ (Diary γ)) : World ρ (Diary γ) :=
  { w with guest := { w.guest with told := w.guest.told ++ [(subscriber, change)] } }

/-- `w` with `subscriber` at the end of `meddlers`. -/
def blame (subscriber : Nat) (w : World ρ (Diary γ)) : World ρ (Diary γ) :=
  { w with guest := { w.guest with meddlers := w.guest.meddlers ++ [subscriber] } }

/-- The `revision` of the machine at `link`. -/
def revision? (link : Link) (w : World ρ γ) : Option Nat := (w.machine? link).map (·.revision)

end World

/-- **`around` with a diary** of the machine at `link`: `observe` does `tell` first, and `blame` at
the end if the machine has another `revision?` by then. -/
def Surroundings.keepingDiary (link : Link) (around : Surroundings ρ (Diary γ)) :
    Surroundings ρ (Diary γ) :=
  { around with
    observe := fun host subscriber change => do
      modify (·.tell subscriber change)
      let before := (← get).revision? link
      around.observe host subscriber change
      if (← get).revision? link ≠ before then modify (·.blame subscriber) }

/-! ## Errands, one after the other -/

/-- **Errands, one after the other**, to any machines, with anything that `passes` in between. -/
inductive World.Errands (host : Host ρ γ) (root : Link) (passes : World ρ γ → World ρ γ → Prop) :
    World ρ γ → World ρ γ → Prop
  | done {w : World ρ γ} : World.Errands host root passes w w
  | aside {w w' w'' : World ρ γ} : passes w w' → World.Errands host root passes w' w'' →
    World.Errands host root passes w w''
  | errand {w w' w'' : World ρ γ} {errand : Errand} :
    (errand.perform host root).run w = some ((), w') → World.Errands host root passes w' w'' →
    World.Errands host root passes w w''

/-- `World.Errands` keep an invariant `J` that `passes` keeps, if the host echoes in `EchoesCalls`
with `J`. -/
theorem World.Errands.upholds {host host' : Host ρ γ} {root : Link}
    {passes : World ρ γ → World ρ γ → Prop} {J : World ρ γ → Prop} {w w' : World ρ γ}
    (h : w.Errands host root passes w') (hecho : host.EchoesCalls J host')
    (hpasses : ∀ w w', J w → passes w w' → J w') (hw : J w) : J w' := by
  induction h with
  | done => exact hw
  | aside hpass _ ih => exact ih (hpasses _ _ hw hpass)
  | errand hrun _ ih => exact ih ((hecho.routing.perform _ hw).gives.2 _ _ hrun)

/-! ## Seats -/

/-- **A seat in the audience of the machine at `link`**: a `subscriber`, and those `ahead` that are
told before it. -/
structure Seat where
  link : Link
  ahead : List Nat
  subscriber : Nat
  apart : subscriber ∉ ahead

/-- `number` is the subscriber of the seat or ahead of it. -/
def Seat.Involves (seat : Seat) (number : Nat) : Prop :=
  number = seat.subscriber ∨ number ∈ seat.ahead

/-- **`w` has the seat**: the machine at `seat.link` tells those in `seat.ahead`, then
`seat.subscriber`, then others, and nobody of the seat has subscribed twice, or to another
machine. -/
structure World.Seats (seat : Seat) (w : World ρ γ) : Prop where
  machine : ∃ m behind, w.machine? seat.link = some m ∧ m.current.since ≤ m.revision ∧
    m.listeners.round = seat.ahead ++ seat.subscriber :: behind ∧
    ∀ number ∈ behind, ¬ seat.Involves number
  others : ∀ other m, other ≠ seat.link → w.machine? other = some m →
    ∀ number ∈ m.listeners.round, ¬ seat.Involves number

/-- **The seat is left alone**: the machine keeps its record (`KeepsRecordAt`), `Seats` is kept, and
nothing is added to `told` or to `meddlers`. -/
structure World.LeavesSeat (seat : Seat) (w w' : World ρ (Diary γ)) : Prop where
  record : w.KeepsRecordAt seat.link w'
  seats : w.Seats seat → w'.Seats seat
  told : w'.guest.told = w.guest.told
  meddlers : w'.guest.meddlers = w.guest.meddlers

namespace World

variable {seat : Seat}

/-- **`w` has a seat for every subscriber of a machine**, if nobody has subscribed to it twice, or
to another machine. -/
theorem seats_of_nodup {w : World ρ γ} {link : Link} {m : Machine (StatePlan ρ)}
    {ahead behind : List Nat} {subscriber : Nat} (hm : w.machine? link = some m)
    (hsince : m.current.since ≤ m.revision)
    (hround : m.listeners.round = ahead ++ subscriber :: behind) (hnodup : m.listeners.round.Nodup)
    (halone : ∀ other m', other ≠ link → w.machine? other = some m' →
      m.listeners.round.Disjoint m'.listeners.round) :
    ∃ apart, w.Seats ⟨link, ahead, subscriber, apart⟩ := by
  rw [hround, List.nodup_append, List.nodup_cons] at hnodup
  obtain ⟨-, ⟨hsubscriber, -⟩, hahead⟩ := hnodup
  refine ⟨fun hmem => hahead _ hmem _ List.mem_cons_self rfl,
    ⟨m, behind, hm, hsince, hround, ?_⟩, ?_⟩
  · rintro number hbehind (rfl | hmem)
    · exact hsubscriber hbehind
    · exact hahead _ hmem _ (List.mem_cons_of_mem _ hbehind) rfl
  · intro other m' hne hm' number hnumber hinvolves
    refine halone other m' hne hm' ?_ hnumber
    rw [hround]
    rcases hinvolves with rfl | hmem
    · exact List.mem_append_right _ List.mem_cons_self
    · exact List.mem_append_left _ hmem

/-- `Seats` depends on `machine?` alone. -/
theorem Seats.of_machine? {w w' : World ρ γ} (h : w.Seats seat)
    (hmachines : w'.machine? = w.machine?) : w'.Seats seat := by
  obtain ⟨hmachine, hothers⟩ := h
  exact ⟨by rwa [hmachines], by rwa [hmachines]⟩

/-- `Seats` for `setCell` with a machine that has the same `listeners`. -/
theorem Seats.setCell {w : World ρ γ} {link : Link} {m m' : Machine (StatePlan ρ)}
    (h : w.Seats seat) (hm : w.machine? link = some m) (hlisteners : m'.listeners = m.listeners)
    (hsince : link = seat.link → m.current.since ≤ m.revision → m'.current.since ≤ m'.revision) :
    (w.setCell link (.machine m')).Seats seat := by
  obtain ⟨⟨m₀, behind, hm₀, hsince₀, hround, hbehind⟩, hothers⟩ := h
  constructor
  · -- The machine of the seat, and then the others.
    by_cases heq : seat.link = link
    · subst heq
      rw [hm] at hm₀
      cases hm₀
      exact ⟨m', behind, machine?_setCell_self hm, hsince rfl hsince₀, hlisteners ▸ hround, hbehind⟩
    · refine ⟨m₀, behind, ?_, hsince₀, hround, hbehind⟩
      rw [machine?_setCell hm, if_neg heq, hm₀]
  · intro other m₁ hne hm₁
    obtain ⟨rfl, rfl⟩ | ⟨-, hm₁⟩ := machine?_setCell_cases hm hm₁
    · rw [hlisteners]
      exact hothers _ m hne hm
    · exact hothers other m₁ hne hm₁

namespace LeavesSeat

variable {w w' w'' : World ρ (Diary γ)} {link : Link} {m m' : Machine (StatePlan ρ)}

/-- `LeavesSeat` is reflexive. -/
theorem refl (seat : Seat) (w : World ρ (Diary γ)) : w.LeavesSeat seat w :=
  ⟨.refl _ w, id, rfl, rfl⟩

/-- `LeavesSeat` is transitive. -/
theorem trans (h : w.LeavesSeat seat w') (h' : w'.LeavesSeat seat w'') : w.LeavesSeat seat w'' :=
  ⟨h.record.trans h'.record, fun hw => h'.seats (h.seats hw), h'.told.trans h.told,
    h'.meddlers.trans h.meddlers⟩

/-- `LeavesSeat` holds if `cells` and `guest` are the same. -/
theorem of_cells (hcells : w'.cells = w.cells) (hguest : w'.guest = w.guest) :
    w.LeavesSeat seat w' :=
  ⟨.of_cells hcells, fun hw => hw.of_machine? (machine?_of_cells hcells), by rw [hguest],
    by rw [hguest]⟩

/-- `LeavesSeat` for `setCell` with a machine that has the same `listeners`, and the same record if
it is that of the seat. -/
theorem setCell (hm : w.machine? link = some m) (hlisteners : m'.listeners = m.listeners)
    (hkeeps : link = seat.link → m.KeepsRecord m') :
    w.LeavesSeat seat (w.setCell link (.machine m')) := by
  refine ⟨?_, fun hw => hw.setCell hm hlisteners fun heq hsince => ?_, rfl, rfl⟩
  · by_cases heq : link = seat.link
    · subst heq
      exact .setCell hm (hkeeps rfl)
    · exact .setCell_of_ne (Ne.symm heq)
  · rwa [(hkeeps heq).current, (hkeeps heq).revision]

/-- `LeavesSeat` for a device with another memory. -/
theorem device {id : MachineId} {device : Device} {memory memory' : Nat}
    (hcell : w.cell? link = some (.device id device memory)) :
    w.LeavesSeat seat (w.setCell link (.device id device memory')) := by
  have hmachines : (w.setCell link (.device id device memory')).machine? = w.machine? := by
    funext other
    rw [machine?, machine?, cell?_setCell]
    by_cases heq : other = link
    · subst heq
      rw [if_pos rfl, hcell]
      rfl
    · rw [if_neg heq]
  exact ⟨fun m hm => ⟨m, by rw [hmachines, hm], .refl m⟩, fun hw => hw.of_machine? hmachines, rfl,
    rfl⟩

/-- `LeavesSeat` for `addCell` without subscribers. -/
theorem addCell (w : World ρ (Diary γ)) {cell : Cell ρ}
    (hcell : ∀ m, cell = .machine m → m.listeners.round = []) :
    w.LeavesSeat seat (w.addCell cell).2 := by
  refine ⟨(Rests.addCell w cell).machine _, ?_, rfl, rfl⟩
  rintro ⟨⟨m₀, behind, hm₀, hsince, hround, hbehind⟩, hothers⟩
  refine ⟨⟨m₀, behind, ?_, hsince, hround, hbehind⟩, fun other m hne hm number hnumber => ?_⟩
  · exact machine?_addCell_of_machine? hm₀
  · rw [machine?_eq_some_iff, cell?_addCell] at hm
    split at hm
    · rw [hcell m (Option.some.inj hm)] at hnumber
      cases hnumber
    · exact hothers other m hne (machine?_eq_some_iff.2 hm) number hnumber

end LeavesSeat

/-- `LeavesSeat seat` is kept by whatever makes new cells (`IsGrowth`). -/
theorem isGrowth_leavesSeat (seat : Seat) :
    IsGrowth (LeavesSeat seat : World ρ (Diary γ) → World ρ (Diary γ) → Prop) :=
  ⟨.refl seat, fun _ _ _ => .trans, fun _ _ => .of_cells rfl rfl, fun _ _ => .of_cells rfl rfl,
    fun w _ hcell => .addCell w hcell⟩

end World

/-! ## What a subscriber has heard -/

namespace Seat

variable {seat : Seat} {changes later : List Change} {calls calls' : List (Nat × Change)}
  {meddlers meddlers' : List Nat} {change : Change} {number : Nat}

/-- **The seat is undisturbed**: nobody in `seat.ahead` is among the `meddlers`. -/
def IsUndisturbed (seat : Seat) (meddlers : List Nat) : Prop :=
  ∀ number ∈ seat.ahead, number ∉ meddlers

/-- `IsUndisturbed []`. -/
theorem isUndisturbed_nil : seat.IsUndisturbed [] := fun _ _ => List.not_mem_nil

/-- `IsUndisturbed (meddlers ++ meddlers')` is `IsUndisturbed` for both. -/
theorem isUndisturbed_append :
    seat.IsUndisturbed (meddlers ++ meddlers') ↔
      seat.IsUndisturbed meddlers ∧ seat.IsUndisturbed meddlers' := by
  simp only [IsUndisturbed, List.mem_append, not_or, forall_and]

/-- `IsUndisturbed [number]` if and only if `number ∉ seat.ahead`. -/
theorem isUndisturbed_singleton : seat.IsUndisturbed [number] ↔ number ∉ seat.ahead := by
  simp only [IsUndisturbed, List.mem_singleton]
  exact ⟨fun h hmem => h number hmem rfl, fun h _ hmem heq => h (heq ▸ hmem)⟩

/-- **`seat.subscriber` follows `changes`** through `calls`: what it hears is a permutation of
`changes`, and it is `changes` exactly if the seat `IsUndisturbed` by `meddlers`. -/
structure Follows (seat : Seat) (changes : List Change) (calls : List (Nat × Change))
    (meddlers : List Nat) : Prop where
  once : (heardBy seat.subscriber calls).Perm changes
  inOrder_iff : heardBy seat.subscriber calls = changes ↔ seat.IsUndisturbed meddlers

/-- **`seat.subscriber` waits for its own call**: what it hears meanwhile is a permutation of later
`changes`, and there are none exactly if the seat `IsUndisturbed` by `meddlers`. -/
structure Waits (seat : Seat) (changes : List Change) (calls : List (Nat × Change))
    (meddlers : List Nat) : Prop where
  once : (heardBy seat.subscriber calls).Perm changes
  eq_nil_iff : changes = [] ↔ seat.IsUndisturbed meddlers

/-- `Follows [] [] []`. -/
theorem follows_nil : seat.Follows [] [] [] :=
  ⟨.refl _, iff_of_true rfl isUndisturbed_nil⟩

/-- `Follows` for `changes` and then for `later` is `Follows` for both. -/
theorem Follows.append (h : seat.Follows changes calls meddlers)
    (h' : seat.Follows later calls' meddlers') :
    seat.Follows (changes ++ later) (calls ++ calls') (meddlers ++ meddlers') := by
  refine ⟨by rw [heardBy_append]; exact h.once.append h'.once, ?_⟩
  rw [heardBy_append, isUndisturbed_append, ← h.inOrder_iff, ← h'.inOrder_iff]
  exact ⟨fun heq => List.append_inj heq h.once.length_eq, fun ⟨heq, heq'⟩ => by rw [heq, heq']⟩

/-- `Follows []` gives `IsUndisturbed`. -/
theorem Follows.isUndisturbed_of_nil (h : seat.Follows [] calls meddlers) :
    seat.IsUndisturbed meddlers :=
  h.inOrder_iff.1 h.once.eq_nil

/-- `Follows` is kept by a call of somebody else. -/
theorem Follows.told (h : seat.Follows changes calls meddlers) (hne : number ≠ seat.subscriber) :
    seat.Follows changes ((number, change) :: calls) meddlers := by
  have hheard : heardBy seat.subscriber ((number, change) :: calls) =
      heardBy seat.subscriber calls := heardBy_cons_of_ne hne
  exact ⟨hheard ▸ h.once, hheard ▸ h.inOrder_iff⟩

/-- `Follows` is kept by `meddlers'` that are not in `seat.ahead`. -/
theorem Follows.blamed (h : seat.Follows changes calls meddlers)
    (hbehind : ∀ other ∈ meddlers', other ∉ seat.ahead) :
    seat.Follows changes calls (meddlers ++ meddlers') := by
  have hundisturbed : seat.IsUndisturbed meddlers' :=
    fun other hahead hmem => hbehind other hmem hahead
  refine ⟨h.once, ?_⟩
  rw [h.inOrder_iff, isUndisturbed_append, and_iff_left hundisturbed]

/-- `Waits [] [] []`. -/
theorem waits_nil : seat.Waits [] [] [] :=
  ⟨.refl _, iff_of_true rfl isUndisturbed_nil⟩

/-- **`Waits` is kept while somebody in `seat.ahead` is told**, who is a meddler if there are
`later` changes. -/
theorem Waits.told_ahead (h : seat.Waits changes calls meddlers)
    (h' : seat.Follows later calls' meddlers') (hnumber : number ∈ seat.ahead) :
    seat.Waits (changes ++ later) (calls ++ (number, change) :: calls')
      (meddlers ++ (meddlers' ++ if later.isEmpty then [] else [number])) := by
  have hne : number ≠ seat.subscriber := by
    rintro rfl
    exact seat.apart hnumber
  refine ⟨?_, ?_⟩
  · rw [heardBy_append, heardBy_cons_of_ne hne]
    exact h.once.append h'.once
  · rw [List.append_eq_nil_iff, isUndisturbed_append, isUndisturbed_append, ← h.eq_nil_iff]
    refine and_congr_right fun _ => ?_
    cases later with
    | nil => exact iff_of_true rfl ⟨h'.isUndisturbed_of_nil, isUndisturbed_nil⟩
    | cons first rest =>
      -- Something was recorded while the one ahead was told, so it is to blame.
      refine iff_of_false (List.cons_ne_nil _ _) ?_
      rintro ⟨-, hundisturbed⟩
      exact isUndisturbed_singleton.1 hundisturbed hnumber

/-- **`Waits` becomes `Follows` with the call of `seat.subscriber`**: it has heard of later changes
already, and of `change` last. -/
theorem Waits.told_self (h : seat.Waits changes calls meddlers) (hnew : change ∉ changes) :
    seat.Follows (change :: changes) (calls ++ [(seat.subscriber, change)]) meddlers := by
  refine ⟨?_, ?_⟩
  · rw [heardBy_append, heardBy_cons_self]
    exact (List.perm_append_singleton _ _).trans (h.once.cons change)
  · rw [heardBy_append, heardBy_cons_self, ← h.eq_nil_iff]
    constructor
    · intro heq
      rcases hheard : heardBy seat.subscriber calls with _ | ⟨first, rest⟩
      · exact (hheard ▸ h.once).nil_eq.symm
      · -- Otherwise the first thing heard would be the change that it has waited for.
        rw [hheard, List.cons_append] at heq
        have hmem : first ∈ changes := h.once.subset (hheard ▸ List.mem_cons_self)
        exact absurd ((List.cons.inj heq).1 ▸ hmem) hnew
    · rintro rfl
      rw [h.once.eq_nil]
      rfl

end Seat

/-! ## What is written -/

namespace World

variable {seat : Seat} {link : Link} {before w w' w'' : World ρ (Diary γ)}
  {entries later : List Entry} {entry : Entry} {calls calls' : List (Nat × Change)}
  {blamed blamed' : List Nat} {number : Nat} {change : Change}

/-- **What is written between `w` and `w'`**: `entries` in the chronicle of the machine at `link`,
and in the diary `calls` in `told` and `blamed` in `meddlers`. -/
structure Writes (link : Link) (w w' : World ρ (Diary γ)) (entries : List Entry)
    (calls : List (Nat × Change)) (blamed : List Nat) : Prop where
  chronicle : w.Chronicle link w' entries
  told : w'.guest.told = w.guest.told ++ calls
  meddlers : w'.guest.meddlers = w.guest.meddlers ++ blamed

/-- `Writes` and then `Writes` is `Writes` of both. -/
theorem Writes.trans (h : w.Writes link w' entries calls blamed)
    (h' : w'.Writes link w'' later calls' blamed') :
    w.Writes link w'' (entries ++ later) (calls ++ calls') (blamed ++ blamed') :=
  ⟨h.chronicle.trans h'.chronicle, by rw [h'.told, h.told, List.append_assoc],
    by rw [h'.meddlers, h.meddlers, List.append_assoc]⟩

/-- `LeavesSeat` writes nothing. -/
theorem LeavesSeat.writes (h : w.LeavesSeat seat w') : w.Writes seat.link w' [] [] [] :=
  ⟨.of_keeps h.record, by rw [h.told, List.append_nil], by rw [h.meddlers, List.append_nil]⟩

/-- `tell` writes one call. -/
theorem writes_tell : w.Writes link (w.tell number change) [] [(number, change)] [] :=
  ⟨.of_keeps (.of_cells rfl), rfl, (List.append_nil _).symm⟩

/-- `blame` writes one meddler. -/
theorem writes_blame : w.Writes link (w.blame number) [] [] [number] :=
  ⟨.of_keeps (.of_cells rfl), (List.append_nil _).symm, rfl⟩

/-- `Machine.Gapless` for the machine of the seat and the `entries` of its chronicle. -/
theorem Seats.exists_gapless (hw : w.Seats seat) (h : w.Chronicle seat.link w' entries) :
    ∃ m m', w.machine? seat.link = some m ∧ w'.machine? seat.link = some m' ∧
      m.Gapless entries m' := by
  obtain ⟨m, -, hm, hsince, -⟩ := hw.machine
  obtain ⟨m', hm', hgapless⟩ := h.exists_gapless hm hsince
  exact ⟨m, m', hm, hm', hgapless⟩

/-- `revision?` is the same if and only if `entries = []`. -/
theorem Seats.revision?_eq_iff (hw : w.Seats seat) (h : w.Chronicle seat.link w' entries) :
    w'.revision? seat.link = w.revision? seat.link ↔ entries = [] := by
  obtain ⟨m, m', hm, hm', hgapless⟩ := hw.exists_gapless h
  rw [revision?, revision?, hm, hm', Option.map_some, Option.map_some, Option.some.injEq,
    hgapless.revision, ← List.length_eq_zero_iff]
  omega

/-- A change with the `revision` of the machine is none of the `entries` that come. -/
theorem Seats.not_mem_changes {m : Machine (StatePlan ρ)} (hw : w.Seats seat)
    (h : w.Chronicle seat.link w' entries) (hm : w.machine? seat.link = some m)
    (hrevision : change.revision = m.revision) : change ∉ entries.map Entry.change := by
  obtain ⟨m₀, m', hm₀, -, hgapless⟩ := hw.exists_gapless h
  rw [hm] at hm₀
  cases hm₀
  intro hmem
  obtain ⟨entry, hentry, rfl⟩ := List.mem_map.1 hmem
  have hlater : entry.change.revision ∈ entries.map (·.change.revision) :=
    List.mem_map_of_mem hentry
  rw [hgapless.revisions, List.mem_range'_1] at hlater
  omega

/-! ## Seats that are heeded -/

/-- **The seat is heeded between `w` and `w'`**: the subscriber `Follows` the changes of all
entries. -/
def Heeds (seat : Seat) (w w' : World ρ (Diary γ)) : Prop :=
  w'.Seats seat ∧ ∃ entries calls blamed, w.Writes seat.link w' entries calls blamed ∧
    seat.Follows (entries.map Entry.change) calls blamed

/-- **The seat waits between `w` and `w'`**: the subscriber `Waits` with the changes of all
entries. -/
def KeepsWaiting (seat : Seat) (w w' : World ρ (Diary γ)) : Prop :=
  w'.Seats seat ∧ ∃ entries calls blamed, w.Writes seat.link w' entries calls blamed ∧
    seat.Waits (entries.map Entry.change) calls blamed

/-- **`number` is told of `change` between `w` and `w'`**: this call comes first, the changes of all
entries meanwhile are followed, and `number` is a meddler if there are any. -/
def Tells (seat : Seat) (number : Nat) (change : Change) (w w' : World ρ (Diary γ)) : Prop :=
  w'.Seats seat ∧ ∃ entries calls blamed, w.Writes seat.link w' entries ((number, change) :: calls)
      (blamed ++ if entries.isEmpty then [] else [number]) ∧
    seat.Follows (entries.map Entry.change) calls blamed

/-- `LeavesSeat` heeds the seat. -/
theorem LeavesSeat.heeds (h : w.LeavesSeat seat w') (hw : w.Seats seat) : w.Heeds seat w' :=
  ⟨h.seats hw, [], [], [], h.writes, Seat.follows_nil⟩

/-- `Heeds` is transitive. -/
theorem Heeds.trans (h : w.Heeds seat w') (h' : w'.Heeds seat w'') : w.Heeds seat w'' := by
  obtain ⟨-, entries, calls, blamed, hwrites, hfollows⟩ := h
  obtain ⟨hseats, later, calls', blamed', hwrites', hfollows'⟩ := h'
  refine ⟨hseats, _, _, _, hwrites.trans hwrites', ?_⟩
  rw [List.map_append]
  exact hfollows.append hfollows'

/-- `Heeds` is kept by `LeavesSeat`. -/
theorem Heeds.leaves (h : before.Heeds seat w) (hleaves : w.LeavesSeat seat w') :
    before.Heeds seat w' :=
  h.trans (hleaves.heeds h.1)

/-- `Tells` gives `Follows` if `number ∉ seat.ahead`. -/
theorem Tells.follows (h : w.Tells seat number change w') (hnumber : number ∉ seat.ahead) :
    w'.Seats seat ∧ ∃ entries calls blamed,
      w.Writes seat.link w' entries ((number, change) :: calls) blamed ∧
        seat.Follows (entries.map Entry.change) calls blamed := by
  obtain ⟨hseats, entries, calls, blamed, hwrites, hfollows⟩ := h
  refine ⟨hseats, entries, calls, _, hwrites, hfollows.blamed fun other hother => ?_⟩
  split at hother
  · cases hother
  · rwa [List.mem_singleton.1 hother]

/-- `Heeds` is kept by `Tells` for somebody whom the seat does not involve. -/
theorem Heeds.tells (h : before.Heeds seat w) (htells : w.Tells seat number change w')
    (hnumber : ¬ seat.Involves number) : before.Heeds seat w' := by
  obtain ⟨hne, hbehind⟩ := not_or.1 hnumber
  obtain ⟨hseats, entries, calls, blamed, hwrites, hfollows⟩ := htells.follows hbehind
  exact h.trans ⟨hseats, _, _, _, hwrites, hfollows.told hne⟩

/-- `KeepsWaiting` holds at first. -/
theorem Seats.keepsWaiting (hw : w.Seats seat) : w.KeepsWaiting seat w :=
  ⟨hw, [], [], [], (LeavesSeat.refl seat w).writes, Seat.waits_nil⟩

/-- `KeepsWaiting` is kept by `Tells` for somebody in `seat.ahead`. -/
theorem KeepsWaiting.tells (h : before.KeepsWaiting seat w)
    (htells : w.Tells seat number change w') (hnumber : number ∈ seat.ahead) :
    before.KeepsWaiting seat w' := by
  obtain ⟨-, entries, calls, blamed, hwrites, hwaits⟩ := h
  obtain ⟨hseats, later, calls', blamed', hwrites', hfollows⟩ := htells
  refine ⟨hseats, _, _, _, hwrites.trans hwrites', ?_⟩
  have htold : seat.Waits _ (calls ++ (number, change) :: calls') _ :=
    hwaits.told_ahead hfollows hnumber
  rwa [List.isEmpty_map, ← List.map_append] at htold

/-- **`KeepsWaiting` becomes `Heeds` when `seat.subscriber` is told** of the change that was
recorded. -/
theorem KeepsWaiting.heeds {m : Machine (StatePlan ρ)} (h : w.KeepsWaiting seat w')
    (hrecorded : before.Writes seat.link w [entry] [] []) (hw : w.Seats seat)
    (hm : w.machine? seat.link = some m) (hrevision : entry.change.revision = m.revision)
    (htells : w'.Tells seat seat.subscriber entry.change w'') : before.Heeds seat w'' := by
  obtain ⟨-, entries, calls, blamed, hwrites, hwaits⟩ := h
  obtain ⟨hseats, later, calls', blamed', hwrites', hfollows⟩ := htells.follows seat.apart
  refine ⟨hseats, _, _, _, hrecorded.trans (hwrites.trans hwrites'), ?_⟩
  have hnew := hw.not_mem_changes hwrites.chronicle hm hrevision
  have hall := (hwaits.told_self hnew).append hfollows
  rw [List.append_assoc] at hall
  rwa [List.map_append, List.map_append]

end World

/-! ## Changes in order -/

section InOrder

variable {σ : Type} {m m' : Machine σ} {entries : List Entry} {heard : List Change}

/-- The `entries` of `Machine.Gapless` have increasing revisions. -/
theorem Machine.Gapless.pairwise_revision (h : m.Gapless entries m') :
    (entries.map Entry.change).Pairwise (·.revision < ·.revision) := by
  have hrange : (entries.map (·.change.revision)).Pairwise (· < ·) := by
    rw [h.revisions]
    exact List.pairwise_lt_range'
  exact List.pairwise_map.2 (List.pairwise_map.1 hrange)

/-- **A permutation of the changes in `entries` has increasing revisions if and only if it is the
same list.** -/
theorem Machine.Gapless.pairwise_iff_eq (h : m.Gapless entries m')
    (honce : heard.Perm (entries.map Entry.change)) :
    heard.Pairwise (·.revision < ·.revision) ↔ heard = entries.map Entry.change := by
  refine ⟨fun hpairwise => ?_, fun heq => heq ▸ h.pairwise_revision⟩
  refine List.Perm.eq_of_pairwise (fun a b _ _ hab hba => ?_) hpairwise h.pairwise_revision honce
  exact absurd hba (Nat.lt_asymm hab)

end InOrder

/-! ## Rounds -/

section Rounds

variable {around : Surroundings ρ (Diary γ)} {host : Host ρ (Diary γ)} {seat : Seat}
  {root link : Link} {before w w' : World ρ (Diary γ)} {number depth : Nat} {change : Change}
  {entry : Entry} {m : Machine (StatePlan ρ)}

/-- **`observe` of `keepingDiary` gives `Tells`**, if that of `around` gives `Heeds`. -/
theorem Surroundings.gives_keepingDiary_tells (hw : w.Seats seat)
    (hobserve : ∀ w w', w.Seats seat →
      (around.observe host number change).run w = some ((), w') → w.Heeds seat w') :
    Act.Gives False ((around.keepingDiary seat.link).observe host number change) w
      fun _ w' => w.Tells seat number change w' := by
  have htold : (w.tell number change).Seats seat := hw.of_machine? rfl
  have hwritten : Act.Gives False (modify (·.tell number change) : Act ρ (Diary γ) Unit) w
      fun _ w₁ => w₁ = w.tell number change := Act.gives_modify rfl
  refine Act.gives_bind hwritten ?_
  rintro _ _ rfl
  refine Act.gives_get (Act.gives_bind Act.gives_run fun _ w₁ hrun => Act.gives_get ?_)
  obtain ⟨hseats, entries, calls, blamed, hwrites, hfollows⟩ := hobserve _ w₁ htold hrun
  -- Revisions are compared, and they differ exactly if something was recorded in between.
  have hboth := World.writes_tell.trans hwrites
  have hsame := htold.revision?_eq_iff hwrites.chronicle
  cases entries with
  | nil =>
    rw [if_neg (not_not.2 (hsame.2 rfl))]
    refine Act.gives_pure ⟨hseats, [], calls, blamed, ?_, hfollows⟩
    rw [List.isEmpty_nil, if_pos rfl, List.append_nil]
    exact hboth
  | cons first rest =>
    rw [if_pos (mt hsame.1 (List.cons_ne_nil _ _))]
    refine Act.gives_modify ⟨hseats.of_machine? rfl, first :: rest, calls, blamed, ?_, hfollows⟩
    have hblame : w₁.Writes seat.link (w₁.blame number) [] [] [number] := World.writes_blame
    have hall := hboth.trans hblame
    rwa [List.append_nil, List.append_nil] at hall

/-- **`host.observe` gives `World.Tells`** wherever the world has the seat. -/
def Host.Tells (seat : Seat) (host : Host ρ (Diary γ)) : Prop :=
  ∀ number change w, w.Seats seat →
    Act.Gives False (host.observe number change) w fun _ w' => w.Tells seat number change w'

namespace Act

/-- `notify` for another machine keeps `Heeds`. -/
theorem gives_notify_heeds_of_ne (hhost : host.Tells seat) (hne : link ≠ seat.link)
    (hw : before.Heeds seat w) :
    Gives False (notify host link change) w fun _ w' => before.Heeds seat w' := by
  refine gives_get ?_
  split
  · exact gives_pure hw
  · rename_i m hm
    refine gives_forM hw fun number hnumber w₁ hw₁ => ?_
    refine (hhost number change w₁ hw₁.1).mono fun _ _ htells => hw₁.tells htells ?_
    exact hw.1.others link m hne hm number hnumber

/-- **`notify` for the machine of the seat gives `Heeds`**: `KeepsWaiting` goes through
`seat.ahead`, then the subscriber is told, then the others. -/
theorem gives_notify_heeds (hhost : host.Tells seat)
    (hrecorded : before.Writes seat.link w [entry] [] []) (hw : w.Seats seat)
    (hm : w.machine? seat.link = some m) (hrevision : entry.change.revision = m.revision) :
    Gives False (notify host seat.link entry.change) w fun _ w' => before.Heeds seat w' := by
  obtain ⟨m₀, behind, hm₀, -, hround, hbehind⟩ := hw.machine
  rw [hm] at hm₀
  cases hm₀
  -- The round is fixed when it begins, whoever subscribes or leaves in the course of it.
  have hsplit : m.listeners.round.forM (fun number => host.observe number entry.change) = (do
      seat.ahead.forM fun number => host.observe number entry.change
      host.observe seat.subscriber entry.change
      behind.forM fun number => host.observe number entry.change) := by
    rw [hround]
    exact List.forM_append
  refine gives_get ?_
  simp only [hm, hsplit]
  have hahead : Gives False
      (seat.ahead.forM fun number => host.observe number entry.change) w
      fun _ w' => w.KeepsWaiting seat w' := by
    refine gives_forM hw.keepsWaiting fun number hnumber w₁ hw₁ => ?_
    exact (hhost number _ w₁ hw₁.1).mono fun _ _ htells => hw₁.tells htells hnumber
  refine gives_bind hahead fun _ w₁ hw₁ => ?_
  refine gives_bind (hhost seat.subscriber _ w₁ hw₁.1) fun _ w₂ htells => ?_
  refine gives_forM (hw₁.heeds hrecorded hw hm hrevision htells) fun number hnumber w₃ hw₃ => ?_
  exact (hhost number _ w₃ hw₃.1).mono fun _ _ htells =>
    hw₃.tells htells (hbehind number hnumber)

/-- **`notify` after `commit` gives `Heeds`**, for whatever machine. -/
theorem gives_notify_heeds_of_commit (hhost : host.Tells seat) (hw : w.Seats seat)
    (hm : w.machine? link = some m)
    (hsince : m.current.since ≤ m.revision → change.target.since ≤ change.revision)
    (hentry : link = seat.link → ∃ entry, entry.change = change ∧
      w.Chronicle link (w.setCell link (.machine (m.commit change))) [entry]) :
    Gives False (notify host link change) (w.setCell link (.machine (m.commit change)))
      fun _ w' => w.Heeds seat w' := by
  by_cases heq : link = seat.link
  · subst heq
    obtain ⟨entry, rfl, hchronicle⟩ := hentry rfl
    have hrecorded : w.Writes seat.link (w.setCell seat.link (.machine (m.commit entry.change)))
        [entry] [] [] :=
      ⟨hchronicle, (List.append_nil _).symm, (List.append_nil _).symm⟩
    exact gives_notify_heeds hhost hrecorded (hw.setCell hm rfl fun _ => hsince)
      (World.machine?_setCell_self hm) rfl
  · have hleaves : w.LeavesSeat seat (w.setCell link (.machine (m.commit change))) :=
      .setCell hm rfl fun h => absurd h heq
    exact gives_notify_heeds_of_ne hhost heq (hleaves.heeds hw)

/-- **`step` gives `Heeds`.** -/
theorem gives_step_heeds (hhost : host.Tells seat)
    (henrol : host.EnrolsWithin (World.LeavesSeat seat)) (link : Link) (event : Event)
    (hw : w.Seats seat) :
    Gives False (step host link event) w fun _ w' => w.Heeds seat w' := by
  refine gives_bind (gives_resolve_grows (World.isGrowth_leavesSeat seat) henrol link event w) ?_
  rintro (_ | found) w₁ ⟨hleaves, hfound⟩
  · exact gives_pure (hleaves.heeds hw)
  · obtain ⟨-, m₀, hm₀, hsource⟩ := hfound found rfl
    have hw₁ := hleaves.heeds hw
    refine gives_get ?_
    split
    · exact gives_pure hw₁
    · rename_i m hm
      refine gives_bind ends_setCell.gives ?_
      rintro _ _ rfl
      have hmoved : link = seat.link → ∃ entry : Entry,
          entry.change = m.changeTo found.event found.source found.target ∧
          w₁.Chronicle link (w₁.setCell link (.machine (m.commit
            (m.changeTo found.event found.source found.target)))) [entry] := by
        rintro rfl
        -- The machine is still in the state in which it has looked for the answer.
        obtain ⟨m₁, hm₁, hkeeps⟩ := hleaves.record m₀ hm₀
        rw [hm] at hm₁
        cases hm₁
        rw [hsource, ← hkeeps.current]
        exact ⟨_, rfl, .moved .start hm⟩
      refine gives_bind (gives_notify_heeds_of_commit hhost hw₁.1 hm (fun _ => Nat.le_refl _)
        hmoved) fun _ _ hw₂ => ?_
      exact gives_pure (hw₁.trans hw₂)

/-- **`noteBelow` gives `Heeds`.** -/
theorem gives_noteBelow_heeds (hhost : host.Tells seat) (link : Link) (child : ChildRef)
    (inner : Event) (hw : w.Seats seat) :
    Gives False (noteBelow host link child inner) w fun _ w' => w.Heeds seat w' := by
  refine gives_get ?_
  split
  · exact gives_pure ((World.LeavesSeat.refl seat w).heeds hw)
  · rename_i m hm
    refine gives_bind ends_setCell.gives ?_
    rintro _ _ rfl
    exact gives_notify_heeds_of_commit hhost hw hm (fun hsince => Nat.le_succ_of_le hsince)
      fun _ => ⟨_, rfl, .noted .start hm⟩

end Act

/-! ## All errands -/

/-- **`host` echoes itself in `EchoesCalls` with the invariant `before.Heeds seat`**, if what it
does besides is `LeavesSeat` or keeps `Heeds`. -/
theorem Host.Tells.echoesCalls (hhost : host.Tells seat)
    (henrol : host.EnrolsWithin (World.LeavesSeat seat))
    (hdeliver : ∀ link event w, before.Heeds seat w →
      Act.Gives False (host.deliver link event) w fun _ w' => before.Heeds seat w')
    (hregistered : ∀ link isJoining w,
      Act.Gives False (host.registered link isJoining) w fun _ w' => w.LeavesSeat seat w')
    (hredrawn : ∀ graph w,
      Act.Gives False (host.redrawn graph) w fun _ w' => w.LeavesSeat seat w') :
    host.EchoesCalls (before.Heeds seat) host := by
  -- What is offered is up to the machines, and what is delivered up to those around the host.
  have hoffers : host.EchoesOffers (before.Heeds seat) host := by
    refine ⟨⟨fun link event w _ hw => ?_, fun link child inner w _ hw => ?_, ?_⟩, ?_⟩
    · exact ((Act.gives_step_heeds hhost henrol link event hw.1).mono
        fun _ _ hw' => hw.trans hw').echoes
    · exact ((Act.gives_noteBelow_heeds hhost link child inner hw.1).mono
        fun _ _ hw' => hw.trans hw').echoes
    · exact fun w link m pending _ hw hm hpending =>
        hw.leaves (.setCell hm rfl fun _ => .queue hpending)
    · refine fun level event w hw _ => Host.echoes_delegate
        (fun link event w hw => (hdeliver link event w hw).echoes) ?_ level event hw
      exact fun w link id device memory memory' hw hcell => hw.leaves (.device hcell)
  refine ⟨hoffers, ⟨?engine, ?graphs, ?enlist, ?registered, ?redrawn⟩, ?busy⟩
  case engine => exact fun w number f _ hw => hw.leaves (.of_cells rfl rfl)
  case graphs => exact fun w graphs hw => hw.leaves (.of_cells rfl rfl)
  case enlist =>
    exact fun w link m engine? hw hm => hw.leaves (.setCell hm rfl fun _ => .enlist m engine?)
  case registered =>
    exact fun link isJoining w hw _ _ =>
      ((hregistered link isJoining w).mono fun _ _ hleaves => hw.leaves hleaves).echoes
  case redrawn =>
    exact fun graph w hw =>
      ((hredrawn graph w).mono fun _ _ hleaves => hw.leaves hleaves).echoes
  case busy => exact fun w busy hw => hw.leaves (.of_cells rfl rfl)

/-- **Subscribers that run errands** (`World.Errands`), through the host that they are given;
between them, and in all else that `around` does, the seat is left alone. -/
structure Surroundings.LeavesSeat (root : Link) (seat : Seat)
    (around : Surroundings ρ (Diary γ)) : Prop where
  observe : ∀ host subscriber change w w',
    (around.observe host subscriber change).run w = some ((), w') →
      w.Errands host root (World.LeavesSeat seat) w'
  enrol : ∀ subscriber link w w', (around.enrol subscriber link).run w = some ((), w') →
    w.LeavesSeat seat w'
  registered : ∀ link isJoining w w', (around.registered link isJoining).run w = some ((), w') →
    w.LeavesSeat seat w'
  redrawn : ∀ graph w w', (around.redrawn graph).run w = some ((), w') → w.LeavesSeat seat w'

/-- `Host.Tells.echoesCalls` for `around.keepingDiary seat.link` at every `depth`. -/
theorem Surroundings.LeavesSeat.echoesCalls (haround : around.LeavesSeat root seat) (depth : Nat)
    (before : World ρ (Diary γ)) :
    ((around.keepingDiary seat.link).host depth).EchoesCalls (before.Heeds seat)
      ((around.keepingDiary seat.link).host depth) := by
  have henrol : ∀ depth, ((around.keepingDiary seat.link).host depth).EnrolsWithin
      (World.LeavesSeat seat) := by
    rintro (_ | depth)
    · exact fun subscriber link w => ⟨False.elim, fun _ w' => haround.enrol subscriber link w w'⟩
    · exact fun subscriber link w => ⟨False.elim, fun _ w' => haround.enrol subscriber link w w'⟩
  have hregistered : ∀ link isJoining w, Act.Gives False (around.registered link isJoining) w
      fun _ w' => w.LeavesSeat seat w' :=
    fun link isJoining w => ⟨False.elim, fun _ w' => haround.registered link isJoining w w'⟩
  have hredrawn : ∀ graph w, Act.Gives False (around.redrawn graph) w
      fun _ w' => w.LeavesSeat seat w' :=
    fun graph w => ⟨False.elim, fun _ w' => haround.redrawn graph w w'⟩
  -- What a subscriber does is heeded from the world on in which it is told, not from the first one.
  induction depth generalizing before with
  | zero =>
    refine Host.Tells.echoesCalls ?_ (henrol 0) ?_ hregistered hredrawn
    · exact fun _ _ _ _ => ⟨False.elim, by rintro _ _ ⟨⟩⟩
    · exact fun _ _ _ _ => ⟨False.elim, by rintro _ _ ⟨⟩⟩
  | succ depth ih =>
    refine Host.Tells.echoesCalls ?_ (henrol _) ?_ hregistered hredrawn
    · refine fun number change w hw => Surroundings.gives_keepingDiary_tells hw ?_
      intro w₁ w₂ hw₁ hrun
      exact (haround.observe _ number change w₁ w₂ hrun).upholds (ih w₁)
        (fun _ _ hw hleaves => hw.leaves hleaves) ((World.LeavesSeat.refl seat w₁).heeds hw₁)
    · exact fun link event w hw => ((ih before).routing.dispatch link event hw).gives

/-- **`World.Errands` give `Heeds`.** -/
theorem World.Errands.heeds (haround : around.LeavesSeat root seat) (hw : w.Seats seat)
    (h : w.Errands ((around.keepingDiary seat.link).host depth) root (World.LeavesSeat seat) w') :
    w.Heeds seat w' :=
  h.upholds (haround.echoesCalls depth w) (fun _ _ hw hleaves => hw.leaves hleaves)
    ((World.LeavesSeat.refl seat w).heeds hw)

/-- **Every subscriber is told once of each change that is recorded** during `World.Errands`. Take a
`seat`: a subscriber to a machine, with those ahead of it (`World.Seats`). Between errands, and
apart from the errands that subscribers run themselves, the seat is left alone
(`Surroundings.LeavesSeat`). There are `entries` with `m.Gapless entries m'`, and what the
subscriber has heard is a permutation of their changes. It hears of them in order of `revision`, if
and only if nobody in `seat.ahead` is a meddler, which is somebody who has changed the machine while
being told of a change. In this case the last change that it has heard of is `m'.change?`. -/
theorem World.Errands.follows_changes (haround : around.LeavesSeat root seat) (hw : w.Seats seat)
    (htold : w.guest.told = []) (hmeddlers : w.guest.meddlers = [])
    (h : w.Errands ((around.keepingDiary seat.link).host depth) root (World.LeavesSeat seat) w') :
    ∃ m m' entries, w.machine? seat.link = some m ∧ w'.machine? seat.link = some m' ∧
      m.Gapless entries m' ∧
      (heardBy seat.subscriber w'.guest.told).Perm (entries.map Entry.change) ∧
      ((heardBy seat.subscriber w'.guest.told).Pairwise (·.revision < ·.revision) ↔
        ∀ number ∈ seat.ahead, number ∉ w'.guest.meddlers) ∧
      ((∀ number ∈ seat.ahead, number ∉ w'.guest.meddlers) →
        (heardBy seat.subscriber w'.guest.told).getLast?.or m.change? = m'.change?) := by
  obtain ⟨-, entries, calls, blamed, hwrites, hfollows⟩ := h.heeds haround hw
  obtain ⟨m, m', hm, hm', hgapless⟩ := hw.exists_gapless hwrites.chronicle
  have hcalls : w'.guest.told = calls := by rw [hwrites.told, htold, List.nil_append]
  have hblamed : w'.guest.meddlers = blamed := by
    rw [hwrites.meddlers, hmeddlers, List.nil_append]
  rw [hcalls, hblamed]
  refine ⟨m, m', entries, hm, hm', hgapless, hfollows.once, ?_, fun hundisturbed => ?_⟩
  · rw [← Seat.IsUndisturbed, ← hfollows.inOrder_iff]
    exact hgapless.pairwise_iff_eq hfollows.once
  · rw [hfollows.inOrder_iff.2 hundisturbed, hgapless.change?, List.getLast?_map]

end Rounds

/-! ## Two subscribers of a parcel -/

namespace World

/-- A world with a parcel, to which `first` and then `second` have subscribed. -/
def parcelFor (first second : Nat) : World Unit (Diary Unit) where
  cells := #[.machine
    { Machine.start (.minted 0) .parcel with
      listeners := ((({} : Listeners Nat).subscribe first).2.subscribe second).2 }]
  minted := 1
  guest := { guest := () }

/-- Surroundings in which subscriber 0 sends `"go"` to the parcel when it is told of `"Sent"`. -/
def forwarder : Surroundings Unit (Diary Unit) :=
  { Surroundings.quiet with
    observe := fun host subscriber change =>
      if subscriber = 0 ∧ change.target.state.key = "Sent" then
        discard <| Act.sendNamed host ⟨0⟩ "go" []
      else return () }

/-- `parcelFor` after one `"go"`, and all that follows from it. -/
def parcelForwarded (first second : Nat) : World Unit (Diary Unit) :=
  ((Errand.request (.sendTo ⟨0⟩ "go" [])).perform ((forwarder.keepingDiary ⟨0⟩).host 9) ⟨0⟩).after
    (parcelFor first second)

/-- `forwarder` is in `LeavesSeat`, for any seat. -/
theorem leavesSeat_forwarder (root : Link) (seat : Seat) : forwarder.LeavesSeat root seat := by
  refine ⟨fun host subscriber change w w' hrun => ?observe, ?enrol, ?registered, ?redrawn⟩
  case observe =>
    -- Only the first subscriber does anything, and only when the parcel is sent: that is an errand.
    by_cases hsends : subscriber = 0 ∧ change.target.state.key = "Sent"
    · have hsent : ((Errand.request (.sendTo ⟨0⟩ "go" [])).perform host root).run w =
          some ((), w') := by
        simp only [forwarder, if_pos hsends] at hrun
        exact hrun
      exact .errand hsent .done
    · simp only [forwarder, if_neg hsends] at hrun
      cases hrun
      exact .done
  case enrol =>
    rintro _ _ w _ ⟨⟩
    exact .refl seat w
  case registered =>
    rintro _ _ w _ ⟨⟩
    exact .refl seat w
  case redrawn =>
    rintro _ w _ ⟨⟩
    exact .refl seat w

/-- `parcelFor first second` has the seat of `second`. -/
theorem seats_parcelFor {first second : Nat} (apart : second ∉ [first]) :
    (parcelFor first second).Seats ⟨⟨0⟩, [first], second, apart⟩ := by
  have hnodup : [first, second].Nodup :=
    List.nodup_cons.2 ⟨fun hmem => apart (List.mem_singleton.2 (List.mem_singleton.1 hmem).symm),
      List.nodup_singleton second⟩
  have hseat : ∃ apart, (parcelFor first second).Seats ⟨⟨0⟩, [first], second, apart⟩ := by
    refine seats_of_nodup rfl (Nat.le_refl _) rfl hnodup fun other m' hne hm' => ?_
    have hnone : (parcelFor first second).machine? other = none := by
      refine machine?_eq_none_of_le (Nat.pos_of_ne_zero fun hzero => hne ?_)
      rw [← hzero]
    rw [hnone] at hm'
    cases hm'
  obtain ⟨_, hseats⟩ := hseat
  exact hseats

/-- `Errands.follows_changes` for `parcelFor 1 0`, where the `forwarder` sits behind somebody who
only watches. -/
theorem parcel_follows_changes :
    forwarder.LeavesSeat ⟨0⟩ ⟨⟨0⟩, [1], 0, by decide⟩ ∧
      (parcelFor 1 0).Seats ⟨⟨0⟩, [1], 0, by decide⟩ ∧
      (parcelFor 1 0).Errands ((forwarder.keepingDiary ⟨0⟩).host 9) ⟨0⟩
        (LeavesSeat ⟨⟨0⟩, [1], 0, by decide⟩) (parcelForwarded 1 0) ∧
      (parcelForwarded 1 0).guest.meddlers = [0] ∧
      ∃ m m' entries, (parcelFor 1 0).machine? ⟨0⟩ = some m ∧
        (parcelForwarded 1 0).machine? ⟨0⟩ = some m' ∧ m.Gapless entries m' ∧
        (heardBy 0 (parcelForwarded 1 0).guest.told).Perm (entries.map Entry.change) ∧
        ((heardBy 0 (parcelForwarded 1 0).guest.told).Pairwise (·.revision < ·.revision) ↔
          ∀ number ∈ [1], number ∉ (parcelForwarded 1 0).guest.meddlers) ∧
        ((∀ number ∈ [1], number ∉ (parcelForwarded 1 0).guest.meddlers) →
          (heardBy 0 (parcelForwarded 1 0).guest.told).getLast?.or m.change? = m'.change?) := by
  have hends : (((Errand.request (.sendTo ⟨0⟩ "go" [])).perform
      ((forwarder.keepingDiary ⟨0⟩).host 9) ⟨0⟩).run (parcelFor 1 0)).isSome = true := by
    decide +kernel
  obtain ⟨_, hrun⟩ := Act.run_eq_after hends
  have herrands : (parcelFor 1 0).Errands ((forwarder.keepingDiary ⟨0⟩).host 9) ⟨0⟩
      (LeavesSeat ⟨⟨0⟩, [1], 0, by decide⟩) (parcelForwarded 1 0) := .errand hrun .done
  exact ⟨leavesSeat_forwarder _ _, seats_parcelFor _, herrands, by decide +kernel,
    Errands.follows_changes (leavesSeat_forwarder _ _) (seats_parcelFor _) rfl rfl herrands⟩

/-- **Behind the `forwarder` revisions come out of order.** In `parcelFor 0 1` the subscriber in the
second place hears of revision 2 and then of revision 1, which is not the last change of the
parcel. -/
theorem parcel_heard_out_of_turn :
    forwarder.LeavesSeat ⟨0⟩ ⟨⟨0⟩, [0], 1, by decide⟩ ∧
      (parcelFor 0 1).Seats ⟨⟨0⟩, [0], 1, by decide⟩ ∧
      (parcelFor 0 1).Errands ((forwarder.keepingDiary ⟨0⟩).host 9) ⟨0⟩
        (LeavesSeat ⟨⟨0⟩, [0], 1, by decide⟩) (parcelForwarded 0 1) ∧
      (heardBy 1 (parcelForwarded 0 1).guest.told).map (·.revision) = [2, 1] ∧
      ¬ (heardBy 1 (parcelForwarded 0 1).guest.told).Pairwise (·.revision < ·.revision) ∧
      (heardBy 1 (parcelForwarded 0 1).guest.told).getLast? ≠
        ((parcelForwarded 0 1).machine? ⟨0⟩).bind (·.change?) := by
  have hends : (((Errand.request (.sendTo ⟨0⟩ "go" [])).perform
      ((forwarder.keepingDiary ⟨0⟩).host 9) ⟨0⟩).run (parcelFor 0 1)).isSome = true := by
    decide +kernel
  obtain ⟨_, hrun⟩ := Act.run_eq_after hends
  have herrands : (parcelFor 0 1).Errands ((forwarder.keepingDiary ⟨0⟩).host 9) ⟨0⟩
      (LeavesSeat ⟨⟨0⟩, [0], 1, by decide⟩) (parcelForwarded 0 1) := .errand hrun .done
  exact ⟨leavesSeat_forwarder _ _, seats_parcelFor _, herrands, by decide +kernel,
    by decide +kernel, by decide +kernel⟩

end World

end Statechart
