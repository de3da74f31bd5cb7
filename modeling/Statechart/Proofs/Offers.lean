import Statechart.Proofs.Touch

/-! # Who acts on an event

On the chain of a hierarchy there may be children that can only be sent events, beside machines that
can be tried. A machine that is tried says whether it has acted. A child that is sent an event may
have acted without an outcome, and then what it shows before and after has to tell.

* **`World.Round`**: the offers that are made of one event, the deepest child first.
* `World.Routed`: an event that is handled, with the offers of it.
* `Offer.IsFair`: a child that can only be sent events shows it when it has acted.
* `Offer.Hides`: it shows it by showing nothing any more, and by nothing else.
* `OneTaker`: nobody is offered the event after one that acts.
* **`Act.one_taker_iff`**: there is one taker at most exactly if nobody who acts hides. -/

namespace Statechart

variable {ρ γ : Type} {host : Host ρ γ} {w w' w₀ w₁ : World ρ γ} {e : Engine} {link root : Link}
  {number depth : Nat} {event : Event} {outcome? : Option Outcome}

/-! ## Offers -/

/-- The keys of the states that the machines of a world are in. -/
def World.stateKeys (w : World ρ γ) : List String := w.cells.toList.filterMap fun
  | .machine m => some m.current.state.key
  | _ => none

/-- **An offer of an event**: to whom (`link`) and at which depth, what a child has shown before
(`shown?`, `none` for the root), the worlds before and after it, and what came of it. -/
structure Offer (ρ γ : Type) where
  link : Link
  depth : Nat
  shown? : Option Snapshot
  before : World ρ γ
  after : World ρ γ
  outcome? : Option Outcome

namespace Offer

variable {o : Offer ρ γ} {acts : Offer ρ γ → Prop}

/-- `depth`, and the outcome at that depth. -/
def applied? (o : Offer ρ γ) : Option (Nat × Outcome) :=
  o.outcome?.map fun outcome => (o.depth, outcome.atDepth o.depth)

/-- The offer is to a child that is no machine: it has a snapshot, and `machine?` is `none`. -/
def IsSendOnly (o : Offer ρ γ) : Prop := o.shown?.isSome = true ∧ o.before.machine? o.link = none

/-- `Act.step` enters a state on the event. -/
def Enters (host : Host ρ γ) (event : Event) (o : Offer ρ γ) : Prop :=
  ∃ entered w, (Act.step host o.link event).run o.before = some (some entered, w)

/-- The offer is made as the engine makes offers: `Act.tryLevel` for a child, and
`Act.dispatchLocal` for the root. -/
def IsMade (host : Host ρ γ) (event : Event) (o : Offer ρ γ) : Prop :=
  match o.shown? with
  | none => (Act.dispatchLocal host o.link event).run o.before = some (o.outcome?, o.after)
  | some shown =>
    (Act.tryLevel host ⟨o.link, shown⟩ event).run o.before = some (o.outcome?, o.after)

/-- **The child shows that it has acted**: it has an outcome, or its snapshot is not there any more
or has another `key` or `revision` than `shown?`. -/
def Shows (o : Offer ρ γ) : Prop :=
  o.outcome?.isSome = true ∨ ¬ ∃ was now, o.shown? = some was ∧
    o.after.snapshot? o.link = some now ∧ now.key = was.key ∧ now.revision = was.revision

/-- **The child has no snapshot any more** after an offer without an outcome. -/
def Hides (o : Offer ρ γ) : Prop :=
  o.IsSendOnly ∧ o.outcome? = none ∧ o.after.snapshot? o.link = none

/-- `stateKeys` are others after the offer. -/
def Moves (o : Offer ρ γ) : Prop := o.after.stateKeys ≠ o.before.stateKeys

/-- **`acts` is fair about the offer**: a machine acts exactly if it enters a state (`Enters`), and
another child `Shows` it when it acts. -/
structure IsFair (host : Host ρ γ) (event : Event) (acts : Offer ρ γ → Prop) (o : Offer ρ γ) :
    Prop where
  machine : ¬ o.IsSendOnly → (acts o ↔ o.Enters host event)
  shown : o.IsSendOnly → acts o → o.Shows

end Offer

/-- **One taker at most**: no offer comes after one with `acts` (`stops`), and without an outcome
there is none with `acts` (`told`). -/
structure OneTaker (acts : Offer ρ γ → Prop) (offers : List (Offer ρ γ))
    (outcome? : Option Outcome) : Prop where
  stops : offers.Pairwise fun earlier _ => ¬ acts earlier
  told : outcome? = none → ∀ o ∈ offers, ¬ acts o

/-! ## Rounds -/

/-- **Offers of `event` to the children of a list, and then to the root**, up to the first
outcome. -/
inductive World.Round (host : Host ρ γ) (root : Link) (event : Event) :
    List (Level × Nat) → World ρ γ → World ρ γ → List (Offer ρ γ) → Prop
  | root {w w' : World ρ γ} {outcome? : Option Outcome} :
    (Act.dispatchLocal host root event).run w = some (outcome?, w') →
    World.Round host root event [] w w' [⟨root, 0, none, w, w', outcome?⟩]
  | taken {rung : Level} {depth : Nat} {rest : List (Level × Nat)} {w w' : World ρ γ}
    {outcome : Outcome} : (Act.tryLevel host rung event).run w = some (some outcome, w') →
    World.Round host root event ((rung, depth) :: rest) w w'
      [⟨rung.link, depth, some rung.snapshot, w, w', some outcome⟩]
  | passed {rung : Level} {depth : Nat} {rest : List (Level × Nat)} {w w₁ w' : World ρ γ}
    {offers : List (Offer ρ γ)} : (Act.tryLevel host rung event).run w = some (none, w₁) →
    World.Round host root event rest w₁ w' offers →
    World.Round host root event ((rung, depth) :: rest) w w'
      (⟨rung.link, depth, some rung.snapshot, w, w₁, none⟩ :: offers)

/-- The levels of `w.chain e` with their depths, the deepest first. -/
def World.rungs (w : World ρ γ) (e : Engine) : List (Level × Nat) := ((w.chain e).zipIdx 1).reverse

/-- What follows on a round of offers with an outcome: `bubble`, `noteBelow` for the root if it was
handled below it, and `sync`. -/
def Act.follow (host : Host ρ γ) (number : Nat) (e : Engine) (event : Event)
    (before : List (Option MachineId)) : Option (Nat × Outcome) → Act ρ γ Unit
  | none => return ()
  | some (handled, outcome) => do
    bubble host number e handled before
    if 0 < handled then noteBelow host e.root (.machine outcome.machine) event
    discard <| sync host number

/-- **An event that is handled**, with the offers of it: after `Act.sync` there is a `World.Round`
along `w.rungs e`, and then `Act.follow`. The offers go up the chain as it was (`upward`), to the
root without an outcome (`everyone`), and to no identity twice (`once`). -/
structure World.Routed (host : Host ρ γ) (number : Nat) (e : Engine) (event : Event)
    (w w' : World ρ γ) (offers : List (Offer ρ γ)) (outcome? : Option Outcome) : Prop where
  course : ∃ w₀ w₁ last, (Act.sync host number).run w = some (w.chain e, w₀) ∧
    World.Round host e.root event (w.rungs e) w₀ w₁ offers ∧ offers.getLast? = some last ∧
    outcome? = last.applied?.map (·.2) ∧
    (Act.follow host number e event ((w.chain e).map fun level => w₀.id? level.link)
      last.applied?).run w₁ = some ((), w')
  upward : offers.map (·.link) <+: (w.activeLinks e).reverse
  everyone : outcome? = none → offers.map (·.link) = (w.activeLinks e).reverse
  once : (offers.map fun o => w.id? o.link).Nodup

namespace World

/-- The links in `w.rungs e` and then `e.root` are `w.activeLinks e` in reverse. -/
theorem map_rungs (w : World ρ γ) (e : Engine) :
    (w.rungs e).map (·.1.link) ++ [e.root] = (w.activeLinks e).reverse := by
  have hlevels : (w.rungs e).map (·.1) = (w.chain e).reverse := by
    rw [rungs, List.map_reverse, List.zipIdx_map_fst]
  have hlinks : (w.rungs e).map (·.1.link) = ((w.rungs e).map (·.1)).map (·.link) :=
    (List.map_map ..).symm
  rw [hlinks, hlevels, activeLinks, List.reverse_cons, List.map_reverse]

namespace Round

variable {rungs : List (Level × Nat)} {offers : List (Offer ρ γ)}

/-- **Only the last offer of a `World.Round` has an outcome.** -/
theorem exists_last (h : World.Round host root event rungs w w' offers) :
    ∃ front last, offers = front ++ [last] ∧ ∀ o ∈ front, o.outcome? = none := by
  induction h with
  | root hrun => exact ⟨[], _, rfl, by rintro _ ⟨⟩⟩
  | taken hrun => exact ⟨[], _, rfl, by rintro _ ⟨⟩⟩
  | passed hrun hrest ih =>
    obtain ⟨front, last, rfl, hfront⟩ := ih
    refine ⟨_ :: front, last, rfl, ?_⟩
    rintro o ho
    rcases List.mem_cons.1 ho with rfl | ho
    · rfl
    · exact hfront o ho

/-- No offer of `World.Round` has an outcome if the last one has none. -/
theorem outcome?_eq_none {last : Offer ρ γ}
    (h : World.Round host root event rungs w w' offers) (hlast : offers.getLast? = some last)
    (hnone : last.applied?.map (·.2) = none) : ∀ o ∈ offers, o.outcome? = none := by
  obtain ⟨front, last', rfl, hfront⟩ := h.exists_last
  rw [List.getLast?_concat, Option.some.injEq] at hlast
  subst hlast
  intro o ho
  rcases List.mem_append.1 ho with hin | hend
  · exact hfront o hin
  · rw [Option.map_eq_none_iff, Offer.applied?, Option.map_eq_none_iff] at hnone
    rw [List.mem_singleton.1 hend]
    exact hnone

/-- **`World.Round` with one child that does not take the event has two offers**: to the child and
to the root. -/
theorem eq_pair {rung : Level} (h : World.Round host root event [(rung, depth)] w w' offers)
    (hpassed : ((Act.tryLevel host rung event).run w).map (·.1.isSome) = some false)
    (hw₁ : w₁ = (Act.tryLevel host rung event).after w) :
    w' = (Act.dispatchLocal host root event).after w₁ ∧ ∃ outcome?,
      ((Act.dispatchLocal host root event).run w₁).map (·.1) = some outcome? ∧
      offers = [⟨rung.link, depth, some rung.snapshot, w, w₁, none⟩,
        ⟨root, 0, none, w₁, w', outcome?⟩] := by
  cases h with
  | taken hrun =>
    rw [hrun] at hpassed
    cases hpassed
  | passed hrun hrest =>
    rw [← Act.eq_after hrun] at hw₁
    subst hw₁
    cases hrest with
    | root hrun' => exact ⟨Act.eq_after hrun', _, by rw [hrun', Option.map_some], rfl⟩

/-- Every offer of a `World.Round` is in `IsMade`. -/
theorem isMade (h : World.Round host root event rungs w w' offers) :
    ∀ o ∈ offers, o.IsMade host event := by
  induction h with
  | root hrun =>
    rintro o ho
    rw [List.mem_singleton.1 ho]
    exact hrun
  | taken hrun =>
    rintro o ho
    rw [List.mem_singleton.1 ho]
    exact hrun
  | passed hrun hrest ih =>
    rintro o ho
    rcases List.mem_cons.1 ho with rfl | ho
    · exact hrun
    · exact ih o ho

/-- The offers of a `World.Round` go along the list, and then to the root. -/
theorem links_prefix (h : World.Round host root event rungs w w' offers) :
    offers.map (·.link) <+: rungs.map (·.1.link) ++ [root] := by
  induction h with
  | root hrun => exact List.prefix_rfl
  | taken hrun => exact List.prefix_append [_] _
  | passed hrun hrest ih => exact List.cons_prefix_cons.2 ⟨rfl, ih⟩

/-- `World.Round` without an outcome goes along the whole list and to the root. -/
theorem links_eq (h : World.Round host root event rungs w w' offers)
    (hnone : ∀ o ∈ offers, o.outcome? = none) :
    offers.map (·.link) = rungs.map (·.1.link) ++ [root] := by
  induction h with
  | root hrun => rfl
  | taken hrun => cases hnone _ List.mem_cons_self
  | passed hrun hrest ih =>
    exact congrArg (_ :: ·) (ih fun o ho => hnone o (List.mem_cons_of_mem _ ho))

/-- **`World.Round` along `w.rungs e` gives `World.Routed`**, after `Act.sync` and with
`Act.follow`. -/
theorem routed {last : Offer ρ γ} (h : World.Round host e.root event (w.rungs e) w₀ w₁ offers)
    (hsync : (Act.sync host number).run w = some (w.chain e, w₀))
    (hlast : offers.getLast? = some last)
    (hfollow : (Act.follow host number e event ((w.chain e).map fun level => w₀.id? level.link)
      last.applied?).run w₁ = some ((), w')) :
    World.Routed host number e event w w' offers (last.applied?.map (·.2)) := by
  have hlinks := w.map_rungs e
  have hupward := h.links_prefix
  rw [hlinks] at hupward
  refine ⟨⟨w₀, w₁, last, hsync, h, hlast, rfl, hfollow⟩, hupward, fun hnone => ?_, ?_⟩
  · rw [← hlinks]
    exact h.links_eq (h.outcome?_eq_none hlast hnone)
  · have hids := List.nodup_reverse.2 (w.nodup_ids e)
    rw [← List.map_reverse] at hids
    have hprefix := hupward.map w.id?
    rw [List.map_map] at hprefix
    exact hids.sublist hprefix.sublist

end Round

end World

/-! ## What comes of an offer -/

/-- **`host.observe` keeps machines**: a link that leads to a machine still does afterwards. -/
def Host.KeepsMachines (host : Host ρ γ) : Prop :=
  ∀ link subscriber change, Act.Upholds (·.HasMachine link) (host.observe subscriber change)

/-- `Act.notify` keeps machines. -/
theorem Host.KeepsMachines.notify (h : host.KeepsMachines) (link : Link) (change : Change) :
    Act.Upholds (·.HasMachine link) (Act.notify host link change) := by
  refine Act.upholds_get fun w hw => ?_
  split
  · exact Act.gives_pure hw
  · exact Act.upholds_forM (fun subscriber _ => h link subscriber change) w hw

namespace Act

/-- After `step` with a result there is still a machine at `link`. -/
theorem gives_step_hasMachine (hhost : host.KeepsMachines) :
    Gives False (step host link event) w fun entered? w' =>
      entered?.isSome = true → w'.HasMachine link := by
  refine gives_bind gives_run fun found? w₁ _ => ?_
  cases found? with
  | none => exact gives_pure fun h => by cases h
  | some found =>
    refine gives_get ?_
    split
    · exact gives_pure fun h => by cases h
    · rename_i m hm
      refine gives_bind ends_setCell.gives ?_
      rintro _ _ rfl
      have hnotify := hhost.notify link (m.changeTo found.event found.source found.target)
      refine gives_bind (hnotify _ ⟨_, World.machine?_setCell_self hm⟩) fun _ _ hw₂ => ?_
      exact gives_pure fun _ => hw₂

/-- **`dispatchLocal` has an outcome if and only if `step` enters a state.** -/
theorem gives_dispatchLocal_isSome (hhost : host.KeepsMachines) :
    Gives False (dispatchLocal host link event) w fun outcome? _ => outcome?.isSome = true ↔
      ∃ entered w₁, (step host link event).run w = some (some entered, w₁) := by
  rw [dispatchLocal]
  refine gives_bind (gives_step_hasMachine hhost).with_run ?_
  rintro (_ | entered) w₁ ⟨hrun, hmachine⟩
  · exact gives_get (gives_pure (by simp [hrun]))
  · obtain ⟨m, hm⟩ := hmachine rfl
    refine gives_get ?_
    simp only [hm]
    exact gives_bind gives_run fun _ w₂ _ => gives_pure (by simp [hrun])

/-- The outcome of `dispatchLocal` has depth 0. -/
theorem gives_dispatchLocal_depth :
    Gives False (dispatchLocal host link event) w fun outcome? _ =>
      ∀ outcome, outcome? = some outcome → outcome.depth = 0 := by
  rw [dispatchLocal]
  refine gives_bind gives_run ?_
  rintro (_ | entered) w₁ _
  · exact gives_get (gives_pure (by rintro _ ⟨⟩))
  · refine gives_get ?_
    split
    · refine gives_bind gives_run fun _ w₂ _ => gives_pure ?_
      rintro _ ⟨⟩
      rfl
    · exact gives_pure (by rintro _ ⟨⟩)

/-- **After `tryLevel` without an outcome a child that is no machine has no snapshot**, or one with
the same `key` and `revision`. -/
theorem snapshot?_of_tryLevel_eq_none (rung : Level) (hsend : w.machine? rung.link = none)
    (hrun : (tryLevel host rung event).run w = some (none, w')) :
    w'.snapshot? rung.link = none ∨ ∃ now, w'.snapshot? rung.link = some now ∧
      now.key = rung.snapshot.key ∧ now.revision = rung.snapshot.revision := by
  have htry : Gives False (tryLevel host rung event) w fun outcome? w' => outcome? = none →
      w'.snapshot? rung.link = none ∨ ∃ now, w'.snapshot? rung.link = some now ∧
        now.key = rung.snapshot.key ∧ now.revision = rung.snapshot.revision := by
    have htried : Gives False (tryOn host rung.link event) w fun attempt _ =>
        attempt = .unsupported := by
      refine gives_get ?_
      rw [hsend]
      exact gives_pure rfl
    refine gives_bind htried ?_
    rintro _ w₁ rfl
    refine gives_bind gives_run fun outcome? w₂ _ => ?_
    cases outcome? with
    | some outcome => exact gives_pure fun h => by cases h
    | none =>
      refine gives_get ?_
      cases hsnapshot : w₂.snapshot? rung.link with
      | none => exact gives_pure fun _ => .inl hsnapshot
      | some now =>
        obtain ⟨id, hid⟩ := World.exists_id_of_snapshot? hsnapshot
        simp only [hid]
        split
        · rename_i hsame
          exact gives_pure fun _ => .inr ⟨now, hsnapshot, hsame⟩
        · exact gives_pure fun h => by cases h
  exact htry.2 none w' hrun rfl

/-- `sync` gives `w.chain e`. -/
theorem gives_sync_levels (he : w.engines[number]? = some e) :
    Gives False (sync host number) w fun levels _ => levels = w.chain e := by
  rw [sync]
  refine gives_get ?_
  simp only [he]
  refine gives_bind gives_run fun _ w₁ _ => ?_
  split
  · refine gives_bind gives_run fun _ w₂ _ => gives_bind gives_run fun _ w₃ _ => ?_
    exact gives_bind gives_run fun _ w₄ _ => gives_pure rfl
  · exact gives_pure rfl

/-- **`attempt` is a `World.Round`**, and its result is that of the last offer. -/
theorem gives_attempt_round (levels : List Level) :
    Gives False (attempt host root levels event) w fun applied? w' => ∃ offers last,
      World.Round host root event (levels.zipIdx 1).reverse w w' offers ∧
      offers.getLast? = some last ∧ applied? = last.applied? := by
  rw [attempt]
  generalize (levels.zipIdx 1).reverse = rungs
  induction rungs generalizing w with
  | nil =>
    rw [attemptLevels, pure_bind]
    refine gives_bind gives_dispatchLocal_depth.with_run ?_
    rintro outcome? w' ⟨hrun, hdepth⟩
    refine gives_pure ⟨_, ⟨root, 0, none, w, w', outcome?⟩, .root hrun, rfl, ?_⟩
    -- The outcome of the root is at its depth already.
    cases outcome? with
    | none => rfl
    | some outcome =>
      have hroot : outcome.atDepth 0 = outcome := by
        rw [Outcome.atDepth, ← hdepth outcome rfl]
      rw [Offer.applied?, Option.map_some, Option.map_some, hroot]
  | cons rung rest ih =>
    obtain ⟨rung, depth⟩ := rung
    rw [attemptLevels, bind_assoc]
    refine gives_bind gives_run fun outcome? w₁ hrun => ?_
    cases outcome? with
    | some outcome => exact gives_pure ⟨_, _, .taken hrun, rfl, rfl⟩
    | none =>
      refine ih.mono ?_
      rintro applied? w' ⟨offers, last, hround, hlast, happlied⟩
      refine ⟨_, last, .passed hrun hround, ?_, happlied⟩
      rw [List.getLast?_cons, hlast, Option.getD_some]

end Act

namespace Offer.IsMade

variable {o : Offer ρ γ} {acts : Offer ρ γ → Prop}

/-- **A machine has an outcome if and only if it `Enters` a state.** -/
theorem isSome_iff (h : o.IsMade host event) (hhost : host.KeepsMachines) (ho : ¬ o.IsSendOnly) :
    o.outcome?.isSome = true ↔ o.Enters host event := by
  have hlocal : (Act.dispatchLocal host o.link event).run o.before =
      some (o.outcome?, o.after) := by
    rw [IsMade] at h
    split at h
    · exact h
    · rename_i shown hshown
      cases hm : o.before.machine? o.link with
      | none => exact absurd ⟨by rw [hshown]; rfl, hm⟩ ho
      | some m => rwa [Act.tryLevel_run hm] at h
  exact (Act.gives_dispatchLocal_isSome hhost).2 _ _ hlocal

/-- **A child that `Shows` without an outcome `Hides`**, for `tryLevel` makes an outcome of another
`key` or `revision`. -/
theorem hides (h : o.IsMade host event) (ho : o.IsSendOnly) (hnone : o.outcome? = none)
    (hshows : o.Shows) : o.Hides := by
  obtain ⟨shown, hshown⟩ := Option.isSome_iff_exists.1 ho.1
  rw [IsMade, hshown, hnone] at h
  refine ⟨ho, hnone, ?_⟩
  rcases Act.snapshot?_of_tryLevel_eq_none ⟨o.link, shown⟩ ho.2 h with hgone | hsame
  · exact hgone
  · obtain ⟨now, hnow, hkey, hrevision⟩ := hsame
    rcases hshows with hsome | hdiffers
    · rw [hnone] at hsome
      cases hsome
    · exact absurd ⟨shown, now, hshown, hnow, hkey, hrevision⟩ hdiffers

/-- **An offer with `acts` and without an outcome `Hides`**, if `acts` is fair. -/
theorem hides_of_acts (h : o.IsMade host event) (hhost : host.KeepsMachines)
    (hfair : o.IsFair host event acts) (hnone : o.outcome? = none) (hacts : acts o) : o.Hides := by
  by_cases ho : o.IsSendOnly
  · exact h.hides ho hnone (hfair.shown ho hacts)
  · have hsome := (h.isSome_iff hhost ho).2 ((hfair.machine ho).1 hacts)
    rw [hnone] at hsome
    cases hsome

/-- `acts` is fair about a machine with an outcome if it says that it acts. -/
theorem isFair_of_isSome (h : o.IsMade host event) (hhost : host.KeepsMachines)
    (ho : ¬ o.IsSendOnly) (hsome : o.outcome?.isSome = true) (hacts : acts o) :
    o.IsFair host event acts :=
  ⟨fun _ => ⟨fun _ => (h.isSome_iff hhost ho).1 hsome, fun _ => hacts⟩, fun hs => absurd hs ho⟩

end Offer.IsMade

/-- Every `acts` is fair about a child that has no snapshot any more. -/
theorem Offer.isFair_of_snapshot?_eq_none {o : Offer ρ γ} {acts : Offer ρ γ → Prop}
    (ho : o.IsSendOnly) (hgone : o.after.snapshot? o.link = none) : o.IsFair host event acts := by
  refine ⟨fun hnot => absurd ho hnot, fun _ _ => .inr ?_⟩
  rintro ⟨was, now, -, hnow, -⟩
  rw [hgone] at hnow
  cases hnow

/-! ## Who takes an event -/

/-- **`OneTaker` holds for a `World.Round` if and only if no offer with `acts` `Hides`**, for every
fair `acts`. -/
theorem World.Round.takes_once_iff {rungs : List (Level × Nat)} {offers : List (Offer ρ γ)}
    {last : Offer ρ γ} {acts : Offer ρ γ → Prop}
    (h : World.Round host root event rungs w w' offers) (hhost : host.KeepsMachines)
    (hlast : offers.getLast? = some last) (hfair : ∀ o ∈ offers, o.IsFair host event acts) :
    OneTaker acts offers (last.applied?.map (·.2)) ↔ ∀ o ∈ offers, acts o → ¬ o.Hides := by
  have hmade := h.isMade
  obtain ⟨front, last', rfl, hfront⟩ := h.exists_last
  have heq := hlast
  rw [List.getLast?_concat, Option.some.injEq] at heq
  subst heq
  constructor
  · rintro ⟨hstops, htold⟩ o ho hacts ⟨-, hnone, -⟩
    rcases List.mem_append.1 ho with hin | hend
    · -- It is offered to others after one that acts.
      exact (List.pairwise_append.1 hstops).2.2 o hin last' (List.mem_singleton_self _) hacts
    · -- There is no outcome though one has acted.
      rw [List.mem_singleton.1 hend] at hnone
      refine htold ?_ o ho hacts
      rw [Offer.applied?, hnone, Option.map_none, Option.map_none]
  · intro hshown
    have hquiet : ∀ o ∈ front ++ [last'], o.outcome? = none → ¬ acts o := fun o ho hnone hacts =>
      hshown o ho hacts ((hmade o ho).hides_of_acts hhost (hfair o ho) hnone hacts)
    have hbefore : ∀ o ∈ front, ¬ acts o := fun o ho =>
      hquiet o (List.mem_append_left _ ho) (hfront o ho)
    constructor
    · refine List.pairwise_append.2 ⟨?_, List.pairwise_singleton _ _, fun o ho _ _ => hbefore o ho⟩
      have hall : front.Pairwise fun _ _ => True := List.pairwise_of_forall fun _ _ => trivial
      exact hall.imp_of_mem fun ho _ _ => hbefore _ ho
    · exact fun hnone o ho => hquiet o ho (h.outcome?_eq_none hlast hnone o ho)

namespace Act

/-- **`handle` gives `World.Routed`** for every domain event. -/
theorem gives_handle_routed (he : w.engines[number]? = some e) {name : String} {params : Params}
    (hname : isReservedName name = false) :
    Gives False (handle host number (.domain name params)) w fun outcome? w' =>
      ∃ offers, World.Routed host number e (.domain name params) w w' offers outcome? := by
  have hnamed : (Event.domain name params).isMisnamed = false := hname
  have hdomain : (Event.domain name params).isReserved = false := rfl
  rw [handle]
  refine gives_get ?_
  simp only [he, hnamed, hdomain, Bool.false_eq_true, if_false]
  refine gives_bind (gives_sync_levels he).with_run ?_
  rintro _ w₀ ⟨hrun₀, rfl⟩
  refine gives_get ?_
  refine gives_bind (gives_attempt_round (w.chain e)) ?_
  rintro applied? w₁ ⟨offers, last, hround, hlast, rfl⟩
  -- What follows on the round depends on whether its last offer was taken.
  have hfollowed : Gives False (follow host number e (.domain name params)
      ((w.chain e).map fun level => w₀.id? level.link) last.applied?) w₁ fun _ w' =>
      World.Routed host number e (.domain name params) w w' offers (last.applied?.map (·.2)) :=
    gives_run.mono fun _ w' hfollow => hround.routed hrun₀ hlast hfollow
  cases happlied : last.applied? with
  | none =>
    rw [happlied] at hfollowed
    have hw₁ := hfollowed.2 () w₁ rfl
    exact gives_pure ⟨offers, hw₁⟩
  | some applied =>
    rw [happlied] at hfollowed
    have hrest : Gives False (follow host number e (.domain name params)
        ((w.chain e).map fun level => w₀.id? level.link) (some applied) >>=
          fun _ => pure (some applied.2)) w₁ fun outcome? w' => ∃ offers,
          World.Routed host number e (.domain name params) w w' offers outcome? :=
      gives_bind hfollowed fun _ w' hw' => gives_pure ⟨offers, hw'⟩
    rw [follow] at hrest
    -- If a machine below the root took it, the root notes this first.
    by_cases hdeep : 0 < applied.1
    · simpa only [hdeep, if_true, bind_assoc] using hrest
    · simpa only [hdeep, if_false, pure_bind, bind_assoc] using hrest

/-- **One taker at most, exactly if no taker hides.** When `Act.handle` runs with a domain event,
there are `offers` of it, to the machines of the chain and to the children that can only be sent
events, such that `World.Routed` holds: the deepest one comes first, and nobody is offered it twice.
Let `acts` say of each offer whether it was acted on, and let it be fair (`Offer.IsFair`): a machine
acts by entering a state, and a child that acts shows it. Then `OneTaker acts offers outcome?`,
which is that nobody is offered the event after one that acts and that there is an outcome if
somebody acts, holds if and only if no offer that is acted on is `Offer.Hides`. -/
theorem one_taker_iff (hhost : host.KeepsMachines) (he : w.engines[number]? = some e)
    {name : String} {params : Params} (hname : isReservedName name = false)
    (hrun : (handle host number (.domain name params)).run w = some (outcome?, w')) :
    ∃ offers, World.Routed host number e (.domain name params) w w' offers outcome? ∧
      ∀ acts : Offer ρ γ → Prop, (∀ o ∈ offers, o.IsFair host (.domain name params) acts) →
        (OneTaker acts offers outcome? ↔ ∀ o ∈ offers, acts o → ¬ o.Hides) := by
  obtain ⟨offers, hrouted⟩ := (gives_handle_routed he hname).2 outcome? w' hrun
  refine ⟨offers, hrouted, fun acts hfair => ?_⟩
  obtain ⟨w₀, w₁, last, -, hround, hlast, rfl, -⟩ := hrouted.course
  exact hround.takes_once_iff hhost hlast hfair

end Act

/-! ## A counter -/

/-- The plan of a counter, which is `"Open"` with a clerk below it. The clerk can only be sent
events, has no outcomes, and shows no snapshot in the state `hiddenIn`. -/
def MachinePlan.counter (hiddenIn : Option String) : MachinePlan Unit where
  config := .ok {}
  factory := [.unit "Closed" false (.plain "Closed" .null false),
    .made "Open" false fun _ => some
      { key := "Open", data := .null, isFinal := false
        child? := some (.sendOnly clerk true hiddenIn), needsChild := true }]
  rows := [⟨"Open", .event "serve", .target "Closed"⟩]
  initialKey? := some "Open"
  initial? := none
  subscribers := []
  shareAs? := none

/-- `Surroundings.quiet`, with calls one inside another. -/
def Host.counter : Host Unit Unit := Surroundings.quiet.host 2

/-- `MachinePlan.counter` and then `wrap`. -/
def Act.openCounter (hiddenIn : Option String) : Act Unit Unit Unit := do
  match ← (MachinePlan.counter hiddenIn).realise Host.counter with
  | .ok root => wrap Host.counter root {}
  | .error _ => return ()

/-- The world after `Act.openCounter`. -/
def World.counter (hiddenIn : Option String) : World Unit Unit :=
  (Act.openCounter hiddenIn).after { guest := () }

/-- The engine of `World.counter`. -/
def World.counterEngine (hiddenIn : Option String) : Engine :=
  ((World.counter hiddenIn).engines[0]?).getD default

/-- `Host.counter` keeps machines. -/
theorem Host.keepsMachines_counter : Host.counter.KeepsMachines :=
  fun _ _ _ => Act.upholds_pure ()

/-- `one_taker_iff` for `World.counter none`, where the clerk may be seen: the clerk is `"Done"`,
and nobody else does anything. -/
theorem Act.counter_served_once :
    ∃ w' outcome?,
      (World.counter none).engines[0]? = some (World.counterEngine none) ∧
      (Act.handle Host.counter 0 (.domain "serve" [])).run (World.counter none) =
        some (outcome?, w') ∧
      outcome?.map (·.target) = some "Done" ∧ w'.stateKeys = ["Done", "Open"] ∧
      ∃ offers, World.Routed Host.counter 0 (World.counterEngine none) (.domain "serve" [])
        (World.counter none) w' offers outcome? ∧
        ∀ acts : Offer Unit Unit → Prop,
          (∀ o ∈ offers, o.IsFair Host.counter (.domain "serve" []) acts) →
          (OneTaker acts offers outcome? ↔ ∀ o ∈ offers, acts o → ¬ o.Hides) := by
  have hsome : ((World.counter none).engines[0]?).isSome = true := by decide +kernel
  have he : (World.counter none).engines[0]? = some (World.counterEngine none) := by
    obtain ⟨e, he⟩ := Option.isSome_iff_exists.1 hsome
    rw [World.counterEngine, he, Option.getD_some]
  have hserved : ((Act.handle Host.counter 0 (.domain "serve" [])).run (World.counter none)).map
      (fun served => (served.1.map (·.target), served.2.stateKeys)) =
        some (some "Done", ["Done", "Open"]) := by decide +kernel
  have hname : isReservedName "serve" = false := by decide
  obtain ⟨⟨outcome?, w'⟩, hrun, heq⟩ := Option.map_eq_some_iff.1 hserved
  rw [Prod.mk.injEq] at heq
  exact ⟨w', outcome?, he, hrun, heq.1, heq.2,
    one_taker_iff Host.keepsMachines_counter he hname hrun⟩

/-- **The counter serves again what its clerk has served.** In `World.counter (some "Done")` the
clerk shows no snapshot when it is `"Done"`. So `Act.handle` offers `"serve"` to the counter as
well, which closes, and `OneTaker Offer.Moves` fails. -/
theorem Act.counter_served_twice :
    ∃ w' outcome? offers,
      (World.counter (some "Done")).engines[0]? = some (World.counterEngine (some "Done")) ∧
      (Act.handle Host.counter 0 (.domain "serve" [])).run (World.counter (some "Done")) =
        some (outcome?, w') ∧
      World.Routed Host.counter 0 (World.counterEngine (some "Done")) (.domain "serve" [])
        (World.counter (some "Done")) w' offers outcome? ∧
      offers.map (fun o => (o.before.stateKeys, o.after.stateKeys)) =
        [(["Free", "Open"], ["Done", "Open"]), (["Done", "Open"], ["Done", "Closed"])] ∧
      (∀ o ∈ offers, o.IsFair Host.counter (.domain "serve" []) Offer.Moves) ∧
      ¬ OneTaker Offer.Moves offers outcome? := by
  -- The worlds after the registrations, after the offer to the clerk, and after that to the root.
  let w : World Unit Unit := World.counter (some "Done")
  let e := World.counterEngine (some "Done")
  let rung := ((w.rungs e).headD default).1
  let w₀ := (Act.sync Host.counter 0).after w
  let w₁ := (Act.tryLevel Host.counter rung (.domain "serve" [])).after w₀
  let w₂ := (Act.dispatchLocal Host.counter e.root (.domain "serve" [])).after w₁
  have hsome : (w.engines[0]?).isSome = true := by decide +kernel
  have hruns : ((Act.handle Host.counter 0 (.domain "serve" [])).run w).isSome = true := by
    decide +kernel
  have hlength : (w.rungs e).length = 1 := by decide +kernel
  have hpassed : ((Act.tryLevel Host.counter rung (.domain "serve" [])).run w₀).map (·.1.isSome) =
      some false := by decide +kernel
  have htaken : ((Act.dispatchLocal Host.counter e.root (.domain "serve" [])).run w₁).map
      (·.1.isSome) = some true := by decide +kernel
  have hgone : (w₁.snapshot? rung.link).isNone = true := by decide +kernel
  have hshell : (w₀.machine? rung.link).isNone = true := by decide +kernel
  have hkeys : (w₀.stateKeys, w₁.stateKeys, w₂.stateKeys) =
      (["Free", "Open"], ["Done", "Open"], ["Done", "Closed"]) := by decide +kernel
  rw [Prod.mk.injEq, Prod.mk.injEq] at hkeys
  obtain ⟨hkeys₀, hkeys₁, hkeys₂⟩ := hkeys
  have he : w.engines[0]? = some e := by
    obtain ⟨e', he'⟩ := Option.isSome_iff_exists.1 hsome
    show _ = some ((w.engines[0]?).getD default)
    rw [he', Option.getD_some]
  have hrungs : w.rungs e = [(rung, ((w.rungs e).headD default).2)] := by
    obtain ⟨first, hfirst⟩ := List.length_eq_one_iff.1 hlength
    show _ = [(w.rungs e).headD default]
    rw [hfirst, List.headD_cons]
  obtain ⟨⟨outcome?, w'⟩, hrun⟩ := Option.isSome_iff_exists.1 hruns
  obtain ⟨offers, hrouted⟩ := (gives_handle_routed he (by decide)).2 outcome? w' hrun
  refine ⟨w', outcome?, offers, he, hrun, hrouted, ?_⟩
  obtain ⟨v₀, v₂, last, hsync, hround, -⟩ := hrouted.course
  have hw₀ : v₀ = w₀ := eq_after hsync
  have hw₁ : w₁ = (Act.tryLevel Host.counter rung (.domain "serve" [])).after w₀ := rfl
  have hw₂ : w₂ = (Act.dispatchLocal Host.counter e.root (.domain "serve" [])).after w₁ := rfl
  -- From here on the worlds are just what has been found out about them.
  clear_value w₂ w₁ w₀ rung
  rw [hrungs, hw₀] at hround
  have hmade := hround.isMade
  obtain ⟨hv₂, rootOutcome?, hroot, rfl⟩ := hround.eq_pair hpassed hw₁
  obtain rfl : v₂ = w₂ := hv₂.trans hw₂.symm
  refine ⟨?_, List.forall_mem_cons.2 ⟨?_, List.forall_mem_singleton.2 ?_⟩, fun hone => ?_⟩
  · simp only [List.map_cons, List.map_nil, hkeys₀, hkeys₁, hkeys₂]
  · -- The clerk shows that he has acted, for he is gone.
    exact Offer.isFair_of_snapshot?_eq_none ⟨rfl, Option.isNone_iff_eq_none.1 hshell⟩
      (Option.isNone_iff_eq_none.1 hgone)
  · have hlast := hmade _ (List.mem_cons_of_mem _ List.mem_cons_self)
    refine hlast.isFair_of_isSome Host.keepsMachines_counter ?_ ?_ ?_
    · rintro ⟨hshown, -⟩
      cases hshown
    · have hsame : some rootOutcome?.isSome = some true := by
        rw [← htaken, ← Option.map_some, ← hroot, Option.map_map]
        rfl
      exact Option.some.inj hsame
    · show v₂.stateKeys ≠ w₁.stateKeys
      rw [hkeys₁, hkeys₂]
      decide
  · refine (List.pairwise_cons.1 hone.stops).1 _ (List.mem_singleton_self _) ?_
    show w₁.stateKeys ≠ w₀.stateKeys
    rw [hkeys₀, hkeys₁]
    decide

end Statechart
