import Statechart.Proofs.World.Course

/-! # What an event touches

A domain event that arrives at a hierarchy of plain machines is taken by one of them at most.
Besides that one, no machine moves but those that take the exit of their child, and the root makes a
note.

* `World.Ignored`, **`World.Answered`**: an event that nobody takes, and one that a machine takes.
* `Act.gives_handle`: what comes of handling an event, for machines of any kind.
* **`Act.handle_touches`**: every event is ignored or answered. -/

namespace Statechart

variable {ρ γ : Type} {settings : MachineConfig → Prop} {plain : Prop} {host : Host ρ γ}
  {kept : Link → Prop} {w w' w'' : World ρ γ} {e : Engine} {link root : Link} {links : List Link}
  {number depth : Nat} {event : Event} {outcome : Outcome}

namespace World

/-! ## Ignored and answered -/

/-- **Nobody takes the event**: all of `w.activeLinks e` decline it, from the deepest one up
(`World.DeclinedBy`), and every machine `Stays`. -/
structure Ignored (host : Host ρ γ) (e : Engine) (event : Event) (w w' : World ρ γ) : Prop where
  declined : ∃ w₀, w.Stays (fun _ => True) w₀ ∧
    World.DeclinedBy host event (w.activeLinks e).reverse w₀ w'
  stays : w.Stays (fun _ => True) w'

/-- The root `Notes` what was taken below it, if `outcome.depth` is not 0. -/
def NotesBelow (root : Link) (outcome : Outcome) (event : Event) (w w' : World ρ γ) : Prop :=
  if outcome.depth = 0 then w' = w else w.Notes root (.machine outcome.machine) event w'

/-- **The machine at `link` takes the event**, at `outcome.depth`: the deeper ones have declined it,
it `Takes` it, then `World.ExitsRise` for `exits`, to different machines, and `NotesBelow`. No other
machine moves, and in particular none that was deeper on the chain. -/
structure Answered (plain : Prop) (host : Host ρ γ) (e : Engine) (event : Event) (w w' : World ρ γ)
    (outcome : Outcome) (link : Link) (exits : List Link) : Prop where
  place : (w.activeLinks e)[outcome.depth]? = some link
  course : ∃ w₀ w₁ w₂ w₃ w₄ start taken, w.Stays (fun _ => True) w₀ ∧
    World.DeclinedBy host event ((w.activeLinks e).drop (outcome.depth + 1)).reverse w₀ w₁ ∧
    w₁.Takes plain host link event w₂ taken ∧ outcome = taken.atDepth outcome.depth ∧
    World.ExitsRise plain host e start exits w₂ w₃ ∧
    w₃.NotesBelow e.root outcome event w₄ ∧ w₄.Stays (fun _ => True) w'
  once : exits.Nodup
  stays : w.Stays (fun other => other ≠ link ∧ other ∉ exits ∧ other ≠ e.root) w'
  deeper : w.Stays (· ∈ (w.activeLinks e).drop (outcome.depth + 1)) w'

/-- **What comes of handling an event**: `Ignored` without an outcome, and `Answered` with one. -/
inductive Handled (plain : Prop) (host : Host ρ γ) (e : Engine) (event : Event) (w w' : World ρ γ) :
    Option Outcome → Prop
  | ignored : w.Ignored host e event w' → World.Handled plain host e event w w' none
  | answered {outcome : Outcome} {link : Link} {exits : List Link} :
    w.Answered plain host e event w' outcome link exits →
    World.Handled plain host e event w w' (some outcome)

/-- `NotesBelow` moves no machine but the root. -/
theorem NotesBelow.passes (h : w.NotesBelow root outcome event w') : w.Passes (· ≠ root) w' := by
  unfold NotesBelow at h
  split at h
  · rw [h]
    exact .refl _ w
  · exact h.passes

/-- **A machine below the one that takes the event takes no exit**, if those that do are above it or
new on the chain; and it is not the root. -/
theorem apart_of_mem_drop {before : List (Option MachineId)} {exits : List Link} {other : Link}
    (hlink : (w.activeLinks e)[depth]? = some link)
    (htake : (w'.activeLinks e).take (depth + 1) = (w.activeLinks e).take (depth + 1))
    (hbefore : ∀ level ∈ w.chain e, w'.id? level.link ∈ before)
    (hexits : ∀ exit ∈ exits, exit ∈ (w'.activeLinks e).take (depth + 1) ∨ w'.id? exit ∉ before)
    (hother : other ∈ (w.activeLinks e).drop (depth + 1)) :
    other ≠ link ∧ other ∉ exits ∧ other ≠ e.root := by
  refine ⟨ne_of_mem_drop hlink hother, fun hexit => ?_, ?_⟩
  · rcases hexits other hexit with habove | hnew
    · rw [htake] at habove
      exact not_mem_take hother habove
    · obtain ⟨level, hlevel, rfl⟩ := List.mem_map.1 (List.mem_of_mem_drop (i := depth) hother)
      exact hnew (hbefore level hlevel)
  · rintro rfl
    exact not_mem_take hother List.mem_cons_self

/-- **`Answered` from its course**: `DeclinedBy`, `Takes`, `ExitsRise`, `NotesBelow`. -/
theorem Answered.of_course {w₀ w₁ w₂ w₃ w₄ : World ρ γ} {start : Nat} {taken : Outcome}
    {exits : List Link} (hlink : (w.activeLinks e)[depth]? = some link)
    (hstays : w.Stays (fun _ => True) w₀)
    (hdeclined : World.DeclinedBy host event ((w.activeLinks e).drop (depth + 1)).reverse w₀ w₁)
    (htakes : w₁.Takes plain host link event w₂ taken)
    (hrise : World.ExitsRise plain host e start exits w₂ w₃) (honce : exits.Nodup)
    (hnote : w₃.NotesBelow e.root (taken.atDepth depth) event w₄)
    (hstays' : w₄.Stays (fun _ => True) w')
    (hdeeper : ∀ other ∈ (w.activeLinks e).drop (depth + 1),
      other ≠ link ∧ other ∉ exits ∧ other ≠ e.root) :
    w.Answered plain host e event w' (taken.atDepth depth) link exits := by
  -- Each part of the course moves only some of the machines that are left out.
  have hrest : w.Stays (fun other => other ≠ link ∧ other ∉ exits ∧ other ≠ e.root) w' :=
    (hstays.mono fun _ _ => trivial).trans <|
      (hdeclined.passes.mono fun _ _ => trivial).toStays.trans <|
      (htakes.passes.mono fun _ hother => hother.1).toStays.trans <|
      (hrise.passes.mono fun _ hother => hother.2.1).toStays.trans <|
      (hnote.passes.mono fun _ hother => hother.2.2).toStays.trans <|
      hstays'.mono fun _ _ => trivial
  exact ⟨hlink, ⟨w₀, w₁, w₂, w₃, w₄, start, taken, hstays, hdeclined, htakes, rfl, hrise, hnote,
    hstays'⟩, honce, hrest, hrest.mono hdeeper⟩

end World

namespace Act

/-! ## Handling an event -/

/-- `sync` after an outcome moves no machine. -/
theorem gives_outcome (hhost : host.IsCalm settings plain) (hw : w.Tidy settings)
    (he : w.Routes number e) (hroot : w.HasMachine e.root) (outcome : Outcome) :
    Gives plain (do discard (sync host number); return some outcome) w fun outcome? w' =>
      outcome? = some outcome ∧ w'.Tidy settings ∧ w.Stays (fun _ => True) w' := by
  have hsync : Gives plain (discard (sync host number)) w fun _ w' => w'.Tidy settings ∧
      w.Stays (fun _ => True) w' :=
    gives_discard <| (gives_sync hhost hw he hroot).mono fun _ _ hw' => ⟨hw'.2.1, hw'.2.2.1⟩
  exact gives_bind hsync fun _ _ hw' => gives_pure ⟨rfl, hw'⟩

/-- **`handle` gives `World.Handled`** for every domain event. -/
theorem gives_handle (hhost : host.IsTame settings plain)
    (hplain : plain → ∀ c, settings c → c.lookup = .exact) (hw : w.Tidy settings)
    (he : w.engines[number]? = some e) (hroot : w.HasMachine e.root)
    (hnamed : event.isMisnamed = false) (hdomain : event.isReserved = false) :
    Gives plain (handle host number event) w fun outcome? w' => w'.Tidy settings ∧
      World.Handled plain host e event w w' outcome? := by
  have hroutes : w.Routes number e := ⟨e, he, rfl, rfl⟩
  rw [handle]
  refine gives_get ?_
  simp only [he, hnamed, hdomain, Bool.false_eq_true, if_false]
  refine gives_bind (gives_sync hhost.toIsCalm hw hroutes hroot) ?_
  rintro _ w₀ ⟨rfl, hw₀, hstays₀, hlinks₀, -⟩
  have hroot₀ := hstays₀.hasMachine hroot
  have hmachines : ∀ level ∈ w.chain e, w₀.HasMachine level.link := by
    intro level hlevel
    obtain ⟨m, hm, -⟩ := hw.exists_of_mem_chain hlevel
    exact hstays₀.hasMachine ⟨m, hm⟩
  refine gives_get ?_
  refine gives_bind (gives_attempt hhost hplain hw₀ hmachines) ?_
  rintro result w₂ ⟨hw₂, hoffered⟩
  have hactive : e.root :: (w.chain e).map (·.link) = w.activeLinks e := rfl
  rw [hactive] at hoffered
  cases hoffered with
  | nobody hdeclined =>
    have hstays₂ := hstays₀.trans hdeclined.passes.toStays
    exact gives_pure ⟨hw₂, .ignored ⟨⟨w₀, hstays₀, hdeclined⟩, hstays₂⟩⟩
  | @someone depth link w₁ taken hlink hdeclined htakes =>
    have hpasses₂ : w₀.Passes (· ≠ link) w₂ :=
      (hdeclined.passes.mono fun _ _ => trivial).trans htakes.passes
    have htake : (w₂.activeLinks e).take (depth + 1) = (w.activeLinks e).take (depth + 1) := by
      rw [hpasses₂.take_activeLinks hw₀ hroot₀, hlinks₀]
      intro other hother
      rw [hlinks₀] at hother
      exact World.ne_of_mem_take hlink hother
    have hroutes₂ := hpasses₂.routes (hstays₀.routes hroutes)
    have hroot₂ := hpasses₂.hasMachine hroot₀
    refine gives_bind (gives_bubble hhost hplain _ hw₂ hroutes₂ hroot₂) ?_
    rintro _ w₃ ⟨hw₃, start, exits, hrise, honce, hexits⟩
    have hroot₃ := hrise.passes.hasMachine hroot₂
    have hroutes₃ := hrise.passes.routes hroutes₂
    have hids : ∀ level ∈ w.chain e,
        w₂.id? level.link ∈ (w.chain e).map fun level => w₀.id? level.link := by
      intro level hlevel
      obtain ⟨m₀, hm₀⟩ := hmachines level hlevel
      obtain ⟨m₂, hm₂, hid, -⟩ := hpasses₂.machine level.link m₀ hm₀
      refine List.mem_map.2 ⟨level, hlevel, ?_⟩
      rw [World.id?_of_machine? hm₀, World.id?_of_machine? hm₂, hid]
    have hdeeper := fun other (hother : other ∈ (w.activeLinks e).drop (depth + 1)) =>
      World.apart_of_mem_drop hlink htake hids hexits hother
    -- All that is left after the note is to bring registrations in line.
    have hrest : ∀ w₄, w₄.Tidy settings → w₃.NotesBelow e.root (taken.atDepth depth) event w₄ →
        Gives plain (do discard (sync host number); return some (taken.atDepth depth)) w₄
          fun outcome? w' => w'.Tidy settings ∧
            World.Handled plain host e event w w' outcome? := by
      intro w₄ hw₄ hnote
      refine (gives_outcome hhost.toIsCalm hw₄ (hnote.passes.routes hroutes₃)
        (hnote.passes.hasMachine hroot₃) _).mono ?_
      rintro _ w' ⟨rfl, hw', hstays'⟩
      exact ⟨hw', .answered (.of_course hlink hstays₀ hdeclined htakes hrise honce hnote hstays'
        hdeeper)⟩
    by_cases hdeep : 0 < depth
    · rw [if_pos hdeep]
      obtain ⟨m₃, hm₃⟩ := hroot₃
      refine gives_bind (gives_noteBelow hhost hw₃ hm₃) ?_
      rintro _ w₄ ⟨hw₄, hnotes⟩
      refine hrest w₄ hw₄ ?_
      rw [World.NotesBelow, if_neg]
      · exact hnotes
      · exact Nat.ne_of_gt hdeep
    · rw [if_neg hdeep]
      refine hrest w₃ hw₃ ?_
      rw [World.NotesBelow, if_pos]
      exact Nat.eq_zero_of_not_pos hdeep

/-- **A domain event touches exactly what it should.** In a world of machines that look up events at
their states alone (`lookup = .exact`), and with subscribers that leave them alone (`Host.IsTame`),
`Act.handle` comes to an end with what `World.Handled` says. Either every machine of the active
chain declines and none moves; or the deepest one that has an answer takes it, at `outcome.depth`,
and what moves besides are machines that take exits of finished children, going up, and the root,
which makes a note of what was taken below it. -/
theorem handle_touches (hhost : host.IsTame (·.lookup = .exact) True)
    (hw : w.Tidy (·.lookup = .exact)) (he : w.engines[number]? = some e)
    (hroot : w.HasMachine e.root) {name : String} (hname : isReservedName name = false)
    (params : Params) :
    ∃ outcome? w', (handle host number (.domain name params)).run w = some (outcome?, w') ∧
      w'.Tidy (·.lookup = .exact) ∧
      World.Handled True host e (.domain name params) w w' outcome? := by
  have hnamed : (Event.domain name params).isMisnamed = false := hname
  have hplain : True → ∀ c : MachineConfig, c.lookup = .exact → c.lookup = .exact :=
    fun _ _ hlookup => hlookup
  obtain ⟨outcome?, w', hrun, hw', hhandled⟩ :=
    (gives_handle hhost hplain hw he hroot hnamed rfl).ends trivial
  exact ⟨outcome?, w', hrun, hw', hhandled⟩

end Act

/-! ## A shop -/

/-- The plan of a clerk: `"serve"` leads from `"Free"` to `"Done"`, which is final. -/
def MachinePlan.clerk : MachinePlan Unit where
  config := .ok {}
  factory := [.unit "Free" false (.plain "Free" .null false),
    .unit "Done" true (.plain "Done" .null true)]
  rows := [⟨"Free", .event "serve", .target "Done"⟩]
  initialKey? := some "Free"
  initial? := none
  subscribers := []
  shareAs? := none

/-- The plan of a shop: `"Open"` with a clerk below it, whose exit leads to `"Closed"`. -/
def MachinePlan.shop : MachinePlan Unit where
  config := .ok {}
  factory := [.unit "Closed" false (.plain "Closed" .null false),
    .made "Open" false fun _ => some
      { key := "Open", data := .null, isFinal := false, child? := some (.machine clerk)
        needsChild := true }]
  rows := [⟨"Open", .key .childExit, .target "Closed"⟩]
  initialKey? := some "Open"
  initial? := none
  subscribers := []
  shareAs? := none

/-- `MachinePlan.shop` and then `wrap`. -/
def Act.openShop : Act Unit Unit Unit := do
  match ← MachinePlan.shop.realise (Surroundings.quiet.host 1) with
  | .ok root => wrap (Surroundings.quiet.host 1) root {}
  | .error _ => return ()

/-- The world after `Act.openShop`. -/
def World.shop : World Unit Unit := Act.openShop.after { guest := () }

/-- `MachinePlan.shop` fits. -/
theorem MachinePlan.fits_shop (known : Link → Prop) :
    MachinePlan.shop.Fits (·.lookup = .exact) known := by
  simp [MachinePlan.shop, MachinePlan.clerk, MachinePlan.Fits, itemsFit, itemFits, rowsFit,
    specFits, stateFits, StatePlan.plain, StatePlan.Fits, childFits, ChildPlan.Fits]

/-- `World.shop` is tidy. -/
theorem World.tidy_shop : World.shop.Tidy (·.lookup = .exact) := by
  have hhost : (Surroundings.quiet.host 1 : Host Unit Unit).IsTame (·.lookup = .exact) True :=
    Surroundings.isTame_quiet 0
  have hempty : ({ guest := () } : World Unit Unit).Tidy (·.lookup = .exact) := tidy_empty ()
  have hopen : Act.Gives True Act.openShop { guest := () } fun _ w' =>
      w'.Tidy (·.lookup = .exact) := by
    have hfits := MachinePlan.fits_shop ({ guest := () } : World Unit Unit).HasMachine
    refine Act.gives_bind (MachinePlan.gives_realise hhost.toIsCalm .shop _ hfits hempty) ?_
    rintro (error | root) w₁ ⟨hw₁, hroot⟩
    · exact Act.gives_pure hw₁.1
    · have hengines : w₁.EnginesKnown := hw₁.2.enginesKnown fun _ _ _ hm => by cases hm
      refine (Act.gives_wrap hhost.toIsCalm hw₁.1 (hroot root rfl) hengines).mono ?_
      exact fun _ _ hw' => hw'.1
  obtain ⟨-, hafter⟩ := hopen.after trivial
  exact hafter

/-- `handle_touches` for `World.shop` and `"serve"`. The clerk at depth 1 serves a customer and is
`"Done"`. Then the shop closes. -/
theorem Act.shop_touches :
    ∃ e outcome w', World.shop.engines[0]? = some e ∧ World.shop.HasMachine e.root ∧
      (Act.handle (Surroundings.quiet.host 1) 0 (.domain "serve" [])).run World.shop =
        some (some outcome, w') ∧
      outcome.depth = 1 ∧ outcome.target = "Done" ∧
      World.Handled True (Surroundings.quiet.host 1) e (.domain "serve" []) World.shop w'
        (some outcome) := by
  have hroot : (World.shop.engines[0]?).map (·.root) = some ⟨1⟩ := by decide +kernel
  have hmachine : (World.shop.machine? ⟨1⟩).isSome = true := by decide +kernel
  have hserved : ((Act.handle (Surroundings.quiet.host 1) 0 (.domain "serve" [])).run
      World.shop).map (·.1.map fun outcome => (outcome.depth, outcome.target)) =
        some (some (1, "Done")) := by decide +kernel
  obtain ⟨e, he, heroot⟩ := Option.map_eq_some_iff.1 hroot
  have hasRoot : World.shop.HasMachine e.root := heroot ▸ Option.isSome_iff_exists.1 hmachine
  have hname : isReservedName "serve" = false := by decide
  obtain ⟨outcome?, w', hrun, -, hhandled⟩ :=
    handle_touches (Surroundings.isTame_quiet 0) World.tidy_shop he hasRoot hname []
  rw [hrun, Option.map_some, Option.some.injEq, Option.map_eq_some_iff] at hserved
  obtain ⟨outcome, rfl, heq⟩ := hserved
  rw [Prod.mk.injEq] at heq
  exact ⟨e, outcome, w', he, hasRoot, hrun, heq.1, heq.2, hhandled⟩

end Statechart
