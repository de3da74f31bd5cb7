import Statechart.Proofs.World.Registry

/-! # The course of an event

An engine offers an event to the machines of the active chain, the deepest first. The first one that
has an answer takes it, and then exits rise: one machine after the other, going up, takes the exit
of its child. Nothing else happens to any machine, but for a note at the root.

* **`World.DeclinedBy`**: machines decline an event, one after the other.
* **`World.Offered`**: what comes of offering an event to machines.
* **`World.ExitsRise`**: exits that rise.
* `Act.gives_attempt`, `Act.gives_bubble`: the two halves of the course. -/

namespace Statechart

variable {ρ γ : Type} {settings : MachineConfig → Prop} {plain : Prop} {host : Host ρ γ}
  {kept : Link → Prop} {w w' w'' : World ρ γ} {e : Engine} {link root : Link} {links : List Link}
  {number depth : Nat} {m m' : Machine (StatePlan ρ)} {event : Event}

namespace World

/-! ## Offering an event -/

/-- **The machines of a list decline `event`** (`World.Declines`), one after the other. -/
inductive DeclinedBy (host : Host ρ γ) (event : Event) : List Link → World ρ γ → World ρ γ → Prop
  | nil {w : World ρ γ} : World.DeclinedBy host event [] w w
  | cons {link : Link} {rest : List Link} {w w' w'' : World ρ γ} :
    w.Declines host link event w' → World.DeclinedBy host event rest w' w'' →
    World.DeclinedBy host event (link :: rest) w w''

/-- `World.DeclinedBy` moves no machine. -/
theorem DeclinedBy.passes (h : World.DeclinedBy host event links w w') :
    w.Passes (fun _ => True) w' := by
  induction h with
  | nil => exact .refl _ _
  | cons hfirst _ ih => exact hfirst.passes.trans ih

/-- `World.DeclinedBy` with one more link at the end. -/
theorem DeclinedBy.snoc (h : World.DeclinedBy host event links w w')
    (hlast : w'.Declines host link event w'') :
    World.DeclinedBy host event (links ++ [link]) w w'' := by
  induction h with
  | nil => exact .cons hlast .nil
  | cons hfirst _ ih => exact .cons hfirst (ih hlast)

/-- **What `Act.attempt` does to a world**, from the last of `links` up: all of them decline
(`World.DeclinedBy`), or one takes the event (`World.Takes`) that those after it have declined. -/
inductive Offered (plain : Prop) (host : Host ρ γ) (event : Event) (links : List Link)
    (w w' : World ρ γ) : Option (Nat × Outcome) → Prop
  | nobody : World.DeclinedBy host event links.reverse w w' →
    World.Offered plain host event links w w' none
  | someone {depth : Nat} {link : Link} {w₁ : World ρ γ} {outcome : Outcome} :
    links[depth]? = some link →
    World.DeclinedBy host event (links.drop (depth + 1)).reverse w w₁ →
    w₁.Takes plain host link event w' outcome →
    World.Offered plain host event links w w' (some (depth, outcome.atDepth depth))

/-- The outcome of `World.Takes` is at depth `0`. -/
theorem Takes.atDepth_zero {outcome : Outcome} (h : w.Takes plain host link event w' outcome) :
    outcome.atDepth 0 = outcome := by
  obtain ⟨m, found, w₁, -, -, rfl, -⟩ := h.entered
  rfl

/-! ## Rising exits -/

/-- **Exits rise from `depth`.** One machine after the other, each at the depth above, takes the
exit of its child on `w.activeLinks e`, and at this moment the child is finished. The list has the
machines that do, the first one right above `depth`. -/
inductive ExitsRise (plain : Prop) (host : Host ρ γ) (e : Engine) :
    Nat → List Link → World ρ γ → World ρ γ → Prop
  | rest {depth : Nat} {w w' : World ρ γ} :
    w.Passes (fun _ => True) w' → World.ExitsRise plain host e depth [] w w'
  | exit {depth : Nat} {link child : Link} {m : Machine (StatePlan ρ)} {outcome : Outcome}
    {above : List Link} {w w' w'' : World ρ γ} :
    (w.activeLinks e)[depth]? = some link → (w.activeLinks e)[depth + 1]? = some child →
    w.machine? child = some m → Act.isFinished e.config m.snapshot = true →
    w.Takes plain host link (.childExit (.machine m.id)) w' outcome →
    World.ExitsRise plain host e depth above w' w'' →
    World.ExitsRise plain host e (depth + 1) (link :: above) w w''

/-- `World.ExitsRise` moves no machine but those of the list. -/
theorem ExitsRise.passes (h : World.ExitsRise plain host e depth links w w') :
    w.Passes (· ∉ links) w' := by
  induction h with
  | rest hpasses => exact hpasses.mono fun _ _ => trivial
  | exit _ _ _ _ htakes _ ih =>
    refine (htakes.passes.mono ?_).trans (ih.mono ?_)
    · rintro other hother rfl
      exact hother List.mem_cons_self
    · exact fun other hother hmem => hother (List.mem_cons_of_mem _ hmem)

end World

namespace Act

/-! ## Offering an event -/

/-- `Act.Gives` depends on `act.run w` alone. -/
theorem Gives.of_run_eq {α : Type} {total : Prop} {act act' : Act ρ γ α}
    {post : α → World ρ γ → Prop} (h : Gives total act w post) (heq : act'.run w = act.run w) :
    Gives total act' w post := by
  unfold Gives
  rw [heq]
  exact h

/-- **`Act.tryLevel` gives `World.Meets`.** -/
theorem gives_tryLevel (hhost : host.IsTame settings plain)
    (hplain : plain → ∀ c, settings c → c.lookup = .exact) (hw : w.Tidy settings) {rung : Level}
    (hrung : w.HasMachine rung.link) :
    Gives plain (tryLevel host rung event) w fun outcome? w' => w'.Tidy settings ∧
      w.Meets plain host rung.link event w' outcome? := by
  obtain ⟨m, hm⟩ := hrung
  exact (gives_dispatchLocal hhost hplain hw).of_run_eq (tryLevel_run hm)

/-- **`Act.attemptLevels` gives `World.DeclinedBy`**, up to the first machine that takes the event
(`World.Takes`). -/
theorem gives_attemptLevels (hhost : host.IsTame settings plain)
    (hplain : plain → ∀ c, settings c → c.lookup = .exact) (rungs : List (Level × Nat))
    (hw : w.Tidy settings) (hmachines : ∀ rung ∈ rungs, w.HasMachine rung.1.link) :
    Gives plain (attemptLevels host event rungs) w fun result w' => w'.Tidy settings ∧
      match result with
      | none => World.DeclinedBy host event (rungs.map (·.1.link)) w w'
      | some (depth, outcome) => ∃ front level rest w₁ outcome₀,
        rungs = front ++ (level, depth) :: rest ∧
        World.DeclinedBy host event (front.map (·.1.link)) w w₁ ∧
        w₁.Takes plain host level.link event w' outcome₀ ∧ outcome = outcome₀.atDepth depth := by
  induction rungs generalizing w with
  | nil => exact gives_pure ⟨hw, .nil⟩
  | cons rung rest ih =>
    obtain ⟨level, depth⟩ := rung
    rw [attemptLevels]
    refine gives_bind (gives_tryLevel hhost hplain hw (hmachines _ List.mem_cons_self)) ?_
    rintro _ w₁ ⟨hw₁, hdeclines | htakes⟩
    · -- The machines that are still to be tried have not moved.
      refine (ih hw₁ fun other hother => hdeclines.passes.hasMachine
        (hmachines other (List.mem_cons_of_mem _ hother))).mono ?_
      rintro (_ | ⟨depth', outcome⟩) w₂ ⟨hw₂, hrest⟩
      · exact ⟨hw₂, .cons hdeclines hrest⟩
      · obtain ⟨front, level', rest', w₃, outcome₀, rfl, hfront, htakes, houtcome⟩ := hrest
        exact ⟨hw₂, (level, depth) :: front, level', rest', w₃, outcome₀, rfl,
          .cons hdeclines hfront, htakes, houtcome⟩
    · exact gives_pure ⟨hw₁, [], level, rest, w, _, rfl, .nil, htakes, rfl⟩

/-- The indices of `levels.zipIdx 1`, read from the end. -/
theorem getElem?_of_zipIdx {levels : List Level} {front rest : List (Level × Nat)} {level : Level}
    (h : (levels.zipIdx 1).reverse = front ++ (level, depth) :: rest) :
    ∃ above, depth = above + 1 ∧ levels[above]? = some level ∧
      front.map (·.1) = (levels.drop (above + 1)).reverse := by
  have hsplit : levels.zipIdx 1 = rest.reverse ++ (level, depth) :: front.reverse := by
    rw [← List.reverse_reverse (levels.zipIdx 1), h, List.reverse_append, List.reverse_cons,
      List.append_assoc, List.singleton_append]
  -- What comes after the level in the reversed list is above it, so that the level has as many
  -- others above it as come after it.
  have hlevels : levels = rest.reverse.map (·.1) ++ level :: front.reverse.map (·.1) := by
    rw [← List.zipIdx_map_fst 1 levels, hsplit, List.map_append, List.map_cons]
  have hlength : (rest.reverse.map (·.1)).length = rest.length := by simp
  refine ⟨rest.length, ?_, ?_, ?_⟩
  · have hget := congrArg (·[rest.length]?) hsplit
    have hat : (rest.reverse ++ (level, depth) :: front.reverse)[rest.length]? =
        some (level, depth) := by
      rw [List.getElem?_append_right (by simp), List.length_reverse, Nat.sub_self,
        List.getElem?_cons_zero]
    simp only [List.getElem?_zipIdx, hat] at hget
    obtain ⟨_, -, heq⟩ := Option.map_eq_some_iff.1 hget
    have hdepth := congrArg Prod.snd heq
    dsimp only at hdepth
    omega
  · rw [hlevels, List.getElem?_append_right (Nat.le_of_eq hlength), hlength, Nat.sub_self,
      List.getElem?_cons_zero]
  · rw [hlevels, ← List.drop_drop, List.drop_append_of_le_length (Nat.le_of_eq hlength.symm),
      List.drop_eq_nil_of_le (Nat.le_of_eq hlength), List.nil_append, List.drop_one,
      List.tail_cons, ← List.map_reverse, List.reverse_reverse]

/-- **`Act.attempt` gives `World.Offered`** for the root and the levels of the chain. -/
theorem gives_attempt (hhost : host.IsTame settings plain)
    (hplain : plain → ∀ c, settings c → c.lookup = .exact) (hw : w.Tidy settings)
    {levels : List Level} (hmachines : ∀ level ∈ levels, w.HasMachine level.link) :
    Gives plain (attempt host root levels event) w fun result w' => w'.Tidy settings ∧
      World.Offered plain host event (root :: levels.map (·.link)) w w' result := by
  have hrungs : ∀ rung ∈ (levels.zipIdx 1).reverse, w.HasMachine rung.1.link := by
    intro rung hrung
    exact hmachines rung.1 (List.fst_mem_of_mem_zipIdx (List.mem_reverse.1 hrung))
  have hlinks : (levels.zipIdx 1).reverse.map (·.1.link) = (levels.map (·.link)).reverse := by
    have hfst : (levels.zipIdx 1).map (·.1.link) = ((levels.zipIdx 1).map (·.1)).map (·.link) := by
      rw [List.map_map]
      rfl
    rw [List.map_reverse, hfst, List.zipIdx_map_fst]
  rw [attempt]
  refine gives_bind (gives_attemptLevels hhost hplain _ hw hrungs) ?_
  rintro (_ | ⟨depth, outcome⟩) w₁ ⟨hw₁, htried⟩
  · -- Below the root nobody has an answer.
    dsimp only at htried
    rw [hlinks] at htried
    refine gives_bind (gives_dispatchLocal hhost hplain hw₁) ?_
    rintro _ w₂ ⟨hw₂, hdeclines | htakes⟩
    · refine gives_pure ⟨hw₂, .nobody ?_⟩
      rw [List.reverse_cons]
      exact htried.snoc hdeclines
    · rename_i outcome
      have hatRoot : World.Offered plain host event (root :: levels.map (·.link)) w w₂
          (some (0, outcome.atDepth 0)) := .someone rfl htried htakes
      rw [htakes.atDepth_zero] at hatRoot
      exact gives_pure ⟨hw₂, hatRoot⟩
  · obtain ⟨front, level, rest, w₂, outcome₀, hsplit, hfront, htakes, rfl⟩ := htried
    obtain ⟨above, rfl, hlevel, hdeeper⟩ := getElem?_of_zipIdx hsplit
    refine gives_pure ⟨hw₁, .someone ?_ ?_ htakes⟩
    · rw [List.getElem?_cons_succ, List.getElem?_map, hlevel]
      rfl
    · rw [List.drop_succ_cons, ← List.map_drop, ← List.map_reverse, ← hdeeper, List.map_map]
      exact hfront

/-! ## Rising exits -/

/-- `Act.chainOf number` is `w.chain e`. -/
theorem gives_chainOf {total : Prop} (he : w.Routes number e) :
    Gives total (chainOf number) w fun levels w' => levels = w.chain e ∧ w = w' := by
  obtain ⟨e', he', hroot, hconfig⟩ := he
  rw [chainOf]
  refine gives_get (gives_pure ⟨?_, rfl⟩)
  rw [he', Option.map_some, Option.getD_some, World.chain_congr hroot hconfig]

/-- **`Act.tryExit` gives `World.Meets`** at `w.activeLinks e`. -/
theorem gives_tryExit (hhost : host.IsTame settings plain)
    (hplain : plain → ∀ c, settings c → c.lookup = .exact) (hw : w.Tidy settings)
    (hlink : (w.activeLinks e)[depth]? = some link) :
    Gives plain (tryExit host e.root (w.chain e) event depth) w fun isTaken w' =>
      w'.Tidy settings ∧ ∃ outcome?, isTaken = outcome?.isSome ∧
        w.Meets plain host link event w' outcome? := by
  cases depth with
  | zero =>
    have hroot : e.root = link := Option.some.inj hlink
    rw [tryExit, hroot]
    exact gives_bind (gives_dispatchLocal hhost hplain hw) fun outcome? w' hw' =>
      gives_pure ⟨hw'.1, outcome?, rfl, hw'.2⟩
  | succ above =>
    rw [World.activeLinks, List.getElem?_cons_succ, List.getElem?_map] at hlink
    obtain ⟨level, hlevel, rfl⟩ := Option.map_eq_some_iff.1 hlink
    obtain ⟨m, hm, -⟩ := hw.exists_of_mem_chain (List.mem_of_getElem? hlevel)
    rw [tryExit]
    simp only [hlevel]
    exact gives_bind (gives_tryLevel hhost hplain hw ⟨m, hm⟩) fun outcome? w' hw' =>
      gives_pure ⟨hw'.1, outcome?, rfl, hw'.2⟩

/-- **`Act.bubbleFrom` gives `World.ExitsRise`**, by induction on `depth`. No machine takes two
exits: those that take one are among `(w.activeLinks e).take depth`. -/
theorem gives_bubbleFrom (hhost : host.IsTame settings plain)
    (hplain : plain → ∀ c, settings c → c.lookup = .exact) (depth : Nat) (hw : w.Tidy settings)
    (he : w.Routes number e) (hroot : w.HasMachine e.root) :
    Gives plain (bubbleFrom host number e depth) w fun _ w' => w'.Tidy settings ∧ ∃ exits,
      World.ExitsRise plain host e depth exits w w' ∧ exits.Nodup ∧
        ∀ link ∈ exits, link ∈ (w.activeLinks e).take depth := by
  -- What is above a machine that takes an exit stays, so the chain is known that far up.
  induction depth generalizing w with
  | zero => exact gives_pure ⟨hw, [], .rest (.refl _ w), List.nodup_nil, by rintro _ ⟨⟩⟩
  | succ parent ih =>
    have hstop : ∀ w', w'.Tidy settings → w.Passes (fun _ => True) w' → w'.Tidy settings ∧
        ∃ exits, World.ExitsRise plain host e (parent + 1) exits w w' ∧ exits.Nodup ∧
          ∀ link ∈ exits, link ∈ (w.activeLinks e).take (parent + 1) := fun w' hw' hpasses =>
      ⟨hw', [], .rest hpasses, List.nodup_nil, by rintro _ ⟨⟩⟩
    rw [bubbleFrom]
    refine gives_bind (gives_chainOf he) ?_
    rintro _ _ ⟨rfl, rfl⟩
    cases hchild : (w.chain e)[parent]? with
    | none => exact gives_pure (hstop w hw (.refl _ w))
    | some child =>
      dsimp only
      split
      · rename_i hfinished
        obtain ⟨m, hm, hshown, -⟩ := hw.exists_of_mem_chain (List.mem_of_getElem? hchild)
        rw [hshown] at hfinished
        have hbelow : (w.activeLinks e)[parent + 1]? = some child.link := by
          rw [World.activeLinks, List.getElem?_cons_succ, List.getElem?_map, hchild]
          rfl
        have hlt : parent < (w.activeLinks e).length :=
          Nat.lt_of_succ_lt (List.getElem?_eq_some_iff.1 hbelow).1
        have hlink := List.getElem?_eq_getElem hlt
        generalize (w.activeLinks e)[parent] = link at hlink
        refine gives_get ?_
        simp only [World.id?_of_machine? hm]
        refine gives_bind (gives_tryExit hhost hplain hw hlink) ?_
        rintro _ w₁ ⟨hw₁, outcome?, rfl, hmeets⟩
        cases hmeets with
        | declines hdeclines => exact gives_pure (hstop w₁ hw₁ hdeclines.passes)
        | takes htakes =>
          have hpasses := htakes.passes
          -- The machine is none of those above it, which stay where they are.
          have hnot : link ∉ (w.activeLinks e).take parent := fun hmem =>
            World.ne_of_mem_take hlink hmem rfl
          have htake : (w₁.activeLinks e).take parent = (w.activeLinks e).take parent := by
            have hsucc := hpasses.take_activeLinks hw hroot fun _ hother =>
              World.ne_of_mem_take hlink hother
            have hparent := congrArg (List.take parent) hsucc
            rwa [List.take_take, List.take_take, Nat.min_eq_left (Nat.le_succ parent)] at hparent
          refine (ih hw₁ (hpasses.routes he) (hpasses.hasMachine hroot)).mono ?_
          rintro _ w₂ ⟨hw₂, exits, hrise, hexits, hmem⟩
          rw [htake] at hmem
          refine ⟨hw₂, link :: exits, .exit hlink hbelow hm hfinished htakes hrise, ?_, ?_⟩
          · exact List.nodup_cons.2 ⟨fun hlast => hnot (hmem link hlast), hexits⟩
          · intro other hother
            rw [List.take_add_one, hlink]
            rcases List.mem_cons.1 hother with rfl | hother
            · exact List.mem_append_right _ List.mem_cons_self
            · exact List.mem_append_left _ (hmem other hother)
      · exact gives_pure (hstop w hw (.refl _ w))

/-- **`Act.bubble` gives `World.ExitsRise`.** The exits are taken by machines of `depth` and above,
or by such as are not among `before`. -/
theorem gives_bubble (hhost : host.IsTame settings plain)
    (hplain : plain → ∀ c, settings c → c.lookup = .exact) (before : List (Option MachineId))
    (hw : w.Tidy settings) (he : w.Routes number e) (hroot : w.HasMachine e.root) :
    Gives plain (bubble host number e depth before) w fun _ w' => w'.Tidy settings ∧
      ∃ start exits, World.ExitsRise plain host e start exits w w' ∧ exits.Nodup ∧
        ∀ link ∈ exits, link ∈ (w.activeLinks e).take (depth + 1) ∨ w.id? link ∉ before := by
  rw [bubble]
  refine gives_bind (gives_chainOf he) ?_
  rintro _ _ ⟨rfl, rfl⟩
  refine gives_get ?_
  refine (gives_bubbleFrom hhost hplain _ hw he hroot).mono ?_
  rintro _ w' ⟨hw', exits, hrise, hnodup, hmem⟩
  refine ⟨hw', _, exits, hrise, hnodup, fun link hlink => ?_⟩
  have hlink := hmem link hlink
  -- Below the depth there are the children that came with the transition, and nothing else.
  generalize hnew : ((w.chain e).drop depth).takeWhile
    (fun level => decide (w.id? level.link ∉ before)) = entered at hlink
  have hprefix : entered = ((w.chain e).drop depth).take entered.length := by
    rw [← hnew]
    exact List.prefix_iff_eq_take.1 (List.takeWhile_prefix _)
  have hlater : link ∈ (w.activeLinks e).take (depth + 1 + entered.length) :=
    List.mem_of_mem_take (l := (w.activeLinks e).take (depth + 1 + entered.length))
      (i := depth + entered.length) (by rwa [List.take_take, Nat.min_eq_left (by omega)])
  rw [List.take_add] at hlater
  rcases List.mem_append.1 hlater with habove | hbelow
  · exact Or.inl habove
  · right
    rw [World.activeLinks, List.drop_succ_cons, ← List.map_drop, ← List.map_take, ← hprefix]
      at hbelow
    obtain ⟨level, hlevel, rfl⟩ := List.mem_map.1 hbelow
    rw [← hnew] at hlevel
    have hfresh := List.mem_takeWhile_imp hlevel
    exact of_decide_eq_true hfresh

end Act

end Statechart
