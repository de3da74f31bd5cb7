import Mathlib.Data.List.TakeWhile
import Statechart.Proofs.World.Chain

/-! # How an event runs through a hierarchy

An engine offers an event to the machines of its chain, the deepest first, and then lets exits rise.
Step by step the machines do what the definition says of the keys they stand at.

* **`World.Turned`**: what a run of turns does to a world, from its beginning on.
* `Act.ends_attempt`: offering an event follows `Definition.offer?`.
* `Act.ends_bubble`: exits rise as in `Definition.rise`.
* **`Act.ends_handle`**: handling an event follows `Definition.react?`. -/

namespace Statechart

variable {ρ γ : Type} {host : Host ρ γ} {config : HierarchyConfig} {delimiter : String}
  {w w' w'' : World ρ γ} {d level : Definition} {links links' : List Link}
  {keys keys' : List String} {link root : Link} {depth number parent : Nat}
  {m : Machine (StatePlan ρ)} {event : Event} {position : Position} {e : Engine}

/-! ## Runs of turns -/

/-- **What a run of turns does to a world.** The machines around `position.top` are in the states
they were in, that at `position.top` has entered another state, and those inside it are new. -/
structure World.Turned (host : Host ρ γ) (config : HierarchyConfig) (d : Definition)
    (w w' : World ρ γ) (links links' : List Link) (position : Position) : Prop where
  same : ∀ i ≤ position.top, links'[i]? = links[i]?
  keeps : w.Keeps host (fun _ => False) w'
  stands : w'.Stands host config (.composite d) links' position.keys
  carries : w'.Carries (.composite d) links' position.keys position.leafParams
  above : ∀ i link, i < position.top → links'[i]? = some link → ∃ m m', w.machine? link = some m ∧
    w'.machine? link = some m' ∧ m'.current = m.current
  turned : ∀ link, links'[position.top]? = some link → ∃ m m', w.machine? link = some m ∧
    w'.machine? link = some m' ∧ m.current.since < m'.current.since
  below : ∀ i link, position.top < i → links'[i]? = some link → w.machine? link = none

/-- `links'` agrees with `links` up to `depth`. -/
theorem World.Turn.getElem?_eq {params : Params} {i : Nat}
    (h : World.Turn host config d w w' links links' keys' depth params) (hi : i ≤ depth) :
    links'[i]? = links[i]? := by
  have hlt : i < depth + 1 := Nat.lt_succ_of_le hi
  rw [← List.getElem?_take_of_lt hlt, h.same, List.getElem?_take_of_lt hlt]

/-- The machines above `depth` are in the states they were in. -/
theorem World.Turn.above {params : Params} {i : Nat}
    (h : World.Turn host config d w w' links links' keys' depth params)
    (hs : w.Stands host config (.composite d) links keys) (hi : i < depth)
    (hlink : links'[i]? = some link) :
    ∃ m m', w.machine? link = some m ∧ w'.machine? link = some m' ∧ m'.current = m.current := by
  rw [h.getElem?_eq (Nat.le_of_lt hi)] at hlink
  obtain ⟨level, key, m, -, -, hm, -⟩ := hs.exists_machine hlink
  obtain ⟨m', hm', halike⟩ := h.keeps.machine link m
    (fun hdepth => Nat.ne_of_lt hi (hs.depth_eq hlink hdepth)) hm
  exact ⟨m, m', hm, hm', halike.current⟩

/-- The machines below `depth` were not in `w`. -/
theorem World.Turn.below {params : Params} {i : Nat}
    (h : World.Turn host config d w w' links links' keys' depth params) (hi : depth < i)
    (hlink : links'[i]? = some link) : w.machine? link = none := by
  have hmem : link ∈ links'.drop (depth + 1) := by
    refine List.mem_of_getElem? (i := i - (depth + 1)) ?_
    rw [List.getElem?_drop, Nat.add_sub_cancel' hi]
    exact hlink
  exact World.machine?_eq_none_of_le (h.fresh link hmem).1

/-- **`World.Turn` is the first step of `World.Turned`.** -/
theorem World.Turn.turned_first {params : Params}
    (h : World.Turn host config d w w' links links' keys' depth params)
    (hs : w.Stands host config (.composite d) links keys) :
    World.Turned host config d w w' links links'
      { keys := keys', turn := depth, top := depth, params } := by
  refine ⟨fun i hi => h.getElem?_eq hi, h.keeps.mono fun _ => False.elim, h.stands, h.carries,
    ?above, ?turned, ?below⟩
  case above =>
    intro i link hi hlink
    exact h.above hs hi hlink
  case turned =>
    intro link hlink
    rw [h.getElem?_eq (Nat.le_refl _)] at hlink
    exact h.turned link hlink
  case below =>
    intro i link hi hlink
    exact h.below hi hlink

/-- **`World.Turned` goes on with a `World.Turn` at `parent`**, made by an exit. -/
theorem World.Turned.turn {links'' : List Link}
    (h : World.Turned host config d w w' links links' position)
    (h' : World.Turn host config d w' w'' links' links'' keys' parent []) :
    World.Turned host config d w w'' links links''
      { keys := keys', turn := parent, top := min position.top parent, byExit := true } := by
  refine ⟨?same, h.keeps.trans (h'.keeps.mono fun _ => False.elim), h'.stands, h'.carries, ?above,
    ?turned, ?below⟩
  case same =>
    intro i hi
    rw [Nat.le_min] at hi
    rw [h'.getElem?_eq hi.2, h.same i hi.1]
  case above =>
    intro i link hi hlink
    rw [Nat.lt_min] at hi
    obtain ⟨m', m'', hm', hm'', hcurrent'⟩ := h'.above h.stands hi.2 hlink
    rw [h'.getElem?_eq (Nat.le_of_lt hi.2)] at hlink
    obtain ⟨m, m₁, hm, hm₁, hcurrent⟩ := h.above i link hi.1 hlink
    rw [hm'] at hm₁
    cases hm₁
    exact ⟨m, m'', hm, hm'', hcurrent'.trans hcurrent⟩
  case turned =>
    intro link hlink
    rcases Nat.lt_trichotomy parent position.top with hlt | heq | hgt
    · -- The exit is made by a machine that has not moved before.
      rw [Nat.min_eq_right (Nat.le_of_lt hlt), h'.getElem?_eq (Nat.le_refl _)] at hlink
      obtain ⟨m', m'', hm', hm'', hsince⟩ := h'.turned link hlink
      obtain ⟨m, m₁, hm, hm₁, hcurrent⟩ := h.above parent link hlt hlink
      rw [hm'] at hm₁
      cases hm₁
      exact ⟨m, m'', hm, hm'', hcurrent ▸ hsince⟩
    · -- It is made by the outermost one that has, once more.
      rw [← heq, Nat.min_self, h'.getElem?_eq (Nat.le_refl _)] at hlink
      obtain ⟨m', m'', hm', hm'', hsince'⟩ := h'.turned link hlink
      obtain ⟨m, m₁, hm, hm₁, hsince⟩ := h.turned link (heq ▸ hlink)
      rw [hm'] at hm₁
      cases hm₁
      exact ⟨m, m'', hm, hm'', Nat.lt_trans hsince hsince'⟩
    · -- It is made further inside, and the outermost one that has moved stays as it is.
      rw [Nat.min_eq_left (Nat.le_of_lt hgt)] at hlink
      obtain ⟨m', m'', hm', hm'', hcurrent⟩ := h'.above h.stands hgt hlink
      rw [h'.getElem?_eq (Nat.le_of_lt hgt)] at hlink
      obtain ⟨m, m₁, hm, hm₁, hsince⟩ := h.turned link hlink
      rw [hm'] at hm₁
      cases hm₁
      exact ⟨m, m'', hm, hm'', hcurrent ▸ hsince⟩
  case below =>
    intro i link hi hlink
    by_cases hparent : parent < i
    · -- A machine that this turn has made was not there before, for no machine ever goes away.
      have hnone := h'.below hparent hlink
      cases hm : w.machine? link with
      | none => rfl
      | some m =>
        have hsome := h.keeps.isMachine link (Option.isSome_iff_exists.2 ⟨m, hm⟩)
        rw [hnone] at hsome
        cases hsome
    · have htop : position.top < i := by
        have hmin : min position.top parent < i := hi
        omega
      rw [h'.getElem?_eq (Nat.not_lt.1 hparent)] at hlink
      exact h.below i link htop hlink

/-- Everything may be kept (`World.Keeps`) before the first turn of `World.Turned`. -/
theorem World.Turned.of_keeps_before (h : World.Turned host config d w' w'' links links' position)
    (hs : w.Stands host config (.composite d) links keys) (hk : w.Keeps host (fun _ => True) w') :
    World.Turned host config d w w'' links links' position := by
  -- The machines that stood there stand in the same states after it.
  have hbefore : ∀ {i link m'}, i ≤ position.top → links'[i]? = some link →
      w'.machine? link = some m' → ∃ m, w.machine? link = some m ∧ m'.current = m.current := by
    intro i link m' hi hlink hm'
    rw [h.same i hi] at hlink
    obtain ⟨level, key, m, -, -, hm, -⟩ := hs.exists_machine hlink
    obtain ⟨m₁, hm₁, halike⟩ := hk.machine link m trivial hm
    rw [hm'] at hm₁
    cases hm₁
    exact ⟨m, hm, halike.current⟩
  refine ⟨h.same, (hk.mono fun _ _ => trivial).trans h.keeps, h.stands, h.carries, ?above, ?turned,
    ?below⟩
  case above =>
    intro i link hi hlink
    obtain ⟨m', m'', hm', hm'', hcurrent⟩ := h.above i link hi hlink
    obtain ⟨m, hm, hcurrent'⟩ := hbefore (Nat.le_of_lt hi) hlink hm'
    exact ⟨m, m'', hm, hm'', hcurrent.trans hcurrent'⟩
  case turned =>
    intro link hlink
    obtain ⟨m', m'', hm', hm'', hsince⟩ := h.turned link hlink
    obtain ⟨m, hm, hcurrent⟩ := hbefore (Nat.le_refl _) hlink hm'
    exact ⟨m, m'', hm, hm'', hcurrent ▸ hsince⟩
  case below =>
    intro i link hi hlink
    have hnone := h.below i link hi hlink
    cases hm : w.machine? link with
    | none => rfl
    | some m =>
      have hsome := hk.isMachine link (Option.isSome_iff_exists.2 ⟨m, hm⟩)
      rw [hnone] at hsome
      cases hsome

/-- Everything may be kept (`World.Keeps`) after the last turn of `World.Turned`. -/
theorem World.Turned.of_keeps (h : World.Turned host config d w w' links links' position)
    (hk : w'.Keeps host (fun _ => True) w'') :
    World.Turned host config d w w'' links links' position := by
  refine ⟨h.same, h.keeps.trans (hk.mono fun _ _ => trivial),
    h.stands.of_keeps hk fun _ _ => trivial, h.carries.of_keeps h.stands hk fun _ _ => trivial, ?_,
    ?_, h.below⟩
  · intro i link hi hlink
    obtain ⟨m, m', hm, hm', hcurrent⟩ := h.above i link hi hlink
    obtain ⟨m'', hm'', halike⟩ := hk.machine link m' trivial hm'
    exact ⟨m, m'', hm, hm'', halike.current.trans hcurrent⟩
  · intro link hlink
    obtain ⟨m, m', hm, hm', hsince⟩ := h.turned link hlink
    obtain ⟨m'', hm'', halike⟩ := hk.machine link m' trivial hm'
    exact ⟨m, m'', hm, hm'', halike.current ▸ hsince⟩

/-! ## Offering an event -/

/-- A level `i` of a chain is `w.levelAt` of the link `i + 1`. -/
theorem World.exists_of_chain {bound i : Nat} {rung : Level}
    (h : ((links.tail.take bound).map w.levelAt)[i]? = some rung) :
    ∃ link, rung = w.levelAt link ∧ links[i + 1]? = some link := by
  rw [List.getElem?_map, Option.map_eq_some_iff] at h
  obtain ⟨link, hlink, rfl⟩ := h
  refine ⟨link, rfl, ?_⟩
  rw [List.getElem?_take] at hlink
  split at hlink
  · rwa [List.getElem?_tail] at hlink
  · cases hlink

/-- The link of the level `i` of a chain is the link `i + 1`. -/
theorem World.getElem?_of_chain {bound i : Nat} {rung : Level}
    (h : ((links.tail.take bound).map w.levelAt)[i]? = some rung) :
    links[i + 1]? = some rung.link := by
  obtain ⟨link, rfl, hlink⟩ := World.exists_of_chain h
  exact hlink

namespace Act

/-- `Act.tryLevel` is `Act.dispatchLocal` where there is a machine. -/
theorem tryLevel_run {rung : Level} (hm : w.machine? rung.link = some m) :
    (tryLevel host rung event).run w = (dispatchLocal host rung.link event).run w := by
  -- What comes of the attempt is wrapped, and unwrapped again.
  have htry : (tryOn host rung.link event).run w =
      ((dispatchLocal host rung.link event).run w).map fun p =>
        (p.1.elim .unhandled .applied, p.2) := by
    rw [tryOn]
    show (StateT.run (get >>= _) w) = _
    rw [StateT.run_bind, StateT.run_get]
    simp only [Option.pure_def, Option.bind_eq_bind, Option.bind_some, hm, StateT.run_bind]
    cases (dispatchLocal host rung.link event).run w with
    | none => rfl
    | some p =>
      obtain ⟨outcome?, w'⟩ := p
      cases outcome? <;> rfl
  rw [tryLevel, StateT.run_bind, htry]
  cases (dispatchLocal host rung.link event).run w with
  | none => rfl
  | some p =>
    obtain ⟨outcome?, w'⟩ := p
    cases outcome? <;> rfl

/-- `Act.tryLevel` ends as `Act.dispatchLocal` does. -/
theorem ends_tryLevel {rung : Level} {post : Option Outcome → World ρ γ → Prop}
    (hm : w.machine? rung.link = some m) (h : Ends (dispatchLocal host rung.link event) w post) :
    Ends (tryLevel host rung event) w post := by
  obtain ⟨outcome?, w', hrun, hpost⟩ := h
  exact ⟨outcome?, w', (tryLevel_run hm).trans hrun, hpost⟩

/-- `Act.dispatchLocal` changes nothing if `d.move?` has no answer at `depth`. -/
theorem ends_of_move?_eq_none (hd : d.Sound delimiter)
    (hs : w.Stands host config (.composite d) links keys) (hlink : links[depth]? = some link)
    (hmove : d.move? keys depth event.key event.params = none) :
    Ends (dispatchLocal host link event) w fun outcome? w' => outcome? = none ∧ w' = w :=
  ⟨none, w, dispatchLocal_of_move?_eq_none hd hs hlink hmove, rfl, rfl⟩

/-- What `Act.attempt` does to a world, by the answer of `Definition.offer?`: nothing, or a
`World.Turn` at the depth of the answer. -/
def Offered (host : Host ρ γ) (config : HierarchyConfig) (d : Definition) (w w' : World ρ γ)
    (links : List Link) (params : Params) (answer? : Option (Nat × List String))
    (result : Option (Nat × Outcome)) : Prop :=
  match answer? with
  | none => result = none ∧ w' = w
  | some (depth, keys') => ∃ outcome links', result = some (depth, outcome) ∧
      World.Turn host config d w w' links links' keys' depth params

/-- **`Act.attempt` on `rungs.take depth` follows `d.offer?` up to `depth`**, by induction on
`depth`. -/
theorem ends_attempt_take (hd : d.Sound delimiter)
    (hs : w.Stands host config (.composite d) links keys) (hroot : links[0]? = some root)
    (hnamed : event.isMisnamed = false) {rungs : List Level}
    (hrungs : ∀ i rung, rungs[i]? = some rung → links[i + 1]? = some rung.link)
    (hdepth : depth ≤ rungs.length) :
    Ends (do
      match ← attemptLevels host event ((rungs.take depth).zipIdx 1).reverse with
      | some applied => return some applied
      | none => return (← dispatchLocal host root event).map (0, ·)) w fun result w' =>
        Offered host config d w w' links event.params (d.offer? keys event.key event.params depth)
          result := by
  -- By induction over how deep the event is offered: the deepest of the machines is asked first.
  induction depth with
  | zero =>
    rw [List.take_zero, List.zipIdx_nil, List.reverse_nil, attemptLevels, pure_bind]
    simp only []
    rw [Definition.offer?]
    cases hmove : d.move? keys 0 event.key event.params with
    | none =>
      -- The root has no answer either.
      refine ends_bind (ends_of_move?_eq_none hd hs hroot hmove) ?_
      rintro _ _ ⟨rfl, rfl⟩
      exact ends_pure ⟨rfl, rfl⟩
    | some keys' =>
      refine ends_bind (ends_dispatchLocal hd hs hroot hnamed hmove) ?_
      rintro outcome? w' ⟨hsome, links', hturn⟩
      obtain ⟨outcome, rfl⟩ := Option.isSome_iff_exists.1 hsome
      exact ends_pure ⟨outcome, links', rfl, hturn⟩
  | succ depth ih =>
    have hlink := hrungs depth rungs[depth] (List.getElem?_eq_getElem hdepth)
    obtain ⟨level, key, m, -, -, hm, -⟩ := hs.exists_machine hlink
    have hlength : (rungs.take depth).length = depth :=
      List.length_take_of_le (Nat.le_of_succ_le hdepth)
    rw [← List.take_append_getElem hdepth, List.zipIdx_append, List.reverse_append, hlength,
      List.zipIdx_singleton, List.reverse_singleton, List.singleton_append, attemptLevels,
      Nat.add_comm 1 depth, bind_assoc, Definition.offer?]
    cases hmove : d.move? keys (depth + 1) event.key event.params with
    | none =>
      -- Without an answer everything is as it was, and those above are asked.
      refine ends_bind (ends_tryLevel hm (ends_of_move?_eq_none hd hs hlink hmove)) ?_
      rintro _ _ ⟨rfl, rfl⟩
      exact ih (Nat.le_of_succ_le hdepth)
    | some keys' =>
      refine ends_bind (ends_tryLevel hm (ends_dispatchLocal hd hs hlink hnamed hmove)) ?_
      rintro outcome? w' ⟨hsome, links', hturn⟩
      obtain ⟨outcome, rfl⟩ := Option.isSome_iff_exists.1 hsome
      exact ends_pure ⟨_, links', rfl, hturn⟩

/-! ## Exits -/

/-- `Act.chainOf` gives `w.levelAt` of the links below the root, up to `config.maxDepth`. -/
theorem ends_chainOf (hs : w.Stands host config (.composite d) links keys)
    (hroot : links[0]? = some root) (hengine : w.HasEngine number root config) :
    Ends (chainOf number) w fun levels w' =>
      levels = (links.tail.take config.maxDepth).map w.levelAt ∧ w' = w := by
  obtain ⟨e, he, heroot, rfl, -, -⟩ := hengine
  rw [chainOf]
  refine ends_get ?_
  rw [he, Option.map_some, Option.getD_some, hs.chain_eq hroot heroot]
  exact ends_pure ⟨rfl, rfl⟩

/-- **`Act.isFinished` at a link is `d.isFinished` at its depth.** -/
theorem isFinished_levelAt (hd : d.Sound delimiter)
    (hs : w.Stands host config (.composite d) links keys) (hlink : links[depth]? = some link) :
    isFinished config (w.levelAt link).snapshot = d.isFinished config.terminal keys depth := by
  obtain ⟨level, key, m, hkey, hlevel, hm, hstands⟩ := hs.exists_machine hlink
  have hlevel := Definition.level?_eq_some_iff.2 hlevel
  obtain ⟨state, hstate, hfinal⟩ := hstands.isFinal_eq
  have hdead : m.snapshot.deadEnd = !level.answers key := by
    rw [Machine.snapshot, hstands.key_eq, hstands.runs.table,
      (hd.level? hlevel).hasTransitions_levelTable]
  have hisFinal : m.snapshot.isFinal = state.isFinal := hfinal
  rw [World.levelAt_of_machine? hm, isFinished, hdead, hisFinal, Bool.not_not,
    Definition.isFinished, hlevel, hkey]
  simp only [Definition.isTerminal, hstate, Option.map_some, Option.getD_some]

/-- `Act.tryExit` at `parent` follows `d.move?` of the key `.childExit`. -/
theorem ends_tryExit (hd : d.Sound delimiter) (hs : w.Stands host config (.composite d) links keys)
    (hroot : links[0]? = some root) {rungs : List Level} (child : ChildRef)
    (hrungs : ∀ i rung, rungs[i]? = some rung → links[i + 1]? = some rung.link)
    (hparent : parent ≤ rungs.length) :
    Ends (tryExit host root rungs (.childExit child) parent) w fun applied w' =>
      match d.move? keys parent .childExit [] with
      | none => applied = false ∧ w' = w
      | some keys' => applied = true ∧
          ∃ links', World.Turn host config d w w' links links' keys' parent [] := by
  -- What the machine at the depth does, however it is reached.
  have hanswer : ∀ {act : Act ρ γ (Option Outcome)} {link : Link}, links[parent]? = some link →
      (∀ post, Ends (dispatchLocal host link (.childExit child)) w post → Ends act w post) →
      Ends (do return (← act).isSome) w fun applied w' =>
        match d.move? keys parent .childExit [] with
        | none => applied = false ∧ w' = w
        | some keys' => applied = true ∧
            ∃ links', World.Turn host config d w w' links links' keys' parent [] := by
    intro act link hlink hact
    cases hmove : d.move? keys parent .childExit [] with
    | none =>
      refine ends_bind (hact _ (ends_of_move?_eq_none hd hs hlink hmove)) ?_
      rintro _ _ ⟨rfl, rfl⟩
      exact ends_pure ⟨rfl, rfl⟩
    | some keys' =>
      refine ends_bind (hact _ (ends_dispatchLocal hd hs hlink rfl hmove)) ?_
      rintro outcome? w' ⟨hsome, hturn⟩
      exact ends_pure ⟨hsome, hturn⟩
  cases parent with
  | zero =>
    rw [tryExit]
    exact hanswer hroot fun _ h => h
  | succ above =>
    have hlink := hrungs above rungs[above] (List.getElem?_eq_getElem hparent)
    obtain ⟨level, key, m, -, -, hm, -⟩ := hs.exists_machine hlink
    rw [tryExit, List.getElem?_eq_getElem hparent]
    exact hanswer hlink fun _ h => ends_tryLevel hm h

/-- **`Act.bubbleFrom` at `depth` follows `d.rise`**, by induction on `depth`. -/
theorem ends_bubbleFrom (hd : d.Sound delimiter) (heroot : e.root = root)
    (heconfig : e.config = config) (hengine : w'.HasEngine number root config)
    (hroot : links[0]? = some root) (ht : World.Turned host config d w w' links links' position)
    (hdepth : depth ≤ ((links'.tail.take config.maxDepth).map w'.levelAt).length) :
    Ends (bubbleFrom host number e depth) w' fun _ w'' => ∃ links'',
      World.Turned host config d w w'' links links'' (d.rise config.terminal depth position) := by
  induction depth generalizing w' links' position with
  | zero => exact ends_pure ⟨links', ht⟩
  | succ parent ih =>
    have hroot' : links'[0]? = some root := (ht.same 0 (Nat.zero_le _)).trans hroot
    rw [bubbleFrom]
    refine ends_bind (ends_chainOf ht.stands hroot' hengine) ?_
    rintro _ w' ⟨rfl, rfl⟩
    obtain ⟨link, hrung, hlink⟩ := World.exists_of_chain (List.getElem?_eq_getElem hdepth)
    obtain ⟨level, key, m, -, -, hm, -⟩ := ht.stands.exists_machine hlink
    rw [List.getElem?_eq_getElem hdepth, hrung]
    simp only [heconfig, isFinished_levelAt hd ht.stands hlink]
    rw [Definition.rise, Definition.exit?]
    by_cases hfinished : d.isFinished config.terminal position.keys (parent + 1) = true
    · rw [if_pos hfinished, if_pos hfinished]
      refine ends_get ?_
      simp only [World.levelAt, World.id?_of_machine? hm, heroot]
      refine ends_bind (ends_tryExit hd ht.stands hroot' (.machine m.id)
        (fun i rung h => World.getElem?_of_chain h) (Nat.le_of_succ_le hdepth)) ?_
      intro applied w₁ happlied
      cases hmove : d.move? position.keys parent .childExit [] with
      | none =>
        rw [hmove] at happlied
        obtain ⟨rfl, rfl⟩ := happlied
        exact ends_pure ⟨links', ht⟩
      | some keys' =>
        rw [hmove] at happlied
        obtain ⟨rfl, links'', hturn⟩ := happlied
        rw [if_pos rfl]
        -- The machine that has exited is there still, so the chain is long enough to go on.
        refine ih (hengine.of_keeps hturn.keeps) (ht.turn hturn) ?_
        have hlong := (Definition.take_of_move? hmove).2
        rw [ht.stands.length_chain] at hdepth
        rw [hturn.stands.length_chain]
        omega
    · rw [if_neg hfinished, if_neg hfinished]
      exact ends_pure ⟨links', ht⟩

/-- **`Act.bubble` follows `d.rise` from the deepest machine on** after a `World.Turn` at
`depth`. -/
theorem ends_bubble (hd : d.Sound delimiter) (heroot : e.root = root) (heconfig : e.config = config)
    (hengine : w'.HasEngine number root config) (hroot : links[0]? = some root)
    (hs : w.Stands host config (.composite d) links keys) {params : Params}
    (hturn : World.Turn host config d w w' links links' keys' depth params)
    (hdepth : depth ≤ min (keys'.length - 1) config.maxDepth) :
    Ends (bubble host number e depth ((links.tail.take config.maxDepth).map w.id?)) w'
      fun _ w'' => ∃ links'', World.Turned host config d w w'' links links''
        (d.rise config.terminal (min (keys'.length - 1) config.maxDepth)
          { keys := keys', turn := depth, top := depth, params }) := by
  have hroot' : links'[0]? = some root := by rw [hturn.getElem?_eq (Nat.zero_le _), hroot]
  rw [bubble]
  refine ends_bind (ends_chainOf hturn.stands hroot' hengine) ?_
  rintro _ w' ⟨rfl, rfl⟩
  refine ends_get ?_
  dsimp only
  have hlength := hturn.stands.length_chain config.maxDepth
  -- All machines inside the one that has moved are new, so none of them was there before.
  have hentered : (((links'.tail.take config.maxDepth).map w'.levelAt).drop depth).takeWhile
      (fun rung => decide (w'.id? rung.link ∉ (links.tail.take config.maxDepth).map w.id?)) =
        ((links'.tail.take config.maxDepth).map w'.levelAt).drop depth := by
    rw [List.takeWhile_eq_self_iff, ← List.map_drop]
    intro rung hrung
    obtain ⟨link, hlink, rfl⟩ := List.mem_map.1 hrung
    have hmem : link ∈ links'.drop (depth + 1) := by
      rw [List.drop_take, List.drop_tail] at hlink
      exact List.mem_of_mem_take hlink
    obtain ⟨-, n, hn, hle⟩ := hturn.fresh link hmem
    rw [decide_eq_true_eq]
    intro hbefore
    obtain ⟨old, hold, heq⟩ := List.mem_map.1 hbefore
    obtain ⟨n', hn', hlt⟩ := hs.minted old (List.mem_of_mem_tail (List.mem_of_mem_take hold))
    rw [hn', World.levelAt, hn, Option.some.injEq, MachineId.minted.injEq] at heq
    omega
  rw [hentered, List.length_drop, hlength, Nat.add_sub_cancel' hdepth]
  exact ends_bubbleFrom hd heroot heconfig hengine hroot (hturn.turned_first hs)
    (Nat.le_of_eq hlength.symm)

/-! ## Handling an event -/

/-- **`Act.attempt` follows `d.offer?`.** -/
theorem ends_attempt (hd : d.Sound delimiter)
    (hs : w.Stands host config (.composite d) links keys) (hroot : links[0]? = some root)
    (hnamed : event.isMisnamed = false) {rungs : List Level}
    (hrungs : ∀ i rung, rungs[i]? = some rung → links[i + 1]? = some rung.link) :
    Ends (attempt host root rungs event) w fun result w' =>
      Offered host config d w w' links event.params
        (d.offer? keys event.key event.params rungs.length) result := by
  have htake := ends_attempt_take hd hs hroot hnamed hrungs (Nat.le_refl _)
  rwa [List.take_length] at htake

/-- `Act.noteBelow` keeps every machine in its state (`World.Keeps`). -/
theorem ends_noteBelow (hm : w.machine? link = some m) (hq : m.IsQuiet host) (child : ChildRef)
    (inner : Event) :
    Ends (noteBelow host link child inner) w fun _ w' => w.Keeps host (fun _ => True) w' := by
  rw [noteBelow]
  refine ends_get ?_
  simp only [hm]
  have hset : w.Keeps host (fun _ => True)
      (w.setCell link (.machine (m.commit (m.changeBelow child inner)))) :=
    .setCell hm fun _ => ⟨rfl, rfl, rfl, rfl, rfl, Nat.le_succ _, fun hq => hq⟩
  have hq' : (m.commit (m.changeBelow child inner)).IsQuiet host := hq
  refine ends_bind ends_setCell ?_
  rintro _ _ rfl
  refine (ends_notify (World.machine?_setCell_self hm) hq').mono ?_
  rintro _ _ ⟨guest, rfl⟩
  exact hset.trans (.of_eq rfl rfl (Nat.le_refl _) rfl)

/-- **`Act.handle` follows `d.react?`** for a domain event that has no reserved name. -/
theorem ends_handle (hd : d.Sound delimiter)
    (hs : w.Stands host config (.composite d) links keys) (hroot : links[0]? = some root)
    (hengine : w.HasEngine number root config) {name : String} {params : Params}
    (hname : isReservedName name = false) :
    Ends (handle host number (.domain name params)) w fun outcome? w' =>
      match d.react? config.terminal config.maxDepth keys (.domain name) params with
      | none => outcome? = none ∧ w.Keeps host (fun _ => True) w'
      | some next => outcome?.isSome ∧
          ∃ links', World.Turned host config d w w' links links' next := by
  obtain ⟨e, he, heroot, heconfig, hunwatched⟩ := hengine
  have hengine : w.HasEngine number root config := ⟨e, he, heroot, heconfig, hunwatched⟩
  have hnamed : (Event.domain name params).isMisnamed = false := hname
  have hdomain : (Event.domain name params).isReserved = false := rfl
  rw [handle]
  refine ends_get ?_
  simp only [he, hnamed, hdomain, Bool.false_eq_true, if_false, heroot]
  -- The machines are registered first, which moves none of them.
  refine ends_bind (ends_sync hs hroot hengine) ?_
  rintro _ w₁ ⟨rfl, hk₁⟩
  have hs₁ := hs.of_keeps hk₁ fun _ _ => trivial
  have hengine₁ := hengine.of_keeps hk₁
  have hlength := hs.length_chain config.maxDepth
  refine ends_get ?_
  refine ends_bind (ends_attempt hd hs₁ hroot hnamed fun i rung h => World.getElem?_of_chain h) ?_
  intro result w₂ hoffered
  rw [hlength] at hoffered
  rw [Definition.react?]
  cases hoffer : d.offer? keys (.domain name) params (min (keys.length - 1) config.maxDepth) with
  | none =>
    rw [Event.key, Event.params, hoffer] at hoffered
    obtain ⟨rfl, rfl⟩ := hoffered
    exact ends_pure ⟨rfl, hk₁⟩
  | some found =>
    obtain ⟨depth, keys'⟩ := found
    rw [Event.key, Event.params, hoffer] at hoffered
    obtain ⟨outcome, links', rfl, hturn⟩ := hoffered
    obtain ⟨hle, hmove, -⟩ := Definition.offer?_eq_some_iff.1 hoffer
    have hlong := (Definition.take_of_move? hmove).2
    simp only [List.map_map]
    have hbubble := ends_bubble hd heroot heconfig (hengine₁.of_keeps hturn.keeps) hroot hs₁ hturn
      (by omega)
    refine ends_bind hbubble ?_
    rintro _ w₃ ⟨links₃, hturned⟩
    have hroot₃ : links₃[0]? = some root := (hturned.same 0 (Nat.zero_le _)).trans hroot
    have hengine₃ := hengine₁.of_keeps hturned.keeps
    -- What comes after the exits keeps every machine in its state.
    have hrest : ∀ w₄, w₃.Keeps host (fun _ => True) w₄ →
        Ends (do discard (sync host number); return some outcome) w₄ fun outcome? w₅ =>
          outcome?.isSome ∧ ∃ links', World.Turned host config d w w₅ links links'
            (d.rise config.terminal (min (keys'.length - 1) config.maxDepth)
              { keys := keys', turn := depth, top := depth, params }) := by
      intro w₄ hk₄
      refine ends_bind (ends_discard_sync (hturned.stands.of_keeps hk₄ fun _ _ => trivial) hroot₃
        (hengine₃.of_keeps hk₄)) ?_
      intro _ w₅ hk₅
      exact ends_pure ⟨rfl, links₃, (hturned.of_keeps (hk₄.trans hk₅)).of_keeps_before hs hk₁⟩
    by_cases hdeep : 0 < depth
    · obtain ⟨level, key, m, -, -, hm, hstands⟩ := hturned.stands.exists_machine hroot₃
      rw [if_pos hdeep]
      refine ends_bind (ends_noteBelow hm hstands.runs.quiet _ _) ?_
      intro _ w₄ hk₄
      exact hrest w₄ hk₄
    · rw [if_neg hdeep]
      exact hrest w₃ (.refl host _ w₃)

end Act

end Statechart
