import Statechart.Proofs.World.Stands

/-! # One machine takes its turn

An event arrives at one of several machines that stand one inside the other. If its level has no
answer then nothing happens at all. Else the machine enters a state, with new machines inside it,
and the machines around it stay as they are.

* **`World.Turn`**: what an answer of the machine at a depth does to a world.
* `Act.ends_resolve_of_goal?`: what the answer of a level is made into.
* **`Act.ends_dispatchLocal`**: the machine at a depth answers as the level at this depth does. -/

namespace Statechart

variable {ρ γ : Type} {host maker : Host ρ γ} {config : HierarchyConfig} {delimiter : String}
  {w w' : World ρ γ} {d level : Definition} {state : StateDef} {links links' inner : List Link}
  {keys keys' : List String} {key target : String} {child : Option Link} {link : Link} {depth : Nat}
  {m m' : Machine (StatePlan ρ)} {event : Event} {params : Params}

/-! ## What changes -/

/-- **The machine at `depth` has entered a state.** The machines around it stand as before, and
those inside it are new; all of them stand at `keys'`. -/
structure World.Turn (host : Host ρ γ) (config : HierarchyConfig) (d : Definition)
    (w w' : World ρ γ) (links links' : List Link) (keys' : List String) (depth : Nat)
    (params : Params) : Prop where
  keeps : w.Keeps host (fun link => links[depth]? ≠ some link) w'
  stands : w'.Stands host config (.composite d) links' keys'
  carries : w'.Carries (.composite d) links' keys' (if keys'.length = depth + 1 then params else [])
  same : links'.take (depth + 1) = links.take (depth + 1)
  turned : ∀ link, links[depth]? = some link → ∃ m m', w.machine? link = some m ∧
    w'.machine? link = some m' ∧ m.current.since < m'.current.since
  fresh : ∀ link ∈ links'.drop (depth + 1), w.cells.size ≤ link.place ∧
    ∃ n, w'.id? link = some (.minted n) ∧ w.minted ≤ n

/-- `World.Stands` after the machine at `depth` has entered `target`, from `Stands.splice`. -/
theorem World.Stands.turn (h : w.Stands host config (.composite d) links keys)
    (hlevel : d.level? (keys.take depth) = some level) (hlink : links[depth]? = some link)
    (hkeeps : w.Keeps host (· ≠ link) w') (hm : w.machine? link = some m)
    (hm' : w'.machine? link = some m') (hid : m'.id = m.id)
    (hstate : level.state? target = some state)
    (hin : m'.StandsIn host config level target inner.head?)
    (hinner : w'.Stands host config state inner state.innerKeys)
    (hrecent : ∀ link ∈ inner, ∃ n, w'.id? link = some (.minted n) ∧ w.minted ≤ n) :
    w'.Stands host config (.composite d) (links.take (depth + 1) ++ inner)
      (keys.take depth ++ target :: state.innerKeys) := by
  -- The machine that moves keeps its identity, and so do all the others.
  have hids : ∀ other ∈ links, w'.id? other = w.id? other := by
    intro other hother
    by_cases heq : other = link
    · rw [heq, World.id?_of_machine? hm, World.id?_of_machine? hm', hid]
    · obtain ⟨m₀, hm₀⟩ := h.exists_of_mem hother
      exact hkeeps.id? heq hm₀
  have hminted : ∀ other ∈ links.take (depth + 1),
      ∃ n, w'.id? other = some (.minted n) ∧ n < w.minted := by
    intro other hother
    have hmem := List.mem_of_mem_take hother
    obtain ⟨n, hn, hlt⟩ := h.minted other hmem
    exact ⟨n, (hids other hmem).trans hn, hlt⟩
  refine .splice h.length ?_ (Definition.level?_eq_some_iff.1 hlevel) hlink hm' hstate hin hinner
    ?_ ?_
  · intro i hi own key hown hkey
    obtain ⟨around, m₀, haround, hm₀, hstands⟩ := h.rung i own key hown hkey
    have hne : own ≠ link := by
      rintro rfl
      exact Nat.ne_of_lt hi (h.depth_eq hown hlink)
    obtain ⟨m₁, hm₁, halike⟩ := hkeeps.machine own m₀ hne hm₀
    exact ⟨around, m₁, haround, hm₁, hstands.alike halike⟩
  · intro other hother
    obtain ⟨n, hn, hlt⟩ := hminted other hother
    exact ⟨n, hn, Nat.lt_of_lt_of_le hlt hkeeps.minted⟩
  · refine World.nodup_append_of_recent ?_ hinner.distinct hminted hrecent
    rw [List.map_congr_left fun other hother => hids other (List.mem_of_mem_take hother)]
    exact h.distinct.sublist ((List.take_sublist _ _).map _)

/-! ## What a machine answers -/

/-- `m.candidates? event` is the row of `key`, if there is one. -/
theorem Machine.StandsIn.candidates? (h : m.StandsIn host config level key child) (event : Event) :
    m.candidates? event = some ((m.table.get? key event.key).map (key, ·)).toList := by
  have hlookup : m.config.lookup = .exact := by
    rw [h.runs.config]
    rfl
  rw [Machine.candidates?, Machine.lookupKeys?, hlookup]
  simp only [Option.map_some, h.key_eq, List.filterMap_cons, List.filterMap_nil]
  cases m.table.get? key event.key <;> rfl

/-- `Act.firstMade` of one candidate at most is `Spec.resolve` and `StatePlan.realise`. -/
theorem Act.firstMade_toList (factory : Factory (StatePlan ρ)) (context : EventContext)
    (spec? : Option (Spec (StatePlan ρ))) :
    Act.firstMade maker factory context (spec?.map (key, ·)).toList =
      (match spec?.bind fun spec => spec.resolve factory context with
        | none => pure none
        | some plan => do return (← plan.realise maker).map (key, ·) :
        Act ρ γ (Option (String × State))) := by
  cases spec? with
  | none => rfl
  | some spec =>
    rw [Option.map_some, Option.toList_some, Act.firstMade, Option.bind_some]
    cases spec.resolve factory context with
    | none => rfl
    | some plan =>
      simp only []
      congr 1
      funext made
      cases made <;> rfl

/-- `Act.firstMade` of a machine that stands in `key` follows `level.goal?`. -/
theorem Act.firstMade_level (h : m.StandsIn host config level key child)
    (hlevel : level.IsSound delimiter) (context : EventContext) :
    Act.firstMade maker m.factory context
        ((m.table.get? key context.event.key).map (key, ·)).toList =
      (match level.goal? key context.event.key context.event.params with
        | none => pure none
        | some target =>
          match level.state? target with
          | none => pure none
          | some state => do
            return (← (Definition.statePlan config target state context.event.params).realise
              maker).map (key, ·) : Act ρ γ (Option (String × State))) := by
  rw [Act.firstMade_toList, h.runs.factory, h.runs.table, hlevel.resolve_levelTable]
  cases level.goal? key context.event.key context.event.params with
  | none => rfl
  | some target =>
    simp only [Option.bind_some]
    cases level.state? target <;> rfl

/-- `Act.resolve` finds nothing and changes nothing if `level.goal?` is `none`. -/
theorem Act.resolve_of_goal?_eq_none (hm : w.machine? link = some m)
    (h : m.StandsIn host config level key child) (hlevel : level.IsSound delimiter)
    (hgoal : level.goal? key event.key event.params = none) :
    (Act.resolve maker link event).run w = some (none, w) := by
  rw [Act.resolve]
  show (StateT.run (get >>= _) w) = _
  rw [StateT.run_bind, StateT.run_get]
  simp only [Option.pure_def, Option.bind_eq_bind, Option.bind_some, hm]
  by_cases hnamed : event.isMisnamed = true
  · rw [if_pos hnamed]
    rfl
  · rw [if_neg hnamed, h.candidates?]
    simp only [Act.firstMade_level h hlevel ⟨event, m.current.state⟩, hgoal, pure_bind]
    rfl

/-- **`Act.resolve` makes the state `target` if `level.goal?` is `target`**, with new machines
inside (`World.Makes`). -/
theorem Act.ends_resolve_of_goal? (hm : w.machine? link = some m)
    (h : m.StandsIn host config level key child) (hlevel : level.IsSound delimiter)
    (hnamed : event.isMisnamed = false)
    (hgoal : level.goal? key event.key event.params = some target)
    (hstate : level.state? target = some state)
    (hinside : ∀ inner ∈ state.levels, inner.IsSound delimiter) :
    Act.Ends (Act.resolve maker link event) w fun found w' => ∃ inner,
      found = some { event, source := m.current
                     target := state.enter target event.params inner.head?, matched := key } ∧
        w.Makes host config w' state inner := by
  rw [Act.resolve]
  refine Act.ends_get ?_
  simp only [hm, hnamed, h.candidates?, Bool.false_eq_true, if_false]
  simp only [Act.firstMade_level h hlevel ⟨event, m.current.state⟩, hgoal, hstate, bind_assoc,
    pure_bind]
  refine Act.ends_bind (Definition.ends_realise_statePlan host config state hinside target
    event.params w) ?_
  rintro _ w' ⟨inner, rfl, hmakes⟩
  exact Act.ends_pure ⟨inner, rfl, hmakes⟩

/-! ## What a machine does -/

/-- `Act.dispatchLocal` changes nothing if `Act.resolve` finds nothing. -/
theorem Act.dispatchLocal_of_resolve (hrun : (Act.resolve host link event).run w = some (none, w)) :
    (Act.dispatchLocal host link event).run w = some (none, w) := by
  have hstep : (Act.step host link event).run w = some (none, w) := by
    rw [Act.step, StateT.run_bind, hrun]
    rfl
  rw [Act.dispatchLocal, StateT.run_bind, hstep]
  rfl

/-- `m.followUps` is empty, since `levelConfig` has the lookup `.exact`. -/
theorem Machine.Runs.followUps (h : m.Runs host config level) (state : State) :
    m.followUps state = [] := by
  rw [Machine.followUps, h.config]
  rfl

/-- `m.commit` of a change to `target` stands in `target`. -/
theorem Machine.Runs.standsIn_commit (h : m.Runs host config level)
    (hstate : level.state? target = some state) (event : Event) (source : Placed)
    (params : Params) (child : Option Link) :
    (m.commit (m.changeTo event source (state.enter target params child))).StandsIn host config
      level target child :=
  ⟨⟨h.factory, h.table, h.config, Nat.le_refl _, h.quiet⟩, rfl, rfl, state, hstate, rfl⟩

/-- `Act.transition` commits to `m.changeTo` the target of `found`, and keeps everything else. -/
theorem Act.ends_transition {found : Resolution} (hm : w.machine? link = some m)
    (hruns : m.Runs host config level) :
    Act.Ends (Act.transition host link found) w fun result w' =>
      ∃ change, result = some (change, []) ∧ w.Keeps host (· ≠ link) w' ∧
        w'.machine? link = some (m.commit (m.changeTo found.event found.source found.target)) := by
  rw [Act.transition]
  refine Act.ends_get ?_
  simp only [hm, hruns.followUps]
  have hset : w.Keeps host (· ≠ link)
      (w.setCell link (.machine (m.commit (m.changeTo found.event found.source found.target)))) :=
    .setCell hm fun hne => absurd rfl hne
  refine Act.ends_bind Act.ends_setCell ?_
  rintro _ _ rfl
  refine Act.ends_bind (Act.ends_notify (World.machine?_setCell_self hm) hruns.quiet) ?_
  rintro _ _ ⟨guest, rfl⟩
  exact Act.ends_pure ⟨_, rfl, hset.trans (.of_eq rfl rfl (Nat.le_refl _) rfl),
    World.machine?_setCell_self hm⟩

/-- **`Act.dispatchLocal` commits to the target of `found` if `Act.resolve` gives `found`**, and
keeps everything else. -/
theorem Act.ends_dispatchLocal_of_resolve {found : Resolution}
    (hresolve : (Act.resolve host link event).run w = some (some found, w'))
    (hm : w'.machine? link = some m) (hruns : m.Runs host config level) :
    Act.Ends (Act.dispatchLocal host link event) w fun outcome w'' => outcome.isSome ∧
      w'.Keeps host (· ≠ link) w'' ∧
      w''.machine? link = some (m.commit (m.changeTo found.event found.source found.target)) := by
  -- A machine of a level has no follow-ups, so that all is done after one step.
  have hstep : Act.Ends (Act.step host link event) w fun result w'' =>
      ∃ change, result = some (change, []) ∧ w'.Keeps host (· ≠ link) w'' ∧
        w''.machine? link = some (m.commit (m.changeTo found.event found.source found.target)) := by
    have hfound : Act.Ends (Act.resolve host link event) w fun result w₁ =>
        result = some found ∧ w₁ = w' := ⟨_, _, hresolve, rfl, rfl⟩
    rw [Act.step]
    refine Act.ends_bind hfound ?_
    rintro _ _ ⟨rfl, rfl⟩
    exact Act.ends_transition hm hruns
  rw [Act.dispatchLocal]
  refine Act.ends_bind hstep ?_
  rintro _ w'' ⟨change, rfl, hkeeps, hm''⟩
  refine Act.ends_get ?_
  simp only [hm'', Act.settle, List.isEmpty_nil, if_true, pure_bind]
  exact Act.ends_pure ⟨rfl, hkeeps, hm''⟩

/-! ## The turn of a machine -/

/-- **`Act.dispatchLocal` changes nothing if `d.move?` is `none`.** -/
theorem Act.dispatchLocal_of_move?_eq_none (hd : d.Sound delimiter)
    (h : w.Stands host config (.composite d) links keys) (hlink : links[depth]? = some link)
    (hmove : d.move? keys depth event.key event.params = none) :
    (Act.dispatchLocal host link event).run w = some (none, w) := by
  obtain ⟨level, key, m, hkey, hlevel, hm, hstands⟩ := h.exists_machine hlink
  have hlevel := Definition.level?_eq_some_iff.2 hlevel
  rw [Definition.move?_of_level? hlevel hkey, Option.map_eq_none_iff] at hmove
  exact Act.dispatchLocal_of_resolve
    (Act.resolve_of_goal?_eq_none hm hstands (hd.level? hlevel) hmove)

/-- **`World.Turn` of a machine that enters a state** after `World.Makes`. -/
theorem World.Stands.turn_of_makes {w₁ : World ρ γ}
    (h : w.Stands host config (.composite d) links keys)
    (hlevel : d.level? (keys.take depth) = some level) (hlink : links[depth]? = some link)
    (hm : w.machine? link = some m) (hstate : level.state? target = some state)
    (hmakes : w.Makes host config w₁ state inner) (hkeeps : w₁.Keeps host (· ≠ link) w')
    (hm' : w'.machine? link = some m') (hid : m'.id = m.id)
    (hsince : m.current.since < m'.current.since)
    (hdata : m'.current.state.data = state.data params)
    (hin : m'.StandsIn host config level target inner.head?) :
    World.Turn host config d w w' links (links.take (depth + 1) ++ inner)
      (keys.take depth ++ target :: state.innerKeys) depth params := by
  have hlt := (List.getElem?_eq_some_iff.1 hlink).1
  have hlinks : (links.take (depth + 1)).length = depth + 1 := List.length_take_of_le hlt
  have hkeys : (keys.take depth).length = depth :=
    List.length_take_of_le (by rw [← h.length]; exact Nat.le_of_lt hlt)
  -- The machine was there before the ones inside it were made, so it is none of them.
  have hplace : link.place < w.cells.size := by
    by_cases hplace : link.place < w.cells.size
    · exact hplace
    · rw [World.machine?_eq_none_of_le (Nat.not_lt.1 hplace)] at hm
      cases hm
  have hinner : ∀ other ∈ inner, other ≠ link := by
    rintro other hother rfl
    exact absurd (hmakes.fresh other hother) (Nat.not_le.2 hplace)
  have hkept : w.Keeps host (· ≠ link) w' := (hmakes.keeps.mono fun _ _ => trivial).trans hkeeps
  have hrecent : ∀ other ∈ inner, ∃ n, w'.id? other = some (.minted n) ∧ w.minted ≤ n := by
    intro other hother
    obtain ⟨m₀, hm₀⟩ := hmakes.stands.exists_of_mem hother
    rw [hkeeps.id? (hinner other hother) hm₀]
    exact hmakes.recent other hother
  refine ⟨hkept.mono ?keeps, ?stands, ?carries, ?same, ?turned, ?fresh⟩
  case keeps =>
    rintro other hother rfl
    exact hother hlink
  case stands =>
    exact h.turn hlevel hlink hkept hm hm' hid hstate hin (hmakes.stands.of_keeps hkeeps hinner)
      hrecent
  case carries =>
    have hcarries := World.Carries.splice (Definition.level?_eq_some_iff.1 hlevel) hlink hm' hstate
      hdata hmakes.stands.length fun hne =>
        (hmakes.carries hne).of_keeps hmakes.stands hkeeps hinner
    -- Nothing is inside exactly if the keys end with that of the state that is entered.
    have hiff : inner = [] ↔ (keys.take depth ++ target :: state.innerKeys).length = depth + 1 := by
      rw [List.length_append, List.length_cons, hkeys, ← hmakes.stands.length,
        ← List.length_eq_zero_iff]
      omega
    simpa only [hiff] using hcarries
  case same =>
    rw [List.take_append_of_le_length (Nat.le_of_eq hlinks.symm), List.take_take, Nat.min_self]
  case turned =>
    intro other hother
    rw [hlink] at hother
    cases hother
    exact ⟨m, m', hm, hm', hsince⟩
  case fresh =>
    intro other hother
    rw [List.drop_append_of_le_length (Nat.le_of_eq hlinks.symm),
      List.drop_eq_nil_of_le (Nat.le_of_eq hlinks), List.nil_append] at hother
    exact ⟨hmakes.fresh other hother, hrecent other hother⟩

/-- **`Act.dispatchLocal` at `depth` follows `d.move?`**: it gives `World.Turn` to `keys'`. -/
theorem Act.ends_dispatchLocal (hd : d.Sound delimiter)
    (h : w.Stands host config (.composite d) links keys) (hlink : links[depth]? = some link)
    (hnamed : event.isMisnamed = false)
    (hmove : d.move? keys depth event.key event.params = some keys') :
    Act.Ends (Act.dispatchLocal host link event) w fun outcome w' => outcome.isSome ∧
      ∃ links', World.Turn host config d w w' links links' keys' depth event.params := by
  obtain ⟨level, key, m, hkey, hlevel, hm, hstands⟩ := h.exists_machine hlink
  have hlevel := Definition.level?_eq_some_iff.2 hlevel
  rw [Definition.move?_of_level? hlevel hkey, Option.map_eq_some_iff] at hmove
  obtain ⟨target, hgoal, rfl⟩ := hmove
  obtain ⟨state, hstate⟩ := Option.isSome_iff_exists.1 (Definition.declares_of_goal? hgoal)
  have hinside := hd.inside hlevel hstate
  -- The state is made first, and the machine, which is as it was, then enters it.
  obtain ⟨_, w₁, hresolve, inner, rfl, hmakes⟩ :=
    Act.ends_resolve_of_goal? hm hstands (hd.level? hlevel) hnamed hgoal hstate hinside
  obtain ⟨m₁, hm₁, halike⟩ := hmakes.keeps.machine link m trivial hm
  have hruns := hstands.runs.alike halike
  refine (Act.ends_dispatchLocal_of_resolve hresolve hm₁ hruns).mono ?_
  rintro outcome w₂ ⟨houtcome, hkeeps, hm₂⟩
  have hsince : m.current.since ≤ m₁.revision := halike.current ▸ hruns.since
  refine ⟨houtcome, links.take (depth + 1) ++ inner, ?_⟩
  rw [Definition.enteredKeys_of_state? hstate]
  exact h.turn_of_makes hlevel hlink hm hstate hmakes hkeeps hm₂ halike.id
    (Nat.lt_succ_of_le hsince) rfl
    (hruns.standsIn_commit hstate event m.current event.params inner.head?)

end Statechart
