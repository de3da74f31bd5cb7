import Statechart.Proofs.Definition.Check
import Statechart.Proofs.Definition.Identity
import Statechart.Proofs.Definition.Resolution
import Statechart.Proofs.Flat.Machine
import Statechart.Proofs.Flat.Scan

/-! # What a definition is refused for

The check is all that stands between a definition and its flat form. If it finds something, this is
the answer; if it finds nothing, the answers can be listed, the initial state stands for a leaf, and
the machine of the flat form has all its parts. Only colliding answers may still be refused. All of
this holds for delimiters of any length, although the paths of two states may then be the same.

* `FlatDefinition.eq_of_settleCollisions`: what becomes of colliding answers.
* `FlatDefinition.lands_of_ofDefinition`: every flat form of a checked definition lands in leaves.
* `FlatDefinition.Lands.ends_startFlat`: the machine of such a flat form can be started.
* **`FlatDefinition.refused_iff_problems`**: the check is the only gate. -/

namespace Statechart

variable {ρ γ : Type} {index : PathIndex} {scope : Option String} {delimiter : String}
  {d : Definition} {config : FlattenConfig}

/-! ## Where answers lead -/

namespace FlatDefinition

variable {flat flat' : FlatDefinition}

/-- `resolve` gives the path of a leaf. -/
theorem exists_leaf_of_resolve (hd : d.Orderly delimiter) {name path : String}
    (h : (PathIndex.ofDefinition delimiter d).resolve scope name = some path) :
    ∃ leaf ∈ leavesIn delimiter none d, leaf.path = path := by
  obtain ⟨found, -, hleaf⟩ := PathIndex.exists_of_resolve h
  have hnode : (PathIndex.ofDefinition delimiter d).nodes[path]? = some .leaf :=
    beq_iff_eq.1 (PathIndex.isLeaf_of_leafOf hleaf)
  obtain ⟨keys, state, -, hat, rfl, hstate⟩ := PathIndex.exists_of_getElem?_nodes hd hnode
  cases state with
  | composite inner => cases hstate
  | leaf l => exact ⟨_, (mem_leavesIn_iff hd).2 ⟨keys, l, hat, rfl⟩, rfl⟩

/-- `assemble` gives a flat form that `Lands`. -/
theorem lands_of_assemble (hd : d.Orderly delimiter) (h : assemble delimiter d = .ok flat) :
    flat.Lands := by
  have htargets : ∀ source event path, flat.target? source event = some (.path path) →
      ∃ leaf ∈ leavesIn delimiter none d, leaf.path = path := by
    intro source event path htarget
    obtain ⟨keys, level, t, -, -, -, -, hleads⟩ := exists_of_target? hd h htarget
    obtain ⟨name, -, hresolve⟩ := leads?_eq_path_iff.1 hleads
    exact exists_leaf_of_resolve hd hresolve
  obtain ⟨entries, initial, -, hinitial, rfl⟩ := eq_of_assemble h
  obtain ⟨key, -, hresolve⟩ := Option.bind_eq_some_iff.1 hinitial
  exact ⟨exists_leaf_of_resolve hd hresolve, htargets⟩

/-- `ofDefinition` is `settleCollisions` of `assemble` if `d.problems` is empty. -/
theorem ofDefinition_eq (hproblems : d.problems config.delimiter = some [])
    (h : assemble config.delimiter d = .ok flat) :
    ofDefinition config d = some (FlatDefinition.settleCollisions config.eventCollision flat) := by
  simp [ofDefinition, hproblems, h, Except.bind]

/-- **`.allowShadow` filters the answers of `flat.collisions` out**, and keeps all others. -/
theorem target?_of_allowShadow (h : settleCollisions .allowShadow flat = .ok flat')
    (source : String) (event : EventKey) :
    flat'.target? source event = (flat.target? source event).filter fun _ =>
      !flat.collisions.any fun c => c.child == source && c.event == event := by
  cases h
  have hsame : ∀ c : Collision, ((⟨c.child, c.event⟩ : Handler) == ⟨source, event⟩) =
      (c.child == source && c.event == event) := fun c => by
    rw [Bool.eq_iff_iff, Bool.and_eq_true, beq_iff_eq, beq_iff_eq, beq_iff_eq, Handler.mk.injEq]
  rw [target?, target?, getElem?_foldl_erase]
  simp only [hsame]

/-- **`settleCollisions` keeps an answer, or removes it if its event is a domain event.** Leaves and
initial leaf stay. -/
theorem eq_of_settleCollisions {policy : EventCollision}
    (h : settleCollisions policy flat = .ok flat') :
    flat'.leaves = flat.leaves ∧ flat'.initial = flat.initial ∧ ∀ source event,
      flat'.target? source event = flat.target? source event ∨
        flat'.target? source event = none ∧ event.isReserved = false := by
  unfold settleCollisions at h
  cases policy with
  | error =>
    dsimp only at h
    split at h
    · cases h
      exact ⟨rfl, rfl, fun _ _ => Or.inl rfl⟩
    · cases h
  | namespaced =>
    cases h
    exact ⟨rfl, rfl, fun _ _ => Or.inl rfl⟩
  | allowShadow =>
    cases h
    refine ⟨rfl, rfl, fun source event => ?_⟩
    -- What is shadowed is the answer of a child that collides, and only domain events do.
    rw [target?_of_allowShadow rfl]
    by_cases hshadowed : (flat.collisions.any fun c => c.child == source && c.event == event) = true
    · obtain ⟨c, hc, hsame⟩ := List.any_eq_true.1 hshadowed
      rw [Bool.and_eq_true, beq_iff_eq, beq_iff_eq] at hsame
      exact Or.inr ⟨by simp [hshadowed], hsame.2 ▸ isReserved_of_mem_collisions hc⟩
    · refine Or.inl ?_
      rw [Bool.not_eq_true] at hshadowed
      cases flat.target? source event <;> simp [hshadowed]

/-- The answers after `settleCollisions` are answers before it. -/
theorem target?_of_settleCollisions {policy : EventCollision}
    (h : settleCollisions policy flat = .ok flat') {source : String} {event : EventKey}
    {target : FlatTarget} (htarget : flat'.target? source event = some target) :
    flat.target? source event = some target := by
  rcases (eq_of_settleCollisions h).2.2 source event with hsame | ⟨hnone, -⟩
  · exact hsame ▸ htarget
  · rw [hnone] at htarget
    cases htarget

/-- `settleCollisions` keeps the answers to reserved events. -/
theorem target?_eq_of_isReserved {policy : EventCollision}
    (h : settleCollisions policy flat = .ok flat') {source : String} {event : EventKey}
    (hevent : event.isReserved = true) :
    flat'.target? source event = flat.target? source event := by
  rcases (eq_of_settleCollisions h).2.2 source event with hsame | ⟨-, hdomain⟩
  · exact hsame
  · rw [hevent] at hdomain
    cases hdomain

/-- An error of `settleCollisions` is `.eventCollision` of one of `flat.collisions`. -/
theorem exists_collision_of_settleCollisions {policy : EventCollision} {e : FlattenError}
    (h : settleCollisions policy flat = .error e) :
    ∃ c ∈ flat.collisions, e = .eventCollision c := by
  unfold settleCollisions at h
  cases policy with
  | error =>
    dsimp only at h
    split at h
    · cases h
    · rename_i first rest hcollisions
      cases h
      exact ⟨first, hcollisions ▸ List.mem_cons_self, rfl⟩
  | namespaced => cases h
  | allowShadow => cases h

/-- `settleCollisions .error` that is `.ok` keeps `flat`. -/
theorem eq_of_settleCollisions_error (h : settleCollisions .error flat = .ok flat') :
    flat' = flat := by
  unfold settleCollisions at h
  dsimp only at h
  split at h
  · cases h
    rfl
  · cases h

/-- `settleCollisions` keeps `index` and `composites`. -/
theorem names_of_settleCollisions {policy : EventCollision}
    (h : settleCollisions policy flat = .ok flat') :
    flat'.index = flat.index ∧ flat'.composites = flat.composites := by
  unfold settleCollisions at h
  cases policy with
  | error =>
    rw [eq_of_settleCollisions_error h]
    exact ⟨rfl, rfl⟩
  | namespaced =>
    cases h
    exact ⟨rfl, rfl⟩
  | allowShadow =>
    cases h
    exact ⟨rfl, rfl⟩

/-- `settleCollisions` keeps `Lands`. -/
theorem Lands.settleCollisions {policy : EventCollision} (hflat : flat.Lands)
    (h : settleCollisions policy flat = .ok flat') : flat'.Lands := by
  obtain ⟨hleaves, hinitial, -⟩ := eq_of_settleCollisions h
  refine ⟨?_, fun source event path htarget => ?_⟩
  · rw [hleaves, hinitial]
    exact hflat.initial
  · rw [hleaves]
    exact hflat.target source event path (target?_of_settleCollisions h htarget)

/-- **`ofDefinition` gives a flat form that `Lands`.** -/
theorem lands_of_ofDefinition (h : ofDefinition config d = some (.ok flat)) : flat.Lands := by
  obtain ⟨hproblems, whole, hwhole, hsettled⟩ := exists_of_ofDefinition h
  have hd := Definition.orderly_of_problems hproblems
  exact (lands_of_assemble hd hwhole).settleCollisions hsettled

/-! ## Starting the machine -/

/-- **`Act.startFlat` of a flat form that `Lands` ends**, for any `config`. It puts `Machine.start`
into the world, in a leaf of the path `flat.initial`. -/
theorem Lands.ends_startFlat_machine (h : flat.Lands) (config : FlattenConfig) (host : Host ρ γ)
    (w : World ρ γ) :
    Act.Ends (Act.startFlat host flat config) w fun result w' => ∃ link, ∃ leaf ∈ flat.leaves,
      result = .ok link ∧ leaf.path = flat.initial ∧
        w'.machine? link = some (Machine.start (.minted w.minted)
          ⟨{ key := leaf.path, data := leaf.leaf.data [], isFinal := leaf.leaf.isFinal },
            flat.factory, flat.table, machineConfig config⟩) := by
  obtain ⟨leaf, hleaf, hinitial, hrealise⟩ := h.exists_realise_machinePlan config host
  rw [Act.startFlat, hrealise]
  refine (Act.ends_found host).mono ?_
  rintro _ w' ⟨rfl, -, -, hm⟩
  exact ⟨_, leaf, hleaf, rfl, hinitial, hm⟩

/-- `Act.startFlat` starts in `flat.initial`. -/
theorem Lands.ends_startFlat (h : flat.Lands) (config : FlattenConfig) (host : Host ρ γ)
    (w : World ρ γ) :
    Act.Ends (Act.startFlat host flat config) w fun result w' => ∃ link m, result = .ok link ∧
      w'.machine? link = some m ∧ m.current.state.key = flat.initial := by
  refine (h.ends_startFlat_machine config host w).mono ?_
  rintro _ w' ⟨link, leaf, -, rfl, hinitial, hm⟩
  exact ⟨link, _, rfl, hm, hinitial⟩

/-! ## The only gate -/

/-- **The check is the only gate.** Unless `config.delimiter` is empty,
`FlatDefinition.ofDefinition config d` comes to an end. It is `.error (.invalid problems)` exactly
if `d.problems` finds `problems`. If it finds none, `d` has a flat form with all its answers
(`FlatDefinition.assemble`), so that neither a target nor the initial state can be at fault; this
form or what is left of it is the result, and only if collisions count as errors may one of
`whole.collisions` be the result instead. The machine of the result can be started with any
settings, at `flat.initial`. -/
theorem refused_iff_problems (config : FlattenConfig) (d : Definition)
    (hdelimiter : config.delimiter ≠ "") :
    ∃ problems result, d.problems config.delimiter = some problems ∧
      ofDefinition config d = some result ∧
      (∀ found, result = .error (.invalid found) ↔ found = problems ∧ problems ≠ []) ∧
      (problems = [] → ∃ whole, assemble config.delimiter d = .ok whole ∧
        (config.eventCollision ≠ .error → ∃ flat, result = .ok flat) ∧
        (config.eventCollision = .error →
          result = .ok whole ∨ ∃ c ∈ whole.collisions, result = .error (.eventCollision c))) ∧
      ∀ flat, result = .ok flat → ∀ (runConfig : FlattenConfig) (host : Host ρ γ) (w : World ρ γ),
        ∃ link w' m, (Act.startFlat host flat runConfig).run w = some (.ok link, w') ∧
          w'.machine? link = some m ∧ m.current.state.key = flat.initial := by
  obtain ⟨problems, hproblems⟩ := Definition.exists_problems hdelimiter d
  -- The initial state of whatever results is a leaf, so that the machine can be made.
  have hstart : ∀ flat, ofDefinition config d = some (.ok flat) → ∀ (runConfig : FlattenConfig)
      (host : Host ρ γ) (w : World ρ γ),
        ∃ link w' m, (Act.startFlat host flat runConfig).run w = some (.ok link, w') ∧
          w'.machine? link = some m ∧ m.current.state.key = flat.initial := by
    intro flat hflat runConfig host w
    obtain ⟨_, w', hrun, link, m, rfl, hm, hkey⟩ :=
      (lands_of_ofDefinition hflat).ends_startFlat runConfig host w
    exact ⟨link, w', m, hrun, hm, hkey⟩
  cases problems with
  | cons problem problems =>
    -- With problems there is nothing else to be looked at.
    have hresult : ofDefinition config d = some (.error (.invalid (problem :: problems))) := by
      simp [ofDefinition, hproblems]
    refine ⟨_, _, hproblems, hresult, fun found => ?_, ?_, ?_⟩
    · simp [eq_comm]
    · rintro ⟨⟩
    · rintro flat ⟨⟩
  | nil =>
    -- Without problems everything can be resolved, and collisions alone are left to be at fault.
    obtain ⟨whole, hwhole⟩ := exists_assemble hproblems
    have hresult := ofDefinition_eq hproblems hwhole
    refine ⟨_, _, hproblems, hresult, fun found => ?_, fun _ => ⟨whole, hwhole, ?_, ?_⟩, ?_⟩
    · constructor
      · intro hinvalid
        obtain ⟨c, -, heq⟩ := exists_collision_of_settleCollisions hinvalid
        cases heq
      · rintro ⟨-, hnone⟩
        exact absurd rfl hnone
    · intro hpolicy
      cases hcollision : config.eventCollision with
      | error => exact absurd hcollision hpolicy
      | namespaced => exact ⟨_, rfl⟩
      | allowShadow => exact ⟨_, rfl⟩
    · intro hpolicy
      cases hsettled : FlatDefinition.settleCollisions config.eventCollision whole with
      | error e =>
        obtain ⟨c, hc, rfl⟩ := exists_collision_of_settleCollisions hsettled
        exact Or.inr ⟨c, hc, rfl⟩
      | ok flat =>
        rw [hpolicy] at hsettled
        rw [eq_of_settleCollisions_error hsettled]
        exact Or.inl rfl
    · intro flat hflat
      exact hstart flat (hresult.trans (congrArg some hflat))

end FlatDefinition

/-- `refused_iff_problems` for `houses` with the delimiter `"::"`. They pass, although their rooms
have one path. Without an initial house they are refused for this alone. -/
theorem Definition.houses_pass_gate :
    (∃ flat, FlatDefinition.ofDefinition { delimiter := "::" } houses = some (.ok flat) ∧
      ∀ w : World Unit Unit, ∃ link w' m,
        (Act.startFlat (Surroundings.quiet.host 1) flat { delimiter := "::" }).run w =
          some (.ok link, w') ∧
        w'.machine? link = some m ∧ m.current.state.key = flat.initial) ∧
    FlatDefinition.ofDefinition { delimiter := "::" } { houses with initial? := none } =
      some (.error (.invalid [.missingInitial none])) := by
  have hdelimiter : ({ delimiter := "::" } : FlattenConfig).delimiter ≠ "" := by decide
  -- The check is run on both definitions. The rest follows from the theorem.
  have hpass : houses.problems "::" = some [] := by decide +kernel
  have hfail : ({ houses with initial? := none } : Definition).problems "::" =
      some [.missingInitial none] := by decide +kernel
  constructor
  · obtain ⟨problems, result, hproblems, hresult, -, hnone, hstart⟩ :=
      FlatDefinition.refused_iff_problems (ρ := Unit) (γ := Unit) { delimiter := "::" } houses
        hdelimiter
    rw [hpass] at hproblems
    cases hproblems
    obtain ⟨whole, hwhole, -, hcollisions⟩ := hnone rfl
    have hfew : (FlatDefinition.assemble "::" houses).toOption.map (·.collisions) = some [] := by
      decide +kernel
    rw [hwhole] at hfew
    have hempty : whole.collisions = [] := Option.some.inj hfew
    rcases hcollisions rfl with rfl | ⟨c, hc, -⟩
    · exact ⟨whole, hresult, hstart whole rfl { delimiter := "::" } _⟩
    · rw [hempty] at hc
      cases hc
  · obtain ⟨problems, result, hproblems, hresult, hinvalid, -, -⟩ :=
      FlatDefinition.refused_iff_problems (ρ := Unit) (γ := Unit) { delimiter := "::" }
        { houses with initial? := none } hdelimiter
    rw [hfail] at hproblems
    cases hproblems
    rw [hresult, (hinvalid _).2 ⟨rfl, List.cons_ne_nil _ _⟩]

end Statechart
