import Statechart.Proofs.Definition.Soundness

/-! # All states of a nested definition

The states of a definition are listed in order of declaration, with what is inside a composite right
after it, and each with the keys that lead to it.

* **`Definition.places`**: all states inside a definition. `Definition.levelPlaces`: its levels,
  the definition itself first. `Definition.rules`: the transitions of all levels.
* **`Definition.Orderly.mem_places_iff`**: in an orderly definition these are the states that keys
  lead to. `Definition.Orderly.mem_levelPlaces_iff` says the same of the levels.
* **`Definition.Orderly.nodup_places`**: no keys are listed twice.
* **`Definition.Orderly.nodup_rules`**: no two transitions of a level are for one state and one
  event. -/

namespace Statechart

mutual

/-- **The states inside a definition**, each with the keys that lead to it. -/
def Definition.places : Definition → List (List String × StateDef)
  | ⟨states, _, _, _⟩ => placesOfStates states

/-- The states of a list and those inside them. -/
def placesOfStates : List (String × StateDef) → List (List String × StateDef)
  | [] => []
  | (key, state) :: rest =>
    (state.places.map fun place => (key :: place.1, place.2)) ++ placesOfStates rest

/-- A state, at the keys `[]`, and the states inside it. -/
def StateDef.places : StateDef → List (List String × StateDef)
  | .leaf leaf => [([], .leaf leaf)]
  | .composite inner => ([], .composite inner) :: inner.places

end

/-- The definition of a composite. -/
def StateDef.level? : StateDef → Option Definition
  | .leaf _ => none
  | .composite level => some level

/-- **The levels of `d`**, each with the keys that lead to it. -/
def Definition.levelPlaces (d : Definition) : List (List String × Definition) :=
  ([], d) :: d.places.filterMap fun place => place.2.level?.map (place.1, ·)

/-- **The transitions of all levels of `d`**, each with the keys of its level. -/
def Definition.rules (d : Definition) : List (List String × TransitionDef) :=
  d.levelPlaces.flatMap fun place => place.2.transitions.map (place.1, ·)

/-- `placesOfStates` as a `flatMap`. -/
theorem placesOfStates_eq (states : List (String × StateDef)) :
    placesOfStates states = states.flatMap fun entry =>
      entry.2.places.map fun place => (entry.1 :: place.1, place.2) := by
  induction states with
  | nil => rfl
  | cons first rest ih => rw [placesOfStates, List.flatMap_cons, ih]

namespace Definition

variable {delimiter : String} {d level : Definition} {keys : List String} {state : StateDef}

/-- `d.places` is `placesOfStates` of `d.states`. -/
theorem places_eq (d : Definition) : d.places = placesOfStates d.states := by
  obtain ⟨states, transitions, initial?, issues⟩ := d
  rw [places]

/-- The keys in `d.places` are not empty. -/
theorem ne_nil_of_mem_places (h : (keys, state) ∈ d.places) : keys ≠ [] := by
  rw [places_eq, placesOfStates_eq, List.mem_flatMap] at h
  obtain ⟨entry, -, hplace⟩ := h
  obtain ⟨place, -, heq⟩ := List.mem_map.1 hplace
  rw [Prod.mk.injEq] at heq
  exact heq.1 ▸ List.cons_ne_nil _ _

end Definition

/-- `state.places` are what `StateDef.at?` finds, by induction on `state`. -/
theorem StateDef.mem_places_iff {delimiter : String} (state : StateDef)
    (h : ∀ level ∈ state.levels, level.IsOrderly delimiter) :
    ∀ keys inside, (keys, inside) ∈ state.places ↔ state.at? keys = some inside := by
  induction state using StateDef.inside_induction with
  | leaf l =>
    intro keys inside
    rw [places, List.mem_singleton, Prod.mk.injEq]
    cases keys with
    | nil => simp [eq_comm]
    | cons key keys => simp [at?]
  | composite inner ih =>
    intro keys inside
    rw [levels] at h
    rw [places, List.mem_cons, Prod.mk.injEq]
    cases keys with
    | nil =>
      have hnone : ([], inside) ∉ inner.places := fun hmem =>
        Definition.ne_nil_of_mem_places hmem rfl
      simp [hnone, eq_comm]
    | cons key keys =>
      rw [Definition.places_eq, placesOfStates_eq, List.mem_flatMap, Definition.at?_cons,
        Option.bind_eq_some_iff]
      -- The first key is that of a declared state, and the others lead on from there.
      constructor
      · rintro (⟨hnil, -⟩ | ⟨⟨own, state⟩, hentry, hplace⟩)
        · cases hnil
        · obtain ⟨⟨rest, place⟩, hmem, heq⟩ := List.mem_map.1 hplace
          cases heq
          exact ⟨state, (h inner inner.mem_levels_self).state?_of_mem hentry,
            (ih _ hentry (fun level hlevel =>
              h level (Definition.mem_levels_of_state hentry hlevel)) _ _).1 hmem⟩
      · rintro ⟨state, hstate, hat⟩
        have hentry := Definition.mem_of_state? hstate
        refine Or.inr ⟨(key, state), hentry, List.mem_map.2 ⟨(keys, inside), ?_, rfl⟩⟩
        exact (ih _ hentry (fun level hlevel =>
          h level (Definition.mem_levels_of_state hentry hlevel)) _ _).2 hat

/-- The keys in `state.places` are different, by induction on `state`. -/
theorem StateDef.nodup_places {delimiter : String} (state : StateDef)
    (h : ∀ level ∈ state.levels, level.IsOrderly delimiter) :
    (state.places.map Prod.fst).Nodup := by
  induction state using StateDef.inside_induction with
  | leaf l => exact List.nodup_singleton _
  | composite inner ih =>
    rw [levels] at h
    rw [places, List.map_cons, List.nodup_cons]
    constructor
    · intro hmem
      obtain ⟨place, hplace, hnil⟩ := List.mem_map.1 hmem
      exact Definition.ne_nil_of_mem_places hplace hnil
    · rw [Definition.places_eq, placesOfStates_eq, List.map_flatMap, List.nodup_flatMap]
      constructor
      · intro entry hentry
        have hinside := ih entry hentry fun level hlevel =>
          h level (Definition.mem_levels_of_state hentry hlevel)
        have hcons := hinside.map (List.cons_injective (a := entry.1))
        rwa [List.map_map] at hcons ⊢
      · -- What lies inside different states is told apart by the first key.
        have hkeys := List.pairwise_map.1 (h inner inner.mem_levels_self).nodup
        refine hkeys.imp fun {entry entry'} hne keys hmem hmem' => hne ?_
        simp only [List.map_map, List.mem_map, Function.comp_apply] at hmem hmem'
        obtain ⟨place, -, rfl⟩ := hmem
        obtain ⟨place', -, heq⟩ := hmem'
        exact (List.cons.inj heq).1.symm

namespace Definition

variable {delimiter : String} {d level : Definition} {keys : List String} {state : StateDef}

/-- **`d.places` are what `StateDef.at?` finds at `keys ≠ []`.** -/
theorem Orderly.mem_places_iff (h : d.Orderly delimiter) :
    (keys, state) ∈ d.places ↔ keys ≠ [] ∧ (StateDef.composite d).at? keys = some state := by
  have hmem := StateDef.mem_places_iff (.composite d)
    (fun level hlevel => h level (by rwa [StateDef.levels] at hlevel)) keys state
  rw [← hmem, StateDef.places, List.mem_cons, Prod.mk.injEq]
  constructor
  · intro hplace
    exact ⟨ne_nil_of_mem_places hplace, Or.inr hplace⟩
  · rintro ⟨hne, ⟨hnil, -⟩ | hplace⟩
    · exact absurd hnil hne
    · exact hplace

/-- **The keys in `d.places` are different.** -/
theorem Orderly.nodup_places (h : d.Orderly delimiter) : (d.places.map Prod.fst).Nodup := by
  have hnodup := StateDef.nodup_places (.composite d)
    fun level hlevel => h level (by rwa [StateDef.levels] at hlevel)
  rw [StateDef.places, List.map_cons, List.nodup_cons] at hnodup
  exact hnodup.2

/-- **`d.levelPlaces` are what `d.level?` finds.** -/
theorem Orderly.mem_levelPlaces_iff (h : d.Orderly delimiter) :
    (keys, level) ∈ d.levelPlaces ↔ d.level? keys = some level := by
  rw [levelPlaces, List.mem_cons, List.mem_filterMap, level?_eq_some_iff]
  constructor
  · rintro (heq | ⟨⟨keys', state⟩, hplace, hlevel⟩)
    · cases heq
      rfl
    · -- A leaf has no level inside.
      cases state with
      | leaf l => cases hlevel
      | composite inner =>
        cases hlevel
        exact (h.mem_places_iff.1 hplace).2
  · intro hat
    by_cases hne : keys = []
    · subst hne
      rw [StateDef.at?_nil] at hat
      cases hat
      exact Or.inl rfl
    · exact Or.inr ⟨(keys, .composite level), h.mem_places_iff.2 ⟨hne, hat⟩, rfl⟩

/-- The keys in `d.levelPlaces` are different. -/
theorem Orderly.pairwise_levelPlaces (h : d.Orderly delimiter) :
    d.levelPlaces.Pairwise fun place place' => place.1 ≠ place'.1 := by
  rw [levelPlaces, List.pairwise_cons]
  constructor
  · intro place hplace
    obtain ⟨⟨keys, state⟩, hmem, hlevel⟩ := List.mem_filterMap.1 hplace
    obtain ⟨level, -, rfl⟩ := Option.map_eq_some_iff.1 hlevel
    exact (ne_nil_of_mem_places hmem).symm
  · refine (List.pairwise_map.1 h.nodup_places).filterMap _ ?_
    intro place place' hne found hfound found' hfound'
    obtain ⟨level, -, rfl⟩ := Option.map_eq_some_iff.1 hfound
    obtain ⟨level', -, rfl⟩ := Option.map_eq_some_iff.1 hfound'
    exact hne

/-- `d.rules` are the transitions of the levels that `d.level?` finds. -/
theorem Orderly.mem_rules_iff (h : d.Orderly delimiter) {t : TransitionDef} :
    (keys, t) ∈ d.rules ↔ ∃ level, d.level? keys = some level ∧ t ∈ level.transitions := by
  rw [rules, List.mem_flatMap]
  constructor
  · rintro ⟨⟨keys', level⟩, hplace, hrule⟩
    obtain ⟨t', ht', heq⟩ := List.mem_map.1 hrule
    cases heq
    exact ⟨level, h.mem_levelPlaces_iff.1 hplace, ht'⟩
  · rintro ⟨level, hlevel, ht⟩
    exact ⟨(keys, level), h.mem_levelPlaces_iff.2 hlevel, List.mem_map.2 ⟨t, ht, rfl⟩⟩

/-- **No two of `d.rules` are for one state and one event.** -/
theorem Orderly.nodup_rules (h : d.Orderly delimiter) :
    (d.rules.map fun rule => (rule.1, rule.2.source, rule.2.event)).Nodup := by
  rw [rules, List.map_flatMap, List.nodup_flatMap]
  constructor
  · rintro ⟨keys, level⟩ hplace
    have hdistinct := (h.level? (h.mem_levelPlaces_iff.1 hplace)).distinct
    have hpair := hdistinct.map (f := (keys, ·)) fun _ _ heq => (Prod.mk.inj heq).2
    rwa [List.map_map] at hpair ⊢
  · refine h.pairwise_levelPlaces.imp fun {place place'} hne rule hmem hmem' => hne ?_
    simp only [List.map_map, List.mem_map, Function.comp_apply] at hmem hmem'
    obtain ⟨t, -, rfl⟩ := hmem
    obtain ⟨t', -, heq⟩ := hmem'
    exact (congrArg Prod.fst heq).symm

end Definition

end Statechart
