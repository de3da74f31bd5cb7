import Statechart.Proofs.Definition.Soundness
import Statechart.Proofs.Parts

/-! # The machine of a level

The plan of a definition has an entry for every state and a row for every transition. On a sound
level the entries and the rows can be looked up, and give back what the definition says.

* `Definition.statePlan`: the plan of a state of a level.
* `Definition.levelFactory`, `Definition.levelTable`: the parts of the machine of a level.
* **`Definition.IsSound.create_levelFactory`**: the machine makes the states of its level.
* **`Definition.IsSound.resolve_levelTable`**: it answers what its level answers.
* `Definition.IsSound.hasTransitions_levelTable`: its dead ends are those of the level. -/

namespace Statechart

namespace Definition

variable {ρ γ : Type} {config : HierarchyConfig} {delimiter : String} {level : Definition}
  {key : String} {event : EventKey} {params : Params}

/-! ## The parts -/

/-- **The plan of the state `key` of a level.** -/
def statePlan (config : HierarchyConfig) (key : String) : StateDef → Params → StatePlan ρ
  | .leaf leaf, params => .plain key (leaf.data params) leaf.isFinal
  | .composite inner, _ =>
    { key, data := .null, isFinal := false, child? := some (.machine (inner.machinePlan config))
      needsChild := true }

/-- The constructor of `stateItem config key state` makes `statePlan config key state`. -/
theorem stateItem_eq (config : HierarchyConfig) (key : String) (state : StateDef) :
    stateItem (ρ := ρ) config key state =
      .made key state.isFinal fun params => some (statePlan config key state params) := by
  cases state with
  | leaf leaf => rfl
  | composite inner => rfl

/-- The members of `stateItems` are the `stateItem`s of the states. -/
theorem mem_stateItems {states : List (String × StateDef)} {item : FactoryItem (StatePlan ρ)} :
    item ∈ stateItems config states ↔
      ∃ entry ∈ states, item = stateItem config entry.1 entry.2 := by
  induction states with
  | nil => simp [stateItems]
  | cons first rest ih =>
    obtain ⟨key, state⟩ := first
    rw [stateItems, List.mem_cons, ih]
    simp

/-- The members of `stateItems` are made each time (`FactoryItem.IsMade`). -/
theorem isMade_stateItems {states : List (String × StateDef)} {item : FactoryItem (StatePlan ρ)}
    (h : item ∈ stateItems config states) : item.IsMade := by
  obtain ⟨entry, -, rfl⟩ := mem_stateItems.1 h
  rw [stateItem_eq]
  exact ⟨_, _, _, rfl⟩

/-- The factory of the machine of `level`. -/
def levelFactory (config : HierarchyConfig) (level : Definition) : Factory (StatePlan ρ) :=
  let items : List (FactoryItem (StatePlan ρ)) := stateItems config level.states
  .ofItems items (nothingMade items)

/-- The rows of the machine of `level`. -/
def levelRows (config : HierarchyConfig) (level : Definition) :
    List (String × EventKey × Spec (StatePlan ρ)) :=
  level.transitions.map fun t =>
    (t.source, t.event, levelSpec (stateItems config level.states) t.target)

/-- The table of the machine of `level`. -/
def levelTable (config : HierarchyConfig) (level : Definition) : Table (StatePlan ρ) :=
  .ofRows (levelRows config level)

/-- `level.machinePlan` lists `stateItems` and `levelRows`. -/
theorem machinePlan_eq (config : HierarchyConfig) (level : Definition) :
    level.machinePlan config =
      (⟨.ok (levelConfig config), stateItems config level.states,
        (levelRows config level).map fun row => ⟨row.1, .key row.2.1, row.2.2⟩,
        some (level.initial?.getD ""), none, [], none⟩ : MachinePlan ρ) := by
  obtain ⟨states, transitions, initial?, issues⟩ := level
  rw [machinePlan, levelRows, List.map_map]
  rfl

/-- The `levelRows` of a sound level are filed under different keys. -/
theorem IsSound.nodup_levelRows (h : level.IsSound delimiter) :
    ((levelRows (ρ := ρ) config level).map fun row => (row.1, row.2.1)).Nodup := by
  rw [levelRows, List.map_map]
  exact h.distinct

/-! ## What the machine makes and answers -/

/-- `findRev?` of `stateItems` finds the entry of `level.state? key`. -/
theorem IsSound.findRev?_stateItems (h : level.IsSound delimiter) :
    (stateItems (ρ := ρ) config level.states).findRev? (·.key == key) =
      (level.state? key).map (stateItem config key) := by
  rw [List.findRev?_eq_find?_reverse]
  cases hfound : (stateItems (ρ := ρ) config level.states).reverse.find? (·.key == key) with
  | none =>
    rw [List.find?_eq_none] at hfound
    cases hstate : level.state? key with
    | none => rfl
    | some state =>
      have hmem : stateItem (ρ := ρ) config key state ∈ stateItems config level.states :=
        mem_stateItems.2 ⟨(key, state), mem_of_state? hstate, rfl⟩
      have hne := hfound _ (List.mem_reverse.2 hmem)
      simp [stateItem_eq, FactoryItem.key] at hne
  | some item =>
    -- Every entry has the key of a declared state, and the keys of states differ.
    obtain ⟨⟨own, state⟩, hentry, rfl⟩ :=
      mem_stateItems.1 (List.mem_reverse.1 (List.mem_of_find?_eq_some hfound))
    have hkey := List.find?_some hfound
    rw [stateItem_eq, FactoryItem.key, beq_iff_eq] at hkey
    obtain rfl : own = key := hkey
    rw [h.state?_of_mem hentry]
    rfl

/-- `createFrom?` of `stateItems` makes `level.state? key`. -/
theorem IsSound.createFrom?_stateItems (h : level.IsSound delimiter) :
    createFrom? (ρ := ρ) (stateItems config level.states) key params =
      (level.state? key).map fun state => statePlan config key state params := by
  rw [createFrom?, h.findRev?_stateItems]
  cases level.state? key with
  | none => rfl
  | some state =>
    rw [Option.map_some, stateItem_eq]
    rfl

/-- **`levelFactory` has a constructor for `key` exactly if `level.state? key` is there.** -/
theorem IsSound.find?_levelFactory (h : level.IsSound delimiter) :
    (levelFactory (ρ := ρ) config level).find? key =
      (level.state? key).map fun state =>
        .made (fun params => some (statePlan config key state params)) state.isFinal := by
  rw [levelFactory, Factory.ofItems, Factory.find?_foldl_file fun _ => isMade_stateItems,
    h.findRev?_stateItems]
  cases level.state? key with
  | none => rfl
  | some state =>
    rw [Option.map_some, stateItem_eq]
    rfl

/-- **`levelFactory` makes `statePlan` of `level.state? key`.** -/
theorem IsSound.create_levelFactory (h : level.IsSound delimiter) :
    (levelFactory (ρ := ρ) config level).create key params =
      (level.state? key).map fun state => statePlan config key state params := by
  rw [levelFactory, Factory.create_ofItems fun _ => isMade_stateItems, h.createFrom?_stateItems]

/-- `levelFactory` contains the keys that `level` declares. -/
theorem contains_levelFactory (h : level.declares key = true) :
    (levelFactory (ρ := ρ) config level).contains key = true := by
  obtain ⟨state, hstate⟩ := Option.isSome_iff_exists.1 h
  have hmem : stateItem (ρ := ρ) config key state ∈ stateItems config level.states :=
    mem_stateItems.2 ⟨(key, state), mem_of_state? hstate, rfl⟩
  have hcontains := Factory.contains_ofItems (fun _ => isMade_stateItems) hmem
  rw [stateItem_eq] at hcontains
  exact hcontains

/-- `levelTable` answers with the transitions of `level`. -/
theorem IsSound.get?_levelTable (h : level.IsSound delimiter) :
    (levelTable (ρ := ρ) config level).get? key event =
      (level.transition? key event).map fun t =>
        levelSpec (stateItems config level.states) t.target := by
  refine Option.ext fun spec => ?_
  rw [levelTable, Table.get?_ofRows h.nodup_levelRows, levelRows, List.mem_map,
    Option.map_eq_some_iff]
  constructor
  · rintro ⟨t, ht, heq⟩
    cases heq
    exact ⟨t, h.transition?_eq_some_iff.2 ⟨ht, rfl, rfl⟩, rfl⟩
  · rintro ⟨t, ht, rfl⟩
    obtain ⟨hmem, rfl, rfl⟩ := h.transition?_eq_some_iff.1 ht
    exact ⟨t, hmem, rfl⟩

/-- **`levelTable` has transitions at `key` exactly if `level.answers key`.** -/
theorem IsSound.hasTransitions_levelTable (h : level.IsSound delimiter) :
    (levelTable (ρ := ρ) config level).hasTransitions key = level.answers key := by
  rw [Bool.eq_iff_iff, Table.hasTransitions_iff, answers, List.any_eq_true]
  constructor
  · rintro ⟨event, spec, hget⟩
    rw [h.get?_levelTable] at hget
    obtain ⟨t, ht, -⟩ := Option.map_eq_some_iff.1 hget
    obtain ⟨hmem, hsource, -⟩ := h.transition?_eq_some_iff.1 ht
    exact ⟨t, hmem, beq_iff_eq.2 hsource⟩
  · rintro ⟨t, hmem, hsource⟩
    rw [beq_iff_eq] at hsource
    refine ⟨t.event, levelSpec (stateItems config level.states) t.target, ?_⟩
    rw [h.get?_levelTable, h.transition?_eq_some_iff.2 ⟨hmem, hsource, rfl⟩]
    rfl

/-- `levelSpec` of a target leads to `statePlan` of the state that it names. -/
theorem IsSound.resolve_levelSpec (h : level.IsSound delimiter) (context : EventContext)
    (target : Target) :
    (levelSpec (stateItems config level.states) target).resolve (levelFactory (ρ := ρ) config level)
        context =
      (target.name? context.event.params).bind fun name =>
        (level.state? name).map fun state => statePlan config name state context.event.params := by
  cases target with
  | key name =>
    rw [levelSpec, Spec.resolve, h.create_levelFactory]
    rfl
  | choose pick =>
    rw [levelSpec, Spec.resolve, Target.name?, Option.bind_eq_bind]
    congr 1
    funext name
    exact h.createFrom?_stateItems

/-- **`levelTable` and `levelFactory` resolve as `level.goal?` does.** -/
theorem IsSound.resolve_levelTable (h : level.IsSound delimiter) (context : EventContext) :
    (((levelTable config level).get? key context.event.key).bind fun spec =>
        spec.resolve (levelFactory (ρ := ρ) config level) context) =
      (level.goal? key context.event.key context.event.params).bind fun target =>
        (level.state? target).map fun state =>
          statePlan config target state context.event.params := by
  rw [h.get?_levelTable, goal?]
  cases level.transition? key context.event.key with
  | none => rfl
  | some t =>
    rw [Option.map_some, Option.bind_some, Option.bind_some, h.resolve_levelSpec]
    cases t.target.name? context.event.params with
    | none => rfl
    | some name =>
      cases hstate : level.state? name with
      | none => simp [Option.filter, declares, hstate]
      | some state => simp [Option.filter, declares, hstate]

/-- `Builder.tableFault?` finds nothing in `levelTable`. -/
theorem IsSound.tableFault?_levelTable (h : level.IsSound delimiter) (lookup : Lookup) :
    Builder.tableFault? (levelFactory (ρ := ρ) config level) (levelTable config level) lookup =
      none := by
  refine Builder.tableFault?_eq_none ?_ ?_
  · intro state event spec hget _
    rw [h.get?_levelTable] at hget
    obtain ⟨t, ht, -⟩ := Option.map_eq_some_iff.1 hget
    obtain ⟨hmem, rfl, -⟩ := h.transition?_eq_some_iff.1 ht
    exact contains_levelFactory (h.source t hmem)
  · intro state event spec hget target htarget
    rw [h.get?_levelTable] at hget
    obtain ⟨t, ht, rfl⟩ := Option.map_eq_some_iff.1 hget
    obtain ⟨hmem, -, -⟩ := h.transition?_eq_some_iff.1 ht
    -- Only a target that is named is checked, and it is declared.
    cases hleads : t.target with
    | key name =>
      rw [hleads] at htarget
      cases htarget
      exact contains_levelFactory (h.target t hmem _ hleads)
    | choose pick =>
      rw [hleads] at htarget
      cases htarget

/-- **`MachinePlan.realise` of `level.machinePlan`** is `StatePlan.realise` of the initial state and
then `Act.found` with the parts of the level. -/
theorem IsSound.realise_machinePlan (h : level.IsSound delimiter) (host : Host ρ γ)
    {state : StateDef} (hinitial : level.initial? = some key)
    (hstate : level.state? key = some state) :
    (level.machinePlan config).realise host = (do
      match ← (statePlan config key state []).realise host with
      | none => return .error (.build (.unknownInitialState key))
      | some initial =>
        Act.found ⟨initial, levelFactory config level, levelTable config level,
          levelConfig config⟩ : Act ρ γ (Except StartError Link)) := by
  have hfault : Builder.tableFault? (levelFactory (ρ := ρ) config level) (levelTable config level)
      (levelConfig config).lookup = none := h.tableFault?_levelTable _
  rw [machinePlan_eq, MachinePlan.realise_eq host (fun _ => isMade_stateItems) h.nodup_levelRows
    hfault, hinitial, Option.getD_some, h.createFrom?_stateItems, hstate, Option.map_some,
    realiseInitial]
  rfl

end Definition

end Statechart
