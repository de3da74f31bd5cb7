import Statechart.Flat.Machine
import Statechart.Proofs.Flat.Answers
import Statechart.Proofs.Parts
import Statechart.Proofs.World.Stands
import Statechart.World.Hierarchy

/-! # The machine of a flat form

The machine that runs a flat form makes the leaves of the definition and looks for answers under
the path of its leaf, then under those of the composites around it. Nothing is made inside its
states, so what it finds out leaves the world as it is.

* `Definition.leafState`: the state of the leaf that keys lead to.
* **`FlatDefinition.get?_table`**, `FlatDefinition.Renders.create_factory`: the parts of the
  machine.
* `FlatDefinition.Lands`: a flat form starts in a leaf, and its answers lead to leaves.
* `FlatDefinition.Lands.exists_realise_machinePlan`: what following its plan comes down to.
* **`FlatDefinition.Mirrors.firstMade_fronts`**: looking outward from a leaf follows
  `Definition.offer?`. -/

namespace Statechart

variable {ρ γ : Type}

/-! ## Leaves as states -/

/-- `StatePlan.realise` of a plan without a child makes the state and nothing else. -/
theorem StatePlan.realise_plain (host : Host ρ γ) (key : String) (data : Value) (isFinal : Bool) :
    (StatePlan.plain key data isFinal).realise host =
      (pure (some { key, data, isFinal }) : Act ρ γ (Option State)) := by
  rw [StatePlan.plain, StatePlan.realise, realiseChild, pure_bind]
  rfl

/-- **The state of the leaf at `keys`**, entered with `params`. -/
def Definition.leafState (delimiter : String) (d : Definition) (keys : List String)
    (params : Params) : State where
  key := delimiter.intercalate keys
  data := (((StateDef.composite d).at? keys).map (·.data params)).getD .null
  isFinal := (((StateDef.composite d).at? keys).map (·.isFinal)).getD false

/-- `d.leafState` where `StateDef.at?` finds a leaf. -/
theorem Definition.leafState_of_at? {delimiter : String} {d : Definition} {keys : List String}
    {params : Params} {l : LeafDef} (h : (StateDef.composite d).at? keys = some (.leaf l)) :
    d.leafState delimiter keys params =
      { key := delimiter.intercalate keys, data := l.data params, isFinal := l.isFinal } := by
  rw [leafState, h]
  rfl

namespace FlatDefinition

variable {delimiter : String} {d level : Definition} {keys keys' : List String} {key : String}
  {flat : FlatDefinition} {event : EventKey} {params : Params} {l : LeafDef} {depth : Nat}
  {host : Host ρ γ} {policy : TerminalPolicy}

/-! ## The parts of the machine -/

/-- The factory items that make `flat.leaves`. -/
def items (flat : FlatDefinition) : List (FactoryItem (StatePlan ρ)) :=
  flat.leaves.map FlatLeaf.item

/-- The table rows of `flat.transitions`. -/
def rows (flat : FlatDefinition) : List (String × EventKey × Spec (StatePlan ρ)) :=
  flat.transitions.toList.map fun entry =>
    (entry.1.source, entry.1.event, flat.spec entry.2)

/-- The factory of the machine of `flat`. -/
def factory (flat : FlatDefinition) : Factory (StatePlan ρ) :=
  let items : List (FactoryItem (StatePlan ρ)) := flat.items
  .ofItems items (nothingMade items)

/-- The table of the machine of `flat`. -/
def table (flat : FlatDefinition) : Table (StatePlan ρ) := .ofRows flat.rows

/-- `flat.machinePlan` lists `flat.items` and `flat.rows`. -/
theorem machinePlan_eq (flat : FlatDefinition) (config : FlattenConfig) :
    flat.machinePlan config =
      (⟨.ok (machineConfig config), flat.items,
        flat.rows.map fun row => ⟨row.1, .key row.2.1, row.2.2⟩,
        some flat.initial, none, [], none⟩ : MachinePlan ρ) := by
  rw [machinePlan, rows, List.map_map]
  rfl

/-- `flat.items` are made each time (`FactoryItem.IsMade`). -/
theorem isMade_items {item : FactoryItem (StatePlan ρ)} (h : item ∈ flat.items) : item.IsMade := by
  obtain ⟨leaf, -, rfl⟩ := List.mem_map.1 h
  exact ⟨_, _, _, rfl⟩

/-- `flat.rows` are filed under different keys. -/
theorem nodup_rows (flat : FlatDefinition) :
    ((flat.rows (ρ := ρ)).map fun row => (row.1, row.2.1)).Nodup := by
  rw [rows, List.map_map, List.nodup_iff_pairwise_ne, List.pairwise_map]
  refine Std.ExtTreeMap.distinct_keys_toList.imp ?_
  intro a b hne heq
  rw [Function.comp_apply, Function.comp_apply, Prod.mk.injEq] at heq
  obtain ⟨⟨source, event⟩, target⟩ := a
  obtain ⟨⟨source', event'⟩, target'⟩ := b
  obtain ⟨rfl, rfl⟩ := heq
  exact hne Std.ReflCmp.compare_self

/-- **`flat.table` answers as `flat.target?` does.** -/
theorem get?_table : (flat.table (ρ := ρ)).get? key event =
    (flat.target? key event).map flat.spec := by
  refine Option.ext fun spec => ?_
  rw [table, Table.get?_ofRows flat.nodup_rows, rows, List.mem_map, Option.map_eq_some_iff]
  constructor
  · rintro ⟨⟨handler, target⟩, hmem, heq⟩
    cases heq
    exact ⟨target, Std.ExtTreeMap.mem_toList_iff_getElem?_eq_some.1 hmem, rfl⟩
  · rintro ⟨target, htarget, rfl⟩
    exact ⟨(⟨key, event⟩, target), Std.ExtTreeMap.mem_toList_iff_getElem?_eq_some.2 htarget, rfl⟩

/-! ## What the machine makes -/

/-- **`flat` lands in leaves**: `flat.initial` is the path of one, and so is every `.path` of
`flat.target?`. -/
structure Lands (flat : FlatDefinition) : Prop where
  initial : ∃ leaf ∈ flat.leaves, leaf.path = flat.initial
  target : ∀ source event path, flat.target? source event = some (.path path) →
    ∃ leaf ∈ flat.leaves, leaf.path = path

/-- `Renders` gives `Lands`. -/
theorem Renders.lands (h : flat.Renders delimiter d) : flat.Lands := by
  constructor
  · obtain ⟨l, hl⟩ := h.orderly.standsAt_startKeys
    exact ⟨_, (h.mem_leaves_iff _).2 ⟨_, l, hl, rfl⟩, h.initial_eq.symm⟩
  · intro source event path htarget
    obtain ⟨keys, ⟨l, hl⟩, rfl⟩ := h.standsAt source event path htarget
    exact ⟨_, (h.mem_leaves_iff _).2 ⟨keys, l, hl, rfl⟩, rfl⟩

/-- `flat.factory` contains the paths of `flat.leaves`. -/
theorem contains_factory_of_leaf {leaf : FlatLeaf} (hleaf : leaf ∈ flat.leaves) :
    (flat.factory (ρ := ρ)).contains leaf.path = true := by
  have hmem : leaf.item ∈ flat.items (ρ := ρ) := List.mem_map_of_mem hleaf
  exact Factory.contains_ofItems (fun _ => isMade_items) hmem

/-- `createFrom?` of `flat.items` makes a leaf of `path`. -/
theorem exists_of_createFrom?_items {path : String} {params : Params} {plan : StatePlan ρ}
    (h : Definition.createFrom? flat.items path params = some plan) :
    ∃ leaf ∈ flat.leaves, leaf.path = path ∧ plan = leaf.plan params := by
  rw [Definition.createFrom?] at h
  cases hfound : (flat.items (ρ := ρ)).findRev? (·.key == path) with
  | none =>
    rw [hfound] at h
    cases h
  | some item =>
    have hitem := hfound
    rw [List.findRev?_eq_find?_reverse] at hitem
    obtain ⟨leaf, hleaf, rfl⟩ :=
      List.mem_map.1 (List.mem_reverse.1 (List.mem_of_find?_eq_some hitem))
    have hkey := List.find?_some hitem
    rw [hfound] at h
    cases h
    exact ⟨leaf, hleaf, beq_iff_eq.1 hkey, rfl⟩

/-- `createFrom?` of `flat.items` makes something for the path of a leaf. -/
theorem isSome_createFrom?_items {leaf : FlatLeaf} (hleaf : leaf ∈ flat.leaves) (params : Params) :
    (Definition.createFrom? (flat.items (ρ := ρ)) leaf.path params).isSome := by
  rw [Definition.createFrom?]
  cases hfound : (flat.items (ρ := ρ)).findRev? (·.key == leaf.path) with
  | none =>
    rw [List.findRev?_eq_find?_reverse, List.find?_eq_none] at hfound
    have hmem : leaf.item ∈ (flat.items (ρ := ρ)).reverse :=
      List.mem_reverse.2 (List.mem_map_of_mem hleaf)
    exact absurd (hfound _ hmem) (by simp [FlatLeaf.item, FactoryItem.key])
  | some item =>
    rw [List.findRev?_eq_find?_reverse] at hfound
    obtain ⟨made, -, rfl⟩ :=
      List.mem_map.1 (List.mem_reverse.1 (List.mem_of_find?_eq_some hfound))
    rfl

/-- `createFrom?` of `flat.items` makes one of the leaves of the path. -/
theorem exists_createFrom?_items {leaf : FlatLeaf} (hleaf : leaf ∈ flat.leaves) (params : Params) :
    ∃ made ∈ flat.leaves, made.path = leaf.path ∧
      Definition.createFrom? (flat.items (ρ := ρ)) leaf.path params = some (made.plan params) := by
  obtain ⟨plan, hplan⟩ := Option.isSome_iff_exists.1 (isSome_createFrom?_items hleaf params)
  obtain ⟨made, hmade, hpath, rfl⟩ := exists_of_createFrom?_items hplan
  exact ⟨made, hmade, hpath, hplan⟩

/-- `Builder.tableFault?` finds nothing in `flat.table`. -/
theorem Lands.tableFault?_table (h : flat.Lands) (delimiter : String) :
    Builder.tableFault? (flat.factory (ρ := ρ)) flat.table (.ancestors delimiter) = none := by
  refine Builder.tableFault?_eq_none ?_ ?_
  · intro state event spec _ hlookup
    cases hlookup
  · intro state event spec hget target htarget
    rw [get?_table] at hget
    obtain ⟨leads, hleads, rfl⟩ := Option.map_eq_some_iff.1 hget
    cases leads with
    | choose scope pick => cases htarget
    | path path =>
      obtain ⟨leaf, hleaf, rfl⟩ := h.target state event path hleads
      cases htarget
      exact contains_factory_of_leaf hleaf

/-- **`MachinePlan.realise` of `flat.machinePlan` is `Act.found`** of a machine in a leaf of the
path `flat.initial`. -/
theorem Lands.exists_realise_machinePlan (h : flat.Lands) (config : FlattenConfig)
    (host : Host ρ γ) : ∃ leaf ∈ flat.leaves, leaf.path = flat.initial ∧
      (flat.machinePlan config).realise host = (Act.found
        ⟨{ key := leaf.path, data := leaf.leaf.data [], isFinal := leaf.leaf.isFinal },
          flat.factory, flat.table, machineConfig config⟩ :
        Act ρ γ (Except StartError Link)) := by
  obtain ⟨leaf, hleaf, hinitial⟩ := h.initial
  obtain ⟨made, hmem, hmade, hcreate⟩ := exists_createFrom?_items (ρ := ρ) hleaf []
  have hfault : Builder.tableFault? (flat.factory (ρ := ρ)) flat.table
      (machineConfig config).lookup = none := h.tableFault?_table config.delimiter
  refine ⟨made, hmem, hmade.trans hinitial, ?_⟩
  rw [machinePlan_eq, MachinePlan.realise_eq host (fun _ => isMade_items) flat.nodup_rows hfault,
    ← hinitial, hcreate, FlatLeaf.plan, realiseInitial, StatePlan.realise_plain, pure_bind]
  rfl

/-- The leaf that `StateDef.at?` finds is the only one of its path. -/
theorem Renders.eq_of_mem_leaves (h : flat.Renders delimiter d) {leaf : FlatLeaf}
    (hleaf : leaf ∈ flat.leaves) (hpath : leaf.path = delimiter.intercalate keys)
    (hat : (StateDef.composite d).at? keys = some (.leaf l)) :
    leaf = ⟨delimiter.intercalate keys, l⟩ := by
  obtain ⟨keys', l', hat', rfl⟩ := (h.mem_leaves_iff leaf).1 hleaf
  obtain rfl : keys' = keys := Path.intercalate_inj (h.orderly.delimits h.one hat')
    (h.orderly.delimits h.one hat) (Definition.StandsAt.ne_nil ⟨l', hat'⟩)
    (Definition.StandsAt.ne_nil ⟨l, hat⟩) hpath
  rw [hat'] at hat
  cases hat
  rfl

/-- `createFrom?` of `flat.items` makes the leaf that `StateDef.at?` finds. -/
theorem Renders.createFrom?_items (h : flat.Renders delimiter d)
    (hat : (StateDef.composite d).at? keys = some (.leaf l)) :
    Definition.createFrom? flat.items (delimiter.intercalate keys) params =
      some (StatePlan.plain (ρ := ρ) (delimiter.intercalate keys) (l.data params) l.isFinal) := by
  have hmem := (h.mem_leaves_iff _).2 ⟨keys, l, hat, rfl⟩
  obtain ⟨made, hmade, hpath, hcreate⟩ := exists_createFrom?_items hmem params
  rw [h.eq_of_mem_leaves hmade hpath hat] at hcreate
  exact hcreate

/-- **`flat.factory` makes the leaf that `StateDef.at?` finds.** -/
theorem Renders.create_factory (h : flat.Renders delimiter d)
    (hat : (StateDef.composite d).at? keys = some (.leaf l)) :
    flat.factory.create (delimiter.intercalate keys) params =
      some (StatePlan.plain (ρ := ρ) (delimiter.intercalate keys) (l.data params) l.isFinal) := by
  rw [factory, Factory.create_ofItems fun _ => isMade_items, h.createFrom?_items hat]

/-- **`MachinePlan.realise` of `flat.machinePlan` is `Act.found`** of a machine in `d.leafState` of
`d.startKeys`. -/
theorem Renders.realise_machinePlan {config : FlattenConfig} (h : flat.Renders config.delimiter d)
    (host : Host ρ γ) :
    (flat.machinePlan config).realise host =
      (Act.found ⟨d.leafState config.delimiter d.startKeys [], flat.factory, flat.table,
        machineConfig config⟩ : Act ρ γ (Except StartError Link)) := by
  obtain ⟨l, hl⟩ := h.orderly.standsAt_startKeys
  obtain ⟨leaf, hleaf, hpath, hrealise⟩ := h.lands.exists_realise_machinePlan config host
  rw [hrealise, h.eq_of_mem_leaves hleaf (hpath.trans h.initial_eq) hl,
    Definition.leafState_of_at? hl]

/-! ## Looking outward from a leaf -/

/-- `flat.target?` under the path of an active state is `d.move?`. -/
theorem Mirrors.target?_take (h : flat.Mirrors delimiter d) (hstands : d.StandsAt keys)
    (hdepth : depth < keys.length) (params : Params) :
    flat.target? (delimiter.intercalate (keys.take (depth + 1))) event =
      (d.move? keys depth event params).map fun keys' => .path (delimiter.intercalate keys') := by
  have hkey := List.getElem?_eq_getElem hdepth
  obtain ⟨level, state, hlevel, hstate, -⟩ := hstands.level? hkey
  have hdeclared : level.declares keys[depth] = true := Option.isSome_iff_exists.2 ⟨state, hstate⟩
  rw [List.take_add_one, hkey, Option.toList_some,
    h.target?_eq hlevel hdeclared event params,
    Definition.move?_of_level? hlevel hkey, Option.map_map]
  rfl

/-- `flat.table` has transitions at the path of a state exactly if `level.answers key`. -/
theorem Mirrors.hasTransitions_table (h : flat.Mirrors delimiter d)
    (hlevel : d.level? keys = some level) (hkey : level.declares key = true) :
    (flat.table (ρ := ρ)).hasTransitions (delimiter.intercalate (keys ++ [key])) =
      level.answers key := by
  -- Under the path of a declared state the table has what its level leads to.
  have hgoal := fun event => h.target?_eq hlevel hkey event []
  rw [Bool.eq_iff_iff, Table.hasTransitions_iff, Definition.answers, List.any_eq_true]
  constructor
  · rintro ⟨event, spec, hget⟩
    rw [get?_table, hgoal, Option.map_map] at hget
    obtain ⟨target, htarget, -⟩ := Option.map_eq_some_iff.1 hget
    obtain ⟨t, ht, -⟩ := (h.sound.level? hlevel).exists_of_goal?
      (fun _ => h.literal.exists_name (Definition.mem_levels_of_level? hlevel)) htarget
    obtain ⟨hmem, hsource, -⟩ := (h.sound.level? hlevel).transition?_eq_some_iff.1 ht
    exact ⟨t, hmem, beq_iff_eq.2 hsource⟩
  · rintro ⟨t, hmem, hsource⟩
    rw [beq_iff_eq] at hsource
    obtain ⟨name, hname⟩ := h.literal.exists_name (Definition.mem_levels_of_level? hlevel) hmem
    have ht := (h.sound.level? hlevel).transition?_eq_some_iff.2 ⟨hmem, hsource, rfl⟩
    refine ⟨t.event, flat.spec (.path (delimiter.intercalate (keys ++ level.enteredKeys name))), ?_⟩
    rw [get?_table, hgoal, (h.sound.level? hlevel).goal?_eq ht hname]
    rfl

/-- The rows of `flat.table` under `paths`, in the order of `paths`. -/
def candidatesAt (flat : FlatDefinition) (event : EventKey) (paths : List String) :
    List (String × Spec (StatePlan ρ)) :=
  paths.filterMap fun path => (flat.table.get? path event).map (path, ·)

/-- **`Act.firstMade` of the path of an active state follows `d.move?`**, and goes on if that is
`none`. -/
theorem Mirrors.firstMade_cons (h : flat.Mirrors delimiter d)
    (hstands : d.StandsAt keys) (hdepth : depth < keys.length)
    (context : EventContext) (paths : List String) :
    Act.firstMade host flat.factory context
        (flat.candidatesAt context.event.key
          (delimiter.intercalate (keys.take (depth + 1)) :: paths)) =
      (match d.move? keys depth context.event.key context.event.params with
        | some keys' => pure (some (delimiter.intercalate (keys.take (depth + 1)),
            d.leafState delimiter keys' context.event.params))
        | none => Act.firstMade host flat.factory context
            (flat.candidatesAt context.event.key paths) :
        Act ρ γ (Option (String × State))) := by
  rw [candidatesAt, List.filterMap_cons, get?_table,
    h.target?_take hstands hdepth context.event.params]
  cases hmove : d.move? keys depth context.event.key context.event.params with
  | none => rfl
  | some keys' =>
    obtain ⟨l, hl⟩ := Definition.StandsAt.of_move? h.sound hmove
    simp only [Option.map_some, Act.firstMade]
    rw [spec, Spec.resolve, h.create_factory hl]
    simp only [StatePlan.realise_plain, pure_bind]
    rw [Definition.leafState_of_at? hl]

/-- `Act.firstMade` of the path of one active state is `d.move?`. -/
theorem Mirrors.firstMade_single (h : flat.Mirrors delimiter d) (hstands : d.StandsAt keys)
    (hdepth : depth < keys.length) (context : EventContext) :
    Act.firstMade host flat.factory context
        (flat.candidatesAt context.event.key [delimiter.intercalate (keys.take (depth + 1))]) =
      (pure ((d.move? keys depth context.event.key context.event.params).map fun keys' =>
        (delimiter.intercalate (keys.take (depth + 1)),
          d.leafState delimiter keys' context.event.params)) :
        Act ρ γ (Option (String × State))) := by
  rw [h.firstMade_cons hstands hdepth]
  cases d.move? keys depth context.event.key context.event.params with
  | none => rfl
  | some keys' => rfl

/-- **`Act.firstMade` under `Path.fronts keys depth` follows `d.offer?`**, by induction on
`depth`. -/
theorem Mirrors.firstMade_fronts (h : flat.Mirrors delimiter d)
    (hstands : d.StandsAt keys) (hdepth : depth < keys.length)
    (context : EventContext) :
    Act.firstMade host flat.factory context
        (flat.candidatesAt context.event.key
          ((Path.fronts keys depth).map delimiter.intercalate)) =
      (pure ((d.offer? keys context.event.key context.event.params depth).map fun found =>
        (delimiter.intercalate (keys.take (found.1 + 1)),
          d.leafState delimiter found.2 context.event.params)) :
        Act ρ γ (Option (String × State))) := by
  induction depth with
  | zero =>
    rw [Path.fronts, List.map_cons, List.map_nil, h.firstMade_single hstands hdepth,
      Definition.offer?, Option.map_map]
    rfl
  | succ depth ih =>
    rw [Path.fronts, List.map_cons, h.firstMade_cons hstands hdepth, Definition.offer?,
      ih (by omega)]
    cases d.move? keys (depth + 1) context.event.key context.event.params with
    | none => rfl
    | some keys' => rfl

end FlatDefinition

/-! ## What the machine answers -/

/-- **`m` runs `flat`**: its parts are those of the machine of `flat`. -/
structure Machine.RunsFlat (m : Machine (StatePlan ρ)) (flat : FlatDefinition)
    (config : FlattenConfig) : Prop where
  factory : m.factory = flat.factory
  table : m.table = flat.table
  settings : m.config = FlatDefinition.machineConfig config

section RunsFlat

variable {host : Host ρ γ} {w : World ρ γ} {link : Link} {m : Machine (StatePlan ρ)}
  {flat : FlatDefinition} {config : FlattenConfig} {event : Event} {paths : List String}

/-- The lookup of `m` is `.ancestors config.delimiter`. -/
theorem Machine.RunsFlat.lookup_eq (h : m.RunsFlat flat config) :
    m.config.lookup = .ancestors config.delimiter := by
  rw [h.settings]
  rfl

/-- `RunsFlat` for another queue. -/
theorem Machine.RunsFlat.setPending (h : m.RunsFlat flat config) (pending : List Event) :
    RunsFlat { m with pending } flat config :=
  ⟨h.factory, h.table, h.settings⟩

/-- `Machine.commit` keeps `RunsFlat`. -/
theorem Machine.RunsFlat.commit (h : m.RunsFlat flat config) (change : Change) :
    (m.commit change).RunsFlat flat config :=
  ⟨h.factory, h.table, h.settings⟩

/-- **`m.lookupKeys?` of a domain event** are the paths of `Path.fronts keys`. -/
theorem Machine.RunsFlat.lookupKeys?_domain {keys : List String} (h : m.RunsFlat flat config)
    (hdelimits : Path.Delimits config.delimiter keys) (hne : keys ≠ [])
    (hcurrent : m.current.state.key = config.delimiter.intercalate keys) (name : String)
    (params : Params) : m.lookupKeys? (.domain name params) =
      some ((Path.fronts keys (keys.length - 1)).map config.delimiter.intercalate) := by
  have hlast : keys.length - 1 + 1 = keys.length :=
    Nat.succ_pred_eq_of_pos (List.length_pos_iff.2 hne)
  rw [Machine.lookupKeys?, h.lookup_eq, hcurrent]
  exact Path.ancestors?_intercalate hdelimits hlast

/-- `Act.resolve` gives what `Act.firstMade` finds under `m.lookupKeys?`. -/
theorem Act.resolve_eq (hm : w.machine? link = some m) (h : m.RunsFlat flat config)
    (hnamed : event.isMisnamed = false) (hkeys : m.lookupKeys? event = some paths)
    {found? : Option (String × State)}
    (hfound : firstMade host flat.factory ⟨event, m.current.state⟩
      (flat.candidatesAt event.key paths) = pure found?) :
    (resolve host link event).run w = some (found?.map fun found =>
      { event, source := m.current, target := found.2, matched := found.1 }, w) := by
  have hcandidates : m.candidates? event = some (flat.candidatesAt event.key paths) := by
    rw [Machine.candidates?, hkeys, h.table]
    rfl
  rw [resolve]
  show (StateT.run (get >>= _) w) = _
  rw [StateT.run_bind, StateT.run_get]
  simp only [Option.pure_def, Option.bind_eq_bind, Option.bind_some, hm, hnamed, hcandidates,
    Bool.false_eq_true, if_false, h.factory, hfound, pure_bind]
  rfl

/-- **`Act.startFlat` puts `Machine.start` into the world**, in `d.leafState` of `d.startKeys`. -/
theorem Act.ends_startFlat_machine {d : Definition} (hflat : flat.Renders config.delimiter d)
    (host : Host ρ γ) (w : World ρ γ) :
    Ends (startFlat host flat config) w fun result w' => ∃ link, result = .ok link ∧
      w'.machine? link = some (Machine.start (.minted w.minted)
        ⟨d.leafState config.delimiter d.startKeys [], flat.factory, flat.table,
          FlatDefinition.machineConfig config⟩) := by
  rw [startFlat, hflat.realise_machinePlan]
  refine (ends_found host).mono ?_
  rintro _ w' ⟨rfl, -, -, hm⟩
  exact ⟨_, rfl, hm⟩

end RunsFlat

end Statechart
