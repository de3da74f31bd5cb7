import Statechart.Proofs.Definition.Resolution
import Statechart.Proofs.Flat.Machine

/-! # One step of a flat form

A nested definition answers an event from the inside outward: the level around the leaf comes first,
then the levels further out. A level that has no transition for the event is passed over, and so is
one that leaves the choice of a target to the event if the event chooses none.

The machine of a flat form knows nothing of levels. It looks under the paths of its leaf and of the
ancestors of this path, and comes to the same answer.

* **`Definition.answer?`**: the answer of a nested definition, from the inside outward.
* `Definition.Finds`: what is found of an event by this answer.
* **`FlatDefinition.Renders.finds_fronts`**: looking under the paths of a leaf comes to it.
* **`Definition.flat_resolves_as_nested`**: the machine of a flat form finds out what the definition
  says. -/

namespace Statechart

variable {ρ γ : Type} {delimiter : String} {d level : Definition} {keys keys' : List String}
  {key path : String} {depth : Nat} {event : EventKey} {params : Params} {l : LeafDef}
  {flat : FlatDefinition} {host : Host ρ γ}

/-! ## The answer of the nested definition -/

/-- **The leaf that `target` leads to**, seen from `scope`, for `params`. -/
def Target.leaf? (index : PathIndex) (scope : Option String) (params : Params) (target : Target) :
    Option String :=
  (target.name? params).bind (index.resolve scope)

namespace Definition

/-- The leaf that the level at `keys.take depth` leads to from `keys[depth]`. -/
def leadsTo? (delimiter : String) (d : Definition) (keys : List String) (event : EventKey)
    (params : Params) (depth : Nat) : Option String :=
  match d.level? (keys.take depth), keys[depth]? with
  | some level, some key => (level.transition? key event).bind fun t =>
      t.target.leaf? (.ofDefinition delimiter d) (Path.scope? delimiter (keys.take depth)) params
  | _, _ => none

/-- The first leaf that `leadsTo?` finds at a depth below `bound`, the greatest depth first. -/
def answerWithin? (delimiter : String) (d : Definition) (keys : List String) (event : EventKey)
    (params : Params) (bound : Nat) : Option (Nat × String) :=
  (List.range bound).reverse.findSome? fun depth =>
    (d.leadsTo? delimiter keys event params depth).map (depth, ·)

/-- **The answer of `d` at `keys`**: the first leaf that `leadsTo?` finds, from the inside outward,
with its depth. -/
def answer? (delimiter : String) (d : Definition) (keys : List String) (event : EventKey)
    (params : Params) : Option (Nat × String) :=
  d.answerWithin? delimiter keys event params keys.length

/-- **`found?` is what `answer?` says**: nothing without an answer, and else the leaf of its path,
made from `params`, with the path of the state that answers. -/
def Finds (delimiter : String) (d : Definition) (keys : List String) (params : Params)
    (answer? : Option (Nat × String)) (found? : Option (String × State)) : Prop :=
  match answer? with
  | none => found? = none
  | some (depth, path) => ∃ keys' l, (StateDef.composite d).at? keys' = some (.leaf l) ∧
      path = delimiter.intercalate keys' ∧
      found? = some (delimiter.intercalate (keys.take (depth + 1)),
        { key := path, data := l.data params, isFinal := l.isFinal })

/-- `Finds` gives the leaf that `StateDef.at?` finds. -/
theorem Finds.eq_of_at? {found? : Option (String × State)}
    (h : d.Finds delimiter keys params (some (depth, delimiter.intercalate keys')) found?)
    (hd : d.Orderly delimiter) (hone : delimiter.length = 1)
    (hat : (StateDef.composite d).at? keys' = some (.leaf l)) :
    found? = some (delimiter.intercalate (keys.take (depth + 1)),
      { key := delimiter.intercalate keys', data := l.data params, isFinal := l.isFinal }) := by
  obtain ⟨keys'', l', hat', hpath, rfl⟩ := h
  obtain rfl : keys' = keys'' := Path.intercalate_inj (hd.delimits hone hat)
    (hd.delimits hone hat') (StandsAt.ne_nil ⟨l, hat⟩) (StandsAt.ne_nil ⟨l', hat'⟩) hpath
  rw [hat] at hat'
  cases hat'
  rfl

/-- `answerWithin?` up to `depth + 1` asks the level at `depth` first. -/
theorem answerWithin?_succ (delimiter : String) (d : Definition) (keys : List String)
    (event : EventKey) (params : Params) (depth : Nat) :
    d.answerWithin? delimiter keys event params (depth + 1) =
      match d.leadsTo? delimiter keys event params depth with
      | some path => some (depth, path)
      | none => d.answerWithin? delimiter keys event params depth := by
  simp only [answerWithin?, List.range_succ, List.reverse_append, List.reverse_singleton,
    List.singleton_append, List.findSome?_cons]
  cases d.leadsTo? delimiter keys event params depth <;> rfl

/-- `leadsTo?` where the level and the key are known. -/
theorem leadsTo?_of_level? (hlevel : d.level? (keys.take depth) = some level)
    (hkey : keys[depth]? = some key) :
    d.leadsTo? delimiter keys event params depth = (level.transition? key event).bind fun t =>
      t.target.leaf? (.ofDefinition delimiter d) (Path.scope? delimiter (keys.take depth))
        params := by
  simp [leadsTo?, hlevel, hkey]

/-- **`leadsTo?` gives the path of a leaf of `d`.** -/
theorem Orderly.exists_of_leadsTo? (h : d.Orderly delimiter) (hone : delimiter.length = 1)
    (hleads : d.leadsTo? delimiter keys event params depth = some path) :
    ∃ keys' l, (StateDef.composite d).at? keys' = some (.leaf l) ∧
      path = delimiter.intercalate keys' := by
  unfold leadsTo? at hleads
  split at hleads
  · obtain ⟨t, -, hleaf⟩ := Option.bind_eq_some_iff.1 hleads
    obtain ⟨name, -, hresolve⟩ := Option.bind_eq_some_iff.1 hleaf
    exact PathIndex.exists_leaf_of_resolve h hone hresolve
  · cases hleads

end Definition

/-! ## The answer of the flat form -/

namespace FlatDefinition

/-- `flat.create?` makes the leaf of a path. -/
theorem Renders.create?_eq (h : flat.Renders delimiter d)
    (hat : (StateDef.composite d).at? keys = some (.leaf l)) :
    flat.create? (delimiter.intercalate keys) params =
      some (StatePlan.plain (ρ := ρ) (delimiter.intercalate keys) (l.data params) l.isFinal) := by
  have hmem : (⟨delimiter.intercalate keys, l⟩ : FlatLeaf) ∈ flat.leaves :=
    (h.mem_leaves_iff _).2 ⟨keys, l, hat, rfl⟩
  unfold create?
  rw [List.findRev?_eq_find?_reverse]
  cases hfind : flat.leaves.reverse.find? (·.path == delimiter.intercalate keys) with
  | none =>
    have hne := List.find?_eq_none.1 hfind _ (List.mem_reverse.2 hmem)
    simp at hne
  | some leaf =>
    have hpath : leaf.path = delimiter.intercalate keys := by
      simpa using List.find?_some hfind
    have hleaf := List.mem_reverse.1 (List.mem_of_find?_eq_some hfind)
    rw [h.eq_of_mem_leaves hleaf hpath hat]
    rfl

/-- **What `flat.table` has under the path of a declared state resolves to `Target.leaf?` of its
transition.** -/
theorem Renders.resolve_filed (h : flat.Renders delimiter d) (hlevel : d.level? keys = some level)
    (hkey : level.declares key = true) (context : EventContext) :
    ((flat.table (ρ := ρ)).get? (delimiter.intercalate (keys ++ [key])) event).bind
        (·.resolve flat.factory context) =
      ((level.transition? key event).bind fun t => t.target.leaf? flat.index
        (Path.scope? delimiter keys) context.event.params).bind fun path =>
          flat.factory.create path context.event.params := by
  rw [get?_table, h.filed keys level key event hlevel hkey]
  cases ht : level.transition? key event with
  | none => rfl
  | some t =>
    cases htarget : t.target with
    | key name =>
      simp only [Option.bind_some, leads?, Target.leaf?, htarget, Target.name?]
      cases flat.index.resolve (Path.scope? delimiter keys) name <;> rfl
    | choose pick =>
      simp only [Option.bind_some, leads?, Target.leaf?, htarget, Target.name?, Option.map_some,
        spec, Spec.resolve]
      cases hpick : pick context.event.params with
      | none => rfl
      | some name =>
        cases hresolve : flat.index.resolve (Path.scope? delimiter keys) name with
        | none => simp [resolve, hresolve]
        | some path =>
          -- A choice makes its leaf by itself, and the factory makes the same one.
          rw [h.index_eq] at hresolve
          obtain ⟨keys', l, hat, rfl⟩ := PathIndex.exists_leaf_of_resolve h.orderly h.one hresolve
          rw [← h.index_eq] at hresolve
          simp [resolve, hresolve, h.create?_eq hat, h.create_factory hat]

/-- `Act.firstMade` of the first path, if it resolves to a plan without a child. -/
theorem firstMade_cons_of_plain {context : EventContext} {paths : List String} {data : Value}
    {isFinal : Bool}
    (h : (flat.table.get? path context.event.key).bind (·.resolve flat.factory context) =
      some (StatePlan.plain (ρ := ρ) key data isFinal)) :
    Act.firstMade host flat.factory context (flat.candidatesAt context.event.key (path :: paths)) =
      (pure (some (path, { key, data, isFinal })) : Act ρ γ (Option (String × State))) := by
  obtain ⟨spec, hspec, hplan⟩ := Option.bind_eq_some_iff.1 h
  simp only [candidatesAt, List.filterMap_cons, hspec, Option.map_some, Act.firstMade, hplan,
    StatePlan.realise_plain, pure_bind]

/-- `Act.firstMade` passes over a path that resolves to nothing. -/
theorem firstMade_cons_of_none {context : EventContext} {paths : List String}
    (h : ((flat.table (ρ := ρ)).get? path context.event.key).bind
      (·.resolve flat.factory context) = none) :
    (Act.firstMade host flat.factory context
        (flat.candidatesAt context.event.key (path :: paths)) : Act ρ γ _) =
      Act.firstMade host flat.factory context (flat.candidatesAt context.event.key paths) := by
  cases hget : (flat.table (ρ := ρ)).get? path context.event.key with
  | none => simp [candidatesAt, hget]
  | some spec =>
    have hplan : spec.resolve flat.factory context = none := by simpa [hget] using h
    simp [candidatesAt, hget, Act.firstMade, hplan]

/-- What `flat.table` has under the path of an active state resolves to `leadsTo?`. -/
theorem Renders.resolve_front (h : flat.Renders delimiter d) (hstands : d.StandsAt keys)
    (hdepth : depth < keys.length) (context : EventContext) :
    ((flat.table (ρ := ρ)).get? (delimiter.intercalate (keys.take (depth + 1)))
        context.event.key).bind (·.resolve flat.factory context) =
      (d.leadsTo? delimiter keys context.event.key context.event.params depth).bind fun path =>
        flat.factory.create path context.event.params := by
  have hkey := List.getElem?_eq_getElem hdepth
  obtain ⟨level, state, hlevel, hstate, -⟩ := hstands.level? hkey
  have hdeclared : level.declares keys[depth] = true := Option.isSome_iff_exists.2 ⟨state, hstate⟩
  rw [List.take_add_one, hkey, Option.toList_some, h.resolve_filed hlevel hdeclared,
    Definition.leadsTo?_of_level? hlevel hkey, h.index_eq]

/-- `Finds` goes from `answerWithin?` up to `depth` to `depth + 1` with the path of the state at
`depth` in front. -/
theorem Renders.finds_cons (h : flat.Renders delimiter d) (hstands : d.StandsAt keys)
    (hdepth : depth < keys.length) {context : EventContext} {paths : List String}
    {found? : Option (String × State)}
    (hrest : Act.firstMade host flat.factory context
      (flat.candidatesAt context.event.key paths) = (pure found? : Act ρ γ _))
    (hfinds : d.Finds delimiter keys context.event.params (d.answerWithin? delimiter keys
      context.event.key context.event.params depth) found?) :
    ∃ found? : Option (String × State),
      Act.firstMade host flat.factory context (flat.candidatesAt context.event.key
        (delimiter.intercalate (keys.take (depth + 1)) :: paths)) = (pure found? : Act ρ γ _) ∧
      d.Finds delimiter keys context.event.params (d.answerWithin? delimiter keys
        context.event.key context.event.params (depth + 1)) found? := by
  have hfront := h.resolve_front (ρ := ρ) hstands hdepth context
  rw [Definition.answerWithin?_succ]
  cases hleads : d.leadsTo? delimiter keys context.event.key context.event.params depth with
  | none =>
    rw [hleads] at hfront
    exact ⟨found?, (firstMade_cons_of_none hfront).trans hrest, hfinds⟩
  | some path =>
    obtain ⟨keys', l, hat, rfl⟩ := h.orderly.exists_of_leadsTo? h.one hleads
    rw [hleads, Option.bind_some, h.create_factory hat] at hfront
    exact ⟨_, firstMade_cons_of_plain hfront, keys', l, hat, rfl, rfl⟩

/-- **`Act.firstMade` under `Path.fronts keys depth` follows `answerWithin?`**, by induction on
`depth`. -/
theorem Renders.finds_fronts (h : flat.Renders delimiter d) (hstands : d.StandsAt keys)
    (hdepth : depth < keys.length) (context : EventContext) :
    ∃ found? : Option (String × State),
      Act.firstMade host flat.factory context (flat.candidatesAt context.event.key
        ((Path.fronts keys depth).map delimiter.intercalate)) = (pure found? : Act ρ γ _) ∧
      d.Finds delimiter keys context.event.params (d.answerWithin? delimiter keys
        context.event.key context.event.params (depth + 1)) found? := by
  induction depth with
  | zero =>
    -- Above the outermost level there is nothing to look under.
    have hnothing : Act.firstMade host flat.factory context
        (flat.candidatesAt context.event.key []) = (pure none : Act ρ γ _) := rfl
    exact h.finds_cons hstands hdepth hnothing rfl
  | succ depth ih =>
    obtain ⟨found?, hrest, hfinds⟩ := ih (by omega)
    exact h.finds_cons hstands hdepth hrest hfinds

end FlatDefinition

/-! ## The machine of a flat form -/

/-- **`Act.resolve` of a domain event follows `d.answer?`** at the keys of the current leaf. -/
theorem Machine.RunsFlat.resolve_domain {config : FlattenConfig} {m : Machine (StatePlan ρ)}
    {w : World ρ γ} {link : Link} {name : String}
    (h : m.RunsFlat flat config) (hflat : flat.Renders config.delimiter d)
    (hm : w.machine? link = some m) (hname : isReservedName name = false)
    (hstands : d.StandsAt keys)
    (hcurrent : m.current.state.key = config.delimiter.intercalate keys) (params : Params) :
    ∃ found? : Option (String × State),
      (Act.resolve host link (.domain name params)).run w = some (found?.map fun found =>
        { event := .domain name params, source := m.current, target := found.2,
          matched := found.1 }, w) ∧
      d.Finds config.delimiter keys params
        (d.answer? config.delimiter keys (.domain name) params) found? := by
  obtain ⟨l, hl⟩ := hstands
  have hlast : keys.length - 1 + 1 = keys.length :=
    Nat.succ_pred_eq_of_pos (List.length_pos_iff.2 (Definition.StandsAt.ne_nil ⟨l, hl⟩))
  have hkeys := h.lookupKeys?_domain (hflat.orderly.delimits hflat.one hl)
    (Definition.StandsAt.ne_nil ⟨l, hl⟩) hcurrent name params
  have hlt : keys.length - 1 < keys.length := by omega
  obtain ⟨found?, (hfound : Act.firstMade host _ _ _ = _), hfinds⟩ :=
    hflat.finds_fronts ⟨l, hl⟩ hlt ⟨.domain name params, m.current.state⟩
  rw [hlast] at hfinds
  have hnamed : Event.isMisnamed (.domain name params) = false := hname
  exact ⟨found?, Act.resolve_eq hm h hnamed hkeys hfound, hfinds⟩

/-- **The machine of a flat form finds out what the nested definition says.** If
`d.problems config.delimiter = some []`, then `d` has a flat form, in which `FlatDefinition.resolve`
finds every target that is named. A machine that runs it (`Machine.RunsFlat`) starts at
`d.startKeys`. Wherever such a machine stands, `Act.resolve` finds for `.domain name params` what
`Definition.Finds` makes of `d.answer?`, the answer of the innermost active state that has one, and
changes nothing. -/
theorem Definition.flat_resolves_as_nested {config : FlattenConfig}
    (h : d.problems config.delimiter = some []) (hone : config.delimiter.length = 1)
    (hcollision : config.eventCollision = .namespaced) :
    ∃ flat, FlatDefinition.ofDefinition config d = some (.ok flat) ∧
      (∀ keys level t name, d.level? keys = some level → t ∈ level.transitions →
        t.target = .key name →
        (flat.resolve (Path.scope? config.delimiter keys) name).isSome = true) ∧
      ∀ (host : Host ρ γ) (w : World ρ γ),
        (∃ link w' m, (Act.startFlat host flat config).run w = some (.ok link, w') ∧
          w'.machine? link = some m ∧ m.RunsFlat flat config ∧
          m.current.state.key = config.delimiter.intercalate d.startKeys) ∧
        ∀ link m keys name params, w.machine? link = some m → m.RunsFlat flat config →
          d.StandsAt keys → m.current.state.key = config.delimiter.intercalate keys →
          isReservedName name = false →
          ∃ found? : Option (String × State),
            (Act.resolve host link (.domain name params)).run w = some (found?.map fun found =>
              { event := .domain name params, source := m.current, target := found.2,
                matched := found.1 }, w) ∧
            d.Finds config.delimiter keys params
              (d.answer? config.delimiter keys (.domain name) params) found? := by
  obtain ⟨flat, hflat⟩ := FlatDefinition.exists_ofDefinition h hcollision
  have hrenders := FlatDefinition.renders_of_ofDefinition (orderly_of_problems h) hone hcollision
    hflat
  refine ⟨flat, hflat, ?_, fun host w => ⟨?_, ?_⟩⟩
  · intro keys level t name hlevel ht hname
    unfold FlatDefinition.resolve
    rw [hrenders.index_eq]
    exact isSome_resolve_target h hlevel ht hname
  · obtain ⟨_, w', hrun, link, rfl, hm⟩ := Act.ends_startFlat_machine hrenders host w
    exact ⟨link, w', _, hrun, hm, ⟨rfl, rfl, rfl⟩, rfl⟩
  · intro link m keys name params hm hruns hstands hcurrent hname
    exact hruns.resolve_domain hrenders hm hname hstands hcurrent params

/-- A definition where the target of `knock` at the `Door` is chosen by the event, and `knock` at
the hall leads to `Street`. -/
def Definition.visit : Definition :=
  let pick : Params → Option String := fun params => params.head?.bind Value.text?
  let hall := (((({} : Definition).state "Door").state "Stairs").choose "Door" "knock" pick
    |>.on "Door" "leave" "^Street").initial "Door"
  (((({} : Definition).composite "Hall" hall).state "Street").on "Hall" "knock" "Street").initial
    "Hall"

/-- `flat_resolves_as_nested` for `visit`, at the door: `"knock"` without a word is answered by
`"Hall"`, and with `"Stairs"` it leads from `"Hall.Door"` to `"Hall.Stairs"`. -/
theorem Definition.visit_resolves_as_nested :
    visit.problems "." = some [] ∧
      ∃ flat, FlatDefinition.ofDefinition { eventCollision := .namespaced } visit =
          some (.ok flat) ∧
        ∃ link w' m, (Act.startFlat (Surroundings.quiet.host 1) flat
            { eventCollision := .namespaced }).run ({ guest := () } : World Unit Unit) =
            some (.ok link, w') ∧
          w'.machine? link = some m ∧
          (Act.resolve (Surroundings.quiet.host 1) link (.domain "knock" [])).run w' =
            some (some ⟨.domain "knock" [], m.current, { key := "Street", data := .null },
              "Hall"⟩, w') ∧
          (Act.resolve (Surroundings.quiet.host 1) link
              (.domain "knock" [.string "Stairs"])).run w' =
            some (some ⟨.domain "knock" [.string "Stairs"], m.current,
              { key := "Hall.Stairs", data := .array [.string "Stairs"] }, "Hall.Door"⟩, w') := by
  have hproblems : visit.problems "." = some [] := by decide +kernel
  have hd := orderly_of_problems hproblems
  have hcollision : ({ eventCollision := .namespaced } : FlattenConfig).eventCollision =
      .namespaced := rfl
  obtain ⟨flat, hflat, -, hall⟩ :=
    flat_resolves_as_nested (ρ := Unit) (γ := Unit) hproblems rfl hcollision
  obtain ⟨⟨link, w', m, hstart, hm, hruns, hcurrent⟩, -⟩ :=
    hall (Surroundings.quiet.host 1) { guest := () }
  have hresolve := fun params => (hall (Surroundings.quiet.host 1) w').2 link m visit.startKeys
    "knock" params hm hruns hd.standsAt_startKeys hcurrent (by decide)
  refine ⟨hproblems, flat, hflat, link, w', m, hstart, hm, ?_, ?_⟩
  · obtain ⟨found?, hrun, hfinds⟩ := hresolve []
    -- The door has no answer without a word, so that the hall is asked.
    have hanswer : visit.answer? "." visit.startKeys (.domain "knock") [] =
        some (0, ".".intercalate ["Street"]) := by decide +kernel
    obtain rfl := (hanswer ▸ hfinds).eq_of_at? (l := {}) hd rfl (by rfl)
    exact hrun
  · obtain ⟨found?, hrun, hfinds⟩ := hresolve [.string "Stairs"]
    have hanswer : visit.answer? "." visit.startKeys (.domain "knock") [.string "Stairs"] =
        some (1, ".".intercalate ["Hall", "Stairs"]) := by decide +kernel
    obtain rfl := (hanswer ▸ hfinds).eq_of_at? (l := {}) hd rfl (by rfl)
    exact hrun

end Statechart
