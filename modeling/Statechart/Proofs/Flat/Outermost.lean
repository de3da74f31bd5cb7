import Mathlib.Data.Nat.Find
import Statechart.Proofs.Flat.Collisions
import Statechart.Proofs.Flat.Entering
import Statechart.Proofs.Flat.Lookup
import Statechart.Proofs.Flat.Sitting

/-! # If composites come first

If collisions are settled in favour of composites, a composite takes an event away from all states
inside it. However many levels handle the event, of the states that are active at a leaf only the
outermost one is left with an answer. The machine of the flat form then has no choice: it finds what
this answer leads to, and nothing if the answer is a choice that comes to nothing.

* **`Definition.Outermost`**: the outermost state that handles an event.
* `Definition.outermost_iff`: it is the one that no composite overrides.
* `FlatDefinition.Shadows`: a flat form has lost the answers that composites override.
* `FlatDefinition.isSome_target?_take_iff`: of the active states it is left with one answer.
* `FlatDefinition.finds_outermost`: what is made of this answer.
* **`Definition.outermost_answers`**: the machine finds what the outermost handler says. -/

namespace Statechart

variable {ρ γ : Type} {delimiter : String} {d : Definition} {keys : List String} {depth : Nat}
  {event : EventKey} {params : Params} {whole flat : FlatDefinition}

/-! ## The outermost handler -/

namespace Definition

/-- **`depth` is the outermost handler of `event` along `keys`**: the state there handles `event`,
and no state around it does. -/
structure Outermost (d : Definition) (keys : List String) (event : EventKey) (depth : Nat) :
    Prop where
  lt : depth < keys.length
  handles : d.Handles (keys.take (depth + 1)) event
  first : ∀ outer < depth, ¬ d.Handles (keys.take (outer + 1)) event

/-- `Outermost` holds of one depth at most. -/
theorem Outermost.unique {depth' : Nat} (h : d.Outermost keys event depth)
    (h' : d.Outermost keys event depth') : depth = depth' := by
  rcases Nat.lt_trichotomy depth depth' with hlt | heq | hlt
  · exact absurd h.handles (h'.first depth hlt)
  · exact heq
  · exact absurd h'.handles (h.first depth' hlt)

/-- **`Outermost` is `Handles` without `Overrides`** for a domain event. -/
theorem outermost_iff (hdomain : event.isReserved = false) : d.Outermost keys event depth ↔
    depth < keys.length ∧ d.Handles (keys.take (depth + 1)) event ∧
      ¬ d.Overrides (keys.take (depth + 1)) event := by
  constructor
  · rintro ⟨hlt, hhandles, hfirst⟩
    refine ⟨hlt, hhandles, ?_⟩
    rintro ⟨-, outer, inside, hinside, hkeys, houter⟩
    have hpos := List.length_pos_iff.2 houter.ne_nil
    obtain ⟨n, hn⟩ : ∃ n, outer.length = n + 1 := ⟨outer.length - 1, by omega⟩
    have hshort : n < depth := by
      have hlength := congrArg List.length hkeys
      have hpos' := List.length_pos_iff.2 hinside
      rw [List.length_take, List.length_append] at hlength
      omega
    -- The keys of the composite are the first ones of those on the way.
    have hfront : outer = keys.take (n + 1) := by
      have htake := congrArg (List.take (n + 1)) hkeys
      rw [List.take_take, Nat.min_eq_left (by omega), ← hn, List.take_left] at htake
      rw [← hn, htake]
    exact hfirst n hshort (hfront ▸ houter)
  · rintro ⟨hlt, hhandles, hkept⟩
    refine ⟨hlt, hhandles, fun outer houter hhandles' => hkept ?_⟩
    refine ⟨hdomain, keys.take (outer + 1), (keys.take (depth + 1)).drop (outer + 1), ?_, ?_,
      hhandles'⟩
    · rw [ne_eq, List.drop_eq_nil_iff, List.length_take]
      omega
    · have hfront : (keys.take (depth + 1)).take (outer + 1) = keys.take (outer + 1) := by
        rw [List.take_take, Nat.min_eq_left (by omega)]
      rw [← hfront, List.take_append_drop]

end Definition

/-! ## The answers that are left -/

/-- `items.findSome? f` is `f a` if `f` is `none` on all other items. -/
theorem findSome?_eq_of_only {α β : Type} {f : α → Option β} {items : List α} {a : α}
    (ha : a ∈ items) (honly : ∀ b ∈ items, b ≠ a → f b = none) : items.findSome? f = f a := by
  cases hfa : f a with
  | none =>
    rw [List.findSome?_eq_none_iff]
    intro b hb
    by_cases hba : b = a
    · rw [hba, hfa]
    · exact honly b hb hba
  | some result =>
    -- What comes before it comes to nothing, so that the search goes on until it is there.
    induction items with
    | nil => cases ha
    | cons b rest ih =>
      by_cases hba : b = a
      · rw [List.findSome?_cons, hba, hfa]
      · rw [List.findSome?_cons, honly b List.mem_cons_self hba]
        exact ih ((List.mem_cons.1 ha).resolve_left (Ne.symm hba)) fun c hc =>
          honly c (List.mem_cons_of_mem b hc)

namespace FlatDefinition

/-- **`flat` shadows `whole`**: of the answers of `whole` it has lost those with `d.Overrides`, and
no others. -/
structure Shadows (flat whole : FlatDefinition) (delimiter : String) (d : Definition) : Prop where
  leaves : flat.leaves = whole.leaves
  composites : flat.composites = whole.composites
  initial : flat.initial = whole.initial
  index : flat.index = whole.index
  /-- Before that, answers are filed under the paths of the states that handle the event. -/
  filed : ∀ source event, (whole.target? source event).isSome = true ↔
    ∃ keys, source = delimiter.intercalate keys ∧ d.Handles keys event
  /-- What is missing is what a composite around the state overrides. -/
  lost : ∀ keys event, d.Handles keys event →
    (flat.target? (delimiter.intercalate keys) event = none ↔ d.Overrides keys event)
  /-- What is left is as it was. -/
  kept : ∀ source event target, flat.target? source event = some target →
    whole.target? source event = some target
  /-- All exits are left. -/
  exits : ∀ source, flat.target? source .childExit = whole.target? source .childExit

/-- **`settleCollisions .allowShadow` gives a flat form that `Shadows` the one before.** -/
theorem shadows_of_allowShadow (hd : d.Orderly delimiter) (hone : delimiter.length = 1)
    (h : assemble delimiter d = .ok whole)
    (hsettled : settleCollisions .allowShadow whole = .ok flat) :
    flat.Shadows whole delimiter d := by
  have hrenders := renders_of_assemble hd hone h
  obtain ⟨hleaves, hinitial, -⟩ := eq_of_settleCollisions hsettled
  obtain ⟨hindex, hcomposites⟩ := names_of_settleCollisions hsettled
  refine ⟨hleaves, hcomposites, hinitial, hindex, fun source event => ⟨?handles, ?filed⟩, ?lost,
    ?kept, ?exits⟩
  case handles => exact exists_handles_of_target? hd h
  case filed =>
    rintro ⟨keys, rfl, hhandles⟩
    -- A composite answers to what it handles, and only to that, so that what is lost is overridden.
    obtain ⟨state, hat⟩ := hhandles.exists_at? hd
    exact (hrenders.isSome_target?_iff hhandles.ne_nil hat).2 hhandles
  case lost =>
    intro keys event hhandles
    obtain ⟨state, hat⟩ := hhandles.exists_at? hd
    have hkept : (flat.target? (delimiter.intercalate keys) event).isSome = true ↔
        d.Handles keys event ∧ ¬ d.Overrides keys event :=
      isSome_target?_allowShadow_iff hd hone h hsettled hhandles.ne_nil hat
    rw [← Option.not_isSome_iff_eq_none, hkept]
    simp only [hhandles, true_and, not_not]
  case kept => exact fun source event target => target?_of_settleCollisions hsettled
  case exits => exact fun source => target?_eq_of_isReserved hsettled rfl

/-- **`flat.target?` under the path of an active state is there exactly if its depth is
`Outermost`.** -/
theorem isSome_target?_take_iff (hd : d.Orderly delimiter) (hone : delimiter.length = 1)
    (h : assemble delimiter d = .ok whole)
    (hsettled : settleCollisions .allowShadow whole = .ok flat) (hstands : d.StandsAt keys)
    (hdomain : event.isReserved = false) (hdepth : depth < keys.length) :
    (flat.target? (delimiter.intercalate (keys.take (depth + 1))) event).isSome = true ↔
      d.Outermost keys event depth := by
  obtain ⟨-, state, -, -, hat, -, -⟩ := hstands.level? (List.getElem?_eq_getElem hdepth)
  have hne : keys.take (depth + 1) ≠ [] := by
    rw [ne_eq, List.take_eq_nil_iff, not_or]
    exact ⟨by omega, hstands.ne_nil⟩
  rw [isSome_target?_allowShadow_iff hd hone h hsettled hne hat,
    Definition.outermost_iff hdomain]
  simp only [hdepth, true_and]

/-! ## What is made of them -/

/-- `whole.lead?` of the answer at `depth` is the last leaf of `d.leadsTo?`. -/
theorem Renders.bind_lead?_take (h : whole.Renders delimiter d) (hstands : d.StandsAt keys)
    (hdepth : depth < keys.length) (event : EventKey) (params : Params) :
    (whole.target? (delimiter.intercalate (keys.take (depth + 1))) event).bind
        (whole.lead? · params) =
      (d.leadsTo? delimiter keys event params depth).bind whole.lastLeaf? := by
  have hkey := List.getElem?_eq_getElem hdepth
  obtain ⟨level, state, hlevel, hstate, -⟩ := hstands.level? hkey
  have hdeclared : level.declares keys[depth] = true := Option.isSome_iff_exists.2 ⟨state, hstate⟩
  -- The path is that of the level with one more key, under which the answers of the level are
  -- filed.
  rw [List.take_add_one, hkey, Option.toList_some,
    h.filed (keys.take depth) level keys[depth] event hlevel hdeclared,
    Definition.leadsTo?_of_level? hlevel hkey, ← h.index_eq]
  cases level.transition? keys[depth] event with
  | none => rfl
  | some t =>
    cases htarget : t.target with
    | key name =>
      simp only [Option.bind_some, leads?, Target.leaf?, htarget, Target.name?]
      cases whole.index.resolve (Path.scope? delimiter (keys.take depth)) name <;> rfl
    | choose pick =>
      simp only [Option.bind_some, leads?, Target.leaf?, htarget, Target.name?]
      rfl

/-- `Finds` of `d.leadsTo?` gives its last leaf. -/
theorem Renders.finds_lastLeaf? (h : whole.Renders delimiter d) (keys : List String)
    (event : EventKey) (params : Params) (depth : Nat) :
    d.Finds delimiter keys params ((d.leadsTo? delimiter keys event params depth).map (depth, ·))
      (((d.leadsTo? delimiter keys event params depth).bind whole.lastLeaf?).map fun leaf =>
        (delimiter.intercalate (keys.take (depth + 1)), leaf.state params)) := by
  cases hleads : d.leadsTo? delimiter keys event params depth with
  | none => rfl
  | some path =>
    obtain ⟨keys', l, hat, rfl⟩ := h.orderly.exists_of_leadsTo? h.one hleads
    obtain ⟨last, hlast⟩ := exists_lastLeaf? ((h.mem_leaves_iff _).2 ⟨keys', l, hat, rfl⟩)
    obtain ⟨hmem, hpath⟩ := of_lastLeaf? hlast
    obtain rfl := h.eq_of_mem_leaves hmem hpath hat
    refine ⟨keys', l, hat, rfl, ?_⟩
    rw [Option.bind_some, hlast]
    rfl

/-- The members of `Path.fronts` are the paths of the active states. -/
theorem mem_map_fronts_iff (hne : keys ≠ []) {path : String} :
    path ∈ (Path.fronts keys (keys.length - 1)).map delimiter.intercalate ↔
      ∃ depth < keys.length, path = delimiter.intercalate (keys.take (depth + 1)) := by
  have hpos := List.length_pos_iff.2 hne
  simp only [List.mem_map, Path.mem_fronts_iff]
  constructor
  · rintro ⟨_, ⟨depth, hdepth, rfl⟩, rfl⟩
    exact ⟨depth, by omega, rfl⟩
  · rintro ⟨depth, hdepth, rfl⟩
    exact ⟨_, ⟨depth, by omega, rfl⟩, rfl⟩

section AllowShadow

variable {name : String} (hd : d.Orderly delimiter) (hone : delimiter.length = 1)
  (h : assemble delimiter d = .ok whole) (hsettled : settleCollisions .allowShadow whole = .ok flat)
  (hstands : d.StandsAt keys)

include hd hone h hsettled hstands

/-- **Of the paths in `Path.fronts` only that of the `Outermost` one has an answer.** -/
theorem isSome_target?_iff_of_outermost (houtermost : d.Outermost keys (.domain name) depth)
    {path : String}
    (hpath : path ∈ (Path.fronts keys (keys.length - 1)).map delimiter.intercalate) :
    (flat.target? path (.domain name)).isSome = true ↔
      path = delimiter.intercalate (keys.take (depth + 1)) := by
  obtain ⟨depth', hdepth', rfl⟩ := (mem_map_fronts_iff hstands.ne_nil).1 hpath
  constructor
  · intro hsome
    have houtermost' := (isSome_target?_take_iff hd hone h hsettled hstands rfl hdepth').1 hsome
    rw [houtermost.unique houtermost']
  · intro heq
    rw [heq]
    exact (isSome_target?_take_iff hd hone h hsettled hstands rfl houtermost.lt).2 houtermost

/-- **`flat.made?` under `Path.fronts` is `d.leadsTo?` at the `Outermost` depth.** -/
theorem finds_outermost (houtermost : d.Outermost keys (.domain name) depth) :
    d.Finds delimiter keys params
      ((d.leadsTo? delimiter keys (.domain name) params depth).map (depth, ·))
      (flat.made? (.domain name params)
        ((Path.fronts keys (keys.length - 1)).map delimiter.intercalate)) := by
  have hrenders := renders_of_assemble hd hone h
  have hshadows := shadows_of_allowShadow hd hone h hsettled
  have hlead := lead?_congr hshadows.leaves hshadows.index
  have honly : ∀ path ∈ (Path.fronts keys (keys.length - 1)).map delimiter.intercalate, _ :=
    fun _ => isSome_target?_iff_of_outermost hd hone h hsettled hstands houtermost
  -- No other path has an answer, so that the search finds this one, wherever it stands.
  have hmem : delimiter.intercalate (keys.take (depth + 1)) ∈
      (Path.fronts keys (keys.length - 1)).map delimiter.intercalate :=
    (mem_map_fronts_iff hstands.ne_nil).2 ⟨depth, houtermost.lt, rfl⟩
  have hsame : flat.target? (delimiter.intercalate (keys.take (depth + 1))) (.domain name) =
      whole.target? (delimiter.intercalate (keys.take (depth + 1))) (.domain name) := by
    obtain ⟨target, htarget⟩ := Option.isSome_iff_exists.1 ((honly _ hmem).2 rfl)
    rw [htarget, hshadows.kept _ _ _ htarget]
  have hfront := hrenders.bind_lead?_take hstands houtermost.lt (.domain name) params
  have hmade : flat.made? (.domain name params)
      ((Path.fronts keys (keys.length - 1)).map delimiter.intercalate) =
      ((d.leadsTo? delimiter keys (.domain name) params depth).bind whole.lastLeaf?).map
        fun leaf => (delimiter.intercalate (keys.take (depth + 1)), leaf.state params) := by
    rw [made?, findSome?_eq_of_only hmem, Event.key, Event.params, hsame, hlead, ← hfront,
      Option.map_bind]
    · rfl
    · intro path hpath hne
      rw [Event.key, Option.not_isSome_iff_eq_none.1 fun hsome => hne ((honly path hpath).1 hsome)]
      rfl
  rw [hmade]
  exact hrenders.finds_lastLeaf? keys (.domain name) params depth

/-- `flat.made?` is `none` if no depth is `Outermost`. -/
theorem made?_eq_none_of_not_outermost
    (hnone : ∀ depth, ¬ d.Outermost keys (.domain name) depth) :
    flat.made? (.domain name params)
      ((Path.fronts keys (keys.length - 1)).map delimiter.intercalate) = none := by
  rw [made?, List.findSome?_eq_none_iff]
  intro path hpath
  obtain ⟨depth, hdepth, rfl⟩ := (mem_map_fronts_iff hstands.ne_nil).1 hpath
  rw [Event.key, Option.not_isSome_iff_eq_none.1 fun hsome => hnone depth
    ((isSome_target?_take_iff hd hone h hsettled hstands rfl hdepth).1 hsome)]
  rfl

end AllowShadow

end FlatDefinition

/-! ## The machine -/

open FlatDefinition in
/-- **Under `.allowShadow` the outermost handler answers.** Let
`d.problems config.delimiter = some []`, with a delimiter of one character. The flat form has lost
exactly the answers that composites override (`FlatDefinition.Shadows`, against the `.namespaced`
form). If `d.Outermost keys (.domain name) depth` holds at a leaf, then of the paths that are looked
under only that of `keys.take (depth + 1)` has an answer. The machine can be started at
`d.startKeys`, and wherever such a machine stands, `Act.resolve` finds for `.domain name params`
what the outermost handler leads to (`d.leadsTo?`): nothing if this is a choice that comes to
nothing, even if states inside handle the event, and nothing if no active state handles it. -/
theorem Definition.outermost_answers {config : FlattenConfig}
    (h : d.problems config.delimiter = some []) (hone : config.delimiter.length = 1)
    (hpolicy : config.eventCollision = .allowShadow) :
    ∃ flat whole, ofDefinition config d = some (.ok flat) ∧
      ofDefinition { config with eventCollision := .namespaced } d = some (.ok whole) ∧
      flat.Shadows whole config.delimiter d ∧
      (∀ keys name depth, d.StandsAt keys → d.Outermost keys (.domain name) depth →
        ∃ paths, Path.ancestors? config.delimiter (config.delimiter.intercalate keys) = some paths ∧
          config.delimiter.intercalate (keys.take (depth + 1)) ∈ paths ∧
          ∀ path ∈ paths, (flat.target? path (.domain name)).isSome = true ↔
            path = config.delimiter.intercalate (keys.take (depth + 1))) ∧
      ∀ (host : Host ρ γ) (w : World ρ γ),
        (∃ link w' m, (Act.startFlat host flat config).run w = some (.ok link, w') ∧
          w'.machine? link = some m ∧ m.RunsFlat flat config ∧
          m.current.state.key = config.delimiter.intercalate d.startKeys) ∧
        ∀ link m keys name params, w.machine? link = some m → m.RunsFlat flat config →
          d.StandsAt keys → m.current.state.key = config.delimiter.intercalate keys →
          isReservedName name = false →
          ∃ found? : Option (String × State),
            (Act.resolve host link (.domain name params)).run w = some (found?.map fun found =>
              { event := .domain name params, source := m.current, target := found.2,
                matched := found.1 }, w) ∧
            (∀ depth, d.Outermost keys (.domain name) depth →
              d.Finds config.delimiter keys params
                ((d.leadsTo? config.delimiter keys (.domain name) params depth).map (depth, ·))
                found?) ∧
            ((∀ depth < keys.length, ¬ d.Handles (keys.take (depth + 1)) (.domain name)) →
              found? = none) := by
  have hd := orderly_of_problems h
  obtain ⟨whole, hwhole⟩ := exists_assemble h
  obtain ⟨flat, hsettled⟩ : ∃ flat, settleCollisions .allowShadow whole = .ok flat := ⟨_, rfl⟩
  have hflat : ofDefinition config d = some (.ok flat) := by
    rw [ofDefinition_eq h hwhole, hpolicy, hsettled]
  have hnamespaced : assemble ({ config with eventCollision := .namespaced } :
      FlattenConfig).delimiter d = .ok whole := hwhole
  refine ⟨flat, whole, hflat, ofDefinition_eq h hnamespaced,
    shadows_of_allowShadow hd hone hwhole hsettled, ?_, fun host w => ⟨?_, ?_⟩⟩
  · intro keys name depth hstands houtermost
    obtain ⟨l, hl⟩ := hstands
    have hne := StandsAt.ne_nil ⟨l, hl⟩
    -- The path of a leaf has those of the states around it before it, and it is the last one.
    have hlast : keys.length - 1 + 1 = keys.length :=
      Nat.succ_pred_eq_of_pos (List.length_pos_iff.2 hne)
    exact ⟨_, Path.ancestors?_intercalate (hd.delimits hone hl) hlast,
      (mem_map_fronts_iff hne).2 ⟨depth, houtermost.lt, rfl⟩, fun path =>
        isSome_target?_iff_of_outermost hd hone hwhole hsettled ⟨l, hl⟩ houtermost⟩
  · obtain ⟨start, hstart, hm⟩ := exists_startFlat hone hflat host w
    exact ⟨_, start, _, hstart, hm, ⟨rfl, rfl, rfl⟩, rfl⟩
  · intro link m keys name params hm hruns hstands hcurrent hname
    obtain ⟨l, hl⟩ := hstands
    -- The machine looks the event up under the paths of all states around its leaf.
    have hpaths := hruns.lookupKeys?_domain (hd.delimits hone hl) (StandsAt.ne_nil ⟨l, hl⟩)
      hcurrent name params
    have hnamed : Event.isMisnamed (.domain name params) = false := hname
    refine ⟨_, by rw [Act.run_resolve hm hruns, Machine.finds?_eq hnamed hpaths]; rfl,
      fun depth => finds_outermost hd hone hwhole hsettled ⟨l, hl⟩, fun hnone => ?_⟩
    exact made?_eq_none_of_not_outermost hd hone hwhole hsettled ⟨l, hl⟩ fun depth houtermost =>
      hnone depth houtermost.lt houtermost.handles

/-- A definition where `call` is handled in `Floor`, in `House` and around it, and the target around
it is chosen by the event. -/
def Definition.household : Definition :=
  let pick : Params → Option String := fun params => params.head?.bind Value.text?
  let floor := (((({} : Definition).state "Room").state "Stairs").on "Room" "call" "Stairs").initial
    "Room"
  let house := (((({} : Definition).composite "Floor" floor).state "Attic").on
    "Floor" "call" "Attic").initial "Floor"
  (((({} : Definition).composite "House" house).state "Street").choose "House" "call" pick).initial
    "House"

/-- `outermost_answers` for `household` and `"call"`, which `"House"` handles before its floor and
its room, so that neither of these is left with an answer. Without a word it leads nowhere, and with
`"Street"` there. -/
theorem Definition.household_outermost :
    household.problems "." = some [] ∧
      household.Overrides ["House", "Floor", "Room"] (.domain "call") ∧
      ∃ flat, FlatDefinition.ofDefinition { eventCollision := .allowShadow } household =
          some (.ok flat) ∧
        flat.target? "House.Floor" (.domain "call") = none ∧
        flat.target? "House.Floor.Room" (.domain "call") = none ∧
        ∃ link w' m, (Act.startFlat (Surroundings.quiet.host 1) flat
            { eventCollision := .allowShadow }).run ({ guest := () } : World Unit Unit) =
            some (.ok link, w') ∧
          w'.machine? link = some m ∧
          (Act.resolve (Surroundings.quiet.host 1) link (.domain "call" [])).run w' =
            some (none, w') ∧
          (Act.resolve (Surroundings.quiet.host 1) link
              (.domain "call" [.string "Street"])).run w' =
            some (some ⟨.domain "call" [.string "Street"], m.current,
              { key := "Street", data := .array [.string "Street"] }, "House"⟩, w') := by
  have hproblems : household.problems "." = some [] := by decide +kernel
  have hd := orderly_of_problems hproblems
  have hpolicy : ({ eventCollision := .allowShadow } : FlattenConfig).eventCollision =
      .allowShadow := rfl
  -- The house, the floor and the room handle the event, and the house is the outermost of them.
  have hhouse : household.Handles ["House"] (.domain "call") := ⟨[], "House", _, rfl, rfl, rfl⟩
  have hfloor : household.Handles ["House", "Floor"] (.domain "call") :=
    ⟨["House"], "Floor", _, rfl, rfl, rfl⟩
  have hroom : household.Handles ["House", "Floor", "Room"] (.domain "call") :=
    ⟨["House", "Floor"], "Room", _, rfl, rfl, rfl⟩
  have houtermost : household.Outermost household.startKeys (.domain "call") 0 :=
    ⟨by decide, hhouse, fun _ houter => absurd houter (Nat.not_lt_zero _)⟩
  have hoverrides : household.Overrides ["House", "Floor", "Room"] (.domain "call") :=
    ⟨rfl, ["House"], ["Floor", "Room"], List.cons_ne_nil _ _, rfl, hhouse⟩
  obtain ⟨flat, whole, hflat, -, hshadows, -, hall⟩ :=
    outermost_answers (ρ := Unit) (γ := Unit) hproblems rfl hpolicy
  obtain ⟨⟨link, w', m, hstart, hm, hruns, hcurrent⟩, -⟩ :=
    hall (Surroundings.quiet.host 1) { guest := () }
  have hresolve := fun params => (hall (Surroundings.quiet.host 1) w').2 link m household.startKeys
    "call" params hm hruns hd.standsAt_startKeys hcurrent (by decide)
  refine ⟨hproblems, hoverrides, flat, hflat, (hshadows.lost _ _ hfloor).2
    ⟨rfl, ["House"], ["Floor"], List.cons_ne_nil _ _, rfl, hhouse⟩,
    (hshadows.lost _ _ hroom).2 hoverrides, link, w', m, hstart, hm, ?_, ?_⟩
  · obtain ⟨found?, hrun, hfinds, -⟩ := hresolve []
    -- Without a word the choice of the house comes to nothing, and nobody else is asked.
    have hleads : household.leadsTo? "." household.startKeys (.domain "call") [] 0 = none := by
      decide +kernel
    have hnone := hfinds 0 houtermost
    rw [hleads] at hnone
    obtain rfl : found? = none := hnone
    exact hrun
  · obtain ⟨found?, hrun, hfinds, -⟩ := hresolve [.string "Street"]
    have hleads : household.leadsTo? "." household.startKeys (.domain "call")
        [.string "Street"] 0 = some (".".intercalate ["Street"]) := by decide +kernel
    have hsome := hfinds 0 houtermost
    rw [hleads] at hsome
    obtain rfl := hsome.eq_of_at? (l := {}) hd rfl (by rfl)
    exact hrun

end Statechart
