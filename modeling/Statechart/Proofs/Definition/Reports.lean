import Mathlib.Data.List.Count
import Mathlib.Data.List.Perm.Subperm
import Statechart.Proofs.Definition.Check
import Statechart.Proofs.Definition.Places
import Statechart.Proofs.Path

/-! # What the check of a definition reports

The check goes through the levels of a definition and gathers problems on its way. What it should
gather can be said without the way: every level has its flaws, and a composite without states is a
flaw of its own.

* `repeats`: the items of a list that come up again.
* **`Definition.flaws`**: what is wrong with one level. `Definition.isBare`: a composite without
  states.
* **`Definition.allFlaws`**: what is wrong with a definition. `Definition.checkedFlaws`: the same
  without what is wrong inside composites without states.
* **`Definition.problems_perm`**: the check reports the latter.
* **`Definition.exists_reports`**: it reports nothing exactly if there is nothing wrong. -/

namespace Statechart

/-! ## Items that come up again -/

section Repeats

variable {α : Type} [DecidableEq α]

/-- **The items of a list that come up again**, each as often as it does. -/
def repeats (items : List α) : List α :=
  items.zipIdx.filterMap fun item => if item.1 ∈ items.take item.2 then some item.1 else none

/-- The items that are in `earlier` or come up again. -/
def repeatsAfter (earlier : List α) : List α → List α
  | [] => []
  | item :: rest => (if item ∈ earlier then [item] else []) ++ repeatsAfter (item :: earlier) rest

/-- The items of `rest` that come up again in `front ++ rest` are `repeatsAfter`. -/
theorem filterMap_zipIdx_eq_repeatsAfter (front : List α) {rest earlier : List α}
    (h : ∀ item, item ∈ earlier ↔ item ∈ front) :
    ((rest.zipIdx front.length).filterMap fun item =>
      if item.1 ∈ (front ++ rest).take item.2 then some item.1 else none) =
        repeatsAfter earlier rest := by
  induction rest generalizing front earlier with
  | nil => rfl
  | cons item rest ih =>
    have hseen : ∀ other, other ∈ item :: earlier ↔ other ∈ front ++ [item] := fun other => by
      rw [List.mem_cons, List.mem_append, List.mem_singleton, h, or_comm]
    have hrest := ih (front ++ [item]) hseen
    rw [List.length_append, List.length_singleton, List.append_assoc, List.singleton_append]
      at hrest
    rw [List.zipIdx_cons, List.filterMap_cons, hrest, repeatsAfter, List.take_left]
    by_cases hitem : item ∈ earlier
    · rw [if_pos hitem, if_pos ((h item).1 hitem)]
      rfl
    · rw [if_neg hitem, if_neg fun hfront => hitem ((h item).2 hfront)]
      rfl

/-- `repeatsAfter` of `item :: rest`. -/
theorem map_repeatsAfter_cons {β : Type} (f : α → β) (earlier rest : List α) (item : α) :
    (repeatsAfter earlier (item :: rest)).map f =
      (if item ∈ earlier then [f item] else []) ++ (repeatsAfter (item :: earlier) rest).map f := by
  rw [repeatsAfter, List.map_append, apply_ite (List.map f)]
  rfl

/-- `repeats` is `repeatsAfter []`. -/
theorem repeats_eq_repeatsAfter (items : List α) : repeats items = repeatsAfter [] items :=
  filterMap_zipIdx_eq_repeatsAfter [] fun _ => Iff.rfl

end Repeats

/-- `((item :: rest).filter p).map f`, as an append. -/
theorem map_filter_cons {α β : Type} (f : α → β) (p : α → Prop) [DecidablePred p] (item : α)
    (rest : List α) :
    ((item :: rest).filter (p ·)).map f =
      (if p item then [f item] else []) ++ (rest.filter (p ·)).map f := by
  by_cases hitem : p item <;> simp [hitem]

instance (delimiter key : String) : Decidable (IsPlainKey delimiter key) :=
  inferInstanceAs (Decidable (_ ∧ _ ∧ _))

namespace Definition

/-! ## What is wrong with a level -/

/-- What is wrong with `level.initial?`. -/
def initialFlaws (scope : Option String) (level : Definition) : List Problem :=
  match level.initial? with
  | none => [.missingInitial scope]
  | some key => if level.declares key then [] else [.unknownInitial scope key]

/-- What is wrong with the target of `t`. -/
def targetFlaw? (index : PathIndex) (scope : Option String) (t : TransitionDef) :
    Option Problem :=
  t.target.key?.bind fun name =>
    match index.tryResolve scope name with
    | .error .missing =>
      some (.unresolvedTarget (Path.join index.delimiter scope t.source) t.event.name name)
    | .error .escapesRoot =>
      some (.escapeBeyondRoot (Path.join index.delimiter scope t.source) name)
    | _ => none

/-- **What is wrong with `level`**, seen from `scope`. -/
def flaws (index : PathIndex) (scope : Option String) (level : Definition) : List Problem :=
  level.initialFlaws scope ++
  (repeats (level.states.map Prod.fst)).map (.duplicateState scope) ++
  ((level.states.map Prod.fst).filter (¬ IsPlainKey index.delimiter ·)).map
    (.invalidStateName scope) ++
  level.issues ++
  ((level.transitions.map TransitionDef.source).filter (¬ level.declares ·)).map
    (.unknownSource scope) ++
  (repeats (level.transitions.map fun t => (t.source, t.event))).map (fun answered =>
    .duplicateTransition (Path.join index.delimiter scope answered.1) answered.2.name) ++
  level.transitions.filterMap (targetFlaw? index scope)

/-- Whether `place.2` is the level of a composite without states. -/
def isBare (place : List String × Definition) : Bool := !place.1.isEmpty && place.2.states.isEmpty

/-- **Everything that is wrong with `d`**: `flaws` of all levels, and `.emptyComposite` for the bare
ones. -/
def allFlaws (delimiter : String) (d : Definition) : List Problem :=
  d.levelPlaces.flatMap fun place =>
    (if isBare place then [.emptyComposite (delimiter.intercalate place.1)] else []) ++
      place.2.flaws (.ofDefinition delimiter d) (Path.scope? delimiter place.1)

/-- `flaws` of `place.2`, or only `.emptyComposite` if it is bare. -/
def checkedFlawsAt (index : PathIndex) (place : List String × Definition) : List Problem :=
  if isBare place then [.emptyComposite (index.delimiter.intercalate place.1)]
  else place.2.flaws index (Path.scope? index.delimiter place.1)

/-- **What is wrong with `d`**, apart from the insides of composites without states. -/
def checkedFlaws (delimiter : String) (d : Definition) : List Problem :=
  d.levelPlaces.flatMap (checkedFlawsAt (.ofDefinition delimiter d))

/-- The `issues` of composites without states. -/
def bareIssues (d : Definition) : List Problem :=
  (d.levelPlaces.filter isBare).flatMap fun place => place.2.issues

variable {index : PathIndex} {scope : Option String} {delimiter : String} {d level : Definition}
  {ps : List Problem}

/-! ## What the check gathers -/

/-- `keyProblems` as an append. -/
theorem keyProblems_eq {earlier : List String} {key : String} :
    keyProblems delimiter scope earlier key =
      (if key ∈ earlier then [Problem.duplicateState scope key] else []) ++
        if ¬ IsPlainKey delimiter key then [.invalidStateName scope key] else [] := by
  have hplain : (key.isEmpty || key.toList.head? == some escapeMark ||
      Path.isQualified delimiter key) = true ↔ ¬ IsPlainKey delimiter key := by
    simp [IsPlainKey, not_and_or, or_assoc, -not_and]
  rw [keyProblems, if_congr hplain rfl rfl]

/-- `statesProblems`, given `stateProblems` of each state. -/
theorem statesProblems_perm {states : List (String × StateDef)} {earlier : List String}
    {inside : String × StateDef → List Problem}
    (h : statesProblems index scope earlier states = some ps)
    (hinside : ∀ entry ∈ states, ∀ ps,
      stateProblems index (Path.join index.delimiter scope entry.1) entry.2 = some ps →
        ps.Perm (inside entry)) :
    ps.Perm ((repeatsAfter earlier (states.map Prod.fst)).map (.duplicateState scope) ++
      ((states.map Prod.fst).filter (¬ IsPlainKey index.delimiter ·)).map
        (.invalidStateName scope) ++ states.flatMap inside) := by
  induction states generalizing earlier ps with
  | nil =>
    cases h
    exact .refl _
  | cons first rest ih =>
    obtain ⟨key, state⟩ := first
    simp only [statesProblems, Option.bind_eq_bind, Option.bind_eq_some_iff, Option.pure_def,
      Option.some.injEq] at h
    obtain ⟨own, hown, others, hothers, rfl⟩ := h
    have hfirst := hinside _ List.mem_cons_self own hown
    have hrest := ih hothers fun entry hentry => hinside entry (List.mem_cons_of_mem _ hentry)
    -- What is reported of one state stands together, and here it is sorted by kind. That nothing is
    -- lost is a matter of counting.
    rw [List.map_cons, map_repeatsAfter_cons, map_filter_cons, List.flatMap_cons, keyProblems_eq]
    rw [List.perm_iff_count] at hfirst hrest ⊢
    intro p
    have hfirst := hfirst p
    have hrest := hrest p
    simp only [List.count_append] at hfirst hrest ⊢
    omega

/-- `targetProblems` is `targetFlaw?`. -/
theorem targetProblems_eq {t : TransitionDef}
    (h : targetProblems index scope (Path.join index.delimiter scope t.source) t = some ps) :
    ps = (targetFlaw? index scope t).toList := by
  unfold targetProblems at h
  unfold targetFlaw?
  cases hname : t.target with
  | choose pick =>
    -- Only a target that is named can be wrong.
    rw [hname] at h
    cases h
    rfl
  | key name =>
    rw [hname] at h
    simp only [Target.key?, Option.bind_some] at h ⊢
    cases hresolve : index.tryResolve scope name with
    | ok path =>
      rw [hresolve] at h
      cases h
      rfl
    | error reason =>
      rw [hresolve] at h
      cases reason <;> cases h <;> rfl

/-- `transitionProblems` is the part of `flaws` that is about transitions. -/
theorem transitionProblems_perm {earlier : List (String × EventKey)}
    {transitions : List TransitionDef}
    (h : transitionProblems index scope level earlier transitions = some ps) :
    ps.Perm (((transitions.map TransitionDef.source).filter (¬ level.declares ·)).map
        (.unknownSource scope) ++
      (repeatsAfter earlier (transitions.map fun t => (t.source, t.event))).map (fun answered =>
        .duplicateTransition (Path.join index.delimiter scope answered.1) answered.2.name) ++
      transitions.filterMap (targetFlaw? index scope)) := by
  induction transitions generalizing earlier ps with
  | nil =>
    cases h
    exact .refl _
  | cons t rest ih =>
    simp only [transitionProblems, Option.bind_eq_bind, Option.bind_eq_some_iff, Option.pure_def,
      Option.some.injEq] at h
    obtain ⟨unresolved, hunresolved, others, hothers, rfl⟩ := h
    obtain rfl := targetProblems_eq hunresolved
    have hrest := ih hothers
    have htarget : (t :: rest).filterMap (targetFlaw? index scope) =
        (targetFlaw? index scope t).toList ++ rest.filterMap (targetFlaw? index scope) := by
      cases hflaw : targetFlaw? index scope t <;> simp [hflaw]
    -- What is reported of a transition is sorted by kind, as it is of a state.
    rw [List.map_cons, List.map_cons, map_repeatsAfter_cons, map_filter_cons, htarget, ite_not]
    rw [List.perm_iff_count] at hrest ⊢
    intro p
    have hrest := hrest p
    simp only [List.count_append] at hrest ⊢
    omega

/-- **`problemsIn` is `flaws` and what `stateProblems` gives**, up to order. -/
theorem problemsIn_perm {inside : String × StateDef → List Problem}
    (h : problemsIn index scope level = some ps)
    (hinside : ∀ entry ∈ level.states, ∀ ps,
      stateProblems index (Path.join index.delimiter scope entry.1) entry.2 = some ps →
        ps.Perm (inside entry)) :
    ps.Perm (level.flaws index scope ++ level.states.flatMap inside) := by
  obtain ⟨states, transitions, initial?, issues⟩ := level
  simp only [problemsIn, Option.bind_eq_bind, Option.bind_eq_some_iff, Option.pure_def,
    Option.some.injEq] at h
  obtain ⟨inStates, hstates, inTransitions, htransitions, rfl⟩ := h
  have hstates := statesProblems_perm hstates hinside
  have htransitions := transitionProblems_perm htransitions
  rw [flaws, repeats_eq_repeatsAfter, repeats_eq_repeatsAfter]
  -- States and transitions are reported with what is inside them. Sorted by kind, they are the
  -- same.
  rw [List.perm_iff_count] at hstates htransitions ⊢
  intro p
  have hstates := hstates p
  have htransitions := htransitions p
  have hinitial : initialProblems scope ⟨states, transitions, initial?, issues⟩ =
      initialFlaws scope ⟨states, transitions, initial?, issues⟩ := rfl
  rw [hinitial]
  simp only [List.count_append] at hstates htransitions ⊢
  omega

/-- The levels of `state`, given the keys that lead to it. -/
def levelsAt (keys : List String) (state : StateDef) : List (List String × Definition) :=
  state.places.filterMap fun place => place.2.level?.map (keys ++ place.1, ·)

/-- `levelsAt` of a composite. -/
theorem levelsAt_composite (keys : List String) (inner : Definition) :
    levelsAt keys (.composite inner) =
      (keys, inner) :: inner.states.flatMap fun entry => levelsAt (keys ++ [entry.1]) entry.2 := by
  rw [levelsAt, StateDef.places, List.filterMap_cons, places_eq, placesOfStates_eq,
    List.filterMap_flatMap]
  simp only [List.filterMap_map, Function.comp_def, StateDef.level?, Option.map_some,
    List.append_nil, levelsAt, List.append_assoc, List.singleton_append]

/-- `stateProblems` is `checkedFlawsAt` of `levelsAt`, up to order, by induction on `state`. -/
theorem stateProblems_perm (state : StateDef) : ∀ keys ps, keys ≠ [] →
    stateProblems index (index.delimiter.intercalate keys) state = some ps →
      ps.Perm ((levelsAt keys state).flatMap (checkedFlawsAt index)) := by
  induction state using StateDef.inside_induction with
  | leaf l =>
    intro keys ps _ h
    cases h
    exact .refl _
  | composite inner ih =>
    intro keys ps hkeys h
    rw [levelsAt_composite, List.flatMap_cons, List.flatMap_assoc, checkedFlawsAt, isBare]
    rw [stateProblems] at h
    split at h
    · -- A composite without states has only this reported.
      rename_i hempty
      cases h
      rw [List.isEmpty_iff.1 hempty]
      simp [hkeys]
    · rename_i hstates
      rw [← Path.scope?_of_ne_nil hkeys] at h
      have hlevel := problemsIn_perm h fun entry hentry ps hps =>
        ih entry hentry (keys ++ [entry.1]) ps (by simp) (by rwa [← Path.join_scope?])
      simpa [hstates] using hlevel

/-- **`d.problems` is `d.checkedFlaws`**, up to order. -/
theorem problems_perm (h : d.problems delimiter = some ps) :
    ps.Perm (d.checkedFlaws delimiter) := by
  have hlevel := problemsIn_perm h fun entry _ ps hps =>
    stateProblems_perm entry.2 [entry.1] ps (List.cons_ne_nil _ _)
      (by rwa [String.intercalate_singleton])
  have hplaces : d.levelPlaces = levelsAt [] (.composite d) := rfl
  rw [checkedFlaws, hplaces, levelsAt_composite, List.flatMap_cons, List.flatMap_assoc]
  exact hlevel

/-! ## Nothing to report -/

/-- `d.allFlaws` is empty exactly if `d.checkedFlaws` is. -/
theorem allFlaws_eq_nil_iff : d.allFlaws delimiter = [] ↔ d.checkedFlaws delimiter = [] := by
  rw [allFlaws, checkedFlaws, List.flatMap_eq_nil_iff, List.flatMap_eq_nil_iff]
  refine forall₂_congr fun place _ => ?_
  rw [checkedFlawsAt]
  by_cases hbare : isBare place <;> simp [hbare, PathIndex.ofDefinition]

/-- **What the check of a definition reports.** With a delimiter `d.problems` comes to an end with a
list `ps`. All of `d.checkedFlaws` is in it as often as it is there: what is wrong on each level,
and of a composite without states just that it is empty. Besides, `ps` may only have some of
`d.bareIssues`, issues from building composites without states. It is `[]` if and only if
`d.allFlaws` is, where the insides of empty composites count as well. -/
theorem exists_reports (hdelimiter : delimiter ≠ "") (d : Definition) :
    ∃ ps, d.problems delimiter = some ps ∧ (d.checkedFlaws delimiter).Subperm ps ∧
      ps.Subperm (d.checkedFlaws delimiter ++ d.bareIssues) ∧
      (ps = [] ↔ d.allFlaws delimiter = []) := by
  obtain ⟨ps, hps⟩ := exists_problems hdelimiter d
  have hperm := problems_perm hps
  refine ⟨ps, hps, hperm.symm.subperm, hperm.subperm.trans ?_, ?_⟩
  · exact (List.sublist_append_left _ _).subperm
  · rw [allFlaws_eq_nil_iff]
    exact ⟨fun hnil => (hnil ▸ hperm).nil_eq.symm, fun hnil => (hnil ▸ hperm).eq_nil⟩

/-- A definition with `Open`, a composite without states and without an initial one. -/
def crate : Definition :=
  ((({} : Definition).state "Shut").composite "Open" {}).initial "Shut"

/-- `exists_reports` for `crate`. -/
theorem crate_reports : "." ≠ "" ∧ ∃ ps, crate.problems "." = some ps ∧
    (crate.checkedFlaws ".").Subperm ps ∧
    ps.Subperm (crate.checkedFlaws "." ++ crate.bareIssues) ∧
    (ps = [] ↔ crate.allFlaws "." = []) := by
  have hdelimiter : "." ≠ "" := by decide
  exact ⟨hdelimiter, exists_reports hdelimiter crate⟩

/-- **`crate` is not reported to have no initial state in `"Open"`**, a composite without states,
although this is among `allFlaws`. -/
theorem crate_missing_initial : crate.level? ["Open"] = some {} ∧
    Problem.missingInitial (some "Open") ∈ crate.allFlaws "." ∧
    crate.problems "." = some [.emptyComposite "Open"] := by
  refine ⟨rfl, ?_, ?_⟩ <;> decide +kernel

/-- A definition that declares `Tray` twice and has an unknown initial state in it. -/
def drawer : Definition :=
  let tray := ((({} : Definition).state "Left").initial "Right").on "Left" "slide" "^^Left"
  (((({} : Definition).composite "Tray" tray).state "Tray").initial "Tray").on "Lid" "lift" "Top"

example : drawer.problems "." = some [.unknownInitial (some "Tray") "Right",
    .escapeBeyondRoot "Tray.Left" "^^Left", .duplicateState none "Tray", .unknownSource none "Lid",
    .unresolvedTarget "Lid" "lift" "Top"] := by
  decide +kernel

end Definition

end Statechart
