import Statechart.Config.Format
import Statechart.Flat
import Statechart.Proofs.Definition.Reports

/-! # When the check of a definition ends

The check of a definition looks for the targets of all levels that it goes into, and these searches
are all of it that may never end. With a delimiter they do. Without one a search from inside a
composite ends only if the target is found there, although no key of any state is valid then: the
check does not get to say so.

* `Definition.isSome_problems_iff`: the check ends if all the searches do.
* `Definition.invalidStateName_mem`: without a delimiter all keys are invalid.
* **`Definition.check_ends_iff`**: when the check ends, and what it reports without a delimiter.
* `Definition.lane`: a definition whose check does not end. -/

namespace Statechart

namespace Definition

variable {index : PathIndex} {delimiter : String} {d : Definition} {keys : List String}
  {ps : List Problem}

/-! ## All searches -/

/-- **`SearchesEnd` holds of the level `place.2`**, if the check goes into it: it does not go into
composites without states. -/
def IsSearchable (index : PathIndex) (place : List String × Definition) : Prop :=
  isBare place = false → place.2.SearchesEnd index (Path.scope? index.delimiter place.1)

/-- `problemsIn` ends exactly if all levels are `IsSearchable`, given that this is so of
`stateProblems` for each state. -/
theorem isSome_problemsIn_iff_isSearchable {level : Definition}
    (hbare : isBare (keys, level) = false)
    (inside : ∀ entry ∈ level.states,
      ((stateProblems index (index.delimiter.intercalate (keys ++ [entry.1])) entry.2).isSome =
        true ↔ ∀ place ∈ levelsAt (keys ++ [entry.1]) entry.2, IsSearchable index place)) :
    (problemsIn index (Path.scope? index.delimiter keys) level).isSome = true ↔
      ∀ place ∈ levelsAt keys (.composite level), IsSearchable index place := by
  have hown : IsSearchable index (keys, level) ↔
      level.SearchesEnd index (Path.scope? index.delimiter keys) := by
    simp only [IsSearchable, hbare, forall_const]
  rw [isSome_problemsIn_iff, levelsAt_composite, List.forall_mem_cons, hown, and_comm]
  simp only [Path.join_scope?, List.mem_flatMap]
  rw [forall₂_congr inside]
  exact and_congr_right fun _ => ⟨fun h place ⟨entry, hentry, hplace⟩ =>
    h entry hentry place hplace, fun h entry hentry place hplace => h place ⟨entry, hentry, hplace⟩⟩

/-- `stateProblems` ends exactly if all levels inside `state` are `IsSearchable`, by induction on
`state`. -/
theorem isSome_stateProblems_iff (state : StateDef) : ∀ keys, keys ≠ [] →
    ((stateProblems index (index.delimiter.intercalate keys) state).isSome = true ↔
      ∀ place ∈ levelsAt keys state, IsSearchable index place) := by
  induction state using StateDef.inside_induction with
  | leaf l =>
    intro keys _
    exact iff_of_true rfl fun place hplace => by cases hplace
  | composite inner ih =>
    intro keys hkeys
    rw [stateProblems]
    cases hempty : inner.states.isEmpty with
    | true =>
      -- Nothing is searched for here.
      have hbare : isBare (keys, inner) = true := by simp [isBare, hkeys, hempty]
      rw [if_pos rfl, levelsAt_composite, List.isEmpty_iff.1 hempty]
      simp [IsSearchable, hbare]
    | false =>
      have hbare : isBare (keys, inner) = false := by simp [isBare, hempty]
      rw [if_neg Bool.false_ne_true, ← Path.scope?_of_ne_nil hkeys]
      exact isSome_problemsIn_iff_isSearchable hbare fun entry hentry =>
        ih entry hentry (keys ++ [entry.1]) (by simp)

/-- **`d.problems` ends exactly if all of `d.levelPlaces` are `IsSearchable`.** -/
theorem isSome_problems_iff : (d.problems delimiter).isSome = true ↔
    ∀ place ∈ d.levelPlaces, IsSearchable (.ofDefinition delimiter d) place := by
  have houter : isBare ([], d) = false := rfl
  exact isSome_problemsIn_iff_isSearchable houter fun entry _ =>
    isSome_stateProblems_iff entry.2 [entry.1] (List.cons_ne_nil _ _)

/-! ## Without a delimiter -/

/-- **`d.problems ""` reports all keys as invalid**, on every level that the check goes into. -/
theorem invalidStateName_mem (h : d.problems "" = some ps) {place : List String × Definition}
    (hplace : place ∈ d.levelPlaces) (hbare : isBare place = false) {key : String}
    (hkey : key ∈ place.2.states.map Prod.fst) :
    .invalidStateName (Path.scope? "" place.1) key ∈ ps := by
  have hplain : ¬ IsPlainKey "" key := fun hplain => by
    have hqualified := hplain.2.2
    rw [Path.isQualified_empty] at hqualified
    cases hqualified
  have hflaw : Problem.invalidStateName (Path.scope? "" place.1) key ∈
      checkedFlawsAt (.ofDefinition "" d) place := by
    rw [checkedFlawsAt, if_neg (by simp [hbare]), flaws]
    have hnames : key ∈ (place.2.states.map Prod.fst).filter
        (¬ IsPlainKey (PathIndex.ofDefinition "" d).delimiter ·) :=
      List.mem_filter.2 ⟨hkey, decide_eq_true hplain⟩
    simp only [List.mem_append]
    exact .inl (.inl (.inl (.inl (.inr (List.mem_map_of_mem hnames)))))
  exact (problems_perm h).mem_iff.2 (List.mem_flatMap.2 ⟨place, hplace, hflaw⟩)

/-- **When the check of a definition ends.** `d.problems delimiter` comes to an end if and only if
the search for every target that is named does (`PathIndex.LocateEnds`), on every level that is not
bare. A search ends if and only if the delimiter is not empty, or it starts outside of all
composites, or it finds its target at once in the scope it starts in. So with a delimiter every
check ends. If one ends without a delimiter, it reports each key on these levels as
`.invalidStateName`. -/
theorem check_ends_iff (delimiter : String) (d : Definition) :
    ((∃ ps, d.problems delimiter = some ps) ↔
      ∀ place ∈ d.levelPlaces, isBare place = false →
        ∀ t ∈ place.2.transitions, ∀ name, t.target = .key name →
          (PathIndex.ofDefinition delimiter d).LocateEnds (Path.scope? delimiter place.1) name) ∧
    (∀ scope target, (PathIndex.ofDefinition delimiter d).LocateEnds scope target ↔
      (delimiter = "" → ∀ path, scope = some path →
        (PathIndex.ofDefinition delimiter d).contains (path ++ PathIndex.bareName target) = true)) ∧
    (delimiter ≠ "" → ∃ ps, d.problems delimiter = some ps) ∧
    (delimiter = "" → ∀ ps, d.problems delimiter = some ps →
      ∀ place ∈ d.levelPlaces, isBare place = false → ∀ key ∈ place.2.states.map Prod.fst,
        Problem.invalidStateName (Path.scope? delimiter place.1) key ∈ ps) := by
  refine ⟨?_, fun scope target => PathIndex.locateEnds_iff, fun hdelimiter =>
    exists_problems hdelimiter d, ?_⟩
  · rw [← Option.isSome_iff_exists, isSome_problems_iff]
    rfl
  · rintro rfl ps hps place hplace hbare key hkey
    exact invalidStateName_mem hps hplace hbare hkey

/-- A definition where `leave` leads from `Car` inside `Lane` to `End` around it. -/
def lane : Definition :=
  let inner := ((({} : Definition).state "Car").on "Car" "leave" "End").initial "Car"
  ((({} : Definition).composite "Lane" inner).state "End").initial "Lane"

/-- **Without a delimiter the check of `lane` never ends**, and no settings forbid an empty one:
from `"Lane"`, `"End"` is looked for in `"Lane"` over and over, so `SearchEnds` holds for no result.
With the delimiter `"."` nothing is wrong with `lane`. -/
theorem lane_never_checked :
    (FlattenConfig.ofJson "\x7b\"delimiter\":\"\"\x7d").toOption.map (·.delimiter) = some "" ∧
      ¬ (∃ result, (PathIndex.ofDefinition "" lane).SearchEnds "End" (some "Lane") result) ∧
      lane.problems "" = none ∧ FlatDefinition.ofDefinition { delimiter := "" } lane = none ∧
      lane.problems "." = some [] := by
  refine ⟨by decide +kernel, ?_, by decide +kernel, ?_, by decide +kernel⟩
  · rw [← PathIndex.search_eq_endless_iff]
    decide +kernel
  · have hendless : lane.problems "" = none := by decide +kernel
    rw [FlatDefinition.ofDefinition, hendless]
    rfl

end Definition

end Statechart
