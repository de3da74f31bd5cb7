import Mathlib.Data.List.Induction
import Statechart.Definition.Validation
import Statechart.Proofs.Definition.Index

/-! # Paths as identities of states

A checked definition has plain keys, but its paths tell its states apart only if the delimiter does
not straddle the border between two keys. A delimiter of one character never does. A longer one may:
with the delimiter `::`, the state `:B` in `A` and the state `B` in `A:` have one path.

* `Definition.PathsIdentify`: different states have different paths, and the parent of a path is the
  path of the composite around the state.
* `Definition.KeepsApart`: the keys inside composites keep apart from what comes before them.
* **`Definition.pathsIdentify_iff_keepsApart`**: for a checked definition the two are the same. -/

namespace Statechart

namespace Definition

variable {delimiter key key' : String} {d level level' : Definition} {keys keys' : List String}

/-- **The paths of `d` identify its states.** -/
structure PathsIdentify (delimiter : String) (d : Definition) : Prop where
  /-- Different states have different paths. -/
  injective : ∀ keys level key keys' level' key', d.level? keys = some level →
    level.declares key = true → d.level? keys' = some level' → level'.declares key' = true →
    Path.join delimiter (Path.scope? delimiter keys) key =
      Path.join delimiter (Path.scope? delimiter keys') key' → keys = keys' ∧ key = key'
  /-- The parent of a path is the path of the composite around the state, if there is one. -/
  parent?_eq : ∀ keys level key, d.level? keys = some level → level.declares key = true →
    Path.parent? delimiter (Path.join delimiter (Path.scope? delimiter keys) key) =
      Path.scope? delimiter keys
  /-- The ancestors of a path are the paths of the state and of the composites around it. -/
  ancestors?_eq : ∀ keys level key, d.level? keys = some level → level.declares key = true →
    Path.ancestors? delimiter (Path.join delimiter (Path.scope? delimiter keys) key) =
      some ((Path.fronts (keys ++ [key]) keys.length).map delimiter.intercalate)

/-- **The keys of `d` keep apart**: `Path.KeepsApart` holds of every key that is declared inside a
composite. -/
def KeepsApart (delimiter : String) (d : Definition) : Prop :=
  ∀ entry ∈ d.states, ∀ level ∈ entry.2.levels, ∀ key ∈ level.states.map Prod.fst,
    Path.KeepsApart delimiter key

instance (delimiter : String) (d : Definition) : Decidable (d.KeepsApart delimiter) :=
  inferInstanceAs (Decidable (∀ entry ∈ d.states, ∀ level ∈ entry.2.levels,
    ∀ key ∈ level.states.map Prod.fst, Path.KeepsApart delimiter key))

/-! ## Levels inside composites -/

/-- `inner.levels` are `inner` and those of its states. -/
theorem mem_levels_iff {inner : Definition} :
    level ∈ inner.levels ↔ level = inner ∨ ∃ entry ∈ inner.states, level ∈ entry.2.levels := by
  obtain ⟨states, transitions, initial?, issues⟩ := inner
  rw [levels, List.mem_cons]
  refine or_congr_right ⟨exists_of_mem_levelsOfStates, ?_⟩
  rintro ⟨entry, hentry, hlevel⟩
  exact mem_levelsOfStates hentry hlevel

/-- The levels inside the states of `d` are those at `keys ≠ []`. -/
theorem Orderly.exists_mem_levels_iff (h : d.Orderly delimiter) :
    (∃ entry ∈ d.states, level ∈ entry.2.levels) ↔
      ∃ keys, keys ≠ [] ∧ d.level? keys = some level := by
  have hcollect := h.exists_collect_iff (fun _ state => state.levels)
    (fun _ state level => state = .composite level) (by simp [StateDef.levels]) (by
      intro keys inner level _
      rw [StateDef.levels, mem_levels_iff, StateDef.composite.injEq, eq_comm]) level
  rw [hcollect]
  simp only [level?_eq_some_iff]
  constructor
  · rintro ⟨keys, _, hne, hat, rfl⟩
    exact ⟨keys, hne, hat⟩
  · rintro ⟨keys, hne, hat⟩
    exact ⟨keys, _, hne, hat, rfl⟩

/-- `level.declares key` exactly if `key` is among the keys of the states. -/
theorem IsOrderly.declares_iff (h : level.IsOrderly delimiter) :
    level.declares key = true ↔ key ∈ level.states.map Prod.fst := by
  rw [declares, Option.isSome_iff_exists, List.mem_map]
  constructor
  · rintro ⟨state, hstate⟩
    exact ⟨(key, state), mem_of_state? hstate, rfl⟩
  · rintro ⟨⟨_, state⟩, hmem, rfl⟩
    exact ⟨state, h.state?_of_mem hmem⟩

/-- `d.KeepsApart`, in terms of `d.level?`. -/
theorem Orderly.keepsApart_iff (h : d.Orderly delimiter) :
    d.KeepsApart delimiter ↔ ∀ keys level key, keys ≠ [] → d.level? keys = some level →
      level.declares key = true → Path.KeepsApart delimiter key := by
  constructor
  · intro hapart keys level key hne hlevel hkey
    obtain ⟨entry, hentry, hinside⟩ := h.exists_mem_levels_iff.2 ⟨keys, hne, hlevel⟩
    exact hapart entry hentry level hinside key ((h.level? hlevel).declares_iff.1 hkey)
  · intro hapart entry hentry level hinside key hkey
    obtain ⟨keys, hne, hlevel⟩ := h.exists_mem_levels_iff.1 ⟨entry, hentry, hinside⟩
    exact hapart keys level key hne hlevel ((h.level? hlevel).declares_iff.2 hkey)

/-- The last of some keys that lead to a level is declared on the level before. -/
theorem exists_of_level?_concat (h : d.level? (keys ++ [key]) = some level) :
    ∃ around, d.level? keys = some around ∧ around.declares key = true := by
  obtain ⟨around, haround, hstate⟩ := exists_level?_of_at?_concat (level?_eq_some_iff.1 h)
  exact ⟨around, haround, Option.isSome_iff_exists.2 ⟨_, hstate⟩⟩

/-! ## Parents, ancestors and injectivity -/

/-- **`Path.parent?` is the path of the composite around**, if keys keep apart. -/
theorem KeepsApart.parent?_eq (h : d.Orderly delimiter) (hapart : d.KeepsApart delimiter)
    (hlevel : d.level? keys = some level) (hkey : level.declares key = true) :
    Path.parent? delimiter (Path.join delimiter (Path.scope? delimiter keys) key) =
      Path.scope? delimiter keys := by
  cases hkeys : Path.scope? delimiter keys with
  | none =>
    -- On the outermost level there is no border, and the key itself is plain.
    have hplain := ((h.level? hlevel).isPlainKey hkey).2.2
    rw [Path.isQualified, Option.isSome_eq_false_iff, Option.isNone_iff_eq_none] at hplain
    rw [Path.join, Path.parent?, hplain]
    rfl
  | some scope =>
    have hne : keys ≠ [] := by
      rintro rfl
      simp [Path.scope?] at hkeys
    exact Path.parent?_join_iff.2 (h.keepsApart_iff.1 hapart keys level key hne hlevel hkey)

/-- `Path.Unravels` holds of the keys of a state, if keys keep apart. -/
theorem KeepsApart.unravels (h : d.Orderly delimiter) (hapart : d.KeepsApart delimiter)
    (hlevel : d.level? keys = some level) (hkey : level.declares key = true) :
    Path.Unravels delimiter (keys ++ [key]) := by
  induction keys using List.reverseRecOn generalizing level key with
  | nil =>
    intro depth hdepth
    obtain rfl : depth = 0 := by simpa using hdepth
    simpa [Path.join, Path.scope?] using hapart.parent?_eq h hlevel hkey
  | append_singleton front last ih =>
    intro depth hdepth
    by_cases hlast : depth = (front ++ [last]).length
    · subst hlast
      rw [List.take_left, List.take_of_length_le (by simp), ← Path.join_scope?]
      exact hapart.parent?_eq h hlevel hkey
    · -- Any other front part lies in the keys of the composite around.
      obtain ⟨around, haround, hdeclared⟩ := exists_of_level?_concat hlevel
      have hshort : depth < (front ++ [last]).length := by
        simp only [List.length_append, List.length_singleton] at hdepth hlast ⊢
        omega
      have hfront := ih haround hdeclared depth hshort
      rwa [List.take_append_of_le_length (Nat.succ_le_of_lt hshort),
        List.take_append_of_le_length (Nat.le_of_lt hshort)]

/-- **Different states have different paths**, if keys keep apart. -/
theorem KeepsApart.injective (h : d.Orderly delimiter) (hapart : d.KeepsApart delimiter)
    (hlevel : d.level? keys = some level) (hkey : level.declares key = true)
    (hlevel' : d.level? keys' = some level') (hkey' : level'.declares key' = true)
    (hpath : Path.join delimiter (Path.scope? delimiter keys) key =
      Path.join delimiter (Path.scope? delimiter keys') key') : keys = keys' ∧ key = key' := by
  -- Equal paths have equal parents, so the induction is on the composites around.
  induction keys using List.reverseRecOn generalizing level key keys' level' key' with
  | nil =>
    have hparent := hapart.parent?_eq h hlevel hkey
    rw [hpath, hapart.parent?_eq h hlevel' hkey'] at hparent
    obtain rfl : keys' = [] := Path.scope?_eq_none_iff.1 hparent
    exact ⟨rfl, hpath⟩
  | append_singleton front last ih =>
    have hparent := hapart.parent?_eq h hlevel hkey
    rw [hpath, hapart.parent?_eq h hlevel' hkey'] at hparent
    rcases List.eq_nil_or_concat' keys' with rfl | ⟨front', last', rfl⟩
    · have hnil := Path.scope?_eq_none_iff.1 hparent.symm
      simp at hnil
    · rw [Path.scope?_of_ne_nil (by simp), Path.scope?_of_ne_nil (by simp), Option.some.injEq,
        ← Path.join_scope?, ← Path.join_scope?] at hparent
      obtain ⟨around, haround, hdeclared⟩ := exists_of_level?_concat hlevel
      obtain ⟨around', haround', hdeclared'⟩ := exists_of_level?_concat hlevel'
      obtain ⟨rfl, rfl⟩ := ih haround hdeclared haround' hdeclared' hparent.symm
      refine ⟨rfl, ?_⟩
      simpa [Path.join, Path.scope?_of_ne_nil, ← String.toList_inj] using hpath

/-- The delimiter of an orderly level is not empty. -/
theorem IsOrderly.delimiter_ne_empty (h : level.IsOrderly delimiter)
    (hkey : level.declares key = true) : delimiter ≠ "" := by
  rintro rfl
  have hplain := (h.isPlainKey hkey).2.2
  obtain ⟨parts, hparts⟩ := Path.exists_cut_append [] key.toList
  rw [List.nil_append] at hparts
  simp [Path.isQualified, Path.cutLast?, hparts] at hplain

/-- **The paths of a checked definition identify its states**, `d.PathsIdentify delimiter`, exactly
if its keys keep apart, `d.KeepsApart delimiter`. This is so for every `delimiter` with which
`d.problems` finds nothing wrong. -/
theorem pathsIdentify_iff_keepsApart (h : d.problems delimiter = some []) :
    d.PathsIdentify delimiter ↔ d.KeepsApart delimiter := by
  have hd := orderly_of_problems h
  constructor
  · -- That the parent of a path is the scope of its level is all that is needed.
    intro hidentify
    rw [hd.keepsApart_iff]
    intro keys level key hne hlevel hkey
    have hparent := hidentify.parent?_eq keys level key hlevel hkey
    rw [Path.scope?_of_ne_nil hne] at hparent
    exact Path.parent?_join_iff.1 hparent
  · -- Where keys keep apart, a path can be taken to pieces, and that settles all three.
    intro hapart
    refine ⟨?_, ?_, ?_⟩
    · intro keys level key keys' level' key' hlevel hkey hlevel' hkey' hpath
      exact hapart.injective hd hlevel hkey hlevel' hkey' hpath
    · intro keys level key hlevel hkey
      exact hapart.parent?_eq hd hlevel hkey
    · intro keys level key hlevel hkey
      rw [Path.join_scope?]
      exact (hapart.unravels hd hlevel hkey).ancestors?_eq
        ((hd.level? hlevel).delimiter_ne_empty hkey) (by simp)

/-- A definition with `B` in `A:` and `:B` in `A`. -/
def houses : Definition :=
  let first := (({} : Definition).state "B").initial "B"
  let second := (({} : Definition).state ":B").initial ":B"
  ((({} : Definition).composite "A:" first).composite "A" second).initial "A"

/-- `pathsIdentify_iff_keepsApart` for `houses` with the delimiter `"->"`, which keeps the rooms
apart. -/
theorem houses_paths_identify : houses.problems "->" = some [] ∧ houses.PathsIdentify "->" := by
  have hproblems : houses.problems "->" = some [] := by decide +kernel
  exact ⟨hproblems, (pathsIdentify_iff_keepsApart hproblems).2 (by decide +kernel)⟩

/-- **The delimiter `"::"` does not keep the rooms apart**: `houses.problems "::"` is `some []`, but
both rooms have the path `A:::B`. -/
theorem houses_share_path : houses.problems "::" = some [] ∧ ¬ houses.PathsIdentify "::" := by
  refine ⟨by decide +kernel, fun hidentify => ?_⟩
  have hsame : Path.join "::" (Path.scope? "::" ["A:"]) "B" =
      Path.join "::" (Path.scope? "::" ["A"]) ":B" := by decide +kernel
  have hkeys := (hidentify.injective ["A:"] _ "B" ["A"] _ ":B" rfl (by decide) rfl (by decide)
    hsame).1
  exact absurd hkeys (by decide)

end Definition

end Statechart
