import Mathlib.Data.List.Nodup
import Statechart.Machine
import Statechart.Proofs.Definition.Search
import Statechart.Proofs.Path

/-! # The ancestors of a path

A path leads to its ancestors by one cut after the other, each at the last place where the delimiter
occurs, until it does not occur any more. The keys may start or end with the delimiter, or consist
of delimiters, for every cut makes the path shorter. Only an empty delimiter takes nothing away.

* **`Path.IsLastCut`**: the front part before the last occurrence of the delimiter.
  `Path.parent?_eq_some_iff`: this is what the parent of a path is.
* **`Path.Ascends`**: cuts that come to an end, with the list of what they lead through.
  `Path.Ascends.pairwise`, `Path.Ascends.nodup`: the list gets shorter, without repetition.
* **`Path.ancestors?_eq_some_iff`**: the ancestors of a path are the list.
  `Path.exists_ascends_iff`: there is one unless the delimiter is empty.
* **`Machine.lookupKeys?_eq_none_iff`**: when there is no last key to look under. -/

namespace Statechart

namespace Path

variable {delimiter path up : String} {keys : List String}

/-! ## The last cut -/

/-- **`front` comes before an occurrence of `delimiter` in `path`.** -/
def IsFront (delimiter path front : String) : Prop :=
  ∃ back, path = front ++ delimiter ++ back

/-- **`up` is the longest front of `path`.** -/
def IsLastCut (delimiter path up : String) : Prop :=
  IsFront delimiter path up ∧ ∀ front, IsFront delimiter path front → front.length ≤ up.length

/-- `cut` finds an occurrence of `delimiter` that is there or further on. -/
theorem exists_cut_of_append (delimiter front back : List Char) :
    ∃ between after,
      cut delimiter (front ++ delimiter ++ back) = some (front ++ between, after) := by
  obtain ⟨⟨between, after⟩, hcut⟩ := exists_cut_append delimiter back
  refine ⟨between, after, ?_⟩
  rw [List.append_assoc]
  exact cut_append_left front hcut

/-- `path = front ++ delimiter ++ back`, as lists of characters. -/
theorem eq_append_iff {front back : String} : path = front ++ delimiter ++ back ↔
    path.toList = front.toList ++ delimiter.toList ++ back.toList := by
  rw [← String.toList_inj, String.toList_append, String.toList_append]

/-- `parent?` is the first part of `cut`. -/
theorem parent?_eq_some_iff_cut : parent? delimiter path = some up ↔
    ∃ after, cut delimiter.toList path.toList = some (up.toList, after) := by
  rw [parent?, cutLast?, Option.map_map, Option.map_eq_some_iff]
  constructor
  · rintro ⟨⟨before, after⟩, hcut, rfl⟩
    exact ⟨after, by simpa using hcut⟩
  · rintro ⟨after, hcut⟩
    exact ⟨_, hcut, String.ofList_toList⟩

/-- `parent?` is there if `path` has a front. -/
theorem exists_parent?_of_isFront {front : String} (h : IsFront delimiter path front) :
    ∃ up, parent? delimiter path = some up := by
  obtain ⟨back, hpath⟩ := h
  obtain ⟨between, after, hcut⟩ :=
    exists_cut_of_append delimiter.toList front.toList back.toList
  rw [← eq_append_iff.1 hpath] at hcut
  exact ⟨front ++ String.ofList between, parent?_eq_some_iff_cut.2 ⟨after, by simpa using hcut⟩⟩

/-- `parent?` gives `IsLastCut`. -/
theorem isLastCut_of_parent? (h : parent? delimiter path = some up) :
    IsLastCut delimiter path up := by
  obtain ⟨after, hcut⟩ := parent?_eq_some_iff_cut.1 h
  refine ⟨⟨String.ofList after, eq_append_iff.2 ?_⟩, ?_⟩
  · rw [String.toList_ofList]
    exact (cut_append hcut).symm
  · rintro front ⟨back, hpath⟩
    obtain ⟨between, after', hcut'⟩ :=
      exists_cut_of_append delimiter.toList front.toList back.toList
    -- The cut at the end of this front part, or further on, is the one that was made.
    rw [← eq_append_iff.1 hpath, hcut, Option.some.injEq, Prod.mk.injEq] at hcut'
    rw [← String.length_toList, ← String.length_toList, hcut'.1, List.length_append]
    exact Nat.le_add_right _ _

/-- `IsLastCut` holds of one text at most. -/
theorem IsLastCut.unique {up' : String} (h : IsLastCut delimiter path up)
    (h' : IsLastCut delimiter path up') : up = up' := by
  obtain ⟨⟨back, hpath⟩, hmax⟩ := h
  obtain ⟨⟨back', hpath'⟩, hmax'⟩ := h'
  have hlength : up.length = up'.length :=
    Nat.le_antisymm (hmax' up ⟨back, hpath⟩) (hmax up' ⟨back', hpath'⟩)
  -- Front parts of one path that are equally long are the same.
  have hboth := (eq_append_iff.1 hpath).symm.trans (eq_append_iff.1 hpath')
  rw [← String.length_toList, ← String.length_toList] at hlength
  rw [List.append_assoc, List.append_assoc] at hboth
  exact String.toList_inj.1 (List.append_inj_left hboth hlength)

/-- **`parent?` is the longest front** (`IsLastCut`). -/
theorem parent?_eq_some_iff : parent? delimiter path = some up ↔ IsLastCut delimiter path up := by
  refine ⟨isLastCut_of_parent?, fun h => ?_⟩
  obtain ⟨up', hup'⟩ := exists_parent?_of_isFront h.1
  rw [hup', (isLastCut_of_parent? hup').unique h]

/-- **`parent?` is `none` exactly if there is no front.** -/
theorem parent?_eq_none_iff :
    parent? delimiter path = none ↔ ∀ front, ¬ IsFront delimiter path front := by
  rw [Option.eq_none_iff_forall_ne_some]
  refine ⟨fun h front hfront => ?_, fun h up hup => h up (isLastCut_of_parent? hup).1⟩
  obtain ⟨up, hup⟩ := exists_parent?_of_isFront hfront
  exact h up hup

/-! ## Cutting again and again -/

/-- **`path` ascends through a list**: cut again and again (`IsLastCut`), it comes to a path without
a front. The list is `path` and what the cuts leave, the shortest last. -/
inductive Ascends (delimiter : String) : String → List String → Prop
  | outermost {path : String} (h : ∀ front, ¬ IsFront delimiter path front) :
    Ascends delimiter path [path]
  | cut {path up : String} {keys : List String} (h : IsLastCut delimiter path up)
    (above : Ascends delimiter up keys) : Ascends delimiter path (path :: keys)

/-- The last cut with the empty delimiter leaves `path` itself. -/
theorem isLastCut_empty (path : String) : IsLastCut "" path path :=
  parent?_eq_some_iff.1 (parent?_empty path)

namespace Ascends

/-- `Ascends` holds of one list at most. -/
theorem unique {keys' : List String} (h : Ascends delimiter path keys)
    (h' : Ascends delimiter path keys') : keys = keys' := by
  induction h generalizing keys' with
  | outermost hnone =>
    cases h' with
    | outermost => rfl
    | cut hcut => exact absurd hcut.1 (hnone _)
  | cut hcut _ ih =>
    cases h' with
    | outermost hnone => exact absurd hcut.1 (hnone _)
    | cut hcut' above => rw [ih (hcut.unique hcut' ▸ above)]

/-- `Ascends` holds for no list if `delimiter` is empty. -/
theorem delimiter_ne_empty (h : Ascends delimiter path keys) : delimiter ≠ "" := by
  rintro rfl
  -- Every cut leaves the path as it is, and there is always one more.
  induction h with
  | @outermost path hnone => exact hnone path (isLastCut_empty path).1
  | cut _ _ ih => exact ih

/-- `path` is the first of the list. -/
theorem head?_eq (h : Ascends delimiter path keys) : keys.head? = some path := by
  cases h <;> rfl

/-- The texts in the list are not longer than `path`. -/
theorem length_le (h : Ascends delimiter path keys) : ∀ key ∈ keys, key.length ≤ path.length := by
  induction h with
  | outermost =>
    exact fun key hkey => Nat.le_of_eq (congrArg String.length (List.mem_singleton.1 hkey))
  | cut hcut above ih =>
    intro key hkey
    rcases List.mem_cons.1 hkey with rfl | hkey
    · exact Nat.le_refl _
    · have hlt := length_lt_of_parent? above.delimiter_ne_empty (parent?_eq_some_iff.2 hcut)
      exact Nat.le_trans (ih key hkey) (Nat.le_of_lt hlt)

/-- **The lengths of the list are strictly decreasing.** -/
theorem pairwise (h : Ascends delimiter path keys) :
    keys.Pairwise fun inner outer => outer.length < inner.length := by
  induction h with
  | outermost => exact List.pairwise_singleton _ _
  | cut hcut above ih =>
    -- The first cut makes the path shorter, and no later one makes it longer again.
    refine List.pairwise_cons.2 ⟨fun key hkey => ?_, ih⟩
    have hlt := length_lt_of_parent? above.delimiter_ne_empty (parent?_eq_some_iff.2 hcut)
    exact Nat.lt_of_le_of_lt (above.length_le key hkey) hlt

/-- **The list has no duplicates.** -/
theorem nodup (h : Ascends delimiter path keys) : keys.Nodup :=
  h.pairwise.imp fun hlt heq => absurd hlt (by rw [heq]; exact Nat.lt_irrefl _)

end Ascends

/-! ## The ancestors -/

/-- `ancestorsWithin` is `none` with the empty delimiter. -/
theorem ancestorsWithin_empty (bound : Nat) (path : String) :
    ancestorsWithin "" bound path = none := by
  induction bound with
  | zero => rfl
  | succ bound ih =>
    rw [ancestorsWithin, parent?_empty]
    show (ancestorsWithin "" bound path).map _ = none
    rw [ih, Option.map_none]

/-- **`ancestors?` is `none` exactly if `delimiter` is empty.** -/
theorem ancestors?_eq_none_iff : ancestors? delimiter path = none ↔ delimiter = "" := by
  constructor
  · intro h
    refine Decidable.byContradiction fun hne => ?_
    have hsome := isSome_ancestors? hne path
    rw [h] at hsome
    cases hsome
  · rintro rfl
    exact ancestorsWithin_empty _ _

/-- `ancestorsWithin` gives a list that `path` ascends through. -/
theorem ascends_of_ancestorsWithin {bound : Nat}
    (h : ancestorsWithin delimiter bound path = some keys) : Ascends delimiter path keys := by
  induction bound generalizing path keys with
  | zero => cases h
  | succ bound ih =>
    rw [ancestorsWithin] at h
    split at h
    · rename_i hnone
      cases h
      exact .outermost (parent?_eq_none_iff.1 hnone)
    · rename_i up hup
      obtain ⟨above, habove, rfl⟩ := Option.map_eq_some_iff.1 h
      exact .cut (parent?_eq_some_iff.1 hup) (ih habove)

/-- **`ancestors?` is the list that `path` ascends through.** -/
theorem ancestors?_eq_some_iff :
    ancestors? delimiter path = some keys ↔ Ascends delimiter path keys := by
  refine ⟨ascends_of_ancestorsWithin, fun h => ?_⟩
  obtain ⟨keys', hkeys'⟩ :=
    Option.isSome_iff_exists.1 (isSome_ancestors? h.delimiter_ne_empty path)
  rw [hkeys', (ascends_of_ancestorsWithin hkeys').unique h]

/-- **`path` ascends through some list** unless `delimiter` is empty. -/
theorem exists_ascends_iff : (∃ keys, Ascends delimiter path keys) ↔ delimiter ≠ "" := by
  refine ⟨fun ⟨keys, h⟩ => h.delimiter_ne_empty, fun hne => ?_⟩
  obtain ⟨keys, hkeys⟩ := Option.isSome_iff_exists.1 (isSome_ancestors? hne path)
  exact ⟨keys, ancestors?_eq_some_iff.1 hkeys⟩

end Path

/-! ## The keys to look under -/

namespace Machine

variable {σ : Type} {m : Machine σ} {event : Event} {delimiter : String} {keys : List String}

/-- `m.lookupKeys?` is `Path.ancestors?` of the current key, but for exits of nested states. -/
theorem lookupKeys?_eq_ancestors? (hlookup : m.config.lookup = .ancestors delimiter)
    (hevent : ∀ path, event ≠ .childExit (.path path)) :
    m.lookupKeys? event = Path.ancestors? delimiter m.current.state.key := by
  rw [lookupKeys?, hlookup]
  dsimp only
  split
  · exact absurd rfl (hevent _)
  · rfl

/-- **`m.lookupKeys?` is `none` exactly with `Lookup.ancestors ""`**, and for no exit of a nested
state. -/
theorem lookupKeys?_eq_none_iff : m.lookupKeys? event = none ↔
    m.config.lookup = .ancestors "" ∧ ∀ path, event ≠ .childExit (.path path) := by
  rw [lookupKeys?]
  split
  · rename_i hlookup
    simp [hlookup]
  · rename_i delimiter hlookup
    split
    · rename_i path
      simp
    · rename_i hnot
      rw [Path.ancestors?_eq_none_iff, hlookup]
      simp only [Lookup.ancestors.injEq]
      exact ⟨fun hempty => ⟨hempty, fun path heq => hnot path heq⟩, And.left⟩

/-- **`m.candidates?` is `none` exactly if `m.lookupKeys?` is.** -/
theorem candidates?_eq_none_iff : m.candidates? event = none ↔
    m.config.lookup = .ancestors "" ∧ ∀ path, event ≠ .childExit (.path path) :=
  Option.map_eq_none_iff.trans lookupKeys?_eq_none_iff

end Machine

end Statechart
