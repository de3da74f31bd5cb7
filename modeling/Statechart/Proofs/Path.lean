import Statechart.Path

/-! # Paths of keys

A list of keys is read off its path from the end: cutting off the last key should give the path of
the list without it. This may fail for a delimiter that occurs across the border of two keys. A
delimiter of one character that occurs in no key cannot straddle a border.

* `Path.scope?`: a list of keys as a scope, none of them as the outermost one.
* **`Path.KeepsApart delimiter key`**: the delimiter does not occur across the border before a key.
  `Path.parent?_join_iff`: the last cut of a path takes the key off exactly in this case.
* `Path.Unravels delimiter keys`: every front part of the keys has the one before it as its parent.
  **`Path.Unravels.ancestors?_eq`**: the ancestors are then the paths of the front parts.
* **`Path.Delimits delimiter keys`**: the delimiter is a single character and occurs in no key.
* **`Path.parent?_intercalate`**, `Path.ancestors?_intercalate`, `Path.intercalate_inj`: what such a
  delimiter gives. -/

namespace Statechart

namespace Path

/-! ## Cutting at a character -/

/-- `cut [c]` is `none` exactly if `c` is not in `text`. -/
theorem cut_eq_none_iff {c : Char} {text : List Char} : cut [c] text = none ↔ c ∉ text := by
  induction text with
  | nil => simp [cut]
  | cons b rest ih =>
    -- A text is cut at a later occurrence if there is one, and else here or not at all.
    rw [List.mem_cons, not_or, cut]
    cases hcut : cut [c] rest with
    | some parts =>
      rw [hcut] at ih
      simp [← ih]
    | none =>
      rw [hcut] at ih
      simp [List.isPrefixOf, ← ih]

/-- `cut [c]` cuts at the last `c`. -/
theorem cut_append_cons {c : Char} {before after : List Char} (h : c ∉ after) :
    cut [c] (before ++ c :: after) = some (before, after) := by
  induction before with
  | nil =>
    rw [List.nil_append, cut, cut_eq_none_iff.2 h]
    simp [List.isPrefixOf]
  | cons b rest ih => rw [List.cons_append, cut, ih]

/-- `isQualified` is `false` exactly if `c` is not in `text`. -/
theorem isQualified_eq_false_iff {c : Char} {text : String} :
    isQualified (String.singleton c) text = false ↔ c ∉ text.toList := by
  rw [isQualified, cutLast?, String.toList_singleton, Option.isSome_map, ← cut_eq_none_iff]
  cases cut [c] text.toList <;> simp

/-! ## Keys and their paths -/

/-- **A list of keys as a scope**: their path, or none for `[]`, the outermost scope. -/
def scope? (delimiter : String) : List String → Option String
  | [] => none
  | key :: keys => some (delimiter.intercalate (key :: keys))

/-- `join` of `scope? keys` and the path of `names` is the path of `keys ++ names`. -/
theorem join_scope?_intercalate {delimiter : String} {names : List String} (keys : List String)
    (hne : names ≠ []) :
    join delimiter (scope? delimiter keys) (delimiter.intercalate names) =
      delimiter.intercalate (keys ++ names) := by
  cases keys with
  | nil => rfl
  | cons first rest =>
    rw [String.intercalate_append_of_ne_nil (List.cons_ne_nil _ _) hne]
    rfl

/-- `join` of `scope? keys` and `key` is the path of `keys ++ [key]`. -/
theorem join_scope? (delimiter : String) (keys : List String) (key : String) :
    join delimiter (scope? delimiter keys) key = delimiter.intercalate (keys ++ [key]) := by
  rw [← join_scope?_intercalate keys (List.cons_ne_nil key []), String.intercalate_singleton]

/-- `scope? keys` is the path of `keys ≠ []`. -/
theorem scope?_of_ne_nil {delimiter : String} {keys : List String} (h : keys ≠ []) :
    scope? delimiter keys = some (delimiter.intercalate keys) := by
  cases keys with
  | nil => exact absurd rfl h
  | cons _ _ => rfl

/-- `scope? keys` is `none` exactly for `[]`. -/
theorem scope?_eq_none_iff {delimiter : String} {keys : List String} :
    scope? delimiter keys = none ↔ keys = [] := by
  cases keys <;> simp [scope?]

/-! ## The border before a key -/

/-- `cut` of `front ++ text` cuts `text` at the same place. -/
theorem cut_append_left {delimiter text before after : List Char} (front : List Char)
    (h : cut delimiter text = some (before, after)) :
    cut delimiter (front ++ text) = some (front ++ before, after) := by
  induction front with
  | nil => exact h
  | cons c rest ih => simp [cut, ih]

/-- `cut` of a text that starts with the delimiter. -/
theorem exists_cut_append (delimiter text : List Char) :
    ∃ parts, cut delimiter (delimiter ++ text) = some parts := by
  cases delimiter with
  | nil =>
    -- Nothing occurs at the end of every text.
    induction text with
    | nil => exact ⟨_, rfl⟩
    | cons c rest ih =>
      obtain ⟨parts, hparts⟩ := ih
      rw [List.nil_append] at hparts
      exact ⟨(c :: parts.1, parts.2), by simp [cut, hparts]⟩
  | cons c rest =>
    cases hlater : cut (c :: rest) (rest ++ text) with
    | some parts => exact ⟨(c :: parts.1, parts.2), by simp [cut, hlater]⟩
    | none =>
      have hprefix : (c :: rest).isPrefixOf (c :: (rest ++ text)) = true := by simp
      exact ⟨_, by rw [List.cons_append, cut, hlater, if_pos hprefix]⟩

/-- **`key` keeps apart**: in `delimiter ++ key` the last occurrence of `delimiter` is the one at
the start. -/
def KeepsApart (delimiter key : String) : Prop := parent? delimiter (delimiter ++ key) = some ""

instance (delimiter key : String) : Decidable (KeepsApart delimiter key) :=
  inferInstanceAs (Decidable (_ = _))

/-- **`parent?` of `join scope key` is `scope` exactly if `key` keeps apart.** -/
theorem parent?_join_iff {delimiter scope key : String} :
    parent? delimiter (join delimiter (some scope) key) = some scope ↔
      KeepsApart delimiter key := by
  obtain ⟨⟨before, after⟩, hcut⟩ := exists_cut_append delimiter.toList key.toList
  have hborder : parent? delimiter (delimiter ++ key) = some (String.ofList before) := by
    simp [parent?, cutLast?, hcut]
  have hpath : parent? delimiter (join delimiter (some scope) key) =
      some (scope ++ String.ofList before) := by
    have hlonger := cut_append_left scope.toList hcut
    simp [parent?, cutLast?, join, hlonger, String.ofList_append]
  rw [KeepsApart, hborder, hpath, Option.some.injEq, Option.some.injEq, ← String.toList_inj,
    ← String.toList_inj]
  simp

/-! ## A delimiter of one character -/

/-- **`delimiter` sets `keys` apart**: it is a single character, which occurs in none of them. -/
def Delimits (delimiter : String) (keys : List String) : Prop :=
  ∃ c, delimiter = String.singleton c ∧ ∀ key ∈ keys, c ∉ key.toList

/-- `Delimits` of fewer keys. -/
theorem Delimits.subset {delimiter : String} {keys keys' : List String}
    (h : Delimits delimiter keys) (hs : ∀ key ∈ keys', key ∈ keys) : Delimits delimiter keys' := by
  obtain ⟨c, rfl, hc⟩ := h
  exact ⟨c, rfl, fun key hkey => hc key (hs key hkey)⟩

/-- **`cutLast?` of a path** takes its last key off. -/
theorem cutLast?_intercalate {delimiter : String} {keys : List String} {key : String}
    (h : Delimits delimiter (keys ++ [key])) :
    cutLast? delimiter (delimiter.intercalate (keys ++ [key])) =
      (scope? delimiter keys).map (·, key) := by
  obtain ⟨c, rfl, hc⟩ := h
  have hkey : c ∉ key.toList := hc key (by simp)
  cases keys with
  | nil => simp [cutLast?, scope?, cut_eq_none_iff.2 hkey]
  | cons first rest =>
    rw [String.intercalate_append_of_ne_nil (by simp) (by simp), String.intercalate_singleton,
      cutLast?]
    simp only [String.toList_append, String.toList_singleton, List.append_assoc,
      List.singleton_append]
    rw [cut_append_cons hkey]
    simp only [Option.map_some, String.ofList_toList, scope?]

/-- **`parent?` of a path** is `scope?` of its keys but the last. -/
theorem parent?_intercalate {delimiter : String} {keys : List String} {key : String}
    (h : Delimits delimiter (keys ++ [key])) :
    parent? delimiter (delimiter.intercalate (keys ++ [key])) = scope? delimiter keys := by
  rw [parent?, cutLast?_intercalate h]
  cases scope? delimiter keys <;> rfl

/-- `isQualified` of a path holds exactly if it has more than one key. -/
theorem isQualified_intercalate {delimiter : String} {keys : List String} {key : String}
    (h : Delimits delimiter (keys ++ [key])) :
    isQualified delimiter (delimiter.intercalate (keys ++ [key])) = !keys.isEmpty := by
  rw [isQualified, cutLast?_intercalate h]
  cases keys <;> rfl

/-- **`delimiter.intercalate` is injective** on keys that are set apart. -/
theorem intercalate_inj {delimiter : String} {keys keys' : List String}
    (h : Delimits delimiter keys) (h' : Delimits delimiter keys') (hne : keys ≠ [])
    (hne' : keys' ≠ []) (he : delimiter.intercalate keys = delimiter.intercalate keys') :
    keys = keys' := by
  obtain ⟨c, rfl, hc⟩ := h
  obtain ⟨c', hcc, hc'⟩ := h'
  obtain rfl : c = c' := by simpa using congrArg String.toList hcc
  -- Splitting a path at the delimiter gives its keys back.
  have hsplit := String.toList_split_intercalate hc
  have hsplit' := String.toList_split_intercalate hc'
  rw [if_neg hne] at hsplit
  rw [if_neg hne'] at hsplit'
  rw [← hsplit, ← hsplit', he]

/-! ## Ancestors -/

/-- The front parts of a list of keys that reach no deeper than `depth`, the deepest first. -/
def fronts (keys : List String) : Nat → List (List String)
  | 0 => [keys.take 1]
  | depth + 1 => keys.take (depth + 2) :: fronts keys depth

/-- The members of `fronts keys depth`. -/
theorem mem_fronts_iff {keys front : List String} {depth : Nat} :
    front ∈ fronts keys depth ↔ ∃ i ≤ depth, front = keys.take (i + 1) := by
  induction depth with
  | zero => simp [fronts]
  | succ depth ih =>
    rw [fronts, List.mem_cons, ih]
    constructor
    · rintro (rfl | ⟨i, hi, rfl⟩)
      · exact ⟨depth + 1, Nat.le_refl _, rfl⟩
      · exact ⟨i, Nat.le_succ_of_le hi, rfl⟩
    · rintro ⟨i, hi, rfl⟩
      rcases Nat.lt_or_eq_of_le hi with hlt | rfl
      · exact .inr ⟨i, Nat.le_of_lt_succ hlt, rfl⟩
      · exact .inl rfl

/-- **`keys` unravel**: `parent?` of the path of a front is `scope?` of one key less. -/
def Unravels (delimiter : String) (keys : List String) : Prop :=
  ∀ depth < keys.length, parent? delimiter (delimiter.intercalate (keys.take (depth + 1))) =
    scope? delimiter (keys.take depth)

/-- `ancestorsWithin` of the path of a front, by induction on `depth`. -/
theorem Unravels.ancestorsWithin_eq {delimiter : String} {keys : List String} {depth bound : Nat}
    (h : Unravels delimiter keys) (hne : delimiter ≠ "") (hd : depth < keys.length)
    (hb : (delimiter.intercalate (keys.take (depth + 1))).length < bound) :
    ancestorsWithin delimiter bound (delimiter.intercalate (keys.take (depth + 1))) =
      some ((fronts keys depth).map delimiter.intercalate) := by
  induction depth generalizing bound with
  | zero =>
    obtain ⟨bound, rfl⟩ : ∃ n, bound = n + 1 := ⟨bound - 1, by omega⟩
    rw [ancestorsWithin, h 0 hd]
    rfl
  | succ depth ih =>
    obtain ⟨bound, rfl⟩ : ∃ n, bound = n + 1 := ⟨bound - 1, by omega⟩
    have hkeys : keys.take (depth + 1) ≠ [] := by
      rw [ne_eq, List.take_eq_nil_iff, not_or]
      exact ⟨by omega, List.ne_nil_of_length_pos (by omega)⟩
    -- The parent is shorter than the path, so the bound that remains is enough for it.
    have hparent := h (depth + 1) hd
    rw [scope?_of_ne_nil hkeys] at hparent
    have hlt := length_lt_of_parent? hne hparent
    rw [ancestorsWithin, hparent]
    simp only []
    rw [ih (by omega) (by omega)]
    rfl

/-- **`ancestors?` of a path are the paths of `fronts`**, if its keys unravel. -/
theorem Unravels.ancestors?_eq {delimiter : String} {keys : List String} {depth : Nat}
    (h : Unravels delimiter keys) (hne : delimiter ≠ "") (hd : depth + 1 = keys.length) :
    ancestors? delimiter (delimiter.intercalate keys) =
      some ((fronts keys depth).map delimiter.intercalate) := by
  have htake : keys.take (depth + 1) = keys := by rw [hd, List.take_length]
  have hlength : (delimiter.intercalate (keys.take (depth + 1))).length <
      (delimiter.intercalate keys).length + 1 := by
    rw [htake]
    exact Nat.lt_succ_self _
  have hfronts := h.ancestorsWithin_eq hne (by omega) hlength
  rwa [htake] at hfronts

/-- `parent?` of the path of a front. -/
theorem parent?_take {delimiter : String} {keys : List String} {depth : Nat}
    (h : Delimits delimiter keys) (hd : depth < keys.length) :
    parent? delimiter (delimiter.intercalate (keys.take (depth + 1))) =
      scope? delimiter (keys.take depth) := by
  rw [← List.take_append_getElem hd]
  refine parent?_intercalate (h.subset fun key hkey => ?_)
  rw [List.take_append_getElem hd] at hkey
  exact List.mem_of_mem_take hkey

/-- **`ancestors?` of a path are the paths of `fronts`.** -/
theorem ancestors?_intercalate {delimiter : String} {keys : List String} {depth : Nat}
    (h : Delimits delimiter keys) (hd : depth + 1 = keys.length) :
    ancestors? delimiter (delimiter.intercalate keys) =
      some ((fronts keys depth).map delimiter.intercalate) := by
  have hne : delimiter ≠ "" := by
    obtain ⟨c, rfl, -⟩ := h
    exact String.singleton_ne_empty
  exact Unravels.ancestors?_eq (fun _ => parent?_take h) hne hd

end Path

end Statechart
