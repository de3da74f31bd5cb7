/-!
# Delimited paths

A path is a text in which a delimiter separates the keys of nested states. A path is read from its
end: `cutLast?` cuts it at the last place where the delimiter occurs.

* `Path.join`: the path of a state within a scope.
* `Path.parent?`: the path without its last key.
* `Path.ancestors?`: the path, its parent, the parent of that, and so on.

An empty delimiter occurs at the end of every text, so a path is then its own parent and the
sequence of ancestors never ends. `ancestors?` answers `none` in this case.

Main statements: `Path.cut_append` says that a cut loses nothing, `Path.length_lt_of_cut` that a cut
at a delimiter which is not empty shortens, and `Path.isSome_ancestors?` that every path then has
its ancestors.
-/

namespace Statechart

namespace Path

/-- **The last cut**: the part before and the part after the last occurrence of `delimiter`. -/
def cut (delimiter : List Char) : List Char → Option (List Char × List Char)
  | [] => if delimiter = [] then some ([], []) else none
  | c :: rest =>
    match cut delimiter rest with
    | some (before, after) => some (c :: before, after)
    | none =>
      if delimiter.isPrefixOf (c :: rest) then some ([], (c :: rest).drop delimiter.length)
      else none

/-- The two parts of `cut` and the delimiter make up the text. -/
theorem cut_append {delimiter text before after : List Char}
    (h : cut delimiter text = some (before, after)) : before ++ delimiter ++ after = text := by
  induction text generalizing before after with
  | nil =>
    simp only [cut] at h
    split at h
    · rename_i hd
      cases h
      simp [hd]
    · cases h
  | cons c rest ih =>
    simp only [cut] at h
    split at h
    · rename_i b a hr
      cases h
      simpa using ih hr
    · split at h
      · rename_i hp
        cases h
        obtain ⟨t, ht⟩ := List.isPrefixOf_iff_prefix.1 hp
        rw [← ht]
        simp
      · cases h

/-- The first part of `cut` is shorter than the text, unless the delimiter is empty. -/
theorem length_lt_of_cut {delimiter text before after : List Char} (hd : delimiter ≠ [])
    (h : cut delimiter text = some (before, after)) : before.length < text.length := by
  have hl := congrArg List.length (cut_append h)
  have : 0 < delimiter.length := List.length_pos_iff.2 hd
  simp only [List.length_append] at hl
  omega

/-- The two parts of `text` around the last occurrence of `delimiter`. -/
def cutLast? (delimiter text : String) : Option (String × String) :=
  (cut delimiter.toList text.toList).map fun parts =>
    (String.ofList parts.1, String.ofList parts.2)

/-- Whether `delimiter` occurs in `text`. -/
def isQualified (delimiter text : String) : Bool := (cutLast? delimiter text).isSome

/-- `path` without its last key. -/
def parent? (delimiter path : String) : Option String := (cutLast? delimiter path).map Prod.fst

/-- `parent?` is shorter than `path`, unless the delimiter is empty. -/
theorem length_lt_of_parent? {delimiter path up : String} (hd : delimiter ≠ "")
    (h : parent? delimiter path = some up) : up.length < path.length := by
  obtain ⟨⟨before, after⟩, hc, rfl⟩ := Option.map_eq_some_iff.1 h
  obtain ⟨⟨b, a⟩, hcut, he⟩ := Option.map_eq_some_iff.1 hc
  cases he
  have hd' : delimiter.toList ≠ [] := fun e => hd (String.toList_eq_nil_iff.1 e)
  simpa [String.length_toList] using length_lt_of_cut hd' hcut

/-- The last key of `path`. -/
def lastKey (delimiter path : String) : String :=
  ((cutLast? delimiter path).map Prod.snd).getD path

/-- The path of a state `key` within a scope; `none` is the outermost scope. -/
def join (delimiter : String) (scope : Option String) (key : String) : String :=
  match scope with
  | some scope => scope ++ delimiter ++ key
  | none => key

/-- The first ancestors of a path, the path itself first, if there are at most `bound` of them. -/
def ancestorsWithin (delimiter : String) : Nat → String → Option (List String)
  | 0, _ => none
  | bound + 1, path =>
    match parent? delimiter path with
    | none => some [path]
    | some up => (ancestorsWithin delimiter bound up).map (path :: ·)

/-- **The ancestors of a path**, the path itself first and the outermost last. A path has at most
one more ancestor than it has characters, unless the delimiter is empty: then there is no last one.
-/
def ancestors? (delimiter path : String) : Option (List String) :=
  ancestorsWithin delimiter (path.length + 1) path

/-- `ancestorsWithin` is there if `path.length < bound`, unless the delimiter is empty. -/
theorem isSome_ancestorsWithin {delimiter path : String} {bound : Nat} (hd : delimiter ≠ "")
    (hb : path.length < bound) : (ancestorsWithin delimiter bound path).isSome := by
  induction bound generalizing path with
  | zero => omega
  | succ bound ih =>
    simp only [ancestorsWithin]
    split
    · rfl
    · rename_i up hp
      have := length_lt_of_parent? hd hp
      simpa using ih (by omega)

/-- **`ancestors?` is there**, unless the delimiter is empty. -/
theorem isSome_ancestors? {delimiter : String} (hd : delimiter ≠ "") (path : String) :
    (ancestors? delimiter path).isSome :=
  isSome_ancestorsWithin hd (Nat.lt_succ_self _)

end Path

end Statechart
