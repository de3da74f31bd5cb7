import Statechart.Definition.Validation

/-! # When the search for a name ends

A name is looked for in a scope and in the scopes around it, until it is found or no scope is left.
Each scope around is shorter than the one before, so the search ends. But with an empty delimiter a
path is its own parent, and a search that finds nothing in a composite looks there again and again.

* **`PathIndex.SearchEnds`**: a search ends with a result, however long it takes.
* **`PathIndex.exists_searchEnds_iff`**: which searches end.
* `PathIndex.search_eq_endless_iff`: the bound of a search stops none that would end.
* `PathIndex.LocateEnds`, `PathIndex.locateEnds_iff`: the same for names with marks. -/

namespace Statechart

/-! ## Paths without a delimiter -/

namespace Path

/-- `cut []` finds the empty text at the end. -/
theorem cut_nil (text : List Char) : cut [] text = some (text, []) := by
  induction text with
  | nil => rfl
  | cons c rest ih => rw [cut, ih]

/-- **`parent? "" path` is `path` itself.** -/
theorem parent?_empty (path : String) : parent? "" path = some path := by
  simp [parent?, cutLast?, cut_nil]

/-- `isQualified ""` holds of every key. -/
theorem isQualified_empty (key : String) : isQualified "" key = true := by
  simp [isQualified, cutLast?, cut_nil]

end Path

namespace PathIndex

variable {index : PathIndex} {name target path : String} {scope : Option String}
  {result : Except Unresolved String}

/-! ## Searches -/

/-- **A search ends with a result**: `name` is found in the scope, or the scope is the outermost
one, or the search ends with this result in the scope around. -/
inductive SearchEnds (index : PathIndex) (name : String) :
    Option String → Except Unresolved String → Prop
  | found {scope : Option String}
      (h : index.contains (Path.join index.delimiter scope name) = true) :
      SearchEnds index name scope (.ok (Path.join index.delimiter scope name))
  | missing (h : index.contains (Path.join index.delimiter none name) = false) :
      SearchEnds index name none (.error .missing)
  | outward {path : String} {result : Except Unresolved String}
      (h : index.contains (Path.join index.delimiter (some path) name) = false)
      (around : SearchEnds index name (Path.parent? index.delimiter path) result) :
      SearchEnds index name (some path) result

/-- `searchWithin` that is not `.endless` gives `SearchEnds`. -/
theorem searchEnds_of_searchWithin {bound : Nat} (h : index.searchWithin name bound scope = result)
    (hresult : result ≠ .error .endless) : index.SearchEnds name scope result := by
  induction bound generalizing scope with
  | zero => exact absurd h.symm hresult
  | succ bound ih =>
    simp only [searchWithin] at h
    by_cases hfound : index.contains (Path.join index.delimiter scope name) = true
    · rw [if_pos hfound] at h
      exact h ▸ .found hfound
    · rw [if_neg hfound] at h
      rw [Bool.not_eq_true] at hfound
      cases scope with
      | none => exact h ▸ .missing hfound
      | some path => exact .outward hfound (ih h)

/-- `Path.join` with the empty delimiter. -/
theorem join_of_empty (hdelimiter : index.delimiter = "") (path name : String) :
    Path.join index.delimiter (some path) name = path ++ name := by
  rw [hdelimiter, Path.join, String.append_empty]

/-- No `SearchEnds` with the empty delimiter, if `name` is not found in the scope `path`. -/
theorem not_searchEnds_of_empty (hdelimiter : index.delimiter = "")
    (h : index.contains (path ++ name) = false) : ¬ index.SearchEnds name (some path) result := by
  rw [← join_of_empty hdelimiter] at h
  intro hends
  -- A shorter search would end in the same composite.
  generalize hscope : some path = scope at hends
  induction hends with
  | found hfound =>
    rw [← hscope, h] at hfound
    cases hfound
  | missing _ => cases hscope
  | outward _ _ ih =>
    cases hscope
    exact ih (by rw [hdelimiter, Path.parent?_empty])

/-- **`SearchEnds` with some result**, unless the delimiter is empty and `name` is not found in the
scope `path`. -/
theorem exists_searchEnds_iff : (∃ result, index.SearchEnds name scope result) ↔
    (index.delimiter = "" → ∀ path, scope = some path → index.contains (path ++ name) = true) := by
  constructor
  · rintro ⟨result, hends⟩ hdelimiter path rfl
    cases hfound : index.contains (path ++ name) with
    | true => rfl
    | false => exact absurd hends (not_searchEnds_of_empty hdelimiter hfound)
  · intro h
    -- With an empty delimiter a composite is searched for ever, unless the name is found at once.
    by_cases hdelimiter : index.delimiter = ""
    · cases scope with
      | none =>
        cases hfound : index.contains (Path.join index.delimiter none name) with
        | true => exact ⟨_, .found hfound⟩
        | false => exact ⟨_, .missing hfound⟩
      | some path =>
        have hfound := h hdelimiter path rfl
        rw [← join_of_empty hdelimiter] at hfound
        exact ⟨_, .found hfound⟩
    · exact ⟨_, searchEnds_of_searchWithin rfl (search_ne_endless hdelimiter name scope)⟩

/-- **`search` is `.endless` exactly if there is no `SearchEnds`.** -/
theorem search_eq_endless_iff :
    index.search name scope = .error .endless ↔ ¬ ∃ result, index.SearchEnds name scope result := by
  constructor
  · intro h hends
    rw [exists_searchEnds_iff] at hends
    -- A search without a bound would end, so that the bounded one does not give up.
    by_cases hdelimiter : index.delimiter = ""
    · simp only [search, searchWithin] at h
      cases scope with
      | none => split at h <;> cases h
      | some path =>
        rw [join_of_empty hdelimiter, if_pos (hends hdelimiter path rfl)] at h
        cases h
    · exact search_ne_endless hdelimiter name scope h
  · intro hnever
    exact Classical.byContradiction fun hresult =>
      hnever ⟨_, searchEnds_of_searchWithin rfl hresult⟩

/-! ## Names with marks -/

/-- **The search for `target` ends** in the scope that its marks lead to, or there is none so far
outward. -/
def LocateEnds (index : PathIndex) (scope : Option String) (target : String) : Prop :=
  ∀ around, outward index.delimiter (escapes target) scope = some around →
    ∃ result, index.SearchEnds (bareName target) around result

/-- `locate` is `.endless` exactly if there is no `LocateEnds`. -/
theorem locate_eq_endless_iff :
    index.locate scope target = .error .endless ↔ ¬ index.LocateEnds scope target := by
  rw [locate, LocateEnds]
  cases houtward : outward index.delimiter (escapes target) scope with
  | none => simp
  | some around => simp [search_eq_endless_iff]

/-- `tryResolve` is `.endless` exactly if there is no `LocateEnds`. -/
theorem tryResolve_eq_endless_iff :
    index.tryResolve scope target = .error .endless ↔ ¬ index.LocateEnds scope target := by
  rw [← locate_eq_endless_iff, tryResolve]
  cases hlocate : index.locate scope target with
  | error reason => rfl
  | ok found =>
    cases hleaf : index.leafOf found <;> simp [hleaf, bind, Except.bind, pure, Except.pure, throw,
      throwThe, MonadExceptOf.throw]

/-- `outward ""` leaves a scope `path` as it is. -/
theorem outward_empty (levels : Nat) (path : String) :
    outward "" levels (some path) = some (some path) := by
  induction levels with
  | zero => rfl
  | succ levels ih => rw [outward, Path.parent?_empty, ih]

/-- **`LocateEnds`, unless the delimiter is empty and `bareName target` is not found in the scope
`path`.** -/
theorem locateEnds_iff : index.LocateEnds scope target ↔ (index.delimiter = "" →
    ∀ path, scope = some path → index.contains (path ++ bareName target) = true) := by
  constructor
  · rintro h hdelimiter path rfl
    have hends := h (some path) (by rw [hdelimiter, outward_empty])
    exact exists_searchEnds_iff.1 hends hdelimiter path rfl
  · intro h around houtward
    refine exists_searchEnds_iff.2 fun hdelimiter path hpath => ?_
    subst hpath
    cases scope with
    | none =>
      cases hescapes : escapes target <;> rw [hescapes] at houtward <;> cases houtward
    | some around =>
      rw [hdelimiter, outward_empty] at houtward
      cases houtward
      exact h hdelimiter path rfl

end PathIndex

end Statechart
