/-!
# Dictionaries in order of insertion

`Dict κ α` is a finite map that lists its keys in the order of their first insertion. Inserting
under a key that is already there replaces the value and keeps the place.

Main statement: `Dict.get?_insert` says what an insertion does to look-ups.
-/

namespace Statechart

universe u v

variable {κ : Type u} {α : Type v} [DecidableEq κ]

namespace Dict

/-- Replace the value of `key` in a list of entries, or append an entry at the end. -/
def put (key : κ) (value : α) : List (κ × α) → List (κ × α)
  | [] => [(key, value)]
  | (k, v) :: rest => if k = key then (key, value) :: rest else (k, v) :: put key value rest

/-- The keys after `put`. -/
theorem map_fst_put (key : κ) (value : α) (entries : List (κ × α)) :
    (put key value entries).map Prod.fst =
      if key ∈ entries.map Prod.fst then entries.map Prod.fst
      else entries.map Prod.fst ++ [key] := by
  induction entries with
  | nil => simp [put]
  | cons entry rest ih =>
    obtain ⟨k, v⟩ := entry
    by_cases h : k = key
    · simp [put, h]
    · have h' : key ≠ k := fun e => h e.symm
      simp only [put, h, if_false, List.map_cons, ih, List.mem_cons, h', false_or]
      split <;> simp_all

end Dict

/-- **A finite map in order of insertion**: entries with pairwise different keys. -/
structure Dict (κ : Type u) (α : Type v) where
  /-- The entries, in order of the first insertion of their keys. -/
  entries : List (κ × α)
  /-- No key occurs twice. -/
  nodup_keys : (entries.map Prod.fst).Nodup

namespace Dict

/-- The map without entries. -/
def empty : Dict κ α := ⟨[], List.nodup_nil⟩

instance : Inhabited (Dict κ α) := ⟨empty⟩

/-- The keys, in order of their first insertion. -/
def keys (d : Dict κ α) : List κ := d.entries.map Prod.fst

/-- The value of `key`. -/
def get? (d : Dict κ α) (key : κ) : Option α := d.entries.lookup key

/-- Whether `key` has a value. -/
def contains (d : Dict κ α) (key : κ) : Bool := (d.get? key).isSome

/-- How many keys have a value. -/
def size (d : Dict κ α) : Nat := d.entries.length

/-- Whether no key has a value. -/
def isEmpty (d : Dict κ α) : Bool := d.entries.isEmpty

/-- Give `key` the value `value`. A new key comes last; a known one keeps its place. -/
def insert (d : Dict κ α) (key : κ) (value : α) : Dict κ α where
  entries := put key value d.entries
  nodup_keys := by
    rw [map_fst_put]
    split
    · exact d.nodup_keys
    · rename_i h
      exact List.nodup_append.2 ⟨d.nodup_keys, by simp, by
        intro a ha b hb e
        simp only [List.mem_singleton] at hb
        exact h (hb ▸ e ▸ ha)⟩

/-- Forget `key`. -/
def erase (d : Dict κ α) (key : κ) : Dict κ α where
  entries := d.entries.filter (fun entry => entry.1 ≠ key)
  nodup_keys := List.Sublist.nodup (List.Sublist.map _ List.filter_sublist) d.nodup_keys

/-- The map of a list of entries; of entries with one key the last counts. -/
def ofList (entries : List (κ × α)) : Dict κ α :=
  entries.foldl (fun d entry => d.insert entry.1 entry.2) empty

/-- A copy, entry by entry. -/
def clone (d : Dict κ α) : Dict κ α := ofList d.entries

/-! ## What the operations do to look-ups -/

/-- `List.lookup` after `put`. -/
theorem lookup_put (key key' : κ) (value : α) (entries : List (κ × α)) :
    (put key value entries).lookup key' =
      if key' = key then some value else entries.lookup key' := by
  induction entries with
  | nil =>
    by_cases h : key' = key
    · simp [put, h]
    · simp [put, List.lookup_cons, h, beq_eq_false_iff_ne.2 h]
  | cons entry rest ih =>
    obtain ⟨k, v⟩ := entry
    by_cases h : k = key
    · subst h
      by_cases h' : key' = k
      · simp [put, h']
      · simp [put, List.lookup_cons, h', beq_eq_false_iff_ne.2 h']
    · by_cases h' : key' = k
      · subst h'
        simp [put, h]
      · simp [put, h, List.lookup_cons, beq_eq_false_iff_ne.2 h', ih]

@[simp] theorem get?_empty (key : κ) : (empty : Dict κ α).get? key = none := rfl

/-- **`get?` after `insert`.** -/
theorem get?_insert (d : Dict κ α) (key key' : κ) (value : α) :
    (d.insert key value).get? key' = if key' = key then some value else d.get? key' :=
  lookup_put key key' value d.entries

/-- `contains` after `insert`. -/
theorem contains_insert (d : Dict κ α) (key key' : κ) (value : α) :
    (d.insert key value).contains key' = (key' == key || d.contains key') := by
  rw [contains, get?_insert]
  by_cases h : key' = key
  · simp [h]
  · simp [h, contains]

/-- `put` of a new key appends. -/
theorem put_of_not_mem {key : κ} {value : α} {entries : List (κ × α)}
    (h : key ∉ entries.map Prod.fst) : put key value entries = entries ++ [(key, value)] := by
  induction entries with
  | nil => rfl
  | cons entry rest ih =>
    rw [List.map_cons, List.mem_cons, not_or] at h
    rw [put, if_neg (Ne.symm h.1), ih h.2, List.cons_append]

/-- `insert` of entries with different new keys appends them. -/
theorem entries_foldl_insert {entries : List (κ × α)} {d : Dict κ α}
    (h : ((d.entries ++ entries).map Prod.fst).Nodup) :
    (entries.foldl (fun d entry => d.insert entry.1 entry.2) d).entries = d.entries ++ entries := by
  induction entries generalizing d with
  | nil => rw [List.foldl_nil, List.append_nil]
  | cons entry rest ih =>
    have hnew : entry.1 ∉ d.entries.map Prod.fst := by
      rw [List.map_append, List.map_cons, List.nodup_append] at h
      exact fun hmem => h.2.2 _ hmem _ List.mem_cons_self rfl
    have hentries : (d.insert entry.1 entry.2).entries = d.entries ++ [entry] :=
      put_of_not_mem hnew
    have hassoc : d.entries ++ entry :: rest = (d.insert entry.1 entry.2).entries ++ rest := by
      rw [hentries, List.append_assoc, List.singleton_append]
    rw [hassoc] at h
    rw [List.foldl_cons, ih h, hassoc]

/-- **`d.clone` is `d`.** -/
theorem clone_eq (d : Dict κ α) : d.clone = d := by
  have hentries : d.clone.entries = empty.entries ++ d.entries :=
    entries_foldl_insert d.nodup_keys
  obtain ⟨entries, hnodup⟩ := d
  cases hclone : clone ⟨entries, hnodup⟩
  rw [hclone] at hentries
  cases hentries
  rfl

end Dict

end Statechart
