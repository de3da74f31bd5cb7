import Mathlib.Data.String.Basic
import Statechart.Flat

/-! # Collisions are found by a scan

The states below a composite are found among the sources of a flat form, which are in order. The
paths that start with a text lie next to each other there, so the scan may start at the first path
that does not come before the text, and stop at the first one that does not start with it.

* `Path.prefix_of_between`: what lies between a text and one that starts with it.
* `takeWhile_dropWhile_eq_filter`: when a run of a list is all that a filter would keep.
* **`FlatDefinition.sourcesBelow_eq_filter`**: the scan misses nothing.
* **`FlatDefinition.mem_collisions_iff_target?`**: the collisions of a flat form.
* **`FlatDefinition.pairwise_collisions`**: they are listed in order, and each of them once. -/

namespace Statechart

/-! ## Texts in order -/

namespace Path

/-- **`start` is a prefix of `text` if `text` is between `start` and `later`**, which has this
prefix. -/
theorem prefix_of_between {start text later : List Char} (hfrom : ¬ text < start)
    (hto : ¬ later < text) (hlater : start <+: later) : start <+: text := by
  induction start generalizing text later with
  | nil => exact List.nil_prefix
  | cons c start ih =>
    obtain ⟨rest, rfl⟩ := hlater
    cases text with
    | nil => exact absurd (List.nil_lt_cons c start) hfrom
    | cons b text =>
      rw [List.cons_append] at hto
      rw [List.cons_lt_cons_iff, not_or, not_and] at hfrom hto
      -- The first characters enclose each other, so they are one and the same.
      obtain rfl := le_antisymm (not_lt.1 hto.1) (not_lt.1 hfrom.1)
      exact List.cons_prefix_cons.2
        ⟨rfl, ih (hfrom.2 rfl) (hto.2 rfl) (List.prefix_append start rest)⟩

end Path

/-! ## Runs of a list -/

/-- **`(items.dropWhile early).takeWhile inside` is `items.filter inside`** if the `early` items
come first and the `inside` ones have no gaps. -/
theorem takeWhile_dropWhile_eq_filter {α : Type} {early inside : α → Bool} {items : List α}
    (hapart : ∀ a, inside a = true → early a = false)
    (h : items.Pairwise fun a b => (early b = true → early a = true) ∧
      (inside b = true → early a = true ∨ inside a = true)) :
    (items.dropWhile early).takeWhile inside = items.filter inside := by
  induction items with
  | nil => rfl
  | cons a rest ih =>
    rw [List.pairwise_cons] at h
    obtain ⟨hfirst, hrest⟩ := h
    cases hearly : early a with
    | true =>
      have hout : ¬ inside a = true := fun hinside => by
        rw [hapart a hinside] at hearly
        cases hearly
      rw [List.dropWhile_cons_of_pos hearly, List.filter_cons_of_neg hout, ih hrest]
    | false =>
      -- From the first item on that is not skipped, nothing is.
      have hlate : ∀ b ∈ rest, ¬ early b = true := fun b hb hb' => by
        rw [(hfirst b hb).1 hb'] at hearly
        cases hearly
      rw [List.dropWhile_cons_of_neg (by simp [hearly])]
      by_cases hinside : inside a = true
      · have hnone : rest.dropWhile early = rest := by
          cases rest with
          | nil => rfl
          | cons b rest => exact List.dropWhile_cons_of_neg (hlate b List.mem_cons_self)
        rw [List.takeWhile_cons_of_pos hinside, List.filter_cons_of_pos hinside, ← ih hrest, hnone]
      · -- The run is over, and nothing after it is kept.
        have hnone : rest.filter inside = [] := by
          rw [List.filter_eq_nil_iff]
          intro b hb hb'
          rcases (hfirst b hb).2 hb' with hearly' | hinside'
          · rw [hearly'] at hearly
            cases hearly
          · exact hinside hinside'
        rw [List.takeWhile_cons_of_neg hinside, List.filter_cons_of_neg hinside, hnone]

/-- `items.eraseDups` of sorted `items` is strictly sorted. -/
theorem pairwise_eraseDups {α : Type} [LinearOrder α] : ∀ {items : List α},
    items.Pairwise (· ≤ ·) → items.eraseDups.Pairwise (· < ·)
  | [], _ => by simp
  | a :: rest, h => by
    rw [List.pairwise_cons] at h
    rw [List.eraseDups_cons, List.pairwise_cons]
    refine ⟨fun b hb => ?_, pairwise_eraseDups (h.2.filter _)⟩
    rw [List.mem_eraseDups, List.mem_filter] at hb
    exact lt_of_le_of_ne (h.1 b hb.1) fun heq => by simp [heq] at hb
termination_by items => items.length
decreasing_by
  exact Nat.lt_succ_of_le (List.length_filter_le _ _)

/-! ## Handlers and collisions in order -/

/-- Handlers are ordered by `source`, and then by `event`. -/
theorem Handler.compare_eq_lt_iff {a b : Handler} : compare a b = .lt ↔
    compare a.source b.source = .lt ∨
      compare a.source b.source = .eq ∧ compare a.event b.event = .lt :=
  Ordering.then_eq_lt

/-- `Collision`s are ordered by `composite`, then by `event`, then by `child`. -/
instance : Ord Collision :=
  ⟨compareLex (compareOn Collision.composite)
    (compareLex (compareOn Collision.event) (compareOn Collision.child))⟩

instance : Std.TransOrd Collision :=
  inferInstanceAs (Std.TransCmp (compareLex (compareOn Collision.composite)
    (compareLex (compareOn Collision.event) (compareOn Collision.child))))

/-- `compare a b = .lt` for collisions, by their fields. -/
theorem Collision.compare_eq_lt_iff {a b : Collision} : compare a b = .lt ↔
    compare a.composite b.composite = .lt ∨ compare a.composite b.composite = .eq ∧
      (compare a.event b.event = .lt ∨
        compare a.event b.event = .eq ∧ compare a.child b.child = .lt) :=
  Ordering.then_eq_lt.trans (or_congr_right (and_congr_right fun _ => Ordering.then_eq_lt))

/-! ## The sources of a flat form -/

namespace FlatDefinition

variable {flat : FlatDefinition} {path composite : String} {event : EventKey} {c : Collision}

/-- `flat.sources` are the paths at which `flat.target?` has an answer. -/
theorem mem_sources_iff :
    path ∈ flat.sources ↔ ∃ event, (flat.target? path event).isSome = true := by
  simp only [sources, List.mem_eraseDups, List.mem_map, Std.ExtTreeMap.mem_keys,
    Std.ExtTreeMap.mem_iff_isSome_getElem?, target?]
  constructor
  · rintro ⟨⟨source, event⟩, hsome, rfl⟩
    exact ⟨event, hsome⟩
  · rintro ⟨event, hsome⟩
    exact ⟨_, hsome, rfl⟩

/-- `flat.eventsOf path` are the events for which `flat.target? path` has an answer. -/
theorem mem_eventsOf_iff :
    event ∈ flat.eventsOf path ↔ (flat.target? path event).isSome = true := by
  simp only [eventsOf, List.mem_map, List.mem_filter, Std.ExtTreeMap.mem_keys,
    Std.ExtTreeMap.mem_iff_isSome_getElem?, target?, beq_iff_eq]
  constructor
  · rintro ⟨⟨source, event⟩, ⟨hsome, rfl⟩, rfl⟩
    exact hsome
  · intro hsome
    exact ⟨⟨path, event⟩, ⟨hsome, rfl⟩, rfl⟩

/-- `flat.sources` is strictly sorted. -/
theorem pairwise_sources (flat : FlatDefinition) : flat.sources.Pairwise (· < ·) := by
  refine pairwise_eraseDups (List.pairwise_map.2 (Std.ExtTreeMap.ordered_keys.imp ?_))
  intro a b hlt
  rcases Handler.compare_eq_lt_iff.1 hlt with hsource | ⟨hsource, -⟩
  · exact le_of_lt (compare_lt_iff_lt.1 hsource)
  · exact le_of_eq (compare_eq_iff_eq.1 hsource)

/-- **`flat.sourcesBelow composite` is `flat.sources` filtered by `isBelow`.** -/
theorem sourcesBelow_eq_filter (flat : FlatDefinition) (composite : String) :
    flat.sourcesBelow composite = flat.sources.filter (isBelow flat.delimiter composite) := by
  have hbelow : ∀ path, isBelow flat.delimiter composite path = true ↔
      (composite ++ flat.delimiter).toList <+: path.toList := fun _ => List.isPrefixOf_iff_prefix
  -- What is skipped are the paths that are less than the prefix of the composite. Those with this
  -- prefix follow without gaps.
  have hearly : ∀ path, (compare path (composite ++ flat.delimiter) == .lt) = true ↔
      path.toList < (composite ++ flat.delimiter).toList := fun path => by
    rw [beq_iff_eq, compare_lt_iff_lt, String.lt_iff_toList_lt]
  refine takeWhile_dropWhile_eq_filter (fun path hpath => ?_)
    ((pairwise_sources flat).imp fun {path later} hlt => ⟨fun hpath => ?_, fun hpath => ?_⟩)
  · rw [Bool.eq_false_iff, ne_eq, hearly]
    exact List.not_lt.2 ((hbelow path).1 hpath).le
  · rw [hearly] at hpath ⊢
    exact lt_trans (String.lt_iff_toList_lt.1 hlt) hpath
  · rw [hearly, hbelow]
    rw [hbelow] at hpath
    refine or_iff_not_imp_left.2 fun hfrom => Path.prefix_of_between hfrom ?_ hpath
    exact lt_asymm (String.lt_iff_toList_lt.1 hlt)

/-! ## The collisions of a flat form -/

/-- **`flat.collisions` are the pairs of a composite and a path below it** at which `flat.target?`
answers one domain event. -/
theorem mem_collisions_iff_target? : c ∈ flat.collisions ↔
    (flat.compositeInitial? c.composite).isSome = true ∧
      (flat.target? c.composite c.event).isSome = true ∧ c.event.isReserved = false ∧
      isBelow flat.delimiter c.composite c.child = true ∧
      (flat.target? c.child c.event).isSome = true := by
  obtain ⟨composite, event, child⟩ := c
  simp only [collisions, List.mem_flatMap, List.mem_map, List.mem_filter, Std.ExtTreeMap.mem_keys,
    Std.ExtTreeMap.mem_iff_isSome_getElem?, sourcesBelow_eq_filter, mem_eventsOf_iff,
    mem_sources_iff, Bool.not_eq_true', Collision.mk.injEq, compositeInitial?]
  constructor
  · rintro ⟨_, hcomposite, _, ⟨hown, hreserved⟩, _, ⟨⟨-, hbelow⟩, hother⟩, rfl, rfl, rfl⟩
    exact ⟨hcomposite, hown, hreserved, hbelow, hother⟩
  · rintro ⟨hcomposite, hown, hreserved, hbelow, hother⟩
    exact ⟨composite, hcomposite, event, ⟨hown, hreserved⟩, child,
      ⟨⟨⟨event, hother⟩, hbelow⟩, hother⟩, rfl, rfl, rfl⟩

/-- Reserved events do not collide. -/
theorem isReserved_of_mem_collisions (h : c ∈ flat.collisions) : c.event.isReserved = false :=
  (mem_collisions_iff_target?.1 h).2.2.1

/-- `flat.eventsOf path` is strictly sorted. -/
theorem pairwise_eventsOf (flat : FlatDefinition) (path : String) :
    (flat.eventsOf path).Pairwise (compare · · = .lt) := by
  refine List.pairwise_map.2 ((Std.ExtTreeMap.ordered_keys.filter _).imp_of_mem ?_)
  intro a b ha hb hlt
  have hsame : a.source = b.source := by
    rw [beq_iff_eq.1 (List.mem_filter.1 ha).2, beq_iff_eq.1 (List.mem_filter.1 hb).2]
  rcases Handler.compare_eq_lt_iff.1 hlt with hsource | ⟨-, hevent⟩
  · exact absurd hsame (ne_of_lt (compare_lt_iff_lt.1 hsource))
  · exact hevent

/-- **`flat.collisions` is strictly sorted.** -/
theorem pairwise_collisions (flat : FlatDefinition) :
    flat.collisions.Pairwise (compare · · = .lt) := by
  -- They are listed composite by composite, then event by event, then state by state.
  rw [collisions, List.pairwise_flatMap]
  refine ⟨fun composite _ => ?_, Std.ExtTreeMap.ordered_keys.imp ?_⟩
  · rw [List.pairwise_flatMap]
    refine ⟨fun event _ => ?_, ((pairwise_eventsOf flat composite).filter _).imp ?_⟩
    · rw [sourcesBelow_eq_filter, List.pairwise_map]
      refine (((pairwise_sources flat).filter _).filter _).imp fun hlt => ?_
      exact Collision.compare_eq_lt_iff.2 (Or.inr ⟨Std.ReflCmp.compare_self,
        Or.inr ⟨Std.ReflCmp.compare_self, compare_lt_iff_lt.2 hlt⟩⟩)
    · intro event event' hlt a ha b hb
      obtain ⟨child, -, rfl⟩ := List.mem_map.1 ha
      obtain ⟨child', -, rfl⟩ := List.mem_map.1 hb
      exact Collision.compare_eq_lt_iff.2 (Or.inr ⟨Std.ReflCmp.compare_self, Or.inl hlt⟩)
  · intro composite composite' hlt a ha b hb
    obtain ⟨event, -, ha⟩ := List.mem_flatMap.1 ha
    obtain ⟨child, -, rfl⟩ := List.mem_map.1 ha
    obtain ⟨event', -, hb⟩ := List.mem_flatMap.1 hb
    obtain ⟨child', -, rfl⟩ := List.mem_map.1 hb
    exact Collision.compare_eq_lt_iff.2 (Or.inl hlt)

end FlatDefinition

end Statechart
