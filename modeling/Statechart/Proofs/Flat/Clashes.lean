import Statechart.Proofs.Flat.Collisions

/-! # The clash that is reported

If collisions count as errors, a definition is refused for the first one of its flat form. Said of
the definition, a collision is a clash: a composite and a state inside it, at any depth, both handle
one domain event. Of all clashes the first in order is reported, and without a clash nothing is.

* `Definition.Clashes`: a composite and a state inside it handle one domain event.
* `FlatDefinition.mem_collisions_iff_clashes`: the collisions of a flat form are the clashes.
* **`Definition.clash_reported_iff`**: which clash is reported, and when. -/

namespace Statechart

variable {delimiter : String} {d : Definition} {c : Collision} {flat : FlatDefinition}
  {config : FlattenConfig}

/-! ## Clashes -/

/-- **`c` is a clash of `d`**: the composite at `outer` and a state at `outer ++ inside` both handle
one domain event. `c` has the path of the composite, the event, and the path of the state. -/
def Definition.Clashes (delimiter : String) (d : Definition) (c : Collision) : Prop :=
  ∃ outer inside name, inside ≠ [] ∧
    c = ⟨delimiter.intercalate outer, .domain name, delimiter.intercalate (outer ++ inside)⟩ ∧
    d.Handles outer (.domain name) ∧ d.Handles (outer ++ inside) (.domain name)

namespace FlatDefinition

/-- **`flat.collisions` are the clashes of `d`.** -/
theorem mem_collisions_iff_clashes (hd : d.Orderly delimiter) (hone : delimiter.length = 1)
    (h : assemble delimiter d = .ok flat) : c ∈ flat.collisions ↔ d.Clashes delimiter c := by
  rw [mem_collisions_iff hd hone h]
  constructor
  · obtain ⟨composite, event, child⟩ := c
    rintro ⟨outer, inside, hinside, rfl, rfl, hdomain, houter, hhandles⟩
    cases event with
    | domain name => exact ⟨outer, inside, name, hinside, rfl, houter, hhandles⟩
    | childExit => cases hdomain
    | childChange => cases hdomain
  · rintro ⟨outer, inside, name, hinside, rfl, houter, hhandles⟩
    exact ⟨outer, inside, hinside, rfl, rfl, rfl, houter, hhandles⟩

/-- `settleCollisions .error` reports `flat.collisions.head?`, and keeps `flat` if there is none. -/
theorem settleCollisions_error_eq (flat : FlatDefinition) : settleCollisions .error flat =
    match flat.collisions.head? with
    | none => .ok flat
    | some first => .error (.eventCollision first) := by
  rw [settleCollisions]
  cases flat.collisions <;> rfl

/-- **`flat.collisions.head?` comes before all other collisions** in the order `compare`. -/
theorem head?_collisions_eq_some_iff : flat.collisions.head? = some c ↔
    c ∈ flat.collisions ∧ ∀ other ∈ flat.collisions, other ≠ c → compare c other = .lt := by
  have hordered := pairwise_collisions flat
  cases hcollisions : flat.collisions with
  | nil => simp
  | cons first rest =>
    rw [hcollisions, List.pairwise_cons] at hordered
    rw [List.head?_cons, Option.some_inj]
    constructor
    · rintro rfl
      refine ⟨List.mem_cons_self, fun other hother hne => ?_⟩
      exact hordered.1 other ((List.mem_cons.1 hother).resolve_left hne)
    · rintro ⟨hc, hleast⟩
      by_contra hne
      -- Each of the two would come before the other one.
      have hbefore := hordered.1 c ((List.mem_cons.1 hc).resolve_left (Ne.symm hne))
      exact Std.OrientedCmp.not_lt_of_lt hbefore (hleast first List.mem_cons_self hne)

end FlatDefinition

/-! ## What is reported -/

open FlatDefinition in
/-- **Under `.error` the least clash is reported.** Let `d.problems config.delimiter = some []`,
with a delimiter of one character. `ofDefinition config d` is `.error (.eventCollision c)` if and
only if `d.Clashes config.delimiter c` and `compare c other = .lt` for every other clash. It is such
an error for some `c` if and only if there is a clash. Without one, the result is the same flat form
as under `.namespaced`. -/
theorem Definition.clash_reported_iff (h : d.problems config.delimiter = some [])
    (hone : config.delimiter.length = 1) (hpolicy : config.eventCollision = .error) :
    (∀ c, ofDefinition config d = some (.error (.eventCollision c)) ↔
      d.Clashes config.delimiter c ∧
        ∀ other, d.Clashes config.delimiter other → other ≠ c → compare c other = .lt) ∧
    ((∃ c, ofDefinition config d = some (.error (.eventCollision c))) ↔
      ∃ c, d.Clashes config.delimiter c) ∧
    ((∀ c, ¬ d.Clashes config.delimiter c) → ∃ flat, ofDefinition config d = some (.ok flat) ∧
      ofDefinition { config with eventCollision := .namespaced } d = some (.ok flat)) := by
  obtain ⟨whole, hwhole⟩ := exists_assemble h
  have hmem : ∀ c, c ∈ whole.collisions ↔ d.Clashes config.delimiter c := fun c =>
    mem_collisions_iff_clashes (orderly_of_problems h) hone hwhole
  have hresult := ofDefinition_eq h hwhole
  rw [hpolicy, settleCollisions_error_eq] at hresult
  -- Collisions are listed in order, so that the first one is the least.
  have hreported : ∀ c, ofDefinition config d = some (.error (.eventCollision c)) ↔
      whole.collisions.head? = some c := fun c => by
    rw [hresult]
    cases whole.collisions.head? <;> simp
  refine ⟨fun c => ?_, ?_, fun hnone => ?_⟩
  · rw [hreported, head?_collisions_eq_some_iff]
    simp only [hmem]
  · simp only [hreported, ← hmem]
    cases whole.collisions with
    | nil => simp
    | cons first rest => exact ⟨fun _ => ⟨first, List.mem_cons_self⟩, fun _ => ⟨first, rfl⟩⟩
  · have hempty : whole.collisions = [] :=
      List.eq_nil_iff_forall_not_mem.2 fun c hc => hnone c ((hmem c).1 hc)
    rw [hempty] at hresult
    have hnamespaced : assemble ({ config with eventCollision := .namespaced } :
        FlattenConfig).delimiter d = .ok whole := hwhole
    exact ⟨whole, hresult, ofDefinition_eq h hnamespaced⟩

/-- A definition with a hall, boxes in the hall and seats in the boxes: `bell` is handled on all
three levels, `applause` on the last two. The `Hallway` handles `bell` outside the hall. -/
def Definition.theatre : Definition :=
  let box := ((((({} : Definition).state "Seat").state "Door").on "Seat" "bell" "Door").on
    "Seat" "applause" "Door").initial "Seat"
  let hall := ((((({} : Definition).composite "Box" box).on "Box" "bell" "Box").on
    "Box" "applause" "Box").onChildExit "Box" "Box").initial "Box"
  (((((({} : Definition).composite "Hall" hall).state "Hallway").on "Hall" "bell" "Hallway").on
    "Hallway" "bell" "Hall").onChildExit "Hall" "Hallway").initial "Hall"

/-- `clash_reported_iff` for `theatre`: the clash over `"bell"`, in `"Hall"` and `"Hall.Box"`, comes
before the one over the applause. -/
theorem Definition.theatre_reported :
    FlatDefinition.ofDefinition {} theatre =
      some (.error (.eventCollision ⟨"Hall", .domain "bell", "Hall.Box"⟩)) ∧
    theatre.Clashes "." ⟨"Hall", .domain "bell", "Hall.Box"⟩ ∧
    ∀ other, theatre.Clashes "." other → other ≠ ⟨"Hall", .domain "bell", "Hall.Box"⟩ →
      compare ⟨"Hall", .domain "bell", "Hall.Box"⟩ other = .lt := by
  have hproblems : theatre.problems "." = some [] := by decide +kernel
  have hone : ({} : FlattenConfig).delimiter.length = 1 := by decide
  have hpolicy : ({} : FlattenConfig).eventCollision = .error := rfl
  have hresult : FlatDefinition.ofDefinition {} theatre =
      some (.error (.eventCollision ⟨"Hall", .domain "bell", "Hall.Box"⟩)) := by
    -- The first collision is computed, and the theorem says that it comes before all other clashes.
    have hwhole : (FlatDefinition.assemble "." theatre).toOption.map (·.collisions.head?) =
        some (some ⟨"Hall", .domain "bell", "Hall.Box"⟩) := by decide +kernel
    cases hassembled : FlatDefinition.assemble "." theatre with
    | error e =>
      rw [hassembled] at hwhole
      cases hwhole
    | ok whole =>
      rw [hassembled] at hwhole
      have hfirst : whole.collisions.head? = some ⟨"Hall", .domain "bell", "Hall.Box"⟩ :=
        Option.some.inj hwhole
      have hsettled := FlatDefinition.settleCollisions_error_eq whole
      rw [hfirst] at hsettled
      exact (FlatDefinition.ofDefinition_eq hproblems hassembled).trans (congrArg some hsettled)
  exact ⟨hresult, ((clash_reported_iff hproblems hone hpolicy).1 _).1 hresult⟩

end Statechart
