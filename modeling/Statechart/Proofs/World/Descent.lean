import Mathlib.Data.List.Perm.Subperm
import Statechart.Proofs.World.Following

/-! # The active chain among all descents

Links may lead anywhere: on and on, back to where they came from, to a child that stands at several
places, or to one that shows nothing. Following the children of current states from a link on gives
one sequence of links, whatever they do. A descent is a beginning of this sequence that is short
enough, passes no identity twice, and has only children that show themselves. The active chain is
the longest of all descents from the root.

* `World.linkAt?`: the sequence of links. `World.Descends`: what a descent is.
* `World.descends_chainFrom`, `World.Descends.prefix_chainFrom`: following children gives a descent,
  and any other one is the beginning of it.
* `World.length_chain_le`: the chain has fewer levels than there are cells, whatever the bound.
* **`World.chain_isLongest`**: what the chain of an engine is, in any world. -/

namespace Statechart

namespace World

variable {ρ γ : Type} {w : World ρ γ} {e : Engine} {bound n : Nat} {above : List MachineId}
  {first? : Option Link} {level next : Level} {levels : List Level} {id : MachineId}

/-- The child that `w.snapshot? link` shows, if any. -/
def childOf? (w : World ρ γ) (link : Link) : Option Link := (w.snapshot? link).bind (·.child)

/-- **The link that is `n` children below `link?`**, if there is one. -/
def linkAt? (w : World ρ γ) : Option Link → Nat → Option Link
  | link?, 0 => link?
  | link?, n + 1 => w.linkAt? (link?.bind w.childOf?) n

/-- The child of the current state of `e.root`, if any. -/
def firstLink? (w : World ρ γ) (e : Engine) : Option Link :=
  (w.machine? e.root).bind (·.current.state.child)

/-- **A descent**: a beginning of the sequence of links from `first?` on, with at most `bound`
levels, with what each child shows now, and without the same identity twice. None of those `above`
comes again. -/
structure Descends (w : World ρ γ) (bound : Nat) (above : List MachineId) (first? : Option Link)
    (levels : List Level) : Prop where
  follows : ∀ n level, levels[n]? = some level → w.linkAt? first? n = some level.link
  shown : ∀ level ∈ levels, w.snapshot? level.link = some level.snapshot
  bounded : levels.length ≤ bound
  distinct : (levels.map fun level => w.id? level.link).Nodup
  fresh : ∀ level ∈ levels, ∀ id ∈ above, w.id? level.link ≠ some id

/-- A descent (`World.Descends`) from `e.root`, within `e.config.maxDepth`. -/
def DescendsFrom (w : World ρ γ) (e : Engine) (levels : List Level) : Prop :=
  w.Descends e.config.maxDepth (w.id? e.root).toList (w.firstLink? e) levels

/-! ## Descents -/

/-- The empty list is a `World.Descends`. -/
theorem Descends.nil : w.Descends bound above first? [] :=
  ⟨fun _ _ h => by simp at h, by simp, Nat.zero_le _, List.nodup_nil, by simp⟩

/-- **`World.Descends` with one more level in front**, of an identity that is not in `above`. -/
theorem Descends.cons {link : Link} {snapshot : Snapshot} (hid : w.id? link = some id)
    (hnew : id ∉ above) (hshown : w.snapshot? link = some snapshot)
    (h : w.Descends bound (id :: above) snapshot.child levels) :
    w.Descends (bound + 1) above (some link) (⟨link, snapshot⟩ :: levels) where
  follows
    | 0, _, heq => by cases heq; rfl
    | n + 1, later, heq => by
      have hlater := h.follows n later heq
      rwa [linkAt?, Option.bind_some, childOf?, hshown, Option.bind_some]
  shown := List.forall_mem_cons.2 ⟨hshown, h.shown⟩
  bounded := Nat.succ_le_succ h.bounded
  distinct := by
    -- The identity is among those above for the levels below, so it comes there no more.
    refine List.nodup_cons.2 ⟨fun hmem => ?_, h.distinct⟩
    obtain ⟨later, hlater, heq⟩ := List.mem_map.1 hmem
    exact h.fresh later hlater id List.mem_cons_self (heq.trans hid)
  fresh := by
    refine List.forall_mem_cons.2 ⟨fun other hother heq => hnew ?_, fun later hlater other hother =>
      h.fresh later hlater other (List.mem_cons_of_mem _ hother)⟩
    rw [hid] at heq
    cases heq
    exact hother

/-- **The tail of a `World.Descends`** is one from the child of its first level. -/
theorem Descends.of_cons (h : w.Descends (bound + 1) above first? (level :: levels)) :
    first? = some level.link ∧ ∃ id, w.id? level.link = some id ∧ id ∉ above ∧
      w.snapshot? level.link = some level.snapshot ∧
      w.Descends bound (id :: above) level.snapshot.child levels := by
  have hfirst : first? = some level.link := h.follows 0 level rfl
  have hshown := h.shown level List.mem_cons_self
  obtain ⟨id, hid⟩ := exists_id_of_snapshot? hshown
  have hdistinct := List.nodup_cons.1 h.distinct
  refine ⟨hfirst, id, hid, fun hmem => h.fresh level List.mem_cons_self id hmem hid, hshown, ?_⟩
  refine ⟨fun n later heq => ?_, fun later hlater => h.shown later (List.mem_cons_of_mem _ hlater),
    Nat.le_of_succ_le_succ h.bounded, hdistinct.2, fun later hlater other hother heq => ?_⟩
  · have hlater := h.follows (n + 1) later heq
    rwa [hfirst, linkAt?, Option.bind_some, childOf?, hshown, Option.bind_some] at hlater
  · rcases List.mem_cons.1 hother with rfl | hother
    · exact hdistinct.1 (List.mem_map.2 ⟨later, hlater, heq.trans hid.symm⟩)
    · exact h.fresh later (List.mem_cons_of_mem _ hlater) other hother heq

/-- `w.chainFrom` is a `World.Descends`. -/
theorem descends_chainFrom (w : World ρ γ) (bound : Nat) (above : List MachineId)
    (first? : Option Link) :
    w.Descends bound above first? (w.chainFrom bound above first?) := by
  induction bound generalizing above first? with
  | zero => exact .nil
  | succ bound ih =>
    cases first? with
    | none => exact .nil
    | some link =>
      rw [chainFrom]
      split
      · rename_i id snapshot hid hsnapshot
        split
        · exact .nil
        · rename_i hnew
          exact .cons hid hnew hsnapshot (ih (id :: above) snapshot.child)
      · exact .nil

/-- **Every `World.Descends` is a prefix of `w.chainFrom`.** -/
theorem Descends.prefix_chainFrom (h : w.Descends bound above first? levels) :
    levels <+: w.chainFrom bound above first? := by
  induction bound generalizing above first? levels with
  | zero =>
    rw [List.length_eq_zero_iff.1 (Nat.le_zero.1 h.bounded)]
    exact List.nil_prefix
  | succ bound ih =>
    cases levels with
    | nil => exact List.nil_prefix
    | cons level levels =>
      -- A descent has this level, so none of the reasons to stop applies.
      obtain ⟨rfl, id, hid, hnew, hshown, hrest⟩ := h.of_cons
      rw [chainFrom, hid, hshown]
      dsimp only
      rw [if_neg hnew]
      exact List.cons_prefix_cons.2 ⟨rfl, ih hrest⟩

/-- The child that the level `n` of a `World.Descends` shows is the link of the level `n + 1`. -/
theorem Descends.child_eq (h : w.Descends bound above first? levels)
    (hlevel : levels[n]? = some level) (hnext : levels[n + 1]? = some next) :
    level.snapshot.child = some next.link := by
  induction levels generalizing n bound above first? with
  | nil => simp at hlevel
  | cons head rest ih =>
    obtain ⟨bound, rfl⟩ : ∃ smaller, bound = smaller + 1 :=
      ⟨bound - 1, (Nat.sub_add_cancel (Nat.lt_of_lt_of_le (Nat.succ_pos _) h.bounded)).symm⟩
    obtain ⟨-, id, -, -, -, hrest⟩ := h.of_cons
    cases n with
    | zero =>
      cases hlevel
      exact hrest.follows 0 next hnext
    | succ n => exact ih hrest hlevel hnext

/-! ## The chain of an engine -/

/-- `w.chain e` is `w.chainFrom` from `w.firstLink? e` on. -/
theorem chain_eq_chainFrom (w : World ρ γ) (e : Engine) :
    w.chain e =
      w.chainFrom e.config.maxDepth (w.id? e.root).toList (w.firstLink? e) := by
  rw [chain, firstLink?]
  split
  · rename_i hnone
    rw [hnone]
    cases e.config.maxDepth <;> rfl
  · rename_i root hroot
    rw [hroot, id?_of_machine? hroot]
    rfl

/-- A link that has an identity points to one of `w.cells`. -/
theorem place_lt_of_id? {link : Link} (h : w.id? link = some id) : link.place < w.cells.size := by
  obtain ⟨cell, hcell, -⟩ := Option.map_eq_some_iff.1 h
  exact (Array.getElem?_eq_some_iff.1 hcell).1

/-- **`w.chain e` has fewer levels than `w.cells`**, whatever depth is allowed. -/
theorem length_chain_le (w : World ρ γ) (e : Engine) : (w.chain e).length ≤ w.cells.size - 1 := by
  cases hroot : w.machine? e.root with
  | none =>
    rw [chain, hroot]
    exact Nat.zero_le _
  | some root =>
    -- The root and the links of the chain are in cells of their own.
    have hnodup : ((w.activeLinks e).map (·.place)).Nodup :=
      (w.nodup_activeLinks e).map fun _ _ heq => congrArg Link.mk heq
    have hplaces : (w.activeLinks e).map (·.place) ⊆ List.range w.cells.size := by
      intro place hplace
      obtain ⟨link, hlink, rfl⟩ := List.mem_map.1 hplace
      refine List.mem_range.2 ?_
      rcases List.mem_cons.1 hlink with rfl | hlink
      · exact place_lt_of_id? (id?_of_machine? hroot)
      · obtain ⟨level, hlevel, rfl⟩ := List.mem_map.1 hlink
        rw [chain_eq_chainFrom] at hlevel
        obtain ⟨id, hid, -⟩ := exists_id_of_mem_chainFrom hlevel
        exact place_lt_of_id? hid
    have hlength := (List.subperm_of_subset hnodup hplaces).length_le
    rw [List.length_map, List.length_range, activeLinks, List.length_cons,
      List.length_map] at hlength
    exact Nat.le_sub_one_of_lt hlength

/-- **`w.chain e` is the longest descent from the root of `e`**, in any world and for any engine: it
is in `World.DescendsFrom`, and every other `levels` there are a prefix of it. Each level shows the
link of the next one as its child, and there are fewer levels than cells. No condition is on the
links, which may be shared or lead back. -/
theorem chain_isLongest (w : World ρ γ) (e : Engine) :
    w.DescendsFrom e (w.chain e) ∧
    (∀ levels, w.DescendsFrom e levels → levels <+: w.chain e) ∧
    (∀ n level next, (w.chain e)[n]? = some level → (w.chain e)[n + 1]? = some next →
      level.snapshot.child = some next.link) ∧
    (w.chain e).length ≤ w.cells.size - 1 := by
  have hchain : w.DescendsFrom e (w.chain e) := by
    rw [chain_eq_chainFrom]
    exact w.descends_chainFrom _ _ _
  refine ⟨hchain, fun levels hlevels => ?_,
    fun n level next hlevel hnext => hchain.child_eq hlevel hnext, w.length_chain_le e⟩
  rw [chain_eq_chainFrom]
  exact hlevels.prefix_chainFrom

end World

end Statechart
