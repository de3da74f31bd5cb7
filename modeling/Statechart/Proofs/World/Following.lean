import Statechart.Proofs.Closure
import Statechart.Proofs.World.Taking

/-! # Chains of machines that stay

The active chain of an engine is found by following the children of current states. As long as the
machines around one stay in their states it is found in the same place, and if all of them stay the
whole chain is the same.

* `World.Tidy.exists_of_mem_chain`: a chain shows the machines as they are.
* `World.nodup_ids`: no identity comes twice, and so no link does.
* **`World.Stays.take_activeLinks`**: a machine is where it was if those around it stay.
* **`World.Stays.activeLinks_eq`**: a chain is what it was if all of its machines stay.
* `Act.drawGraph_congr`: what the graph of a chain is a matter of. -/

namespace Statechart

variable {ρ γ : Type} {settings : MachineConfig → Prop} {kept : Link → Prop} {w w' : World ρ γ}
  {e e' : Engine} {link : Link} {link? : Option Link} {m m' : Machine (StatePlan ρ)} {i n : Nat}

namespace World

/-! ## Following children -/

/-- `w.chain e` depends on `e.root` and `e.config` alone. -/
theorem chain_congr (hroot : e'.root = e.root) (hconfig : e'.config = e.config) :
    w.chain e' = w.chain e := by
  rw [chain, chain, hroot, hconfig]

/-- `w.chainFrom` depends on `w.cells` alone. -/
theorem chainFrom_of_cells (hcells : w'.cells = w.cells) (bound : Nat) (visited : List MachineId)
    (link? : Option Link) :
    w'.chainFrom bound visited link? = w.chainFrom bound visited link? := by
  have hcell : w'.cell? = w.cell? := by
    funext link
    rw [cell?, cell?, hcells]
  induction bound generalizing visited link? with
  | zero => rfl
  | succ bound ih =>
    cases link? with
    | none => rfl
    | some link => simp only [chainFrom, id?, snapshot?, machine?, hcell, ih]

/-- `w.chain e` depends on `w.cells` alone. -/
theorem chain_of_cells (hcells : w'.cells = w.cells) (e : Engine) : w'.chain e = w.chain e := by
  unfold chain
  simp only [machine?_of_cells hcells, chainFrom_of_cells hcells]

/-- What has a `snapshot?` has an `id?`. -/
theorem exists_id_of_snapshot? {link : Link} {snapshot : Snapshot}
    (h : w.snapshot? link = some snapshot) : ∃ id, w.id? link = some id := by
  unfold snapshot? at h
  cases hcell : w.cell? link with
  | none => rw [hcell] at h; cases h
  | some cell => exact ⟨cell.id, by rw [id?, hcell]; rfl⟩

/-- **The levels of `w.chainFrom` have a snapshot**, and identities that are not in `visited`. -/
theorem exists_id_of_mem_chainFrom {bound : Nat} {visited : List MachineId} {level : Level}
    (h : level ∈ w.chainFrom bound visited link?) :
    ∃ id, w.id? level.link = some id ∧ w.snapshot? level.link = some level.snapshot ∧
      id ∉ visited := by
  -- By induction over the bound. More identities count as visited further down.
  induction bound generalizing visited link? with
  | zero => cases h
  | succ bound ih =>
    cases link? with
    | none => cases h
    | some link =>
      rw [chainFrom] at h
      split at h
      · rename_i id snapshot hid hsnapshot
        split at h
        · cases h
        · rename_i hnew
          rcases List.mem_cons.1 h with rfl | h
          · exact ⟨id, hid, hsnapshot, hnew⟩
          · obtain ⟨later, hlater, hshown, hnot⟩ := ih h
            exact ⟨later, hlater, hshown, fun hmem => hnot (List.mem_cons_of_mem _ hmem)⟩
      · cases h

/-- The identities of `w.chainFrom` are different, also if there are shells around machines. -/
theorem nodup_ids_chainFrom (w : World ρ γ) (bound : Nat) (visited : List MachineId)
    (link? : Option Link) :
    ((w.chainFrom bound visited link?).map fun level => w.id? level.link).Nodup := by
  induction bound generalizing visited link? with
  | zero => exact List.nodup_nil
  | succ bound ih =>
    cases link? with
    | none => exact List.nodup_nil
    | some link =>
      rw [chainFrom]
      split
      · rename_i id snapshot hid hsnapshot
        split
        · exact List.nodup_nil
        · rw [List.map_cons, List.nodup_cons]
          -- The identity counts as visited from there on, so that it does not come again.
          refine ⟨fun hmem => ?_, ih _ _⟩
          obtain ⟨level, hlevel, heq⟩ := List.mem_map.1 hmem
          obtain ⟨later, hlater, -, hnot⟩ := exists_id_of_mem_chainFrom hlevel
          have hsame : some later = some id := by rw [← hlater, heq, hid]
          cases hsame
          exact hnot List.mem_cons_self
      · exact List.nodup_nil

/-- **The identities of `w.activeLinks e` are different.** -/
theorem nodup_ids (w : World ρ γ) (e : Engine) : ((w.activeLinks e).map w.id?).Nodup := by
  rw [activeLinks, List.map_cons, List.map_map, chain]
  split
  · exact List.nodup_singleton _
  · rename_i m hm
    refine List.nodup_cons.2 ⟨fun hmem => ?_, w.nodup_ids_chainFrom _ _ _⟩
    obtain ⟨level, hlevel, heq⟩ := List.mem_map.1 hmem
    obtain ⟨id, hid, -, hnot⟩ := exists_id_of_mem_chainFrom hlevel
    have hsame : some id = some m.id := by
      rw [← hid, ← id?_of_machine? hm]
      exact heq
    cases hsame
    exact hnot List.mem_cons_self

/-- The links of `w.activeLinks e` are different. -/
theorem nodup_activeLinks (w : World ρ γ) (e : Engine) : (w.activeLinks e).Nodup :=
  (w.nodup_ids e).of_map

/-- `(w.activeLinks e).drop i` and `(w.activeLinks e).take i` share no link. -/
theorem not_mem_take (h : link ∈ (w.activeLinks e).drop i) :
    link ∉ (w.activeLinks e).take i := by
  intro hmem
  have hnodup := w.nodup_activeLinks e
  rw [← List.take_append_drop i (w.activeLinks e)] at hnodup
  exact (List.nodup_append.1 hnodup).2.2 link hmem link h rfl

/-- `(w.activeLinks e)[i]?` is not in `(w.activeLinks e).take i`. -/
theorem ne_of_mem_take (h : (w.activeLinks e)[i]? = some link)
    {other : Link} (hother : other ∈ (w.activeLinks e).take i) : other ≠ link := by
  rintro rfl
  refine not_mem_take (List.mem_of_getElem? (i := 0) ?_) hother
  rw [List.getElem?_drop, Nat.add_zero, h]

/-- `(w.activeLinks e)[i]?` is not in `(w.activeLinks e).drop (i + 1)`. -/
theorem ne_of_mem_drop (h : (w.activeLinks e)[i]? = some link)
    {other : Link} (hother : other ∈ (w.activeLinks e).drop (i + 1)) : other ≠ link := by
  rintro rfl
  refine not_mem_take hother (List.mem_of_getElem? (i := i) ?_)
  rw [List.getElem?_take_of_lt (Nat.lt_succ_self i), h]

/-! ## Chains of a tidy world -/

/-- The levels of `w.chainFrom` in a tidy world are machines, with their snapshots. -/
theorem Tidy.exists_of_mem_chainFrom (hw : w.Tidy settings) {bound : Nat} {visited : List MachineId}
    {level : Level} (h : level ∈ w.chainFrom bound visited link?) :
    ∃ m, w.machine? level.link = some m ∧ level.snapshot = m.snapshot ∧ m.id ∉ visited := by
  obtain ⟨id, hid, hshown, hnew⟩ := exists_id_of_mem_chainFrom h
  obtain ⟨m, hm, rfl⟩ := hw.exists_machine hid
  rw [snapshot?_of_machine? hm, Option.some.injEq] at hshown
  exact ⟨m, hm, hshown.symm, hnew⟩

/-- **The levels of `w.chain e` in a tidy world are machines**, with their snapshots, and none is
the root. -/
theorem Tidy.exists_of_mem_chain (hw : w.Tidy settings) {level : Level} (h : level ∈ w.chain e) :
    ∃ m, w.machine? level.link = some m ∧ level.snapshot = m.snapshot ∧ level.link ≠ e.root := by
  rw [chain] at h
  split at h
  · cases h
  · rename_i root hroot
    obtain ⟨m, hm, hshown, hnew⟩ := hw.exists_of_mem_chainFrom h
    refine ⟨m, hm, hshown, fun heq => hnew ?_⟩
    rw [heq, hroot] at hm
    cases hm
    exact List.mem_singleton.2 rfl

/-- The links of `w.activeLinks e` in a tidy world have machines. -/
theorem Tidy.hasMachine_of_mem (hw : w.Tidy settings) (hroot : w.HasMachine e.root)
    (hlink : link ∈ w.activeLinks e) : w.HasMachine link := by
  rcases List.mem_cons.1 hlink with rfl | hlink
  · exact hroot
  · obtain ⟨level, hlevel, rfl⟩ := List.mem_map.1 hlink
    obtain ⟨m, hm, -⟩ := hw.exists_of_mem_chain hlevel
    exact ⟨m, hm⟩

/-! ## Chains of machines that stay -/

/-- `w.chainFrom` keeps its first `n + 1` links if the first `n` stay. -/
theorem Stays.take_chainFrom (h : w.Stays kept w') (hw : w.Tidy settings) {bound : Nat}
    {visited : List MachineId} (hlink : linkWithin w.HasMachine link?)
    (hkept : ∀ link ∈ ((w.chainFrom bound visited link?).map (·.link)).take n, kept link) :
    ((w'.chainFrom bound visited link?).map (·.link)).take (n + 1) =
      ((w.chainFrom bound visited link?).map (·.link)).take (n + 1) := by
  induction bound generalizing visited link? n with
  | zero => rfl
  | succ bound ih =>
    cases link? with
    | none => rfl
    | some link =>
      obtain ⟨m, hm⟩ := hlink link rfl
      obtain ⟨m', hm', hid, hunmoved⟩ := h.machine link m hm
      simp only [chainFrom, id?_of_machine? hm, snapshot?_of_machine? hm] at hkept ⊢
      simp only [id?_of_machine? hm', snapshot?_of_machine? hm', hid]
      by_cases hvisited : m.id ∈ visited
      · rw [if_pos hvisited, if_pos hvisited]
      · rw [if_neg hvisited] at hkept ⊢
        rw [if_neg hvisited, List.map_cons, List.map_cons, List.take_succ_cons,
          List.take_succ_cons]
        cases n with
        | zero => rfl
        | succ n =>
          rw [List.map_cons, List.take_succ_cons] at hkept
          -- The machine itself stays, so it leads on to the same child.
          have hstays := hunmoved (hkept link List.mem_cons_self)
          rw [hstays.snapshot_eq]
          exact congrArg _ (ih (hw.children link m hm) fun other hother =>
            hkept other (List.mem_cons_of_mem _ hother))

/-- **`w.activeLinks e` keeps its first `n + 1` links if the first `n` stay.** -/
theorem Stays.take_activeLinks (h : w.Stays kept w') (hw : w.Tidy settings)
    (hroot : w.HasMachine e.root) (hkept : ∀ link ∈ (w.activeLinks e).take n, kept link) :
    (w'.activeLinks e).take (n + 1) = (w.activeLinks e).take (n + 1) := by
  rw [activeLinks] at hkept ⊢
  rw [activeLinks, List.take_succ_cons, List.take_succ_cons]
  cases n with
  | zero => rfl
  | succ n =>
    rw [List.take_succ_cons] at hkept
    obtain ⟨root, hm⟩ := hroot
    obtain ⟨root', hm', hid, hunmoved⟩ := h.machine e.root root hm
    have hstays := hunmoved (hkept e.root List.mem_cons_self)
    unfold chain at hkept ⊢
    simp only [hm] at hkept ⊢
    simp only [hm', hid, hstays.current]
    exact congrArg _ (h.take_chainFrom hw (hw.children e.root root hm) fun other hother =>
      hkept other (List.mem_cons_of_mem _ hother))

/-- **`w.activeLinks e` is the same if all of its links stay.** -/
theorem Stays.activeLinks_eq (h : w.Stays kept w') (hw : w.Tidy settings)
    (hroot : w.HasMachine e.root) (hkept : ∀ link ∈ w.activeLinks e, kept link) :
    w'.activeLinks e = w.activeLinks e := by
  have htake := h.take_activeLinks (n := (w.activeLinks e).length) hw hroot fun link hlink =>
    hkept link (List.mem_of_mem_take hlink)
  rw [List.take_of_length_le (Nat.le_succ (w.activeLinks e).length)] at htake
  -- One more link would have been found as well, had there been one.
  have hlength := congrArg List.length htake
  rw [List.length_take] at hlength
  rwa [List.take_of_length_le (by omega)] at htake

end World

/-- `Act.drawGraph` depends on `w.cells`, `e.root` and `e.config` alone. -/
theorem Act.drawGraph_congr (hcells : w'.cells = w.cells) (hroot : e'.root = e.root)
    (hconfig : e'.config = e.config) : Act.drawGraph w' e' = Act.drawGraph w e := by
  have hmachine := World.machine?_of_cells hcells
  have hchain : w'.chain e' = w.chain e :=
    (World.chain_congr hroot hconfig).trans (World.chain_of_cells hcells e)
  simp only [Act.drawGraph, World.describe?, hmachine, hchain, hroot, hconfig]

end Statechart
