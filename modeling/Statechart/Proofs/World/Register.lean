import Statechart.Proofs.World.Following
import Statechart.Proofs.World.Rest

/-! # The register of an engine

An engine has a list of the children that are registered with it, and keeps a record of every child
that it has registered or released. Much of what happens in a world leaves both alone, and the
identities of all children. Only when an engine brings registrations in line with the active chain
the list is replaced, and then the children that left the chain are released and those that joined
it registered.

* `World.KeepsRegister`, `World.Logs`: the register of an engine is left alone, or some calls are
  added to its record.
* `Alternates`, **`World.Balances`**: calls that alternate, and a register that agrees with its
  record.
* **`World.Aligns`**, **`World.Balances.aligns`**: a register is brought in line with the active
  chain, and stays balanced.
* `Act.gives_sync_aligns`: this is what an engine does; **`Act.run_sync`**: and then, if other
  children are on the chain than before, those who watch are told. -/

namespace Statechart

variable {ρ γ : Type}

/-! ## The record of an engine -/

/-- **The calls about a child** in `e.calls`, the first one first: `true` for `attach`, `false` for
`detach`. -/
def Engine.callsFor (e : Engine) (id : MachineId) : List Bool :=
  ((e.calls.filter (·.1 = id)).map (·.2)).reverse

/-- **Calls alternate**: the first one is `next`, and each of the others is the negation of the one
before it. -/
def Alternates : Bool → List Bool → Prop
  | _, [] => True
  | next, call :: rest => call = next ∧ Alternates (!next) rest

/-- `Alternates` for one more `call` at the end: it is the negation of the last one, or `next` if it
is the first. -/
theorem alternates_concat {next call : Bool} {calls : List Bool} :
    Alternates next (calls ++ [call]) ↔
      Alternates next calls ∧ call = (calls.getLast?.map (!·)).getD next := by
  induction calls generalizing next with
  | nil => simp [Alternates]
  | cons first rest ih =>
    rw [List.cons_append, Alternates, Alternates, ih, and_assoc]
    refine and_congr_right ?_
    rintro rfl
    have hlast : ((first :: rest).getLast?.map (!·)).getD first =
        (rest.getLast?.map (!·)).getD (!first) := by
      rw [List.getLast?_cons]
      cases rest.getLast? <;> rfl
    rw [hlast]

/-- `Alternates true` for one more `call` at the end: it is `true` exactly if the last one is
not. -/
theorem alternates_true_concat {call : Bool} {calls : List Bool} :
    Alternates true (calls ++ [call]) ↔
      Alternates true calls ∧ (call = true ↔ calls.getLast? ≠ some true) := by
  rw [alternates_concat]
  refine and_congr_right fun _ => ?_
  rcases calls.getLast? with _ | _ | _ <;> cases call <;> decide

/-- **Calls go on alternating in an exchange.** If a child `was` there exactly if its last call is
`true`, and then a child that `was` and no longer `is` there gets `false`, and one that `is` and was
not gets `true`, then `Alternates true` still holds, and it `is` there exactly if its last call is
`true`. -/
theorem alternates_exchange {was is : Prop} [Decidable was] [Decidable is] {calls : List Bool}
    (halternates : Alternates true calls) (hlast : was ↔ calls.getLast? = some true) :
    let after := calls ++ ((if was ∧ ¬ is then [false] else []) ++
      if is ∧ ¬ was then [true] else [])
    Alternates true after ∧ (is ↔ after.getLast? = some true) := by
  by_cases hwas : was
  · by_cases his : is
    · simpa [hwas, his, halternates] using hlast.1 hwas
    · simp [hwas, his, alternates_true_concat, halternates, hlast.1 hwas]
  · by_cases his : is
    · simp [hwas, his, alternates_true_concat, halternates, mt hlast.2 hwas]
    · simpa [hwas, his, halternates] using mt hlast.2 hwas

/-- Of calls for `ids` without doubles, those about `child` are `[isJoining]` if `child ∈ ids`, else
none. -/
theorem filter_calls {ids : List MachineId} (hnodup : ids.Nodup) (isJoining : Bool)
    (child : MachineId) :
    ((ids.map (·, isJoining)).filter (·.1 = child)).map (·.2) =
      if child ∈ ids then [isJoining] else [] := by
  rw [List.filter_map, List.map_map]
  show List.map (fun _ => isJoining) (ids.filter (· = child)) = _
  rw [List.filter_eq, hnodup.count, List.map_replicate]
  split
  · rfl
  · rfl

/-- If `e'.calls` adds calls for `left` and for `joined` to `e.calls`, `callsFor child` gets `false`
if `child ∈ left` and `true` if `child ∈ joined`. -/
theorem Engine.callsFor_of_calls {e e' : Engine} {left joined : List MachineId} (hleft : left.Nodup)
    (hjoined : joined.Nodup)
    (hcalls : e'.calls =
      (left.map (·, false) ++ joined.map (·, true)).reverse ++ e.calls) (child : MachineId) :
    e'.callsFor child = e.callsFor child ++
      ((if child ∈ left then [false] else []) ++ if child ∈ joined then [true] else []) := by
  rw [callsFor, hcalls, List.filter_append, List.filter_reverse, List.map_append, List.map_reverse,
    List.reverse_append, List.reverse_reverse, List.filter_append, List.map_append,
    filter_calls hleft, filter_calls hjoined, callsFor]

namespace World

variable {w w' w'' : World ρ γ} {e e' : Engine} {number number' : Nat} {link : Link}
  {links : List Link} {ids : List MachineId} {entries entries' : List (MachineId × Bool)}
  {m : Machine (StatePlan ρ)} {id : MachineId}

/-! ## What happens to a register -/

/-- The identities `w.id?` of links, where there are any. -/
def idsOf (w : World ρ γ) (links : List Link) : List MachineId := links.filterMap w.id?

/-- The identities of the children on `w.chain e`. -/
def chainIds (w : World ρ γ) (e : Engine) : List MachineId :=
  w.idsOf ((w.chain e).map (·.link))

/-- **Every identity is kept**: `w'.id?` agrees with `w.id?` wherever that is `some id`. -/
def KeepsIds (w w' : World ρ γ) : Prop :=
  ∀ link id, w.id? link = some id → w'.id? link = some id

/-- **The engine `number` adds `entries` to its `calls`**, the last one first, and keeps `root` and
`attached`; all identities are kept (`KeepsIds`). -/
structure Logs (number : Nat) (entries : List (MachineId × Bool)) (w w' : World ρ γ) : Prop where
  ids : w.KeepsIds w'
  engine : ∀ e, w.engines[number]? = some e → ∃ e', w'.engines[number]? = some e' ∧
    e'.root = e.root ∧ e'.attached = e.attached ∧ e'.calls = entries ++ e.calls

/-- **The register of the engine `number` is left alone**: `Logs` with no entries. -/
def KeepsRegister (number : Nat) (w w' : World ρ γ) : Prop := w.Logs number [] w'

/-- `Logs` for `entries` and then for `entries'` is `Logs` for both. -/
theorem Logs.trans (h : w.Logs number entries w') (h' : w'.Logs number entries' w'') :
    w.Logs number (entries' ++ entries) w'' := by
  refine ⟨fun link id hid => h'.ids link id (h.ids link id hid), fun e he => ?_⟩
  obtain ⟨e', he', hroot, hattached, hcalls⟩ := h.engine e he
  obtain ⟨e'', he'', hroot', hattached', hcalls'⟩ := h'.engine e' he'
  refine ⟨e'', he'', hroot'.trans hroot, hattached'.trans hattached, ?_⟩
  rw [hcalls', hcalls, List.append_assoc]

/-- `engines.modify number f` has `f e` at `number` where `e` was. -/
theorem getElem?_modify_engine (w : World ρ γ) (number : Nat) (f : Engine → Engine) :
    (w.engines.modify number f)[number]? = w.engines[number]?.map f := by
  rw [Array.getElem?_modify, if_pos rfl]

namespace KeepsRegister

/-- `KeepsRegister` is transitive. -/
theorem trans (h : w.KeepsRegister number w') (h' : w'.KeepsRegister number w'') :
    w.KeepsRegister number w'' := Logs.trans h h'

/-- `KeepsRegister` holds if `cells` and `engines` are the same. -/
theorem of_eq (hcells : w'.cells = w.cells) (hengines : w'.engines = w.engines) :
    w.KeepsRegister number w' := by
  refine ⟨fun link id hid => ?_, fun e he => ⟨e, by rw [hengines, he], rfl, rfl, rfl⟩⟩
  rw [id?, cell?, hcells]
  exact hid

theorem refl (number : Nat) (w : World ρ γ) : w.KeepsRegister number w := of_eq rfl rfl

/-- `KeepsRegister` for `setCell` with a cell of the same `id`. -/
theorem setCell {cell cell' : Cell ρ} (hcell : w.cell? link = some cell)
    (hid : cell'.id = cell.id) : w.KeepsRegister number (w.setCell link cell') := by
  refine ⟨fun other id hother => ?_, fun e he => ⟨e, he, rfl, rfl, rfl⟩⟩
  rw [id?, cell?_setCell]
  by_cases heq : other = link
  · subst heq
    rw [id?, hcell] at hother
    rw [if_pos rfl, hcell]
    exact (congrArg some hid).trans hother
  · rw [if_neg heq]
    exact hother

/-- `KeepsRegister` for `setCell` with a machine of the same `id`. -/
theorem setMachine {m' : Machine (StatePlan ρ)} (hm : w.machine? link = some m)
    (hid : m'.id = m.id) : w.KeepsRegister number (w.setCell link (.machine m')) :=
  setCell (machine?_eq_some_iff.1 hm) hid

/-- `KeepsRegister` for `addCell`. -/
theorem addCell (w : World ρ γ) (cell : Cell ρ) : w.KeepsRegister number (w.addCell cell).2 := by
  refine ⟨fun link id hid => ?_, fun e he => ⟨e, he, rfl, rfl, rfl⟩⟩
  rw [id?, cell?_addCell, if_neg, ← id?, hid]
  rintro rfl
  rw [id?, cell?_addCell_link] at hid
  cases hid

/-- `KeepsRegister` for `engines.modify number' f`, if `f` keeps `root`, `attached` and `calls` or
`number' ≠ number`. -/
theorem modify {f : Engine → Engine} (hf : number' = number → ∀ e, (f e).root = e.root ∧
    (f e).attached = e.attached ∧ (f e).calls = e.calls) :
    w.KeepsRegister number { w with engines := w.engines.modify number' f } := by
  refine ⟨fun _ _ hid => hid, fun e he => ?_⟩
  by_cases heq : number' = number
  · subst heq
    obtain ⟨hroot, hattached, hcalls⟩ := hf rfl e
    refine ⟨f e, ?_, hroot, hattached, hcalls⟩
    rw [getElem?_modify_engine, he]
    rfl
  · refine ⟨e, ?_, rfl, rfl, rfl⟩
    show (w.engines.modify number' f)[number]? = _
    rw [Array.getElem?_modify, if_neg heq, he]

/-- `KeepsRegister` for one more engine. -/
theorem push (w : World ρ γ) (number : Nat) (other : Engine) :
    w.KeepsRegister number { w with engines := w.engines.push other } := by
  refine ⟨fun _ _ hid => hid, fun e he => ⟨e, ?_, rfl, rfl, rfl⟩⟩
  show (w.engines.push other)[number]? = _
  rw [Array.getElem?_push, if_neg, he]
  rintro rfl
  rw [Array.getElem?_size] at he
  cases he

end KeepsRegister

/-- `KeepsRegister number` is kept by whatever makes new cells (`IsGrowth`). -/
theorem isGrowth_keepsRegister (number : Nat) :
    IsGrowth (KeepsRegister number : World ρ γ → World ρ γ → Prop) :=
  ⟨.refl number, fun _ _ _ => .trans, fun _ _ => .of_eq rfl rfl, fun _ _ => .of_eq rfl rfl,
    fun w cell _ => .addCell w cell⟩

/-! ## Identities of links -/

/-- A link with an identity in `w` has one in `w'`. -/
theorem KeepsIds.isSome (h : w.KeepsIds w') (hlink : (w.id? link).isSome = true) :
    (w'.id? link).isSome = true := by
  obtain ⟨id, hid⟩ := Option.isSome_iff_exists.1 hlink
  rw [h link id hid]
  rfl

/-- `idsOf links` is the same in `w'` for links that have identities in `w`. -/
theorem KeepsIds.idsOf_eq (h : w.KeepsIds w')
    (hknown : ∀ link ∈ links, (w.id? link).isSome = true) : w'.idsOf links = w.idsOf links :=
  List.filterMap_congr fun link hlink => by
    obtain ⟨id, hid⟩ := Option.isSome_iff_exists.1 (hknown link hlink)
    rw [h link id hid, hid]

/-- For links that have identities, `links.map w.id?` is `(w.idsOf links).map some`. -/
theorem map_id?_eq (hknown : ∀ link ∈ links, (w.id? link).isSome = true) :
    links.map w.id? = (w.idsOf links).map some := by
  induction links with
  | nil => rfl
  | cons link rest ih =>
    obtain ⟨id, hid⟩ := Option.isSome_iff_exists.1 (hknown link List.mem_cons_self)
    rw [List.map_cons, ih fun other hother => hknown other (List.mem_cons_of_mem _ hother), idsOf,
      idsOf, List.filterMap_cons_some hid, List.map_cons, hid]

/-- The `links` whose identity is not among those of `known`. -/
def newBeside (w : World ρ γ) (known links : List Link) : List Link :=
  links.filter fun link => !(known.map w.id?).contains (w.id? link)

theorem newBeside_eq (known links : List Link) :
    w.newBeside known links = links.filter fun link => w.id? link ∉ known.map w.id? := by
  simp only [newBeside, List.contains_eq_mem, decide_not]

/-- `idsOf (newBeside known links)` is `idsOf links` without `idsOf known`. -/
theorem idsOf_newBeside {known : List Link} (hlinks : ∀ link ∈ links, (w.id? link).isSome = true)
    (hknown : ∀ link ∈ known, (w.id? link).isSome = true) :
    w.idsOf (w.newBeside known links) = (w.idsOf links).filter (· ∉ w.idsOf known) := by
  have hids (links : List Link) : w.idsOf links = links.filterMap w.id? := rfl
  rw [newBeside_eq, map_id?_eq hknown, hids (links.filter _), hids links, List.filterMap_filter,
    List.filter_filterMap]
  refine List.filterMap_congr fun link hlink => ?_
  obtain ⟨id, hid⟩ := Option.isSome_iff_exists.1 (hlinks link hlink)
  have hmem : some id ∈ (w.idsOf known).map some ↔ id ∈ w.idsOf known := by simp
  rw [hid, Option.filter_some]
  simp only [hmem]

/-- `newBeside known links = []` if both have the same identities. -/
theorem newBeside_eq_nil {known : List Link} (hsame : links.map w.id? = known.map w.id?) :
    w.newBeside known links = [] := by
  rw [newBeside_eq]
  refine List.filter_eq_nil_iff.2 fun link hlink => ?_
  rw [← hsame, decide_eq_true_eq, not_not]
  exact List.mem_map_of_mem hlink

/-- Each link of `w.chain e` has an identity. -/
theorem isSome_id?_of_mem_chain (hlink : link ∈ (w.chain e).map (·.link)) :
    (w.id? link).isSome = true := by
  obtain ⟨level, hlevel, rfl⟩ := List.mem_map.1 hlink
  rw [chain] at hlevel
  split at hlevel
  · cases hlevel
  · obtain ⟨id, hid, -⟩ := exists_id_of_mem_chainFrom hlevel
    rw [hid]
    rfl

/-- **`w.chainIds e` has no doubles** and does not have the identity of `e.root`. -/
theorem nodup_chainIds (hroot : w.id? e.root = some id) :
    (w.chainIds e).Nodup ∧ id ∉ w.chainIds e := by
  have hnodup := w.nodup_ids e
  rw [activeLinks, List.map_cons, List.nodup_cons,
    map_id?_eq fun link hlink => isSome_id?_of_mem_chain hlink, hroot] at hnodup
  exact ⟨hnodup.2.of_map, fun hmem => hnodup.1 (List.mem_map.2 ⟨_, hmem, rfl⟩)⟩

/-! ## Registers that are brought in line -/

/-- **The register of the engine `number` is brought in line with the chain**: `e'.attached` are the
links of `w.chain e`, and `e'.calls` adds `false` for each identity that only `e.attached` has and
then `true` for each that only the chain has. -/
structure Aligns (number : Nat) (w w' : World ρ γ) : Prop where
  ids : w.KeepsIds w'
  engine : ∀ e, w.engines[number]? = some e → ∃ e', w'.engines[number]? = some e' ∧
    e'.root = e.root ∧ e'.attached = (w.chain e).map (·.link) ∧
    e'.calls = (((w.idsOf e.attached).filter (· ∉ w.chainIds e)).map (·, false) ++
      ((w.chainIds e).filter (· ∉ w.idsOf e.attached)).map (·, true)).reverse ++ e.calls

/-- **The register of `e` is balanced**, with `id` the identity of its root: each child was attached
and detached in turns, and `e.attached` are those whose last call is `true`. -/
structure Balances (id : MachineId) (w : World ρ γ) (e : Engine) : Prop where
  root : w.id? e.root = some id
  known : ∀ link ∈ e.attached, (w.id? link).isSome = true
  /-- No identity is in `e.attached` twice. -/
  nodup : (w.idsOf e.attached).Nodup
  /-- The root is not in `e.attached`. -/
  apart : id ∉ w.idsOf e.attached
  /-- The calls about a child are `true`, `false`, `true`, and so on. -/
  alternates : ∀ child, Alternates true (e.callsFor child)
  /-- A child is in `e.attached` exactly if its last call is `true`. -/
  last : ∀ child, child ∈ w.idsOf e.attached ↔ (e.callsFor child).getLast? = some true

/-- `Balances` is kept by `KeepsRegister`, and so are the identities of `e.attached`. -/
theorem Balances.keeps (h : w.Balances id e) (he : w.engines[number]? = some e)
    (hkeeps : w.KeepsRegister number w') (he' : w'.engines[number]? = some e') :
    w'.Balances id e' ∧ w'.idsOf e'.attached = w.idsOf e.attached := by
  obtain ⟨e₁, he₁, hroot, hattached, hcalls⟩ := hkeeps.engine e he
  rw [he'] at he₁
  cases he₁
  have hids : w'.idsOf e'.attached = w.idsOf e.attached := by
    rw [hattached]
    exact hkeeps.ids.idsOf_eq h.known
  -- No call has been made, so that those that are recorded are the same.
  have hcallsFor (child : MachineId) : e'.callsFor child = e.callsFor child := by
    rw [Engine.callsFor, hcalls, List.nil_append, Engine.callsFor]
  refine ⟨⟨?root, ?known, ?nodup, ?apart, ?alternates, ?last⟩, hids⟩
  case root =>
    rw [hroot]
    exact hkeeps.ids _ _ h.root
  case known =>
    intro link hlink
    rw [hattached] at hlink
    exact hkeeps.ids.isSome (h.known link hlink)
  case nodup =>
    rw [hids]
    exact h.nodup
  case apart =>
    rw [hids]
    exact h.apart
  case alternates =>
    intro child
    rw [hcallsFor]
    exact h.alternates child
  case last =>
    intro child
    rw [hids, hcallsFor]
    exact h.last child

/-- **`Balances` is kept by `Aligns`**, and then `e'.attached` has the identities `w.chainIds e`. -/
theorem Balances.aligns (h : w.Balances id e) (he : w.engines[number]? = some e)
    (haligns : w.Aligns number w') (he' : w'.engines[number]? = some e') :
    w'.Balances id e' ∧ w'.idsOf e'.attached = w.chainIds e := by
  obtain ⟨e₁, he₁, hroot, hattached, hcalls⟩ := haligns.engine e he
  rw [he'] at he₁
  cases he₁
  obtain ⟨hnodup, hapart⟩ := nodup_chainIds h.root
  have hids : w'.idsOf e'.attached = w.chainIds e := by
    rw [hattached]
    exact haligns.ids.idsOf_eq fun _ => isSome_id?_of_mem_chain
  -- Those who have left are released once, and those who are new are registered once. That keeps
  -- the calls for each child in turns.
  have hbalance (child : MachineId) : Alternates true (e'.callsFor child) ∧
      (child ∈ w.chainIds e ↔ (e'.callsFor child).getLast? = some true) := by
    have hcallsFor := Engine.callsFor_of_calls (h.nodup.filter (· ∉ w.chainIds e))
      (hnodup.filter (· ∉ w.idsOf e.attached)) hcalls child
    simp only [List.mem_filter, decide_eq_true_eq] at hcallsFor
    rw [hcallsFor]
    exact alternates_exchange (h.alternates child) (h.last child)
  refine ⟨⟨?root, ?known, ?nodup, ?apart, ?alternates, ?last⟩, hids⟩
  case root =>
    rw [hroot]
    exact haligns.ids _ _ h.root
  case known =>
    intro link hlink
    rw [hattached] at hlink
    exact haligns.ids.isSome (isSome_id?_of_mem_chain hlink)
  case nodup =>
    rw [hids]
    exact hnodup
  case apart =>
    rw [hids]
    exact hapart
  case alternates => exact fun child => (hbalance child).1
  case last =>
    rw [hids]
    exact fun child => (hbalance child).2

/-- `Aligns` and then `KeepsRegister` is `Aligns`. -/
theorem Aligns.keeps (h : w.Aligns number w') (hkeeps : w'.KeepsRegister number w'') :
    w.Aligns number w'' := by
  refine ⟨fun link id hid => hkeeps.ids link id (h.ids link id hid), fun e he => ?_⟩
  obtain ⟨e', he', hroot, hattached, hcalls⟩ := h.engine e he
  obtain ⟨e'', he'', hroot', hattached', hcalls'⟩ := hkeeps.engine e' he'
  exact ⟨e'', he'', hroot'.trans hroot, hattached'.trans hattached, hcalls'.trans hcalls⟩

/-- **What those who watch the engine `number` are told**, one by one: the graph
`Act.drawGraph w e`. -/
def tidings (number : Nat) (w : World ρ γ) : List ShapeGraph :=
  match w.engines[number]? with
  | none => []
  | some e => e.watchers.round.map fun _ => Act.drawGraph w e

end World

/-! ## What engines do to a register -/

/-- **`host.registered` leaves the register of the engine `number` alone**, as far as
`Act.Grows (World.KeepsRegister number)` says. -/
def Host.AdoptsApart (number : Nat) (host : Host ρ γ) : Prop :=
  ∀ link isJoining, Act.Grows (World.KeepsRegister number) (host.registered link isJoining)

/-- `host` without anybody who watches graphs: `redrawn` does nothing. -/
def Host.unwatched (host : Host ρ γ) : Host ρ γ := { host with redrawn := fun _ => return () }

namespace Act

variable {host : Host ρ γ} {w : World ρ γ} {e : Engine} {number number' : Nat} {link : Link}
  {links : List Link} {id : MachineId}

/-- `attach` leaves the register alone, also that of the engine that attaches. -/
theorem grows_attach (h : host.AdoptsApart number) (number' : Nat) (link : Link) :
    Grows (World.KeepsRegister number) (attach host number' link) := by
  refine grows_get fun w => ?_
  split
  · rename_i m hm
    refine ends_setCell.gives.mono ?_
    rintro _ _ rfl
    exact .setMachine hm rfl
  · exact h link true w

/-- `detach` leaves the register alone. -/
theorem grows_detach (h : host.AdoptsApart number) (link : Link) :
    Grows (World.KeepsRegister number) (detach host link) := by
  refine grows_get fun w => ?_
  split
  · rename_i m hm
    refine ends_setCell.gives.mono ?_
    rintro _ _ rfl
    exact .setMachine hm rfl
  · exact h link false w

/-- **`call host number isJoining link` adds the one entry `(id, isJoining)`** (`World.Logs`). -/
theorem gives_call_logs (h : host.AdoptsApart number) (isJoining : Bool)
    (hid : w.id? link = some id) :
    Gives False (call host number isJoining link) w fun _ w' =>
      w.Logs number [(id, isJoining)] w' := by
  have hnote : Gives False (updateEngine number fun e =>
      { e with calls := (id, isJoining) :: e.calls } : Act ρ γ Unit) w fun _ w' =>
        w.Logs number [(id, isJoining)] w' := by
    refine gives_modify ⟨fun _ _ hid => hid, fun e he =>
      ⟨{ e with calls := (id, isJoining) :: e.calls }, ?_, rfl, rfl, rfl⟩⟩
    rw [World.getElem?_modify_engine, he]
    rfl
  refine gives_get ?_
  simp only [hid]
  refine gives_bind hnote fun _ w₁ hw₁ => ?_
  cases isJoining with
  | true => exact (grows_attach h number link w₁).mono fun _ _ hkeeps => hw₁.trans hkeeps
  | false => exact (grows_detach h link w₁).mono fun _ _ hkeeps => hw₁.trans hkeeps

/-- `call` for each of `links` adds one entry for each of their identities. -/
theorem gives_forM_call_logs (h : host.AdoptsApart number) (isJoining : Bool)
    (hknown : ∀ link ∈ links, (w.id? link).isSome = true) :
    Gives False (links.forM (call host number isJoining)) w fun _ w' =>
      w.Logs number ((w.idsOf links).map (·, isJoining)).reverse w' := by
  induction links generalizing w with
  | nil => exact gives_pure (World.KeepsRegister.refl number w)
  | cons link rest ih =>
    obtain ⟨id, hid⟩ := Option.isSome_iff_exists.1 (hknown link List.mem_cons_self)
    have hrest : ∀ other ∈ rest, (w.id? other).isSome = true := fun other hother =>
      hknown other (List.mem_cons_of_mem _ hother)
    refine gives_bind (gives_call_logs h isJoining hid) fun _ w₁ hw₁ => ?_
    refine (ih fun other hother => hw₁.ids.isSome (hrest other hother)).mono fun _ w₂ hw₂ => ?_
    rw [hw₁.ids.idsOf_eq hrest] at hw₂
    have hids : w.idsOf (link :: rest) = id :: w.idsOf rest := List.filterMap_cons_some hid
    rw [hids, List.map_cons, List.reverse_cons]
    exact hw₁.trans hw₂

/-- `call` of another engine leaves the register alone. -/
theorem grows_call_of_ne (h : host.AdoptsApart number) (hne : number' ≠ number) (isJoining : Bool)
    (link : Link) : Grows (World.KeepsRegister number) (call host number' isJoining link) := by
  refine grows_get fun w => ?_
  split
  · exact gives_pure (.refl number w)
  · rename_i id hid
    have hnote : Gives False (updateEngine number' fun e =>
        { e with calls := (id, isJoining) :: e.calls } : Act ρ γ Unit) w fun _ w' =>
          w.KeepsRegister number w' :=
      gives_modify (.modify fun heq => absurd heq hne)
    refine gives_bind hnote fun _ w₁ hw₁ => ?_
    cases isJoining with
    | true => exact (grows_attach h number' link w₁).mono fun _ _ hkeeps => hw₁.trans hkeeps
    | false => exact (grows_detach h link w₁).mono fun _ _ hkeeps => hw₁.trans hkeeps

/-- `e.attached` becomes the links of `w.chain e`; `call` with `false` for those that left, then
with `true` for those that are new. -/
def exchange (host : Host ρ γ) (number : Nat) (w : World ρ γ) (e : Engine) : Act ρ γ Unit := do
  let links := (w.chain e).map (·.link)
  updateEngine number fun e => { e with attached := links }
  (w.newBeside links e.attached).forM (call host number false)
  (w.newBeside e.attached links).forM (call host number true)

/-- `call` with `false` for `left` and with `true` for `joined` adds an entry for each. What
`host.registered` does meanwhile keeps their identities. -/
theorem gives_exchange_logs {left joined : List Link} (h : host.AdoptsApart number)
    (hleft : ∀ link ∈ left, (w.id? link).isSome = true)
    (hjoined : ∀ link ∈ joined, (w.id? link).isSome = true) :
    Gives False (do left.forM (call host number false); joined.forM (call host number true)) w
      fun _ w' => w.Logs number
        ((w.idsOf left).map (·, false) ++ (w.idsOf joined).map (·, true)).reverse w' := by
  refine gives_bind (gives_forM_call_logs h false hleft) fun _ w₁ hw₁ => ?_
  have hjoined₁ : ∀ link ∈ joined, (w₁.id? link).isSome = true := fun link hlink =>
    hw₁.ids.isSome (hjoined link hlink)
  refine (gives_forM_call_logs h true hjoined₁).mono fun _ w₂ hw₂ => ?_
  rw [List.reverse_append, ← hw₁.ids.idsOf_eq hjoined]
  exact hw₁.trans hw₂

/-- **`exchange` gives `World.Aligns`.** -/
theorem gives_exchange (h : host.AdoptsApart number) (he : w.engines[number]? = some e)
    (hknown : ∀ link ∈ e.attached, (w.id? link).isSome = true) :
    Gives False (exchange host number w e) w fun _ w' => w.Aligns number w' := by
  let links := (w.chain e).map (·.link)
  have hchain : ∀ link ∈ links, (w.id? link).isSome = true := fun _ => World.isSome_id?_of_mem_chain
  -- Who leaves and who joins is settled by the list and the chain before anything is done.
  have hleft : w.idsOf (w.newBeside links e.attached) =
      (w.idsOf e.attached).filter (· ∉ w.chainIds e) := World.idsOf_newBeside hknown hchain
  have hjoined : w.idsOf (w.newBeside e.attached links) =
      (w.chainIds e).filter (· ∉ w.idsOf e.attached) := World.idsOf_newBeside hchain hknown
  have hrelist : Gives False (updateEngine number fun e => { e with attached := links } :
      Act ρ γ Unit) w fun _ w' => w'.id? = w.id? ∧
        w'.engines[number]? = some { e with attached := links } := by
    refine gives_modify ⟨rfl, ?_⟩
    rw [World.getElem?_modify_engine, he]
    rfl
  refine gives_bind hrelist ?_
  rintro _ w₁ ⟨hid, he₁⟩
  have hids : w₁.idsOf = w.idsOf := by
    funext links
    rw [World.idsOf, World.idsOf, hid]
  refine (gives_exchange_logs h (fun link hlink => ?_) (fun link hlink => ?_)).mono
    fun _ w₂ hlogs => ?_
  · rw [hid]
    exact hknown link (List.mem_of_mem_filter hlink)
  · rw [hid]
    exact hchain link (List.mem_of_mem_filter hlink)
  · rw [hids, hleft, hjoined] at hlogs
    refine ⟨fun link id hlink => hlogs.ids link id (hid ▸ hlink), fun e' he' => ?_⟩
    rw [he] at he'
    cases he'
    exact hlogs.engine _ he₁

/-- **`sync` is `exchange`**, and then `redraw` if the chain has other identities than
`e.attached`. -/
theorem run_sync_eq (host : Host ρ γ) (he : w.engines[number]? = some e) :
    (sync host number).run w = (do
      exchange host number w e
      if ((w.chain e).map (·.link)).map w.id? ≠ e.attached.map w.id? then redraw host number
      return w.chain e : Act ρ γ (List Level)).run w := by
  rw [sync, StateT.run_bind, StateT.run_get]
  simp only [Option.pure_def, Option.bind_eq_bind, Option.bind_some, he, exchange, bind_assoc]
  by_cases hsame : ((w.chain e).map (·.link)).map w.id? = e.attached.map w.id?
  · simp only [hsame, World.newBeside_eq_nil hsame, World.newBeside_eq_nil hsame.symm, ne_eq,
      not_true_eq_false, if_false]
    rfl
  · simp only [hsame, World.newBeside_eq, ne_eq, not_false_eq_true, if_true]

/-! ## Those who watch -/

/-- `graph number` for an engine without a graph gives `drawGraph w e`, and leaves registers and
`tidings` alone. -/
theorem run_graph (he : w.engines[number]? = some e) (hgraph : e.graph? = none) :
    ∃ w', (graph number).run w = some (some (w.graphs, drawGraph w e), w') ∧
      (∀ other, w.KeepsRegister other w') ∧ w'.tidings number = w.tidings number := by
  let note : Engine → Engine := fun e' => { e' with graph? := some (w.graphs, drawGraph w e) }
  let w₁ : World ρ γ := { w with graphs := w.graphs + 1 }
  let w₂ : World ρ γ := { w₁ with engines := w.engines.modify number note }
  have hcount (other : Nat) : w.KeepsRegister other w₁ := .of_eq rfl rfl
  refine ⟨w₂, ?_, fun other => (hcount other).trans (.modify fun _ _ => ⟨rfl, rfl, rfl⟩), ?_⟩
  · simp [graph, he, hgraph, updateEngine, w₁, w₂]
    rfl
  · have he₂ : w₂.engines[number]? = some (note e) := by
      rw [World.getElem?_modify_engine, he]
      rfl
    rw [World.tidings, World.tidings, he, he₂]
    exact List.map_congr_left fun _ _ => drawGraph_congr rfl rfl rfl

/-- **`redraw` tells everybody who watches the new graph**: `host.redrawn` for each of
`w'.tidings number`, in a world where registers are as before. -/
theorem run_redraw (number : Nat) (w : World ρ γ) :
    ∃ w', (∀ other, w.KeepsRegister other w') ∧ ∀ host : Host ρ γ,
      (redraw host number).run w = ((w'.tidings number).forM host.redrawn).run w' := by
  let forget : Engine → Engine := fun e => { e with graph? := none }
  obtain ⟨w₁, hw₁⟩ : ∃ w₁ : World ρ γ, { w with engines := w.engines.modify number forget } = w₁ :=
    ⟨_, rfl⟩
  have hkeeps (other : Nat) : w.KeepsRegister other w₁ :=
    hw₁ ▸ .modify fun _ _ => ⟨rfl, rfl, rfl⟩
  have hforget : (updateEngine number forget : Act ρ γ Unit).run w = some ((), w₁) := by
    rw [← hw₁]
    rfl
  -- What follows depends on the engine that is found, and on who watches it.
  cases he₁ : w₁.engines[number]? with
  | none =>
    refine ⟨w₁, hkeeps, fun host => ?_⟩
    rw [World.tidings, he₁, redraw, StateT.run_bind, hforget]
    simp [he₁]
  | some e =>
    have hgraph : e.graph? = none := by
      rw [← hw₁, World.getElem?_modify_engine] at he₁
      obtain ⟨_, -, rfl⟩ := Option.map_eq_some_iff.1 he₁
      rfl
    cases hempty : e.watchers.isEmpty with
    | true =>
      have hround : e.watchers.round = [] := List.map_eq_nil_iff.2 (List.isEmpty_iff.1 hempty)
      refine ⟨w₁, hkeeps, fun host => ?_⟩
      rw [World.tidings, he₁, redraw, StateT.run_bind, hforget]
      simp [he₁, hempty, hround]
    | false =>
      obtain ⟨w₂, hdraws, hkeeps₂, htidings⟩ := run_graph he₁ hgraph
      refine ⟨w₂, fun other => (hkeeps other).trans (hkeeps₂ other), fun host => ?_⟩
      have htold : (e.watchers.round.map fun _ => drawGraph w₁ e).forM host.redrawn =
          e.watchers.round.forM fun _ => host.redrawn (drawGraph w₁ e) := List.forM_map
      rw [htidings, World.tidings, he₁, htold, redraw, StateT.run_bind, hforget]
      simp [he₁, hempty, hdraws, StateT.run_bind]

/-- `run_redraw`, and what `redraw host.unwatched` gives: that same world, with nobody told. -/
theorem run_redraw_unwatched (number : Nat) (w : World ρ γ) :
    ∃ w', (∀ other, w.KeepsRegister other w') ∧ ∀ host : Host ρ γ,
      (redraw host.unwatched number).run w = some ((), w') ∧
      (redraw host number).run w = ((w'.tidings number).forM host.redrawn).run w' := by
  obtain ⟨w', hkeeps, hrun⟩ := run_redraw number w
  refine ⟨w', hkeeps, fun host => ⟨?_, hrun host⟩⟩
  have hnobody : Ends ((w'.tidings number).forM host.unwatched.redrawn) w' fun _ w'' => w'' = w' :=
    ends_forM rfl fun _ _ _ hw => ends_pure hw
  obtain ⟨_, _, hnobody, rfl⟩ := hnobody
  exact (hrun _).trans hnobody

/-- **`sync` is `sync host.unwatched` and then `host.redrawn`** for each of `tidings number`, if the
chain has other identities than `e.attached`, and for nobody else. -/
theorem run_sync (host : Host ρ γ) (he : w.engines[number]? = some e) :
    (sync host number).run w = (do
      let levels ← sync host.unwatched number
      let now ← get
      (if ((w.chain e).map (·.link)).map w.id? = e.attached.map w.id? then []
        else now.tidings number).forM host.redrawn
      return levels : Act ρ γ (List Level)).run w := by
  have hexchange : exchange host.unwatched number w e = exchange host number w e := rfl
  rw [run_sync_eq host he, StateT.run_bind, StateT.run_bind, run_sync_eq host.unwatched he,
    hexchange, StateT.run_bind]
  cases (exchange host number w e).run w with
  | none => rfl
  | some done =>
    obtain ⟨-, w₁⟩ := done
    by_cases hsame : ((w.chain e).map (·.link)).map w.id? = e.attached.map w.id?
    · simp only [if_pos hsame, if_neg (not_not.2 hsame)]
      rfl
    · obtain ⟨w₂, -, hredraw⟩ := run_redraw_unwatched number w₁
      obtain ⟨hunwatched, hwatched⟩ := hredraw host
      simp only [if_neg hsame, if_pos hsame]
      simp [hunwatched, hwatched]

/-- `redraw host.unwatched` leaves every register alone. -/
theorem grows_redraw (host : Host ρ γ) (number number' : Nat) :
    Grows (World.KeepsRegister number) (redraw host.unwatched number') := by
  intro w
  obtain ⟨w', hkeeps, hrun⟩ := run_redraw_unwatched number' w
  refine ⟨False.elim, fun _ w'' hrun' => ?_⟩
  rw [(hrun host).1] at hrun'
  cases hrun'
  exact hkeeps number

/-- **`sync host.unwatched number` gives `World.Aligns`.** -/
theorem gives_sync_aligns (h : host.AdoptsApart number) (he : w.engines[number]? = some e)
    (hknown : ∀ link ∈ e.attached, (w.id? link).isSome = true) :
    Gives False (sync host.unwatched number) w fun _ w' => w.Aligns number w' := by
  have haligns : Gives False (do
      exchange host.unwatched number w e
      if ((w.chain e).map (·.link)).map w.id? ≠ e.attached.map w.id? then
        redraw host.unwatched number
      return w.chain e : Act ρ γ (List Level)) w fun _ w' => w.Aligns number w' := by
    refine gives_bind (gives_exchange h he hknown) fun _ w₁ hw₁ => ?_
    split
    · refine gives_bind (grows_redraw host number number w₁) fun _ w₂ hkeeps => ?_
      exact gives_pure (hw₁.keeps hkeeps)
    · exact gives_pure hw₁
  rw [Gives, run_sync_eq host.unwatched he]
  exact haligns

/-- `sync host.unwatched` of another engine leaves the register alone. -/
theorem grows_sync_of_ne (h : host.AdoptsApart number) (hne : number' ≠ number) :
    Grows (World.KeepsRegister number) (sync host.unwatched number') := by
  have hR := World.isGrowth_keepsRegister (ρ := ρ) (γ := γ) number
  have hcalls (isJoining : Bool) (links : List Link) : Grows (World.KeepsRegister number)
      (links.forM (call host.unwatched number' isJoining)) :=
    grows_forM hR fun link _ => grows_call_of_ne h hne isJoining link
  have hrelist (links : List Link) : Grows (World.KeepsRegister number)
      (updateEngine number' fun e => { e with attached := links } : Act ρ γ Unit) := fun w =>
    gives_modify (.modify fun heq => absurd heq hne)
  -- Each part of it concerns the other engine.
  have hexchange (w : World ρ γ) (e : Engine) : Grows (World.KeepsRegister number)
      (exchange host.unwatched number' w e) :=
    (hrelist _).bind hR fun _ => (hcalls false _).bind hR fun _ => hcalls true _
  intro w
  cases he : w.engines[number']? with
  | none =>
    refine gives_get ?_
    rw [he]
    exact gives_pure (hR.refl w)
  | some e =>
    rw [Gives, run_sync_eq host.unwatched he]
    refine (hexchange w e).bind hR (fun _ => ?_) w
    split
    · exact (grows_redraw host number number').bind hR fun _ => grows_pure hR _
    · exact grows_pure hR _

end Act

end Statechart
