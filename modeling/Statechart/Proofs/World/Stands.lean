import Statechart.Proofs.Definition.Position
import Statechart.Proofs.World.Frame
import Statechart.Proofs.World.Level

/-! # Machines that stand one inside the other

A nested definition in a world is a list of links, one for every key it stands at: the machine at a
link runs its level, is in the state of its key, and has the next machine as the child of that
state.

* `Machine.StandsIn`: a machine that runs a level and is in the state of a key.
* **`World.Stands`**: the machines at some links stand one inside the other.
* `World.Carries`: the innermost state has its data from the leaf that it belongs to.
* `World.Stands.splice`: how machines are put inside another one.
* **`Definition.ends_realise_statePlan`**: following the plan of a state makes the machines inside
  it, all of them new. -/

namespace Statechart

variable {ρ γ : Type}

/-- **`m` runs the definition `level`**: its factory, table and settings are `levelFactory`,
`levelTable` and `levelConfig`, and it is quiet (`Machine.IsQuiet`). -/
structure Machine.Runs (host : Host ρ γ) (config : HierarchyConfig) (level : Definition)
    (m : Machine (StatePlan ρ)) : Prop where
  factory : m.factory = Definition.levelFactory config level
  table : m.table = Definition.levelTable config level
  config : m.config = Definition.levelConfig config
  since : m.current.since ≤ m.revision
  quiet : m.IsQuiet host

/-- **`m` stands in the state `key` of the `level` it runs**, with the child `child`, if any. -/
structure Machine.StandsIn (host : Host ρ γ) (config : HierarchyConfig) (level : Definition)
    (key : String) (child : Option Link) (m : Machine (StatePlan ρ)) : Prop where
  runs : m.Runs host config level
  key_eq : m.current.state.key = key
  child_eq : m.current.state.child = child
  isFinal_eq : ∃ state, level.state? key = some state ∧ m.current.state.isFinal = state.isFinal

/-- The data of a state that is entered with `params`. Composites have none. -/
def StateDef.data : StateDef → Params → Value
  | .leaf l, params => l.data params
  | .composite _, _ => .null

/-- The `State` that `state` is made into under `key`, with `child`, if any. -/
def StateDef.enter (state : StateDef) (key : String) (params : Params) (child : Option Link) :
    State where
  key
  data := state.data params
  isFinal := state.isFinal
  child

/-- `Machine.Runs` is the same for machines that are `Machine.Alike`. -/
theorem Machine.Runs.alike {host : Host ρ γ} {config : HierarchyConfig} {level : Definition}
    {m m' : Machine (StatePlan ρ)} (h : m.Runs host config level) (halike : m.Alike host m') :
    m'.Runs host config level := by
  refine ⟨halike.factory.trans h.factory, halike.table.trans h.table, halike.config.trans h.config,
    ?_, halike.quiet h.quiet⟩
  rw [halike.current]
  exact Nat.le_trans h.since halike.revision

/-- `Machine.StandsIn` is the same for machines that are `Machine.Alike`. -/
theorem Machine.StandsIn.alike {host : Host ρ γ} {config : HierarchyConfig} {level : Definition}
    {key : String} {child : Option Link} {m m' : Machine (StatePlan ρ)}
    (h : m.StandsIn host config level key child) (halike : m.Alike host m') :
    m'.StandsIn host config level key child := by
  obtain ⟨hruns, hkey, hchild, hfinal⟩ := h
  rw [← halike.current] at hkey hchild hfinal
  exact ⟨hruns.alike halike, hkey, hchild, hfinal⟩

namespace World

variable {host : Host ρ γ} {config : HierarchyConfig} {kept : Link → Prop} {w w' : World ρ γ}
  {state outer : StateDef} {level : Definition} {links inner : List Link}
  {keys innerKeys : List String} {link : Link} {m : Machine (StatePlan ρ)} {depth : Nat}
  {params : Params}

/-! ## Standing -/

/-- **The machine at `links[depth]` stands in `keys[depth]`** of the definition at
`keys.take depth`, with the child `links[depth + 1]?`. -/
def HasRung (host : Host ρ γ) (config : HierarchyConfig) (w : World ρ γ) (state : StateDef)
    (links : List Link) (keys : List String) (depth : Nat) : Prop :=
  ∀ link key, links[depth]? = some link → keys[depth]? = some key →
    ∃ level m, state.at? (keys.take depth) = some (.composite level) ∧
      w.machine? link = some m ∧ m.StandsIn host config level key links[depth + 1]?

/-- **The machines at `links` stand one inside the other** at `keys`: `HasRung` holds at every
depth. Their identities are different and have all been minted by the world. -/
structure Stands (host : Host ρ γ) (config : HierarchyConfig) (w : World ρ γ) (state : StateDef)
    (links : List Link) (keys : List String) : Prop where
  length : links.length = keys.length
  rung : ∀ depth, w.HasRung host config state links keys depth
  minted : ∀ link ∈ links, ∃ n, w.id? link = some (.minted n) ∧ n < w.minted
  distinct : (links.map w.id?).Nodup

/-- **The innermost state carries the data of its leaf**, `leaf.data params`. -/
def Carries (w : World ρ γ) (state : StateDef) (links : List Link) (keys : List String)
    (params : Params) : Prop :=
  ∀ leaf link m, state.at? keys = some (.leaf leaf) → links.getLast? = some link →
    w.machine? link = some m →
    m.current.state.data = leaf.data params

/-- The machine at `links[depth]`, with its level and its key. -/
theorem Stands.exists_machine (h : w.Stands host config state links keys)
    (hlink : links[depth]? = some link) :
    ∃ level key m, keys[depth]? = some key ∧ state.at? (keys.take depth) = some (.composite level) ∧
      w.machine? link = some m ∧ m.StandsIn host config level key links[depth + 1]? := by
  have hlt : depth < keys.length := h.length ▸ (List.getElem?_eq_some_iff.1 hlink).1
  have hkey : keys[depth]? = some keys[depth] := List.getElem?_eq_getElem hlt
  obtain ⟨level, m, hlevel, hm, hstands⟩ := h.rung depth _ _ hlink hkey
  exact ⟨level, _, m, hkey, hlevel, hm, hstands⟩

/-- There is a machine at each of `links`. -/
theorem Stands.exists_of_mem (h : w.Stands host config state links keys) (hlink : link ∈ links) :
    ∃ m, w.machine? link = some m := by
  obtain ⟨depth, hdepth⟩ := List.mem_iff_getElem?.1 hlink
  obtain ⟨-, -, m, -, -, hm, -⟩ := h.exists_machine hdepth
  exact ⟨m, hm⟩

/-- No link is at two depths of `links`. -/
theorem Stands.depth_eq (h : w.Stands host config state links keys) {i : Nat}
    (hi : links[i]? = some link) (hdepth : links[depth]? = some link) : i = depth := by
  have hnodup : links.Nodup := h.distinct.of_map
  obtain ⟨hilt, higet⟩ := List.getElem?_eq_some_iff.1 hi
  obtain ⟨hlt, hget⟩ := List.getElem?_eq_some_iff.1 hdepth
  exact (List.Nodup.getElem_inj_iff hnodup).1 (higet.trans hget.symm)

/-- **`World.Stands` is kept if the machines at `links` become `Machine.Alike` ones**, under minted
identities. -/
theorem Stands.of_alike (h : w.Stands host config state links keys)
    (halike : ∀ link ∈ links, ∀ m, w.machine? link = some m →
      ∃ m', w'.machine? link = some m' ∧ m.Alike host m')
    (hminted : ∀ link ∈ links, ∃ n, w'.id? link = some (.minted n) ∧ n < w'.minted) :
    w'.Stands host config state links keys := by
  refine ⟨h.length, ?_, hminted, ?_⟩
  · intro depth link key hlink hkey
    obtain ⟨level, m, hlevel, hm, hstands⟩ := h.rung depth link key hlink hkey
    obtain ⟨m', hm', halike⟩ := halike link (List.mem_of_getElem? hlink) m hm
    exact ⟨level, m', hlevel, hm', hstands.alike halike⟩
  · have hid : ∀ link ∈ links, w'.id? link = w.id? link := by
      intro link hlink
      obtain ⟨m, hm⟩ := h.exists_of_mem hlink
      obtain ⟨m', hm', halike⟩ := halike link hlink m hm
      rw [id?_of_machine? hm, id?_of_machine? hm', halike.id]
    rw [List.map_congr_left hid]
    exact h.distinct

/-- **`World.Stands` is kept by `World.Keeps`** of its links. -/
theorem Stands.of_keeps (h : w.Stands host config state links keys)
    (hk : w.Keeps host kept w') (hkept : ∀ link ∈ links, kept link) :
    w'.Stands host config state links keys := by
  refine h.of_alike (fun link hlink m hm => hk.machine link m (hkept link hlink) hm) ?_
  intro link hlink
  obtain ⟨m, hm⟩ := h.exists_of_mem hlink
  obtain ⟨n, hn, hlt⟩ := h.minted link hlink
  exact ⟨n, (hk.id? (hkept link hlink) hm).trans hn, Nat.lt_of_lt_of_le hlt hk.minted⟩

/-- `World.Carries` is kept by `World.Keeps` of the links. -/
theorem Carries.of_keeps (h : w.Carries state links keys params)
    (hstands : w.Stands host config state links keys) (hk : w.Keeps host kept w')
    (hkept : ∀ link ∈ links, kept link) : w'.Carries state links keys params := by
  intro leaf link m' hleaf hlast hm'
  have hmem := List.mem_of_getLast? hlast
  obtain ⟨m, hm⟩ := hstands.exists_of_mem hmem
  obtain ⟨m'', hm'', halike⟩ := hk.machine link m (hkept link hmem) hm
  rw [hm'] at hm''
  cases hm''
  rw [halike.current]
  exact h leaf link m hleaf hlast hm

/-- **Machines are put inside the one at `depth`**, which enters the state `target`: `World.Stands`
of `links.take (depth + 1) ++ inner`. -/
theorem Stands.splice {target : String} (hlength : links.length = keys.length)
    (houter : ∀ i < depth, w.HasRung host config outer links keys i)
    (hlevel : outer.at? (keys.take depth) = some (.composite level))
    (hlink : links[depth]? = some link) (hm : w.machine? link = some m)
    (hstate : level.state? target = some state)
    (hin : m.StandsIn host config level target inner.head?)
    (hinner : w.Stands host config state inner innerKeys)
    (hminted : ∀ link ∈ links.take (depth + 1), ∃ n, w.id? link = some (.minted n) ∧ n < w.minted)
    (hdistinct : ((links.take (depth + 1) ++ inner).map w.id?).Nodup) :
    w.Stands host config outer (links.take (depth + 1) ++ inner)
      (keys.take depth ++ target :: innerKeys) := by
  obtain ⟨hlt, -⟩ := List.getElem?_eq_some_iff.1 hlink
  have hlinks : (links.take (depth + 1)).length = depth + 1 := List.length_take_of_le hlt
  have hkeys : (keys.take depth).length = depth := List.length_take_of_le (by omega)
  refine ⟨?length, ?rung, ?minted, hdistinct⟩
  case length =>
    rw [List.length_append, List.length_append, hlinks, hkeys, List.length_cons, hinner.length]
    omega
  case rung =>
    intro i own key hown hkey
    rcases Nat.lt_trichotomy i depth with hi | rfl | hi
    · -- A machine around the one that moves.
      rw [List.getElem?_append_left (by omega), List.getElem?_take_of_lt (by omega)] at hown hkey
      obtain ⟨around, m', haround, hm', hstands⟩ := houter i hi own key hown hkey
      refine ⟨around, m', ?_, hm', ?_⟩
      · rw [List.take_append_of_le_length (by omega), List.take_take, Nat.min_eq_left (by omega)]
        exact haround
      · rw [List.getElem?_append_left (by omega), List.getElem?_take_of_lt (by omega)]
        exact hstands
    · -- The machine that moves.
      rw [List.getElem?_append_left (by omega), List.getElem?_take_of_lt (by omega), hlink] at hown
      rw [List.getElem?_append_right (by omega), hkeys, Nat.sub_self, List.getElem?_cons_zero]
        at hkey
      cases hown
      cases hkey
      refine ⟨level, m, ?_, hm, ?_⟩
      · rw [List.take_append_of_le_length (by omega), List.take_take, Nat.min_self]
        exact hlevel
      · rw [List.getElem?_append_right (by omega), hlinks, Nat.sub_self, ← List.head?_eq_getElem?]
        exact hin
    · -- A machine inside it.
      obtain ⟨j, rfl⟩ : ∃ j, i = depth + 1 + j := ⟨i - (depth + 1), by omega⟩
      have hsub : depth + 1 + j - depth = j + 1 := by omega
      rw [List.getElem?_append_right (by omega), hlinks, Nat.add_sub_cancel_left] at hown
      rw [List.getElem?_append_right (by omega), hkeys, hsub, List.getElem?_cons_succ] at hkey
      obtain ⟨around, m', haround, hm', hstands⟩ := hinner.rung j own key hown hkey
      refine ⟨around, m', ?_, hm', ?_⟩
      · rw [List.take_append, hkeys, hsub, List.take_succ_cons, List.take_take,
          Nat.min_eq_right (by omega), StateDef.at?_append, hlevel, Option.bind_some,
          Definition.at?_cons, hstate]
        exact haround
      · rw [List.getElem?_append_right (by omega), hlinks]
        have hnext : depth + 1 + j + 1 - (depth + 1) = j + 1 := by omega
        rw [hnext]
        exact hstands
  case minted =>
    intro own hown
    rcases List.mem_append.1 hown with hown | hown
    · exact hminted own hown
    · exact hinner.minted own hown

/-- **The data of the innermost state after `Stands.splice`**: that state is `target`, or it is
inside `target` and made from no parameters. -/
theorem Carries.splice {target : String} {params : Params}
    (hlevel : outer.at? (keys.take depth) = some (.composite level))
    (hlink : links[depth]? = some link) (hm : w.machine? link = some m)
    (hstate : level.state? target = some state)
    (hdata : m.current.state.data = state.data params)
    (hlength : inner.length = state.innerKeys.length)
    (hinner : inner ≠ [] → w.Carries state inner state.innerKeys []) :
    w.Carries outer (links.take (depth + 1) ++ inner) (keys.take depth ++ target :: state.innerKeys)
      (if inner = [] then params else []) := by
  intro leaf last m' hleaf hlast hm'
  rw [StateDef.at?_append, hlevel, Option.bind_some, Definition.at?_cons, hstate,
    Option.bind_some] at hleaf
  by_cases hnil : inner = []
  · -- The machine itself is the innermost one.
    subst hnil
    have hlinks : (links.take (depth + 1)).length = depth + 1 :=
      List.length_take_of_le (List.getElem?_eq_some_iff.1 hlink).1
    rw [List.eq_nil_of_length_eq_zero hlength.symm, StateDef.at?_nil] at hleaf
    cases hleaf
    rw [List.append_nil, List.getLast?_eq_getElem?, hlinks, Nat.add_sub_cancel,
      List.getElem?_take_of_lt (Nat.lt_succ_self _), hlink] at hlast
    cases hlast
    rw [hm] at hm'
    cases hm'
    rw [if_pos rfl]
    exact hdata
  · rw [List.getLast?_append_of_ne_nil _ hnil] at hlast
    rw [if_neg hnil]
    exact hinner hnil leaf last m' hleaf hlast hm'

/-! ## Making machines -/

/-- **What `StatePlan.realise` makes of the plan of `state`**: machines at `links`, all of them new,
that stand at `state.innerKeys`. The data of the innermost state are made from no parameters. -/
structure Makes (host : Host ρ γ) (config : HierarchyConfig) (w w' : World ρ γ) (state : StateDef)
    (links : List Link) : Prop where
  keeps : w.Keeps host (fun _ => True) w'
  stands : w'.Stands host config state links state.innerKeys
  fresh : ∀ link ∈ links, w.cells.size ≤ link.place
  recent : ∀ link ∈ links, ∃ n, w'.id? link = some (.minted n) ∧ w.minted ≤ n
  carries : links ≠ [] → w'.Carries state links state.innerKeys []

/-- Identities minted before `n` differ from those minted from `n` on. -/
theorem nodup_append_of_recent {n : Nat} (hold : (links.map w.id?).Nodup)
    (hnew : (inner.map w.id?).Nodup)
    (hbefore : ∀ link ∈ links, ∃ i, w.id? link = some (.minted i) ∧ i < n)
    (hafter : ∀ link ∈ inner, ∃ i, w.id? link = some (.minted i) ∧ n ≤ i) :
    ((links ++ inner).map w.id?).Nodup := by
  rw [List.map_append, List.nodup_append]
  refine ⟨hold, hnew, ?_⟩
  intro id hid id' hid' heq
  obtain ⟨link, hlink, rfl⟩ := List.mem_map.1 hid
  obtain ⟨link', hlink', rfl⟩ := List.mem_map.1 hid'
  obtain ⟨i, hi, hlt⟩ := hbefore link hlink
  obtain ⟨j, hj, hle⟩ := hafter link' hlink'
  rw [hi, hj, Option.some.injEq, MachineId.minted.injEq] at heq
  omega

end World

/-- `Act.found` adds one machine, `Machine.start`, and keeps all the others. -/
theorem Act.ends_found (host : Host ρ γ) {parts : Assembly (StatePlan ρ) State} {w : World ρ γ} :
    Act.Ends (Act.found parts) w fun result w' => result = .ok ⟨w.cells.size⟩ ∧
      w.Keeps host (fun _ => True) w' ∧ w'.minted = w.minted + 1 ∧
      w'.machine? ⟨w.cells.size⟩ = some (Machine.start (.minted w.minted) parts) := by
  have hminted : w.Keeps host (fun _ => True) { w with minted := w.minted + 1 } :=
    .of_eq rfl rfl (Nat.le_succ _) rfl
  refine ⟨_, _, rfl, rfl, hminted.trans .addCell, rfl, ?_⟩
  exact World.machine?_addCell.trans (if_pos rfl)

namespace Definition

variable {delimiter : String} {host maker : Host ρ γ} {config : HierarchyConfig}

/-- **`Act.found` around `World.Makes` is `World.Makes`** of the definition around the state. -/
theorem makes_found {d : Definition} {key : String} {state : StateDef} {w w₁ w₂ : World ρ γ}
    {links : List Link} (hmakes : w.Makes host config w₁ state links)
    (hkeys : (StateDef.composite d).innerKeys = key :: state.innerKeys)
    (hstate : d.state? key = some state) (hkeeps : w₁.Keeps host (fun _ => True) w₂)
    (hminted : w₂.minted = w₁.minted + 1)
    (hm : w₂.machine? ⟨w₁.cells.size⟩ = some (Machine.start (.minted w₁.minted)
      ⟨state.enter key [] links.head?, levelFactory config d, levelTable config d,
        levelConfig config⟩)) :
    w.Makes host config w₂ (.composite d) (⟨w₁.cells.size⟩ :: links) := by
  have hid := World.id?_of_machine? hm
  have hinner := hmakes.stands.of_keeps hkeeps fun _ _ => trivial
  -- The machines inside were made before the new one, and none of them was there at first.
  have hrecent : ∀ link ∈ links, ∃ n, w₂.id? link = some (.minted n) ∧ w.minted ≤ n ∧
      n < w₁.minted := by
    intro link hlink
    obtain ⟨m, hm⟩ := hmakes.stands.exists_of_mem hlink
    obtain ⟨n, hn, hle⟩ := hmakes.recent link hlink
    obtain ⟨n', hn', hlt⟩ := hmakes.stands.minted link hlink
    rw [hn, Option.some.injEq, MachineId.minted.injEq] at hn'
    rw [← hkeeps.id? trivial hm] at hn
    exact ⟨n, hn, hle, by omega⟩
  refine ⟨hmakes.keeps.trans hkeeps, ?stands, ?fresh, ?recent, ?carries⟩
  case stands =>
    rw [hkeys]
    show w₂.Stands host config (.composite d) ([⟨w₁.cells.size⟩].take (0 + 1) ++ links)
      ([key].take 0 ++ key :: state.innerKeys)
    refine World.Stands.splice rfl ?_ rfl rfl hm hstate
      ⟨⟨rfl, rfl, rfl, Nat.le_refl 0, ?_⟩, rfl, rfl, state, hstate, rfl⟩ hinner ?_ ?_
    · intro i hi
      omega
    · intro subscriber hsubscriber
      cases hsubscriber
    · intro link hlink
      obtain rfl : link = ⟨w₁.cells.size⟩ := by simpa using hlink
      exact ⟨w₁.minted, hid, by omega⟩
    · rw [List.take_succ_cons, List.take_zero, List.singleton_append, List.map_cons,
        List.nodup_cons]
      refine ⟨?_, hinner.distinct⟩
      intro hmem
      obtain ⟨link, hlink, heq⟩ := List.mem_map.1 hmem
      obtain ⟨n, hn, -, hlt⟩ := hrecent link hlink
      rw [hid, hn, Option.some.injEq, Machine.start, MachineId.minted.injEq] at heq
      omega
  case fresh =>
    intro link hlink
    rcases List.mem_cons.1 hlink with rfl | hlink
    · exact hmakes.keeps.size
    · exact hmakes.fresh link hlink
  case recent =>
    intro link hlink
    rcases List.mem_cons.1 hlink with rfl | hlink
    · exact ⟨w₁.minted, hid, hmakes.keeps.minted⟩
    · obtain ⟨n, hn, hle, -⟩ := hrecent link hlink
      exact ⟨n, hn, hle⟩
  case carries =>
    intro _
    rw [hkeys]
    have hcarries : w₂.Carries (.composite d) ([⟨w₁.cells.size⟩].take (0 + 1) ++ links)
        ([key].take 0 ++ key :: state.innerKeys) (if links = [] then [] else []) :=
      World.Carries.splice rfl rfl hm hstate rfl hmakes.stands.length fun hne =>
        (hmakes.carries hne).of_keeps hmakes.stands hkeeps fun _ _ => trivial
    rwa [ite_self] at hcarries

/-- `MachinePlan.realise` of `d.machinePlan` is `World.Makes` if `StatePlan.realise` is, for each of
`d.states`. -/
theorem IsSound.ends_realise_machinePlan {d : Definition} (h : d.IsSound delimiter)
    (host : Host ρ γ) (config : HierarchyConfig) (w : World ρ γ)
    (inside : ∀ entry ∈ d.states, Act.Ends ((statePlan config entry.1 entry.2 []).realise maker) w
      fun made w' => ∃ links, made = some (entry.2.enter entry.1 [] links.head?) ∧
        w.Makes host config w' entry.2 links) :
    Act.Ends ((d.machinePlan config).realise maker) w fun result w' =>
      ∃ link links, result = .ok link ∧
        w.Makes host config w' (.composite d) (link :: links) := by
  obtain ⟨key, hinitial, hdeclared⟩ := h.initial
  obtain ⟨state, hstate⟩ := Option.isSome_iff_exists.1 hdeclared
  have hkeys : (StateDef.composite d).innerKeys = key :: state.innerKeys := by
    rw [StateDef.innerKeys, startKeys_of_initial hinitial, enteredKeys_of_state? hstate]
  rw [h.realise_machinePlan maker hinitial hstate]
  refine Act.ends_bind (inside (key, state) (mem_of_state? hstate)) ?_
  rintro _ w₁ ⟨links, rfl, hmakes⟩
  refine (Act.ends_found host).mono ?_
  rintro _ w₂ ⟨rfl, hkeeps, hminted, hm⟩
  exact ⟨_, links, rfl, makes_found hmakes hkeys hstate hkeeps hminted hm⟩

/-- **`StatePlan.realise` of the plan of `state` is `World.Makes`**, by induction on `state`. The
host `maker` may differ from `host`: machines of a level have no subscribers. -/
theorem ends_realise_statePlan (host : Host ρ γ) (config : HierarchyConfig) (state : StateDef)
    (h : ∀ level ∈ state.levels, level.IsSound delimiter) :
    ∀ key params (w : World ρ γ),
      Act.Ends ((statePlan config key state params).realise maker) w fun made w' =>
        ∃ links, made = some (state.enter key params links.head?) ∧
          w.Makes host config w' state links := by
  induction state using StateDef.inside_induction with
  | leaf l =>
    intro key params w
    -- A leaf has no machines inside.
    refine ⟨_, w, rfl, [], rfl, .refl host _ w, ⟨rfl, ?rung, ?minted, List.nodup_nil⟩, ?fresh,
      ?recent, ?carries⟩
    case rung =>
      intro depth link key hlink
      cases hlink
    case minted =>
      intro link hlink
      cases hlink
    case fresh =>
      intro link hlink
      cases hlink
    case recent =>
      intro link hlink
      cases hlink
    case carries =>
      intro hne
      exact absurd rfl hne
  | composite inner ih =>
    intro key params w
    rw [StateDef.levels] at h
    -- The machine of a composite is made together with all those inside it.
    have hmachine := (h inner inner.mem_levels_self).ends_realise_machinePlan host config w
      fun entry hentry => ih entry hentry
        (fun level hlevel => h level (mem_levels_of_state hentry hlevel)) entry.1 [] w
    obtain ⟨_, w', hrun, link, links, rfl, hmakes⟩ := hmachine
    refine ⟨some ((StateDef.composite inner).enter key params (some link)), w', ?_, link :: links,
      rfl, hmakes⟩
    rw [statePlan, StatePlan.realise, realiseChild, ChildPlan.realise]
    simp only [bind_assoc, pure_bind]
    rw [StateT.run_bind, hrun]
    rfl

/-- **`MachinePlan.realise` of `d.machinePlan` is `World.Makes`** for a sound definition. -/
theorem Sound.ends_realise_machinePlan {d : Definition} (h : d.Sound delimiter) (host : Host ρ γ)
    (config : HierarchyConfig) (w : World ρ γ) :
    Act.Ends ((d.machinePlan config).realise maker) w fun result w' =>
      ∃ link links, result = .ok link ∧
        w.Makes host config w' (.composite d) (link :: links) :=
  IsSound.ends_realise_machinePlan (h d d.mem_levels_self) host config w fun entry hentry =>
    ends_realise_statePlan host config entry.2
      (fun level hlevel => h level (mem_levels_of_state hentry hlevel)) entry.1 [] w

end Definition

end Statechart
