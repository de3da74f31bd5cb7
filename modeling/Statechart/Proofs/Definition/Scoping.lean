import Statechart.Proofs.Definition.Resolution

/-! # Lexical scope of names

A name is looked up among joined paths, without a look at the definitions that are nested there. In
a definition that a check finds nothing wrong with, this is a walk over the definitions: outward
from a scope, to the first one in which the name is the path of a state.

* **`Definition.Denotes`**: a name denotes a state of the level that keys lead to.
* **`Definition.Nearest`**: no level further in has a state of this name.
* `PathIndex.outward_scope?`: the marks at the start of a name take keys off the scope.
* **`PathIndex.contains_join_iff`**: what is probed in the index.
* `PathIndex.exists_nearest`: a search comes to the nearest state, if there is one.
* **`PathIndex.tryResolve_lexical`**: what a name stands for. -/

namespace Statechart

/-! ## Reading a name -/

/-- **`path` is `keys` and then the keys of `name`**, if their paths agree. A `name` that is no path
of its own may still have the delimiter in it. -/
theorem Path.exists_eq_append {delimiter name : String} {keys path : List String}
    (h : Delimits delimiter keys) (h' : Delimits delimiter path) (hne : path ≠ [])
    (heq : join delimiter (scope? delimiter keys) name = delimiter.intercalate path) :
    ∃ names, names ≠ [] ∧ name = delimiter.intercalate names ∧ path = keys ++ names := by
  rcases eq_or_ne keys [] with rfl | hkeys
  · exact ⟨path, hne, heq, rfl⟩
  obtain ⟨c, rfl, hc⟩ := h
  obtain ⟨c', hcc, hc'⟩ := h'
  obtain rfl : c = c' := by simpa using congrArg String.toList hcc
  rw [scope?_of_ne_nil hkeys] at heq
  have hchars := congrArg String.toList heq
  simp only [join, String.toList_append, String.toList_intercalate, String.toList_singleton,
    List.append_assoc, List.singleton_append] at hchars
  -- Split at the delimiter, the path gives its keys, and the join those of the scope and the rest.
  have hsplit := congrArg (List.splitOn c) hchars
  rw [List.splitOn_append_cons_self, List.splitOn_intercalate c (by simpa using hc) (by simpa),
    List.splitOn_intercalate c (by simpa using hc') (by simpa)] at hsplit
  refine ⟨(name.toList.splitOn c).map String.ofList, by simp [List.splitOn_ne_nil], ?_, ?_⟩
  · rw [← String.toList_inj, String.toList_intercalate, String.toList_singleton, List.map_map]
    simp [Function.comp_def, List.intercalate_splitOn]
  · have hpath := congrArg (List.map String.ofList) hsplit
    simpa [Function.comp_def] using hpath.symm

namespace Definition

/-- **`name` denotes `state` on the level at `keys`**: it is the path of `names`, which lead from
there to `state`. -/
def Denotes (d : Definition) (delimiter : String) (keys : List String) (name : String)
    (names : List String) (state : StateDef) : Prop :=
  ∃ level, d.level? keys = some level ∧ names ≠ [] ∧ name = delimiter.intercalate names ∧
    (StateDef.composite level).at? names = some state

/-- **The nearest state of a name**, seen from the level that `reach` of the keys lead to: the level
at a depth is the first one, going outward, in which the name denotes a state. -/
structure Nearest (d : Definition) (delimiter : String) (keys : List String) (reach : Nat)
    (name : String) (depth : Nat) (names : List String) (state : StateDef) : Prop where
  depth_le : depth ≤ reach
  denotes : d.Denotes delimiter (keys.take depth) name names state
  first : ∀ deeper, depth < deeper → deeper ≤ reach →
    ∀ names state, ¬ d.Denotes delimiter (keys.take deeper) name names state

variable {d level : Definition} {delimiter name : String} {keys names names' : List String}
  {state state' : StateDef} {reach depth depth' : Nat}

/-- `keys ++ names` lead to what `name` denotes. -/
theorem Denotes.at? (h : d.Denotes delimiter keys name names state) :
    (StateDef.composite d).at? (keys ++ names) = some state := by
  obtain ⟨level, hlevel, -, -, hat⟩ := h
  rw [StateDef.at?_append, level?_eq_some_iff.1 hlevel, Option.bind_some, hat]

/-- `name` denotes one state on one level. -/
theorem Denotes.unique (hd : d.Orderly delimiter) (hone : delimiter.length = 1)
    (h : d.Denotes delimiter keys name names state)
    (h' : d.Denotes delimiter keys name names' state') : names = names' ∧ state = state' := by
  have hat := h.at?
  have hat' := h'.at?
  obtain ⟨-, -, hne, hname, -⟩ := h
  obtain ⟨-, -, hne', hname', -⟩ := h'
  obtain rfl : names = names' := Path.intercalate_inj
    ((hd.delimits hone hat).subset fun key hkey => List.mem_append_right _ hkey)
    ((hd.delimits hone hat').subset fun key hkey => List.mem_append_right _ hkey)
    hne hne' (hname.symm.trans hname')
  exact ⟨rfl, Option.some.inj (hat.symm.trans hat')⟩

/-- What `name` denotes at `keys.take reach` is `Nearest`. -/
theorem Denotes.nearest (h : d.Denotes delimiter (keys.take reach) name names state) :
    d.Nearest delimiter keys reach name reach names state where
  depth_le := Nat.le_refl _
  denotes := h
  first _ hlt hle := absurd hle (Nat.not_le_of_lt hlt)

/-- `Nearest` at `reach` is `Nearest` at `reach + 1` if `name` denotes nothing there. -/
theorem Nearest.of_around (h : d.Nearest delimiter keys reach name depth names state)
    (hnone : ∀ names state, ¬ d.Denotes delimiter (keys.take (reach + 1)) name names state) :
    d.Nearest delimiter keys (reach + 1) name depth names state where
  depth_le := Nat.le_succ_of_le h.depth_le
  denotes := h.denotes
  first deeper hlt hle := by
    rcases Nat.le_succ_iff.1 hle with hle | rfl
    · exact h.first deeper hlt hle
    · exact hnone

/-- `Nearest` holds of one state at most. -/
theorem Nearest.unique (hd : d.Orderly delimiter) (hone : delimiter.length = 1)
    (h : d.Nearest delimiter keys reach name depth names state)
    (h' : d.Nearest delimiter keys reach name depth' names' state') :
    depth = depth' ∧ names = names' ∧ state = state' := by
  have hdepth : depth = depth' := by
    rcases Nat.lt_trichotomy depth depth' with hlt | heq | hlt
    · exact absurd h'.denotes (h.first _ hlt h'.depth_le _ _)
    · exact heq
    · exact absurd h.denotes (h'.first _ hlt h.depth_le _ _)
  subst hdepth
  exact ⟨rfl, h.denotes.unique hd hone h'.denotes⟩

end Definition

/-! ## The search among paths -/

namespace PathIndex

variable {d level : Definition} {delimiter name : String} {keys names : List String}
  {state : StateDef} {reach : Nat}

/-- **`outward` takes `marks` keys off the scope**, if there are so many. -/
theorem outward_scope? (h : Path.Delimits delimiter keys) (hreach : reach ≤ keys.length)
    (marks : Nat) :
    outward delimiter marks (Path.scope? delimiter (keys.take reach)) =
      if marks ≤ reach then some (Path.scope? delimiter (keys.take (reach - marks))) else none := by
  induction marks generalizing reach with
  | zero => simp [outward]
  | succ marks ih =>
    cases reach with
    | zero => simp [outward, Path.scope?]
    | succ reach =>
      have hne : keys.take (reach + 1) ≠ [] := List.ne_nil_of_length_pos (by simp; omega)
      rw [Path.scope?_of_ne_nil hne, outward, Path.parent?_take h hreach, ih (by omega)]
      simp only [Nat.add_le_add_iff_right, Nat.add_sub_add_right]

/-- **`contains` of the path of a scope and `name` holds exactly if `name` denotes a state
there.** -/
theorem contains_join_iff (hd : d.Orderly delimiter) (hone : delimiter.length = 1)
    (hlevel : d.level? keys = some level) :
    (ofDefinition delimiter d).contains (Path.join delimiter (Path.scope? delimiter keys) name) =
      true ↔ ∃ names state, d.Denotes delimiter keys name names state := by
  rw [contains, Std.ExtTreeMap.contains_iff_mem]
  constructor
  · intro hmem
    obtain ⟨node, hnode⟩ :=
      Option.isSome_iff_exists.1 (Std.ExtTreeMap.isSome_getElem?_iff_mem.2 hmem)
    obtain ⟨path, state, hne, hat, hpath, -⟩ := exists_of_getElem?_nodes hd hnode
    -- The path of a listed state begins with the scope, so that the name is what comes after it.
    obtain ⟨names, hnames, hname, rfl⟩ := Path.exists_eq_append
      (hd.delimits hone (Definition.level?_eq_some_iff.1 hlevel)) (hd.delimits hone hat) hne hpath
    rw [StateDef.at?_append, Definition.level?_eq_some_iff.1 hlevel, Option.bind_some] at hat
    exact ⟨names, state, level, hlevel, hnames, hname, hat⟩
  · rintro ⟨names, state, hdenotes⟩
    have hat := hdenotes.at?
    obtain ⟨-, -, hnames, rfl, -⟩ := hdenotes
    rw [Path.join_scope?_intercalate keys hnames]
    exact mem_nodes hd (List.append_ne_nil_of_right_ne_nil keys hnames) hat

/-- `searchWithin` finds what `name` denotes in its scope. -/
theorem searchWithin_of_denotes (hd : d.Orderly delimiter) (hone : delimiter.length = 1)
    (h : d.Denotes delimiter keys name names state) (bound : Nat) :
    (ofDefinition delimiter d).searchWithin name (bound + 1) (Path.scope? delimiter keys) =
      .ok (delimiter.intercalate (keys ++ names)) := by
  obtain ⟨level, hlevel, hnames, hname, -⟩ := id h
  have hcontains := (contains_join_iff hd hone hlevel).2 ⟨names, state, h⟩
  rw [← Path.join_scope?_intercalate keys hnames, ← hname]
  simp only [searchWithin]
  exact if_pos hcontains

/-- `searchWithin` goes on in the scope around if `name` denotes nothing in its own. -/
theorem searchWithin_of_not_denotes (hd : d.Orderly delimiter) (hone : delimiter.length = 1)
    (hlevel : d.level? keys = some level)
    (hnone : ¬ ∃ names state, d.Denotes delimiter keys name names state) (bound : Nat) :
    (ofDefinition delimiter d).searchWithin name (bound + 1) (Path.scope? delimiter keys) =
      match Path.scope? delimiter keys with
      | none => .error .missing
      | some path =>
        (ofDefinition delimiter d).searchWithin name bound (Path.parent? delimiter path) := by
  rw [← contains_join_iff hd hone hlevel] at hnone
  simp only [searchWithin]
  exact if_neg hnone

/-- **`searchWithin` finds the `Nearest` state**, or that there is none, by induction on `reach`. -/
theorem searchWithin_eq (hd : d.Orderly delimiter) (hone : delimiter.length = 1)
    (hlevel : d.level? keys = some level) (hreach : reach ≤ keys.length) {bound : Nat}
    (hends : (ofDefinition delimiter d).searchWithin name bound
      (Path.scope? delimiter (keys.take reach)) ≠ .error .endless) :
    (∃ depth names state, d.Nearest delimiter keys reach name depth names state ∧
      (ofDefinition delimiter d).searchWithin name bound
        (Path.scope? delimiter (keys.take reach)) =
          .ok (delimiter.intercalate (keys.take depth ++ names))) ∨
    (∀ depth ≤ reach, ∀ names state,
      ¬ d.Denotes delimiter (keys.take depth) name names state) ∧
      (ofDefinition delimiter d).searchWithin name bound
        (Path.scope? delimiter (keys.take reach)) = .error .missing := by
  induction reach generalizing bound with
  | zero =>
    cases bound with
    | zero => exact absurd rfl hends
    | succ bound =>
      by_cases hhere : ∃ names state, d.Denotes delimiter (keys.take 0) name names state
      · obtain ⟨names, state, hdenotes⟩ := hhere
        exact Or.inl ⟨0, names, state, hdenotes.nearest,
          searchWithin_of_denotes hd hone hdenotes bound⟩
      · refine Or.inr ⟨fun depth hle names state hdenotes => ?_,
          searchWithin_of_not_denotes hd hone d.level?_nil hhere bound⟩
        obtain rfl := Nat.le_zero.1 hle
        exact hhere ⟨names, state, hdenotes⟩
  | succ reach ih =>
    cases bound with
    | zero => exact absurd rfl hends
    | succ bound =>
      by_cases hhere : ∃ names state, d.Denotes delimiter (keys.take (reach + 1)) name names state
      · obtain ⟨names, state, hdenotes⟩ := hhere
        exact Or.inl ⟨_, names, state, hdenotes.nearest,
          searchWithin_of_denotes hd hone hdenotes bound⟩
      · -- The search goes on in the scope around, where it finds the nearest state or none.
        have hdelimits := hd.delimits hone (Definition.level?_eq_some_iff.1 hlevel)
        obtain ⟨inner, hinner⟩ : ∃ inner, d.level? (keys.take (reach + 1)) = some inner :=
          Definition.exists_level?_of_append (by rwa [List.take_append_drop])
        have hne : keys.take (reach + 1) ≠ [] := List.ne_nil_of_length_pos (by simp; omega)
        have houtward := searchWithin_of_not_denotes hd hone hinner hhere bound
        simp only [Path.scope?_of_ne_nil hne, Path.parent?_take hdelimits hreach] at houtward
        rw [Path.scope?_of_ne_nil hne, houtward] at hends ⊢
        rcases ih (Nat.le_of_succ_le hreach) hends with
          ⟨depth, names, state, hnearest, hfound⟩ | ⟨hmissing, herror⟩
        · refine Or.inl ⟨depth, names, state, hnearest.of_around ?_, hfound⟩
          exact fun names state hdenotes => hhere ⟨names, state, hdenotes⟩
        · refine Or.inr ⟨fun depth hle names state hdenotes => ?_, herror⟩
          rcases Nat.le_succ_iff.1 hle with hle | rfl
          · exact hmissing depth hle names state hdenotes
          · exact hhere ⟨names, state, hdenotes⟩

/-! ## What a name stands for -/

/-- `tryResolve` is `leafOf` of what `locate` finds. -/
theorem tryResolve_of_locate_eq_ok {index : PathIndex} {scope : Option String}
    {target found leaf : String} (h : index.locate scope target = .ok found)
    (hleaf : index.leafOf found = some leaf) : index.tryResolve scope target = .ok leaf := by
  rw [tryResolve, h]
  simp only [bind, Except.bind, hleaf]
  rfl

/-- `tryResolve` is the error of `locate`. -/
theorem tryResolve_of_locate_eq_error {index : PathIndex} {scope : Option String}
    {target : String} {reason : Unresolved} (h : index.locate scope target = .error reason) :
    index.tryResolve scope target = .error reason := by
  rw [tryResolve, h]
  rfl

/-- `tryResolve` is `.escapesRoot` for more marks than `keys.length`. -/
theorem tryResolve_eq_escapesRoot (hd : d.Orderly delimiter) (hone : delimiter.length = 1)
    (hlevel : d.level? keys = some level) {target : String}
    (hmarks : keys.length < escapes target) :
    (ofDefinition delimiter d).tryResolve (Path.scope? delimiter keys) target =
      .error .escapesRoot := by
  have houtward := outward_scope? (hd.delimits hone (Definition.level?_eq_some_iff.1 hlevel))
    (Nat.le_refl keys.length) (escapes target)
  rw [List.take_length, if_neg (Nat.not_le_of_lt hmarks)] at houtward
  refine tryResolve_of_locate_eq_error ?_
  rw [locate, show (ofDefinition delimiter d).delimiter = delimiter from rfl, houtward]

/-- **`tryResolve` is the leaf of the `Nearest` state** from `keys.length - escapes target` on, or
`.missing` if there is none. -/
theorem tryResolve_eq (hd : d.Orderly delimiter) (hone : delimiter.length = 1)
    (hlevel : d.level? keys = some level) {target : String}
    (hmarks : escapes target ≤ keys.length) :
    (∃ depth names state,
      d.Nearest delimiter keys (keys.length - escapes target) (bareName target) depth names state ∧
      (ofDefinition delimiter d).tryResolve (Path.scope? delimiter keys) target =
        .ok (delimiter.intercalate (keys.take depth ++ names ++ state.innerKeys))) ∨
    (∀ depth ≤ keys.length - escapes target, ∀ names state,
      ¬ d.Denotes delimiter (keys.take depth) (bareName target) names state) ∧
      (ofDefinition delimiter d).tryResolve (Path.scope? delimiter keys) target =
        .error .missing := by
  -- Each mark takes one key off the scope, and there are keys enough.
  have houtward := outward_scope? (hd.delimits hone (Definition.level?_eq_some_iff.1 hlevel))
    (Nat.le_refl keys.length) (escapes target)
  rw [List.take_length, if_pos hmarks] at houtward
  have hlocate : (ofDefinition delimiter d).locate (Path.scope? delimiter keys) target =
      (ofDefinition delimiter d).search (bareName target)
        (Path.scope? delimiter (keys.take (keys.length - escapes target))) := by
    rw [locate, show (ofDefinition delimiter d).delimiter = delimiter from rfl, houtward]
  have hdelimiter : delimiter ≠ "" := by
    rintro rfl
    cases hone
  rcases searchWithin_eq hd hone hlevel (Nat.sub_le _ _)
      (search_ne_endless hdelimiter (bareName target) _) with
    ⟨depth, names, state, hnearest, hfound⟩ | ⟨hmissing, herror⟩
  · refine Or.inl ⟨depth, names, state, hnearest, ?_⟩
    obtain ⟨-, -, hnames, -⟩ := hnearest.denotes
    exact tryResolve_of_locate_eq_ok (hlocate.trans hfound)
      (leafOf_of_at? hd hone (List.append_ne_nil_of_right_ne_nil _ hnames) hnearest.denotes.at?)
  · exact Or.inr ⟨hmissing, tryResolve_of_locate_eq_error (hlocate.trans herror)⟩

/-- `bareName target` does not start with `escapeMark`. -/
theorem head?_bareName (target : String) : (bareName target).toList.head? ≠ some escapeMark := by
  intro hhead
  have hnot := List.head?_dropWhile_not (· == escapeMark) target.toList
  rw [bareName, String.toList_ofList] at hhead
  rw [hhead] at hnot
  simp at hnot

/-- **Names are lexically scoped.** Let `d.problems delimiter = some []` with a delimiter of one
character, and let `keys` lead to a level of `d`. Any `target` consists of some `marks` and a `name`
without a mark at its start. Seen from `keys`, `tryResolve` is `.error .escapesRoot` if and only if
`keys.length < marks`. Otherwise `marks` keys are taken off, and it is `.ok path` if and only if
`path` is that of the leaf which is entered with a `state` in `d.Nearest delimiter keys (keys.length
- marks) name depth names state`: of the levels from there outward it is the first one in which
`name` denotes a state. It is `.error .missing` if and only if there is no such level. -/
theorem tryResolve_lexical (h : d.problems delimiter = some []) (hone : delimiter.length = 1)
    (hlevel : d.level? keys = some level) (target : String) :
    ∃ marks name, target = String.ofList (List.replicate marks escapeMark) ++ name ∧
      name.toList.head? ≠ some escapeMark ∧
      ((ofDefinition delimiter d).tryResolve (Path.scope? delimiter keys) target =
        .error .escapesRoot ↔ keys.length < marks) ∧
      (marks ≤ keys.length →
        (∀ path, (ofDefinition delimiter d).tryResolve (Path.scope? delimiter keys) target =
            .ok path ↔
          ∃ depth names state,
            d.Nearest delimiter keys (keys.length - marks) name depth names state ∧
            path = delimiter.intercalate (keys.take depth ++ names ++ state.innerKeys)) ∧
        ((ofDefinition delimiter d).tryResolve (Path.scope? delimiter keys) target =
            .error .missing ↔
          ∀ depth ≤ keys.length - marks, ∀ names state,
            ¬ d.Denotes delimiter (keys.take depth) name names state)) := by
  have hd := Definition.orderly_of_problems h
  refine ⟨escapes target, bareName target, (replicate_escapes_append_bareName target).symm,
    head?_bareName target, ?_⟩
  by_cases hmarks : keys.length < escapes target
  · exact ⟨iff_of_true (tryResolve_eq_escapesRoot hd hone hlevel hmarks) hmarks,
      fun hle => absurd hle (Nat.not_le_of_lt hmarks)⟩
  rcases tryResolve_eq hd hone hlevel (Nat.le_of_not_lt hmarks) with
    ⟨depth, names, state, hnearest, hfound⟩ | ⟨hmissing, herror⟩
  · -- The nearest level is the only one, so that the name stands for one leaf.
    rw [hfound]
    refine ⟨iff_of_false (by simp) hmarks, fun _ => ⟨fun path => ⟨?_, ?_⟩, ?_⟩⟩
    · rintro ⟨⟩
      exact ⟨depth, names, state, hnearest, rfl⟩
    · rintro ⟨depth', names', state', hnearest', rfl⟩
      obtain ⟨rfl, rfl, rfl⟩ := hnearest.unique hd hone hnearest'
      rfl
    · refine iff_of_false (by simp) fun hmissing => ?_
      exact hmissing depth hnearest.depth_le names state hnearest.denotes
  · rw [herror]
    refine ⟨iff_of_false (by simp) hmarks, fun _ => ⟨fun path => ?_, iff_of_true rfl hmissing⟩⟩
    refine iff_of_false (by simp) ?_
    rintro ⟨depth, names, state, hnearest, -⟩
    exact hmissing depth hnearest.depth_le names state hnearest.denotes

/-- A definition with `Waiting` both on its own level and in `Platform`. -/
def station : Definition :=
  let platform := ((({} : Definition).state "Waiting").state "Boarding").initial "Waiting"
  ((({} : Definition).state "Waiting").composite "Platform" platform).initial "Waiting"

/-- `tryResolve_lexical` for `station` from the scope `"Platform"`. The one mark of `"^Waiting"`
takes the key off, and the rest denotes the state of the hall, not the one of the platform. -/
theorem station_waiting : station.problems "/" = some [] ∧
    (ofDefinition "/" station).tryResolve (Path.scope? "/" ["Platform"]) "^Waiting" =
      .ok "Waiting" ∧
    ∃ depth names state, station.Nearest "/" ["Platform"] 0 "Waiting" depth names state ∧
      "Waiting" = "/".intercalate (["Platform"].take depth ++ names ++ state.innerKeys) := by
  have hproblems : station.problems "/" = some [] := by decide +kernel
  have hfound : (ofDefinition "/" station).tryResolve (Path.scope? "/" ["Platform"]) "^Waiting" =
      .ok "Waiting" := by
    decide +kernel
  obtain ⟨marks, name, htarget, hhead, -, hreads⟩ :=
    tryResolve_lexical hproblems rfl (show station.level? ["Platform"] = some _ from rfl) "^Waiting"
  have hchars : "^Waiting".toList = List.replicate marks escapeMark ++ name.toList := by
    rw [htarget, String.toList_append, String.toList_ofList]
  refine ⟨hproblems, hfound, ?_⟩
  -- There is exactly one mark, for the rest has none at its start.
  match marks with
  | 0 =>
    rw [List.replicate_zero, List.nil_append] at hchars
    exact absurd (congrArg List.head? hchars.symm) hhead
  | 1 =>
    have hname : name = "Waiting" := String.toList_inj.1 (List.cons.inj hchars).2.symm
    rw [hname] at hreads
    exact ((hreads (Nat.le_refl 1)).1 "Waiting").1 hfound
  | _ + 2 =>
    have hsecond := (List.cons.inj (List.cons.inj hchars).2).1
    exact absurd hsecond (by decide)

example : (ofDefinition "/" station).tryResolve (some "Platform") "Waiting" =
      .ok "Platform/Waiting" ∧
    (ofDefinition "/" station).tryResolve (some "Platform") "^Waiting" = .ok "Waiting" ∧
    (ofDefinition "/" station).tryResolve none "Boarding" = .error .missing := by
  decide +kernel

end PathIndex

end Statechart
