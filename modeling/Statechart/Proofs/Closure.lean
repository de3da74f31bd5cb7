import Statechart.Proofs.Definition.Walk
import Statechart.Proofs.World.Hierarchy

/-! # Exits that are left open

After an event has been sent to a hierarchy, a machine that moved or came with the event may stand
in a terminal state while the machine around it has an answer to its exit. Such an exit is left
open.

* **`World.ExitsClosed`**: an event has left no exit open.
* `World.Reached`: the worlds that domain events lead to, whoever listens without sending.
* **`World.TreeAt.exitsClosed_iff`**: the exits that one event leaves open, by the definition.
* **`Definition.exits_close_iff_leavesNoneOpen`**: when no event ever leaves an exit open. -/

namespace Statechart

variable {ρ γ : Type} {host : Host ρ γ} {config : HierarchyConfig} {delimiter : String}
  {w w' before : World ρ γ} {d : Definition} {links links' : List Link} {keys keys' : List String}
  {link root : Link} {depth parent : Nat} {m : Machine (StatePlan ρ)} {params params' : Params}
  {position next : Position}

/-! ## Open exits -/

/-- The links of the hierarchy of `e`: its root, and then those of `w.chain e`. -/
def World.activeLinks (w : World ρ γ) (e : Engine) : List Link :=
  e.root :: (w.chain e).map (·.link)

/-- The machine at `link` is in another state than in `w`, or was not in `w`. -/
def World.Moved (w w' : World ρ γ) (link : Link) : Prop :=
  (w'.machine? link).map (·.current) ≠ (w.machine? link).map (·.current)

/-- `Act.resolve` finds an answer of the machine at `link` to `event`. -/
def World.Resolves (host : Host ρ γ) (w : World ρ γ) (link : Link) (event : Event) : Prop :=
  ∃ found w', (Act.resolve host link event).run w = some (some found, w')

/-- **No exit is left open between `w` and `w'`**: no machine that has moved (`World.Moved`) is
finished while the one around it has an answer to its exit (`World.Resolves`). -/
def World.ExitsClosed (host : Host ρ γ) (w w' : World ρ γ) : Prop :=
  ∀ number e i parent child m, w'.engineInUse? = some (number, e) →
    (w'.activeLinks e)[i]? = some parent → (w'.activeLinks e)[i + 1]? = some child →
    w'.machine? child = some m → w.Moved w' child → Act.isFinished e.config m.snapshot = true →
    ¬ w'.Resolves host parent (.childExit (.machine m.id))

/-! ## What one event leaves open -/

/-- `World.Resolves` of the machine at `depth` exactly if `d.move?` has an answer. -/
theorem World.Stands.resolves_iff (hd : d.Sound delimiter)
    (hs : w.Stands host config (.composite d) links keys) (hlink : links[depth]? = some link)
    {event : Event} (hnamed : event.isMisnamed = false) :
    w.Resolves host link event ↔ (d.move? keys depth event.key event.params).isSome = true := by
  obtain ⟨level, key, m, hkey, hlevel, hm, hstands⟩ := hs.exists_machine hlink
  have hlevel := Definition.level?_eq_some_iff.2 hlevel
  rw [Definition.move?_of_level? hlevel hkey, Option.isSome_map]
  constructor
  · -- If the level had no answer, the machine would come to nothing, and it has not.
    rintro ⟨found, w', hrun⟩
    cases hgoal : level.goal? key event.key event.params with
    | some target => rfl
    | none =>
      rw [Act.resolve_of_goal?_eq_none hm hstands (hd.level? hlevel) hgoal] at hrun
      cases hrun
  · -- The state that is led to is declared and sound inside, so that it can be made.
    intro hsome
    obtain ⟨target, hgoal⟩ := Option.isSome_iff_exists.1 hsome
    obtain ⟨state, hstate⟩ := Option.isSome_iff_exists.1 (Definition.declares_of_goal? hgoal)
    have hinside := hd.inside hlevel hstate
    obtain ⟨_, w', hrun, inner, rfl, -⟩ :=
      Act.ends_resolve_of_goal? hm hstands (hd.level? hlevel) hnamed hgoal hstate hinside
    exact ⟨_, w', hrun⟩

/-- `w.activeLinks e` is `links`, up to `e.config.maxDepth`. -/
theorem World.Stands.activeLinks_eq (h : w.Stands host config (.composite d) links keys)
    {e : Engine} (hroot : links[0]? = some e.root) :
    w.activeLinks e = links.take (e.config.maxDepth + 1) := by
  cases links with
  | nil => cases hroot
  | cons first rest =>
    obtain rfl : first = e.root := Option.some.inj hroot
    rw [activeLinks, h.chain_eq hroot rfl, List.map_map, List.tail_cons, List.take_succ_cons]
    exact congrArg _ (List.map_id _)

/-- `w.activeLinks e` is `links`, up to `config.maxDepth`. -/
theorem World.TreeAt.activeLinks_eq (h : w.TreeAt host config d root links keys params)
    {number : Nat} {e : Engine} (he : w.engineInUse? = some (number, e)) :
    w.activeLinks e = links.take (config.maxDepth + 1) := by
  obtain ⟨number', e', he', rfl, rfl, -⟩ := h.exists_engine
  rw [he] at he'
  cases he'
  exact h.stands.activeLinks_eq h.root

/-- **`World.Moved` holds from depth `position.top` on.** -/
theorem World.Turned.moved_iff (ht : World.Turned host config d w w' links links' position)
    (hlink : links'[depth]? = some link) : w.Moved w' link ↔ position.top ≤ depth := by
  rw [World.Moved]
  rcases Nat.lt_trichotomy depth position.top with hlt | rfl | hgt
  · obtain ⟨m, m', hm, hm', hcurrent⟩ := ht.above depth link hlt hlink
    rw [hm, hm', Option.map_some, Option.map_some, hcurrent]
    simp [hlt]
  · obtain ⟨m, m', hm, hm', hsince⟩ := ht.turned link hlink
    rw [hm, hm', Option.map_some, Option.map_some]
    refine iff_of_true (fun heq => ?_) (Nat.le_refl _)
    rw [Option.some.inj heq] at hsince
    exact Nat.lt_irrefl _ hsince
  · obtain ⟨level, key, m, -, -, hm, -⟩ := ht.stands.exists_machine hlink
    rw [hm, ht.below depth link hgt hlink]
    exact iff_of_true (by simp) (Nat.le_of_lt hgt)

/-- `d.exit?` is `none` exactly if the machine around a finished one does not resolve its exit. -/
theorem World.Stands.exit?_eq_none_iff (hd : d.Sound delimiter)
    (hs : w.Stands host config (.composite d) links keys) {around : Link}
    (haround : links[parent]? = some around) (hlink : links[parent + 1]? = some link)
    (hm : w.machine? link = some m) :
    d.exit? config.terminal keys parent = none ↔
      (Act.isFinished config m.snapshot = true →
        ¬ w.Resolves host around (.childExit (.machine m.id))) := by
  have hfinished := Act.isFinished_levelAt hd hs hlink
  rw [World.levelAt_of_machine? hm] at hfinished
  rw [hfinished, hs.resolves_iff hd haround rfl, Definition.exit?, Option.not_isSome_iff_eq_none]
  by_cases hdone : d.isFinished config.terminal keys (parent + 1) = true
  · rw [if_pos hdone]
    exact ⟨fun hnone _ => hnone, fun hnone => hnone hdone⟩
  · rw [if_neg hdone]
    exact iff_of_true rfl fun hdone' => absurd hdone' hdone

/-- **`World.ExitsClosed` after `World.Turned`**: `d.exit?` is `none` at the levels that have moved,
up to `config.maxDepth`. -/
theorem World.TreeAt.exitsClosed_iff (hd : d.Sound delimiter)
    (h : w'.TreeAt host config d root links' position.keys params)
    (ht : World.Turned host config d w w' links links' position) :
    w.ExitsClosed host w' ↔ ∀ parent, position.top ≤ parent + 1 →
      parent + 1 < position.keys.length → parent + 1 ≤ config.maxDepth →
      d.exit? config.terminal position.keys parent = none := by
  -- The engine looks at as many levels as its settings allow, and these are the same machines.
  have hshown : ∀ {i : Nat}, i < config.maxDepth + 1 →
      (links'.take (config.maxDepth + 1))[i]? = links'[i]? := List.getElem?_take_of_lt
  obtain ⟨number, e, he, -, rfl, -⟩ := h.exists_engine
  have hlinks := h.activeLinks_eq he
  constructor
  · intro hclosed parent htop hparent hdepth
    rw [← h.stands.length] at hparent
    have hchild : links'[parent + 1]? = some links'[parent + 1] := List.getElem?_eq_getElem hparent
    have haround : links'[parent]? = some links'[parent] := List.getElem?_eq_getElem (by omega)
    obtain ⟨level, key, m, -, -, hm, -⟩ := h.stands.exists_machine hchild
    exact (h.stands.exit?_eq_none_iff hd haround hchild hm).2 <|
      hclosed number e parent _ _ m he (by rw [hlinks, hshown (by omega), haround])
        (by rw [hlinks, hshown (by omega), hchild]) hm ((ht.moved_iff hchild).2 htop)
  · intro hnone number' e' i parent child m he' hparent hchild hm hmoved
    rw [he] at he'
    cases he'
    rw [hlinks] at hparent hchild
    have hlt := (List.getElem?_eq_some_iff.1 hchild).1
    rw [List.length_take, h.stands.length] at hlt
    rw [hshown (by omega)] at hparent hchild
    have htop := (ht.moved_iff hchild).1 hmoved
    exact (h.stands.exit?_eq_none_iff hd hparent hchild hm).1
      (hnone i htop (by omega) (by omega))

/-! ## The worlds that events lead to -/

/-- **The worlds that domain events lead to** after `Act.startTree`. Meanwhile passive subscribers
(`IsPassive`) may come and go. -/
inductive World.Reached (host : Host ρ γ) (d : Definition) (config : HierarchyConfig)
    (before : World ρ γ) (root : Link) : World ρ γ → Prop
  | start {w : World ρ γ} :
    (Act.startTree host d config).run before = some (.ok root, w) →
    World.Reached host d config before root w
  | send {w w' : World ρ γ} {name : String} {params : Params}
    {outcome? : Option Outcome} : World.Reached host d config before root w →
    (Act.sendToTree host root name params).run w = some (outcome?, w') →
    World.Reached host d config before root w'
  | subscribe {link : Link} {w w' : World ρ γ} {subscriber : Nat} {handle? : Option Nat} :
    World.Reached host d config before root w → host.IsPassive subscriber →
    (Act.subscribe link subscriber).run w = some (handle?, w') →
    World.Reached host d config before root w'
  | unsubscribe {link : Link} {w w' : World ρ γ} {handle : Nat} :
    World.Reached host d config before root w →
    (Act.unsubscribe link handle).run w = some ((), w') →
    World.Reached host d config before root w'

/-- `Act.subscribe` of a passive subscriber gives `World.Keeps`. -/
theorem Act.ends_subscribe {subscriber : Nat} (hpassive : host.IsPassive subscriber) :
    Act.Ends (Act.subscribe link subscriber) w fun _ w' => w.Keeps host (fun _ => True) w' := by
  rw [Act.subscribe]
  refine Act.ends_get ?_
  cases hm : w.machine? link with
  | none => exact Act.ends_pure (.refl host _ w)
  | some m =>
    refine Act.ends_bind Act.ends_setCell ?_
    rintro _ _ rfl
    refine Act.ends_pure (.setCell hm fun _ => ⟨rfl, rfl, rfl, rfl, rfl, Nat.le_refl _, ?_⟩)
    -- The round gains the subscriber alone, and it does not send.
    intro hquiet other hother
    have hround : (m.listeners.subscribe subscriber).2.round =
        m.listeners.round ++ [subscriber] := List.map_append
    rcases List.mem_append.1 (hround ▸ hother) with hother | hother
    · exact hquiet other hother
    · obtain rfl : other = subscriber := List.mem_singleton.1 hother
      exact hpassive

/-- `Act.unsubscribe` gives `World.Keeps`. -/
theorem Act.ends_unsubscribe {handle : Nat} :
    Act.Ends (Act.unsubscribe link handle) w fun _ w' => w.Keeps host (fun _ => True) w' := by
  rw [Act.unsubscribe, Act.updateMachine]
  refine Act.ends_get ?_
  cases hm : w.machine? link with
  | none => exact Act.ends_pure (.refl host _ w)
  | some m =>
    refine Act.ends_setCell.mono ?_
    rintro _ _ rfl
    refine .setCell hm fun _ => ⟨rfl, rfl, rfl, rfl, rfl, Nat.le_refl _, ?_⟩
    intro hquiet other hother
    obtain ⟨entry, hentry, rfl⟩ := List.mem_map.1 hother
    exact hquiet entry.2 (List.mem_map.2 ⟨entry, (List.mem_filter.1 hentry).1, rfl⟩)

/-- **`World.Reached` worlds are `World.TreeAt` a position that `d.react?` leads to.** -/
theorem World.Reached.exists_treeAt (hd : d.Sound delimiter)
    (h : World.Reached host d config before root w) :
    ∃ links position, Position.Leads (d.react? config.terminal config.maxDepth) d.outset position ∧
      w.TreeAt host config d root links position.keys position.leafParams := by
  -- By induction over the steps. Those that are sent walk on or stay, and subscriptions move
  -- nothing.
  induction h with
  | start hrun =>
    obtain ⟨root', links, hroot, htree⟩ := (Act.ends_startTree hd host config before).of_run hrun
    cases hroot
    exact ⟨links, d.outset, .here _, d.leafParams_outset.symm ▸ htree⟩
  | @send w w' name params outcome? _ hrun ih =>
    obtain ⟨links, position, hleads, htree⟩ := ih
    have hsent := (Act.ends_sendToTree hd htree name params).of_run hrun
    split at hsent
    · exact ⟨links, position, hleads, hsent.2⟩
    · rename_i next hnext
      obtain ⟨-, links', -, htree'⟩ := hsent
      have hsend : position.send (d.react? config.terminal config.maxDepth) (name, params) =
          some next := hnext
      exact ⟨links', next, hleads.snoc hsend, htree'⟩
  | subscribe _ hpassive hrun ih =>
    obtain ⟨links, position, hleads, htree⟩ := ih
    exact ⟨links, position, hleads, htree.of_keeps ((Act.ends_subscribe hpassive).of_run hrun)⟩
  | unsubscribe _ hrun ih =>
    obtain ⟨links, position, hleads, htree⟩ := ih
    exact ⟨links, position, hleads, htree.of_keeps (Act.ends_unsubscribe.of_run hrun)⟩

/-- The positions that `d.react?` leads to are those of `World.Reached` worlds. -/
theorem World.Reached.of_leads (hd : d.Sound delimiter)
    (h : World.Reached host d config before root w)
    (htree : w.TreeAt host config d root links position.keys position.leafParams)
    (hleads : Position.Leads (d.react? config.terminal config.maxDepth) position next) :
    ∃ links' w', World.Reached host d config before root w' ∧
      w'.TreeAt host config d root links' next.keys next.leafParams := by
  induction hleads generalizing w links with
  | here => exact ⟨links, w, h, htree⟩
  | @send first second last event hfirst _ ih =>
    obtain ⟨outcome?, w', hrun, hsent⟩ := Act.ends_sendToTree hd htree event.1 event.2
    have hnext : (if isReservedName event.1 then none
        else d.react? config.terminal config.maxDepth first.keys (.domain event.1) event.2) =
          some second := hfirst
    rw [hnext] at hsent
    obtain ⟨-, links', -, htree'⟩ := hsent
    exact ih (h.send hrun) htree'

/-! ## When exits are never left open -/

/-- **No event leaves an exit open in `d`**: wherever `d.react?` leads, `d.exit?` is `none` at the
levels that the last event has moved, up to `reach`. -/
def Definition.LeavesNoneOpen (policy : TerminalPolicy) (reach : Nat) (d : Definition) : Prop :=
  ∀ position event next, Position.Leads (d.react? policy reach) d.outset position →
    position.send (d.react? policy reach) event = some next →
    ∀ parent, next.top ≤ parent + 1 → parent + 1 < next.keys.length → parent + 1 ≤ reach →
      d.exit? policy next.keys parent = none

/-- **Every event that is sent to a hierarchy comes to an end, and none that is answered leaves an
exit open** (`World.ExitsClosed`), in all worlds that are `World.Reached` from the start, exactly if
`d.LeavesNoneOpen config.terminal config.maxDepth`. The left side is about runs, the right side
about `d` alone. -/
theorem Definition.exits_close_iff_leavesNoneOpen
    (h : d.hierarchyProblems config.delimiter = some []) (host : Host ρ γ) (before : World ρ γ) :
    (∀ root w name params, World.Reached host d config before root w →
      ∃ outcome? w', (Act.sendToTree host root name params).run w = some (outcome?, w') ∧
        (outcome?.isSome = true → w.ExitsClosed host w')) ↔
    d.LeavesNoneOpen config.terminal config.maxDepth := by
  have hd := sound_of_hierarchyProblems h
  constructor
  · -- Wherever a walk leads, the hierarchy can be led there, and then the event is sent to it.
    intro hall position event next hleads hnext
    obtain ⟨_, w₀, hstart, root, links₀, rfl, htree₀⟩ := Act.ends_startTree hd host config before
    obtain ⟨links, w, hreached, htree⟩ := (World.Reached.start hstart).of_leads hd
      (d.leafParams_outset.symm ▸ htree₀) hleads
    obtain ⟨outcome?, w', hrun, hclosed⟩ := hall root w event.1 event.2 hreached
    have hsent := (Act.ends_sendToTree hd htree event.1 event.2).of_run hrun
    have hreact : (if isReservedName event.1 then none
        else d.react? config.terminal config.maxDepth position.keys (.domain event.1) event.2) =
          some next := hnext
    rw [hreact] at hsent
    obtain ⟨hsome, links', hturned, htree'⟩ := hsent
    exact (htree'.exitsClosed_iff hd hturned).1 (hclosed hsome)
  · -- Wherever the hierarchy has been led, a walk leads as well.
    intro hnone root w name params hreached
    obtain ⟨links, position, hleads, htree⟩ := hreached.exists_treeAt hd
    obtain ⟨outcome?, w', hrun, hsent⟩ := Act.ends_sendToTree hd htree name params
    refine ⟨outcome?, w', hrun, fun hsome => ?_⟩
    split at hsent
    · rw [hsent.1] at hsome
      cases hsome
    · rename_i next hnext
      obtain ⟨-, links', hturned, htree'⟩ := hsent
      exact (htree'.exitsClosed_iff hd hturned).2 (hnone position (name, params) next hleads hnext)

/-- A definition where the exit of `First` leads to `Second`, whose initial state is final. -/
def Definition.stairs : Definition :=
  let first := (((({} : Definition).state "Foot").finalState "Top").on "Foot" "go" "Top").initial
    "Foot"
  let second := (({} : Definition).finalState "Top").initial "Top"
  ((((({} : Definition).composite "First" first).composite "Second" second).finalState
    "End").onChildExit "First" "Second" |>.onChildExit "Second" "End").initial "First"

/-- `exits_close_iff_leavesNoneOpen` for `stairs`. -/
theorem Definition.stairs_close_iff :
    stairs.hierarchyProblems "." = some [] ∧
      ((∀ root w name params, World.Reached (Surroundings.quiet.host 1) stairs {}
          ({ guest := () } : World Unit Unit) root w →
        ∃ outcome? w', (Act.sendToTree (Surroundings.quiet.host 1) root name params).run w =
            some (outcome?, w') ∧
          (outcome?.isSome = true → w.ExitsClosed (Surroundings.quiet.host 1) w')) ↔
      stairs.LeavesNoneOpen .explicit 64) := by
  have hproblems : stairs.hierarchyProblems ({} : HierarchyConfig).delimiter = some [] := by
    decide +kernel
  exact ⟨hproblems, exits_close_iff_leavesNoneOpen hproblems _ _⟩

/-- **`stairs` leave an exit open.** With `"go"` the first step is left for the second one.
`Act.bubbleExits` does not look whether that one is at its end, so `World.ExitsClosed` fails. -/
theorem Definition.stairs_leave_exit_open :
    stairs.hierarchyProblems "." = some [] ∧ ∃ root w outcome w',
      World.Reached (Surroundings.quiet.host 1) stairs {} ({ guest := () } : World Unit Unit) root
        w ∧
      (Act.sendToTree (Surroundings.quiet.host 1) root "go" []).run w = some (some outcome, w') ∧
      ¬ w.ExitsClosed (Surroundings.quiet.host 1) w' := by
  have hproblems : stairs.hierarchyProblems "." = some [] := by decide +kernel
  have hd := sound_of_hierarchyProblems hproblems
  obtain ⟨_, w, hstart, root, links, rfl, htree⟩ := Act.ends_startTree hd
    (Surroundings.quiet.host 1 : Host Unit Unit) {} { guest := () }
  obtain ⟨outcome?, w', hrun, hsent⟩ := Act.ends_sendToTree hd htree "go" []
  have hreact : (if isReservedName "go" = true then none
      else stairs.react? .explicit 64 stairs.startKeys (.domain "go") []) =
        some ⟨["Second", "Top"], 0, 0, true, []⟩ := by decide +kernel
  rw [hreact] at hsent
  obtain ⟨hsome, links', hturned, htree'⟩ := hsent
  obtain ⟨outcome, rfl⟩ := Option.isSome_iff_exists.1 hsome
  refine ⟨hproblems, root, w, outcome, w', .start hstart, hrun, fun hclosed => ?_⟩
  have hnone := (htree'.exitsClosed_iff hd hturned).1 hclosed 0 (by decide) (by decide) (by decide)
  exact absurd hnone (by decide +kernel)

end Statechart
