import Statechart.Proofs.Flat.Collisions
import Statechart.Proofs.Flat.Sitting
import Statechart.Proofs.Flat.Unwatched

/-! # What else changes if composites come first

Collisions may be settled in favour of the states inside a composite, or of the composite. Two
machines that differ in this alone treat an event that does not collide in the same way. But a leaf
that has lost all its answers may count as terminal from then on, and then produces an exit. As long
as no such leaf is entered, the machines cannot be told apart by events that do not collide.

* `FlatDefinition.AnswersAlike`: two flat forms of the same states answer an event in the same way.
* `FlatDefinition.Loosens`: a leaf is terminal in one of them only, and its exit is of consequence.
* `Machine.answering`: a machine with the answers of another flat form.
* **`Machine.settled_answering`**: follow-ups are the same, or a leaf has come loose.
* **`Machine.reports_answering`**: so are whole runs of sends.
* `Definition.ComesLoose`: which leaves come loose, in the definition.
* **`Definition.collisions_settled_alike`**: two machines that settle collisions in two ways. -/

namespace Statechart

variable {ρ γ : Type} {flat flat' : FlatDefinition} {config : FlattenConfig} {event : Event}
  {m m' : Machine (StatePlan ρ)} {leaf : FlatLeaf} {params : Params}

/-! ## Two flat forms of the same states -/

namespace FlatDefinition

/-- **`flat` and `flat'` have the same states and the same answers to `event`.** -/
structure AnswersAlike (flat flat' : FlatDefinition) (event : EventKey) : Prop where
  leaves : flat'.leaves = flat.leaves
  index : flat'.index = flat.index
  target? : ∀ source, flat'.target? source event = flat.target? source event

/-- `AnswersAlike` gives the same `made?`. -/
theorem AnswersAlike.made?_eq (h : flat.AnswersAlike flat' event.key) (paths : List String) :
    flat'.made? event paths = flat.made? event paths := by
  simp only [made?, h.target?, lead?_congr h.leaves h.index]

/-- **`leaf` comes loose in `flat'`**: it is terminal there but not in `flat`, and its exit waits,
or the composite around it answers the exit. -/
structure Loosens (flat flat' : FlatDefinition) (config : FlattenConfig) (leaf : FlatLeaf) :
    Prop where
  open_ : flat.isTerminal config.terminal leaf = false
  terminal : flat'.isTerminal config.terminal leaf = true
  nested : Path.isQualified config.delimiter leaf.path = true
  exits : config.followUps = .queue ∨ ∃ parent,
    Path.parent? config.delimiter leaf.path = some parent ∧
      (flat.target? parent .childExit).isSome = true

/-- A leaf that is terminal stays so if `flat'` has fewer sources. -/
theorem isTerminal_of_sources (hfew : ∀ path ∈ flat'.sources, path ∈ flat.sources)
    (policy : TerminalPolicy) (h : flat.isTerminal policy leaf = true) :
    flat'.isTerminal policy leaf = true := by
  rw [isTerminal] at h ⊢
  cases policy with
  | explicit => exact h
  | explicitOrDeadEnd =>
    simp only [TerminalPolicy.isTerminal, Bool.or_eq_true, Bool.not_eq_true',
      Bool.eq_false_iff, ne_eq, List.contains_iff_mem] at h ⊢
    exact h.imp_right fun hnone hmem => hnone (hfew _ hmem)

end FlatDefinition

/-! ## A machine with other answers -/

namespace Machine

/-- **`m` with the table of `flat`.** -/
def answering (m : Machine (StatePlan ρ)) (flat : FlatDefinition) : Machine (StatePlan ρ) :=
  { m with table := flat.table }

/-- `m.answering flat'` runs `flat'` if the leaves are the same. -/
theorem RunsFlat.answering (h : m.RunsFlat flat config) (hleaves : flat'.leaves = flat.leaves) :
    (m.answering flat').RunsFlat flat' config := by
  refine ⟨?_, rfl, h.settings⟩
  rw [Machine.answering, h.factory, FlatDefinition.factory, FlatDefinition.factory,
    FlatDefinition.items, FlatDefinition.items, hleaves]

/-- `turn?` of `m.answering flat'` is that of `m` if the answers to the event are alike. -/
theorem turn?_over (h : flat.AnswersAlike flat' event.key) :
    (m.answering flat').turn? flat' event =
      (m.turn? flat event).map fun p => (p.1, p.2.answering flat') := by
  have hfinds : (m.answering flat').finds? flat' event = m.finds? flat event := by
    have hpaths : (m.answering flat').lookupKeys? event = m.lookupKeys? event := rfl
    rw [finds?, hpaths, funext h.made?_eq, finds?]
  rw [turn?, hfinds, turn?, Option.map_map]
  rfl

/-- `followUps` of `m.answering flat'` are those of `m`, or the leaf is terminal in `flat'` only. -/
theorem followUps_answering (hfew : ∀ path ∈ flat'.sources, path ∈ flat.sources)
    (hleaves : flat'.leaves = flat.leaves) (h : m.RunsFlat flat config)
    (hstate : m.current.state = leaf.state params) :
    ((m.answering flat').followUps m.current.state = m.followUps m.current.state ∧
      (m.followUps m.current.state = [] ∨
        m.followUps m.current.state = [.childExit (.path leaf.path)])) ∨
      (m.followUps m.current.state = [] ∧
        (m.answering flat').followUps m.current.state = [.childExit (.path leaf.path)] ∧
        flat.isTerminal config.terminal leaf = false ∧
        flat'.isTerminal config.terminal leaf = true ∧
        Path.isQualified config.delimiter leaf.path = true) := by
  rw [hstate, h.followUps_state, (h.answering hleaves).followUps_state]
  cases hnested : Path.isQualified config.delimiter leaf.path with
  | false => exact Or.inl ⟨rfl, Or.inl rfl⟩
  | true =>
    cases hterminal : flat.isTerminal config.terminal leaf with
    | true =>
      rw [FlatDefinition.isTerminal_of_sources hfew _ hterminal]
      exact Or.inl ⟨rfl, Or.inr rfl⟩
    | false =>
      cases hterminal' : flat'.isTerminal config.terminal leaf with
      | false => exact Or.inl ⟨rfl, Or.inl rfl⟩
      | true => exact Or.inr ⟨rfl, rfl, rfl, rfl, rfl⟩

/-! ## Follow-ups of a leaf -/

/-- `m.drained` is `m` if nothing waits. -/
theorem drained_of_nil (h : m.pending = []) (bound : Nat) : m.drained flat bound = m := by
  cases bound with
  | zero => rw [drained, ← h]
  | succ bound =>
    rw [drained, h]

/-- Nothing waits in `m.drained`. -/
theorem pending_drained (bound : Nat) : (m.drained flat bound).pending = [] := by
  induction bound generalizing m with
  | zero => rfl
  | succ bound ih =>
    rw [drained]
    split
    · assumption
    · split
      · exact ih
      · exact ih

/-- `m.queued` is `m` if there are no follow-ups. -/
theorem queued_of_nil (h : m.followUps m.current.state = []) : m.queued = m := by
  rw [queued, h, List.append_nil]

/-- `m.queued.drained` of a single follow-up goes on with `m.turn?` of it. -/
theorem drained_queued_of_single (hpending : m.pending = [])
    (h : m.followUps m.current.state = [event]) (bound : Nat) :
    m.queued.drained flat (bound + 1) = match m.turn? flat event with
      | none => m
      | some (_, m') => m'.queued.drained flat bound := by
  have hrest : { m.queued with pending := [] } = m := by rw [queued, ← hpending]
  have hqueued : m.queued.pending = [event] := by rw [queued, h, hpending, List.nil_append]
  rw [drained, hqueued]
  simp only [hrest]
  cases m.turn? flat event with
  | none => exact drained_of_nil hpending bound
  | some p => rfl

/-- **`m.settled` is `m.queued.drained` if follow-ups are drained.** -/
theorem settled_of_drain (hdrain : m.config.followUps = .drain) (hpending : m.pending = []) :
    m.settled flat = m.queued.drained flat m.config.maxFollowUps := by
  rw [settled]
  by_cases hnone : m.followUps m.current.state = []
  · rw [if_pos hnone, queued_of_nil hnone, drained_of_nil hpending]
  · rw [if_neg hnone, if_pos hdrain]

/-- **`m.settled` is `m.queued` if follow-ups wait.** -/
theorem settled_of_queue (hqueue : m.config.followUps = .queue) : m.settled flat = m.queued := by
  rw [settled]
  by_cases hnone : m.followUps m.current.state = []
  · rw [if_pos hnone, queued_of_nil hnone]
  · rw [if_neg hnone, if_neg (by rw [hqueue]; decide)]

section Over

variable (hexit : flat.AnswersAlike flat' .childExit)
  (hfew : ∀ path ∈ flat'.sources, path ∈ flat.sources)

include hexit hfew

/-- **`queued.drained` of `m.answering flat'` is that of `m`**, or `m` comes to a leaf that
`Loosens`. -/
theorem drained_answering (h : m.RunsFlat flat config) (halone : m.IsAlone)
    (hpending : m.pending = []) (hleaf : leaf ∈ flat.leaves)
    (hstate : m.current.state = leaf.state params) (bound : Nat) :
    (m.answering flat').queued.drained flat' bound = (m.queued.drained flat bound).answering flat' ∨
      ∃ leaf ∈ flat.leaves, (m.queued.drained flat bound).current.state.key = leaf.path ∧
        flat.Loosens flat' config leaf := by
  induction bound generalizing m leaf params with
  | zero => exact Or.inl rfl
  | succ bound ih =>
    have hother : (m.answering flat').pending = [] := hpending
    have hturn : (m.answering flat').turn? flat' (.childExit (.path leaf.path)) =
        (m.turn? flat (.childExit (.path leaf.path))).map fun p => (p.1, p.2.answering flat') :=
      turn?_over hexit
    rcases followUps_answering hfew hexit.leaves h hstate with
      ⟨hsame, hnone | hone⟩ | ⟨hnone, hone, hopen, hterminal, hnested⟩
    · left
      rw [queued_of_nil (hsame.trans hnone), queued_of_nil hnone, drained_of_nil hother,
        drained_of_nil hpending]
    · rw [drained_queued_of_single hother (hsame.trans hone),
        drained_queued_of_single hpending hone, hturn]
      cases hnext : m.turn? flat (.childExit (.path leaf.path)) with
      | none => exact Or.inl rfl
      | some p =>
        obtain ⟨change, m'⟩ := p
        obtain ⟨h', halone'⟩ := keeps_of_turn? hnext h halone
        obtain ⟨leaf', hleaf', hstate'⟩ := exists_leaf_of_turn? hnext
        obtain ⟨-, -, -, hm'⟩ := of_turn? hnext
        exact ih h' halone' (by rw [hm']; exact hpending) hleaf' hstate'
    · -- The machine stays in the leaf, and only the answers of the other flat form let it go on.
      rw [drained_queued_of_single hother hone, hturn, queued_of_nil hnone, drained_of_nil hpending]
      cases hnext : m.turn? flat (.childExit (.path leaf.path)) with
      | none => exact Or.inl rfl
      | some p =>
        obtain ⟨change, m'⟩ := p
        obtain ⟨found, hfound, -, -⟩ := of_turn? hnext
        obtain ⟨-, hparent, -, htarget⟩ := h.of_finds?_exit hfound
        exact Or.inr ⟨leaf, hleaf, by rw [hstate]; rfl, hopen, hterminal, hnested,
          Or.inr ⟨found.1, hparent, htarget⟩⟩

/-- **`settled` of `m.answering flat'` is that of `m`**, or `m` comes to a leaf that `Loosens`. -/
theorem settled_answering (h : m.RunsFlat flat config) (halone : m.IsAlone)
    (hpending : config.followUps = .drain → m.pending = []) (hleaf : leaf ∈ flat.leaves)
    (hstate : m.current.state = leaf.state params) :
    (m.answering flat').settled flat' = (m.settled flat).answering flat' ∨
      ∃ leaf ∈ flat.leaves, (m.settled flat).current.state.key = leaf.path ∧
        flat.Loosens flat' config leaf := by
  have hfollowUps : m.config.followUps = config.followUps := by rw [h.settings]; rfl
  -- Follow-ups are processed at once, or they wait in the queue.
  cases hpolicy : config.followUps with
  | drain =>
    rw [settled_of_drain (hfollowUps.trans hpolicy) (hpending hpolicy),
      settled_of_drain (m := m.answering flat') (hfollowUps.trans hpolicy) (hpending hpolicy)]
    exact drained_answering hexit hfew h halone (hpending hpolicy) hleaf hstate _
  | queue =>
    rw [settled_of_queue (hfollowUps.trans hpolicy),
      settled_of_queue (m := m.answering flat') (hfollowUps.trans hpolicy)]
    rcases followUps_answering hfew hexit.leaves h hstate with
      ⟨hsame, -⟩ | ⟨-, -, hopen, hterminal, hnested⟩
    · left
      have hsame' : (m.answering flat').followUps (m.answering flat').current.state =
          m.followUps m.current.state := hsame
      rw [queued, hsame']
      rfl
    · exact Or.inr ⟨leaf, hleaf, by rw [queued, hstate]; rfl, hopen, hterminal, hnested,
        Or.inl hpolicy⟩

end Over

/-! ## Runs of sends -/

/-- **`m` rests between two sends**: it is alone (`IsAlone`), and nothing waits if follow-ups are
drained. -/
structure Rests (m : Machine (StatePlan ρ)) (flat : FlatDefinition) (config : FlattenConfig) :
    Prop extends m.RunsFlat flat config, m.IsAlone where
  pending : config.followUps = .drain → m.pending = []

/-- `m.handled?` gives a machine that `Rests`. -/
theorem Rests.of_handled? {change : Change} (h : m.Rests flat config)
    (hhandled : m.handled? flat event = some (change, m')) : m'.Rests flat config := by
  obtain ⟨hruns, halone⟩ := keeps_of_handled? hhandled h.toRunsFlat h.toIsAlone
  refine ⟨hruns, halone, fun hdrain => ?_⟩
  obtain ⟨⟨_, m₁⟩, hturn, heq⟩ := Option.map_eq_some_iff.1 hhandled
  cases heq
  obtain ⟨found, -, -, hm₁⟩ := of_turn? hturn
  have hpolicy : m₁.config.followUps = .drain := by
    rw [hm₁, commit, h.settings]
    exact hdrain
  have hpending : m₁.pending = [] := by
    rw [hm₁]
    exact h.pending hdrain
  show (m₁.settled flat).pending = []
  rw [settled_of_drain hpolicy hpending, pending_drained]

/-- `m.after` is a machine that `Rests`. -/
theorem Rests.after (h : m.Rests flat config) (send : String × Params) :
    (m.after flat send).Rests flat config := by
  rw [Machine.after]
  cases hsent : m.sent? flat send with
  | none => exact h
  | some p =>
    rw [sent?] at hsent
    split at hsent
    · cases hsent
    · exact h.of_handled? hsent

section Sends

variable (hexit : flat.AnswersAlike flat' .childExit)
  (hfew : ∀ path ∈ flat'.sources, path ∈ flat.sources)

include hexit hfew

/-- **`handled?` of `m.answering flat'` is that of `m`** if the answers are alike, or `m` comes to a
leaf that `Loosens`. -/
theorem handled?_over (halike : flat.AnswersAlike flat' event.key) (h : m.Rests flat config) :
    (m.answering flat').handled? flat' event =
        (m.handled? flat event).map (fun p => (p.1, p.2.answering flat')) ∨
      ∃ change m', m.handled? flat event = some (change, m') ∧ ∃ leaf ∈ flat.leaves,
        m'.current.state.key = leaf.path ∧ flat.Loosens flat' config leaf := by
  rw [handled?, turn?_over halike, handled?]
  cases hturn : m.turn? flat event with
  | none => exact Or.inl rfl
  | some p =>
    obtain ⟨change, m₁⟩ := p
    obtain ⟨hruns, halone⟩ := keeps_of_turn? hturn h.toRunsFlat h.toIsAlone
    obtain ⟨leaf, hleaf, hstate⟩ := exists_leaf_of_turn? hturn
    obtain ⟨-, -, -, hm₁⟩ := of_turn? hturn
    have hpending : config.followUps = .drain → m₁.pending = [] := by
      rw [hm₁]
      exact h.pending
    rcases settled_answering hexit hfew hruns halone hpending hleaf hstate with hsame | hloose
    · exact Or.inl (by simp only [Option.map_some, hsame])
    · exact Or.inr ⟨change, _, rfl, hloose⟩

/-- **`sent?` of `m.answering flat'` is that of `m`** if the answers are alike, unless `m` comes to
a leaf that `Loosens`. -/
theorem sent?_answering {send : String × Params} (h : m.Rests flat config)
    (halike : flat.AnswersAlike flat' (.domain send.1))
    (hfast : (m.report flat send).outcome?.isSome = true → ∀ leaf ∈ flat.leaves,
      (m.report flat send).key? = some leaf.path → ¬ flat.Loosens flat' config leaf) :
    (m.answering flat').sent? flat' send =
      (m.sent? flat send).map fun p => (p.1, p.2.answering flat') := by
  rw [sent?, sent?]
  split
  · rfl
  · rename_i hname
    have hevent : flat.AnswersAlike flat' (Event.domain send.1 send.2).key := halike
    rcases handled?_over hexit hfew hevent h with
      hsame | ⟨change, m', hhandled, leaf, hleaf, hkey, hloose⟩
    · exact hsame
    · have hsent : m.sent? flat send = some (change, m') := by
        rw [sent?, if_neg hname, hhandled]
      refine absurd hloose (hfast ?_ leaf hleaf ?_)
      · rw [report, hsent]
        rfl
      · rw [report, Machine.after, hsent, ← hkey]
        rfl

/-- **`reports` of `m.answering flat'` are those of `m`** if the answers to all of `sends` are
alike, unless an answer leads to a leaf that `Loosens`; by induction on `sends`. -/
theorem reports_answering (h : m.Rests flat config) (sends : List (String × Params))
    (halike : ∀ send ∈ sends, flat.AnswersAlike flat' (.domain send.1))
    (hfast : ∀ report ∈ m.reports flat sends, report.outcome?.isSome = true →
      ∀ leaf ∈ flat.leaves, report.key? = some leaf.path → ¬ flat.Loosens flat' config leaf) :
    (m.answering flat').reports flat' sends = m.reports flat sends := by
  induction sends generalizing m with
  | nil => rfl
  | cons send rest ih =>
    have hsent := sent?_answering hexit hfew h (halike send List.mem_cons_self)
      (hfast (m.report flat send) List.mem_cons_self)
    have hafter : (m.answering flat').after flat' send = (m.after flat send).answering flat' := by
      rw [Machine.after, hsent, Machine.after]
      cases m.sent? flat send <;> rfl
    have hreport : (m.answering flat').report flat' send = m.report flat send := by
      rw [report, hafter, hsent, report, Option.map_map]
      rfl
    rw [reports, reports, hafter, hreport]
    exact congrArg _ (ih (h.after send) (fun s hs => halike s (List.mem_cons_of_mem _ hs))
      fun r hr => hfast r (List.mem_cons_of_mem _ hr))

end Sends

/-! ## Follow-ups that wait -/

/-- `m` with another queue. -/
def withPending (m : Machine (StatePlan ρ)) (pending : List Event) : Machine (StatePlan ρ) :=
  { m with pending }

/-- `turn?` does not depend on the queue. -/
theorem turn?_withPending (pending : List Event) :
    (m.withPending pending).turn? flat event =
      (m.turn? flat event).map fun p => (p.1, p.2.withPending pending) := by
  have hfinds : (m.withPending pending).finds? flat event = m.finds? flat event := rfl
  rw [turn?, hfinds, turn?, Option.map_map]
  rfl

/-- `m.handled?` is `m.turn?` and `queued` if follow-ups wait. -/
theorem handled?_of_queue (hqueue : m.config.followUps = .queue) (event : Event) :
    m.handled? flat event = (m.turn? flat event).map fun p => (p.1, p.2.queued) := by
  rw [handled?]
  cases hturn : m.turn? flat event with
  | none => rfl
  | some p =>
    obtain ⟨change, m'⟩ := p
    obtain ⟨found, -, -, hm'⟩ := of_turn? hturn
    have hqueue' : m'.config.followUps = .queue := by
      rw [hm']
      exact hqueue
    simp only [Option.map_some, settled_of_queue hqueue']

/-- **If follow-ups wait, `sent?` of `m.answering flat'` differs from that of `m` in the queue
alone.** -/
theorem sent?_over_of_queue (hqueue : m.config.followUps = .queue) (pending : List Event)
    {send : String × Params} (halike : flat.AnswersAlike flat' (.domain send.1)) :
    (m.sent? flat send = none ∧ ((m.answering flat').withPending pending).sent? flat' send = none) ∨
      ∃ change m' pending', m.sent? flat send = some (change, m') ∧
        ((m.answering flat').withPending pending).sent? flat' send =
          some (change, (m'.answering flat').withPending pending') ∧
        m'.config.followUps = .queue := by
  have hevent : flat.AnswersAlike flat' (Event.domain send.1 send.2).key := halike
  have hqueue' : ((m.answering flat').withPending pending).config.followUps = .queue := hqueue
  rw [sent?, sent?]
  split
  · exact Or.inl ⟨rfl, rfl⟩
  · rw [handled?_of_queue hqueue, handled?_of_queue hqueue', turn?_withPending, turn?_over hevent]
    cases hturn : m.turn? flat (.domain send.1 send.2) with
    | none => exact Or.inl ⟨rfl, rfl⟩
    | some p =>
      obtain ⟨change, m'⟩ := p
      obtain ⟨found, -, -, hm'⟩ := of_turn? hturn
      exact Or.inr ⟨change, m'.queued, _, rfl, rfl, by rw [hm']; exact hqueue⟩

/-- **If follow-ups wait, `reports` of `m.answering flat'` have the `Report.course` of those of
`m`.** -/
theorem course_answering (hqueue : m.config.followUps = .queue) (pending : List Event)
    (sends : List (String × Params))
    (halike : ∀ send ∈ sends, flat.AnswersAlike flat' (.domain send.1)) :
    (((m.answering flat').withPending pending).reports flat' sends).map Report.course =
      (m.reports flat sends).map Report.course := by
  induction sends generalizing m pending with
  | nil => rfl
  | cons send rest ih =>
    have hrest : ∀ send ∈ rest, flat.AnswersAlike flat' (.domain send.1) :=
      fun s hs => halike s (List.mem_cons_of_mem _ hs)
    simp only [reports, List.map_cons, report, Report.course, Machine.after]
    rcases sent?_over_of_queue hqueue pending (halike send List.mem_cons_self) with
      ⟨hsent, hsent'⟩ | ⟨change, m', pending', hsent, hsent', hqueue'⟩
    · rw [hsent, hsent']
      exact congrArg _ (ih hqueue pending hrest)
    · rw [hsent, hsent']
      exact congrArg _ (ih hqueue' pending' hrest)

end Machine

/-! ## Two ways to settle collisions -/

/-- **The leaf at `keys` comes loose under `.allowShadow`**: it is not final, and composites around
it override all that it handles, so that it becomes a dead end. Its exit waits, or the composite
directly around it handles the exit. -/
structure Definition.ComesLoose (config : FlattenConfig) (d : Definition) (keys : List String) :
    Prop where
  deadEnds : config.terminal = .explicitOrDeadEnd
  leaf : ∃ leaf, (StateDef.composite d).at? keys = some (.leaf leaf) ∧ leaf.isFinal = false
  handles : ∃ event, d.Handles keys event
  overridden : ∀ event, d.Handles keys event → d.Overrides keys event
  exits : config.followUps = .queue ∨ d.Handles keys.dropLast .childExit

namespace FlatDefinition

variable {d : Definition} {whole : FlatDefinition}

/-- **`Loosens` of a leaf is `d.ComesLoose` at its keys.** -/
theorem Loosens.exists_comesLoose (hd : d.Orderly config.delimiter)
    (hone : config.delimiter.length = 1) (h : assemble config.delimiter d = .ok whole)
    (hsettled : settleCollisions .allowShadow whole = .ok flat) (hleaf : leaf ∈ whole.leaves)
    (hloose : whole.Loosens flat config leaf) :
    ∃ keys, leaf.path = config.delimiter.intercalate keys ∧ d.ComesLoose config keys := by
  have hrenders := renders_of_assemble hd hone h
  obtain ⟨keys, l, hat, rfl⟩ := (hrenders.mem_leaves_iff leaf).1 hleaf
  obtain ⟨hopen, hterminal, hnested, hexits⟩ := hloose
  have hne := Definition.StandsAt.ne_nil ⟨l, hat⟩
  refine ⟨keys, rfl, ?_⟩
  -- Only the answers can make the difference.
  rw [isTerminal] at hopen hterminal
  cases hpolicy : config.terminal with
  | explicit =>
    rw [hpolicy] at hopen hterminal
    exact absurd (hterminal.symm.trans hopen) (by decide)
  | explicitOrDeadEnd =>
    rw [hpolicy] at hopen hterminal
    simp only [TerminalPolicy.isTerminal, Bool.or_eq_true, Bool.or_eq_false_iff, Bool.not_eq_true',
      Bool.not_eq_false'] at hopen hterminal
    obtain ⟨hfinal, hsources⟩ := hopen
    rw [hfinal] at hterminal
    have hbare := hterminal.resolve_left (by decide)
    rw [List.contains_iff_mem, mem_sources_iff] at hsources
    obtain ⟨event, hevent⟩ := hsources
    refine ⟨hpolicy, ⟨l, hat, hfinal⟩, ⟨event, (hrenders.isSome_target?_iff hne hat).1 hevent⟩,
      fun event hhandles => ?_, hexits.imp_right ?_⟩
    · by_contra hkept
      have hsome := (isSome_target?_allowShadow_iff hd hone h hsettled hne hat).2 ⟨hhandles, hkept⟩
      rw [← Bool.not_eq_true, List.contains_iff_mem, mem_sources_iff] at hbare
      exact hbare ⟨event, hsome⟩
    · rintro ⟨parent, hparent, htarget⟩
      obtain ⟨outer, key, rfl⟩ : ∃ outer key, keys = outer ++ [key] :=
        ⟨keys.dropLast, keys.getLast hne, (List.dropLast_append_getLast hne).symm⟩
      have houter : outer ≠ [] := by
        rintro rfl
        rw [Path.isQualified_intercalate (hd.delimits hone hat)] at hnested
        cases hnested
      obtain ⟨inner, hinner⟩ :=
        Definition.exists_composite_of_at?_append (List.cons_ne_nil key []) hat
      rw [Path.parent?_intercalate (hd.delimits hone hat), Path.scope?_of_ne_nil houter] at hparent
      cases hparent
      rw [List.dropLast_concat]
      exact (hrenders.isSome_target?_iff houter hinner).1 htarget

end FlatDefinition

open FlatDefinition in
/-- **`.namespaced` and `.allowShadow` differ on colliding events alone**, unless a leaf comes
loose. If `d.problems config.delimiter = some []` and the delimiter is one character, then `d` has a
flat form under both policies, and the machines of both, started from one world, are in the same
state. Send both of them any `sends` whose names do not collide, `¬ d.Collides send.1`, and compare
the reports of `Act.record`. If `config.followUps = .queue`, the reports have the same
`Report.course`. If no send with an outcome takes the machine of the `.namespaced` form to a leaf
with `d.ComesLoose config keys`, the reports are equal, follow-ups that wait included, and this for
every `config.followUps`. -/
theorem Definition.collisions_settled_alike {d : Definition} (hone : config.delimiter.length = 1)
    (hproblems : d.problems config.delimiter = some []) (host : Host ρ γ) (before : World ρ γ) :
    ∃ inner outer link innerStart outerStart innerMachine outerMachine,
      ofDefinition { config with eventCollision := .namespaced } d = some (.ok inner) ∧
      ofDefinition { config with eventCollision := .allowShadow } d = some (.ok outer) ∧
      (Act.startFlat host inner { config with eventCollision := .namespaced }).run before =
        some (.ok link, innerStart) ∧
      (Act.startFlat host outer { config with eventCollision := .allowShadow }).run before =
        some (.ok link, outerStart) ∧
      innerStart.machine? link = some innerMachine ∧
      outerStart.machine? link = some outerMachine ∧
      outerMachine.current = innerMachine.current ∧
      ∀ sends : List (String × Params), (∀ send ∈ sends, ¬ d.Collides send.1) →
        ∃ innerReports outerReports innerEnd outerEnd,
          (Act.record host link sends).run innerStart = some (innerReports, innerEnd) ∧
          (Act.record host link sends).run outerStart = some (outerReports, outerEnd) ∧
          (config.followUps = .queue →
            outerReports.map Report.course = innerReports.map Report.course) ∧
          ((∀ report ∈ innerReports, report.outcome?.isSome = true → ∀ keys,
              report.key? = some (config.delimiter.intercalate keys) → ¬ d.ComesLoose config keys) →
            outerReports = innerReports) := by
  obtain ⟨whole, hwhole⟩ := exists_assemble hproblems
  have hd := orderly_of_problems hproblems
  obtain ⟨flat, hsettled⟩ : ∃ flat, settleCollisions .allowShadow whole = .ok flat := ⟨_, rfl⟩
  have hflat (policy : EventCollision) : ofDefinition { config with eventCollision := policy } d =
      some (settleCollisions policy whole) := ofDefinition_eq hproblems hwhole
  have hinner := hflat .namespaced
  have houter := (hflat .allowShadow).trans (congrArg some hsettled)
  obtain ⟨hleaves, -, -⟩ := eq_of_settleCollisions hsettled
  have hindex := (names_of_settleCollisions hsettled).1
  have hexit : whole.AnswersAlike flat .childExit :=
    ⟨hleaves, hindex, fun _ => target?_eq_of_isReserved hsettled rfl⟩
  have hfew : ∀ path ∈ flat.sources, path ∈ whole.sources := by
    intro path hpath
    rw [mem_sources_iff] at hpath ⊢
    obtain ⟨event, hevent⟩ := hpath
    obtain ⟨target, htarget⟩ := Option.isSome_iff_exists.1 hevent
    exact ⟨event, by rw [target?_of_settleCollisions hsettled htarget]; rfl⟩
  have hone' (policy : EventCollision) :
      ({ config with eventCollision := policy } : FlattenConfig).delimiter.length = 1 := hone
  obtain ⟨innerStart, hstart, hm⟩ := exists_startFlat (hone' .namespaced) hinner host before
  obtain ⟨outerStart, hstart', hm'⟩ := exists_startFlat (hone' .allowShadow) houter host before
  -- Both machines have been started from the same parts, but for the answers.
  obtain ⟨innerMachine, hinnerMachine⟩ : ∃ m, innerStart.machine? ⟨before.cells.size⟩ = some m :=
    ⟨_, hm⟩
  have hother : outerStart.machine? ⟨before.cells.size⟩ = some (innerMachine.answering flat) := by
    rw [hinnerMachine] at hm
    cases hm
    rw [hm', Machine.start, FlatDefinition.factory, FlatDefinition.items, hleaves]
    rfl
  have hrests : innerMachine.Rests whole config := by
    rw [hinnerMachine] at hm
    cases hm
    exact ⟨⟨rfl, rfl, rfl⟩, ⟨rfl, rfl⟩, fun _ => rfl⟩
  refine ⟨whole, flat, _, innerStart, outerStart, innerMachine, _, hinner, houter, hstart, hstart',
    hinnerMachine, hother, rfl, fun sends hfree => ?_⟩
  have halike : ∀ send ∈ sends, whole.AnswersAlike flat (.domain send.1) := fun send hsend =>
    ⟨hleaves, hindex, target?_eq_of_not_collides hd hone hwhole hsettled (hfree send hsend)⟩
  have halone : (innerMachine.answering flat).IsAlone := ⟨hrests.round, hrests.engine?⟩
  obtain ⟨_, innerEnd, hrecord, rfl⟩ := Act.ends_record_alone hone hinnerMachine hrests.toRunsFlat
    hrests.toIsAlone sends
  obtain ⟨_, outerEnd, hrecord', rfl⟩ := Act.ends_record_alone hone hother
    (hrests.toRunsFlat.answering hleaves) halone sends
  refine ⟨_, _, innerEnd, outerEnd, hrecord, hrecord', fun hqueue => ?_, fun hfast => ?_⟩
  · have hpolicy : innerMachine.config.followUps = .queue := by
      rw [hrests.settings]
      exact hqueue
    exact Machine.course_answering hpolicy innerMachine.pending sends halike
  · refine Machine.reports_answering hexit hfew hrests sends halike ?_
    intro report hreport hanswered leaf hleaf hkey hloose
    obtain ⟨keys, hpath, hcomes⟩ := hloose.exists_comesLoose hd hone hwhole hsettled hleaf
    exact hfast report hreport hanswered keys (hpath ▸ hkey) hcomes

/-! ## A phone -/

/-- A phone. `hangUp` ends a `Call`, but in `Talking` it leads back to `Ringing`. The exit of `Call`
is handled. -/
def Definition.phone : Definition where
  states := [
    ("Call", .composite {
      states := [("Ringing", .leaf {}), ("Talking", .leaf {})]
      transitions := [
        ⟨"Ringing", .domain "answer", .key "Talking"⟩,
        ⟨"Talking", .domain "hangUp", .key "Ringing"⟩]
      initial? := some "Ringing" }),
    ("Idle", .leaf {})]
  transitions := [⟨"Call", .domain "hangUp", .key "Idle"⟩, ⟨"Call", .childExit, .key "Idle"⟩]
  initial? := some "Call"

namespace FlatDefinition

/-- The flat form of `Definition.phone`, with all its answers. -/
def phone : FlatDefinition := (assemble "." .phone).toOption.getD default

/-- The flat form of `Definition.phone` under `.allowShadow`. -/
def phoneShadowed : FlatDefinition := (settleCollisions .allowShadow phone).toOption.getD default

/-- `assemble` of `Definition.phone`. -/
theorem assemble_phone : assemble "." .phone = .ok phone := by
  have hsome : (assemble "." .phone).toOption.isSome = true := by decide +kernel
  cases hresult : assemble "." .phone with
  | error e =>
    rw [hresult] at hsome
    cases hsome
  | ok whole => rw [phone, hresult]; rfl

/-- `problems` of `Definition.phone` is empty. -/
theorem problems_phone : Definition.phone.problems "." = some [] := by decide +kernel

/-- `answer` does not collide in `Definition.phone`. -/
theorem not_collides_answer : ¬ Definition.phone.Collides "answer" := by
  have hd := Definition.orderly_of_problems problems_phone
  have hcollisions : phone.collisions =
      [⟨"Call", .domain "hangUp", "Call.Talking"⟩] := by decide +kernel
  rw [collides_iff hd (by decide) assemble_phone, hcollisions]
  rintro ⟨c, hc, hevent⟩
  rw [List.mem_singleton.1 hc] at hevent
  exact absurd hevent (by decide)

/-- The machine of `Definition.phone`, in its initial state. -/
def phoneMachine (flat : FlatDefinition) (terminal : TerminalPolicy) : Machine (StatePlan Unit) :=
  Machine.start (.minted 0) ⟨Definition.phone.leafState "." Definition.phone.startKeys [],
    flat.factory, flat.table, machineConfig { terminal }⟩

/-- `Act.record` of the phone is `reports` of its machine. -/
theorem exists_record_phone {flat : FlatDefinition} {policy : EventCollision}
    {terminal : TerminalPolicy}
    (h : ofDefinition { eventCollision := policy, terminal } .phone = some (.ok flat))
    (host : Host Unit Unit) (sends : List (String × Params)) :
    ∃ start last, (Act.startFlat host flat { eventCollision := policy, terminal }).run
        { guest := () } = some (.ok ⟨0⟩, start) ∧
      (Act.record host ⟨0⟩ sends).run start =
        some ((phoneMachine flat terminal).reports flat sends, last) := by
  have hone : ({ eventCollision := policy, terminal } : FlattenConfig).delimiter.length = 1 :=
    (by decide : (".").length = 1)
  obtain ⟨start, hstart, hm⟩ := exists_startFlat hone h host { guest := () }
  have hruns : (phoneMachine flat terminal).RunsFlat flat { eventCollision := policy, terminal } :=
    ⟨rfl, rfl, rfl⟩
  obtain ⟨_, last, hrecord, rfl⟩ := Act.ends_record_alone hone hm hruns ⟨rfl, rfl⟩ sends
  exact ⟨start, last, hstart, hrecord⟩

end FlatDefinition

open FlatDefinition

/-- **With `.explicitOrDeadEnd` the policies tell `"answer"` apart**, although `phone` has no
problem and `"answer"` does not collide. The `.namespaced` machine is in `"Call.Talking"`. Under
`.allowShadow` this leaf has lost all that it handles, so that it is a dead end, its exit follows,
and the machine is back in `"Idle"`. -/
theorem Definition.phone_told_apart :
    ∃ inner outer innerStart outerStart innerReports outerReports innerEnd outerEnd,
      phone.problems "." = some [] ∧ ¬ phone.Collides "answer" ∧
      ofDefinition { eventCollision := .namespaced, terminal := .explicitOrDeadEnd } phone =
        some (.ok inner) ∧
      ofDefinition { eventCollision := .allowShadow, terminal := .explicitOrDeadEnd } phone =
        some (.ok outer) ∧
      (Act.startFlat (Surroundings.quiet.host 1) inner
        { eventCollision := .namespaced, terminal := .explicitOrDeadEnd }).run
          ({ guest := () } : World Unit Unit) = some (.ok ⟨0⟩, innerStart) ∧
      (Act.startFlat (Surroundings.quiet.host 1) outer
        { eventCollision := .allowShadow, terminal := .explicitOrDeadEnd }).run
          ({ guest := () } : World Unit Unit) = some (.ok ⟨0⟩, outerStart) ∧
      (Act.record (Surroundings.quiet.host 1) ⟨0⟩ [("answer", [])]).run innerStart =
        some (innerReports, innerEnd) ∧
      (Act.record (Surroundings.quiet.host 1) ⟨0⟩ [("answer", [])]).run outerStart =
        some (outerReports, outerEnd) ∧
      innerReports.map (·.key?) = [some "Call.Talking"] ∧
      outerReports.map (·.key?) = [some "Idle"] := by
  have hinner : ofDefinition { eventCollision := .namespaced, terminal := .explicitOrDeadEnd }
      Definition.phone = some (.ok FlatDefinition.phone) :=
    ofDefinition_eq problems_phone assemble_phone
  have houter : ofDefinition { eventCollision := .allowShadow, terminal := .explicitOrDeadEnd }
      Definition.phone = some (.ok phoneShadowed) :=
    ofDefinition_eq problems_phone assemble_phone
  obtain ⟨innerStart, innerEnd, hstart, hrecord⟩ :=
    exists_record_phone hinner (Surroundings.quiet.host 1) [("answer", [])]
  obtain ⟨outerStart, outerEnd, hstart', hrecord'⟩ :=
    exists_record_phone houter (Surroundings.quiet.host 1) [("answer", [])]
  refine ⟨_, _, innerStart, outerStart, _, _, innerEnd, outerEnd, problems_phone,
    not_collides_answer, hinner, houter, hstart, hstart', hrecord, hrecord', ?_, ?_⟩
  · decide +kernel
  · decide +kernel

/-- `collisions_settled_alike` for `phone` and `"answer"`, with the default policy under which only
final leaves are terminal: one list of `reports` for both machines. -/
theorem Definition.phone_settled_alike :
    ∃ inner outer link innerStart outerStart reports innerEnd outerEnd,
      ofDefinition { eventCollision := .namespaced } phone = some (.ok inner) ∧
      ofDefinition { eventCollision := .allowShadow } phone = some (.ok outer) ∧
      (Act.startFlat (Surroundings.quiet.host 1) inner { eventCollision := .namespaced }).run
          ({ guest := () } : World Unit Unit) = some (.ok link, innerStart) ∧
      (Act.startFlat (Surroundings.quiet.host 1) outer { eventCollision := .allowShadow }).run
          ({ guest := () } : World Unit Unit) = some (.ok link, outerStart) ∧
      (Act.record (Surroundings.quiet.host 1) link [("answer", [])]).run innerStart =
        some (reports, innerEnd) ∧
      (Act.record (Surroundings.quiet.host 1) link [("answer", [])]).run outerStart =
        some (reports, outerEnd) ∧
      reports.map (·.key?) = [some "Call.Talking"] := by
  have hone : ({} : FlattenConfig).delimiter.length = 1 := by decide
  obtain ⟨inner, outer, link, innerStart, outerStart, _, _, hinner, houter, hstart, hstart', -, -,
      -, halike⟩ := collisions_settled_alike hone problems_phone (Surroundings.quiet.host 1)
    ({ guest := () } : World Unit Unit)
  obtain ⟨innerReports, outerReports, innerEnd, outerEnd, hrecord, hrecord', -, hsame⟩ :=
    halike [("answer", [])] (by
      intro send hsend
      rw [List.mem_singleton.1 hsend]
      exact not_collides_answer)
  -- No leaf comes loose, since dead ends are not terminal.
  have hreports : outerReports = innerReports :=
    hsame fun _ _ _ _ _ hloose => absurd hloose.deadEnds (by decide)
  obtain ⟨start, last, hphone, hseen⟩ :=
    exists_record_phone hinner (Surroundings.quiet.host 1) [("answer", [])]
  rw [hstart] at hphone
  cases hphone
  rw [hrecord] at hseen
  cases hseen
  have hflat : inner = FlatDefinition.phone := by
    have hphone : ofDefinition { eventCollision := .namespaced } Definition.phone =
        some (.ok FlatDefinition.phone) := ofDefinition_eq problems_phone assemble_phone
    exact Except.ok.inj (Option.some.inj (hinner.symm.trans hphone))
  refine ⟨inner, outer, _, innerStart, outerStart, _, _, outerEnd, hinner, houter, hstart, hstart',
    hrecord, by rw [hrecord', hreports], ?_⟩
  rw [hflat]
  decide +kernel

end Statechart
