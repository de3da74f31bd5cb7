import Statechart.Proofs.Chronicle
import Statechart.Proofs.Echo
import Statechart.Proofs.Registration

/-! # Changelogs at every instant

Whoever looks at a machine finds its last change, the number of its changes and its history. One may
look when a call has come to its end, or at any time at which somebody is told of a change, be it
inside a call that was made when somebody else was told of one.

* `Errand`: all that machines can be asked for.
* `World.Stint`, **`Surroundings.RunsErrands`**: one errand after the other, and subscribers that
  run errands as well.
* `Errand.TellsIn`: somebody is told of a change in a world, in the middle of an errand.
* **`World.Instant`**: the worlds that come up, in whatever order errands are run.
* **`World.Instant.gapless`**: at every instant the chronicle of a machine has no gaps, and its
  history leads to where it is exactly if all changes that the history leaves out keep the key. -/

namespace Statechart

variable {ρ γ : Type}

/-! ## Errands -/

/-- **What machines can be asked for.** -/
inductive Errand where
  /-- A call to a hierarchy or to a machine. -/
  | request (call : Call)
  /-- A machine is to handle an event by itself. -/
  | handle (link : Link) (event : Event)
  /-- A machine is to process its follow-ups. -/
  | flush (link : Link)
  /-- A machine is to forget its follow-ups. -/
  | cancel (link : Link)
  /-- A machine is to note that something below it changed. -/
  | note (link : Link) (child : ChildRef) (inner : Event)

/-- **What happens when an `Errand` is run.** -/
def Errand.perform (host : Host ρ γ) (root : Link) : Errand → Act ρ γ Unit
  | .request call => discard <| call.perform host root
  | .handle link event => discard <| Act.dispatchLocal host link event
  | .flush link => discard <| Act.flush host link
  | .cancel link => discard <| Act.cancelPending link
  | .note link child inner => Act.noteBelow host link child inner

/-- **Errands, one after the other**, to any machines, with `KeepsRecordAt link` in between. -/
inductive World.Stint (host : Host ρ γ) (root link : Link) : World ρ γ → World ρ γ → Prop
  | done {w : World ρ γ} : World.Stint host root link w w
  | apart {w w' w'' : World ρ γ} : w.KeepsRecordAt link w' → World.Stint host root link w' w'' →
    World.Stint host root link w w''
  | errand {w w' w'' : World ρ γ} {errand : Errand} :
    (errand.perform host root).run w = some ((), w') → World.Stint host root link w' w'' →
    World.Stint host root link w w''

/-- **Subscribers that run errands** (`World.Stint`), through the host that they are given.
`registered` and `redrawn` keep the record of the machine at `link`, and `enrol` lets the world
rest. -/
structure Surroundings.RunsErrands (root link : Link) (around : Surroundings ρ γ) : Prop where
  observe : ∀ host subscriber change w w',
    (around.observe host subscriber change).run w = some ((), w') → w.Stint host root link w'
  enrol : ∀ subscriber link w w', (around.enrol subscriber link).run w = some ((), w') → w.Rests w'
  registered : ∀ child isJoining w w', (around.registered child isJoining).run w = some ((), w') →
    w.KeepsRecordAt link w'
  redrawn : ∀ graph w w', (around.redrawn graph).run w = some ((), w') → w.KeepsRecordAt link w'

/-! ## Instants -/

open Classical in
/-- **`around.host depth` with no result at all where `observe` is called in a world with `stops`**,
also inside calls of subscribers. -/
noncomputable def Surroundings.breakingOff (around : Surroundings ρ γ)
    (stops : World ρ γ → Prop) : Nat → Host ρ γ
  | 0 => around.host 0
  | depth + 1 =>
    { around.host (depth + 1) with
      observe := fun subscriber change => do
        if stops (← get) then failure
        else (around.host (depth + 1)).observe subscriber change
      deliver := Act.dispatch (around.breakingOff stops depth) }

/-- **While `errand` is run, somebody is told of a change in the world `w₁`**: with
`around.breakingOff (· = w₁)` it does not come to the end that it comes to with `around`. -/
def Errand.TellsIn (errand : Errand) (around : Surroundings ρ γ) (depth : Nat) (root : Link)
    (w w₁ : World ρ γ) : Prop :=
  ∃ w', (errand.perform (around.host depth) root).run w = some ((), w') ∧
    (errand.perform (around.breakingOff (· = w₁) depth) root).run w ≠ some ((), w')

/-- **The worlds that come up from `w` on**: after errands (`later`), in the middle of them when
somebody is told of a change (`told`), and so on from there. -/
inductive World.Instant (around : Surroundings ρ γ) (root link : Link) :
    World ρ γ → World ρ γ → Prop
  | now {w : World ρ γ} : World.Instant around root link w w
  | later {depth : Nat} {w w' w'' : World ρ γ} : w.Stint (around.host depth) root link w' →
    World.Instant around root link w' w'' → World.Instant around root link w w''
  | told {depth : Nat} {errand : Errand} {w w' w'' : World ρ γ} :
    errand.TellsIn around depth root w w' → World.Instant around root link w' w'' →
    World.Instant around root link w w''

section Told

variable {around : Surroundings ρ γ} {root link : Link} {w w₁ w' : World ρ γ} {event : Event}
  {depth : Nat}

/-- `breakingOff` has the same `enrol`. -/
theorem Surroundings.enrol_breakingOff (around : Surroundings ρ γ) (stops : World ρ γ → Prop) :
    ∀ depth, (around.breakingOff stops depth).enrol = (around.host depth).enrol
  | 0 => rfl
  | _ + 1 => rfl

/-- **Subscribers are told in the world after `Act.enter`**: `TellsIn` holds for the errand to
handle the event. -/
theorem Errand.tellsIn_of_enters {change : Change} {followUps : List Event}
    {m : Machine (StatePlan ρ)}
    (henter : (Act.enter (around.host (depth + 1)) link event).run w =
      some (some (change, followUps), w₁))
    (hm : w₁.machine? link = some m) (hsubscribed : m.listeners.round ≠ [])
    (hrun : ((Errand.handle link event).perform (around.host (depth + 1)) root).run w =
      some ((), w')) :
    (Errand.handle link event).TellsIn around (depth + 1) root w w₁ := by
  refine ⟨w', hrun, fun hbroken => ?_⟩
  rw [← Act.enter_congr (around.enrol_breakingOff (· = w₁) (depth + 1))] at henter
  -- The first of the subscribers would be told in this very world, and that is where it breaks off.
  have hnotify : (Act.notify (around.breakingOff (· = w₁) (depth + 1)) link change).run w₁ =
      none := by
    obtain ⟨first, rest, hround⟩ := List.exists_cons_of_ne_nil hsubscribed
    have hfirst : ((around.breakingOff (· = w₁) (depth + 1)).observe first change).run w₁ =
        none := by
      simp only [Surroundings.breakingOff, StateT.run_bind, StateT.run_get, Option.pure_def,
        Option.bind_eq_bind, Option.bind_some, if_true]
      rfl
    rw [Act.notify, StateT.run_bind, StateT.run_get]
    simp only [Option.pure_def, Option.bind_eq_bind, Option.bind_some, hm, hround]
    show (StateT.run (_ >>= _) w₁) = none
    rw [StateT.run_bind, hfirst]
    rfl
  rw [Errand.perform, Act.run_discard, Act.dispatchLocal, Act.step_eq] at hbroken
  simp [StateT.run_bind, henter, hnotify] at hbroken

end Told

/-! ## What all errands do to a chronicle -/

/-- **Some entries lead from `before` to `w`** (`World.Chronicle`). -/
def World.Continues (link : Link) (before w : World ρ γ) : Prop :=
  ∃ entries, before.Chronicle link w entries

section Continues

variable {around : Surroundings ρ γ} {host host' : Host ρ γ} {root link : Link}
  {before w w' : World ρ γ} {stops : World ρ γ → Prop} {J : World ρ γ → Prop}

namespace World.Continues

/-- `Continues` is kept by `KeepsRecordAt`. -/
theorem keeps (h : before.Continues link w) (hkeeps : w.KeepsRecordAt link w') :
    before.Continues link w' := by
  obtain ⟨entries, hentries⟩ := h
  exact ⟨entries, hentries.rests hkeeps⟩

/-- `Continues` is kept by `setCell` with a machine that has the same record. -/
theorem setCell {other : Link} {m m' : Machine (StatePlan ρ)} (h : before.Continues link w)
    (hm : w.machine? other = some m) (hkeeps : m.KeepsRecord m') :
    before.Continues link (w.setCell other (.machine m')) :=
  h.keeps ((World.Rests.setCell hm hkeeps).machine link)

/-- `Continues` is kept by `commit` of a `changeTo`, for whatever machine. -/
theorem moved {other : Link} {m : Machine (StatePlan ρ)} (h : before.Continues link w)
    (hm : w.machine? other = some m) (event : Event) (state : State) :
    before.Continues link
      (w.setCell other (.machine (m.commit (m.changeTo event m.current state)))) := by
  by_cases heq : other = link
  · subst heq
    obtain ⟨entries, hentries⟩ := h
    exact ⟨_, hentries.moved hm⟩
  · exact h.keeps (.setCell_of_ne (Ne.symm heq))

/-- `Continues` is kept by `commit` of a `changeBelow`, for whatever machine. -/
theorem noted {other : Link} {m : Machine (StatePlan ρ)} (h : before.Continues link w)
    (hm : w.machine? other = some m) (child : ChildRef) (inner : Event) :
    before.Continues link (w.setCell other (.machine (m.commit (m.changeBelow child inner)))) := by
  by_cases heq : other = link
  · subst heq
    obtain ⟨entries, hentries⟩ := h
    exact ⟨_, hentries.noted hm⟩
  · exact h.keeps (.setCell_of_ne (Ne.symm heq))

end World.Continues

/-- `Act.enter` keeps `Continues`. -/
theorem Act.gives_enter_continues (hhost : host.IsCivil) (other : Link) (event : Event)
    (hw : before.Continues link w) :
    Act.Gives False (Act.enter host other event) w fun _ w' => before.Continues link w' := by
  refine Act.gives_bind (Act.gives_resolve_rests hhost other event w) ?_
  rintro (_ | found) w₁ ⟨hrests, hfound⟩
  · exact Act.gives_pure (hw.keeps (hrests.machine link))
  · obtain ⟨-, m₀, hm₀, hsource⟩ := hfound found rfl
    refine Act.gives_get ?_
    split
    · exact Act.gives_pure (hw.keeps (hrests.machine link))
    · rename_i m hm
      refine Act.gives_bind Act.ends_setCell.gives ?_
      rintro _ _ rfl
      -- The machine is still in the state in which it has looked for the answer.
      obtain ⟨m₁, hm₁, hkeeps⟩ := hrests.machine other m₀ hm₀
      rw [hm] at hm₁
      cases hm₁
      rw [hsource, ← hkeeps.current]
      exact Act.gives_pure ((hw.keeps (hrests.machine link)).moved hm found.event found.target)

/-- **`Errand.perform` echoes.** -/
theorem Host.EchoesRouting.perform (h : host.EchoesRouting J host') (errand : Errand) (hw : J w) :
    Act.Echoes (errand.perform host root) (errand.perform host' root) w fun _ w' => J w' := by
  cases errand with
  | request call =>
    refine Act.Echoes.discard ?_
    cases call with
    | send name params => exact h.sendToTree root name params hw
    | dispatch event => exact h.dispatchToTree root event hw
    | sendTo other name params => exact h.sendNamed other name params hw
    | dispatchTo other event => exact h.dispatch other event hw
  | handle other event => exact (h.dispatchLocal trivial event hw).discard
  | flush other => exact (h.flush trivial hw).discard
  | cancel other => exact (h.cancelPending trivial hw).echoes.discard
  | note other child inner => exact h.noteBelow other child inner w trivial hw

/-- `World.Stint` keeps an invariant `J` that `KeepsRecordAt` keeps, if the host echoes in
`EchoesCalls` with `J`. -/
theorem World.Stint.upholds (h : w.Stint host root link w') (hecho : host.EchoesCalls J host')
    (hapart : ∀ w w', J w → w.KeepsRecordAt link w' → J w') (hw : J w) : J w' := by
  induction h with
  | done => exact hw
  | apart hkeeps _ ih => exact ih (hapart _ _ hw hkeeps)
  | errand hrun _ ih => exact ih ((hecho.routing.perform _ hw).gives.2 _ _ hrun)

/-- **`host'` echoes `host` in `EchoesCalls` with the invariant `before.Continues link`**, if it
does in `observe`, `deliver`, `registered` and `redrawn`. -/
theorem Host.echoesCalls_continues (hcivil : host.IsCivil) (henrol : host'.enrol = host.enrol)
    (hobserve : ∀ subscriber change w, before.Continues link w →
      Act.Echoes (host.observe subscriber change) (host'.observe subscriber change) w
        fun _ w' => before.Continues link w')
    (hdeliver : ∀ other event w, before.Continues link w →
      Act.Echoes (host.deliver other event) (host'.deliver other event) w
        fun _ w' => before.Continues link w')
    (hregistered : ∀ other isJoining w, before.Continues link w →
      Act.Echoes (host.registered other isJoining) (host'.registered other isJoining) w
        fun _ w' => before.Continues link w')
    (hredrawn : ∀ graph w, before.Continues link w →
      Act.Echoes (host.redrawn graph) (host'.redrawn graph) w
        fun _ w' => before.Continues link w') :
    host.EchoesCalls (before.Continues link) host' := by
  -- Entering a state is the same act in both, and it continues the chronicle.
  have henter : ∀ other event w, True → before.Continues link w →
      Act.Echoes (Act.enter host other event) (Act.enter host' other event) w
        fun _ w' => before.Continues link w' := by
    intro other event w _ hw
    rw [Act.enter_congr henrol]
    exact (Act.gives_enter_continues hcivil other event hw).echoes
  -- A device is not the machine of the chronicle.
  have hdevice : ∀ (w : World ρ γ) other id device memory memory', before.Continues link w →
      w.cell? other = some (.device id device memory) →
      before.Continues link (w.setCell other (.device id device memory')) := by
    intro w other id device memory memory' hw hc
    refine hw.keeps fun m hm => World.KeepsRecordAt.setCell_of_ne ?_ m hm
    rintro rfl
    rw [World.machine?_eq_some_iff, hc] at hm
    cases hm
  refine ⟨⟨Host.Echoes.steps ⟨hobserve, henter, ?queue, ?note⟩, ?delegate⟩, ⟨?engine, ?graphs,
    ?enlist, ?registered, hredrawn⟩, ?busy⟩
  case queue =>
    exact fun w other m pending _ hw hm hpending =>
      hw.setCell hm (.queue hpending)
  case note => exact fun w other m child inner _ hw hm => hw.noted hm child inner
  case delegate =>
    exact fun level event w hw _ => Host.echoes_delegate hdeliver hdevice level event hw
  case engine => exact fun w number f _ hw => hw.keeps (.of_cells rfl)
  case graphs => exact fun w graphs hw => hw.keeps (.of_cells rfl)
  case enlist => exact fun w other m engine? hw hm => hw.setCell hm (.enlist m engine?)
  case registered => exact fun other isJoining w hw _ _ => hregistered other isJoining w hw
  case busy => exact fun w busy hw => hw.keeps (.of_cells rfl)

/-- **`around.breakingOff stops depth` echoes `around.host depth`**, if no world that `Continues`
has `stops`. By induction on `depth`. -/
theorem Surroundings.RunsErrands.echoes (haround : around.RunsErrands root link)
    (hstops : ∀ w, before.Continues link w → ¬ stops w) (depth : Nat) :
    (around.host depth).EchoesCalls (before.Continues link) (around.breakingOff stops depth) := by
  have hregistered : ∀ other isJoining w, before.Continues link w →
      Act.Echoes (around.registered other isJoining) (around.registered other isJoining) w
        fun _ w' => before.Continues link w' := fun other isJoining w hw =>
    Act.Gives.echoes ⟨False.elim, fun _ w' hrun =>
      hw.keeps (haround.registered other isJoining w w' hrun)⟩
  have hredrawn : ∀ graph w, before.Continues link w →
      Act.Echoes (around.redrawn graph) (around.redrawn graph) w
        fun _ w' => before.Continues link w' := fun graph w hw =>
    Act.Gives.echoes ⟨False.elim, fun _ w' hrun => hw.keeps (haround.redrawn graph w w' hrun)⟩
  have henrol : ∀ subscriber other w,
      Act.Gives False (around.enrol subscriber other) w fun _ w' => w.Rests w' :=
    fun subscriber other w => ⟨False.elim, fun _ w' => haround.enrol subscriber other w w'⟩
  induction depth with
  | zero =>
    refine Host.echoesCalls_continues henrol rfl ?_ ?_ hregistered hredrawn
    · exact fun _ _ _ _ => ⟨False.elim, by rintro _ _ ⟨⟩⟩
    · exact fun _ _ _ _ => ⟨False.elim, by rintro _ _ ⟨⟩⟩
  | succ depth ih =>
    refine Host.echoesCalls_continues henrol rfl ?_ ?_ hregistered hredrawn
    · intro subscriber change w hw
      -- Nobody is told of a change in a world where it would be broken off.
      have hsame : ((around.breakingOff stops (depth + 1)).observe subscriber change).run w =
          ((around.host (depth + 1)).observe subscriber change).run w := by
        simp [Surroundings.breakingOff, StateT.run_bind, hstops w hw]
      refine ⟨False.elim, fun _ w' hrun => ⟨by rw [hsame, hrun], ?_⟩⟩
      have hstint := haround.observe (around.host depth) subscriber change w w' hrun
      exact hstint.upholds ih (fun _ _ hw hkeeps => hw.keeps hkeeps) hw
    · exact fun other event w hw => ih.routing.dispatch other event hw

/-- **`World.Instant` keeps `Continues`.** For `told`, the world in which somebody is told is taken
for `stops`: if it did not continue, the errand would echo. -/
theorem World.Instant.continues (haround : around.RunsErrands root link)
    (h : World.Instant around root link w w') (hw : before.Continues link w) :
    before.Continues link w' := by
  induction h with
  | now => exact hw
  | @later depth _ _ _ hstint _ ih =>
    have hecho : (around.host depth).EchoesCalls (before.Continues link)
        (around.breakingOff (fun _ => False) depth) := haround.echoes (fun _ _ => not_false) depth
    exact ih (hstint.upholds hecho (fun _ _ hw hkeeps => hw.keeps hkeeps) hw)
  | @told depth errand w w₁ _ htells _ ih =>
    refine ih ?_
    -- If the chronicle were not continued there, breaking off would make no difference.
    by_contra hnot
    obtain ⟨w₂, hrun, hbroken⟩ := htells
    have hecho : (around.host depth).EchoesCalls (before.Continues link)
        (around.breakingOff (· = w₁) depth) :=
      haround.echoes (by rintro _ hw rfl; exact hnot hw) depth
    exact hbroken ((hecho.routing.perform errand hw).2 _ _ hrun).1

end Continues

/-! ## The record of a new machine -/

/-- **`m` has not changed yet**: `m.revision` is `0` and `m.change?` is `none`. -/
structure Machine.IsNew {σ : Type} (m : Machine σ) : Prop where
  since : m.current.since = 0
  change? : m.change? = none
  revision : m.revision = 0
  history : m.history.recent = []

/-- `Machine.start` is new. -/
theorem Machine.isNew_start {σ : Type} (id : MachineId) (parts : Assembly σ State) :
    (Machine.start id parts).IsNew := ⟨rfl, rfl, rfl, rfl⟩

namespace World.Instant

variable {around : Surroundings ρ γ} {root link : Link} {w w' : World ρ γ}
  {m₀ : Machine (StatePlan ρ)}

/-- **The changelog of a machine has no gaps, at any `World.Instant`** after it was new
(`Machine.IsNew`). Surroundings only run errands through the host they are given
(`Surroundings.RunsErrands`). There are `entries` with `m₀.Gapless entries m`: revisions that count
up by one, changes that begin where the one before has ended, and a history that is made from them.
After each beginning `entries.take n` the history leads to the key of the state (`LeadsTo`), if and
only if no entry whose event `isChildChange`, and is therefore left out of a history that has
something in it, leads to another key. -/
theorem gapless (haround : around.RunsErrands root link) (hm₀ : w.machine? link = some m₀)
    (hnew : m₀.IsNew) (h : World.Instant around root link w w') :
    ∃ m entries, w'.machine? link = some m ∧ m₀.Gapless entries m ∧
      ((∀ n ≤ entries.length, (m₀.historyAfter (entries.take n)).LeadsTo
          (m₀.stateAfter (entries.take n)).state.key) ↔
        ∀ n entry, entries[n]? = some entry → entry.change.event.isChildChange = true →
          (m₀.historyAfter (entries.take n)).changes ≠ [] →
          entry.change.target.state.key = entry.change.source.state.key) := by
  obtain ⟨entries, hentries⟩ := h.continues haround ⟨[], .start⟩
  have hsince : m₀.current.since ≤ m₀.revision := by rw [hnew.since]; exact Nat.zero_le _
  obtain ⟨m, hm, hgapless⟩ := hentries.exists_gapless hm₀ hsince
  have hnone : m₀.history.changes = [] := by
    rw [ChangeLog.changes, hnew.history, List.take_nil, List.reverse_nil]
  exact ⟨m, entries, hm, hgapless,
    hgapless.leadsTo_iff (ChangeLog.leadsTo_of_changes_eq_nil hnone _)⟩

end World.Instant

/-! ## A parcel -/

/-- `Surroundings.prompt`, in which subscribers send `name` to `other`, runs errands. -/
theorem Surroundings.runsErrands_prompt (root link other : Link) (name : String) :
    (prompt other name : Surroundings ρ γ).RunsErrands root link := by
  refine ⟨fun host subscriber change w w' hrun => ?observe, ?enrol, ?registered, ?redrawn⟩
  case observe =>
    have hsent : ((Errand.request (.sendTo other name [])).perform host root).run w =
        some ((), w') := hrun
    exact .errand hsent .done
  case enrol =>
    rintro _ _ w _ ⟨⟩
    exact .refl w
  case registered =>
    rintro _ _ w _ ⟨⟩
    exact .refl link w
  case redrawn =>
    rintro _ w _ ⟨⟩
    exact .refl link w

/-- The parts of a parcel: `"go"` leads from `"Packed"` to `"Sent"` and to `"Received"`, and
`.childChange` from `"Sent"` to `"Lost"`. -/
def Assembly.parcel : Assembly (StatePlan Unit) State where
  initial := { key := "Packed" }
  factory := ["Packed", "Sent", "Received", "Lost"].foldl (fun factory key =>
    factory.register key (.constant (.plain key .null false) false)) .empty
  table := ((Table.empty.insert "Packed" (.domain "go") (.target "Sent")).insert "Sent"
    (.domain "go") (.target "Received")).insert "Sent" .childChange (.target "Lost")
  config := {}

namespace World

/-- A world with `Machine.start` of a parcel. -/
def parcel : World Unit Unit where
  cells := #[.machine (.start (.minted 0) .parcel)]
  minted := 1
  guest := ()

/-- The parcel in `w`. -/
def theParcel (w : World Unit Unit) : Machine (StatePlan Unit) := (w.machine? ⟨0⟩).getD default

/-- `parcel` with one subscriber. -/
def parcelWatched : World Unit Unit := (Act.subscribe ⟨0⟩ 0).after parcel

/-- The errand that the parcel handles `"go"`. -/
def sendOn : Errand := .handle ⟨0⟩ (.domain "go" [])

/-- Surroundings in which `"go"` is sent to the parcel whenever somebody is told of a change. -/
def sender : Surroundings Unit Unit := .prompt ⟨0⟩ "go"

/-- `w` right after the parcel has entered a state on `"go"`. -/
def movedOn (w : World Unit Unit) : World Unit Unit :=
  (Act.enter (sender.host 9) ⟨0⟩ (.domain "go" [])).after w

/-- **Subscribers are told in `w.movedOn`**, in the middle of `sendOn`. -/
theorem tellsIn_movedOn {w : World Unit Unit} (hm : (w.movedOn.machine? ⟨0⟩).isSome = true)
    (hsubscribed : w.movedOn.theParcel.listeners.round ≠ [])
    (henters : ((Act.enter (sender.host 9) ⟨0⟩ (.domain "go" [])).run w).map (·.1.isSome) =
      some true)
    (hends : ((sendOn.perform (sender.host 9) ⟨0⟩).run w).isSome = true) :
    sendOn.TellsIn sender 9 ⟨0⟩ w w.movedOn := by
  obtain ⟨⟨entered?, w₁⟩, henter, hentered⟩ := Option.map_eq_some_iff.1 henters
  obtain ⟨⟨change, followUps⟩, rfl⟩ := Option.isSome_iff_exists.1 hentered
  obtain ⟨_, hrun⟩ := Act.run_eq_after hends
  obtain ⟨m, hm⟩ := Option.isSome_iff_exists.1 hm
  have hround : m.listeners.round ≠ [] := by rwa [theParcel, hm, Option.getD_some] at hsubscribed
  rw [Act.eq_after henter] at henter
  exact Errand.tellsIn_of_enters henter hm hround hrun

/-- `Instant.gapless` for `parcelWatched` in the middle of a call: a subscriber that learns that the
parcel was sent has it received (`sender`), so it is in `"Received"` before the first call ends. -/
theorem parcel_gapless :
    parcelWatched.machine? ⟨0⟩ = some parcelWatched.theParcel ∧
      World.Instant sender ⟨0⟩ ⟨0⟩ parcelWatched parcelWatched.movedOn.movedOn ∧
      parcelWatched.movedOn.movedOn.theParcel.current.state.key = "Received" ∧
      ∃ m entries, parcelWatched.movedOn.movedOn.machine? ⟨0⟩ = some m ∧
        parcelWatched.theParcel.Gapless entries m ∧
        ((∀ n ≤ entries.length,
            (parcelWatched.theParcel.historyAfter (entries.take n)).LeadsTo
              (parcelWatched.theParcel.stateAfter (entries.take n)).state.key) ↔
          ∀ n entry, entries[n]? = some entry → entry.change.event.isChildChange = true →
            (parcelWatched.theParcel.historyAfter (entries.take n)).changes ≠ [] →
            entry.change.target.state.key = entry.change.source.state.key) := by
  have hm : parcelWatched.machine? ⟨0⟩ = some parcelWatched.theParcel := by
    have hsome : (parcelWatched.machine? ⟨0⟩).isSome = true := by decide +kernel
    obtain ⟨m, hm⟩ := Option.isSome_iff_exists.1 hsome
    rw [theParcel, hm, Option.getD_some]
  have hnew : parcelWatched.theParcel.IsNew :=
    ⟨by decide +kernel, by decide +kernel, by decide +kernel, by decide +kernel⟩
  -- The errand is given twice, and each time it is the subscriber that is told.
  have hsent : sendOn.TellsIn sender 9 ⟨0⟩ parcelWatched parcelWatched.movedOn :=
    tellsIn_movedOn (by decide +kernel) (by decide +kernel) (by decide +kernel) (by decide +kernel)
  have hreceived : sendOn.TellsIn sender 9 ⟨0⟩ parcelWatched.movedOn
      parcelWatched.movedOn.movedOn :=
    tellsIn_movedOn (by decide +kernel) (by decide +kernel) (by decide +kernel) (by decide +kernel)
  have hinstant : World.Instant sender ⟨0⟩ ⟨0⟩ parcelWatched parcelWatched.movedOn.movedOn :=
    .told hsent (.told hreceived .now)
  exact ⟨hm, hinstant, by decide +kernel, Instant.gapless
    (Surroundings.runsErrands_prompt ⟨0⟩ ⟨0⟩ ⟨0⟩ "go") hm hnew hinstant⟩

/-- The errand that the parcel handles `.childChange`. -/
def slip : Errand := .handle ⟨0⟩ (.childChange (.path "way") (.domain "slip" []))

/-- `parcel` after `sendOn`. -/
def parcelSent : World Unit Unit :=
  (sendOn.perform (Surroundings.quiet.host 1) ⟨0⟩).after parcel

/-- `parcelSent` after `slip`. -/
def parcelLost : World Unit Unit :=
  (slip.perform (Surroundings.quiet.host 1) ⟨0⟩).after parcelSent

/-- **The history of the parcel leads to `"Sent"` while its state is `"Lost"`**: it went there on an
event for which `isChildChange` holds, and `ChangeLog.record` leaves that out. `parcel` itself is
new. -/
theorem parcel_history_leads_elsewhere :
    parcel.theParcel.IsNew ∧ World.Instant .quiet ⟨0⟩ ⟨0⟩ parcel parcelLost ∧
      parcelLost.theParcel.history.path = ["Packed", "Sent"] ∧
      parcelLost.theParcel.current.state.key = "Lost" ∧
      ¬ parcelLost.theParcel.history.LeadsTo parcelLost.theParcel.current.state.key := by
  -- The parcel is sent, and then it slips away without anything being written down.
  have hsends : ((sendOn.perform (Surroundings.quiet.host 1) ⟨0⟩).run parcel).isSome = true := by
    decide +kernel
  have hslips : ((slip.perform (Surroundings.quiet.host 1) ⟨0⟩).run parcelSent).isSome = true := by
    decide +kernel
  obtain ⟨_, hsent⟩ := Act.run_eq_after hsends
  obtain ⟨_, hlost⟩ := Act.run_eq_after hslips
  have hinstant : World.Instant .quiet ⟨0⟩ ⟨0⟩ parcel parcelLost :=
    .later (.errand hsent (.errand hlost .done)) .now
  have hkey : parcelLost.theParcel.current.state.key = "Lost" := by decide +kernel
  have hlast : parcelLost.theParcel.history.changes.getLast?.map (·.target) = some "Sent" := by
    decide +kernel
  refine ⟨Machine.isNew_start _ _, hinstant, by decide +kernel, hkey, fun hleads => ?_⟩
  obtain ⟨last, hlast, htarget⟩ := Option.map_eq_some_iff.1 hlast
  have hlost := hleads.2 last hlast
  rw [htarget, hkey] at hlost
  exact absurd hlost (by decide)

end World

end Statechart
