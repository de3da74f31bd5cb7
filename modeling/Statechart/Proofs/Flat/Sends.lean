import Statechart.Proofs.World.Upkeep
import Statechart.World.Hierarchy

/-! # Runs of sends

A machine gets one event after the other, and while its subscribers learn of a change, they may send
it further ones. What they do besides leaves the machine alone. Follow-ups are processed a limited
number at a time. If there are more, the processing is cut: those that still wait are forgotten.

* `World.Spares`: what leaves a machine alone.
* **`World.Stretch`**: a stretch of time in which events arrive at a machine, one after the other.
* **`Surroundings.Sends`**: subscribers that send events to a machine.
* `Act.enter`, `Act.step_eq`: a step first enters a state, and then subscribers learn of it.
* **`Act.SendUncut`**: while an event is handled, no processing of follow-ups is cut. -/

namespace Statechart

variable {ρ γ : Type}

/-! ## Events that arrive -/

namespace World

/-- **The machine at `link` is left alone**: it is `Machine.Unmoved`, with the same `engine?`. -/
def Spares (link : Link) (w w' : World ρ γ) : Prop :=
  ∀ m, w.machine? link = some m →
    ∃ m', w'.machine? link = some m' ∧ m.Unmoved m' ∧ m'.engine? = m.engine?

/-- `World.Spares` is reflexive. -/
theorem Spares.refl (link : Link) (w : World ρ γ) : w.Spares link w :=
  fun m hm => ⟨m, hm, .refl m, rfl⟩

/-- `World.Spares` is transitive. -/
theorem Spares.trans {w w' w'' : World ρ γ} {link : Link} (h : w.Spares link w')
    (h' : w'.Spares link w'') : w.Spares link w'' := by
  intro m hm
  obtain ⟨m', hm', hunmoved, hengine⟩ := h m hm
  obtain ⟨m'', hm'', hunmoved', hengine'⟩ := h' m' hm'
  exact ⟨m'', hm'', hunmoved.trans hunmoved', hengine'.trans hengine⟩

/-- **Events arrive at the machine at `link`**, one after the other. In between it is left alone
(`World.Spares`). `known` holds of every event and the world in which it arrives. -/
inductive Stretch (host : Host ρ γ) (link : Link) (known : Event → World ρ γ → Prop) :
    World ρ γ → World ρ γ → Prop
  | done {w : World ρ γ} : World.Stretch host link known w w
  | spares {w w' w'' : World ρ γ} : w.Spares link w' → World.Stretch host link known w' w'' →
    World.Stretch host link known w w''
  | arrives {w w' w'' : World ρ γ} {event : Event} {outcome? : Option Outcome} : known event w →
    (Act.dispatch host link event).run w = some (outcome?, w') →
    World.Stretch host link known w' w'' → World.Stretch host link known w w''

end World

/-- **Subscribers send events to the machine at `link`**, through the host that they are given:
`observe` is a `World.Stretch`. -/
def Surroundings.Sends (link : Link) (around : Surroundings ρ γ) : Prop :=
  ∀ host subscriber change w w', (around.observe host subscriber change).run w = some ((), w') →
    w.Stretch host link (fun _ _ => True) w'

namespace Act

/-! ## The two halves of a step -/

/-- **Enter the state of an answer**, before anyone is told of it. The result is the change, with
the follow-ups. -/
def enter (host : Host ρ γ) (link : Link) (event : Event) :
    Act ρ γ (Option (Change × List Event)) := do
  match ← resolve host link event with
  | none => return none
  | some found =>
    match (← get).machine? link with
    | none => return none
    | some m =>
      let change := m.changeTo found.event found.source found.target
      setCell link (.machine (m.commit change))
      return some (change, m.followUps found.target)

/-- **`Act.step` is `Act.enter` and then `Act.notify`.** -/
theorem step_eq (host : Host ρ γ) (link : Link) (event : Event) :
    step host link event = (do
      match ← enter host link event with
      | none => return none
      | some (change, followUps) =>
        notify host link change
        return some (change, followUps) : Act ρ γ (Option (Change × List Event))) := by
  rw [step, enter, bind_assoc]
  congr 1
  funext found?
  cases found? with
  | none => rfl
  | some found =>
    -- A transition is the same act, with its last part put behind the others.
    show transition host link found = _
    rw [transition]
    dsimp only
    rw [bind_assoc]
    congr 1
    funext w
    cases w.machine? link with
    | none => rfl
    | some m => simp

/-! ## Runs that are not cut -/

section Uncut

variable (host : Host ρ γ) (link : Link) (told : World ρ γ → World ρ γ → Prop)

/-- A step is not cut if nothing is while subscribers learn of the change, which is what `told` says
of the world before and the world after. -/
def StepUncut (event : Event) (w : World ρ γ) : Prop :=
  ∀ change followUps w₁ w₂, (enter host link event).run w = some (some (change, followUps), w₁) →
    (notify host link change).run w₁ = some ((), w₂) → told w₁ w₂

/-- **`Act.flushWithin` is not cut**: nothing waits when the limit is reached, and no step on the
way is cut. -/
def FlushUncut : Nat → World ρ γ → Prop
  | 0, w => ∀ m, w.machine? link = some m → m.pending = []
  | bound + 1, w => ∀ event w₁, (popPending link).run w = some (some event, w₁) →
    StepUncut host link told event w₁ ∧
    (∀ w₂, (step host link event).run w₁ = some (none, w₂) → FlushUncut bound w₂) ∧
    ∀ change followUps w₂ w₃, (step host link event).run w₁ = some (some (change, followUps), w₂) →
      (pushPending link followUps).run w₂ = some ((), w₃) → FlushUncut bound w₃

/-- **`Act.dispatchLocal` is not cut**: its step is not, and neither is `Act.flushWithin`, if there
are follow-ups and they do not wait. -/
def SendUncut (event : Event) (w : World ρ γ) : Prop :=
  StepUncut host link told event w ∧
  ∀ change followUps w₁ w₂ m, (step host link event).run w = some (some (change, followUps), w₁) →
    followUps ≠ [] → (pushPending link followUps).run w₁ = some ((), w₂) →
    w₂.machine? link = some m → m.config.followUps = .drain →
    FlushUncut host link told m.config.maxFollowUps w₂

end Uncut

end Act

/-- **Subscribers have learned of a change without a cut**: in the meantime the machine has only got
events that are handled without a cut. Calls nest less than `depth` deep. -/
def World.Told (around : Surroundings ρ γ) (link : Link) : Nat → World ρ γ → World ρ γ → Prop
  | 0 => World.Stretch (around.host 0) link fun _ _ => False
  | depth + 1 => World.Stretch (around.host depth) link
    (Act.SendUncut (around.host depth) link (World.Told around link depth))

section Prompt

variable {w w' : World ρ γ} {link : Link} {host : Host ρ γ} {m : Machine (StatePlan ρ)}
  {told : World ρ γ → World ρ γ → Prop} {event : Event}

/-! ## Where nothing is cut -/

/-- `Act.subscribe` leaves every machine alone (`World.Spares`). -/
theorem World.spares_of_run_subscribe {subscriber : Nat} {handle? : Option Nat}
    (hrun : (Act.subscribe link subscriber).run w = some (handle?, w')) : w.Spares link w' := by
  intro m hm
  have hends : Act.Ends (Act.subscribe link subscriber) w fun _ w' =>
      ∃ m', w'.machine? link = some m' ∧ m.Unmoved m' ∧ m'.engine? = m.engine? := by
    rw [Act.subscribe]
    refine Act.ends_get ?_
    simp only [hm]
    refine Act.ends_bind Act.ends_setCell ?_
    rintro _ _ rfl
    exact Act.ends_pure ⟨_, World.machine?_setCell_self hm,
      ⟨rfl, rfl, rfl, rfl, rfl, rfl, rfl, rfl, rfl⟩, rfl⟩
  exact hends.of_run hrun

/-- `Act.step` gives `none` where `Act.enter` does. -/
theorem Act.run_step_of_run_enter (hrun : (enter host link event).run w = some (none, w')) :
    (step host link event).run w = some (none, w') := by
  rw [step_eq, StateT.run_bind, hrun]
  rfl

/-- `SendUncut` of an event without an answer. -/
theorem Act.sendUncut_of_run_enter (hrun : (enter host link event).run w = some (none, w')) :
    SendUncut host link told event w := by
  have hstep := run_step_of_run_enter hrun
  constructor
  · intro change followUps w₁ w₂ henter
    rw [hrun] at henter
    cases henter
  · intro change followUps w₁ w₂ m hfound
    rw [hstep] at hfound
    cases hfound

/-- `FlushUncut` of an empty queue. -/
theorem Act.flushUncut_of_pending (hm : w.machine? link = some m) (hnone : m.pending = [])
    (bound : Nat) : FlushUncut host link told bound w := by
  cases bound with
  | zero =>
    intro m' hm'
    rw [hm] at hm'
    cases hm'
    exact hnone
  | succ bound =>
    intro event w₁ hpop
    have hempty := (ends_popPending_of_nil hm hnone).of_run hpop
    cases hempty.1

/-- **Surroundings whose subscribers send `name` to the machine at `link`** whenever they are told
of a change. -/
def Surroundings.prompt (link : Link) (name : String) : Surroundings ρ γ :=
  { quiet with observe := fun host _ _ => discard (Act.sendNamed host link name []) }

variable {name : String} {change : Change} {depth subscriber : Nat}

/-- `Surroundings.prompt` sends events. -/
theorem Surroundings.sends_prompt (link : Link) (name : String) :
    (prompt link name : Surroundings ρ γ).Sends link := by
  intro host subscriber change w w' hrun
  rw [prompt, Act.run_discard, Option.map_eq_some_iff] at hrun
  obtain ⟨⟨outcome?, w₁⟩, hsent, heq⟩ := hrun
  cases heq
  rw [Act.sendNamed] at hsent
  split at hsent
  · cases hsent
    exact .done
  · exact .arrives trivial hsent .done

/-- `World.Told` of `Surroundings.prompt` with one subscriber, if `name` is handled uncut
(`SendUncut`). -/
theorem World.told_prompt (hm : w.machine? link = some m)
    (hround : m.listeners.round = [subscriber]) (hname : isReservedName name = false)
    (huncut : Act.SendUncut ((Surroundings.prompt link name).host depth) link
      (World.Told (Surroundings.prompt link name) link depth) (.domain name []) w)
    (hrun : (Act.notify ((Surroundings.prompt link name).host (depth + 1)) link change).run w =
      some ((), w')) :
    World.Told (Surroundings.prompt link name) link (depth + 1) w w' := by
  have hobserved : ((Surroundings.prompt link name).observe
      ((Surroundings.prompt link name).host depth) subscriber change).run w = some ((), w') := by
    simpa [Act.notify, StateT.run_bind, hm, hround, Surroundings.host] using hrun
  obtain ⟨⟨outcome?, w₁⟩, hsent, heq⟩ :=
    Option.map_eq_some_iff.1 (Act.run_discard.symm.trans hobserved)
  cases heq
  rw [Act.sendNamed, if_neg (by simp [hname])] at hsent
  rw [World.Told]
  exact .arrives huncut hsent .done

end Prompt

end Statechart
