import Statechart.Proofs.Flat.Sends

/-! # Requests to a machine

From outside a machine gets events, and it is asked to process its follow-ups or to forget them. Its
subscribers may ask the same of it, in between: at any time at which a request tells them of a
change. What they do besides leaves the machine alone. Subscribers of a machine that is asked by a
subscriber may ask again, and so on.

* `Request`: what a machine may be asked.
* `World.Spell`: a spell of requests, one after the other.
* **`Surroundings.Asks`**: subscribers that ask a machine.
* `Request.Shows`: the worlds that come up while a request is performed.
* **`World.Moment`**: the worlds that come up from a world on, in whatever order requests arrive and
  however they interrupt each other.
* `World.Moment.invariant`: what holds at every moment. -/

namespace Statechart

variable {ρ γ : Type}

/-- **What a machine may be asked from outside.** -/
inductive Request where
  /-- To handle the domain event of a name. -/
  | send (name : String) (params : Params)
  /-- To handle any event, be it a signal. -/
  | dispatch (event : Event)
  /-- To process its follow-ups. -/
  | flush
  /-- To forget its follow-ups. -/
  | cancel

/-- Do what `Request` asks of the machine at `link`. -/
def Request.perform (host : Host ρ γ) (link : Link) : Request → Act ρ γ Unit
  | .send name params => discard <| Act.sendNamed host link name params
  | .dispatch event => discard <| Act.dispatch host link event
  | .flush => discard <| Act.flush host link
  | .cancel => discard <| Act.cancelPending link

namespace World

/-- **Requests to the machine at `link`**, one after the other. In between the machine is left alone
(`World.Spares`). -/
inductive Spell (host : Host ρ γ) (link : Link) : World ρ γ → World ρ γ → Prop
  | done {w : World ρ γ} : World.Spell host link w w
  | spares {w w' w'' : World ρ γ} : w.Spares link w' → World.Spell host link w' w'' →
    World.Spell host link w w''
  | asked {w w' w'' : World ρ γ} {request : Request} :
    (request.perform host link).run w = some ((), w') → World.Spell host link w' w'' →
    World.Spell host link w w''

end World

/-- **Subscribers make requests to the machine at `link`**, through the host that they are given:
`observe` is a `World.Spell`. -/
def Surroundings.Asks (link : Link) (around : Surroundings ρ γ) : Prop :=
  ∀ host subscriber change w w', (around.observe host subscriber change).run w = some ((), w') →
    w.Spell host link w'

/-- `Surroundings.quiet` asks nothing. -/
theorem Surroundings.asks_quiet (link : Link) : (quiet : Surroundings ρ γ).Asks link := by
  rintro host subscriber change w _ ⟨⟩
  exact .done

/-- `Surroundings.prompt` asks to send an event. -/
theorem Surroundings.asks_prompt (link : Link) (name : String) :
    (prompt link name : Surroundings ρ γ).Asks link := by
  intro host subscriber change w w' hrun
  have hsent : ((Request.send name []).perform host link).run w = some ((), w') := hrun
  exact .asked hsent .done

/-! ## What comes up during a request -/

namespace Act

variable (host : Host ρ γ) (link : Link)

/-- **`Act.enter` has entered the state of an answer to `event`**, and subscribers are about to be
told of it. -/
def Enters (event : Event) (w w' : World ρ γ) : Prop :=
  ∃ entered, (enter host link event).run w = some (some entered, w')

/-- `Enters` from the run of `Act.enter`. -/
theorem enters_after {host : Host ρ γ} {link : Link} {event : Event} {w : World ρ γ}
    (h : ((enter host link event).run w).map (·.1.isSome) = some true) :
    Enters host link event w ((enter host link event).after w) := by
  obtain ⟨⟨result, w'⟩, hrun, hsome⟩ := Option.map_eq_some_iff.1 h
  obtain ⟨entered, rfl⟩ := Option.isSome_iff_exists.1 hsome
  rw [← eq_after hrun]
  exact ⟨entered, hrun⟩

/-- **The worlds that come up during `Act.flushWithin`**: the next event is about to be taken from
the queue, or its answer has been entered (`Enters`). -/
inductive FlushShows : Nat → World ρ γ → World ρ γ → Prop
  | turn {bound : Nat} {w : World ρ γ} : FlushShows (bound + 1) w w
  | enters {bound : Nat} {event : Event} {w w₁ w' : World ρ γ} :
    (popPending link).run w = some (some event, w₁) → Enters host link event w₁ w' →
    FlushShows (bound + 1) w w'
  /-- The follow-up has no answer, and the next one comes. -/
  | dropped {bound : Nat} {event : Event} {w w₁ w₂ w' : World ρ γ} :
    (popPending link).run w = some (some event, w₁) →
    (step host link event).run w₁ = some (none, w₂) → FlushShows bound w₂ w' →
    FlushShows (bound + 1) w w'
  /-- The follow-up has been answered and has follow-ups itself, and the next one comes. -/
  | applied {bound : Nat} {event : Event} {change : Change} {followUps : List Event}
    {w w₁ w₂ w₃ w' : World ρ γ} : (popPending link).run w = some (some event, w₁) →
    (step host link event).run w₁ = some (some (change, followUps), w₂) →
    (pushPending link followUps).run w₂ = some ((), w₃) → FlushShows bound w₃ w' →
    FlushShows (bound + 1) w w'

/-- **The worlds that come up during `Act.dispatchLocal`.** -/
inductive EventShows : Event → World ρ γ → World ρ γ → Prop
  | enters {event : Event} {w w' : World ρ γ} : Enters host link event w w' → EventShows event w w'
  /-- The event has been answered, and its follow-ups do not wait. -/
  | settles {event : Event} {change : Change} {followUps : List Event}
    {m : Machine (StatePlan ρ)} {w w₁ w₂ w' : World ρ γ} :
    (step host link event).run w = some (some (change, followUps), w₁) → followUps ≠ [] →
    (pushPending link followUps).run w₁ = some ((), w₂) → w₂.machine? link = some m →
    m.config.followUps = .drain → FlushShows host link m.config.maxFollowUps w₂ w' →
    EventShows event w w'

end Act

/-- **The worlds that come up during `Request.perform`** of a machine that no engine routes. -/
def Request.Shows (host : Host ρ γ) (link : Link) : Request → World ρ γ → World ρ γ → Prop
  | .send name params, w, w' =>
    isReservedName name = false ∧ Act.EventShows host link (.domain name params) w w'
  | .dispatch event, w, w' => Act.EventShows host link event w w'
  | .flush, w, w' =>
    ∃ m, w.machine? link = some m ∧ Act.FlushShows host link m.config.maxFollowUps w w'
  | .cancel, _, _ => False

/-! ## Moments -/

/-- **The worlds that come up** from a world on, while a machine is asked one thing after the other,
and its subscribers ask whatever they like each time they learn of a change. Calls nest less than
`depth` deep. -/
inductive World.Moment (around : Surroundings ρ γ) (link : Link) :
    Nat → World ρ γ → World ρ γ → Prop
  | now {depth : Nat} {w : World ρ γ} : World.Moment around link depth w w
  | later {depth : Nat} {w w' w'' : World ρ γ} : w.Spell (around.host depth) link w' →
    World.Moment around link depth w' w'' → World.Moment around link depth w w''
  | during {depth : Nat} {request : Request} {w w' : World ρ γ} :
    request.Shows (around.host depth) link w w' → World.Moment around link depth w w'
  /-- What comes up while a request is performed is followed by requests that are made inside it. -/
  | inside {depth : Nat} {request : Request} {w w' w'' : World ρ γ} :
    request.Shows (around.host (depth + 1)) link w w' → World.Moment around link depth w' w'' →
    World.Moment around link (depth + 1) w w''

section Invariant

variable {J : World ρ γ → Prop} {host : Host ρ γ} {around : Surroundings ρ γ} {link : Link}
  {w w' : World ρ γ} {depth : Nat}

/-- `World.Spell` keeps `J` if `World.Spares` and every `Request.perform` do. -/
theorem World.Spell.invariant (h : w.Spell host link w')
    (hspares : ∀ w w', J w → w.Spares link w' → J w')
    (hrequest : ∀ request : Request, Act.Upholds J (request.perform host link)) (hw : J w) :
    J w' := by
  induction h with
  | done => exact hw
  | spares hsame _ ih => exact ih (hspares _ _ hw hsame)
  | asked hrun _ ih => exact ih ((hrequest _ _ hw).2 _ _ hrun)

/-- **`J` holds at every `World.Moment`** if `World.Spares` keeps it, and every `Request.perform`
and `Request.Shows` do for a host whose `observe` upholds it. -/
theorem World.Moment.invariant (hasks : around.Asks link)
    (hspares : ∀ w w', J w → w.Spares link w' → J w')
    (hrequest : ∀ host : Host ρ γ, (∀ subscriber change, Act.Upholds J
      (host.observe subscriber change)) → ∀ request : Request,
        Act.Upholds J (request.perform host link) ∧
          ∀ w w', J w → request.Shows host link w w' → J w')
    (h : w.Moment around link depth w') (hw : J w) : J w' := by
  -- Subscribers at one depth make requests of the depth below, so they uphold what these do.
  have hobserve : ∀ depth subscriber change,
      Act.Upholds J ((around.host depth).observe subscriber change) := by
    intro depth
    induction depth with
    | zero => exact fun _ _ _ _ => ⟨False.elim, by rintro _ _ ⟨⟩⟩
    | succ depth ih =>
      exact fun subscriber change w hw => ⟨False.elim, fun _ w' hrun =>
        (hasks _ subscriber change w w' hrun).invariant hspares
          (fun request => (hrequest _ ih request).1) hw⟩
  induction h with
  | now => exact hw
  | later hspell _ ih =>
    exact ih (hspell.invariant hspares (fun request => (hrequest _ (hobserve _) request).1) hw)
  | during hshows => exact (hrequest _ (hobserve _) _).2 _ _ hw hshows
  | inside hshows _ ih => exact ih ((hrequest _ (hobserve _) _).2 _ _ hw hshows)

end Invariant

end Statechart
