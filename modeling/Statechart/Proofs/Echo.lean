import Statechart.Proofs.Flat.Sends
import Statechart.Proofs.World.Rest

/-! # Acts that echo each other

Two surroundings may differ in what they do where something is not as it should be. As long as this
never comes up, whatever happens with the ones happens with the others, and in this way it is seen
that it never comes up: not only when a call has come to its end, but neither at any time when
somebody is told of a change.

* **`Act.Echoes`**: an act is echoed by another one, and what holds then.
* `Host.EchoesSteps`: surroundings whose machines echo each other, step by step, where an invariant
  holds.
* `Host.EchoesSteps.dispatchLocal`: so do machines that handle events by themselves.
* `Host.Echoes`, `Host.Echoes.steps`: surroundings that echo each other in the middle of a step as
  well, when subscribers are told of a change.
* `Host.EchoesOffers`, `Host.EchoesOffers.attempt`, `Host.EchoesOffers.bubble`: chains of children.
* `Host.EchoesRegistering`, `Host.EchoesRegistering.sync`: registrations.
* **`Host.EchoesRouting`**, `Host.EchoesRouting.handle`, `Host.EchoesRouting.dispatch`: hierarchies.
* **`Host.EchoesCalls`**: all of it.

With twice the same surroundings this is how an invariant is upheld. -/

namespace Statechart

variable {ρ γ α β : Type}

/-! ## Echoes -/

namespace Act

variable {act act' : Act ρ γ α} {w w' : World ρ γ} {post post' : α → World ρ γ → Prop}

/-- **`act'` echoes `act` from `w`**: if `act` comes to an end, `act'` comes to the same result and
world, and `post` holds of these. -/
def Echoes (act act' : Act ρ γ α) (w : World ρ γ) (post : α → World ρ γ → Prop) : Prop :=
  Gives False act w fun a w' => act'.run w = some (a, w') ∧ post a w'

/-- `Echoes` without `act'`. -/
theorem Echoes.gives (h : Echoes act act' w post) : Gives False act w post :=
  Gives.mono h fun _ _ hw' => hw'.2

/-- `act` echoes itself. -/
theorem Gives.echoes (h : Gives False act w post) : Echoes act act w post := h.with_run

/-- `Echoes` with one more thing that is known of `act` alone. -/
theorem Echoes.and (h : Echoes act act' w post) (hgives : Gives False act w post') :
    Echoes act act' w fun a w' => post a w' ∧ post' a w' :=
  ⟨False.elim, fun a w' hrun =>
    ⟨(h.2 a w' hrun).1, (h.2 a w' hrun).2, hgives.2 a w' hrun⟩⟩

/-- `Echoes` depends on the runs from `w` alone. -/
theorem Echoes.of_run_eq {act₁ act₁' : Act ρ γ α} (h : Echoes act act' w post)
    (hrun : act₁.run w = act.run w) (hrun' : act₁'.run w = act'.run w) :
    Echoes act₁ act₁' w post := by
  unfold Echoes Gives
  rw [hrun, hrun']
  exact h

/-- `pure a` echoes itself. -/
theorem echoes_pure {a : α} (h : post a w) : Echoes (pure a) (pure a) w post := gives_pure ⟨rfl, h⟩

/-- **`act >>= f` echoes** if `act` does, with `mid`, and `f` does wherever `mid` holds. -/
theorem Echoes.bind {f f' : α → Act ρ γ β} {post : β → World ρ γ → Prop}
    {mid : α → World ρ γ → Prop} (h : Echoes act act' w mid)
    (hf : ∀ a w', mid a w' → Echoes (f a) (f' a) w' post) :
    Echoes (act >>= f) (act' >>= f') w post := by
  refine gives_bind h ?_
  rintro a w₁ ⟨hrun, hmid⟩
  refine Gives.mono (hf a w₁ hmid) ?_
  rintro b w₂ ⟨hrun', hpost⟩
  refine ⟨?_, hpost⟩
  rw [StateT.run_bind, hrun]
  exact hrun'

/-- `get >>= f` echoes if `f w` does. -/
theorem echoes_get {f f' : World ρ γ → Act ρ γ β} {post : β → World ρ γ → Prop}
    (h : Echoes (f w) (f' w) w post) : Echoes (get >>= f) (get >>= f') w post := h

/-- `modify f` echoes itself. -/
theorem echoes_modify {f : World ρ γ → World ρ γ} {post : Unit → World ρ γ → Prop}
    (h : post () (f w)) : Echoes (modify f) (modify f) w post := (gives_modify h).echoes

/-- `setCell` echoes itself. -/
theorem echoes_setCell {link : Link} {cell : Cell ρ} {post : Unit → World ρ γ → Prop}
    (h : post () (w.setCell link cell)) : Echoes (setCell link cell) (setCell link cell) w post :=
  echoes_modify h

/-- `discard act` echoes if `act` does. -/
theorem Echoes.discard {post : Unit → World ρ γ → Prop}
    (h : Echoes act act' w fun _ w' => post () w') :
    Echoes (discard act) (discard act') w post := by
  refine gives_discard (Gives.mono h ?_)
  rintro a w₁ ⟨hrun, hpost⟩
  exact ⟨by rw [run_discard, hrun]; rfl, hpost⟩

/-- `items.forM f` echoes if each `f item` does and keeps `J`. -/
theorem echoes_forM {items : List β} {f f' : β → Act ρ γ Unit} {J : World ρ γ → Prop} (hw : J w)
    (hf : ∀ item ∈ items, ∀ w, J w → Echoes (f item) (f' item) w fun _ w' => J w') :
    Echoes (items.forM f) (items.forM f') w fun _ w' => J w' := by
  induction items generalizing w with
  | nil => exact echoes_pure hw
  | cons item rest ih =>
    refine (hf item List.mem_cons_self w hw).bind fun _ w' hw' => ?_
    exact ih hw' fun item hitem => hf item (List.mem_cons_of_mem _ hitem)

end Act

/-! ## One machine -/

/-- `m.followUps state` are exits (`Event.IsExit`). -/
theorem Machine.isExit_of_mem_followUps {m : Machine (StatePlan ρ)} {state : State} {event : Event}
    (h : event ∈ m.followUps state) : event.IsExit := by
  obtain ⟨path, hexit⟩ := exists_path_of_mem_followUps h
  exact ⟨.path path, hexit⟩

namespace Act

variable {host host' : Host ρ γ}

/-- `enter` depends on `host.enrol` alone. -/
theorem enter_congr (h : host'.enrol = host.enrol) (link : Link) (event : Event) :
    enter host' link event = enter host link event := by
  rw [enter, enter, resolve_congr h]

/-- The follow-ups of `enter` are exits. -/
theorem gives_enter_followUps (link : Link) (event : Event) (w : World ρ γ) :
    Gives False (enter host link event) w fun entered? _ =>
      ∀ entered, entered? = some entered → ∀ followUp ∈ entered.2, followUp.IsExit := by
  refine gives_bind gives_run fun found? w₁ _ => ?_
  cases found? with
  | none => exact gives_pure (by rintro _ ⟨⟩)
  | some found =>
    refine gives_get ?_
    split
    · exact gives_pure (by rintro _ ⟨⟩)
    · refine gives_bind gives_run fun _ _ _ => gives_pure ?_
      rintro _ ⟨⟩ followUp hfollowUp
      exact Machine.isExit_of_mem_followUps hfollowUp

/-- The follow-ups of `step` are exits. -/
theorem gives_step_followUps (link : Link) (event : Event) (w : World ρ γ) :
    Gives False (step host link event) w fun entered? _ =>
      ∀ entered, entered? = some entered → ∀ followUp ∈ entered.2, followUp.IsExit := by
  rw [step_eq]
  refine gives_bind (gives_enter_followUps link event w) ?_
  rintro (_ | entered) w₁ hexits
  · exact gives_pure (by rintro _ ⟨⟩)
  · refine gives_bind gives_run fun _ _ _ => gives_pure ?_
    rintro _ ⟨⟩
    exact hexits entered rfl

end Act

/-- **`host'` echoes `host` step by step** where `J` holds, for links that are `allowed`: `Act.step`
and `Act.noteBelow` echo and keep `J`, and so does a queue that loses events or gets exits. -/
structure Host.EchoesSteps (allowed : Link → Prop) (J : World ρ γ → Prop) (host host' : Host ρ γ) :
    Prop where
  step : ∀ link event w, allowed link → J w →
    Act.Echoes (Act.step host link event) (Act.step host' link event) w fun _ w' => J w'
  noteBelow : ∀ link child inner w, allowed link → J w →
    Act.Echoes (Act.noteBelow host link child inner) (Act.noteBelow host' link child inner) w
      fun _ w' => J w'
  queue : ∀ (w : World ρ γ) link m pending, allowed link → J w → w.machine? link = some m →
    (∀ event ∈ pending, event ∈ m.pending ∨ event.IsExit) →
    J (w.setCell link (.machine { m with pending }))

namespace Host.EchoesSteps

variable {allowed : Link → Prop} {J : World ρ γ → Prop} {host host' : Host ρ γ} {w : World ρ γ}
  {link : Link}

/-- **`Act.step` echoes**, and what follows on it are exits. -/
theorem step_exits (h : host.EchoesSteps allowed J host') (hlink : allowed link) (event : Event)
    (hw : J w) :
    Act.Echoes (Act.step host link event) (Act.step host' link event) w fun entered? w' =>
      J w' ∧ ∀ entered, entered? = some entered → ∀ followUp ∈ entered.2, followUp.IsExit :=
  (h.step link event w hlink hw).and (Act.gives_step_followUps link event w)

/-- `Act.popPending` keeps `J`. -/
theorem popPending (h : host.EchoesSteps allowed J host') (hlink : allowed link) (hw : J w) :
    Act.Gives False (Act.popPending link : Act ρ γ (Option Event)) w fun _ w' => J w' := by
  refine Act.gives_get ?_
  split
  · exact Act.gives_pure hw
  · rename_i m hm
    split
    · exact Act.gives_pure hw
    · rename_i event rest hpending
      refine Act.gives_bind Act.ends_setCell.gives ?_
      rintro _ _ rfl
      refine Act.gives_pure (h.queue w link m rest hlink hw hm fun later hlater => .inl ?_)
      rw [hpending]
      exact List.mem_cons_of_mem _ hlater

/-- `Act.cancelPending` keeps `J`. -/
theorem cancelPending (h : host.EchoesSteps allowed J host') (hlink : allowed link) (hw : J w) :
    Act.Gives False (Act.cancelPending link : Act ρ γ Nat) w fun _ w' => J w' := by
  refine Act.gives_get ?_
  split
  · exact Act.gives_pure hw
  · rename_i m hm
    refine Act.gives_bind Act.ends_setCell.gives ?_
    rintro _ _ rfl
    exact Act.gives_pure (h.queue w link m [] hlink hw hm (by rintro _ ⟨⟩))

/-- `Act.pushPending` keeps `J` for exits. -/
theorem pushPending (h : host.EchoesSteps allowed J host') (hlink : allowed link)
    {events : List Event} (hexits : ∀ event ∈ events, event.IsExit) (hw : J w) :
    Act.Gives False (Act.pushPending link events : Act ρ γ Unit) w fun _ w' => J w' := by
  refine Act.gives_get ?_
  split
  · rename_i m hm
    refine Act.ends_setCell.gives.mono ?_
    rintro _ _ rfl
    refine h.queue w link m _ hlink hw hm fun event hevent => ?_
    exact (List.mem_append.1 hevent).imp_right (hexits event)
  · exact Act.gives_pure hw

/-- **`Act.flushWithin` echoes**, for every `bound`. -/
theorem flushWithin (h : host.EchoesSteps allowed J host') (hlink : allowed link) (bound : Nat)
    (hw : J w) :
    Act.Echoes (Act.flushWithin host link bound) (Act.flushWithin host' link bound) w
      fun _ w' => J w' := by
  induction bound generalizing w with
  | zero => exact (h.cancelPending hlink hw).echoes.discard.bind fun _ _ hw₁ => Act.echoes_pure hw₁
  | succ bound ih =>
    refine (h.popPending hlink hw).echoes.bind fun event? w₁ hw₁ => ?_
    cases event? with
    | none => exact Act.echoes_pure hw₁
    | some event =>
      refine (h.step_exits hlink event hw₁).bind ?_
      rintro (_ | entered) w₂ ⟨hw₂, hexits⟩
      · exact ih hw₂
      · refine (h.pushPending hlink (hexits entered rfl) hw₂).echoes.bind fun _ w₃ hw₃ => ?_
        exact (ih hw₃).bind fun _ _ hw₄ => Act.echoes_pure hw₄

/-- `Act.flush` echoes. -/
theorem flush (h : host.EchoesSteps allowed J host') (hlink : allowed link) (hw : J w) :
    Act.Echoes (Act.flush host link) (Act.flush host' link) w fun _ w' => J w' := by
  refine Act.echoes_get ?_
  cases w.machine? link with
  | none => exact Act.echoes_pure hw
  | some m => exact h.flushWithin hlink _ hw

/-- `Act.settle` echoes if its `followUps` are exits. -/
theorem settle (h : host.EchoesSteps allowed J host') (hlink : allowed link)
    {followUps : List Event} (hexits : ∀ event ∈ followUps, event.IsExit) (hw : J w) :
    Act.Echoes (Act.settle host link followUps) (Act.settle host' link followUps) w
      fun _ w' => J w' := by
  rw [Act.settle, Act.settle]
  split
  · exact Act.echoes_pure hw
  · refine (h.pushPending hlink hexits hw).echoes.bind fun _ w₁ hw₁ => Act.echoes_get ?_
    cases w₁.machine? link with
    | none => exact Act.echoes_pure hw₁
    | some m =>
      dsimp only
      split
      · exact (h.flush hlink hw₁).discard
      · exact Act.echoes_pure hw₁

/-- **`Act.dispatchLocal` echoes.** -/
theorem dispatchLocal (h : host.EchoesSteps allowed J host') (hlink : allowed link) (event : Event)
    (hw : J w) :
    Act.Echoes (Act.dispatchLocal host link event) (Act.dispatchLocal host' link event) w
      fun _ w' => J w' := by
  refine (h.step_exits hlink event hw).bind ?_
  rintro (_ | entered) w₁ ⟨hw₁, hexits⟩
  · exact Act.echoes_get (Act.echoes_pure hw₁)
  · refine Act.echoes_get ?_
    cases w₁.machine? link with
    | none => exact Act.echoes_pure hw₁
    | some m =>
      exact (h.settle hlink (hexits entered rfl) hw₁).bind fun _ _ hw₂ => Act.echoes_pure hw₂

end Host.EchoesSteps

/-- **`host'` echoes `host`** where `J` holds, for links that are `allowed`: `observe` and
`Act.enter` echo and keep `J`, and so do a queue that loses events or gets exits, and a note of a
change below. -/
structure Host.Echoes (allowed : Link → Prop) (J : World ρ γ → Prop) (host host' : Host ρ γ) :
    Prop where
  observe : ∀ subscriber change w, J w →
    Act.Echoes (host.observe subscriber change) (host'.observe subscriber change) w fun _ w' => J w'
  enter : ∀ link event w, allowed link → J w →
    Act.Echoes (Act.enter host link event) (Act.enter host' link event) w fun _ w' => J w'
  queue : ∀ (w : World ρ γ) link m pending, allowed link → J w → w.machine? link = some m →
    (∀ event ∈ pending, event ∈ m.pending ∨ event.IsExit) →
    J (w.setCell link (.machine { m with pending }))
  note : ∀ (w : World ρ γ) link m child inner, allowed link → J w → w.machine? link = some m →
    J (w.setCell link (.machine (m.commit (m.changeBelow child inner))))

namespace Host.Echoes

variable {allowed : Link → Prop} {J : World ρ γ → Prop} {host host' : Host ρ γ} {w : World ρ γ}
  {link : Link}

/-- `Act.notify` echoes. -/
theorem notify (h : host.Echoes allowed J host') (link : Link) (change : Change) (hw : J w) :
    Act.Echoes (Act.notify host link change) (Act.notify host' link change) w fun _ w' => J w' := by
  refine Act.echoes_get ?_
  cases w.machine? link with
  | none => exact Act.echoes_pure hw
  | some m => exact Act.echoes_forM hw fun subscriber _ w hw => h.observe subscriber change w hw

/-- **`Host.Echoes` gives `Host.EchoesSteps`.** -/
theorem steps (h : host.Echoes allowed J host') : host.EchoesSteps allowed J host' := by
  refine ⟨fun link event w hlink hw => ?_, fun link child inner w hlink hw => ?_, h.queue⟩
  · rw [Act.step_eq, Act.step_eq]
    refine (h.enter link event w hlink hw).bind ?_
    rintro (_ | entered) w₁ hw₁
    · exact Act.echoes_pure hw₁
    · exact (h.notify link entered.1 hw₁).bind fun _ _ hw₂ => Act.echoes_pure hw₂
  · refine Act.echoes_get ?_
    cases hm : w.machine? link with
    | none => exact Act.echoes_pure hw
    | some m =>
      have hset : J (w.setCell link (.machine (m.commit (m.changeBelow child inner)))) :=
        h.note w link m child inner hlink hw hm
      exact Act.Echoes.bind (Act.echoes_setCell hset) fun _ _ hw₁ => h.notify link _ hw₁

end Host.Echoes

/-! ## Chains of children -/

/-- **`host'` echoes `host` in offers to children**: `EchoesSteps` for all links, and `Act.delegate`
echoes for children that are no machines. -/
structure Host.EchoesOffers (J : World ρ γ → Prop) (host host' : Host ρ γ) : Prop
    extends Host.EchoesSteps (fun _ => True) J host host' where
  delegate : ∀ (level : Level) event w, J w → w.machine? level.link = none →
    Act.Echoes (Act.delegate host level event) (Act.delegate host' level event) w fun _ w' => J w'

/-- **`Act.send` echoes**, if `deliver` does and a device may get another memory. -/
theorem Host.echoes_send {J : World ρ γ → Prop} {host host' : Host ρ γ} {w : World ρ γ}
    (hdeliver : ∀ link event w, J w →
      Act.Echoes (host.deliver link event) (host'.deliver link event) w fun _ w' => J w')
    (hdevice : ∀ (w : World ρ γ) link id device memory memory', J w →
      w.cell? link = some (.device id device memory) →
      J (w.setCell link (.device id device memory')))
    (link : Link) (event : Event) (hw : J w) :
    Act.Echoes (Act.send host link event) (Act.send host' link event) w fun _ w' => J w' := by
  refine Act.echoes_get ?_
  cases hc : w.cell? link with
  | none => exact Act.echoes_pure hw
  | some cell =>
    cases cell with
    | machine m => exact hdeliver link event w hw
    | device id device memory =>
      have hset := hdevice w link id device memory (device.next memory event) hw hc
      exact Act.Echoes.bind (Act.echoes_setCell hset) fun _ _ hw₁ => Act.echoes_pure hw₁
    | shell id inner isMute hiddenIn =>
      exact (hdeliver inner event w hw).bind fun _ _ hw₁ => Act.echoes_pure hw₁

/-- **`Act.delegate` echoes**, if `deliver` does and a device may get another memory. -/
theorem Host.echoes_delegate {J : World ρ γ → Prop} {host host' : Host ρ γ} {w : World ρ γ}
    (hdeliver : ∀ link event w, J w →
      Act.Echoes (host.deliver link event) (host'.deliver link event) w fun _ w' => J w')
    (hdevice : ∀ (w : World ρ γ) link id device memory memory', J w →
      w.cell? link = some (.device id device memory) →
      J (w.setCell link (.device id device memory')))
    (level : Level) (event : Event) (hw : J w) :
    Act.Echoes (Act.delegate host level event) (Act.delegate host' level event) w
      fun _ w' => J w' := by
  refine (Host.echoes_send hdeliver hdevice level.link event hw).bind fun outcome? w₁ hw₁ => ?_
  cases outcome? with
  | some outcome => exact Act.echoes_pure hw₁
  | none =>
    refine Act.echoes_get ?_
    dsimp only
    split
    · split
      · exact Act.echoes_pure hw₁
      · exact Act.echoes_pure hw₁
    · exact Act.echoes_pure hw₁

namespace Host.EchoesOffers

variable {J : World ρ γ → Prop} {host host' : Host ρ γ} {w : World ρ γ}

/-- `Act.tryLevel` echoes. -/
theorem tryLevel (h : host.EchoesOffers J host') (level : Level) (event : Event) (hw : J w) :
    Act.Echoes (Act.tryLevel host level event) (Act.tryLevel host' level event) w
      fun _ w' => J w' := by
  -- What cannot be tried is no machine, and then nothing has happened yet.
  have htry : Act.Echoes (Act.tryOn host level.link event) (Act.tryOn host' level.link event) w
      fun attempt w' => J w' ∧ (attempt = .unsupported → w'.machine? level.link = none) := by
    refine Act.echoes_get ?_
    cases hm : w.machine? level.link with
    | none => exact Act.echoes_pure ⟨hw, fun _ => hm⟩
    | some m =>
      refine (h.dispatchLocal trivial event hw).bind fun outcome? w₁ hw₁ => ?_
      cases outcome? with
      | none => exact Act.echoes_pure ⟨hw₁, by rintro ⟨⟩⟩
      | some outcome => exact Act.echoes_pure ⟨hw₁, by rintro ⟨⟩⟩
  refine htry.bind ?_
  rintro attempt w₁ ⟨hw₁, hnone⟩
  cases attempt with
  | applied outcome => exact Act.echoes_pure hw₁
  | unhandled => exact Act.echoes_pure hw₁
  | unsupported => exact h.delegate level event w₁ hw₁ (hnone rfl)

/-- `Act.attemptLevels` echoes. -/
theorem attemptLevels (h : host.EchoesOffers J host') (event : Event)
    (rungs : List (Level × Nat)) (hw : J w) :
    Act.Echoes (Act.attemptLevels host event rungs) (Act.attemptLevels host' event rungs) w
      fun _ w' => J w' := by
  induction rungs generalizing w with
  | nil => exact Act.echoes_pure hw
  | cons rung rest ih =>
    refine (h.tryLevel rung.1 event hw).bind fun outcome? w₁ hw₁ => ?_
    cases outcome? with
    | none => exact ih hw₁
    | some outcome => exact Act.echoes_pure hw₁

/-- **`Act.attempt` echoes.** -/
theorem attempt (h : host.EchoesOffers J host') (root : Link) (levels : List Level) (event : Event)
    (hw : J w) :
    Act.Echoes (Act.attempt host root levels event) (Act.attempt host' root levels event) w
      fun _ w' => J w' := by
  refine (h.attemptLevels event _ hw).bind fun applied? w₁ hw₁ => ?_
  cases applied? with
  | some applied => exact Act.echoes_pure hw₁
  | none => exact (h.dispatchLocal trivial event hw₁).bind fun _ _ hw₂ => Act.echoes_pure hw₂

/-- `Act.tryExit` echoes. -/
theorem tryExit (h : host.EchoesOffers J host') (root : Link) (levels : List Level) (exit : Event)
    (depth : Nat) (hw : J w) :
    Act.Echoes (Act.tryExit host root levels exit depth) (Act.tryExit host' root levels exit depth)
      w fun _ w' => J w' := by
  cases depth with
  | zero => exact (h.dispatchLocal trivial exit hw).bind fun _ _ hw₁ => Act.echoes_pure hw₁
  | succ above =>
    rw [Act.tryExit, Act.tryExit]
    cases levels[above]? with
    | none => exact Act.echoes_pure hw
    | some parent => exact (h.tryLevel parent exit hw).bind fun _ _ hw₁ => Act.echoes_pure hw₁

/-- **`Act.bubbleFrom` echoes.** -/
theorem bubbleFrom (h : host.EchoesOffers J host') (number : Nat) (e : Engine) (depth : Nat)
    (hw : J w) :
    Act.Echoes (Act.bubbleFrom host number e depth) (Act.bubbleFrom host' number e depth) w
      fun _ w' => J w' := by
  induction depth generalizing w with
  | zero => exact Act.echoes_pure hw
  | succ parent ih =>
    -- The chain is only read, and an exit that is taken lets the next one rise.
    have hchain : Act.Gives False (Act.chainOf number) w fun _ w' => J w' :=
      Act.gives_get (Act.gives_pure hw)
    refine hchain.echoes.bind fun levels w₁ hw₁ => ?_
    cases levels[parent]? with
    | none => exact Act.echoes_pure hw₁
    | some child =>
      dsimp only
      split
      · refine Act.echoes_get ?_
        cases w₁.id? child.link with
        | none => exact Act.echoes_pure hw₁
        | some id =>
          refine (h.tryExit e.root levels _ parent hw₁).bind fun isTaken w₂ hw₂ => ?_
          cases isTaken with
          | true => exact ih hw₂
          | false => exact Act.echoes_pure hw₂
      · exact Act.echoes_pure hw₁

/-- `Act.bubble` echoes. -/
theorem bubble (h : host.EchoesOffers J host') (number : Nat) (e : Engine) (handled : Nat)
    (before : List (Option MachineId)) (hw : J w) :
    Act.Echoes (Act.bubble host number e handled before) (Act.bubble host' number e handled before)
      w fun _ w' => J w' := by
  have hchain : Act.Gives False (Act.chainOf number) w fun _ w' => J w' :=
    Act.gives_get (Act.gives_pure hw)
  exact hchain.echoes.bind fun levels w₁ hw₁ =>
    Act.echoes_get (h.bubbleFrom number e _ hw₁)

end Host.EchoesOffers

/-! ## Hierarchies -/

/-- **`host'` echoes `host` when children are registered and graphs are drawn**: `registered` and
`redrawn` echo, and `J` does not depend on `graphs`, on where a machine is enlisted, or on an engine
but for its `root` and `config`. -/
structure Host.EchoesRegistering (J : World ρ γ → Prop) (host host' : Host ρ γ) : Prop where
  engine : ∀ (w : World ρ γ) number f, (∀ e : Engine, (f e).root = e.root ∧
    (f e).config = e.config) → J w → J { w with engines := w.engines.modify number f }
  graphs : ∀ (w : World ρ γ) graphs, J w → J { w with graphs }
  enlist : ∀ (w : World ρ γ) link m engine?, J w → w.machine? link = some m →
    J (w.setCell link (.machine { m with engine? }))
  registered : ∀ link isJoining w, J w → w.machine? link = none → (w.id? link).isSome = true →
    Act.Echoes (host.registered link isJoining) (host'.registered link isJoining) w fun _ w' => J w'
  redrawn : ∀ graph w, J w →
    Act.Echoes (host.redrawn graph) (host'.redrawn graph) w fun _ w' => J w'

namespace Host.EchoesRegistering

variable {J : World ρ γ → Prop} {host host' : Host ρ γ} {w : World ρ γ} {link : Link}

/-- `Act.updateEngine number f` keeps `J` if `f` keeps `root` and `config`. -/
theorem updateEngine (h : host.EchoesRegistering J host') (number : Nat) (f : Engine → Engine)
    (hf : ∀ e, (f e).root = e.root ∧ (f e).config = e.config) (hw : J w) :
    Act.Gives False (Act.updateEngine number f : Act ρ γ Unit) w fun _ w' => J w' :=
  Act.gives_modify (h.engine w number f hf hw)

/-- `Act.attach` echoes. -/
theorem attach (h : host.EchoesRegistering J host') (number : Nat)
    (hlink : (w.id? link).isSome = true) (hw : J w) :
    Act.Echoes (Act.attach host number link) (Act.attach host' number link) w fun _ w' => J w' := by
  refine Act.echoes_get ?_
  cases hm : w.machine? link with
  | some m => exact Act.echoes_setCell (h.enlist w link m _ hw hm)
  | none => exact h.registered link true w hw hm hlink

/-- `Act.detach` echoes. -/
theorem detach (h : host.EchoesRegistering J host') (hlink : (w.id? link).isSome = true)
    (hw : J w) :
    Act.Echoes (Act.detach host link) (Act.detach host' link) w fun _ w' => J w' := by
  refine Act.echoes_get ?_
  cases hm : w.machine? link with
  | some m => exact Act.echoes_setCell (h.enlist w link m _ hw hm)
  | none => exact h.registered link false w hw hm hlink

/-- `Act.call` echoes. -/
theorem call (h : host.EchoesRegistering J host') (number : Nat) (isJoining : Bool) (link : Link)
    (hw : J w) :
    Act.Echoes (Act.call host number isJoining link) (Act.call host' number isJoining link) w
      fun _ w' => J w' := by
  refine Act.echoes_get ?_
  cases hid : w.id? link with
  | none => exact Act.echoes_pure hw
  | some id =>
    let note : Engine → Engine := fun e => { e with calls := (id, isJoining) :: e.calls }
    -- The record is made first. It leaves the machine where it is, so that the child can be called.
    have hnote : Act.Gives False (Act.updateEngine number note : Act ρ γ Unit) w fun _ w' =>
        (w'.id? link).isSome = true ∧ J w' := by
      refine ⟨False.elim, fun _ w' hrun => ⟨?_, ?_⟩⟩
      · cases hrun
        exact Option.isSome_iff_exists.2 ⟨id, hid⟩
      · exact (h.updateEngine number note (fun _ => ⟨rfl, rfl⟩) hw).2 _ w' hrun
    refine hnote.echoes.bind ?_
    rintro _ w₁ ⟨hlink, hw₁⟩
    cases isJoining with
    | true => exact h.attach number hlink hw₁
    | false => exact h.detach hlink hw₁

/-- `Act.graph` keeps `J`. -/
theorem graph (h : host.EchoesRegistering J host') (number : Nat) (hw : J w) :
    Act.Gives False (Act.graph number : Act ρ γ (Option (Nat × ShapeGraph))) w
      fun _ w' => J w' := by
  refine Act.gives_get ?_
  split
  · exact Act.gives_pure hw
  · split
    · exact Act.gives_pure hw
    · have hcount : Act.Gives False
          (set { w with graphs := w.graphs + 1 } : Act ρ γ Unit) w fun _ w' => J w' :=
        Act.gives_modify (h.graphs w _ hw)
      refine Act.gives_bind hcount fun _ w₁ hw₁ => ?_
      exact Act.gives_bind (h.updateEngine number _ (fun _ => ⟨rfl, rfl⟩) hw₁) fun _ _ hw₂ =>
        Act.gives_pure hw₂

/-- `Act.redraw` echoes. -/
theorem redraw (h : host.EchoesRegistering J host') (number : Nat) (hw : J w) :
    Act.Echoes (Act.redraw host number) (Act.redraw host' number) w fun _ w' => J w' := by
  refine (h.updateEngine number _ ?_ hw).echoes.bind fun _ w₁ hw₁ => Act.echoes_get ?_
  · exact fun _ => ⟨rfl, rfl⟩
  cases w₁.engines[number]? with
  | none => exact Act.echoes_pure hw₁
  | some e =>
    dsimp only
    split
    · refine (h.graph number hw₁).echoes.bind fun drawn? w₂ hw₂ => ?_
      cases drawn? with
      | none => exact Act.echoes_pure hw₂
      | some drawn => exact Act.echoes_forM hw₂ fun _ _ w hw => h.redrawn drawn.2 w hw
    · exact Act.echoes_pure hw₁

/-- **`Act.sync` echoes.** -/
theorem sync (h : host.EchoesRegistering J host') (number : Nat) (hw : J w) :
    Act.Echoes (Act.sync host number) (Act.sync host' number) w fun _ w' => J w' := by
  refine Act.echoes_get ?_
  cases w.engines[number]? with
  | none => exact Act.echoes_pure hw
  | some e =>
    refine (h.updateEngine number _ ?_ hw).echoes.bind fun _ w₁ hw₁ => ?_
    · exact fun _ => ⟨rfl, rfl⟩
    -- Those that leave are called before those that join.
    have hcalls : ∀ (links : List Link) (isJoining : Bool) w, J w → Act.Echoes
        (links.forM (Act.call host number isJoining)) (links.forM (Act.call host' number isJoining))
        w fun _ w' => J w' := fun links isJoining w hw =>
      Act.echoes_forM hw fun link _ w hw => h.call number isJoining link hw
    split
    · refine (hcalls _ false w₁ hw₁).bind fun _ w₂ hw₂ => ?_
      refine (hcalls _ true w₂ hw₂).bind fun _ w₃ hw₃ => ?_
      exact (h.redraw number hw₃).bind fun _ _ hw₄ => Act.echoes_pure hw₄
    · exact Act.echoes_pure hw₁

end Host.EchoesRegistering

/-- **`host'` echoes `host` in routing**: `EchoesOffers`, `Act.sync` echoes, and `J` does not depend
on `busy` or on where a machine is enlisted. -/
structure Host.EchoesRouting (J : World ρ γ → Prop) (host host' : Host ρ γ) : Prop
    extends Host.EchoesOffers J host host' where
  sync : ∀ number w, J w →
    Act.Echoes (Act.sync host number) (Act.sync host' number) w fun _ w' => J w'
  enlist : ∀ (w : World ρ γ) link m engine?, J w → w.machine? link = some m →
    J (w.setCell link (.machine { m with engine? }))
  busy : ∀ (w : World ρ γ) busy, J w → J { w with busy }

namespace Host.EchoesRouting

variable {J : World ρ γ → Prop} {host host' : Host ρ γ} {w : World ρ γ} {link : Link}

/-- **`Act.handle` echoes.** -/
theorem handle (h : host.EchoesRouting J host') (number : Nat) (event : Event) (hw : J w) :
    Act.Echoes (Act.handle host number event) (Act.handle host' number event) w
      fun _ w' => J w' := by
  refine Act.echoes_get ?_
  cases w.engines[number]? with
  | none => exact Act.echoes_pure hw
  | some e =>
    dsimp only
    split
    · exact Act.echoes_pure hw
    · split
      · exact h.dispatchLocal trivial event hw
      · -- Registrations are brought in line before the event is offered, and again when all is
        -- done.
        refine (h.sync number w hw).bind fun levels w₁ hw₁ => Act.echoes_get ?_
        refine (h.attempt e.root levels event hw₁).bind fun applied? w₂ hw₂ => ?_
        cases applied? with
        | none => exact Act.echoes_pure hw₂
        | some applied =>
          refine (h.bubble number e applied.1 _ hw₂).bind fun _ w₃ hw₃ => ?_
          have hlast : ∀ w, J w → Act.Echoes
              (do discard (Act.sync host number); return some applied.2)
              (do discard (Act.sync host' number); return some applied.2) w fun _ w' => J w' :=
            fun w hw => (h.sync number w hw).discard.bind fun _ _ hw' => Act.echoes_pure hw'
          split
          · exact (h.noteBelow _ _ event w₃ trivial hw₃).bind fun _ w₄ hw₄ => hlast w₄ hw₄
          · exact hlast w₃ hw₃

/-- `Act.route` echoes. -/
theorem route (h : host.EchoesRouting J host') (number : Nat) (event : Event) (hw : J w) :
    Act.Echoes (Act.route host number event) (Act.route host' number event) w fun _ w' => J w' := by
  have hbusy : ∀ (busy : List Nat → List Nat) w, J w → Act.Gives False
      (modify fun w => { w with busy := busy w.busy } : Act ρ γ Unit) w fun _ w' => J w' :=
    fun _ w hw => Act.gives_modify (h.busy w _ hw)
  refine (hbusy (number :: ·) w hw).echoes.bind fun _ w₁ hw₁ => ?_
  refine (h.handle number event hw₁).bind fun _ w₂ hw₂ => ?_
  exact (hbusy (·.drop 1) w₂ hw₂).echoes.bind fun _ _ hw₃ => Act.echoes_pure hw₃

/-- **`Act.dispatch` echoes.** -/
theorem dispatch (h : host.EchoesRouting J host') (link : Link) (event : Event) (hw : J w) :
    Act.Echoes (Act.dispatch host link event) (Act.dispatch host' link event) w
      fun _ w' => J w' := by
  refine Act.echoes_get ?_
  cases hm : w.machine? link with
  | none => exact Act.echoes_pure hw
  | some m =>
    dsimp only
    -- A machine whose engine is gone forgets it, and handles the event itself.
    cases m.engine?.filter w.isAlive with
    | none => exact h.dispatchLocal trivial event hw
    | some number =>
      dsimp only
      split
      · exact h.dispatchLocal trivial event hw
      · split
        · exact h.route number event hw
        · have hset : J (w.setCell link (.machine { m with engine? := none })) :=
            h.enlist w link m none hw hm
          exact Act.Echoes.bind (Act.echoes_setCell hset) fun _ w₁ hw₁ =>
            h.dispatchLocal trivial event hw₁

/-- `Act.sendNamed` echoes. -/
theorem sendNamed (h : host.EchoesRouting J host') (link : Link) (name : String) (params : Params)
    (hw : J w) :
    Act.Echoes (Act.sendNamed host link name params) (Act.sendNamed host' link name params) w
      fun _ w' => J w' := by
  rw [Act.sendNamed, Act.sendNamed]
  split
  · exact Act.echoes_pure hw
  · exact h.dispatch link _ hw

/-- `Act.dispatchToTree` echoes. -/
theorem dispatchToTree (h : host.EchoesRouting J host') (root : Link) (event : Event) (hw : J w) :
    Act.Echoes (Act.dispatchToTree host root event) (Act.dispatchToTree host' root event) w
      fun _ w' => J w' := by
  refine Act.echoes_get ?_
  cases w.engineInUse? with
  | none => exact h.dispatch root event hw
  | some inUse => exact h.route inUse.1 event hw

/-- `Act.sendToTree` echoes. -/
theorem sendToTree (h : host.EchoesRouting J host') (root : Link) (name : String) (params : Params)
    (hw : J w) :
    Act.Echoes (Act.sendToTree host root name params) (Act.sendToTree host' root name params) w
      fun _ w' => J w' := by
  rw [Act.sendToTree, Act.sendToTree]
  split
  · exact Act.echoes_pure hw
  · exact h.dispatchToTree root _ hw

end Host.EchoesRouting

/-- **`host'` echoes `host` in all that engines do**: `EchoesOffers` and `EchoesRegistering`, and
`J` does not depend on `busy`. -/
structure Host.EchoesCalls (J : World ρ γ → Prop) (host host' : Host ρ γ) : Prop
    extends Host.EchoesOffers J host host', Host.EchoesRegistering J host host' where
  busy : ∀ (w : World ρ γ) busy, J w → J { w with busy }

/-- `EchoesCalls` gives `EchoesRouting`. -/
theorem Host.EchoesCalls.routing {J : World ρ γ → Prop} {host host' : Host ρ γ}
    (h : host.EchoesCalls J host') : host.EchoesRouting J host' :=
  ⟨h.toEchoesOffers, fun number _ hw => h.toEchoesRegistering.sync number hw, h.enlist, h.busy⟩

end Statechart
