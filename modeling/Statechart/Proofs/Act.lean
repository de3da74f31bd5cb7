import Statechart.World

/-! # Acts that come to an end

What happens in a world is an `Act`: it changes the world and has a result, or it never ends. A
statement about an act is made in one piece, that it ends and what holds then.

* **`Act.Ends act w post`**: from the world `w` the act comes to an end, and `post` holds of its
  result and of the world it leaves behind.
* `Act.ends_bind`, `Act.ends_get`, `Act.ends_modify`: one step of an act after the other.
* `Act.ends_forM`: a list of steps that each keep an invariant.
* **`Act.Gives total act w post`**: `post` holds if the act comes to an end, and it does if `total`
  holds. The rules are the same as those of `Act.Ends`.
* `Act.UpholdsIf`, `Act.Upholds`: an act after which an invariant holds if it has held before.
* `Act.after`: the world that an act leaves behind. -/

namespace Statechart

namespace Act

variable {ρ γ α β : Type}

/-- **`act` comes to an end from `w`**, with a result and a world of which `post` holds. -/
def Ends (act : Act ρ γ α) (w : World ρ γ) (post : α → World ρ γ → Prop) : Prop :=
  ∃ a w', act.run w = some (a, w') ∧ post a w'

variable {act : Act ρ γ α} {w w' : World ρ γ} {post post' : α → World ρ γ → Prop}

/-- `Ends` with a weaker `post`. -/
theorem Ends.mono (h : Ends act w post) (hp : ∀ a w', post a w' → post' a w') :
    Ends act w post' := by
  obtain ⟨a, w', hrun, hpost⟩ := h
  exact ⟨a, w', hrun, hp a w' hpost⟩

/-- `post` holds of the run, whichever way it is known. -/
theorem Ends.of_run {a : α} (h : Ends act w post) (hrun : act.run w = some (a, w')) :
    post a w' := by
  obtain ⟨b, w'', hrun', hpost⟩ := h
  rw [hrun] at hrun'
  cases hrun'
  exact hpost

/-- `Ends` for `pure a`. -/
theorem ends_pure {a : α} (h : post a w) : Ends (pure a) w post :=
  ⟨a, w, rfl, h⟩

/-- **`Ends` for `act >>= f`.** -/
theorem ends_bind {f : α → Act ρ γ β} {post : β → World ρ γ → Prop}
    {mid : α → World ρ γ → Prop} (h : Ends act w mid)
    (hf : ∀ a w', mid a w' → Ends (f a) w' post) : Ends (act >>= f) w post := by
  obtain ⟨a, w', hrun, hmid⟩ := h
  obtain ⟨b, w'', hrun', hpost⟩ := hf a w' hmid
  refine ⟨b, w'', ?_, hpost⟩
  rw [StateT.run_bind, hrun]
  exact hrun'

/-- `Ends` for `act >>= f` where the run of `act` is known. -/
theorem ends_bind_of_run {a : α} {f : α → Act ρ γ β} {post : β → World ρ γ → Prop}
    (hrun : act.run w = some (a, w')) (h : Ends (f a) w' post) : Ends (act >>= f) w post := by
  obtain ⟨b, w'', hrun', hpost⟩ := h
  refine ⟨b, w'', ?_, hpost⟩
  rw [StateT.run_bind, hrun]
  exact hrun'

/-- `Ends` for `get >>= f`. -/
theorem ends_get {f : World ρ γ → Act ρ γ β} {post : β → World ρ γ → Prop}
    (h : Ends (f w) w post) : Ends (get >>= f) w post := h

/-- `Ends` for `modify f`. -/
theorem ends_modify {f : World ρ γ → World ρ γ} {post : Unit → World ρ γ → Prop}
    (h : post () (f w)) : Ends (modify f) w post :=
  ⟨(), f w, rfl, h⟩

/-- The run of `discard act` is that of `act` without its result. -/
theorem run_discard : (discard act).run w = (act.run w).map fun p => ((), p.2) := by
  show (act.run w).bind _ = _
  cases act.run w <;> rfl

/-- `Ends` for `discard act`. -/
theorem ends_discard {post : Unit → World ρ γ → Prop}
    (h : Ends act w fun _ w' => post () w') : Ends (discard act) w post := by
  obtain ⟨a, w', hrun, hpost⟩ := h
  refine ⟨(), w', ?_, hpost⟩
  rw [run_discard, hrun]
  rfl

/-- **`Ends` for `items.forM f`**, if each `f item` keeps `invariant`. -/
theorem ends_forM {items : List β} {f : β → Act ρ γ Unit} {invariant : World ρ γ → Prop}
    (hw : invariant w)
    (hf : ∀ item ∈ items, ∀ w, invariant w → Ends (f item) w fun _ w' => invariant w') :
    Ends (items.forM f) w fun _ w' => invariant w' := by
  -- The world changes with every step, so the induction is on the items, for any world.
  induction items generalizing w with
  | nil => exact ends_pure hw
  | cons item rest ih =>
    refine ends_bind (hf item List.mem_cons_self w hw) fun _ w' hw' => ?_
    exact ih hw' fun item hitem => hf item (List.mem_cons_of_mem _ hitem)

/-! ## Acts that may never end -/

/-- **What `act` gives from `w`**: `post` holds of its result and of the world it leaves behind, if
it comes to an end, and it does if `total` holds. -/
def Gives (total : Prop) (act : Act ρ γ α) (w : World ρ γ) (post : α → World ρ γ → Prop) : Prop :=
  (total → (act.run w).isSome = true) ∧ ∀ a w', act.run w = some (a, w') → post a w'

variable {total total' : Prop}

/-- `Ends` gives `Gives`, for every `total`. -/
theorem Ends.gives (h : Ends act w post) : Gives total act w post := by
  obtain ⟨a, w', hrun, hpost⟩ := h
  refine ⟨fun _ => by rw [hrun]; rfl, fun b w'' hrun' => ?_⟩
  rw [hrun] at hrun'
  cases hrun'
  exact hpost

/-- `Gives` and `total` give `Ends`. -/
theorem Gives.ends (h : Gives total act w post) (ht : total) : Ends act w post := by
  obtain ⟨⟨a, w'⟩, hrun⟩ := Option.isSome_iff_exists.1 (h.1 ht)
  exact ⟨a, w', hrun, h.2 a w' hrun⟩

/-- `Gives` with a weaker `post`. -/
theorem Gives.mono (h : Gives total act w post) (hp : ∀ a w', post a w' → post' a w') :
    Gives total act w post' :=
  ⟨h.1, fun a w' hrun => hp a w' (h.2 a w' hrun)⟩

/-- `Gives` with a stronger `total`. -/
theorem Gives.imp_total (h : Gives total act w post) (ht : total' → total) :
    Gives total' act w post :=
  ⟨fun ht' => h.1 (ht ht'), h.2⟩

/-- `Gives` with the run of `act` beside `post`. -/
theorem Gives.with_run (h : Gives total act w post) :
    Gives total act w fun a w' => act.run w = some (a, w') ∧ post a w' :=
  ⟨h.1, fun a w' hrun => ⟨hrun, h.2 a w' hrun⟩⟩

/-- `Gives False` with the run of `act`. -/
theorem gives_run : Gives False act w fun a w' => act.run w = some (a, w') :=
  ⟨False.elim, fun _ _ hrun => hrun⟩

/-- `Gives` for `pure a`. -/
theorem gives_pure {a : α} (h : post a w) : Gives total (pure a) w post := (ends_pure h).gives

/-- **`Gives` for `act >>= f`.** -/
theorem gives_bind {f : α → Act ρ γ β} {post : β → World ρ γ → Prop}
    {mid : α → World ρ γ → Prop} (h : Gives total act w mid)
    (hf : ∀ a w', mid a w' → Gives total (f a) w' post) : Gives total (act >>= f) w post := by
  constructor
  · intro ht
    have hboth : Ends (act >>= f) w fun _ _ => True := ends_bind (h.ends ht) fun a w' hmid =>
      ((hf a w' hmid).ends ht).mono fun _ _ _ => trivial
    obtain ⟨b, w', hrun, -⟩ := hboth
    rw [hrun]
    rfl
  · intro b w'' hrun
    rw [StateT.run_bind] at hrun
    obtain ⟨⟨a, w'⟩, hfirst, hsecond⟩ := Option.bind_eq_some_iff.1 hrun
    exact (hf a w' (h.2 a w' hfirst)).2 b w'' hsecond

/-- `Gives` for `get >>= f`. -/
theorem gives_get {f : World ρ γ → Act ρ γ β} {post : β → World ρ γ → Prop}
    (h : Gives total (f w) w post) : Gives total (get >>= f) w post := h

/-- `Gives` for `modify f`. -/
theorem gives_modify {f : World ρ γ → World ρ γ} {post : Unit → World ρ γ → Prop}
    (h : post () (f w)) : Gives total (modify f) w post := (ends_modify h).gives

/-- `Gives` for `discard act`. -/
theorem gives_discard {post : Unit → World ρ γ → Prop}
    (h : Gives total act w fun _ w' => post () w') : Gives total (discard act) w post := by
  refine ⟨fun ht => ?_, fun _ w' hrun => ?_⟩
  · rw [run_discard, Option.isSome_map]
    exact h.1 ht
  · rw [run_discard, Option.map_eq_some_iff] at hrun
    obtain ⟨⟨a, w''⟩, hrun, heq⟩ := hrun
    cases heq
    exact h.2 a _ hrun

/-- **`Gives` for `items.forM f`**, if each `f item` keeps `invariant`. -/
theorem gives_forM {items : List β} {f : β → Act ρ γ Unit} {invariant : World ρ γ → Prop}
    (hw : invariant w) (hf : ∀ item ∈ items, ∀ w, invariant w →
      Gives total (f item) w fun _ w' => invariant w') :
    Gives total (items.forM f) w fun _ w' => invariant w' := by
  induction items generalizing w with
  | nil => exact gives_pure hw
  | cons item rest ih =>
    refine gives_bind (hf item List.mem_cons_self w hw) fun _ w' hw' => ?_
    exact ih hw' fun item hitem => hf item (List.mem_cons_of_mem _ hitem)

/-! ## Acts that uphold an invariant -/

/-- **`act` upholds `J`**: if it comes to an end, `J` holds as it has before; and it does come to an
end if `total` holds. -/
def UpholdsIf (total : Prop) (J : World ρ γ → Prop) (act : Act ρ γ α) : Prop :=
  ∀ w, J w → Gives total act w fun _ w' => J w'

/-- `UpholdsIf False`, for an act that may never end. -/
abbrev Upholds (J : World ρ γ → Prop) (act : Act ρ γ α) : Prop := UpholdsIf False J act

variable {J : World ρ γ → Prop}

/-- `UpholdsIf` for `pure a`. -/
theorem upholds_pure (a : α) : UpholdsIf total J (pure a : Act ρ γ α) := fun _ hw => gives_pure hw

/-- `UpholdsIf` for `act >>= f`. -/
theorem UpholdsIf.bind {f : α → Act ρ γ β} (h : UpholdsIf total J act)
    (hf : ∀ a, UpholdsIf total J (f a)) : UpholdsIf total J (act >>= f) :=
  fun w hw => gives_bind (h w hw) fun a w' hw' => hf a w' hw'

/-- `UpholdsIf` for `get >>= f`. -/
theorem upholds_get {f : World ρ γ → Act ρ γ β}
    (hf : ∀ w, J w → Gives total (f w) w fun _ w' => J w') : UpholdsIf total J (get >>= f) :=
  fun w hw => gives_get (hf w hw)

/-- `UpholdsIf` for `discard act`. -/
theorem UpholdsIf.discard (h : UpholdsIf total J act) : UpholdsIf total J (discard act) :=
  fun w hw => gives_discard (h w hw)

/-- `UpholdsIf` for `items.forM f`. -/
theorem upholds_forM {items : List β} {f : β → Act ρ γ Unit}
    (hf : ∀ item ∈ items, UpholdsIf total J (f item)) : UpholdsIf total J (items.forM f) :=
  fun _ hw => gives_forM hw fun item hitem w hw => hf item hitem w hw

/-! ## The world after an act -/

/-- **The world after `act`**, or `w` if it does not come to an end. -/
def after (act : Act ρ γ α) (w : World ρ γ) : World ρ γ := ((act.run w).map (·.2)).getD w

/-- `act.run w` has the world `act.after w` if it comes to an end. -/
theorem run_eq_after (h : (act.run w).isSome = true) : ∃ a, act.run w = some (a, act.after w) := by
  obtain ⟨⟨a, w'⟩, hrun⟩ := Option.isSome_iff_exists.1 h
  exact ⟨a, by rw [after, hrun]; rfl⟩

/-- The world of `act.run w` is `act.after w`. -/
theorem eq_after {a : α} (h : act.run w = some (a, w')) : w' = act.after w := by
  rw [after, h]
  rfl

/-- `Gives` and `total` give `post` for `act.after w`. -/
theorem Gives.after (h : Gives total act w post) (ht : total) : ∃ a, post a (act.after w) := by
  obtain ⟨a, hrun⟩ := run_eq_after (h.1 ht)
  exact ⟨a, h.2 a _ hrun⟩

end Act

end Statechart
