import Statechart.Listeners.Script

/-! # How deep notifications nest

A subscriber that is called performs the next of its lists of steps and has one list less for the
calls to come. So the lists that are left bound how deep notifications can nest, and a run with more
depth than that is the run without any bound.

* `Listeners.Board.runsLeft`: how many times subscribers will perform steps at most.
* `Listeners.Agree`: two ways to perform steps are the same as long as few runs are left.
* **`Listeners.agree_runSteps`**: more depth changes nothing.
* **`Listeners.runSteps_eq_of_totalRuns_lt`**: a script is performed to its end. -/

namespace Statechart.Listeners

variable {board : Board} {perform perform' : List Step → Board → Board} {bound : Nat}

/-! ## Runs that are left -/

/-- **How many times the subscribers of `board` will perform steps** at most: `Step.reactionRuns` of
all lists that are left. -/
def Board.runsLeft (board : Board) : Nat :=
  Step.reactionRuns (board.callbacks.toList.flatMap Callback.react)

/-- `reactionRuns` of `react ++ more` is the sum. -/
theorem Step.reactionRuns_append (react more : List (List Step)) :
    Step.reactionRuns (react ++ more) = Step.reactionRuns react + Step.reactionRuns more := by
  induction react with
  | nil =>
    rw [List.nil_append, Step.reactionRuns]
    omega
  | cons steps rest ih =>
    rw [List.cons_append, Step.reactionRuns, Step.reactionRuns, ih]
    omega

/-- `reactionRuns` of all callbacks after `callbacks.set i other`. -/
theorem reactionRuns_flatMap_set {callbacks : List Callback} {i : Nat} {callback : Callback}
    (other : Callback) (h : callbacks[i]? = some callback) :
    Step.reactionRuns ((callbacks.set i other).flatMap Callback.react) +
        Step.reactionRuns callback.react =
      Step.reactionRuns (callbacks.flatMap Callback.react) + Step.reactionRuns other.react := by
  induction callbacks generalizing i with
  | nil => cases h
  | cons first rest ih =>
    cases i with
    | zero =>
      cases h
      simp only [List.set_cons_zero, List.flatMap_cons, Step.reactionRuns_append]
      omega
    | succ i =>
      have hrest := ih h
      simp only [List.set_cons_succ, List.flatMap_cons, Step.reactionRuns_append]
      omega

/-- `note` does not change `runsLeft`. -/
@[simp]
theorem Board.runsLeft_note (board : Board) (happening : Happening) :
    (board.note happening).runsLeft = board.runsLeft := rfl

/-- `leave` takes `Step.totalRuns steps + 1` from `runsLeft` if it takes `steps` from the
callback. -/
theorem Board.runsLeft_leave {place : Nat} {callback : Callback} {steps : List Step}
    {rest : List (List Step)} (hcallback : board.callbacks[place]? = some callback)
    (hreact : callback.react = steps :: rest) :
    Step.totalRuns steps + 1 + (board.leave place callback rest).runsLeft = board.runsLeft := by
  rw [← Array.getElem?_toList] at hcallback
  have hruns := reactionRuns_flatMap_set { callback with react := rest } hcallback
  rw [hreact, Step.reactionRuns] at hruns
  simp only [Board.runsLeft, Board.leave, Array.toList_setIfInBounds]
  dsimp only at hruns
  omega

/-! ## Two ways to perform steps -/

/-- **`perform` and `perform'` agree below `bound`**: they are the same where `Step.totalRuns steps`
and `runsLeft` are less in total, and `perform` leaves no more runs than that. -/
def Agree (bound : Nat) (perform perform' : List Step → Board → Board) : Prop :=
  ∀ steps board, Step.totalRuns steps + board.runsLeft < bound →
    perform steps board = perform' steps board ∧
      (perform steps board).runsLeft ≤ Step.totalRuns steps + board.runsLeft

/-- `Agree` for `Board.call`. -/
theorem Agree.call (h : Agree bound perform perform') (hbound : board.runsLeft ≤ bound)
    (round : Nat) (value : Value) (entry : Nat × Nat) :
    board.call perform round value entry = board.call perform' round value entry ∧
      (board.call perform round value entry).runsLeft ≤ board.runsLeft := by
  unfold Board.call
  cases hcallback : board.callbacks[entry.2]? with
  | none => exact ⟨rfl, Nat.le_refl _⟩
  | some callback =>
    dsimp only
    cases hreact : callback.react with
    | nil => exact ⟨rfl, Nat.le_refl _⟩
    | cons steps rest =>
      -- The run at hand counts for itself, so fewer are left than before.
      have hleft : Step.totalRuns steps + 1 + _ = (board.note (.called ⟨round, entry.1,
        callback.name, value⟩)).runsLeft := Board.runsLeft_leave hcallback hreact
      rw [Board.runsLeft_note] at hleft
      obtain ⟨heq, hle⟩ := h steps ((board.note (.called ⟨round, entry.1, callback.name,
        value⟩)).leave entry.2 callback rest) (by omega)
      exact ⟨heq, Nat.le_trans hle (by omega)⟩

/-- `Agree` for `Board.call` along a list. -/
theorem Agree.calls (h : Agree bound perform perform') (hbound : board.runsLeft ≤ bound)
    (round : Nat) (value : Value) (entries : List (Nat × Nat)) :
    entries.foldl (Board.call perform round value) board =
        entries.foldl (Board.call perform' round value) board ∧
      (entries.foldl (Board.call perform round value) board).runsLeft ≤ board.runsLeft := by
  induction entries generalizing board with
  | nil => exact ⟨rfl, Nat.le_refl _⟩
  | cons entry rest ih =>
    obtain ⟨heq, hle⟩ := h.call hbound round value entry
    obtain ⟨heq', hle'⟩ := ih (Nat.le_trans hle hbound)
    rw [List.foldl_cons, List.foldl_cons, ← heq]
    exact ⟨heq', Nat.le_trans hle' hle⟩

/-- `Agree` for `Board.notify`. -/
theorem Agree.notify (h : Agree bound perform perform') (hbound : board.runsLeft ≤ bound)
    (value : Value) : board.notify perform value = board.notify perform' value ∧
      (board.notify perform value).runsLeft ≤ board.runsLeft := by
  have hstarted : (board.note (.started value)).runsLeft ≤ bound := hbound
  exact h.calls hstarted _ _ _

/-- `Agree` for `Board.step`. -/
theorem Agree.step (h : Agree bound perform perform') (step : Step)
    (hbound : step.runs + board.runsLeft ≤ bound) :
    board.step perform step = board.step perform' step ∧
      (board.step perform step).runsLeft ≤ step.runs + board.runsLeft := by
  cases step with
  | subscribe name react =>
    refine ⟨rfl, ?_⟩
    -- What the subscriber may do is counted among its own runs from now on.
    simp only [Board.step, Board.runsLeft, Step.runs, Array.toList_push, List.flatMap_append,
      List.flatMap_singleton, Step.reactionRuns_append]
    omega
  | unsubscribe name =>
    refine ⟨rfl, ?_⟩
    simp only [Board.step]
    split
    · exact Nat.le_add_left _ _
    · exact Nat.le_add_left _ _
  | inert name => exact ⟨rfl, Nat.le_add_left _ _⟩
  | notify value =>
    have hruns : (Step.notify value).runs = 0 := rfl
    rw [hruns, Nat.zero_add] at hbound ⊢
    exact h.notify hbound value
  | count => exact ⟨rfl, Nat.le_add_left _ _⟩

/-- **`runSteps depth` and `runSteps (depth + 1)` agree below `depth`.** -/
theorem agree_runSteps (depth : Nat) : Agree depth (runSteps depth) (runSteps (depth + 1)) := by
  induction depth with
  | zero => exact fun _ _ hbound => absurd hbound (Nat.not_lt_zero _)
  | succ depth ih =>
    intro steps board hbound
    rw [runSteps, runSteps]
    induction steps generalizing board with
    | nil => exact ⟨rfl, Nat.le_add_left _ _⟩
    | cons step rest ihsteps =>
      rw [Step.totalRuns] at hbound ⊢
      obtain ⟨heq, hle⟩ := ih.step step (show step.runs + board.runsLeft ≤ depth by omega)
      obtain ⟨heq', hle'⟩ := ihsteps (board.step (runSteps depth) step) (by omega)
      rw [List.foldl_cons, List.foldl_cons, ← heq]
      exact ⟨heq', by omega⟩

/-- **With `Step.totalRuns steps < depth` the result of `runSteps depth` does not depend on
`depth`.** -/
theorem runSteps_eq_of_totalRuns_lt (steps : List Step) {depth : Nat}
    (hdepth : Step.totalRuns steps < depth) :
    runSteps depth steps {} = runSteps (Step.totalRuns steps + 1) steps {} := by
  obtain ⟨more, rfl⟩ := Nat.exists_eq_add_of_le hdepth
  induction more with
  | zero => rfl
  | succ more ih =>
    have hempty : Board.runsLeft {} = 0 := rfl
    obtain ⟨heq, -⟩ := agree_runSteps (Step.totalRuns steps + 1 + more) steps {} (by omega)
    exact heq.symm.trans (ih (by omega))

end Statechart.Listeners
