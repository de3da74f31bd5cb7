import Statechart.Proofs.Listeners.Log

/-! # What steps write down

A big-step semantics of steps over logs alone. It says which happenings each `Step` appends to a
`log`, where `present log`, `handle? name log` and `reaction number log` stand for the list of
subscribers, the handles and what the subscribers will do. There is no bound on how deep
notifications nest.

* `Listeners.Performs log steps more`: after `log`, performing `steps` writes down `more`.
* `Listeners.Takes log step more`: the same for one step. For `.notify value` it is
  `.started value`, then the calls of the round.
* `Listeners.Reaches round value who log more`: the calls of the round that has started at `round`,
  of each of `who` in order, each call with what the subscriber performs in it.
* **`Listeners.Performs.unique`**: `log` and `steps` determine `more`.
* **`Listeners.Performs.stretch`**: all rounds are complete that start in `more`, and `more` has no
  calls of other rounds. -/

namespace Statechart.Listeners

mutual

/-- **What some steps write down** after `log`: what each `Takes`, after what the ones before it
have written. -/
inductive Performs : List Happening → List Step → List Happening → Prop where
  | nil {log : List Happening} : Performs log [] []
  | cons {log more later : List Happening} {step : Step} {steps : List Step}
      (first : Takes log step more) (rest : Performs (log ++ more) steps later) :
      Performs log (step :: steps) (more ++ later)

/-- **What one step writes down** after `log`. -/
inductive Takes : List Happening → Step → List Happening → Prop where
  /-- A subscription gets the next number, `(subscriptions log).length`. -/
  | subscribe {log : List Happening} {name : String} {react : List (List Step)} :
      Takes log (.subscribe name react)
        [.subscribed (subscriptions log).length name react]
  /-- The end of the subscription whose handle was stored last under `name`, ended before or
  not. -/
  | unsubscribe {log : List Happening} {name : String} {number : Nat}
      (handle : handle? name log = some number) :
      Takes log (.unsubscribe name) [.unsubscribed number name]
  /-- There is nothing to end if `name` has no handle, or one of a subscription to nothing. -/
  | unheld {log : List Happening} {name : String} (handle : handle? name log = none) :
      Takes log (.unsubscribe name) []
  | inert {log : List Happening} {name : String} : Takes log (.inert name) [.inert name]
  /-- A notification starts a round, which reaches those in `present log`. -/
  | notify {log more : List Happening} {value : Value}
      (calls : Reaches log.length value (present log) (log ++ [.started value]) more) :
      Takes log (.notify value) (.started value :: more)
  | count {log : List Happening} : Takes log .count [.counted (present log).length]

/-- **What the calls of a round write down** after `log`. The subscriber `who.1` performs
`reaction who.1 log` as part of its call, before the next one is called. -/
inductive Reaches : Nat → Value → List (Nat × String) → List Happening → List Happening → Prop where
  | over {round : Nat} {value : Value} {log : List Happening} : Reaches round value [] log []
  | next {round : Nat} {value : Value} {who : Nat × String} {others : List (Nat × String)}
      {log more later : List Happening}
      (call : Performs (log ++ [.called ⟨round, who.1, who.2, value⟩]) (reaction who.1 log) more)
      (rest : Reaches round value others
        (log ++ .called ⟨round, who.1, who.2, value⟩ :: more) later) :
      Reaches round value (who :: others) log
        (.called ⟨round, who.1, who.2, value⟩ :: (more ++ later))

end

/-! ## One log only -/

mutual

/-- **Steps write down one thing only**: `log` and `steps` determine `more`. -/
theorem Performs.unique {log more more' : List Happening} {steps : List Step} :
    Performs log steps more → Performs log steps more' → more = more'
  | .nil, .nil => rfl
  | .cons first rest, .cons first' rest' => by
    cases first.unique first'
    rw [rest.unique rest']

/-- `log` and `step` determine `more` in `Takes log step more`. -/
theorem Takes.unique {log more more' : List Happening} {step : Step} :
    Takes log step more → Takes log step more' → more = more'
  | .subscribe, .subscribe => rfl
  | .unsubscribe hhandle, .unsubscribe hhandle' => by
    rw [hhandle, Option.some.injEq] at hhandle'
    rw [hhandle']
  | .unsubscribe hhandle, .unheld hhandle' => by
    rw [hhandle] at hhandle'
    cases hhandle'
  | .unheld hhandle, .unsubscribe hhandle' => by
    rw [hhandle] at hhandle'
    cases hhandle'
  | .unheld _, .unheld _ => rfl
  | .inert, .inert => rfl
  | .notify calls, .notify calls' => by rw [calls.unique calls']
  | .count, .count => rfl

/-- `round`, `value`, `who` and `log` determine `more` in `Reaches round value who log more`. -/
theorem Reaches.unique {log more more' : List Happening} {round : Nat} {value : Value}
    {who : List (Nat × String)} :
    Reaches round value who log more → Reaches round value who log more' → more = more'
  | .over, .over => rfl
  | .next call rest, .next call' rest' => by
    cases call.unique call'
    rw [rest.unique rest']

end

/-! ## Complete rounds -/

mutual

/-- **Rounds are complete.** What steps write down after `log` holds every round that starts in it
as a whole, and no calls of rounds that have started in `log`. -/
theorem Performs.stretch {log more : List Happening} {steps : List Step} :
    Performs log steps more → Stretch log more []
  | .nil => .nil _
  | .cons first rest =>
    first.stretch.append rest.stretch fun _ hcall => absurd hcall List.not_mem_nil

/-- Rounds are complete in what one step writes down. A notification is one itself. -/
theorem Takes.stretch {log more : List Happening} {step : Step} :
    Takes log step more → Stretch log more []
  | .subscribe => .single rfl fun _ heq => by cases heq
  | .unsubscribe _ => .single rfl fun _ heq => by cases heq
  | .unheld _ => .nil _
  | .inert => .single rfl fun _ heq => by cases heq
  | .notify calls => (calls.stretch (by simp)).started
  | .count => .single rfl fun _ heq => by cases heq

/-- The calls of a round that has started in `log` are one for each of `who`, in order. Whatever the
subscribers perform in them has no calls of this round. -/
theorem Reaches.stretch {log more : List Happening} {round : Nat} {value : Value}
    {who : List (Nat × String)} : Reaches round value who log more → round < log.length →
      Stretch log more (who.map fun who => ⟨round, who.1, who.2, value⟩)
  | .over, _ => .nil _
  | @Reaches.next round value who others log more later call rest, hround => by
    have hcalled : Stretch log [.called ⟨round, who.1, who.2, value⟩]
        [⟨round, who.1, who.2, value⟩] := .called hround
    have hcall := hcalled.append call.stretch fun _ hcall => absurd hcall List.not_mem_nil
    have hlonger : round < (log ++ .called ⟨round, who.1, who.2, value⟩ :: more).length := by
      rw [List.length_append]
      omega
    refine hcall.append (rest.stretch hlonger) fun call hdue => ?_
    obtain ⟨_, -, rfl⟩ := List.mem_map.1 hdue
    exact hround

end

end Statechart.Listeners
