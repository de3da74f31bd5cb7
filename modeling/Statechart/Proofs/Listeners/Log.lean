import Mathlib.Data.List.Induction
import Statechart.Listeners.Script

/-! # What the log of a board says

A log is a `List Happening`. It says who is present at each point of it, and which calls each round
has made. Rounds nest, so the calls of one round do not stand next to each other, and a log is put
together from stretches that hold the rounds that start there as a whole, and some calls of rounds
that have started before.

* `Listeners.present log`: the `subscriptions log` whose numbers are not in `ended log`.
* `Listeners.handle? name log`: the handle that was stored last under `name`.
* `Listeners.reaction number log`: the steps that the next call of a subscription performs.
* `Listeners.Snapshots log`: every `.started value` in `log` is followed by the calls
  `due value before`, where `before` is what is in front of it.
* `Listeners.Stretch before more own`: all rounds are complete that start in `more`, and `own` are
  the calls in `more` of rounds that have started in `before`.
* `Listeners.Stretch.append`, `Listeners.Stretch.started`: stretches follow each other, and the
  calls that are due make a round complete.
* `Listeners.AllFit log`: every happening of `log` fits what is in front of it (`Fits`).
* **`Listeners.AllFit.snapshots`**: `AllFit log` and `Stretch [] log []` give `Snapshots log`. -/

namespace Statechart.Listeners

/-! ## What a log says -/

/-- The number and the name of each `.subscribed` in `log`. -/
def subscriptions (log : List Happening) : List (Nat × String) :=
  log.filterMap fun
    | .subscribed number name _ => some (number, name)
    | _ => none

/-- The number of each `.unsubscribed` in `log`. -/
def ended (log : List Happening) : List Nat :=
  log.filterMap fun
    | .unsubscribed number _ => some number
    | _ => none

/-- **Who is present after a log**: the `subscriptions log` in order, without those in `ended log`.
-/
def present (log : List Happening) : List (Nat × String) :=
  (subscriptions log).filter (·.1 ∉ ended log)

/-- The handle that a happening stores under `name`, if it stores one: `some number` for a
subscription, `none` for a subscription to nothing. -/
def Happening.stored? (name : String) : Happening → Option (Option Nat)
  | .subscribed number other _ => if other = name then some (some number) else none
  | .inert other => if other = name then some none else none
  | _ => none

/-- **The subscription whose handle was stored last** under `name`, if it is one to something. -/
def handle? (name : String) (log : List Happening) : Option Nat :=
  (log.filterMap (Happening.stored? name)).getLast?.join

/-- The calls of each `.called` in `log`. -/
def calls (log : List Happening) : List Call := log.filterMap Happening.call?

/-- The calls of the round that starts at the place `round`. -/
def callsOf (round : Nat) (log : List Happening) : List Call := (calls log).filter (·.round = round)

/-- The lists of steps that a happening declares for the subscription `number`, if it is the one
that made it. -/
def Happening.react? (number : Nat) : Happening → Option (List (List Step))
  | .subscribed other _ react => if other = number then some react else none
  | _ => none

/-- The lists of steps with which the subscription `number` was made. -/
def reactions (number : Nat) (log : List Happening) : List (List Step) :=
  (log.findSome? (Happening.react? number)).getD []

/-- How many times the subscription `number` has been called. -/
def callCount (number : Nat) (log : List Happening) : Nat :=
  (calls log).countP (·.subscription = number)

/-- **The steps that a call of the subscription `number` performs** after a log: the next ones of
its `reactions`, or none if there are no more. -/
def reaction (number : Nat) (log : List Happening) : List Step :=
  (reactions number log)[callCount number log]?.getD []

/-- **The calls that are due in a round** of `value` that starts after `before`: one for each of
`present before`, in order. -/
def due (value : Value) (before : List Happening) : List Call :=
  (present before).map fun who => ⟨before.length, who.1, who.2, value⟩

/-- **Every round of `log` is a snapshot**: it reaches those who are `present` at its start. -/
structure Snapshots (log : List Happening) : Prop where
  /-- A round calls them in order of subscription, each of them once, and nobody else. -/
  rounds : ∀ i value, log[i]? = some (.started value) → callsOf i log = due value (log.take i)
  /-- Every call is one of a round that has started before, with the value of the round. The
  subscriber has subscribed before the round, and its subscription had not been ended then. -/
  called : ∀ i (call : Call), log[i]? = some (.called call) →
    call.round < i ∧ log[call.round]? = some (.started call.value) ∧
      (∃ k < call.round, ∃ react,
        log[k]? = some (.subscribed call.subscription call.name react)) ∧
      ∀ k < call.round, ∀ name, log[k]? ≠ some (.unsubscribed call.subscription name)
  /-- Numbers are handed out in order, and none of them twice. -/
  numbers : (subscriptions log).map Prod.fst = List.range (subscriptions log).length
  /-- What is ended is the subscription whose handle was stored last under the name. -/
  ends : ∀ i number name, log[i]? = some (.unsubscribed number name) →
    handle? name (log.take i) = some number
  /-- Those who are counted are those who are present. -/
  counted : ∀ i size, log[i]? = some (.counted size) → size = (present (log.take i)).length

section Logs

variable {log before more later : List Happening} {happening : Happening} {number round : Nat}
  {name : String} {value : Value} {call : Call} {own own' : List Call} {react : List (List Step)}

@[simp]
theorem subscriptions_append :
    subscriptions (log ++ more) = subscriptions log ++ subscriptions more := List.filterMap_append

@[simp]
theorem ended_append : ended (log ++ more) = ended log ++ ended more := List.filterMap_append

@[simp]
theorem calls_append : calls (log ++ more) = calls log ++ calls more := List.filterMap_append

@[simp]
theorem callsOf_append : callsOf round (log ++ more) = callsOf round log ++ callsOf round more := by
  simp [callsOf]

@[simp]
theorem callCount_append :
    callCount number (log ++ more) = callCount number log + callCount number more := by
  simp [callCount]

/-- `(number, name) ∈ subscriptions log` if and only if some
`.subscribed number name react ∈ log`. -/
theorem mem_subscriptions_iff :
    (number, name) ∈ subscriptions log ↔ ∃ react, .subscribed number name react ∈ log := by
  rw [subscriptions, List.mem_filterMap]
  constructor
  · rintro ⟨happening, hmem, heq⟩
    cases happening <;> cases heq
    exact ⟨_, hmem⟩
  · exact fun ⟨_, hmem⟩ => ⟨_, hmem, rfl⟩

/-- `number ∈ ended log` if and only if some `.unsubscribed number name ∈ log`. -/
theorem mem_ended_iff : number ∈ ended log ↔ ∃ name, .unsubscribed number name ∈ log := by
  rw [ended, List.mem_filterMap]
  constructor
  · rintro ⟨happening, hmem, heq⟩
    cases happening <;> cases heq
    exact ⟨_, hmem⟩
  · exact fun ⟨_, hmem⟩ => ⟨_, hmem, rfl⟩

/-- `call ∈ calls log` if and only if `.called call ∈ log`. -/
theorem mem_calls_iff : call ∈ calls log ↔ .called call ∈ log := by
  rw [calls, List.mem_filterMap]
  constructor
  · rintro ⟨happening, hmem, heq⟩
    cases happening <;> cases heq
    exact hmem
  · exact fun hmem => ⟨_, hmem, rfl⟩

/-- Whoever is in `present log` has subscribed, and the subscription has not been ended. -/
theorem mem_present_iff : (number, name) ∈ present log ↔
    (∃ react, .subscribed number name react ∈ log) ∧ ∀ name, .unsubscribed number name ∉ log := by
  rw [present, List.mem_filter, mem_subscriptions_iff, decide_eq_true_eq, mem_ended_iff, not_exists]

/-- `present log ⊆ subscriptions log`. -/
theorem present_subset (log : List Happening) : present log ⊆ subscriptions log :=
  fun _ hwho => (List.mem_filter.1 hwho).1

/-- `present` is the same after a happening that is neither `.subscribed` nor `.unsubscribed`. -/
theorem present_concat (hsubscriptions : subscriptions [happening] = [])
    (hended : ended [happening] = []) : present (log ++ [happening]) = present log := by
  simp [present, hsubscriptions, hended]

/-- `present` has `(number, name)` at its end after `.subscribed number name react`, for a new
number. -/
theorem present_concat_subscribed (h : number ∉ ended log) :
    present (log ++ [.subscribed number name react]) = present log ++ [(number, name)] := by
  have hsubscriptions : subscriptions [.subscribed number name react] = [(number, name)] := rfl
  have hended : ended [.subscribed number name react] = [] := rfl
  simp [present, hsubscriptions, hended, h]

/-- `present` has lost `number` and nobody else after `.unsubscribed number name`. -/
theorem present_concat_unsubscribed :
    present (log ++ [.unsubscribed number name]) = (present log).filter (·.1 ≠ number) := by
  have hsubscriptions : subscriptions [.unsubscribed number name] = [] := rfl
  have hended : ended [.unsubscribed number name] = [number] := rfl
  simp [present, hsubscriptions, hended, List.filter_filter, and_comm, not_or]

/-- `handle? name` is what the last happening stores, if it stores one, else what it was. -/
theorem handle?_concat :
    handle? name (log ++ [happening]) = (happening.stored? name).getD (handle? name log) := by
  rw [handle?, List.filterMap_append, List.filterMap_cons, List.filterMap_nil]
  cases happening.stored? name with
  | none => simp [handle?]
  | some handle => simp

/-- `handle? name log` is the number of a subscription that was made under `name`. -/
theorem mem_of_handle?_eq (h : handle? name log = some number) :
    (number, name) ∈ subscriptions log := by
  have hstored : some number ∈ log.filterMap (Happening.stored? name) :=
    List.mem_of_getLast? (Option.join_eq_some_iff.1 h)
  obtain ⟨happening, hmem, hstores⟩ := List.mem_filterMap.1 hstored
  cases happening with
  | subscribed other name' react =>
    simp only [Happening.stored?, Option.ite_none_right_eq_some, Option.some.injEq] at hstores
    obtain ⟨rfl, rfl⟩ := hstores
    exact mem_subscriptions_iff.2 ⟨react, hmem⟩
  | inert other => simp [Happening.stored?] at hstores
  | unsubscribed | started | called | counted => cases hstores

/-- `reactions number` is the same after a happening that declares none for `number`. -/
theorem reactions_concat (h : happening.react? number = none) :
    reactions number (log ++ [happening]) = reactions number log := by
  simp [reactions, List.findSome?_append, h]

/-- `reactions number` is `react` after `.subscribed number name react`, for a new number. -/
theorem reactions_concat_subscribed (h : number ∉ (subscriptions log).map Prod.fst) :
    reactions number (log ++ [.subscribed number name react]) = react := by
  have hnone : log.findSome? (Happening.react? number) = none := by
    refine List.findSome?_eq_none_iff.2 fun happening hmem => ?_
    cases happening with
    | subscribed other name' react' =>
      have hother : other ∈ (subscriptions log).map Prod.fst :=
        List.mem_map_of_mem (mem_subscriptions_iff.2 ⟨react', hmem⟩)
      have hne : other ≠ number := fun heq => h (heq ▸ hother)
      exact if_neg hne
    | unsubscribed | inert | started | called | counted => rfl
  simp [reactions, List.findSome?_append, hnone, Happening.react?]

/-! ## Stretches of a log -/

/-- **`more` is a stretch of a log after `before`**: every round that starts in `more` is complete
there (`rounds`), and of rounds that start in `before` it has just the calls `own`. -/
structure Stretch (before more : List Happening) (own : List Call) : Prop where
  own : (calls more).filter (·.round < before.length) = own
  early : ∀ call ∈ calls more, call.round < before.length + more.length
  rounds : ∀ i value, more[i]? = some (.started value) →
    callsOf (before.length + i) more = due value (before ++ more.take i)

/-- `Stretch before [] []`. -/
theorem Stretch.nil (before : List Happening) : Stretch before [] [] :=
  ⟨rfl, fun _ hcall => absurd hcall List.not_mem_nil, fun i value hround => by cases hround⟩

/-- **`Stretch` for `more` and then for `later`**, if `own'` are calls of rounds that start in
`before`. -/
theorem Stretch.append (h : Stretch before more own) (h' : Stretch (before ++ more) later own')
    (hown : ∀ call ∈ own', call.round < before.length) :
    Stretch before (more ++ later) (own ++ own') := by
  have hlength : (before ++ more).length = before.length + more.length := List.length_append
  -- What the second stretch has of earlier rounds are its own calls.
  have hearlier : ∀ call ∈ calls later, call.round < (before ++ more).length →
      call.round < before.length := fun call hcall hround =>
    hown call (h'.own ▸ List.mem_filter.2 ⟨hcall, decide_eq_true hround⟩)
  constructor
  case own =>
    rw [calls_append, List.filter_append, h.own, ← h'.own]
    congr 1
    refine List.filter_congr fun call hcall => ?_
    rw [decide_eq_decide]
    exact ⟨fun hround => by omega, hearlier call hcall⟩
  case early =>
    intro call hcall
    rw [calls_append, List.mem_append] at hcall
    rw [List.length_append]
    rcases hcall with hcall | hcall
    · have hearly := h.early call hcall
      omega
    · have hearly := h'.early call hcall
      omega
  case rounds =>
    intro i value hround
    rw [callsOf_append]
    by_cases hi : i < more.length
    · -- The round is over before the second stretch.
      rw [List.getElem?_append_left hi] at hround
      rw [List.take_append_of_le_length (by omega), ← h.rounds i value hround]
      refine (List.append_right_eq_self).2 (List.filter_eq_nil_iff.2 fun call hcall hsame => ?_)
      rw [decide_eq_true_eq] at hsame
      have hlate := hearlier call hcall (by omega)
      omega
    · -- The round has not started before the second stretch.
      have hplace : before.length + i = (before ++ more).length + (i - more.length) := by omega
      rw [List.getElem?_append_right (by omega)] at hround
      have hnone : callsOf (before.length + i) more = [] :=
        List.filter_eq_nil_iff.2 fun call hcall hsame => by
          have hearly := h.early call hcall
          rw [decide_eq_true_eq] at hsame
          omega
      have htake : more.take i = more := List.take_of_length_le (by omega)
      rw [hnone, List.nil_append, hplace, h'.rounds _ value hround, List.take_append, htake,
        List.append_assoc]

/-- `Stretch` for one happening that is neither `.called` nor `.started`. -/
theorem Stretch.single (hcall : happening.call? = none)
    (hstart : ∀ value, happening ≠ .started value) : Stretch before [happening] [] := by
  have hcalls : calls [happening] = [] := by simp [calls, hcall]
  refine ⟨by rw [hcalls]; rfl, fun call hmem => ?_, fun i value hround => ?_⟩
  · rw [hcalls] at hmem
    cases hmem
  · cases i with
    | zero => exact absurd (Option.some.inj hround) (hstart value)
    | succ i => cases hround

/-- `Stretch` for one `.called` of a round that starts in `before`. -/
theorem Stretch.called (hround : call.round < before.length) :
    Stretch before [.called call] [call] := by
  have hcalls : calls [.called call] = [call] := rfl
  refine ⟨by simp [hcalls, hround], fun other hother => ?_, fun i value hstart => ?_⟩
  · rw [hcalls, List.mem_singleton] at hother
    rw [hother]
    omega
  · cases i with
    | zero => cases hstart
    | succ i => cases hstart

/-- **`.started value` and then a stretch with the calls `due value before`** is a stretch without
calls of its own: the round is complete. -/
theorem Stretch.started
    (h : Stretch (before ++ [Happening.started value]) more (due value before)) :
    Stretch before (.started value :: more) [] := by
  have hcalls : calls (Happening.started value :: more) = calls more := rfl
  have hlength : (before ++ [Happening.started value]).length = before.length + 1 := by simp
  have hdue : ∀ call ∈ due value before, call.round = before.length := fun call hcall => by
    obtain ⟨who, -, rfl⟩ := List.mem_map.1 hcall
    rfl
  have hown := h.own
  constructor
  case own =>
    rw [hcalls, List.filter_eq_nil_iff]
    intro call hcall hround
    rw [decide_eq_true_eq] at hround
    have hmem : call ∈ due value before :=
      hown ▸ List.mem_filter.2 ⟨hcall, decide_eq_true (by omega)⟩
    have hplace := hdue call hmem
    omega
  case early =>
    intro call hcall
    have hearly := h.early call hcall
    rw [List.length_cons]
    omega
  case rounds =>
    intro i other hround
    cases i with
    | zero =>
      cases hround
      -- All that is due has been called, and the stretch has no other calls of this round.
      rw [Nat.add_zero, List.take_zero, List.append_nil, ← hown, callsOf, hcalls]
      refine List.filter_congr fun call hcall => ?_
      rw [decide_eq_decide]
      constructor
      · intro hplace
        omega
      · intro hplace
        exact hdue call (hown ▸ List.mem_filter.2 ⟨hcall, decide_eq_true hplace⟩)
    | succ i =>
      have hrest := h.rounds i other hround
      rw [hlength, List.append_assoc] at hrest
      have hplace : before.length + (i + 1) = before.length + 1 + i := by omega
      rw [hplace, List.take_succ_cons]
      exact hrest

/-! ## Logs that fit -/

/-- **A happening fits what is in front of it**: the number of `.subscribed` is the next one, that
of `.unsubscribed` is `handle? name`, a `.called` is of somebody in `present` at the start of its
round, with the value of the round, and `.counted` has the length of `present`. -/
def Fits (before : List Happening) : Happening → Prop
  | .subscribed number _ _ => number = (subscriptions before).length
  | .unsubscribed number name => handle? name before = some number
  | .called call => before[call.round]? = some (.started call.value) ∧
    (call.subscription, call.name) ∈ present (before.take call.round)
  | .counted size => size = (present before).length
  | _ => True

/-- **Every happening of `log` `Fits` what is in front of it.** -/
def AllFit (log : List Happening) : Prop :=
  ∀ i happening, log[i]? = some happening → Fits (log.take i) happening

/-- `AllFit []`. -/
theorem AllFit.nil : AllFit [] := fun i happening hat => by cases hat

/-- `AllFit (log ++ [happening])` if and only if `AllFit log` and `Fits log happening`. -/
theorem allFit_concat_iff : AllFit (log ++ [happening]) ↔ AllFit log ∧ Fits log happening := by
  constructor
  · intro h
    refine ⟨fun i other hat => ?_, ?_⟩
    · have hi := (List.getElem?_eq_some_iff.1 hat).1
      rw [← List.take_append_of_le_length (Nat.le_of_lt hi)]
      exact h i other (by rwa [List.getElem?_append_left hi])
    · have hlast := h log.length happening (by simp)
      rwa [List.take_left] at hlast
  · rintro ⟨h, hnew⟩ i other hat
    by_cases hi : i < log.length
    · rw [List.getElem?_append_left hi] at hat
      rw [List.take_append_of_le_length (by omega)]
      exact h i other hat
    · rw [List.getElem?_append_right (by omega), List.getElem?_singleton] at hat
      split at hat
      · cases hat
        have hlast : i = log.length := by omega
        rw [hlast, List.take_left]
        exact hnew
      · cases hat

/-- **The numbers in `subscriptions log` are 0, 1, 2, and so on.** -/
theorem AllFit.numbers (h : AllFit log) :
    (subscriptions log).map Prod.fst = List.range (subscriptions log).length := by
  induction log using List.reverseRecOn with
  | nil => rfl
  | append_singleton log happening ih =>
    obtain ⟨hlog, hfits⟩ := allFit_concat_iff.1 h
    cases happening with
    | subscribed number name react =>
      have hnew : subscriptions [.subscribed number name react] = [(number, name)] := rfl
      have hnumber : number = (subscriptions log).length := hfits
      rw [subscriptions_append, hnew, List.map_append, ih hlog, List.length_append,
        List.length_singleton, List.range_succ, hnumber]
      rfl
    | unsubscribed | inert | started | called | counted =>
      rw [subscriptions_append, show subscriptions [_] = [] from rfl, List.append_nil]
      exact ih hlog

/-- A number in `subscriptions log` is less than its length. -/
theorem AllFit.lt_of_mem (h : AllFit log) (hmem : (number, name) ∈ subscriptions log) :
    number < (subscriptions log).length := by
  have hnumber : number ∈ (subscriptions log).map Prod.fst := List.mem_map_of_mem hmem
  rwa [h.numbers, List.mem_range] at hnumber

/-- `subscriptions (log.take i) ⊆ subscriptions log`. -/
theorem mem_subscriptions_of_take {who : Nat × String} {i : Nat}
    (h : who ∈ subscriptions (log.take i)) : who ∈ subscriptions log := by
  rw [← List.take_append_drop i log, subscriptions_append]
  exact List.mem_append_left _ h

/-- A number in `ended log` is less than the length of `subscriptions log`. -/
theorem AllFit.lt_of_mem_ended (h : AllFit log) (hended : number ∈ ended log) :
    number < (subscriptions log).length := by
  obtain ⟨name, hmem⟩ := mem_ended_iff.1 hended
  obtain ⟨i, hat⟩ := List.getElem?_of_mem hmem
  exact h.lt_of_mem (mem_subscriptions_of_take (mem_of_handle?_eq (h i _ hat)))

/-- A number in `calls log` is less than the length of `subscriptions log`. -/
theorem AllFit.lt_of_mem_calls (h : AllFit log) (hcall : call ∈ calls log) :
    call.subscription < (subscriptions log).length := by
  obtain ⟨i, hat⟩ := List.getElem?_of_mem (mem_calls_iff.1 hcall)
  obtain ⟨-, hpresent⟩ := h i _ hat
  exact h.lt_of_mem (mem_subscriptions_of_take
    (mem_subscriptions_of_take (present_subset _ hpresent)))

/-- **`AllFit log` and `Stretch [] log []` give `Snapshots log`.** -/
theorem AllFit.snapshots (h : AllFit log) (hrounds : Stretch [] log []) : Snapshots log := by
  refine ⟨fun i value hstart => ?rounds, fun i call hcall => ?called, h.numbers,
    fun i number name => h i (.unsubscribed number name), fun i size => h i (.counted size)⟩
  case rounds =>
    have hround := hrounds.rounds i value hstart
    rwa [List.length_nil, Nat.zero_add, List.nil_append] at hround
  case called =>
    obtain ⟨hstart, hpresent⟩ := h i _ hcall
    have hbefore : call.round < i := by
      have hlt := (List.getElem?_eq_some_iff.1 hstart).1
      rw [List.length_take] at hlt
      omega
    rw [List.getElem?_take_of_lt hbefore] at hstart
    rw [List.take_take, Nat.min_eq_left (Nat.le_of_lt hbefore)] at hpresent
    obtain ⟨⟨react, hsubscribed⟩, hunended⟩ := mem_present_iff.1 hpresent
    refine ⟨hbefore, hstart, ?_, fun k hk name hend => hunended name ?_⟩
    · obtain ⟨k, hat⟩ := List.getElem?_of_mem hsubscribed
      have hk := (List.getElem?_eq_some_iff.1 hat).1
      rw [List.length_take] at hk
      have hlt : k < call.round := by omega
      rw [List.getElem?_take_of_lt hlt] at hat
      exact ⟨k, hlt, react, hat⟩
    · rw [← List.getElem?_take_of_lt hk] at hend
      exact List.mem_of_getElem? hend

end Logs

end Statechart.Listeners
