import Statechart.Proofs.Listeners.Depth
import Statechart.Proofs.Listeners.Trace

/-! # Rounds are snapshots

A notification reaches those who are present when it starts, whatever the subscribers do when they
are called. They may subscribe others, end subscriptions, their own included, and notify again, so
rounds nest, and a round goes through its list while the list of subscribers changes. A round works
on the numbers it has found at its start, and numbers stay with their subscribers, because none is
handed out twice.

* `Listeners.Board.Sound`: the `callbacks`, `listeners` and `handles` of a board are what its `log`
  says.
* `Listeners.Board.Becomes`: what has been added to the log is as required, and the board is sound.
* `Listeners.Faithful`: a way to perform steps adds what `Performs` says.
* `Listeners.Board.Sound.becomes_step`, **`Listeners.becomes_runSteps`**: `Board.step` adds what
  `Takes` says, and so `runSteps` adds what `Performs` says, if it has more depth than runs.
* **`Listeners.rounds_are_snapshots`**: the log of a script is the one that `Performs` gives, and
  its rounds are snapshots. -/

namespace Statechart.Listeners

/-! ## Boards that agree with their logs -/

/-- **The board agrees with its `log`**: `AllFit` holds, and `callbacks`, `listeners` and `handles`
are what the log says. -/
structure Board.Sound (board : Board) : Prop where
  fits : AllFit board.log.toList
  /-- There is one callback for each subscription. -/
  size : (subscriptions board.log.toList).length = board.callbacks.size
  /-- It stands at the number of the subscription, under the name of the subscriber, and performs
  what has been declared there and not been performed yet. -/
  callbacks : ∀ number name, (number, name) ∈ subscriptions board.log.toList →
    board.callbacks[number]? = some ⟨name,
      (reactions number board.log.toList).drop (callCount number board.log.toList)⟩
  next : board.listeners.next = board.callbacks.size
  /-- The list holds those who are present. -/
  entries : board.listeners.entries = (present board.log.toList).map fun who => (who.1, who.1)
  /-- A handle is the one that was stored last under its name. -/
  handles : ∀ name, (board.handles.get? name).join = handle? name board.log.toList

/-- **`board` becomes `board'`**: `board'` is `Sound`, and its log has some `more` at the end with
`Written more`. -/
def Board.Becomes (Written : List Happening → Prop) (board board' : Board) : Prop :=
  board'.Sound ∧ ∃ more, board'.log.toList = board.log.toList ++ more ∧ Written more

/-- **`perform` is faithful**: on a `Sound` board with fewer runs left than `bound` it writes down
what `Performs` says. -/
def Faithful (bound : Nat) (perform : List Step → Board → Board) : Prop :=
  ∀ steps (board : Board), board.Sound → Step.totalRuns steps + board.runsLeft < bound →
    Board.Becomes (Performs board.log.toList steps) board (perform steps board)

section Boards

variable {board board' : Board} {before : List Happening} {happening : Happening}
  {perform perform' : List Step → Board → Board} {bound : Nat}

/-- The empty board is `Sound`. -/
theorem Board.Sound.empty : Board.Sound {} :=
  ⟨.nil, rfl, fun _ _ hmem => absurd hmem List.not_mem_nil, rfl, rfl, fun _ => rfl⟩

@[simp]
theorem Board.toList_log_note (board : Board) (happening : Happening) :
    (board.note happening).log.toList = board.log.toList ++ [happening] := Array.toList_push

/-- The next number, `board.callbacks.size`, is not in `subscriptions`. -/
theorem Board.Sound.size_notMem (h : board.Sound) :
    board.callbacks.size ∉ (subscriptions board.log.toList).map Prod.fst := by
  rw [h.fits.numbers, h.size, List.mem_range]
  exact Nat.lt_irrefl _

/-- The next number, `board.callbacks.size`, has not been called. -/
theorem Board.Sound.callCount_size (h : board.Sound) :
    callCount board.callbacks.size board.log.toList = 0 := by
  rw [callCount, List.countP_eq_zero]
  intro call hcall hsame
  have hlt := h.fits.lt_of_mem_calls hcall
  rw [h.size, of_decide_eq_true hsame] at hlt
  exact Nat.lt_irrefl _ hlt

/-- `Sound` after a happening that is neither `.subscribed` nor `.called`, if `listeners` and
`handles` follow. -/
theorem Board.Sound.of_concat (h : board.Sound)
    (hlog : board'.log.toList = board.log.toList ++ [happening])
    (hfits : Fits board.log.toList happening) (hsubscriptions : subscriptions [happening] = [])
    (hcalls : calls [happening] = []) (hcallbacks : board'.callbacks = board.callbacks)
    (hnext : board'.listeners.next = board.listeners.next)
    (hentries : board'.listeners.entries =
      (present (board.log.toList ++ [happening])).map fun who => (who.1, who.1))
    (hhandles : ∀ name, (board'.handles.get? name).join =
      handle? name (board.log.toList ++ [happening])) : board'.Sound := by
  have hsame : subscriptions board'.log.toList = subscriptions board.log.toList := by
    simp [hlog, hsubscriptions]
  have hreact : ∀ number, happening.react? number = none := fun number => by
    cases happening with
    | subscribed => cases hsubscriptions
    | unsubscribed | inert | started | called | counted => rfl
  refine ⟨hlog ▸ allFit_concat_iff.2 ⟨h.fits, hfits⟩, ?size, fun number name hmem => ?callbacks,
    ?next, hlog ▸ hentries, hlog ▸ hhandles⟩
  case size =>
    rw [hsame, hcallbacks]
    exact h.size
  case callbacks =>
    rw [hsame] at hmem
    have hcount : callCount number [happening] = 0 := by simp [callCount, hcalls]
    rw [hcallbacks, hlog, reactions_concat (hreact number), callCount_append, hcount]
    exact h.callbacks number name hmem
  case next =>
    rw [hnext, hcallbacks]
    exact h.next

/-- A board stays sound when something is written down with which nobody comes or goes and no handle
is stored. -/
theorem Board.Sound.note (h : board.Sound) (hfits : Fits board.log.toList happening)
    (hsubscriptions : subscriptions [happening] = []) (hended : ended [happening] = [])
    (hcalls : calls [happening] = []) (hstored : ∀ name, happening.stored? name = none) :
    (board.note happening).Sound := by
  refine h.of_concat (board.toList_log_note happening) hfits hsubscriptions hcalls rfl rfl ?entries
    fun name => ?handles
  case entries =>
    rw [present_concat hsubscriptions hended]
    exact h.entries
  case handles =>
    rw [handle?_concat, hstored, Option.getD_none]
    exact h.handles name

/-! ## Calls -/

/-- `board.leave place callback callback.react` is `board`. -/
theorem Board.leave_self {place : Nat} {callback : Callback}
    (hcallback : board.callbacks[place]? = some callback) :
    board.leave place callback callback.react = board := by
  obtain ⟨hplace, hat⟩ := Array.getElem?_eq_some_iff.1 hcallback
  have hsame : board.callbacks.setIfInBounds place callback = board.callbacks := by
    apply Array.ext_getElem?
    intro i
    rw [Array.getElem?_setIfInBounds]
    by_cases hi : place = i
    · rw [if_pos hi, if_pos hplace, ← hi, hcallback]
    · rw [if_neg hi]
  exact congrArg (fun callbacks => { board with callbacks }) hsame

/-- **`Sound` after `.called call`**, if the call fits and `leave` takes one list of steps from the
subscriber. -/
theorem Board.Sound.called (h : board.Sound) {call : Call} {callback : Callback}
    (hfits : Fits board.log.toList (.called call))
    (hcallback : board.callbacks[call.subscription]? = some callback) :
    ((board.note (.called call)).leave call.subscription callback callback.react.tail).Sound := by
  have hlog : ((board.note (.called call)).leave call.subscription callback
      callback.react.tail).log.toList = board.log.toList ++ [.called call] :=
    Board.toList_log_note ..
  have hsame : subscriptions (board.log.toList ++ [.called call]) =
      subscriptions board.log.toList := by simp [subscriptions]
  have hsize : ((board.note (.called call)).leave call.subscription callback
      callback.react.tail).callbacks.size = board.callbacks.size := Array.size_setIfInBounds
  constructor
  case fits =>
    rw [hlog]
    exact allFit_concat_iff.2 ⟨h.fits, hfits⟩
  case size =>
    rw [hlog, hsame, hsize]
    exact h.size
  case callbacks =>
    intro number name hmem
    rw [hlog, hsame] at hmem
    have hbefore := h.callbacks number name hmem
    have hreactions : reactions number (board.log.toList ++ [.called call]) =
      reactions number board.log.toList := reactions_concat rfl
    have hcalls : calls [.called call] = [call] := rfl
    rw [hlog, hreactions, callCount_append]
    by_cases hnumber : call.subscription = number
    · -- The one that is called has one list less, as the log has one call more.
      rw [← hnumber, hcallback] at hbefore
      cases hbefore
      have hone : callCount number [.called call] = 1 := by simp [callCount, hcalls, hnumber]
      have hplace : number < board.callbacks.size :=
        hnumber ▸ (Array.getElem?_eq_some_iff.1 hcallback).1
      simp only [Board.leave, Board.note, Array.getElem?_setIfInBounds, hnumber, hplace, if_true,
        List.tail_drop, hone]
    · have hnone : callCount number [.called call] = 0 := by simp [callCount, hcalls, hnumber]
      simp only [Board.leave, Board.note, Array.getElem?_setIfInBounds, hnumber, if_false, hnone,
        Nat.add_zero]
      exact hbefore
  case next =>
    rw [hsize]
    exact h.next
  case entries =>
    rw [hlog, present_concat rfl rfl]
    exact h.entries
  case handles =>
    intro name
    rw [hlog, handle?_concat]
    exact h.handles name

/-- `reaction number log` is the first of `callback.react`, for the lists before it are as many as
the calls so far. -/
theorem Board.Sound.reaction_eq (h : board.Sound) {number : Nat} {name : String}
    {callback : Callback} (hwho : (number, name) ∈ subscriptions board.log.toList)
    (hcallback : board.callbacks[number]? = some callback) :
    reaction number board.log.toList = callback.react.headD [] := by
  have hsame := h.callbacks number name hwho
  rw [hcallback] at hsame
  cases hsame
  rw [reaction, ← List.head?_drop, List.headD_eq_head?_getD]

/-- **`Board.call` writes down the call and what the subscriber `Performs`**: `reaction` at that
time. -/
theorem Board.Sound.becomes_call (h : board.Sound) (hperform : Faithful bound perform)
    (hbound : board.runsLeft ≤ bound) {call : Call}
    (hfits : Fits board.log.toList (.called call)) :
    Board.Becomes (fun more => ∃ later, more = .called call :: later ∧
      Performs (board.log.toList ++ [.called call]) (reaction call.subscription board.log.toList)
        later) board
      (board.call perform call.round call.value (call.subscription, call.subscription)) := by
  have hwho : (call.subscription, call.name) ∈ subscriptions board.log.toList :=
    mem_subscriptions_of_take (present_subset _ hfits.2)
  have hcallback := h.callbacks _ _ hwho
  obtain ⟨callback, hat⟩ : ∃ callback, board.callbacks[call.subscription]? = some callback :=
    ⟨_, hcallback⟩
  have hname : callback.name = call.name := by
    rw [hat] at hcallback
    cases hcallback
    rfl
  have hsound := h.called hfits hat
  unfold Board.call
  rw [h.reaction_eq hwho hat]
  simp only [hat, hname]
  cases hreact : callback.react with
  | nil =>
    have hself : (board.note (.called call)).leave call.subscription callback [] =
        board.note (.called call) := hreact ▸ Board.leave_self hat
    rw [hreact, List.tail_nil, hself] at hsound
    exact ⟨hsound, _, Board.toList_log_note .., [], rfl, .nil⟩
  | cons steps rest =>
    rw [hreact, List.tail_cons] at hsound
    -- The run at hand counts for itself, so fewer are left than before.
    have hruns : Step.totalRuns steps + 1 +
        ((board.note (.called call)).leave call.subscription callback rest).runsLeft =
          board.runsLeft := Board.runsLeft_leave hat hreact
    obtain ⟨hlast, later, hlater, hperforms⟩ := hperform steps _ hsound (by omega)
    have hlog : ((board.note (.called call)).leave call.subscription callback rest).log.toList =
        board.log.toList ++ [.called call] := Board.toList_log_note ..
    rw [hlog] at hlater hperforms
    rw [List.append_assoc] at hlater
    exact ⟨hlast, _, hlater, later, rfl, hperforms⟩

/-- **`Board.call` along `who` writes down what `Reaches` says**, for a part `who` of those who were
`present` when the round started. -/
theorem Board.Sound.becomes_calls (h : board.Sound) (hperform : Faithful bound perform)
    (hagree : Agree bound perform perform') (hbound : board.runsLeft ≤ bound) {value : Value}
    {who : List (Nat × String)} (hwho : who ⊆ present before)
    (hstarted : before ++ [.started value] <+: board.log.toList) :
    Board.Becomes (Reaches before.length value who board.log.toList) board
      ((who.map fun who => (who.1, who.1)).foldl (Board.call perform before.length value)
        board) := by
  induction who generalizing board with
  | nil => exact ⟨h, [], (List.append_nil _).symm, .over⟩
  | cons first rest ih =>
    obtain ⟨hfirst, hrest⟩ := List.cons_subset.1 hwho
    obtain ⟨since, hsince⟩ := hstarted
    have hfits : Fits board.log.toList (.called ⟨before.length, first.1, first.2, value⟩) := by
      rw [← hsince]
      exact ⟨by simp, by simpa using hfirst⟩
    obtain ⟨hsound, _, hmore, later, rfl, hperforms⟩ := h.becomes_call hperform hbound hfits
    have hleft := (hagree.call hbound before.length value (first.1, first.1)).2
    obtain ⟨hlast, others, hothers, hreaches⟩ := ih hsound (Nat.le_trans hleft hbound) hrest
      ⟨since ++ .called ⟨before.length, first.1, first.2, value⟩ :: later, by
        rw [hmore, ← hsince, List.append_assoc _ since]⟩
    rw [hmore] at hothers hreaches
    refine ⟨hlast, .called ⟨before.length, first.1, first.2, value⟩ :: (later ++ others), ?_,
      .next hperforms hreaches⟩
    rw [List.map_cons, List.foldl_cons, hothers, List.append_assoc]
    rfl

/-! ## Steps -/

/-- **`Board.notify` writes down what `Takes` says for `.notify`**: a round of `present`. -/
theorem Board.Sound.becomes_notify (h : board.Sound) (hperform : Faithful bound perform)
    (hagree : Agree bound perform perform') (hbound : board.runsLeft ≤ bound) (value : Value) :
    Board.Becomes (Takes board.log.toList (.notify value)) board (board.notify perform value) := by
  have hsound : (board.note (.started value)).Sound :=
    h.note trivial rfl rfl rfl fun _ => rfl
  have hlog := board.toList_log_note (.started value)
  obtain ⟨hlast, more, hmore, hreaches⟩ := hsound.becomes_calls hperform hagree hbound
    (List.Subset.refl _) ⟨[], by rw [hlog, List.append_nil]⟩
  rw [hlog] at hmore hreaches
  unfold Board.notify
  rw [h.entries, ← Array.length_toList]
  exact ⟨hlast, .started value :: more, by rw [hmore, List.append_assoc]; rfl, .notify hreaches⟩

/-- **`Board.step` writes down what `Takes` says for `.subscribe`**: a subscription with the next
number. -/
theorem Board.Sound.becomes_subscribe (h : board.Sound) (name : String)
    (react : List (List Step)) :
    Board.Becomes (Takes board.log.toList (.subscribe name react)) board
      (board.step perform (.subscribe name react)) := by
  have hnumber : board.listeners.next = board.callbacks.size := h.next
  have hlog : (board.step perform (.subscribe name react)).log.toList =
      board.log.toList ++ [.subscribed board.callbacks.size name react] := by
    rw [← hnumber]
    exact Board.toList_log_note ..
  have hnew : subscriptions [.subscribed board.callbacks.size name react] =
      [(board.callbacks.size, name)] := rfl
  have hsize : (board.step perform (.subscribe name react)).callbacks.size =
      board.callbacks.size + 1 := Array.size_push _
  refine ⟨?sound, _, hlog, h.size ▸ .subscribe⟩
  constructor
  case fits =>
    rw [hlog]
    exact allFit_concat_iff.2 ⟨h.fits, h.size.symm⟩
  case size =>
    rw [hlog, subscriptions_append, hnew, List.length_append, h.size, hsize]
    rfl
  case callbacks =>
    intro number other hmem
    rw [hlog, subscriptions_append, hnew, List.mem_append, List.mem_singleton] at hmem
    rw [hlog, callCount_append]
    rcases hmem with hmem | hmem
    · -- The callbacks of those who have subscribed before are where they were.
      have hlt : number < board.callbacks.size := h.size ▸ h.fits.lt_of_mem hmem
      have hother : Happening.react? number (.subscribed board.callbacks.size name react) = none :=
        if_neg (Nat.ne_of_gt hlt)
      rw [reactions_concat hother]
      simp only [Board.step, Array.getElem?_push, Nat.ne_of_lt hlt, if_false]
      exact h.callbacks number other hmem
    · cases hmem
      rw [reactions_concat_subscribed h.size_notMem, h.callCount_size]
      have hcalls : calls [.subscribed board.callbacks.size name react] = [] := rfl
      simp [Board.step, callCount, hcalls]
  case next =>
    rw [hsize, ← hnumber]
    rfl
  case entries =>
    have hunended : board.callbacks.size ∉ ended board.log.toList := fun hended =>
      Nat.lt_irrefl _ (h.size ▸ h.fits.lt_of_mem_ended hended)
    rw [hlog, present_concat_subscribed hunended, List.map_append, ← h.entries]
    simp [Board.step, Listeners.subscribe, hnumber]
  case handles =>
    intro other
    rw [hlog, handle?_concat, ← h.handles other]
    simp only [Board.step, Listeners.subscribe, Dict.get?_insert, Happening.stored?, hnumber]
    by_cases hsame : name = other
    · rw [if_pos hsame, if_pos hsame.symm]
      rfl
    · rw [if_neg hsame, if_neg fun heq => hsame heq.symm]
      rfl

/-- **`Board.step` writes down what `Takes` says for `.unsubscribe`**: the end of `handle? name`, if
there is one. -/
theorem Board.Sound.becomes_unsubscribe (h : board.Sound) (name : String) :
    Board.Becomes (Takes board.log.toList (.unsubscribe name)) board
      (board.step perform (.unsubscribe name)) := by
  have hhandle := h.handles name
  simp only [Board.step]
  split
  · rename_i number hheld
    rw [hheld, Option.join_some] at hhandle
    refine ⟨h.of_concat (board.toList_log_note (.unsubscribed number name)) hhandle.symm rfl rfl rfl
      rfl ?_ fun other => ?_, _, Board.toList_log_note .., .unsubscribe hhandle.symm⟩
    · rw [present_concat_unsubscribed]
      simp only [Listeners.unsubscribe, h.entries, List.filter_map]
      rfl
    · rw [handle?_concat]
      exact h.handles other
  · rename_i hheld
    have hnone : handle? name board.log.toList = none := by
      rw [← hhandle, Option.join_eq_none_iff]
      cases hget : board.handles.get? name with
      | none => exact .inl rfl
      | some handle =>
        cases handle with
        | none => exact .inr rfl
        | some number => exact absurd hget (hheld number)
    exact ⟨h, [], (List.append_nil _).symm, .unheld hnone⟩

/-- `Board.step` writes down what `Takes` says for `.inert`: no subscription, and a handle to
nothing. -/
theorem Board.Sound.becomes_inert (h : board.Sound) (name : String) :
    Board.Becomes (Takes board.log.toList (.inert name)) board
      (board.step perform (.inert name)) := by
  refine ⟨h.of_concat (board.toList_log_note (.inert name)) trivial rfl rfl rfl rfl ?_
    fun other => ?_, _, Board.toList_log_note .., .inert⟩
  · rw [present_concat rfl rfl]
    exact h.entries
  · rw [handle?_concat, ← h.handles other]
    simp only [Board.step, Dict.get?_insert, Happening.stored?]
    by_cases hsame : name = other
    · rw [if_pos hsame, if_pos hsame.symm]
      rfl
    · rw [if_neg hsame, if_neg fun heq => hsame heq.symm]
      rfl

/-- **`Board.step` writes down what `Takes` says.** -/
theorem Board.Sound.becomes_step (h : board.Sound) (hperform : Faithful bound perform)
    (hagree : Agree bound perform perform') (step : Step)
    (hbound : step.runs + board.runsLeft ≤ bound) :
    Board.Becomes (Takes board.log.toList step) board (board.step perform step) := by
  cases step with
  | subscribe name react => exact h.becomes_subscribe name react
  | unsubscribe name => exact h.becomes_unsubscribe name
  | inert name => exact h.becomes_inert name
  | notify value =>
    have hruns : (Step.notify value).runs = 0 := rfl
    rw [hruns, Nat.zero_add] at hbound
    exact h.becomes_notify hperform hagree hbound value
  | count =>
    -- What is counted is what the log says, since the list holds those who are present.
    have hcount : board.listeners.size = (present board.log.toList).length := by
      rw [Listeners.size, h.entries, List.length_map]
    refine ⟨h.note hcount rfl rfl rfl fun _ => rfl, _, Board.toList_log_note .., ?_⟩
    rw [hcount]
    exact .count

/-- **`runSteps depth` is `Faithful depth`**, by induction on `depth`. -/
theorem becomes_runSteps (depth : Nat) : Faithful depth (runSteps depth) := by
  -- Subscribers perform their steps one level deeper, so the induction is on the depth first.
  induction depth with
  | zero => exact fun _ _ _ hbound => absurd hbound (Nat.not_lt_zero _)
  | succ depth ih =>
    intro steps board h hbound
    rw [runSteps]
    induction steps generalizing board with
    | nil => exact ⟨h, [], (List.append_nil _).symm, .nil⟩
    | cons step rest ihsteps =>
      rw [Step.totalRuns] at hbound
      have hone : step.runs + board.runsLeft ≤ depth := by omega
      obtain ⟨hsound, more, hmore, htakes⟩ := h.becomes_step ih (agree_runSteps depth) step hone
      have hleft := ((agree_runSteps depth).step step hone).2
      obtain ⟨hlast, later, hlater, hperforms⟩ := ihsteps _ hsound (by omega)
      rw [hmore] at hlater hperforms
      exact ⟨hlast, more ++ later, hlater.trans (List.append_assoc ..), .cons htakes hperforms⟩

end Boards

/-! ## Scripts -/

/-- **Rounds are snapshots.** Let `depth` exceed `Step.totalRuns steps`; then a script is performed
to its end, and more `depth` changes nothing. Its log is the one and only that `Performs` gives, so
each `.notify value` has called those in `present` one after the other, and what they did in their
calls is between these. In the log every round makes the calls that are `due`, and there are no
others: a subscription gets only what is sent between its start and its first end. The list holds
those who are present, and as many are counted. -/
theorem rounds_are_snapshots (steps : List Step) (depth : Nat)
    (hdepth : Step.totalRuns steps < depth) :
    runSteps depth steps {} = runSteps (Step.totalRuns steps + 1) steps {} ∧
    (∀ log, Performs [] steps log ↔ log = (runSteps depth steps {}).log.toList) ∧
    Snapshots (runSteps depth steps {}).log.toList ∧
    (runSteps depth steps {}).listeners.entries.map Prod.fst =
      (present (runSteps depth steps {}).log.toList).map Prod.fst ∧
    (runSteps depth steps {}).listeners.size =
      (present (runSteps depth steps {}).log.toList).length := by
  obtain ⟨hsound, more, hmore, hperforms⟩ :=
    becomes_runSteps depth steps {} Board.Sound.empty hdepth
  -- The board is empty to begin with, so that its log is what has been written down since.
  have hlog : (runSteps depth steps {}).log.toList = more := hmore
  refine ⟨runSteps_eq_of_totalRuns_lt steps hdepth, fun log => ?_, ?_, ?_, ?_⟩
  · rw [hlog]
    exact ⟨fun h => h.unique hperforms, fun heq => heq ▸ hperforms⟩
  · exact hsound.fits.snapshots (hlog ▸ hperforms.stretch)
  · rw [hsound.entries, List.map_map]
    rfl
  · rw [Listeners.size, hsound.entries, List.length_map]

/-- Two guests. The first one unsubscribes when it is called, subscribes another one and notifies
again. -/
def party : List Step :=
  [.subscribe "first" [[.unsubscribe "first", .subscribe "other" [], .notify .null]],
    .subscribe "second" [], .notify (.bool true)]

/-- The log of `party`: the round of `null` at 6 is inside that of `true` at 2. -/
def partyLog : List Happening :=
  [.subscribed 0 "first" [[.unsubscribe "first", .subscribe "other" [], .notify .null]],
    .subscribed 1 "second" [],
    .started (.bool true),
      .called ⟨2, 0, "first", .bool true⟩,
        .unsubscribed 0 "first",
        .subscribed 2 "other" [],
        .started .null,
          .called ⟨6, 1, "second", .null⟩,
          .called ⟨6, 2, "other", .null⟩,
      .called ⟨2, 1, "second", .bool true⟩]

/-- `rounds_are_snapshots` for `party`. The round of `true` still reaches the second guest after the
first one has left, and not the other one, which the round of `null` reaches. -/
theorem party_rounds : Step.totalRuns party < 2 ∧
    (runSteps 2 party {}).log.toList = partyLog ∧
    (∀ log, Performs [] party log ↔ log = partyLog) ∧ Snapshots partyLog ∧
    callsOf 2 partyLog = [⟨2, 0, "first", .bool true⟩, ⟨2, 1, "second", .bool true⟩] ∧
    callsOf 6 partyLog = [⟨6, 1, "second", .null⟩, ⟨6, 2, "other", .null⟩] ∧
    (runSteps 2 party {}).listeners.entries.map Prod.fst = [1, 2] ∧
    (runSteps 2 party {}).listeners.size = 2 := by
  have hdepth : Step.totalRuns party < 2 := by decide
  have hlog : (runSteps 2 party {}).log.toList = partyLog := rfl
  have hpresent : present partyLog = [(1, "second"), (2, "other")] := rfl
  obtain ⟨-, hperforms, hsnapshots, hentries, hsize⟩ := rounds_are_snapshots party 2 hdepth
  rw [hlog] at hperforms hsnapshots
  rw [hlog, hpresent] at hentries hsize
  exact ⟨hdepth, hlog, hperforms, hsnapshots, rfl, rfl, hentries, hsize⟩

end Statechart.Listeners
