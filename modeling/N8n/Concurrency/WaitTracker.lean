import N8n.Lib.Dict
import N8n.Lib.Lts

/-!
# The wait tracker

`packages/cli/src/wait-tracker.ts`: on the leader, polls find the executions that wait, and set a
timeout that starts each of them.

* `WaitTracker`: the map of the tracker, its timeouts and intervals and the calls under way;
* `WaitTracker.Event`, `WaitTracker.step`: what happens to them, one step to an `await`;
* `WaitTracker.NotForgotten`: what is claimed of a run;
* `WaitTracker.notForgotten`: a condition on `stopTracking` under which it holds;
* `WaitTracker.stale_entry`: a run that forgets an execution.
-/

namespace N8n

/-- What a poll reads of an execution. -/
structure WaitingExecution where
  id : String
  waitTill : Option ℤ

structure WaitTracker where
  /-- The timeout of each entry. -/
  waitingExecutions : Dict String ℕ := .empty
  mainTimer : Option ℕ := none
  isPolling : Bool := false
  /-- The intervals that have not been cleared. -/
  intervals : List ℕ := []
  /-- The timeouts that have neither fired nor been cleared. -/
  timeouts : List ℕ := []
  /-- The execution that a timeout starts. -/
  callback : ℕ → String := fun _ => ""
  nextTimer : ℕ := 0
  /-- The calls of `startExecution` under way. -/
  starting : List String := []

namespace WaitTracker

/-! ### Timers -/

/-- `setTimeout(() => void this.startExecution(executionId), …)`, and the new entry. -/
def setTimeout (s : WaitTracker) (executionId : String) : WaitTracker :=
  { s with
    waitingExecutions := s.waitingExecutions.set executionId s.nextTimer
    timeouts := s.timeouts ++ [s.nextTimer]
    callback := Function.update s.callback s.nextTimer executionId
    nextTimer := s.nextTimer + 1 }

def clearTimeout (s : WaitTracker) (timer : ℕ) : WaitTracker :=
  { s with timeouts := s.timeouts.filter (· ≠ timer) }

/-! ### Polls -/

/-- `getWaitingExecutions` up to its queries. -/
def getWaitingExecutions (s : WaitTracker) : WaitTracker :=
  if s.isPolling then s else { s with isPolling := true }

/-- One turn of the loop of a poll. -/
def trackExecution (s : WaitTracker) (execution : WaitingExecution) : WaitTracker :=
  match execution.waitTill with
  | none => s
  | some _ => s.setTimeout execution.id

/-- `getWaitingExecutions` goes on after its queries. -/
def polled (s : WaitTracker) (executions : List WaitingExecution) : WaitTracker :=
  if s.isPolling then
    let newExecutions := executions.filter fun e => (s.waitingExecutions.get? e.id).isNone
    { newExecutions.foldl trackExecution s with isPolling := false }
  else s

/-- A query of `getWaitingExecutions` fails. -/
def pollFailed (s : WaitTracker) : WaitTracker := { s with isPolling := false }

/-! ### Tracking -/

def startTracking (s : WaitTracker) : WaitTracker :=
  { s with
    mainTimer := some s.nextTimer
    intervals := s.intervals ++ [s.nextTimer]
    nextTimer := s.nextTimer + 1 }.getWaitingExecutions

def stopTracking (s : WaitTracker) : WaitTracker :=
  match s.mainTimer with
  | none => s
  | some mainTimer =>
    s.waitingExecutions.values.foldl clearTimeout
      { s with intervals := s.intervals.filter (· ≠ mainTimer) }

/-! ### Executions -/

def stopExecution (s : WaitTracker) (executionId : String) : WaitTracker :=
  match s.waitingExecutions.get? executionId with
  | none => s
  | some timer =>
    { s.clearTimeout timer with waitingExecutions := s.waitingExecutions.erase executionId }

/-- A call of `startExecution` begins. -/
def startExecution (s : WaitTracker) (executionId : String) : WaitTracker :=
  { s with starting := executionId :: s.starting }

/-- The `finally` of a call of `startExecution`. -/
def executionStarted (s : WaitTracker) (executionId : String) : WaitTracker :=
  if executionId ∈ s.starting then
    { s with
      starting := s.starting.erase executionId
      waitingExecutions := s.waitingExecutions.erase executionId }
  else s

/-! ### Runs -/

inductive Event
  | startTracking
  | stopTracking
  /-- An interval fires. -/
  | interval (timer : ℕ)
  | polled (executions : List WaitingExecution)
  | pollFailed
  /-- A timeout fires. -/
  | timeout (timer : ℕ)
  | startExecution (executionId : String)
  | executionStarted (executionId : String)
  | stopExecution (executionId : String)

/-- What an event does; one that cannot happen changes nothing. -/
def step (s : WaitTracker) : Event → WaitTracker
  | .startTracking => s.startTracking
  | .stopTracking => s.stopTracking
  | .interval timer => if timer ∈ s.intervals then s.getWaitingExecutions else s
  | .polled executions => s.polled executions
  | .pollFailed => s.pollFailed
  | .timeout timer =>
    if timer ∈ s.timeouts then (s.clearTimeout timer).startExecution (s.callback timer) else s
  | .startExecution executionId => s.startExecution executionId
  | .executionStarted executionId => s.executionStarted executionId
  | .stopExecution executionId => s.stopExecution executionId

/-- The state before event `n`, from a tracker that has tracked nothing. -/
abbrev stateAt (events : ℕ → Event) : ℕ → WaitTracker := Trace.stateAt step {} events

/-! ### What is claimed -/

/-- The interval of the main timer is live. -/
def Tracking (s : WaitTracker) : Prop := ∃ timer ∈ s.intervals, s.mainTimer = some timer

/-- Each timeout fires or is cleared. -/
def TimeoutsFire (events : ℕ → Event) : Prop :=
  ∀ n, ∀ timer ∈ (stateAt events n).timeouts, ∃ m, n ≤ m ∧ timer ∉ (stateAt events m).timeouts

/-- From event `n` on, nothing stops the tracker or the execution. -/
def Undisturbed (events : ℕ → Event) (executionId : String) (n : ℕ) : Prop :=
  ∀ m, n ≤ m → events m ≠ .stopTracking ∧ events m ≠ .stopExecution executionId

/-- The event is the end of a poll that finds the execution. -/
def Finds (s : WaitTracker) (e : Event) (executionId : String) : Prop :=
  ∃ executions, e = .polled executions ∧ s.isPolling = true ∧
    ∃ x ∈ executions, x.id = executionId ∧ x.waitTill.isSome = true

/-- While the instance tracks, each entry has a live timeout or is being started; and an execution
that a poll finds is started, unless it is stopped before. -/
structure NotForgotten (events : ℕ → Event) : Prop where
  entries : ∀ n, Tracking (stateAt events n) → ∀ executionId timer,
    (stateAt events n).waitingExecutions.get? executionId = some timer →
      timer ∈ (stateAt events n).timeouts ∨ executionId ∈ (stateAt events n).starting
  started : TimeoutsFire events → ∀ executionId n, Tracking (stateAt events n) →
    Undisturbed events executionId n →
      (∃ k, n ≤ k ∧ Finds (stateAt events k) (events k) executionId) →
        ∃ m, n ≤ m ∧ executionId ∈ (stateAt events m).starting

/-- Tracking stops while each execution with an entry is being started. -/
def Attended (s : WaitTracker) : Event → Prop
  | .stopTracking => s.mainTimer ≠ none → ∀ executionId timer,
    s.waitingExecutions.get? executionId = some timer → executionId ∈ s.starting
  | _ => True

/-! ### The invariant -/

structure Tracked (s : WaitTracker) : Prop where
  entry : ∀ executionId timer, s.waitingExecutions.get? executionId = some timer →
    s.callback timer = executionId ∧ timer < s.nextTimer
  kept : ∀ executionId timer, s.waitingExecutions.get? executionId = some timer →
    timer ∈ s.timeouts ∨ executionId ∈ s.starting
  fresh : ∀ timer ∈ s.timeouts, timer < s.nextTimer

theorem tracked_nil : Tracked {} where
  entry executionId timer h := by cases h
  kept executionId timer h := by cases h
  fresh timer h := by cases h

section Steps

variable {s : WaitTracker}

theorem Tracked.setTimeout (h : Tracked s) (executionId : String) :
    Tracked (s.setTimeout executionId) := by
  constructor
  · intro id timer hget
    simp only [WaitTracker.setTimeout, Dict.get?_set] at hget ⊢
    split_ifs at hget with hid
    · obtain rfl := Option.some.inj hget
      simp [hid]
    · have hold := h.entry id timer hget
      rw [Function.update_of_ne (by omega)]
      exact ⟨hold.1, by omega⟩
  · intro id timer hget
    simp only [WaitTracker.setTimeout, Dict.get?_set, List.mem_append, List.mem_singleton]
      at hget ⊢
    split_ifs at hget with hid
    · exact .inl (.inr (Option.some.inj hget).symm)
    · exact (h.kept id timer hget).imp_left .inl
  · intro timer htimer
    simp only [WaitTracker.setTimeout, List.mem_append, List.mem_singleton] at htimer ⊢
    rcases htimer with hold | rfl
    · have hlt := h.fresh timer hold
      omega
    · omega

theorem Tracked.trackExecution (h : Tracked s) (execution : WaitingExecution) :
    Tracked (s.trackExecution execution) := by
  unfold WaitTracker.trackExecution
  split
  · exact h
  · exact h.setTimeout execution.id

theorem Tracked.foldl_trackExecution (executions : List WaitingExecution) :
    ∀ {s : WaitTracker}, Tracked s → Tracked (executions.foldl WaitTracker.trackExecution s) := by
  induction executions with
  | nil => exact fun h => h
  | cons x executions ih => exact fun h => ih (h.trackExecution x)

theorem Tracked.polled (h : Tracked s) (executions : List WaitingExecution) :
    Tracked (s.polled executions) := by
  unfold WaitTracker.polled
  split
  · have hall := h.foldl_trackExecution
      (executions.filter fun e => (s.waitingExecutions.get? e.id).isNone)
    exact ⟨hall.entry, hall.kept, hall.fresh⟩
  · exact h

theorem Tracked.getWaitingExecutions (h : Tracked s) : Tracked s.getWaitingExecutions := by
  unfold WaitTracker.getWaitingExecutions
  split
  · exact h
  · exact ⟨h.entry, h.kept, h.fresh⟩

theorem Tracked.startTracking (h : Tracked s) : Tracked s.startTracking := by
  refine Tracked.getWaitingExecutions ⟨fun id timer hget => ?_, h.kept, fun timer htimer => ?_⟩
  · have hold := h.entry id timer hget
    exact ⟨hold.1, Nat.lt_succ_of_lt hold.2⟩
  · exact Nat.lt_succ_of_lt (h.fresh timer htimer)

/-- What `stopTracking` clears. -/
theorem foldl_clearTimeout (timers : List ℕ) (s : WaitTracker) :
    timers.foldl clearTimeout s =
      { s with timeouts := s.timeouts.filter fun timer => timer ∉ timers } := by
  induction timers generalizing s with
  | nil => simp
  | cons timer timers ih =>
    rw [List.foldl_cons, ih, clearTimeout]
    simp [List.filter_filter, Bool.and_comm]

theorem Tracked.stopTracking (h : Tracked s) (he : s.Attended .stopTracking) :
    Tracked s.stopTracking := by
  unfold WaitTracker.stopTracking
  split
  · exact h
  · rename_i mainTimer hmain
    rw [foldl_clearTimeout]
    have hstarting := he (by simp [hmain])
    exact ⟨h.entry, fun id timer hget => .inr (hstarting id timer hget),
      fun timer htimer => h.fresh timer (List.mem_of_mem_filter htimer)⟩

theorem Tracked.timeout (h : Tracked s) (timer : ℕ) :
    Tracked ((s.clearTimeout timer).startExecution (s.callback timer)) := by
  refine ⟨h.entry, fun id timer' hget => ?_, fun timer' htimer =>
    h.fresh timer' (List.mem_of_mem_filter htimer)⟩
  show timer' ∈ s.timeouts.filter (· ≠ timer) ∨ id ∈ s.callback timer :: s.starting
  have hcallback := (h.entry id timer' hget).1
  by_cases htimer : timer' = timer
  · subst htimer
    exact .inr (by simp [hcallback])
  · rcases h.kept id timer' hget with hlive | hstarting
    · exact .inl (by simp [hlive, htimer])
    · exact .inr (List.mem_cons_of_mem _ hstarting)

theorem Tracked.startExecution (h : Tracked s) (executionId : String) :
    Tracked (s.startExecution executionId) :=
  ⟨h.entry, fun id timer hget => (h.kept id timer hget).imp_right (List.mem_cons_of_mem _),
    h.fresh⟩

theorem Tracked.executionStarted (h : Tracked s) (executionId : String) :
    Tracked (s.executionStarted executionId) := by
  unfold WaitTracker.executionStarted
  split_ifs
  · have hne : ∀ {id timer}, (s.waitingExecutions.erase executionId).get? id = some timer →
        id ≠ executionId ∧ s.waitingExecutions.get? id = some timer := by
      intro id timer hget
      rw [Dict.get?_erase] at hget
      split_ifs at hget with hid
      exact ⟨hid, hget⟩
    refine ⟨fun id timer hget => h.entry id timer (hne hget).2, fun id timer hget => ?_, h.fresh⟩
    obtain ⟨hid, hget⟩ := hne hget
    exact (h.kept id timer hget).imp_right (List.mem_erase_of_ne hid).2
  · exact h

theorem Tracked.stopExecution (h : Tracked s) (executionId : String) :
    Tracked (s.stopExecution executionId) := by
  unfold WaitTracker.stopExecution
  split
  · exact h
  · rename_i timer hget
    have hne : ∀ {id timer'}, (s.waitingExecutions.erase executionId).get? id = some timer' →
        timer' ≠ timer ∧ s.waitingExecutions.get? id = some timer' := by
      intro id timer' hget'
      rw [Dict.get?_erase] at hget'
      split_ifs at hget' with hid
      refine ⟨?_, hget'⟩
      -- timeouts of different executions are different
      rintro rfl
      exact hid ((h.entry id _ hget').1.symm.trans (h.entry executionId _ hget).1)
    refine ⟨fun id timer' hget' => h.entry id timer' (hne hget').2, fun id timer' hget' => ?_,
      fun timer' htimer => h.fresh timer' (List.mem_of_mem_filter htimer)⟩
    obtain ⟨hid, hget'⟩ := hne hget'
    refine (h.kept id timer' hget').imp_left fun hlive => ?_
    show timer' ∈ s.timeouts.filter (· ≠ timer)
    simp [hlive, hid]

/-- **One event.** -/
theorem Tracked.step (h : Tracked s) {e : Event} (he : s.Attended e) : Tracked (s.step e) := by
  cases e with
  | startTracking => exact h.startTracking
  | stopTracking => exact h.stopTracking he
  | interval timer =>
    rw [WaitTracker.step]
    split_ifs
    · exact h.getWaitingExecutions
    · exact h
  | polled executions => exact h.polled executions
  | pollFailed => exact ⟨h.entry, h.kept, h.fresh⟩
  | timeout timer =>
    rw [WaitTracker.step]
    split_ifs
    · exact h.timeout timer
    · exact h
  | startExecution executionId => exact h.startExecution executionId
  | executionStarted executionId => exact h.executionStarted executionId
  | stopExecution executionId => exact h.stopExecution executionId

end Steps

/-! ### Timeouts -/

section Timeouts

variable {s : WaitTracker} {timer : ℕ}

theorem get?_trackExecution {execution : WaitingExecution} {executionId : String}
    (h : (s.waitingExecutions.get? executionId).isSome = true ∨
      execution.id = executionId ∧ execution.waitTill.isSome = true) :
    ((s.trackExecution execution).waitingExecutions.get? executionId).isSome = true := by
  unfold trackExecution
  split
  · rename_i hnone
    exact h.resolve_right fun hid => by simp [hnone] at hid
  · simp only [setTimeout, Dict.get?_set]
    split_ifs with hid
    · rfl
    · exact h.resolve_right fun hid' => hid hid'.1.symm

theorem get?_foldl_trackExecution {executionId : String} (executions : List WaitingExecution) :
    ∀ {s : WaitTracker}, ((s.waitingExecutions.get? executionId).isSome = true ∨
      ∃ x ∈ executions, x.id = executionId ∧ x.waitTill.isSome = true) →
        ((executions.foldl trackExecution s).waitingExecutions.get? executionId).isSome = true := by
  induction executions with
  | nil => simp
  | cons x executions ih =>
    rintro s (hold | ⟨y, hy, hid⟩)
    · exact ih (.inl (get?_trackExecution (.inl hold)))
    · rcases List.mem_cons.1 hy with rfl | hy
      · exact ih (.inl (get?_trackExecution (.inr hid)))
      · exact ih (.inr ⟨y, hy, hid⟩)

/-- An execution that a poll finds has an entry after it. -/
theorem Finds.entry {e : Event} {executionId : String} (h : Finds s e executionId) :
    ((s.step e).waitingExecutions.get? executionId).isSome = true := by
  obtain ⟨executions, rfl, hpolling, x, hx, rfl, hwait⟩ := h
  show ((s.polled executions).waitingExecutions.get? x.id).isSome = true
  rw [polled, if_pos hpolling]
  refine get?_foldl_trackExecution _ ?_
  by_cases hentry : (s.waitingExecutions.get? x.id).isSome = true
  · exact .inl hentry
  · exact .inr ⟨x, List.mem_filter.2 ⟨hx, by simpa using hentry⟩, rfl, hwait⟩

theorem callback_foldl_trackExecution (executions : List WaitingExecution) :
    ∀ {s : WaitTracker}, timer < s.nextTimer → timer ∈ s.timeouts →
      timer ∈ (executions.foldl trackExecution s).timeouts ∧
        (executions.foldl trackExecution s).callback timer = s.callback timer := by
  induction executions with
  | nil => exact fun _ hlive => ⟨hlive, rfl⟩
  | cons x executions ih =>
    intro s hlt hlive
    have hone : timer < (s.trackExecution x).nextTimer ∧ timer ∈ (s.trackExecution x).timeouts ∧
        (s.trackExecution x).callback timer = s.callback timer := by
      unfold trackExecution
      split
      · exact ⟨hlt, hlive, rfl⟩
      · exact ⟨Nat.lt_succ_of_lt hlt, List.mem_append_left _ hlive,
          Function.update_of_ne (by omega) _ _⟩
    have hrest := ih hone.1 hone.2.1
    exact ⟨hrest.1, hrest.2.trans hone.2.2⟩

/-- **How a timeout ends**: it starts its execution, or the execution or the tracker is stopped. -/
theorem Tracked.step_timeout (h : Tracked s) {e : Event} (hlive : timer ∈ s.timeouts)
    (htracker : e ≠ .stopTracking) (hexecution : e ≠ .stopExecution (s.callback timer)) :
    timer ∈ (s.step e).timeouts ∧ (s.step e).callback timer = s.callback timer ∨
      s.callback timer ∈ (s.step e).starting := by
  have hlt := h.fresh timer hlive
  have hpoll : s.getWaitingExecutions.timeouts = s.timeouts ∧
      s.getWaitingExecutions.callback = s.callback := by
    unfold WaitTracker.getWaitingExecutions
    split_ifs <;> exact ⟨rfl, rfl⟩
  cases e with
  | startTracking =>
    refine .inl ?_
    simp only [WaitTracker.step, WaitTracker.startTracking]
    unfold WaitTracker.getWaitingExecutions
    split_ifs <;> exact ⟨hlive, rfl⟩
  | stopTracking => exact absurd rfl htracker
  | interval timer' =>
    refine .inl ?_
    rw [WaitTracker.step]
    split_ifs
    · rw [hpoll.1, hpoll.2]
      exact ⟨hlive, rfl⟩
    · exact ⟨hlive, rfl⟩
  | polled executions =>
    refine .inl ?_
    simp only [WaitTracker.step, WaitTracker.polled]
    split_ifs
    · exact callback_foldl_trackExecution _ hlt hlive
    · exact ⟨hlive, rfl⟩
  | pollFailed => exact .inl ⟨hlive, rfl⟩
  | timeout timer' =>
    rw [WaitTracker.step]
    by_cases htimer : timer' = timer
    · subst htimer
      rw [if_pos hlive]
      exact .inr List.mem_cons_self
    · refine .inl ?_
      split_ifs
      · exact ⟨List.mem_filter.2 ⟨hlive, by simpa using Ne.symm htimer⟩, rfl⟩
      · exact ⟨hlive, rfl⟩
  | startExecution executionId => exact .inl ⟨hlive, rfl⟩
  | executionStarted executionId =>
    refine .inl ?_
    simp only [WaitTracker.step, WaitTracker.executionStarted]
    split_ifs <;> exact ⟨hlive, rfl⟩
  | stopExecution executionId =>
    refine .inl ?_
    simp only [WaitTracker.step, WaitTracker.stopExecution]
    split
    · exact ⟨hlive, rfl⟩
    · rename_i timer' hget
      refine ⟨List.mem_filter.2 ⟨hlive, ?_⟩, rfl⟩
      have hcallback := (h.entry executionId timer' hget).1
      have hne : timer ≠ timer' := by
        rintro rfl
        exact hexecution (by rw [hcallback])
      simpa using hne

end Timeouts

/-! ### Runs -/

section Runs

variable {events : ℕ → Event}

theorem tracked_stateAt (h : ∀ n, (stateAt events n).Attended (events n)) (n : ℕ) :
    Tracked (stateAt events n) :=
  Trace.invariant_stateAt tracked_nil (fun _ _ hs he => hs.step he) h n

/-- A timeout starts its execution, unless this is stopped before. -/
theorem started_of_timeout (h : ∀ n, (stateAt events n).Attended (events n))
    (hfire : TimeoutsFire events) {executionId : String} {n : ℕ}
    (hundisturbed : Undisturbed events executionId n) {timer : ℕ}
    (hlive : timer ∈ (stateAt events n).timeouts)
    (hcallback : (stateAt events n).callback timer = executionId) :
    ∃ m, n ≤ m ∧ executionId ∈ (stateAt events m).starting := by
  obtain ⟨m, hnm, hm⟩ := hfire n timer hlive
  obtain ⟨k, hnk, ⟨hk, hk'⟩, hgone⟩ := Trace.exists_leaves
    (P := fun s : WaitTracker => timer ∈ s.timeouts ∧ s.callback timer = executionId) hnm
    ⟨hlive, hcallback⟩ fun hP => hm hP.1
  refine ⟨k + 1, by omega, ?_⟩
  have hstep := (tracked_stateAt h k).step_timeout hk (hundisturbed k hnk).1
    (hk' ▸ (hundisturbed k hnk).2)
  rw [hk'] at hstep
  exact hstep.resolve_left hgone

/-- **No waiting execution is forgotten**, in every run in which tracking stops only while the
executions with an entry are being started. -/
theorem notForgotten (events : ℕ → Event) (h : ∀ n, (stateAt events n).Attended (events n)) :
    NotForgotten events where
  entries n _ executionId timer hget := (tracked_stateAt h n).kept executionId timer hget
  started hfire executionId n _ hundisturbed hfinds := by
    obtain ⟨k, hnk, hk⟩ := hfinds
    obtain ⟨timer, hget⟩ := Option.isSome_iff_exists.1 hk.entry
    have htracked := tracked_stateAt h (k + 1)
    rcases htracked.kept executionId timer hget with hlive | hstarting
    · obtain ⟨m, hkm, hm⟩ := started_of_timeout h hfire
        (fun m hm => hundisturbed m (by omega)) hlive (htracked.entry executionId timer hget).1
      exact ⟨m, by omega, hm⟩
    · exact ⟨k + 1, by omega, hstarting⟩

theorem resumed_notForgotten : let events : ℕ → Event := fun
      | 0 => .startTracking
      | 1 => .polled [{ id := "1", waitTill := some 0 }]
      | 2 => .timeout 1
      | 3 => .stopTracking
      | 4 => .executionStarted "1"
      | 5 => .startTracking
      | _ => .interval 2
    Tracking (stateAt events 6) ∧ NotForgotten events := by
  refine ⟨⟨2, by decide, by decide⟩, notForgotten _ fun n => ?_⟩
  match n with
  | 0 | 1 | 2 | 4 | 5 | n + 6 => trivial
  | 3 =>
    intro _ executionId timer hget
    have hentry : (executionId, timer) ∈ [("1", 1)] := (Dict.mem_entries_iff _ _ _).2 hget
    obtain ⟨rfl, -⟩ := Prod.mk.inj (List.mem_singleton.1 hentry)
    decide

/-- The condition is needed: the instance is no longer the leader, and then the leader again. -/
theorem stale_entry : ¬ ∀ events : ℕ → Event, NotForgotten events := by
  intro h
  have hentries := (h fun
    | 0 => .startTracking
    | 1 => .polled [{ id := "1", waitTill := some 0 }]
    | 2 => .stopTracking
    | 3 => .startTracking
    | _ => .stopExecution "").entries 4 ⟨2, by decide, by decide⟩ "1" 1 (by decide)
  revert hentries
  decide

end Runs

end WaitTracker

end N8n
