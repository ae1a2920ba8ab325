import N8n.Lib.Lts

/-!
# The loop of queue recovery

`setupQueue`, `scheduleQueueRecovery` and `stopQueueRecovery` of
`packages/cli/src/scaling/scaling.service.ts`: the leader recovers executions from the queue, in
cycles that schedule one another.

* `RecoveryLoop`: the timeouts and the calls of `recoverFromQueue` under way on an instance;
* `RecoveryLoop.atMostOne_and_stops`: a condition on the events under which there is one loop, which
  stops with the leadership;
* `RecoveryLoop.two_cycles`: a run with two loops.
-/

namespace N8n

structure RecoveryLoop where
  isLeader : Bool := false
  /-- `this.queue` is set. -/
  queue : Bool := false
  /-- `queueRecoveryContext.timeout`. -/
  timeout : Option ℕ := none
  /-- The timeouts that have neither fired nor been cleared. -/
  timeouts : List ℕ := []
  nextTimeout : ℕ := 0
  /-- How many calls of `recoverFromQueue` run. -/
  recovering : ℕ := 0
  /-- The last call of `stopQueueRecovery` came after the last takeover. -/
  stopped : Bool := false

namespace RecoveryLoop

/-- `scheduleQueueRecovery`; how long the timeout waits plays no part. -/
def scheduleQueueRecovery (s : RecoveryLoop) : RecoveryLoop :=
  { s with
    timeout := some s.nextTimeout
    timeouts := s.timeouts ++ [s.nextTimeout]
    nextTimeout := s.nextTimeout + 1 }

def stopQueueRecovery (s : RecoveryLoop) : RecoveryLoop :=
  match s.timeout with
  | none => { s with stopped := true }
  | some timeout => { s with timeouts := s.timeouts.filter (· ≠ timeout), stopped := true }

def setupQueue (s : RecoveryLoop) : RecoveryLoop :=
  if s.queue then s
  else
    let s := { s with queue := true }
    if s.isLeader then s.scheduleQueueRecovery else s

inductive Event
  | setupQueue
  | leaderTakeover
  | leaderStepdown
  /-- The instance is marked as a follower, and no event is emitted. -/
  | markAsFollower
  /-- `stopMain`, when the instance shuts down. -/
  | stopMain
  /-- A timeout fires, and `recoverFromQueue` is called. -/
  | timeout (timeout : ℕ)
  /-- A call of `recoverFromQueue` returns or throws. -/
  | recovered (returned : Bool)

/-- What an event does; one that cannot happen changes nothing. -/
def step (s : RecoveryLoop) : Event → RecoveryLoop
  | .setupQueue => s.setupQueue
  | .leaderTakeover => { s with isLeader := true, stopped := false }.scheduleQueueRecovery
  | .leaderStepdown => { s with isLeader := false }.stopQueueRecovery
  | .markAsFollower => { s with isLeader := false }
  | .stopMain => s.stopQueueRecovery
  | .timeout timeout =>
    if timeout ∈ s.timeouts then
      { s with timeouts := s.timeouts.filter (· ≠ timeout), recovering := s.recovering + 1 }
    else s
  | .recovered _ =>
    if s.recovering = 0 then s
    else { s with recovering := s.recovering - 1 }.scheduleQueueRecovery

/-! ### What is claimed -/

/-- At most one cycle is pending or running. -/
def AtMostOne (s : RecoveryLoop) : Prop := s.timeouts.length + s.recovering ≤ 1

/-- No call of `recoverFromQueue` starts between `stopQueueRecovery` and the next takeover. -/
def Stops (s : RecoveryLoop) : Event → Prop
  | .timeout timeout => timeout ∈ s.timeouts → s.stopped = false
  | _ => True

/-! ### The condition -/

/-- No cycle is pending or running. -/
def Idle (s : RecoveryLoop) : Prop := s.timeouts = [] ∧ s.recovering = 0

instance (s : RecoveryLoop) : Decidable s.Idle := inferInstanceAs (Decidable (_ ∧ _))

/-- Loops are started while no cycle is pending or running, and stopped while none is running. -/
def OneAtATime (s : RecoveryLoop) : Event → Prop
  | .setupQueue => s.queue = false → s.isLeader = true → s.Idle ∧ s.stopped = false
  | .leaderTakeover => s.Idle
  | .leaderStepdown | .stopMain => s.recovering = 0
  | _ => True

/-! ### The invariant -/

/-- The one timeout is the one that `stopQueueRecovery` clears, and a loop that has stopped is
idle. -/
structure OneLoop (s : RecoveryLoop) : Prop where
  timeouts : s.timeouts = [] ∨ ∃ timeout, s.timeout = some timeout ∧ s.timeouts = [timeout]
  atMostOne : s.AtMostOne
  stopped : s.stopped = true → s.Idle

theorem oneLoop_nil (isLeader : Bool) : OneLoop { isLeader } where
  timeouts := .inl rfl
  atMostOne := by simp [AtMostOne]
  stopped h := by cases h

section Steps

variable {s : RecoveryLoop}

theorem OneLoop.scheduleQueueRecovery (hidle : s.Idle) (hstopped : s.stopped = false) :
    OneLoop s.scheduleQueueRecovery := by
  obtain ⟨htimeouts, hrecovering⟩ := hidle
  refine ⟨.inr ⟨s.nextTimeout, rfl, ?_⟩, ?_, fun h => ?_⟩
  · show s.timeouts ++ [s.nextTimeout] = [s.nextTimeout]
    rw [htimeouts, List.nil_append]
  · show (s.timeouts ++ [s.nextTimeout]).length + s.recovering ≤ 1
    simp [htimeouts, hrecovering]
  · exact absurd (hstopped.symm.trans h) (by simp)

theorem OneLoop.stopQueueRecovery (h : OneLoop s) (hrecovering : s.recovering = 0) :
    OneLoop s.stopQueueRecovery := by
  -- what is left after the timeout has been cleared
  have hidle : s.stopQueueRecovery.timeouts = [] := by
    unfold RecoveryLoop.stopQueueRecovery
    rcases h.timeouts with hnil | ⟨timeout, htimeout, hone⟩
    · split <;> simp [hnil]
    · simp [htimeout, hone]
  have hcalls : s.stopQueueRecovery.recovering = 0 := by
    unfold RecoveryLoop.stopQueueRecovery
    split <;> exact hrecovering
  exact ⟨.inl hidle, by simp [AtMostOne, hidle, hcalls], fun _ => ⟨hidle, hcalls⟩⟩

theorem OneLoop.setupQueue (h : OneLoop s) (he : s.OneAtATime .setupQueue) :
    OneLoop s.setupQueue := by
  unfold RecoveryLoop.setupQueue
  by_cases hqueue : s.queue = true
  · rwa [if_pos hqueue]
  · rw [if_neg hqueue]
    by_cases hleader : s.isLeader = true
    · rw [if_pos hleader]
      obtain ⟨hidle, hstopped⟩ := he (Bool.not_eq_true _ ▸ hqueue) hleader
      exact OneLoop.scheduleQueueRecovery hidle hstopped
    · rw [if_neg hleader]
      exact ⟨h.timeouts, h.atMostOne, h.stopped⟩

theorem OneLoop.timeout (h : OneLoop s) {timeout : ℕ} (htimeout : timeout ∈ s.timeouts) :
    OneLoop { s with
      timeouts := s.timeouts.filter (· ≠ timeout), recovering := s.recovering + 1 } := by
  have hcount := h.atMostOne
  rcases h.timeouts with hnil | ⟨timeout', -, hone⟩
  · simp [hnil] at htimeout
  · obtain rfl : timeout = timeout' := by simpa [hone] using htimeout
    have hnone : s.timeouts.filter (· ≠ timeout) = [] := by simp [hone]
    have hrecovering : s.recovering = 0 := by
      simp only [AtMostOne, hone, List.length_singleton] at hcount
      omega
    refine ⟨.inl hnone, ?_, fun hstopped => ?_⟩
    · show (s.timeouts.filter (· ≠ timeout)).length + (s.recovering + 1) ≤ 1
      rw [hnone, List.length_nil]
      omega
    · have hidle := (h.stopped hstopped).1
      simp [hone] at hidle

theorem OneLoop.recovered (h : OneLoop s) (hrecovering : s.recovering ≠ 0) :
    OneLoop { s with recovering := s.recovering - 1 }.scheduleQueueRecovery := by
  have hcount := h.atMostOne
  have hlength : s.timeouts.length = 0 := by
    unfold AtMostOne at hcount
    omega
  refine OneLoop.scheduleQueueRecovery ⟨List.length_eq_zero_iff.1 hlength, ?_⟩ ?_
  · show s.recovering - 1 = 0
    unfold AtMostOne at hcount
    omega
  · by_cases hstopped : s.stopped = true
    · exact absurd (h.stopped hstopped).2 hrecovering
    · exact Bool.not_eq_true _ ▸ hstopped

/-- **One event.** -/
theorem OneLoop.step (h : OneLoop s) {e : Event} (he : s.OneAtATime e) : OneLoop (s.step e) := by
  cases e with
  | setupQueue => exact h.setupQueue he
  | leaderTakeover =>
    exact OneLoop.scheduleQueueRecovery (s := { s with isLeader := true, stopped := false }) he rfl
  | leaderStepdown =>
    have hfollower : OneLoop { s with isLeader := false } := ⟨h.timeouts, h.atMostOne, h.stopped⟩
    exact hfollower.stopQueueRecovery he
  | markAsFollower => exact ⟨h.timeouts, h.atMostOne, h.stopped⟩
  | stopMain => exact h.stopQueueRecovery he
  | timeout timeout =>
    rw [RecoveryLoop.step]
    split_ifs with htimeout
    · exact h.timeout htimeout
    · exact h
  | recovered returned =>
    rw [RecoveryLoop.step]
    split_ifs with hrecovering
    · exact h
    · exact h.recovered hrecovering

theorem OneLoop.stops (h : OneLoop s) (e : Event) : s.Stops e := by
  cases e with
  | timeout timeout =>
    intro htimeout
    by_contra hstopped
    have hidle := h.stopped (by simpa using hstopped)
    simp [hidle.1] at htimeout
  | _ => trivial

end Steps

/-! ### Runs -/

/-- **One loop, for the leader only**, in every run in which loops start while no cycle is pending
or running, and stop while none is running. -/
theorem atMostOne_and_stops (isLeader : Bool) (events : List Event)
    (h : Trace.EachStep step OneAtATime { isLeader } events) :
    (∀ pre, pre <+: events → (Trace.run step { isLeader } pre).AtMostOne) ∧
      Trace.EachStep step Stops { isLeader } events := by
  have hstep : ∀ s e, OneLoop s → s.OneAtATime e → OneLoop (s.step e) := fun _ _ hs he => hs.step he
  constructor
  · intro pre hpre
    exact (h.invariant (oneLoop_nil isLeader) hstep pre hpre).atMostOne
  · exact h.imp (oneLoop_nil isLeader) hstep fun _ e hs _ => hs.stops e

theorem atMostOne_and_stops_takeover :
    let events := [.setupQueue, .leaderTakeover, .timeout 0, .recovered true, .leaderStepdown,
      .timeout 1, .leaderTakeover]
    (∀ pre, pre <+: events → (Trace.run step {} pre).AtMostOne) ∧
      Trace.EachStep step Stops {} events := by
  refine atMostOne_and_stops false _ ?_
  simp only [Trace.eachStep_cons]
  refine ⟨(fun _ h => by cases h), ?_, trivial, trivial, ?_, trivial, ?_, Trace.eachStep_nil⟩
  all_goals
    simp only [OneAtATime]
    decide

/-- The condition is needed: the instance steps down and takes over while a call runs. -/
theorem two_cycles : ¬ ∀ (isLeader : Bool) (events : List Event),
    (∀ pre, pre <+: events → (Trace.run step { isLeader } pre).AtMostOne) ∧
      Trace.EachStep step Stops { isLeader } events := by
  intro h
  have hone := (h true [.setupQueue, .timeout 0, .leaderStepdown, .leaderTakeover]).1 _
    (List.prefix_refl _)
  simp only [AtMostOne] at hone
  revert hone
  decide

end RecoveryLoop

end N8n
