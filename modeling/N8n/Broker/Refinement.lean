import N8n.Broker.TaskBroker
import N8n.Lib.Lts
import N8n.Lib.Matchmaker

/-!
# The task broker is a matchmaker

* `TaskBroker.matchmaker`: the matchmaker that a broker is, its timers, promises and messages left
  out;
* `Event.Brings`: what an event brings in, `TaskBroker.Allowed`: the acts that an event can cause;
* `TaskBroker.step_refines`: a step of the broker is what its event brings in, followed by acts of
  the matchmaker that the event can cause; `TaskBroker.run_refines`: whole runs.
-/

namespace N8n

open Matchmaker (Phase Label Acts Act)

/-- How far the attempt has got. -/
def Stage.phase : Stage → Phase
  | .messagingRunner | .awaitingRunner => .asked
  | .messagingRequester | .awaitingRequester => .entered
  | .runnerFound _ _ | .sendingSettings => .confirmed
  | .runnerMissing | .cancelling => .cancelled
  | .finished => .closed

/-- The promise was settled by the settings of the requester. -/
def RequesterReply.isSettings : Option RequesterReply → Bool
  | some (.settings _) => true
  | _ => false

def AcceptCall.toAttempt (call : AcceptCall) : Matchmaker.Attempt String String where
  offer := call.offer.offerId
  request := call.request
  task := call.taskId
  phase := call.stage.phase
  answered := RequesterReply.isSettings call.requesterReply

def TaskRequest.toRequest (request : TaskRequest) : Matchmaker.Request String String where
  owner := request.requesterId
  id := request.requestId
  busy := request.acceptInProgress

/-- The request that a message reports to have expired or to be ready. -/
def Sent.told : Sent → Option String
  | .toRequester _ (.taskReady requestId _) => some requestId
  | .toRequester _ (.requestExpired requestId _) => some requestId
  | _ => none

/-- The requester, request and task of a message that reports a task to be ready. -/
def Sent.announced : Sent → Option (String × String × String)
  | .toRequester requesterId (.taskReady requestId taskId) => some (requesterId, requestId, taskId)
  | _ => none

namespace TaskBroker

variable {nanoid : ℕ → String} {mode : TaskRunnerMode}

/-- Removing the first element found splits the list there. -/
theorem exists_of_find?_eraseP {α : Type*} {p : α → Bool} {l : List α} {a : α}
    (h : l.find? p = some a) : ∃ l₁ l₂, l = l₁ ++ a :: l₂ ∧ l.eraseP p = l₁ ++ l₂ := by
  obtain ⟨ha, l₁, l₂, rfl, hl₁⟩ := List.find?_eq_some_iff_append.1 h
  refine ⟨l₁, l₂, rfl, ?_⟩
  rw [List.eraseP_append_right _ fun b hb => by simpa using hl₁ b hb, List.eraseP_cons_of_pos ha]

/-- The matchmaker that a broker is. -/
def matchmaker (s : TaskBroker) : Matchmaker String String String String where
  requests r := (s.requests r).toRequest
  size := s.nextRequest
  pending := s.pendingTaskRequests
  offers := s.pendingTaskOffers.map TaskOffer.offerId
  attempts c := (s.calls c).toAttempt
  count := s.nextCall
  tasks := {taskId | (s.tasks.get? taskId).isSome}
  entered := s.entered
  told := {requestId | ∃ m ∈ s.sent, m.told = some requestId}
  announced := {a | ∃ m ∈ s.sent, m.announced = some a}

variable (s : TaskBroker)

theorem matchmaker_requestExpired (requesterId requestId : String)
    (reason : BrokerMessage.ExpiryReason) :
    (s.messageRequester requesterId (.requestExpired requestId reason)).matchmaker = s.matchmaker ∨
      (s.messageRequester requesterId (.requestExpired requestId reason)).matchmaker =
        s.matchmaker.refuse requestId := by
  unfold messageRequester
  split_ifs
  · refine .inr ?_
    simp only [matchmaker, Matchmaker.refuse, Matchmaker.mk.injEq, true_and]
    constructor <;> ext a <;> simp [Sent.told, Sent.announced, eq_comm, or_comm]
  · exact .inl rfl

theorem matchmaker_taskReady (requesterId requestId taskId : String) :
    (s.messageRequester requesterId (.taskReady requestId taskId)).matchmaker = s.matchmaker ∨
      (s.messageRequester requesterId (.taskReady requestId taskId)).matchmaker =
        { s.matchmaker with
          told := insert requestId s.matchmaker.told
          announced := insert (requesterId, requestId, taskId) s.matchmaker.announced } := by
  unfold messageRequester
  split_ifs
  · refine .inr ?_
    simp only [matchmaker, Matchmaker.mk.injEq, true_and]
    constructor <;> ext a <;> simp [Sent.told, Sent.announced, eq_comm, or_comm]
  · exact .inl rfl

/-! ### What does not show -/

@[simp] theorem matchmaker_setTimeout (timer : Timer) :
    (s.setTimeout timer).matchmaker = s.matchmaker := rfl

@[simp] theorem matchmaker_clearTimeout (id : Option ℕ) :
    (s.clearTimeout id).matchmaker = s.matchmaker := rfl

@[simp] theorem matchmaker_messageRunner (runnerId : String) (message : BrokerMessage.ToRunner) :
    (s.messageRunner runnerId message).matchmaker = s.matchmaker := by
  unfold messageRunner
  split_ifs
  · simp [matchmaker, Sent.told, Sent.announced]
  · rfl

variable {message : BrokerMessage.ToRequester}

/-- A message to a requester that tells it nothing about a request. -/
theorem matchmaker_messageRequester (requesterId : String)
    (htold : (Sent.toRequester requesterId message).told = none)
    (hannounced : (Sent.toRequester requesterId message).announced = none) :
    (s.messageRequester requesterId message).matchmaker = s.matchmaker := by
  unfold messageRequester
  split_ifs
  · simp [matchmaker, htold, hannounced]
  · rfl

theorem matchmaker_setRequest (r : ℕ) (request : TaskRequest) :
    (s.setRequest r request).matchmaker =
      { s.matchmaker with
        requests := Function.update s.matchmaker.requests r request.toRequest } := by
  simp only [matchmaker, setRequest, Matchmaker.mk.injEq, and_true]
  exact Function.comp_update TaskRequest.toRequest s.requests r request

theorem matchmaker_setCall (c : ℕ) (call : AcceptCall) :
    (s.setCall c call).matchmaker =
      { s.matchmaker with
        attempts := Function.update s.matchmaker.attempts c call.toAttempt } := by
  simp only [matchmaker, setCall, Matchmaker.mk.injEq, and_true, true_and]
  exact Function.comp_update AcceptCall.toAttempt s.calls c call

@[simp] theorem matchmaker_setStage (c : ℕ) (stage : Stage) :
    (s.setStage c stage).matchmaker = s.matchmaker.setPhase c stage.phase :=
  matchmaker_setCall ..

/-- Only the phase of an attempt shows, not the `await` it stands at. -/
theorem matchmaker_setStage_of_phase {s : TaskBroker} {c : ℕ} {stage : Stage}
    (h : (s.calls c).stage.phase = stage.phase) :
    (s.setStage c stage).matchmaker = s.matchmaker := by
  rw [matchmaker_setStage, ← h]
  exact congrArg (fun attempts => { s.matchmaker with attempts }) (Function.update_eq_self c _)

@[simp] theorem matchmaker_settleRunner (c : ℕ) (reply : RunnerReply) :
    (s.settleRunner c reply).matchmaker = s.matchmaker := by
  rw [settleRunner, matchmaker_setCall]
  exact congrArg (fun attempts => { s.matchmaker with attempts }) (Function.update_eq_self c _)

theorem matchmaker_settleRequester (c : ℕ) (reply : RequesterReply) :
    (s.settleRequester c reply).matchmaker = s.matchmaker ∨
      RequesterReply.isSettings (some reply) ∧
        (s.settleRequester c reply).matchmaker = s.matchmaker.setAnswered c := by
  rw [settleRequester, matchmaker_setCall]
  have hsame : RequesterReply.isSettings ((s.calls c).requesterReply.or (some reply)) =
      RequesterReply.isSettings (s.calls c).requesterReply →
      { s.matchmaker with
        attempts := Function.update s.matchmaker.attempts c
          { s.calls c with
            requesterReply := (s.calls c).requesterReply.or (some reply) }.toAttempt } =
        s.matchmaker := by
    intro h
    refine congrArg (fun attempts => { s.matchmaker with attempts }) ?_
    refine (congrArg (Function.update s.matchmaker.attempts c) ?_).trans
      (Function.update_eq_self c _)
    exact congrArg (fun answered => { (s.calls c).toAttempt with answered }) h
  cases hr : (s.calls c).requesterReply with
  | some old =>
    rw [hr] at hsame
    exact .inl (hsame rfl)
  | none =>
    rw [hr] at hsame
    cases reply with
    | settings => exact .inr ⟨rfl, rfl⟩
    | rejected | timedOut => exact .inl (hsame rfl)

/-! ### Tasks -/

theorem matchmaker_eraseTask (taskId : String) :
    ({ s with tasks := s.tasks.erase taskId } : TaskBroker).matchmaker =
      { s.matchmaker with tasks := s.matchmaker.tasks \ {taskId} } := by
  simp only [matchmaker, Matchmaker.mk.injEq, true_and, and_true]
  ext k
  by_cases h : k = taskId
  · subst h
    simp
  · simp [Dict.get?_erase_ne _ h, h]

theorem diff_singleton_tasks {s : TaskBroker} {taskId : String} (h : s.tasks.get? taskId = none) :
    { s.matchmaker with tasks := s.matchmaker.tasks \ {taskId} } = s.matchmaker := by
  have hnot : taskId ∉ s.matchmaker.tasks := by simp [matchmaker, h]
  rw [Set.sdiff_singleton_eq_self hnot]

theorem matchmaker_cancelTask (taskId reason : String) :
    (s.cancelTask taskId reason).matchmaker =
      { s.matchmaker with tasks := s.matchmaker.tasks \ {taskId} } := by
  unfold cancelTask
  cases h : s.tasks.get? taskId with
  | none => exact (diff_singleton_tasks h).symm
  | some task => rw [matchmaker_messageRunner, matchmaker_eraseTask]

theorem matchmaker_failTask (taskId : String) (error : TaskFailure) :
    (s.failTask taskId error).matchmaker =
      { s.matchmaker with tasks := s.matchmaker.tasks \ {taskId} } := by
  unfold failTask
  cases h : s.tasks.get? taskId with
  | none => exact (diff_singleton_tasks h).symm
  | some task =>
    rw [matchmaker_messageRequester (s := { s with tasks := s.tasks.erase taskId }) _ rfl rfl,
      matchmaker_eraseTask]

theorem matchmaker_endTask (taskId : String)
    (htold : ∀ requesterId, (Sent.toRequester requesterId message).told = none)
    (hannounced : ∀ requesterId, (Sent.toRequester requesterId message).announced = none) :
    (s.endTask taskId message).matchmaker = s.matchmaker := by
  unfold endTask
  cases h : s.tasks.get? taskId with
  | none => rfl
  | some task =>
    exact matchmaker_messageRequester (s.clearTimeout task.timeout) _ (htold _) (hannounced _)

theorem matchmaker_askRequester (taskId : String)
    (htold : ∀ requesterId, (Sent.toRequester requesterId message).told = none)
    (hannounced : ∀ requesterId, (Sent.toRequester requesterId message).announced = none) :
    (s.askRequester taskId message).matchmaker = s.matchmaker := by
  unfold askRequester
  cases h : s.tasks.get? taskId with
  | none => rfl
  | some task => exact matchmaker_messageRequester s _ (htold _) (hannounced _)

theorem matchmaker_handleTaskTimeout (taskId : String) :
    (s.handleTaskTimeout mode taskId).matchmaker = s.matchmaker := by
  unfold handleTaskTimeout
  cases h : s.tasks.get? taskId with
  | none => rfl
  | some task =>
    cases mode with
    | internal => exact matchmaker_endTask s taskId (fun _ => rfl) fun _ => rfl
    | external => exact matchmaker_messageRunner ..

section Acts

variable {P : Matchmaker String String String String → Label → Prop}
  (hP : ∀ m, P m .silent)

include hP

/-- Tasks are only deleted. -/
theorem acts_drop {m m' : Matchmaker String String String String} {tasks : Set String}
    (h : m' = { m with tasks }) (hsub : tasks ⊆ m.tasks) : Acts nanoid P m m' := by
  rw [h]
  exact (Act.drop hsub).acts (hP _)

variable (s : TaskBroker)

theorem acts_cancelTask (taskId reason : String) :
    Acts nanoid P s.matchmaker (s.cancelTask taskId reason).matchmaker :=
  acts_drop hP (matchmaker_cancelTask ..) Set.sdiff_subset

theorem acts_failTask (taskId : String) (error : TaskFailure) :
    Acts nanoid P s.matchmaker (s.failTask taskId error).matchmaker :=
  acts_drop hP (matchmaker_failTask ..) Set.sdiff_subset

theorem acts_answerRunner (taskId : String) (message : BrokerMessage.ToRunner) :
    Acts nanoid P s.matchmaker (s.answerRunner taskId message).matchmaker := by
  unfold answerRunner
  cases h : s.tasks.get? taskId with
  | none => exact Acts.of_eq nanoid rfl
  | some task =>
    simp only
    split_ifs
    · exact Acts.of_eq nanoid rfl
    · exact acts_failTask hP ..

theorem acts_runJob (job : Job) : Acts nanoid P s.matchmaker (s.runJob job).matchmaker := by
  cases job with
  | deleteTask taskId => exact acts_drop hP (matchmaker_eraseTask s taskId) Set.sdiff_subset
  | failTimedOutTask taskId =>
    exact Acts.of_eq nanoid (matchmaker_endTask s taskId (fun _ => rfl) fun _ => rfl)
  | messageRunner => exact Acts.of_eq nanoid (matchmaker_messageRunner ..)

/-! ### Replies -/

omit hP in
theorem matchmaker_replyOfRunner (taskId : String) (reply : RunnerReply) :
    (s.replyOfRunner taskId reply).matchmaker = s.matchmaker := by
  unfold replyOfRunner
  cases h : s.runnerAcceptRejects.get? taskId with
  | none => rfl
  | some c => exact matchmaker_settleRunner s c reply

omit hP in
theorem acts_settleRequester (c : ℕ) (reply : RequesterReply)
    (hanswer : RequesterReply.isSettings (some reply) → P s.matchmaker (.answer c)) :
    Acts nanoid P s.matchmaker (s.settleRequester c reply).matchmaker := by
  rcases matchmaker_settleRequester s c reply with h | ⟨hset, h⟩
  · exact Acts.of_eq nanoid h
  · rw [h]
    exact Act.answer.acts (hanswer hset)

omit hP in
theorem acts_replyOfRequester (taskId : String) (reply : RequesterReply)
    (hanswer : RequesterReply.isSettings (some reply) →
      ∀ c, s.requesterAcceptRejects.get? taskId = some c → P s.matchmaker (.answer c)) :
    Acts nanoid P s.matchmaker (s.replyOfRequester taskId reply).matchmaker := by
  unfold replyOfRequester
  cases h : s.requesterAcceptRejects.get? taskId with
  | none => exact Acts.of_eq nanoid rfl
  | some c => exact acts_settleRequester s c reply fun hset => hanswer hset c h

/-! ### Pairing -/

theorem acts_expireTasks (now : ℤ) : Acts nanoid P s.matchmaker (s.expireTasks now).matchmaker :=
  (Act.withdraw (List.filter_sublist.map TaskOffer.offerId)).acts (hP _)

theorem acts_handleRequestTimeout (requestId : String) :
    Acts nanoid P s.matchmaker (s.handleRequestTimeout requestId).matchmaker := by
  unfold handleRequestTimeout
  cases h : s.pendingTaskRequests.find? fun r => (s.requests r).requestId = requestId with
  | none => exact Acts.of_eq nanoid rfl
  | some r =>
    obtain ⟨l₁, l₂, hpending, herase⟩ := exists_of_find?_eraseP h
    simp only [herase]
    have hexpire : ∀ told, told = s.matchmaker.told ∨
        told = insert (s.requests r).requestId s.matchmaker.told →
        Acts nanoid P s.matchmaker { s.matchmaker with pending := l₁ ++ l₂, told } :=
      fun told htold => (Act.expire hpending htold).acts (hP _)
    rcases matchmaker_requestExpired
      ({ s with pendingTaskRequests := l₁ ++ l₂ }.clearTimeout (s.requests r).timeout)
      (s.requests r).requesterId (s.requests r).requestId .timeout with hm | hm
    · rw [hm]
      exact hexpire _ (.inl rfl)
    · rw [hm]
      exact hexpire _ (.inr rfl)

omit hP in
/-- The requests keep pending while they are paired. -/
theorem pendingTaskRequests_settleRequest (r : ℕ) :
    (s.settleRequest nanoid r).pendingTaskRequests = s.pendingTaskRequests := by
  unfold settleRequest
  split_ifs
  · rfl
  · cases s.pendingTaskOffers.find? fun offer => offer.taskType = (s.requests r).taskType with
    | none => rfl
    | some offer =>
      simp only [acceptOffer, messageRunner]
      split_ifs <;> rfl

omit hP in
theorem matchmaker_acceptOffer (offer : TaskOffer) (r : ℕ) :
    (s.acceptOffer nanoid offer r).matchmaker =
      { s.matchmaker with
        attempts := Function.update s.matchmaker.attempts s.nextCall
          ⟨offer.offerId, r, nanoid s.nextCall, .asked, false⟩
        count := s.nextCall + 1 } := by
  have hcalls : ∀ (s' : TaskBroker) (c : ℕ) (call : AcceptCall),
      ({ s' with calls := Function.update s'.calls c call, nextCall := c + 1 } :
        TaskBroker).matchmaker =
      { s'.matchmaker with
        attempts := Function.update s'.matchmaker.attempts c call.toAttempt
        count := c + 1 } :=
    fun s' c call => congrArg (fun m => { m with count := c + 1 }) (matchmaker_setCall s' c call)
  rw [acceptOffer, hcalls, matchmaker_messageRunner]
  rfl

theorem acts_settleRequest {r : ℕ} (hr : r ∈ s.pendingTaskRequests) :
    Acts nanoid P s.matchmaker (s.settleRequest nanoid r).matchmaker := by
  unfold settleRequest
  split_ifs with hbusy
  · exact Acts.of_eq nanoid rfl
  · cases h : s.pendingTaskOffers.find? fun offer => offer.taskType = (s.requests r).taskType with
    | none => exact Acts.of_eq nanoid rfl
    | some offer =>
      obtain ⟨l₁, l₂, hoffers, herase⟩ := exists_of_find?_eraseP h
      simp only [herase]
      have hperm : s.matchmaker.offers.Perm
          (offer.offerId :: (l₁ ++ l₂).map TaskOffer.offerId) := by
        simp only [matchmaker, hoffers, List.map_append, List.map_cons]
        exact List.perm_middle
      have hidle : (s.matchmaker.requests r).busy = false := by
        rw [Bool.not_eq_true] at hbusy
        exact hbusy
      have hset := Function.comp_update TaskRequest.toRequest s.requests r
        { s.requests r with acceptInProgress := true }
      rw [matchmaker_acceptOffer]
      convert (Act.pair hr hidle hperm).acts (hP _) using 1
      exact congrArg (fun requests => { s.matchmaker.begin r offer.offerId
        ((l₁ ++ l₂).map TaskOffer.offerId) (nanoid s.nextCall) with requests }) hset

theorem acts_settleTasks (now : ℤ) :
    Acts nanoid P s.matchmaker (s.settleTasks nanoid now).matchmaker := by
  have hfold : ∀ (l : List ℕ) (s' : TaskBroker), (∀ r ∈ l, r ∈ s'.pendingTaskRequests) →
      Acts nanoid P s'.matchmaker (l.foldl (settleRequest nanoid) s').matchmaker := by
    intro l
    induction l with
    | nil => exact fun s' _ => Acts.of_eq nanoid rfl
    | cons r l ih =>
      intro s' hl
      refine (acts_settleRequest hP s' (hl r List.mem_cons_self)).trans (ih _ fun r' hr' => ?_)
      rw [pendingTaskRequests_settleRequest]
      exact hl r' (List.mem_cons_of_mem r hr')
  exact (acts_expireTasks hP s now).trans (hfold _ _ fun _ hr => hr)

/-! ### The rest of `acceptOffer` -/

omit hP in
theorem matchmaker_setBusy (r : ℕ) (request : TaskRequest) (busy : Bool)
    (h : request.toRequest = { (s.requests r).toRequest with busy }) :
    (s.setRequest r request).matchmaker = s.matchmaker.setBusy r busy := by
  rw [matchmaker_setRequest, h]
  rfl

variable {c : ℕ}

theorem acts_acceptFailed (hc : c < s.nextCall) (hp : (s.calls c).stage.phase = .asked) :
    Acts nanoid P s.matchmaker (s.acceptFailed c).matchmaker := by
  unfold acceptFailed
  rw [matchmaker_setStage, matchmaker_setBusy s _ _ false rfl]
  exact (Act.giveUp (m := s.matchmaker) hc hp).acts (hP _)

omit hP in
theorem matchmaker_acceptDeferred (c : ℕ) :
    (s.acceptDeferred c).matchmaker =
      { s.matchmaker.giveUp c with
        pending := s.pendingTaskRequests ++ [(s.calls c).request] } := by
  have hset := matchmaker_setBusy
    ((s.clearTimeout (s.requests (s.calls c).request).timeout).setTimeout
      (.requestTimeout (s.requests (s.calls c).request).requestId)) (s.calls c).request
    { s.requests (s.calls c).request with
      acceptInProgress := false, timeout := some s.nextTimer } false rfl
  unfold acceptDeferred
  rw [matchmaker_setStage]
  exact congrArg (fun m => ({ m with
    pending := s.pendingTaskRequests ++ [(s.calls c).request] } :
      Matchmaker String String String String).setPhase c .closed) hset

omit hP in
theorem acts_acceptDeferred (hc : c < s.nextCall)
    (hp : (s.calls c).stage.phase = .asked) (hdefer : P s.matchmaker (.defer c)) :
    Acts nanoid P s.matchmaker (s.acceptDeferred c).matchmaker := by
  rw [matchmaker_acceptDeferred]
  exact (Act.defer (m := s.matchmaker) hc hp).acts hdefer

omit hP in
theorem matchmaker_setTask (taskId : String) (task : Task) (entered : List ℕ) :
    ({ s with tasks := s.tasks.set taskId task, entered } : TaskBroker).matchmaker =
      { s.matchmaker with tasks := insert taskId s.matchmaker.tasks, entered } := by
  simp only [matchmaker, Matchmaker.mk.injEq, true_and, and_true]
  ext k
  by_cases h : k = taskId
  · subst h
    simp
  · simp [Dict.get?_set_ne _ _ h, h]

/-- The requester is told of a task that was just entered. -/
theorem acts_taskReady {s s' : TaskBroker} {r : ℕ} {l₁ l₂ : List ℕ} (hc : c < s.nextCall)
    (hp : (s.calls c).stage.phase = .asked) (hpending : s.pendingTaskRequests = l₁ ++ r :: l₂)
    (hid : (s.requests r).requestId = (s.requests (s.calls c).request).requestId)
    (hs' : s'.matchmaker =
      { s.matchmaker with
        pending := l₁ ++ l₂
        tasks := insert (s.calls c).taskId s.matchmaker.tasks
        entered := s.entered ++ [c] }) :
    Acts nanoid P s.matchmaker
      ((s'.messageRequester (s.requests (s.calls c).request).requesterId
        (.taskReady (s.requests (s.calls c).request).requestId
          (s.calls c).taskId)).matchmaker.setPhase c .entered) := by
  rcases matchmaker_taskReady s' (s.requests (s.calls c).request).requesterId
    (s.requests (s.calls c).request).requestId (s.calls c).taskId with hm | hm
  · rw [hm, hs']
    exact (Act.enter (m := s.matchmaker) hc hp hpending hid (.inl ⟨rfl, rfl⟩)).acts (hP _)
  · rw [hm, hs']
    exact (Act.enter (m := s.matchmaker) hc hp hpending hid (.inr ⟨rfl, rfl⟩)).acts (hP _)

theorem acts_accepted (hc : c < s.nextCall)
    (hp : (s.calls c).stage.phase = .asked) (hlose : (∀ r ∈ s.pendingTaskRequests,
      (s.requests r).requestId ≠ (s.requests (s.calls c).request).requestId) →
      P s.matchmaker (.lose c)) :
    Acts nanoid P s.matchmaker (s.accepted c).matchmaker := by
  -- the state once the task is entered
  have htask := fun (s' : TaskBroker) (task : Task) => matchmaker_setTask s'
    (s.calls c).taskId task (s.entered ++ [c])
  unfold accepted
  simp only
  split
  next h =>
    have hnot : ∀ r ∈ s.pendingTaskRequests,
        (s.requests r).requestId ≠ (s.requests (s.calls c).request).requestId := by
      simpa [clearTimeout] using h
    rw [matchmaker_setStage]
    convert (Act.lose (m := s.matchmaker) hc hp).acts (hlose hnot) using 1
    exact congrArg (Matchmaker.setPhase · c .closed) (htask (s.clearTimeout _) _)
  next r h =>
    obtain ⟨l₁, l₂, hpending, herase⟩ := exists_of_find?_eraseP h
    have hid : (s.requests r).requestId = (s.requests (s.calls c).request).requestId := by
      simpa [clearTimeout] using List.find?_some h
    rw [matchmaker_setStage]
    refine acts_taskReady hP hc hp hpending hid ?_
    rw [matchmaker_setTimeout, herase]
    exact congrArg (fun m => { m with pending := l₁ ++ l₂ })
      (htask (s.clearTimeout (s.requests (s.calls c).request).timeout) _)

theorem acts_cancelAccepted (reason : String) (hc : c < s.nextCall)
    (hp : (s.calls c).stage.phase ≠ .asked) (ho : (s.calls c).stage.phase ≠ .closed) :
    Acts nanoid P s.matchmaker (s.cancelAccepted c reason).matchmaker := by
  have hcancel : (s.cancelAccepted c reason).matchmaker =
      ({ s.matchmaker with tasks := s.matchmaker.tasks \ {(s.calls c).taskId} } :
        Matchmaker String String String String).setPhase c .cancelled := by
    unfold cancelAccepted
    rw [matchmaker_setStage, matchmaker_cancelTask]
    rfl
  rw [hcancel]
  refine (acts_drop hP (m := s.matchmaker) rfl Set.sdiff_subset).trans
    ((Act.cancel hc hp ho ?_).acts (hP _))
  exact fun hmem => hmem.2 rfl

theorem acts_sendTaskSettings (settings : JsValue) (hc : c < s.nextCall)
    (hp : (s.calls c).stage.phase = .entered)
    (ha : RequesterReply.isSettings (s.calls c).requesterReply) :
    Acts nanoid P s.matchmaker (s.sendTaskSettings c settings).matchmaker := by
  unfold sendTaskSettings
  cases h : s.tasks.get? (s.calls c).taskId with
  | none =>
    simp only
    rw [matchmaker_setStage]
    refine (Act.finish (m := s.matchmaker) hc ?_ fun _ => ?_).acts (hP _)
    · change (s.calls c).stage.phase ≠ _
      rw [hp]
      simp
    · simp [matchmaker, AcceptCall.toAttempt, h]
  | some task =>
    simp only
    split_ifs with hrunner
    · rw [matchmaker_setStage]
      exact (Act.confirm (m := s.matchmaker) hc hp ha).acts (hP _)
    · rw [matchmaker_setStage, matchmaker_failTask]
      refine (acts_drop hP (m := s.matchmaker) rfl Set.sdiff_subset).trans
        ((Act.cancel (c := c) hc ?_ ?_ ?_).acts (hP _))
      · change (s.calls c).stage.phase ≠ _
        rw [hp]
        simp
      · change (s.calls c).stage.phase ≠ _
        rw [hp]
        simp
      · exact fun hmem => hmem.2 rfl

theorem acts_sendToRunner (runnerId : String) (settings : JsValue)
    (hc : c < s.nextCall) (hp : (s.calls c).stage.phase = .confirmed) :
    Acts nanoid P s.matchmaker (s.sendToRunner c runnerId settings).matchmaker := by
  unfold sendToRunner
  cases h : s.tasks.get? (s.calls c).taskId with
  | none =>
    simp only [h]
    rw [matchmaker_setStage]
    refine (Act.finish (m := s.matchmaker) hc ?_ fun hentered => ?_).acts (hP _)
    · change (s.calls c).stage.phase ≠ _
      rw [hp]
      simp
    · change (s.calls c).stage.phase = _ at hentered
      rw [hp] at hentered
      cases hentered
  | some task =>
    simp only [h]
    refine Acts.of_eq nanoid ?_
    rw [matchmaker_setStage_of_phase]
    · rw [matchmaker_messageRunner, matchmaker_setTimeout]
      have hmem : (s.calls c).taskId ∈ s.matchmaker.tasks := by simp [matchmaker, h]
      rw [matchmaker_setTask s _ _ s.entered, Set.insert_eq_of_mem hmem]
      rfl
    · rw [messageRunner]
      split_ifs <;> exact hp

/-- A call goes on.  Its request is put back only when the runner has deferred the task, and its
task is lost only when the request is no longer pending. -/
theorem acts_resume (returned : Bool) (hc : c < s.nextCall)
    (hdefer : (s.calls c).stage = .awaitingRunner → (s.calls c).runnerReply = some .deferred →
      P s.matchmaker (.defer c)) (hlose :
    (s.calls c).stage = .awaitingRunner → (s.calls c).runnerReply = some .accepted →
      (∀ r ∈ s.pendingTaskRequests,
        (s.requests r).requestId ≠ (s.requests (s.calls c).request).requestId) →
      P s.matchmaker (.lose c)) :
    Acts nanoid P s.matchmaker (s.resume c returned).matchmaker := by
  have hphase : ∀ stage, (s.calls c).stage = stage → (s.calls c).stage.phase = stage.phase :=
    fun _ h => congrArg Stage.phase h
  -- a call that is neither asking nor over can be cancelled or finished
  have hcancel : ∀ reason, (s.calls c).stage.phase ≠ .asked → (s.calls c).stage.phase ≠ .closed →
      Acts nanoid P s.matchmaker (s.cancelAccepted c reason).matchmaker :=
    fun reason hp ho => acts_cancelAccepted hP s reason hc hp ho
  have hfinish : (s.calls c).stage.phase ≠ .asked → (s.calls c).stage.phase ≠ .entered →
      Acts nanoid P s.matchmaker (s.setStage c .finished).matchmaker := by
    intro hp hentered
    rw [matchmaker_setStage]
    exact (Act.finish (m := s.matchmaker) hc hp fun h => absurd h hentered).acts (hP _)
  unfold resume
  cases hs : (s.calls c).stage with
  | messagingRunner =>
    cases returned with
    | true => exact Acts.of_eq nanoid (matchmaker_setStage_of_phase (hphase .messagingRunner hs))
    | false => exact acts_acceptFailed hP s hc (hphase _ hs)
  | awaitingRunner =>
    cases hr : (s.calls c).runnerReply with
    | none => exact Acts.of_eq nanoid rfl
    | some reply =>
      cases reply with
      | accepted => exact acts_accepted hP s hc (hphase _ hs) (hlose hs hr)
      | deferred => exact acts_acceptDeferred s hc (hphase _ hs) (hdefer hs hr)
      | rejected | timedOut => exact acts_acceptFailed hP s hc (hphase _ hs)
  | messagingRequester =>
    cases returned with
    | true => exact Acts.of_eq nanoid (matchmaker_setStage_of_phase (hphase .messagingRequester hs))
    | false => exact hcancel _ (by simp [hs, Stage.phase]) (by simp [hs, Stage.phase])
  | awaitingRequester =>
    cases hr : (s.calls c).requesterReply with
    | none => exact Acts.of_eq nanoid rfl
    | some reply =>
      cases reply with
      | settings settings =>
        exact acts_sendTaskSettings hP s settings hc (hphase _ hs) (by rw [hr]; rfl)
      | rejected | timedOut =>
        exact hcancel _ (by simp [hs, Stage.phase]) (by simp [hs, Stage.phase])
  | runnerFound runnerId settings =>
    exact acts_sendToRunner hP s runnerId settings hc (hphase _ hs)
  | runnerMissing => exact hcancel _ (by simp [hs, Stage.phase]) (by simp [hs, Stage.phase])
  | sendingSettings =>
    cases returned with
    | true => exact hfinish (by simp [hs, Stage.phase]) (by simp [hs, Stage.phase])
    | false => exact hcancel _ (by simp [hs, Stage.phase]) (by simp [hs, Stage.phase])
  | cancelling => exact hfinish (by simp [hs, Stage.phase]) (by simp [hs, Stage.phase])
  | finished => exact Acts.of_eq nanoid rfl

/-! ### Events -/

theorem acts_onTimer (timer : Timer) :
    Acts nanoid P s.matchmaker (s.onTimer mode timer).matchmaker := by
  cases timer with
  | requestTimeout requestId => exact acts_handleRequestTimeout hP s requestId
  | runnerAcceptTimeout c => exact Acts.of_eq nanoid (matchmaker_settleRunner ..)
  | requesterAcceptTimeout c =>
    exact acts_settleRequester s c .timedOut fun h => absurd h (by simp [RequesterReply.isSettings])
  | taskTimeout taskId => exact Acts.of_eq nanoid (matchmaker_handleTaskTimeout ..)

theorem acts_deregisterRunner (runnerId error : String) :
    Acts nanoid P s.matchmaker (s.deregisterRunner runnerId error).matchmaker := by
  have hfold : ∀ (l : List Task) (s' : TaskBroker),
      Acts nanoid P s'.matchmaker (l.foldl (failTaskOf runnerId error) s').matchmaker := by
    intro l
    induction l with
    | nil => exact fun s' => Acts.of_eq nanoid rfl
    | cons task l ih =>
      intro s'
      refine Acts.trans ?_ (ih _)
      unfold failTaskOf
      split_ifs
      · refine (acts_failTask hP s' task.id (.disconnected error)).trans (Acts.of_eq nanoid ?_)
        exact matchmaker_replyOfRunner ..
      · exact Acts.of_eq nanoid rfl
  have hoffers : Acts nanoid P s.matchmaker ({ s with
      knownRunners := s.knownRunners.filter (· ≠ runnerId)
      pendingTaskOffers := s.pendingTaskOffers.filter (·.runnerId ≠ runnerId) } :
        TaskBroker).matchmaker :=
    (Act.withdraw (m := s.matchmaker) (List.filter_sublist.map TaskOffer.offerId)).acts (hP _)
  exact hoffers.trans (hfold _ _)

end Acts

/-- The call goes on with a deferral by the runner. -/
def Defers (s : TaskBroker) (e : Event) (c : ℕ) : Prop :=
  (∃ returned, e = .resume c returned) ∧ c < s.nextCall ∧ (s.calls c).stage = .awaitingRunner ∧
    (s.calls c).runnerReply = some .deferred

/-- The call goes on with an acceptance by the runner, and no request with its request id is
pending. -/
def Loses (s : TaskBroker) (e : Event) (c : ℕ) : Prop :=
  (∃ returned, e = .resume c returned) ∧ c < s.nextCall ∧ (s.calls c).stage = .awaitingRunner ∧
    (s.calls c).runnerReply = some .accepted ∧
    ∀ r ∈ s.pendingTaskRequests,
      (s.requests r).requestId ≠ (s.requests (s.calls c).request).requestId

/-- The settings for the task of the call come in. -/
def Answers (s : TaskBroker) (e : Event) (c : ℕ) : Prop :=
  ∃ requesterId taskId settings now,
    e = .requesterMessage requesterId (.taskSettings taskId settings) now ∧
    s.requesterAcceptRejects.get? taskId = some c

/-- The acts that an event can cause. -/
def Allowed (s : TaskBroker) (e : Event) (m : Matchmaker String String String String) :
    Label → Prop
  | .silent => True
  | .defer c => m = s.matchmaker ∧ s.Defers e c
  | .lose c => m = s.matchmaker ∧ s.Loses e c
  | .answer c => m = s.matchmaker ∧ s.Answers e c

/-- What an event brings in: a request, which may be refused, or an offer, or nothing. -/
inductive Event.Brings : Event → Matchmaker String String String String →
    Matchmaker String String String String → Prop
  | nothing {e : Event} {m : Matchmaker String String String String} : Brings e m m
  | request {requesterId requestId taskType : String} {now : ℤ}
    {m : Matchmaker String String String String} :
    Brings (.requesterMessage requesterId (.taskRequest requestId taskType) now) m
      (m.request requesterId requestId)
  | refusal {requesterId requestId taskType : String} {now : ℤ}
    {m : Matchmaker String String String String} :
    Brings (.requesterMessage requesterId (.taskRequest requestId taskType) now) m
      (m.refuse requestId)
  | offer {runnerId offerId taskType : String} {validFor now : ℤ}
    {m : Matchmaker String String String String} :
    Brings (.runnerMessage runnerId (.taskOffer offerId taskType validFor) now) m (m.offer offerId)

/-- **A step of the broker is made of acts of a matchmaker**, on what its event brings in. -/
theorem step_refines (nanoid : ℕ → String) (mode : TaskRunnerMode) (s : TaskBroker) (e : Event) :
    ∃ m, e.Brings s.matchmaker m ∧
      Acts nanoid (s.Allowed e) m (s.step nanoid mode e).matchmaker := by
  have hP : ∀ m, s.Allowed e m .silent := fun _ => trivial
  -- most events bring nothing in
  have hnone : Acts nanoid (s.Allowed e) s.matchmaker (s.step nanoid mode e).matchmaker →
      ∃ m, e.Brings s.matchmaker m ∧
        Acts nanoid (s.Allowed e) m (s.step nanoid mode e).matchmaker :=
    fun h => ⟨_, .nothing, h⟩
  cases e with
  | registerRunner runnerId =>
    exact hnone (Acts.of_eq nanoid (matchmaker_messageRunner ..))
  | deregisterRunner runnerId error => exact hnone (acts_deregisterRunner hP ..)
  | registerRequester | deregisterRequester | startDraining =>
    exact hnone (Acts.of_eq nanoid rfl)
  | runnerMessage runnerId message now =>
    by_cases hknown : runnerId ∈ s.knownRunners
    · have hstep : s.step nanoid mode (.runnerMessage runnerId message now) = _ := if_pos hknown
      cases message with
      | taskOffer offerId taskType validFor =>
        refine ⟨s.matchmaker.offer offerId, .offer, ?_⟩
        rw [hstep]
        refine Acts.trans (Acts.of_eq nanoid ?_) (acts_settleTasks hP _ now)
        simp [matchmaker, Matchmaker.offer]
      | taskAccepted | taskRejected | taskDeferred =>
        refine hnone (Acts.of_eq nanoid ?_)
        rw [hstep]
        exact matchmaker_replyOfRunner ..
      | taskDone | taskError =>
        refine hnone (Acts.of_eq nanoid ?_)
        rw [hstep]
        exact matchmaker_endTask s _ (fun _ => rfl) fun _ => rfl
      | taskDataRequest | nodeTypesRequest | rpc =>
        refine hnone (Acts.of_eq nanoid ?_)
        rw [hstep]
        exact matchmaker_askRequester s _ (fun _ => rfl) fun _ => rfl
      | info => exact hnone (Acts.of_eq nanoid (congrArg matchmaker hstep))
    · have hstep : s.step nanoid mode (.runnerMessage runnerId message now) = s := if_neg hknown
      rw [hstep]
      exact ⟨s.matchmaker, .nothing, Acts.of_eq nanoid rfl⟩
  | requesterMessage requesterId message now =>
    cases message with
    | taskSettings taskId settings =>
      exact hnone (acts_replyOfRequester s taskId _ fun _ c hc =>
        ⟨rfl, requesterId, taskId, settings, now, rfl, hc⟩)
    | taskCancel taskId reason => exact hnone (acts_cancelTask hP ..)
    | taskRequest requestId taskType =>
      change ∃ m, _ ∧ Acts nanoid _ m (taskRequested nanoid _ _ now).matchmaker
      unfold taskRequested
      split_ifs with hdraining
      · rcases matchmaker_requestExpired ((s.setTimeout (.requestTimeout requestId)).clearTimeout
          (some s.nextTimer)) requesterId requestId .draining with hm | hm
        · exact ⟨s.matchmaker, .nothing, Acts.of_eq nanoid hm⟩
        · exact ⟨s.matchmaker.refuse requestId, .refusal, Acts.of_eq nanoid hm⟩
      · refine ⟨s.matchmaker.request requesterId requestId, .request,
          (Acts.of_eq nanoid ?_).trans (acts_settleTasks hP _ now)⟩
        exact congrArg (fun requests =>
          { s.matchmaker.request requesterId requestId with requests })
          (Function.comp_update TaskRequest.toRequest s.requests s.nextRequest _)
    | taskDataResponse | nodeTypesResponse | rpcResponse =>
      exact hnone (acts_answerRunner hP ..)
  | requesterReject taskId reason =>
    exact hnone (acts_replyOfRequester s taskId _ fun h => absurd h (by simp [RequesterReply.isSettings]))
  | timer id =>
    refine hnone ?_
    unfold step
    cases h : s.timers.find? (·.1 = id) with
    | none =>
      simp only [h]
      exact Acts.of_eq nanoid rfl
    | some timer =>
      simp only [h]
      exact acts_onTimer hP { s with timers := s.timers.filter (·.1 ≠ id) } timer.2
  | resume c returned =>
    refine hnone ?_
    unfold step
    simp only
    split_ifs with hc
    · exact acts_resume hP s returned hc
        (fun hs hr => ⟨rfl, ⟨returned, rfl⟩, hc, hs, hr⟩)
        fun hs hr hnot => ⟨rfl, ⟨returned, rfl⟩, hc, hs, hr, hnot⟩
    · exact Acts.of_eq nanoid rfl
  | job i returned =>
    refine hnone ?_
    unfold step
    cases h : s.jobs[i]? with
    | none =>
      simp only [h]
      exact Acts.of_eq nanoid rfl
    | some job =>
      simp only [h]
      cases returned with
      | true => exact acts_runJob hP { s with jobs := s.jobs.eraseIdx i } job
      | false => exact Acts.of_eq nanoid rfl

/-- **A run of the broker is a run of a matchmaker** to which the events bring requests and offers. -/
theorem run_refines (nanoid : ℕ → String) (mode : TaskRunnerMode) (events : List Event) :
    Lts.Run (fun m e m' => ∃ m₁, Event.Brings e m m₁ ∧ Acts nanoid (fun _ _ => True) m₁ m')
      (matchmaker {}) events (run nanoid mode events).matchmaker := by
  induction events using List.reverseRecOn with
  | nil => exact .nil _
  | append_singleton events e ih =>
    obtain ⟨m, hm, hacts⟩ := step_refines nanoid mode (run nanoid mode events) e
    rw [run_concat]
    refine ih.snoc ⟨m, hm, Relation.ReflTransGen.mono ?_ _ _ hacts⟩
    exact fun _ _ ⟨a, _, h⟩ => ⟨a, trivial, h⟩

end TaskBroker

end N8n
