import N8n.Broker.OrphanTasks
import N8n.Lib.Lts

/-!
# Final messages

A requester is told once that its task is over.

* `TaskBroker.finalMessages`: the tasks that requesters were told are over;
* `TaskBroker.Ends`: the events that make the broker tell so;
* `TaskBroker.finalMessages_nodup`: in a run in which no task is ended while the requester is still
  being told of its end, each task is told once at most;
* `TaskBroker.told_twice`: a task whose runner disconnects meanwhile is told twice.
-/

namespace N8n

/-- The task that a message reports to be over. -/
def Sent.final? : Sent → Option String
  | .toRequester _ (.taskDone taskId _) => some taskId
  | .toRequester _ (.taskError taskId _) => some taskId
  | _ => none

/-- The task whose runner a message of a requester is passed on to. -/
def RequesterMessage.answered? : RequesterMessage → Option String
  | .taskDataResponse taskId _ _ => some taskId
  | .nodeTypesResponse taskId _ _ => some taskId
  | .rpcResponse taskId _ _ _ => some taskId
  | _ => none

namespace TaskBroker

variable {nanoid : ℕ → String} {mode : TaskRunnerMode}

/-- The ids of the tasks in `broker:taskdone` and `broker:taskerror`, in the order sent. -/
def finalMessages (s : TaskBroker) : List String := s.sent.filterMap Sent.final?

/-- The runner of the task has been deregistered. -/
def RunnerMissing (s : TaskBroker) (taskId : String) : Prop :=
  ∃ task, s.tasks.get? taskId = some task ∧ task.runnerId ∉ s.knownRunners

/-- The event makes the broker tell the requester of the task that the task is over. -/
inductive Ends (mode : TaskRunnerMode) (s : TaskBroker) : Event → String → Prop
  | taskDone {runnerId taskId : String} {data : JsValue} {now : ℤ}
    (hknown : runnerId ∈ s.knownRunners) :
    Ends mode s (.runnerMessage runnerId (.taskDone taskId data) now) taskId
  | taskError {runnerId taskId : String} {error : JsValue} {now : ℤ}
    (hknown : runnerId ∈ s.knownRunners) :
    Ends mode s (.runnerMessage runnerId (.taskError taskId error) now) taskId
  | timeout {id id' : ℕ} {taskId : String} (hmode : mode = .internal)
    (htimer : s.timers.find? (·.1 = id) = some (id', .taskTimeout taskId)) :
    Ends mode s (.timer id) taskId
  | timedOut {i : ℕ} {taskId : String} (hjob : s.jobs[i]? = some (.failTimedOutTask taskId)) :
    Ends mode s (.job i true) taskId
  | deregisterRunner {error : String} {task : Task} (htask : task ∈ s.tasks.values) :
    Ends mode s (.deregisterRunner task.runnerId error) task.id
  | response {requesterId taskId : String} {message : RequesterMessage} {now : ℤ}
    (hmessage : message.answered? = some taskId) (hrunner : s.RunnerMissing taskId) :
    Ends mode s (.requesterMessage requesterId message now) taskId
  | settings {c : ℕ} {returned : Bool} {settings : JsValue}
    (hstage : (s.calls c).stage = .awaitingRequester)
    (hreply : (s.calls c).requesterReply = some (.settings settings))
    (hrunner : s.RunnerMissing (s.calls c).taskId) :
    Ends mode s (.resume c returned) (s.calls c).taskId

/-- The tasks are entered under their ids. -/
def Keyed (s : TaskBroker) : Prop := ∀ k task, s.tasks.get? k = some task → task.id = k

/-- What leads from `s` to `s'` sends the final messages `l`, and no handler goes on meanwhile. -/
structure Tells (s s' : TaskBroker) (l : List String) : Prop where
  finals : s'.finalMessages = s.finalMessages ++ l
  jobs : ∀ job ∈ s.jobs, job ∈ s'.jobs
  keyed : s.Keyed → s'.Keyed

section Tells

variable {s s₁ s₂ : TaskBroker} {l l' : List String}

theorem Tells.trans (h : Tells s s₁ l) (h' : Tells s₁ s₂ l') : Tells s s₂ (l ++ l') where
  finals := by rw [h'.finals, h.finals, List.append_assoc]
  jobs job hjob := h'.jobs job (h.jobs job hjob)
  keyed hs := h'.keyed (h.keyed hs)

/-- What leaves messages, handlers and tasks alone. -/
theorem Tells.of_eq (hsent : s₁.sent = s.sent) (hjobs : s₁.jobs = s.jobs)
    (htasks : s₁.tasks = s.tasks) : Tells s s₁ [] where
  finals := by rw [finalMessages, finalMessages, hsent, List.append_nil]
  jobs job hjob := hjobs ▸ hjob
  keyed hs k task hk := hs k task (htasks ▸ hk)

theorem Tells.refl (s : TaskBroker) : Tells s s [] := .of_eq rfl rfl rfl

theorem Tells.quiet_trans (h : Tells s s₁ []) (h' : Tells s₁ s₂ l) : Tells s s₂ l :=
  h.trans h'

theorem Keyed.erase (h : s.Keyed) (taskId : String) :
    Keyed { s with tasks := s.tasks.erase taskId } := by
  intro k task hk
  have hget : (s.tasks.erase taskId).get? k = some task := hk
  rw [Dict.get?_erase] at hget
  split_ifs at hget
  exact h k task hget

theorem tells_erase (s : TaskBroker) (taskId : String) :
    Tells s { s with tasks := s.tasks.erase taskId } [] where
  finals := (List.append_nil _).symm
  jobs _ hjob := hjob
  keyed hs := hs.erase taskId

theorem tells_messageRunner (s : TaskBroker) (runnerId : String)
    (message : BrokerMessage.ToRunner) : Tells s (s.messageRunner runnerId message) [] := by
  unfold messageRunner
  split_ifs
  · exact ⟨by simp [finalMessages, Sent.final?], fun _ hjob => hjob, fun hs => hs⟩
  · exact .refl s

theorem tells_messageRequester (s : TaskBroker) (requesterId : String)
    (message : BrokerMessage.ToRequester) : Tells s (s.messageRequester requesterId message)
      (if requesterId ∈ s.requesters then (Sent.toRequester requesterId message).final?.toList
        else []) := by
  unfold messageRequester
  split_ifs
  · refine ⟨?_, fun _ hjob => hjob, fun hs => hs⟩
    show List.filterMap _ _ = _
    rw [List.filterMap_append]
    rfl
  · exact .refl s

variable {message : BrokerMessage.ToRequester}

/-- A message that does not end a task. -/
theorem tells_messageRequester_of_none (s : TaskBroker) (requesterId : String)
    (h : (Sent.toRequester requesterId message).final? = none) :
    Tells s (s.messageRequester requesterId message) [] := by
  have htells := tells_messageRequester s requesterId message
  rw [h] at htells
  simpa using htells

theorem tells_setTimeout (s : TaskBroker) (timer : Timer) : Tells s (s.setTimeout timer) [] :=
  .of_eq rfl rfl rfl

theorem tells_clearTimeout (s : TaskBroker) (id : Option ℕ) : Tells s (s.clearTimeout id) [] :=
  .of_eq rfl rfl rfl

theorem tells_setStage (s : TaskBroker) (c : ℕ) (stage : Stage) : Tells s (s.setStage c stage) [] :=
  .of_eq rfl rfl rfl

@[simp] theorem tasks_messageRequester (s : TaskBroker) (requesterId : String)
    (message : BrokerMessage.ToRequester) :
    (s.messageRequester requesterId message).tasks = s.tasks := by
  unfold messageRequester
  split_ifs <;> rfl

/-- At most one final message is sent, and it is for this task. -/
def AtMost (taskId : String) (l : List String) : Prop := l = [] ∨ l = [taskId]

theorem atMost_final (taskId requesterId : String) (requesters : List String)
    (h : (Sent.toRequester requesterId message).final? = some taskId) :
    AtMost taskId (if requesterId ∈ requesters then
      (Sent.toRequester requesterId message).final?.toList else []) := by
  rw [h]
  split_ifs
  · exact .inr rfl
  · exact .inl rfl

/-! ### Tasks -/

theorem tells_cancelTask (s : TaskBroker) (taskId reason : String) :
    Tells s (s.cancelTask taskId reason) [] := by
  unfold cancelTask
  cases s.tasks.get? taskId with
  | none => exact .refl s
  | some task => exact (tells_erase s taskId).quiet_trans (tells_messageRunner ..)

/-- A task that fails is deleted before its requester is told. -/
theorem tells_failTask (s : TaskBroker) (taskId : String) (error : TaskFailure) :
    ∃ l, Tells s (s.failTask taskId error) l ∧ AtMost taskId l ∧
      (l = [] ∨ (s.tasks.get? taskId).isSome) := by
  unfold failTask
  cases htask : s.tasks.get? taskId with
  | none => exact ⟨[], .refl s, .inl rfl, .inl rfl⟩
  | some task =>
    exact ⟨_, (tells_erase s taskId).quiet_trans (tells_messageRequester ..),
      atMost_final taskId _ _ rfl, .inr rfl⟩

theorem get?_tasks_failTask (s : TaskBroker) (taskId : String) (error : TaskFailure) (t : String) :
    (s.failTask taskId error).tasks.get? t = if t = taskId then none else s.tasks.get? t := by
  unfold failTask
  cases htask : s.tasks.get? taskId with
  | none =>
    split_ifs with h
    · rw [h]
      exact htask
    · rfl
  | some task =>
    dsimp only
    rw [tasks_messageRequester]
    exact Dict.get?_erase _ _ _

/-- A task that ends is deleted after its requester is told. -/
theorem tells_endTask (s : TaskBroker) (hkeyed : s.Keyed) (taskId : String)
    (h : ∀ requesterId, (Sent.toRequester requesterId message).final? = some taskId) :
    ∃ l, Tells s (s.endTask taskId message) l ∧ AtMost taskId l ∧
      (l = [] ∨ Job.deleteTask taskId ∈ (s.endTask taskId message).jobs) := by
  unfold endTask
  cases htask : s.tasks.get? taskId with
  | none => exact ⟨[], .refl s, .inl rfl, .inl rfl⟩
  | some task =>
    have htells := (tells_clearTimeout s task.timeout).quiet_trans
      (tells_messageRequester (s.clearTimeout task.timeout) task.requesterId message)
    refine ⟨_, ⟨htells.finals, fun job hjob => ?_, htells.keyed⟩, atMost_final taskId _ _ (h _),
      .inr ?_⟩
    · exact List.mem_append_left _ (htells.jobs job hjob)
    · refine List.mem_append_right _ ?_
      rw [hkeyed taskId task htask]
      exact List.mem_singleton_self _

theorem tells_askRequester (s : TaskBroker) (taskId : String)
    (h : ∀ requesterId, (Sent.toRequester requesterId message).final? = none) :
    Tells s (s.askRequester taskId message) [] := by
  unfold askRequester
  cases s.tasks.get? taskId with
  | none => exact .refl s
  | some task => exact tells_messageRequester_of_none s _ (h _)

/-- An answer for a task whose runner is missing fails the task. -/
theorem tells_answerRunner (s : TaskBroker) (taskId : String) (message : BrokerMessage.ToRunner) :
    ∃ l, Tells s (s.answerRunner taskId message) l ∧ AtMost taskId l ∧
      (l = [] ∨ s.RunnerMissing taskId ∧
        (s.answerRunner taskId message).tasks.get? taskId = none) := by
  unfold answerRunner
  cases htask : s.tasks.get? taskId with
  | none => exact ⟨[], .refl s, .inl rfl, .inl rfl⟩
  | some task =>
    dsimp only
    split_ifs with hrunner
    · exact ⟨[], ⟨(List.append_nil _).symm, fun job hjob => List.mem_append_left _ hjob,
        fun hs => hs⟩, .inl rfl, .inl rfl⟩
    · obtain ⟨l, htells, hl, -⟩ := tells_failTask s taskId (.runnerNotFound task.runnerId)
      refine ⟨l, htells, hl, .inr ⟨⟨task, htask, hrunner⟩, ?_⟩⟩
      rw [get?_tasks_failTask, if_pos rfl]

theorem tells_replyOfRunner (s : TaskBroker) (taskId : String) (reply : RunnerReply) :
    Tells s (s.replyOfRunner taskId reply) [] := by
  unfold replyOfRunner
  cases s.runnerAcceptRejects.get? taskId with
  | none => exact .refl s
  | some c => exact .of_eq rfl rfl rfl

theorem tells_replyOfRequester (s : TaskBroker) (taskId : String) (reply : RequesterReply) :
    Tells s (s.replyOfRequester taskId reply) [] := by
  unfold replyOfRequester
  cases s.requesterAcceptRejects.get? taskId with
  | none => exact .refl s
  | some c => exact .of_eq rfl rfl rfl

/-! ### Requests and offers -/

theorem tells_handleRequestTimeout (s : TaskBroker) (requestId : String) :
    Tells s (s.handleRequestTimeout requestId) [] := by
  unfold handleRequestTimeout
  cases s.pendingTaskRequests.find? fun r => (s.requests r).requestId = requestId with
  | none => exact .refl s
  | some r =>
    refine Tells.quiet_trans ?_ (tells_messageRequester_of_none _ _ rfl)
    exact .of_eq rfl rfl rfl

theorem tells_acceptOffer (s : TaskBroker) (offer : TaskOffer) (r : ℕ) :
    Tells s (s.acceptOffer nanoid offer r) [] := by
  have hmessage := tells_messageRunner (({ s with
    runnerAcceptRejects := s.runnerAcceptRejects.set (nanoid s.nextCall) s.nextCall }).setTimeout
      (.runnerAcceptTimeout s.nextCall)) offer.runnerId
        (.taskOfferAccept (nanoid s.nextCall) offer.offerId)
  exact ⟨hmessage.finals, hmessage.jobs, hmessage.keyed⟩

theorem tells_settleTasks (nanoid : ℕ → String) (s : TaskBroker) (now : ℤ) :
    Tells s (s.settleTasks nanoid now) [] := by
  have hfold : ∀ (l : List ℕ) (s' : TaskBroker),
      Tells s' (l.foldl (settleRequest nanoid) s') [] := by
    intro l
    induction l with
    | nil => exact fun s' => .refl s'
    | cons r l ih =>
      intro s'
      refine Tells.quiet_trans ?_ (ih _)
      unfold settleRequest
      split_ifs
      · exact .refl s'
      · split
        · exact .refl s'
        · refine Tells.quiet_trans ?_ (tells_acceptOffer _ _ _)
          exact .of_eq rfl rfl rfl
  have hsettled := hfold (s.expireTasks now).pendingTaskRequests (s.expireTasks now)
  exact ⟨hsettled.finals, hsettled.jobs, hsettled.keyed⟩

theorem tells_taskRequested (s : TaskBroker) (request : TaskRequest) (now : ℤ) :
    Tells s (s.taskRequested nanoid request now) [] := by
  unfold taskRequested
  split_ifs
  · exact (tells_clearTimeout s _).quiet_trans (tells_messageRequester_of_none _ _ rfl)
  · have hsettled := tells_settleTasks nanoid { s with
      requests := Function.update s.requests s.nextRequest request
      nextRequest := s.nextRequest + 1
      pendingTaskRequests := s.pendingTaskRequests ++ [s.nextRequest] } now
    exact ⟨hsettled.finals, hsettled.jobs, hsettled.keyed⟩

theorem tells_taskOffered (s : TaskBroker) (offer : TaskOffer) (now : ℤ) :
    Tells s (s.taskOffered nanoid offer now) [] := by
  have hsettled := tells_settleTasks nanoid
    { s with pendingTaskOffers := s.pendingTaskOffers ++ [offer] } now
  exact ⟨hsettled.finals, hsettled.jobs, hsettled.keyed⟩

/-! ### The rest of `acceptOffer` -/

/-- What enters a task, or changes it, under its id. -/
theorem Tells.of_set (taskId : String) {task : Task} (hid : s.Keyed → task.id = taskId)
    (hsent : s₁.sent = s.sent) (hjobs : s₁.jobs = s.jobs)
    (htasks : s₁.tasks = s.tasks.set taskId task) : Tells s s₁ [] where
  finals := by rw [finalMessages, finalMessages, hsent, List.append_nil]
  jobs job hjob := hjobs ▸ hjob
  keyed hs k task' hk := by
    rw [htasks, Dict.get?_set] at hk
    split_ifs at hk with he
    · rw [← Option.some.inj hk, hid hs, he]
    · exact hs k task' hk

theorem tells_accepted (s : TaskBroker) (c : ℕ) : Tells s (s.accepted c) [] := by
  unfold accepted
  dsimp only
  split
  · exact Tells.of_set (s.calls c).taskId (fun _ => rfl) rfl rfl rfl
  · refine Tells.quiet_trans ?_ (tells_setStage _ c .messagingRequester)
    refine Tells.quiet_trans ?_ (tells_messageRequester_of_none _ _ rfl)
    exact Tells.of_set (s.calls c).taskId (fun _ => rfl) rfl rfl rfl

theorem tells_cancelAccepted (s : TaskBroker) (c : ℕ) (reason : String) :
    Tells s (s.cancelAccepted c reason) [] :=
  (tells_cancelTask s _ reason).quiet_trans (tells_setStage _ c .cancelling)

theorem tells_sendToRunner (s : TaskBroker) (c : ℕ) (runnerId : String) (settings : JsValue) :
    Tells s (s.sendToRunner c runnerId settings) [] := by
  unfold sendToRunner
  dsimp only
  cases htask : s.tasks.get? (s.calls c).taskId with
  | none => exact tells_setStage s c .finished
  | some task =>
    refine Tells.quiet_trans ?_ (tells_setStage _ c .sendingSettings)
    refine Tells.quiet_trans ?_ (tells_messageRunner _ runnerId _)
    refine Tells.of_set (s.calls c).taskId (fun hs => ?_) rfl rfl rfl
    exact hs _ task htask

/-- The settings for a task whose runner is missing fail the task. -/
theorem tells_sendTaskSettings (s : TaskBroker) (c : ℕ) (settings : JsValue) :
    ∃ l, Tells s (s.sendTaskSettings c settings) l ∧ AtMost (s.calls c).taskId l ∧
      (l = [] ∨ s.RunnerMissing (s.calls c).taskId ∧
        (s.sendTaskSettings c settings).tasks.get? (s.calls c).taskId = none) := by
  unfold sendTaskSettings
  cases htask : s.tasks.get? (s.calls c).taskId with
  | none => exact ⟨[], tells_setStage s c .finished, .inl rfl, .inl rfl⟩
  | some task =>
    dsimp only
    split_ifs with hrunner
    · exact ⟨[], tells_setStage s c _, .inl rfl, .inl rfl⟩
    · obtain ⟨l, htells, hl, -⟩ :=
        tells_failTask s (s.calls c).taskId (.runnerNotFound task.runnerId)
      have hstage := htells.trans (tells_setStage _ c .runnerMissing)
      rw [List.append_nil] at hstage
      refine ⟨l, hstage, hl, .inr ⟨⟨task, htask, hrunner⟩, ?_⟩⟩
      exact (get?_tasks_failTask s _ _ _).trans (if_pos rfl)

/-- A call of `acceptOffer` goes on. -/
theorem tells_resume (mode : TaskRunnerMode) (s : TaskBroker) (c : ℕ) (returned : Bool) :
    ∃ l, Tells s (s.resume c returned) l ∧ AtMost (s.calls c).taskId l ∧
      (l = [] ∨ Ends mode s (.resume c returned) (s.calls c).taskId ∧
        (s.resume c returned).tasks.get? (s.calls c).taskId = none) := by
  have hquiet : ∀ {s' : TaskBroker}, s.resume c returned = s' → Tells s s' [] →
      ∃ l, Tells s (s.resume c returned) l ∧ AtMost (s.calls c).taskId l ∧
        (l = [] ∨ Ends mode s (.resume c returned) (s.calls c).taskId ∧
          (s.resume c returned).tasks.get? (s.calls c).taskId = none) := by
    rintro s' rfl htells
    exact ⟨[], htells, .inl rfl, .inl rfl⟩
  have hfailed : Tells s (s.acceptFailed c) [] := .of_eq rfl rfl rfl
  cases hstage : (s.calls c).stage with
  | messagingRunner =>
    refine hquiet (by rw [resume, hstage]) ?_
    dsimp only
    split_ifs
    · exact tells_setStage s c _
    · exact hfailed
  | awaitingRunner =>
    refine hquiet (by rw [resume, hstage]) ?_
    dsimp only
    split
    · exact .refl s
    · exact tells_accepted s c
    · exact .of_eq rfl rfl rfl
    · exact hfailed
    · exact hfailed
  | messagingRequester =>
    refine hquiet (by rw [resume, hstage]) ?_
    dsimp only
    split_ifs
    · exact tells_setStage s c _
    · exact tells_cancelAccepted s c _
  | awaitingRequester =>
    cases hreply : (s.calls c).requesterReply with
    | none => exact hquiet (by rw [resume, hstage]; dsimp only; rw [hreply]) (.refl s)
    | some reply =>
      cases reply with
      | settings settings =>
        have hresume : s.resume c returned = s.sendTaskSettings c settings := by
          rw [resume, hstage]
          dsimp only
          rw [hreply]
        obtain ⟨l, htells, hl, hends⟩ := tells_sendTaskSettings s c settings
        rw [hresume]
        exact ⟨l, htells, hl, hends.imp id fun h => ⟨.settings hstage hreply h.1, h.2⟩⟩
      | rejected reason =>
        exact hquiet (by rw [resume, hstage]; dsimp only; rw [hreply])
          (tells_cancelAccepted s c reason)
      | timedOut =>
        exact hquiet (by rw [resume, hstage]; dsimp only; rw [hreply])
          (tells_cancelAccepted s c _)
  | runnerFound runnerId settings =>
    exact hquiet (by rw [resume, hstage]) (tells_sendToRunner s c runnerId settings)
  | runnerMissing => exact hquiet (by rw [resume, hstage]) (tells_cancelAccepted s c _)
  | sendingSettings =>
    refine hquiet (by rw [resume, hstage]) ?_
    dsimp only
    split_ifs
    · exact tells_setStage s c _
    · exact tells_cancelAccepted s c _
  | cancelling => exact hquiet (by rw [resume, hstage]) (tells_setStage s c _)
  | finished => exact hquiet (by rw [resume, hstage]) (.refl s)

theorem tasks_replyOfRunner (s : TaskBroker) (taskId : String) (reply : RunnerReply) :
    (s.replyOfRunner taskId reply).tasks = s.tasks := by
  unfold replyOfRunner
  cases s.runnerAcceptRejects.get? taskId <;> rfl

variable (runnerId error : String)

theorem get?_tasks_failTaskOf (s : TaskBroker) (task : Task)
    (t : String) : (failTaskOf runnerId error s task).tasks.get? t =
      if task.runnerId = runnerId ∧ t = task.id then none else s.tasks.get? t := by
  unfold failTaskOf
  by_cases hrunner : task.runnerId = runnerId
  · rw [if_pos hrunner, handleRunnerReject, tasks_replyOfRunner, get?_tasks_failTask]
    simp [hrunner]
  · rw [if_neg hrunner, if_neg fun h => hrunner h.1]

theorem tells_failTaskOf (s : TaskBroker) (task : Task) :
    ∃ l, Tells s (failTaskOf runnerId error s task) l ∧ AtMost task.id l ∧
      (l = [] ∨ task.runnerId = runnerId ∧ (s.tasks.get? task.id).isSome) := by
  unfold failTaskOf
  split_ifs with hrunner
  · obtain ⟨l, htells, hl, hsome⟩ := tells_failTask s task.id (.disconnected error)
    have hreply := htells.trans (tells_replyOfRunner _ task.id (.rejected
      ("The Task Runner (" ++ runnerId ++ ") has disconnected: " ++ error)))
    rw [List.append_nil] at hreply
    exact ⟨l, hreply, hl, hsome.imp id fun h => ⟨hrunner, h⟩⟩
  · exact ⟨[], .refl s, .inl rfl, .inl rfl⟩

theorem get?_tasks_failTasksOf (tasks : List Task) (s : TaskBroker)
    {t : String} (h : s.tasks.get? t = none) :
    (tasks.foldl (failTaskOf runnerId error) s).tasks.get? t = none := by
  induction tasks generalizing s with
  | nil => exact h
  | cons task tasks ih =>
    refine ih _ ?_
    rw [get?_tasks_failTaskOf, h, ite_self]

/-- The tasks of a runner that is deregistered fail, each once. -/
theorem tells_failTasksOf (tasks : List Task) (s : TaskBroker) :
    ∃ l, Tells s (tasks.foldl (failTaskOf runnerId error) s) l ∧ l.Nodup ∧
      ∀ t ∈ l, (∃ task ∈ tasks, task.runnerId = runnerId ∧ task.id = t) ∧
        (s.tasks.get? t).isSome ∧
        (tasks.foldl (failTaskOf runnerId error) s).tasks.get? t = none := by
  induction tasks generalizing s with
  | nil => exact ⟨[], .refl s, List.nodup_nil, fun t ht => by cases ht⟩
  | cons task tasks ih =>
    obtain ⟨l, htells, hl, hfirst⟩ := tells_failTaskOf runnerId error s task
    obtain ⟨l', htells', hnodup, hrest⟩ := ih (failTaskOf runnerId error s task)
    have hlater :
    ∀ t ∈ l', (s.tasks.get? t).isSome ∧ ¬ (task.runnerId = runnerId ∧ t = task.id) := by
      intro t ht
      have hsome := (hrest t ht).2.1
      rw [get?_tasks_failTaskOf] at hsome
      split_ifs at hsome with hself
      · cases hsome
      · exact ⟨hsome, hself⟩
    have hmem : ∀ t ∈ l, t = task.id ∧ task.runnerId = runnerId ∧
        (s.tasks.get? task.id).isSome := by
      intro t ht
      rcases hfirst with rfl | hfirst
      · cases ht
      · rcases hl with rfl | rfl
        · cases ht
        · exact ⟨List.mem_singleton.1 ht, hfirst⟩
    refine ⟨l ++ l', htells.trans htells', List.nodup_append.2 ⟨?_, hnodup, ?_⟩, ?_⟩
    · rcases hl with rfl | rfl
      · exact List.nodup_nil
      · exact List.nodup_singleton _
    · rintro t ht t' ht' rfl
      exact (hlater t ht').2 ⟨(hmem t ht).2.1, (hmem t ht).1⟩
    · intro t ht
      rcases List.mem_append.1 ht with ht | ht
      · obtain ⟨rfl, hrunner, hsome⟩ := hmem t ht
        refine ⟨⟨task, List.mem_cons_self, hrunner, rfl⟩, hsome, ?_⟩
        refine get?_tasks_failTasksOf runnerId error tasks _ ?_
        rw [get?_tasks_failTaskOf, if_pos ⟨hrunner, rfl⟩]
      · obtain ⟨⟨task', htask', hrunner, hid⟩, -, hnone⟩ := hrest t ht
        exact ⟨⟨task', List.mem_cons_of_mem _ htask', hrunner, hid⟩, (hlater t ht).1, hnone⟩

end Tells

/-! ### Steps -/

/-- What an event can do: it sends final messages for tasks that it ends, which are deleted at once
or by a handler that awaits the requester, and it takes that handler on only if it is about it. -/
structure StepTells (nanoid : ℕ → String) (mode : TaskRunnerMode) (s : TaskBroker) (e : Event)
    (l : List String) : Prop where
  finals : (s.step nanoid mode e).finalMessages = s.finalMessages ++ l
  nodup : l.Nodup
  ends : ∀ t ∈ l, Ends mode s e t ∧ (s.tasks.get? t).isSome
  ending : ∀ t ∈ l, (s.step nanoid mode e).tasks.get? t = none ∨
    Job.deleteTask t ∈ (s.step nanoid mode e).jobs
  jobs : ∀ job ∈ s.jobs, job ∈ (s.step nanoid mode e).jobs ∨
    ∃ i returned, e = .job i returned ∧ s.jobs[i]? = some job
  keyed : (s.step nanoid mode e).Keyed

section Steps

variable {s : TaskBroker} {e : Event}

/-- The broker as the handler of the event finds it. -/
structure Before (s s₀ : TaskBroker) (e : Event) : Prop where
  sent : s₀.sent = s.sent
  tasks : s₀.tasks = s.tasks
  jobs : ∀ job ∈ s.jobs, job ∈ s₀.jobs ∨ ∃ i returned, e = .job i returned ∧ s.jobs[i]? = some job

variable {s₀ s' : TaskBroker} {taskId : String}

theorem Before.of_eq (hsent : s₀.sent = s.sent) (htasks : s₀.tasks = s.tasks)
    (hjobs : s₀.jobs = s.jobs) : Before s s₀ e :=
  ⟨hsent, htasks, fun _ hjob => .inl (hjobs ▸ hjob)⟩

theorem StepTells.of_tells {l : List String} (hkeyed : s.Keyed) (hb : Before s s₀ e)
    (hstep : s.step nanoid mode e = s') (h : Tells s₀ s' l) (hnodup : l.Nodup)
    (hends : ∀ t ∈ l, Ends mode s e t ∧ (s.tasks.get? t).isSome)
    (hending : ∀ t ∈ l, s'.tasks.get? t = none ∨ Job.deleteTask t ∈ s'.jobs) :
    StepTells nanoid mode s e l := by
  subst hstep
  refine ⟨?_, hnodup, hends, hending, fun job hjob => (hb.jobs job hjob).imp (h.jobs job) id, ?_⟩
  · rw [h.finals, finalMessages, finalMessages, hb.sent]
  · exact h.keyed fun k task hk => hkeyed k task (hb.tasks ▸ hk)

/-- An event that sends no final message. -/
theorem stepTells_of_quiet (hkeyed : s.Keyed) (hb : Before s s₀ e)
    (hstep : s.step nanoid mode e = s') (h : Tells s₀ s' []) : ∃ l, StepTells nanoid mode s e l :=
  ⟨[], .of_tells hkeyed hb hstep h List.nodup_nil (fun t ht => by cases ht)
    fun t ht => by cases ht⟩

/-- An event that ends one task at most. -/
theorem stepTells_of_atMost {l : List String} (hkeyed : s.Keyed) (hb : Before s s₀ e)
    (hstep : s.step nanoid mode e = s') (h : Tells s₀ s' l) (hl : AtMost taskId l)
    (hends : l = [] ∨ Ends mode s e taskId ∧ (s.tasks.get? taskId).isSome ∧
      (s'.tasks.get? taskId = none ∨ Job.deleteTask taskId ∈ s'.jobs)) :
    ∃ l, StepTells nanoid mode s e l := by
  rcases hl with rfl | rfl
  · exact stepTells_of_quiet hkeyed hb hstep h
  · obtain ⟨hends, hsome, hending⟩ := hends.resolve_left (by simp)
    refine ⟨[taskId], .of_tells hkeyed hb hstep h (List.nodup_singleton _) (fun t ht => ?_)
      fun t ht => ?_⟩
    · rw [List.mem_singleton.1 ht]
      exact ⟨hends, hsome⟩
    · rw [List.mem_singleton.1 ht]
      exact hending

theorem isSome_of_runnerMissing (h : s.RunnerMissing taskId) : (s.tasks.get? taskId).isSome := by
  obtain ⟨task, htask, -⟩ := h
  rw [htask]
  rfl

/-- An event whose handler ends a task. -/
theorem stepTells_endTask (hkeyed : s.Keyed) (hb : Before s s₀ e)
    {message : BrokerMessage.ToRequester} (hstep : s.step nanoid mode e = s₀.endTask taskId message)
    (hfinal : ∀ requesterId, (Sent.toRequester requesterId message).final? = some taskId)
    (hends : Ends mode s e taskId) : ∃ l, StepTells nanoid mode s e l := by
  have hkeyed₀ : s₀.Keyed := fun k task hk => hkeyed k task (hb.tasks ▸ hk)
  cases htask : s.tasks.get? taskId with
  | none =>
    refine stepTells_of_quiet hkeyed hb hstep ?_
    rw [TaskBroker.endTask, hb.tasks, htask]
    exact .refl s₀
  | some task =>
    obtain ⟨l, htells, hl, hjob⟩ := tells_endTask s₀ hkeyed₀ taskId hfinal
    exact stepTells_of_atMost hkeyed hb hstep htells hl
      (hjob.imp id fun h => ⟨hends, by rw [htask]; rfl, .inr h⟩)

theorem exists_stepTells_runnerMessage (hkeyed : s.Keyed) (runnerId : String)
    (message : RunnerMessage) (now : ℤ) :
    ∃ l, StepTells nanoid mode s (.runnerMessage runnerId message now) l := by
  by_cases hknown : runnerId ∈ s.knownRunners
  · have hstep : s.step nanoid mode (.runnerMessage runnerId message now) = _ := if_pos hknown
    cases message with
    | taskDone taskId data =>
      exact stepTells_endTask hkeyed (.of_eq rfl rfl rfl) hstep (fun _ => rfl) (.taskDone hknown)
    | taskError taskId error =>
      exact stepTells_endTask hkeyed (.of_eq rfl rfl rfl) hstep (fun _ => rfl) (.taskError hknown)
    | taskAccepted | taskRejected | taskDeferred =>
      exact stepTells_of_quiet hkeyed (.of_eq rfl rfl rfl) hstep (tells_replyOfRunner ..)
    | taskOffer => exact stepTells_of_quiet hkeyed (.of_eq rfl rfl rfl) hstep (tells_taskOffered ..)
    | taskDataRequest | nodeTypesRequest | rpc =>
      exact stepTells_of_quiet hkeyed (.of_eq rfl rfl rfl) hstep
        (tells_askRequester s _ fun _ => rfl)
    | info => exact stepTells_of_quiet hkeyed (.of_eq rfl rfl rfl) hstep (.refl s)
  · have hstep : s.step nanoid mode (.runnerMessage runnerId message now) = s := if_neg hknown
    exact stepTells_of_quiet hkeyed (.of_eq rfl rfl rfl) hstep (.refl s)

theorem exists_stepTells_requesterMessage (hkeyed : s.Keyed) (requesterId : String)
    (message : RequesterMessage) (now : ℤ) :
    ∃ l, StepTells nanoid mode s (.requesterMessage requesterId message now) l := by
  have hanswer : ∀ taskId toRunner, message.answered? = some taskId →
      s.step nanoid mode (.requesterMessage requesterId message now) =
        s.answerRunner taskId toRunner →
      ∃ l, StepTells nanoid mode s (.requesterMessage requesterId message now) l := by
    intro taskId toRunner hmessage hstep
    obtain ⟨l, htells, hl, hends⟩ := tells_answerRunner s taskId toRunner
    exact stepTells_of_atMost hkeyed (.of_eq rfl rfl rfl) hstep htells hl (hends.imp id fun h =>
      ⟨.response hmessage h.1, isSome_of_runnerMissing h.1, .inl h.2⟩)
  cases message with
  | taskSettings taskId settings =>
      exact stepTells_of_quiet hkeyed (.of_eq rfl rfl rfl) rfl (tells_replyOfRequester ..)
  | taskCancel taskId reason =>
      exact stepTells_of_quiet hkeyed (.of_eq rfl rfl rfl) rfl (tells_cancelTask ..)
  | taskRequest requestId taskType =>
    exact stepTells_of_quiet hkeyed (.of_eq rfl rfl rfl) rfl
      ((tells_setTimeout s _).quiet_trans (tells_taskRequested _ _ _))
  | taskDataResponse | nodeTypesResponse | rpcResponse => exact hanswer _ _ rfl rfl

theorem exists_stepTells_timer (hkeyed : s.Keyed) (id : ℕ) :
    ∃ l, StepTells nanoid mode s (.timer id) l := by
  cases htimer : s.timers.find? (·.1 = id) with
  | none =>
    have hstep : s.step nanoid mode (.timer id) = s := by
      unfold step
      simp only [htimer]
    exact stepTells_of_quiet hkeyed (.of_eq rfl rfl rfl) hstep (.refl s)
  | some timer =>
    obtain ⟨id', timer⟩ := timer
    have hstep : s.step nanoid mode (.timer id) =
        { s with timers := s.timers.filter (·.1 ≠ id) }.onTimer mode timer := by
      unfold step
      simp only [htimer]
    cases timer with
    | requestTimeout requestId =>
      have htells := tells_handleRequestTimeout
        { s with timers := s.timers.filter (·.1 ≠ id) } requestId
      exact stepTells_of_quiet hkeyed (.of_eq rfl rfl rfl) hstep
        ⟨htells.finals, htells.jobs, htells.keyed⟩
    | runnerAcceptTimeout c =>
        exact stepTells_of_quiet hkeyed (.of_eq rfl rfl rfl) hstep (.of_eq rfl rfl rfl)
    | requesterAcceptTimeout c =>
        exact stepTells_of_quiet hkeyed (.of_eq rfl rfl rfl) hstep (.of_eq rfl rfl rfl)
    | taskTimeout taskId =>
      cases mode with
      | internal =>
        cases htask : s.tasks.get? taskId with
        | none =>
          refine stepTells_of_quiet hkeyed (.of_eq rfl rfl rfl) hstep ?_
          unfold onTimer handleTaskTimeout
          simp only [htask]
          exact .of_eq rfl rfl rfl
        | some task =>
          have hend : s.step nanoid .internal (.timer id) =
              { s with timers := s.timers.filter (·.1 ≠ id) }.endTask taskId
                (.taskError taskId .executionTimeout) := by
            rw [hstep]
            unfold onTimer handleTaskTimeout
            simp only [htask]
            rfl
          have hb : Before s { s with timers := s.timers.filter (·.1 ≠ id) } (.timer id) :=
            .of_eq rfl rfl rfl
          exact stepTells_endTask hkeyed hb hend (fun _ => rfl) (.timeout rfl htimer)
      | external =>
        refine stepTells_of_quiet hkeyed (.of_eq rfl rfl rfl) hstep ?_
        unfold onTimer handleTaskTimeout
        dsimp only
        cases s.tasks.get? taskId with
        | none => exact .of_eq rfl rfl rfl
        | some task =>
          have hmessage := tells_messageRunner { s with timers := s.timers.filter (·.1 ≠ id) }
            task.runnerId (.taskCancel taskId "Task execution timed out")
          exact ⟨hmessage.finals, fun job hjob => List.mem_append_left _ (hmessage.jobs job hjob),
            hmessage.keyed⟩

/-- A handler that goes on is no longer among the waiting ones; the others are. -/
theorem mem_eraseIdx_or {jobs : List Job} {job : Job} (h : job ∈ jobs) (i : ℕ) :
    job ∈ jobs.eraseIdx i ∨ jobs[i]? = some job := by
  obtain ⟨j, hj⟩ := List.mem_iff_getElem?.1 h
  by_cases hij : j = i
  · exact .inr (hij ▸ hj)
  · exact .inl (List.mem_eraseIdx_iff_getElem?.2 ⟨j, hij, hj⟩)

theorem exists_stepTells_job (hkeyed : s.Keyed) (i : ℕ) (returned : Bool) :
    ∃ l, StepTells nanoid mode s (.job i returned) l := by
  cases hjob : s.jobs[i]? with
  | none =>
    have hstep : s.step nanoid mode (.job i returned) = s := by
      unfold step
      simp only [hjob]
    exact stepTells_of_quiet hkeyed (.of_eq rfl rfl rfl) hstep (.refl s)
  | some job =>
    have hstep : s.step nanoid mode (.job i returned) =
        if returned then { s with jobs := s.jobs.eraseIdx i }.runJob job
        else { s with jobs := s.jobs.eraseIdx i } := by
      unfold step
      simp only [hjob]
    have hb : Before s { s with jobs := s.jobs.eraseIdx i } (.job i returned) :=
      ⟨rfl, rfl, fun job' hjob' => (mem_eraseIdx_or hjob' i).imp id fun h => ⟨i, returned, rfl, h⟩⟩
    cases returned with
    | false => exact stepTells_of_quiet hkeyed hb hstep (.refl _)
    | true =>
      cases job with
      | deleteTask taskId => exact stepTells_of_quiet hkeyed hb hstep (tells_erase _ taskId)
      | messageRunner runnerId message =>
        exact stepTells_of_quiet hkeyed hb hstep (tells_messageRunner _ runnerId message)
      | failTimedOutTask taskId =>
        exact stepTells_endTask hkeyed hb hstep (fun _ => rfl) (.timedOut hjob)

/-- **What an event can do.** -/
theorem exists_stepTells (nanoid : ℕ → String) (mode : TaskRunnerMode) (hkeyed : s.Keyed)
    (e : Event) : ∃ l, StepTells nanoid mode s e l := by
  cases e with
  | registerRunner runnerId =>
    have hmessage := tells_messageRunner { s with knownRunners := s.knownRunners.insert runnerId }
      runnerId .runnerRegistered
    exact stepTells_of_quiet hkeyed (.of_eq rfl rfl rfl) rfl
      ⟨hmessage.finals, hmessage.jobs, hmessage.keyed⟩
  | deregisterRunner runnerId error =>
    obtain ⟨l, htells, hnodup, hl⟩ := tells_failTasksOf runnerId error s.tasks.values { s with
      knownRunners := s.knownRunners.filter (· ≠ runnerId)
      pendingTaskOffers := s.pendingTaskOffers.filter (·.runnerId ≠ runnerId) }
    refine ⟨l, .of_tells hkeyed (.of_eq rfl rfl rfl) rfl
      ⟨htells.finals, htells.jobs, htells.keyed⟩ hnodup
      (fun t ht => ?_) fun t ht => .inl (hl t ht).2.2⟩
    obtain ⟨⟨task, htask, rfl, rfl⟩, hsome, -⟩ := hl t ht
    exact ⟨.deregisterRunner htask, hsome⟩
  | registerRequester | deregisterRequester | startDraining =>
    exact stepTells_of_quiet hkeyed (.of_eq rfl rfl rfl) rfl (.of_eq rfl rfl rfl)
  | runnerMessage runnerId message now => exact exists_stepTells_runnerMessage hkeyed ..
  | requesterMessage requesterId message now => exact exists_stepTells_requesterMessage hkeyed ..
  | requesterReject taskId reason =>
      exact stepTells_of_quiet hkeyed (.of_eq rfl rfl rfl) rfl (tells_replyOfRequester ..)
  | timer id => exact exists_stepTells_timer hkeyed id
  | resume c returned =>
    by_cases hc : c < s.nextCall
    · have hstep : s.step nanoid mode (.resume c returned) = s.resume c returned := if_pos hc
      obtain ⟨l, htells, hl, hends⟩ := tells_resume mode s c returned
      refine stepTells_of_atMost hkeyed (.of_eq rfl rfl rfl) hstep
        htells hl (hends.imp id fun h => ⟨h.1, ?_, .inl h.2⟩)
      cases h.1 with
      | settings _ _ hrunner => exact isSome_of_runnerMissing hrunner
    · have hstep : s.step nanoid mode (.resume c returned) = s := if_neg hc
      exact stepTells_of_quiet hkeyed (.of_eq rfl rfl rfl) hstep (.refl s)
  | job i returned => exact exists_stepTells_job hkeyed i returned

end Steps

/-! ### Runs -/

/-- A step enters only tasks of calls that had entered none. -/
theorem owned_step (nanoid : ℕ → String) (mode : TaskRunnerMode) (s : TaskBroker) (e : Event)
    (hexclusive : s.matchmaker.Exclusive) (h : s.matchmaker.Owned nanoid) :
    (s.step nanoid mode e).matchmaker.Owned nanoid ∧
      s.matchmaker.Enters nanoid (s.step nanoid mode e).matchmaker := by
  obtain ⟨m, hm, hacts⟩ := step_refines nanoid mode s e
  cases hm with
  | nothing => exact h.acts hexclusive hacts
  | request =>
    have hacts' := Matchmaker.Owned.acts (m := s.matchmaker.request _ _) ⟨h.task, h.entered⟩
      (hexclusive.request ..) hacts
    exact ⟨hacts'.1, ⟨hacts'.2.entered, hacts'.2.tasks⟩⟩
  | refusal =>
    have hacts' := Matchmaker.Owned.acts (m := s.matchmaker.refuse _) ⟨h.task, h.entered⟩
      (hexclusive.refuse _) hacts
    exact ⟨hacts'.1, ⟨hacts'.2.entered, hacts'.2.tasks⟩⟩
  | offer =>
    have hacts' := Matchmaker.Owned.acts (m := s.matchmaker.offer _) ⟨h.task, h.entered⟩
      (hexclusive.offer _) hacts
    exact ⟨hacts'.1, ⟨hacts'.2.entered, hacts'.2.tasks⟩⟩

theorem owned_run (nanoid : ℕ → String) (mode : TaskRunnerMode) (events : List Event) :
    (run nanoid mode events).matchmaker.Owned nanoid := by
  induction events using List.reverseRecOn with
  | nil => refine ⟨?_, ?_⟩ <;> simp [matchmaker]
  | append_singleton events e ih =>
    rw [run_concat]
    exact (owned_step nanoid mode _ e (exclusive_run nanoid mode events) ih).1

/-- The callback that told the requester of the end of the task threw. -/
def Threw (nanoid : ℕ → String) (mode : TaskRunnerMode) (events : List Event) (taskId : String) :
    Prop :=
  ∃ pre i, pre ++ [.job i false] <+: events ∧
    (run nanoid mode pre).jobs[i]? = some (.deleteTask taskId)

/-- In the run no event ends a task whose requester is still being told of its end, or whose
requester's callback threw when told. -/
def EndsOnce (nanoid : ℕ → String) (mode : TaskRunnerMode) (events : List Event) : Prop :=
  ∀ pre e, pre ++ [e] <+: events → ∀ taskId, Ends mode (run nanoid mode pre) e taskId →
    ((run nanoid mode pre).tasks.get? taskId).isSome →
    Job.deleteTask taskId ∉ (run nanoid mode pre).jobs ∧ ¬ Threw nanoid mode pre taskId

/-- The invariant of such a run. -/
structure ToldOnce (nanoid : ℕ → String) (mode : TaskRunnerMode) (events : List Event) : Prop where
  nodup : (run nanoid mode events).finalMessages.Nodup
  keyed : (run nanoid mode events).Keyed
  entered : ∀ t ∈ (run nanoid mode events).finalMessages,
    ∃ c ∈ (run nanoid mode events).entered, nanoid c = t
  ending : ∀ t ∈ (run nanoid mode events).finalMessages,
    (run nanoid mode events).tasks.get? t = none ∨
      Job.deleteTask t ∈ (run nanoid mode events).jobs ∨ Threw nanoid mode events t

theorem get?_tasks_deleteTask {s : TaskBroker} {i : ℕ} {taskId : String}
    (h : s.jobs[i]? = some (.deleteTask taskId)) :
    (s.step nanoid mode (.job i true)).tasks.get? taskId = none := by
  have hstep : s.step nanoid mode (.job i true) =
      { s with jobs := s.jobs.eraseIdx i }.runJob (.deleteTask taskId) := by
    unfold step
    simp only [h]
    rfl
  rw [hstep]
  exact Dict.get?_erase_self _ _

theorem toldOnce_run (hname : Function.Injective nanoid) {events : List Event}
    (h : EndsOnce nanoid mode events) : ToldOnce nanoid mode events := by
  induction events using List.reverseRecOn with
  | nil =>
    exact ⟨List.nodup_nil, (fun k task hk => by cases hk), (fun t ht => by cases ht),
      (fun t ht => by cases ht)⟩
  | append_singleton events e ih =>
    obtain ⟨hevents, he⟩ := Lts.forall_prefix_concat.1 h
    have hs := ih hevents
    obtain ⟨l, hl⟩ := exists_stepTells nanoid mode hs.keyed e
    obtain ⟨-, henters⟩ := owned_step nanoid mode (run nanoid mode events) e
      (exclusive_run nanoid mode events) (owned_run nanoid mode events)
    have hold : ∀ t ∈ l, t ∉ (run nanoid mode events).finalMessages := by
      intro t ht hmem
      obtain ⟨hends, hsome⟩ := hl.ends t ht
      obtain ⟨hjob, hthrew⟩ := he t hends hsome
      rcases hs.ending t hmem with hnone | hjob' | hthrew'
      · rw [hnone] at hsome
        cases hsome
      · exact hjob hjob'
      · exact hthrew hthrew'
    have hmono : ∀ t, Threw nanoid mode events t → Threw nanoid mode (events ++ [e]) t :=
      fun t ⟨pre, i, hp, hjob⟩ => ⟨pre, i, hp.trans (List.prefix_append _ _), hjob⟩
    refine ⟨?_, ?_, ?_, ?_⟩ <;> rw [run_concat]
    · rw [hl.finals]
      exact List.nodup_append.2 ⟨hs.nodup, hl.nodup, fun t ht t' ht' heq => hold t' ht' (heq ▸ ht)⟩
    · exact hl.keyed
    · intro t ht
      rw [hl.finals] at ht
      rcases List.mem_append.1 ht with ht | ht
      · obtain ⟨c, hc, rfl⟩ := hs.entered t ht
        exact ⟨c, henters.entered hc, rfl⟩
      · obtain ⟨c, hc, rfl⟩ := (owned_run nanoid mode events).entered t (hl.ends t ht).2
        exact ⟨c, henters.entered hc, rfl⟩
    · intro t ht
      rw [hl.finals] at ht
      rcases List.mem_append.1 ht with ht | ht
      · rcases hs.ending t ht with hnone | hjob | hthrew
        · left
          -- a deleted task does not come back
          cases hget : ((run nanoid mode events).step nanoid mode e).tasks.get? t with
          | none => rfl
          | some task =>
            have hmem : t ∈ ((run nanoid mode events).step nanoid mode e).matchmaker.tasks := by
              show (Dict.get? _ t).isSome
              rw [hget]
              rfl
            rcases henters.tasks t hmem with hmem' | ⟨c, hc, hct⟩
            · have hsome : ((run nanoid mode events).tasks.get? t).isSome := hmem'
              rw [hnone] at hsome
              cases hsome
            · obtain ⟨c', hc', hct'⟩ := hs.entered t ht
              exact absurd (hname (hct'.trans hct.symm) ▸ hc') hc
        · rcases hl.jobs _ hjob with hjob' | ⟨i, returned, rfl, hjob'⟩
          · exact .inr (.inl hjob')
          · cases returned with
            | true => exact .inl (get?_tasks_deleteTask hjob')
            | false => exact .inr (.inr ⟨events, i, List.prefix_refl _, hjob'⟩)
        · exact .inr (.inr (hmono t hthrew))
      · exact (hl.ending t ht).imp id .inl

/-- **A requester is told once at most that a task is over**, in a run in which no event ends a task
while its requester is still being told of its end, or after the requester's callback threw when
told. -/
theorem finalMessages_nodup (nanoid : ℕ → String) (mode : TaskRunnerMode) (events : List Event)
    (hname : Function.Injective nanoid) (h : EndsOnce nanoid mode events) :
    ∀ pre, pre <+: events → (run nanoid mode pre).finalMessages.Nodup :=
  fun _ hpre => (toldOnce_run hname fun pre' e hp => h pre' e (hp.trans hpre)).nodup

/-! ### Two runs -/

/-- An event that ends no task. -/
theorem EndsOnce.concat_of_not_ends {events : List Event} {e : Event}
    (h : EndsOnce nanoid mode events)
    (hends : ∀ taskId, ¬ Ends mode (run nanoid mode events) e taskId) :
    EndsOnce nanoid mode (events ++ [e]) :=
  Lts.forall_prefix_concat.2 ⟨h, fun taskId hend => absurd hend (hends taskId)⟩

/-- A call goes on that does not wait for the settings of its task. -/
theorem not_ends_resume {s : TaskBroker} {c : ℕ} {returned : Bool}
    (hstage : (s.calls c).stage ≠ .awaitingRequester) (taskId : String) :
    ¬ Ends mode s (.resume c returned) taskId := by
  intro hend
  cases hend with
  | settings hstage' => exact hstage hstage'

theorem endsOnce_readyTask : EndsOnce unaryId .internal readyTask := by
  have hnil : EndsOnce unaryId .internal [] := fun pre e hp => absurd hp (by simp)
  have hask := (((hnil.concat_of_not_ends (e := .registerRunner "runner")
    (fun _ hend => by cases hend)).concat_of_not_ends
    (e := .registerRequester "requester") (fun _ hend => by cases hend)).concat_of_not_ends
    (e := .requesterMessage "requester" (.taskRequest "request" "javascript") 0)
    (fun _ hend => by cases hend with | response hmessage => cases hmessage)).concat_of_not_ends
    (e := .runnerMessage "runner" (.taskOffer "offer" "javascript" (-1)) 0)
    (fun _ hend => by cases hend)
  have hsent := hask.concat_of_not_ends (e := .resume 0 true) (not_ends_resume (by decide))
  have haccepted := hsent.concat_of_not_ends (e := .runnerMessage "runner" (.taskAccepted "") 0)
    (fun _ hend => by cases hend)
  exact haccepted.concat_of_not_ends (e := .resume 0 true) (not_ends_resume (by decide))

/-- The runner reports the task done, and the requester's callback returns. -/
def finishedTask : List Event :=
  readyTask ++ [.runnerMessage "runner" (.taskDone "" .undefined) 0] ++ [.job 0 true]

theorem endsOnce_finishedTask : EndsOnce unaryId .internal finishedTask := by
  have hdone : EndsOnce unaryId .internal
      (readyTask ++ [.runnerMessage "runner" (.taskDone "" .undefined) 0]) := by
    refine Lts.forall_prefix_concat.2 ⟨endsOnce_readyTask, fun taskId _ _ => ⟨?_, ?_⟩⟩
    · have hjobs : (run unaryId .internal readyTask).jobs = [] := rfl
      simp [hjobs]
    · rintro ⟨pre, i, hp, -⟩
      have hmem : Event.job i false ∈ readyTask := hp.subset (by simp)
      simp [readyTask] at hmem
  have hjobs : (run unaryId .internal (readyTask ++
      [.runnerMessage "runner" (.taskDone "" .undefined) 0])).jobs = [.deleteTask ""] := rfl
  refine hdone.concat_of_not_ends fun taskId hend => ?_
  cases hend with
  | timedOut hjob =>
    rw [hjobs] at hjob
    cases hjob

theorem finalMessages_nodup_finishedTask :
    (run unaryId .internal finishedTask).finalMessages.Nodup :=
  finalMessages_nodup unaryId .internal finishedTask unaryId_injective endsOnce_finishedTask _
    (List.prefix_refl _)

/-- **A requester is told twice**: the task is done, and its runner disconnects while the requester
is being told so. -/
theorem told_twice :
    ¬ (run unaryId .internal (readyTask ++ [.runnerMessage "runner" (.taskDone "" .undefined) 0,
      .deregisterRunner "runner" "disconnected"])).finalMessages.Nodup := by
  decide

end TaskBroker

end N8n
