import N8n.Data.JsValue

/-!
# The task broker

`packages/cli/src/task-runners/task-broker/task-broker.service.ts`: the broker pairs the requests of
requesters with the offers of runners.  What the broker, the runners and the requesters tell each
other is in `packages/@n8n/task-runner/src/message-types.ts`; payloads that the broker only passes on
are script values.

* `TaskBroker`: its state, with the asynchronous calls under way, the armed timers, and two
  histories, the messages sent and the tasks entered;
* `acceptOffer` and what follows it: a call from one `await` to the next, each part a function;
* `settleTasks`: the pairing;
* `Event`, `TaskBroker.step`, `TaskBroker.run`: what happens to a broker.

The code runs uninterrupted between two `await`s, so a step is one such part; which part runs next
is left to the list of events.  `nanoid n` is the `n`-th id that `nanoid` draws.
-/

namespace N8n

/-- The errors that the broker reports to a requester. -/
inductive TaskFailure
  | reported (error : JsValue)
  | disconnected (message : String)
  | runnerNotFound (runnerId : String)
  | executionTimeout

namespace BrokerMessage

/-- Why a request expired. -/
inductive ExpiryReason
  | timeout
  | draining

inductive ToRunner
  | runnerRegistered
  | taskOfferAccept (taskId offerId : String)
  | taskCancel (taskId reason : String)
  | taskSettings (taskId : String) (settings : JsValue)
  | rpcResponse (taskId callId status : String) (data : JsValue)
  | taskDataResponse (taskId requestId : String) (data : JsValue)
  | nodeTypes (taskId requestId : String) (nodeTypes : JsValue)

inductive ToRequester
  | taskReady (requestId taskId : String)
  | requestExpired (requestId : String) (reason : ExpiryReason)
  | taskDone (taskId : String) (data : JsValue)
  | taskError (taskId : String) (error : TaskFailure)
  | taskDataRequest (taskId requestId : String) (requestParams : JsValue)
  | nodeTypesRequest (taskId requestId : String) (requestParams : JsValue)
  | rpc (taskId callId name : String) (params : JsValue)

end BrokerMessage

/-- The messages of a runner to the broker. -/
inductive RunnerMessage
  | taskAccepted (taskId : String)
  | taskRejected (taskId reason : String)
  | taskDeferred (taskId : String)
  | taskOffer (offerId taskType : String) (validFor : ℤ)
  | taskDone (taskId : String) (data : JsValue)
  | taskError (taskId : String) (error : JsValue)
  | taskDataRequest (taskId requestId : String) (requestParams : JsValue)
  | nodeTypesRequest (taskId requestId : String) (requestParams : JsValue)
  | rpc (taskId callId name : String) (params : JsValue)
  | info

/-- The messages of a requester to the broker. -/
inductive RequesterMessage
  | taskSettings (taskId : String) (settings : JsValue)
  | taskCancel (taskId reason : String)
  | taskRequest (requestId taskType : String)
  | taskDataResponse (taskId requestId : String) (data : JsValue)
  | nodeTypesResponse (taskId requestId : String) (nodeTypes : JsValue)
  | rpcResponse (taskId callId status : String) (data : JsValue)

end N8n

namespace N8n

/-- A task that a runner has accepted. -/
structure Task where
  id : String
  runnerId : String
  requesterId : String
  taskType : String
  timeout : Option ℕ := none
  deriving DecidableEq

structure TaskOffer where
  offerId : String
  runnerId : String
  taskType : String
  /-- How long the offer is valid, in milliseconds; `-1` for an offer that does not expire. -/
  validFor : ℤ
  validUntil : ℤ
  deriving DecidableEq, Inhabited

structure TaskRequest where
  requestId : String
  requesterId : String
  taskType : String
  timeout : Option ℕ := none
  acceptInProgress : Bool := false
  deriving DecidableEq, Inhabited

/-- What settles the promise that waits for the runner. -/
inductive RunnerReply
  | accepted
  | rejected (reason : String)
  | deferred
  | timedOut
  deriving DecidableEq

/-- What settles the promise that waits for the requester. -/
inductive RequesterReply
  | settings (settings : JsValue)
  | rejected (reason : String)
  | timedOut
  deriving DecidableEq

/-- The `await` at which a call of `acceptOffer` stands. -/
inductive Stage
  | messagingRunner
  | awaitingRunner
  | messagingRequester
  | awaitingRequester
  /-- In `sendTaskSettings`, with the runner found. -/
  | runnerFound (runnerId : String) (settings : JsValue)
  /-- In `sendTaskSettings`, with the task failed since its runner is gone. -/
  | runnerMissing
  | sendingSettings
  | cancelling
  | finished
  deriving DecidableEq, Inhabited

/-- A call of `acceptOffer`, with its two promises. -/
structure AcceptCall where
  offer : TaskOffer
  request : ℕ
  taskId : String
  stage : Stage := .messagingRunner
  runnerReply : Option RunnerReply := none
  requesterReply : Option RequesterReply := none
  deriving DecidableEq, Inhabited

/-- What an armed timer does. -/
inductive Timer
  | requestTimeout (requestId : String)
  | runnerAcceptTimeout (call : ℕ)
  | requesterAcceptTimeout (call : ℕ)
  | taskTimeout (taskId : String)
  deriving DecidableEq

/-- The rest of a handler that awaits a message callback. -/
inductive Job
  | deleteTask (taskId : String)
  | failTimedOutTask (taskId : String)
  | messageRunner (runnerId : String) (message : BrokerMessage.ToRunner)

inductive Sent
  | toRunner (runnerId : String) (message : BrokerMessage.ToRunner)
  | toRequester (requesterId : String) (message : BrokerMessage.ToRequester)

inductive TaskRunnerMode
  | internal
  | external
  deriving DecidableEq

/-- The broker.  Request objects and calls are told apart by the order of their creation. -/
structure TaskBroker where
  knownRunners : List String := []
  requesters : List String := []
  tasks : Dict String Task := .empty
  isDraining : Bool := false
  runnerAcceptRejects : Dict String ℕ := .empty
  requesterAcceptRejects : Dict String ℕ := .empty
  pendingTaskOffers : List TaskOffer := []
  pendingTaskRequests : List ℕ := []
  requests : ℕ → TaskRequest := default
  nextRequest : ℕ := 0
  calls : ℕ → AcceptCall := default
  nextCall : ℕ := 0
  timers : List (ℕ × Timer) := []
  nextTimer : ℕ := 0
  jobs : List Job := []
  /-- The messages sent, in their order. -/
  sent : List Sent := []
  /-- The calls that have entered their task into `tasks`, in their order. -/
  entered : List ℕ := []

namespace TaskBroker

variable (nanoid : ℕ → String) (mode : TaskRunnerMode)

/-! ### Timers, promises and messages -/

/-- Arms a timer; its id is `nextTimer`. -/
def setTimeout (s : TaskBroker) (timer : Timer) : TaskBroker :=
  { s with timers := s.timers ++ [(s.nextTimer, timer)], nextTimer := s.nextTimer + 1 }

def clearTimeout (s : TaskBroker) (id : Option ℕ) : TaskBroker :=
  { s with timers := s.timers.filter fun t => some t.1 ≠ id }

def messageRunner (s : TaskBroker) (runnerId : String) (message : BrokerMessage.ToRunner) :
    TaskBroker :=
  if runnerId ∈ s.knownRunners then { s with sent := s.sent ++ [.toRunner runnerId message] } else s

def messageRequester (s : TaskBroker) (requesterId : String)
    (message : BrokerMessage.ToRequester) : TaskBroker :=
  if requesterId ∈ s.requesters then { s with sent := s.sent ++ [.toRequester requesterId message] }
  else s

def setRequest (s : TaskBroker) (r : ℕ) (request : TaskRequest) : TaskBroker :=
  { s with requests := Function.update s.requests r request }

def setCall (s : TaskBroker) (c : ℕ) (call : AcceptCall) : TaskBroker :=
  { s with calls := Function.update s.calls c call }

/-- The call goes on to its next `await`. -/
def setStage (s : TaskBroker) (c : ℕ) (stage : Stage) : TaskBroker :=
  s.setCall c { s.calls c with stage }

/-- Settles the promise that waits for the runner, unless it is settled already. -/
def settleRunner (s : TaskBroker) (c : ℕ) (reply : RunnerReply) : TaskBroker :=
  s.setCall c { s.calls c with runnerReply := (s.calls c).runnerReply.or (some reply) }

/-- Settles the promise that waits for the requester, unless it is settled already. -/
def settleRequester (s : TaskBroker) (c : ℕ) (reply : RequesterReply) : TaskBroker :=
  s.setCall c { s.calls c with requesterReply := (s.calls c).requesterReply.or (some reply) }

/-! ### Requests and offers -/

def handleRequestTimeout (s : TaskBroker) (requestId : String) : TaskBroker :=
  match s.pendingTaskRequests.find? fun r => (s.requests r).requestId = requestId with
  | none => s
  | some r =>
    let request := s.requests r
    ({ s with
        pendingTaskRequests := s.pendingTaskRequests.eraseP fun r =>
          (s.requests r).requestId = requestId }.clearTimeout request.timeout).messageRequester
      request.requesterId (.requestExpired request.requestId .timeout)

def expireTasks (s : TaskBroker) (now : ℤ) : TaskBroker :=
  { s with
    pendingTaskOffers := s.pendingTaskOffers.filter fun offer =>
      offer.validFor = -1 ∨ ¬ offer.validUntil < now }

/-- `acceptOffer` up to its first `await`. -/
def acceptOffer (s : TaskBroker) (offer : TaskOffer) (r : ℕ) : TaskBroker :=
  let taskId := nanoid s.nextCall
  let s' := ({ s with
    runnerAcceptRejects := s.runnerAcceptRejects.set taskId s.nextCall }.setTimeout
      (.runnerAcceptTimeout s.nextCall)).messageRunner offer.runnerId
        (.taskOfferAccept taskId offer.offerId)
  { s' with
    calls := Function.update s'.calls s.nextCall { offer, request := r, taskId }
    nextCall := s.nextCall + 1 }

/-- The body of the loop of `settleTasks`. -/
def settleRequest (s : TaskBroker) (r : ℕ) : TaskBroker :=
  if (s.requests r).acceptInProgress then s
  else
    match s.pendingTaskOffers.find? fun offer => offer.taskType = (s.requests r).taskType with
    | none => s
    | some offer =>
      let s' := s.setRequest r { s.requests r with acceptInProgress := true }
      { s' with
        pendingTaskOffers := s.pendingTaskOffers.eraseP fun offer =>
          offer.taskType = (s.requests r).taskType }.acceptOffer nanoid offer r

def settleTasks (s : TaskBroker) (now : ℤ) : TaskBroker :=
  (s.expireTasks now).pendingTaskRequests.foldl (settleRequest nanoid) (s.expireTasks now)

/-- `taskRequested` with the request that `onRequesterMessage` makes, its timeout just armed. -/
def taskRequested (s : TaskBroker) (request : TaskRequest) (now : ℤ) : TaskBroker :=
  if s.isDraining then
    (s.clearTimeout request.timeout).messageRequester request.requesterId
      (.requestExpired request.requestId .draining)
  else
    { s with
      requests := Function.update s.requests s.nextRequest request
      nextRequest := s.nextRequest + 1
      pendingTaskRequests := s.pendingTaskRequests ++ [s.nextRequest] }.settleTasks nanoid now

def taskOffered (s : TaskBroker) (offer : TaskOffer) (now : ℤ) : TaskBroker :=
  { s with pendingTaskOffers := s.pendingTaskOffers ++ [offer] }.settleTasks nanoid now

/-! ### Tasks -/

def cancelTask (s : TaskBroker) (taskId reason : String) : TaskBroker :=
  match s.tasks.get? taskId with
  | none => s
  | some task =>
    { s with tasks := s.tasks.erase taskId }.messageRunner task.runnerId (.taskCancel taskId reason)

def failTask (s : TaskBroker) (taskId : String) (error : TaskFailure) : TaskBroker :=
  match s.tasks.get? taskId with
  | none => s
  | some task =>
    { s with tasks := s.tasks.erase taskId }.messageRequester task.requesterId
      (.taskError taskId error)

/-- Tells the requester how the task ended; the task is deleted when the callback has returned. -/
def endTask (s : TaskBroker) (taskId : String) (message : BrokerMessage.ToRequester) : TaskBroker :=
  match s.tasks.get? taskId with
  | none => s
  | some task =>
    let s' := (s.clearTimeout task.timeout).messageRequester task.requesterId message
    { s' with jobs := s'.jobs ++ [.deleteTask task.id] }

def taskDoneHandler (s : TaskBroker) (taskId : String) (data : JsValue) : TaskBroker :=
  s.endTask taskId (.taskDone taskId data)

def taskErrorHandler (s : TaskBroker) (taskId : String) (error : TaskFailure) : TaskBroker :=
  s.endTask taskId (.taskError taskId error)

def handleTaskTimeout (s : TaskBroker) (taskId : String) : TaskBroker :=
  match s.tasks.get? taskId with
  | none => s
  | some task =>
    match mode with
    | .internal => s.taskErrorHandler taskId .executionTimeout
    | .external =>
      let s' := s.messageRunner task.runnerId (.taskCancel taskId "Task execution timed out")
      { s' with jobs := s'.jobs ++ [.failTimedOutTask taskId] }

/-- Passes a message of a runner about one of its tasks on to the requester of the task. -/
def askRequester (s : TaskBroker) (taskId : String) (message : BrokerMessage.ToRequester) :
    TaskBroker :=
  match s.tasks.get? taskId with
  | none => s
  | some task => s.messageRequester task.requesterId message

def handleRpcRequest (s : TaskBroker) (taskId callId name : String) (params : JsValue) :
    TaskBroker :=
  s.askRequester taskId (.rpc taskId callId name params)

def handleDataRequest (s : TaskBroker) (taskId requestId : String) (requestParams : JsValue) :
    TaskBroker :=
  s.askRequester taskId (.taskDataRequest taskId requestId requestParams)

def handleNodeTypesRequest (s : TaskBroker) (taskId requestId : String) (requestParams : JsValue) :
    TaskBroker :=
  s.askRequester taskId (.nodeTypesRequest taskId requestId requestParams)

/-- Passes a message of a requester on to the runner of the task, which `getRunnerOrFailTask`
finds. -/
def answerRunner (s : TaskBroker) (taskId : String) (message : BrokerMessage.ToRunner) :
    TaskBroker :=
  match s.tasks.get? taskId with
  | none => s
  | some task =>
    if task.runnerId ∈ s.knownRunners then
      { s with jobs := s.jobs ++ [.messageRunner task.runnerId message] }
    else s.failTask taskId (.runnerNotFound task.runnerId)

def handleRequesterRpcResponse (s : TaskBroker) (taskId callId status : String) (data : JsValue) :
    TaskBroker :=
  s.answerRunner taskId (.rpcResponse taskId callId status data)

def handleRequesterDataResponse (s : TaskBroker) (taskId requestId : String) (data : JsValue) :
    TaskBroker :=
  s.answerRunner taskId (.taskDataResponse taskId requestId data)

def handleRequesterNodeTypesResponse (s : TaskBroker) (taskId requestId : String)
    (nodeTypes : JsValue) : TaskBroker :=
  s.answerRunner taskId (.nodeTypes taskId requestId nodeTypes)

/-! ### Replies -/

/-- Settles the promise of the task that waits for a runner and forgets its callbacks. -/
def replyOfRunner (s : TaskBroker) (taskId : String) (reply : RunnerReply) : TaskBroker :=
  match s.runnerAcceptRejects.get? taskId with
  | none => s
  | some c =>
    { s.settleRunner c reply with runnerAcceptRejects := s.runnerAcceptRejects.erase taskId }

def handleRunnerAccept (s : TaskBroker) (taskId : String) : TaskBroker :=
  s.replyOfRunner taskId .accepted

def handleRunnerReject (s : TaskBroker) (taskId reason : String) : TaskBroker :=
  s.replyOfRunner taskId (.rejected reason)

def handleRunnerDeferred (s : TaskBroker) (taskId : String) : TaskBroker :=
  s.replyOfRunner taskId .deferred

/-- Settles the promise of the task that waits for a requester and forgets its callbacks. -/
def replyOfRequester (s : TaskBroker) (taskId : String) (reply : RequesterReply) : TaskBroker :=
  match s.requesterAcceptRejects.get? taskId with
  | none => s
  | some c =>
    { s.settleRequester c reply with
      requesterAcceptRejects := s.requesterAcceptRejects.erase taskId }

def handleRequesterAccept (s : TaskBroker) (taskId : String) (settings : JsValue) : TaskBroker :=
  s.replyOfRequester taskId (.settings settings)

def handleRequesterReject (s : TaskBroker) (taskId reason : String) : TaskBroker :=
  s.replyOfRequester taskId (.rejected reason)

/-! ### The rest of `acceptOffer` -/

/-- The `catch` around the first promise, without a deferral: the request can be paired again. -/
def acceptFailed (s : TaskBroker) (c : ℕ) : TaskBroker :=
  let r := (s.calls c).request
  (s.setRequest r { s.requests r with acceptInProgress := false }).setStage c .finished

/-- The `catch` around the first promise when the runner has deferred the task. -/
def acceptDeferred (s : TaskBroker) (c : ℕ) : TaskBroker :=
  let r := (s.calls c).request
  let request := s.requests r
  let s' := (s.clearTimeout request.timeout).setTimeout (.requestTimeout request.requestId)
  let s'' := s'.setRequest r { request with acceptInProgress := false, timeout := some s.nextTimer }
  { s'' with pendingTaskRequests := s''.pendingTaskRequests ++ [r] }.setStage c .finished

/-- The part between the two promises: the task is entered and the requester told of it. -/
def accepted (s : TaskBroker) (c : ℕ) : TaskBroker :=
  let call := s.calls c
  let request := s.requests call.request
  let task : Task :=
    { id := call.taskId, taskType := call.offer.taskType, runnerId := call.offer.runnerId,
      requesterId := request.requesterId }
  let s' := { s.clearTimeout request.timeout with
    tasks := s.tasks.set call.taskId task
    entered := s.entered ++ [c] }
  match s'.pendingTaskRequests.find? fun r => (s'.requests r).requestId = request.requestId with
  | none => s'.setStage c .finished
  | some _ =>
    (({ s' with
        pendingTaskRequests := s'.pendingTaskRequests.eraseP fun r =>
          (s'.requests r).requestId = request.requestId
        requesterAcceptRejects := s'.requesterAcceptRejects.set call.taskId c }.setTimeout
          (.requesterAcceptTimeout c)).messageRequester request.requesterId
            (.taskReady request.requestId call.taskId)).setStage c .messagingRequester

/-- The `catch` around the second promise. -/
def cancelAccepted (s : TaskBroker) (c : ℕ) (reason : String) : TaskBroker :=
  (s.cancelTask (s.calls c).taskId reason).setStage c .cancelling

/-- `sendTaskSettings` up to its first `await`. -/
def sendTaskSettings (s : TaskBroker) (c : ℕ) (settings : JsValue) : TaskBroker :=
  match s.tasks.get? (s.calls c).taskId with
  | none => s.setStage c .finished
  | some task =>
    if task.runnerId ∈ s.knownRunners then s.setStage c (.runnerFound task.runnerId settings)
    else
      (s.failTask (s.calls c).taskId (.runnerNotFound task.runnerId)).setStage c .runnerMissing

/-- The rest of `sendTaskSettings`, with the runner found. -/
def sendToRunner (s : TaskBroker) (c : ℕ) (runnerId : String) (settings : JsValue) : TaskBroker :=
  let taskId := (s.calls c).taskId
  match s.tasks.get? taskId with
  | none => s.setStage c .finished
  | some task =>
    let s' := { s with tasks := s.tasks.set taskId { task with timeout := some s.nextTimer } }
    ((s'.setTimeout (.taskTimeout taskId)).messageRunner runnerId
      (.taskSettings taskId settings)).setStage c .sendingSettings

/-- A call goes on from the `await` at which it stands.  Where it awaits a message callback,
`returned` says whether the callback returned or threw; where it awaits a promise, it goes on only
when the promise is settled. -/
def resume (s : TaskBroker) (c : ℕ) (returned : Bool) : TaskBroker :=
  match (s.calls c).stage with
  | .messagingRunner => if returned then s.setStage c .awaitingRunner else s.acceptFailed c
  | .awaitingRunner =>
    match (s.calls c).runnerReply with
    | none => s
    | some .accepted => s.accepted c
    | some .deferred => s.acceptDeferred c
    | some (.rejected _) | some .timedOut => s.acceptFailed c
  | .messagingRequester =>
    if returned then s.setStage c .awaitingRequester else s.cancelAccepted c "Unknown reason"
  | .awaitingRequester =>
    match (s.calls c).requesterReply with
    | none => s
    | some (.settings settings) => s.sendTaskSettings c settings
    | some (.rejected reason) => s.cancelAccepted c reason
    | some .timedOut => s.cancelAccepted c "Unknown reason"
  | .runnerFound runnerId settings => s.sendToRunner c runnerId settings
  | .runnerMissing => s.cancelAccepted c "Unknown reason"
  | .sendingSettings =>
    if returned then s.setStage c .finished else s.cancelAccepted c "Unknown reason"
  | .cancelling => s.setStage c .finished
  | .finished => s

/-! ### Events -/

def registerRunner (s : TaskBroker) (runnerId : String) : TaskBroker :=
  { s with knownRunners := s.knownRunners.insert runnerId }.messageRunner runnerId .runnerRegistered

/-- What `deregisterRunner` does with a task. -/
def failTaskOf (runnerId error : String) (s : TaskBroker) (task : Task) : TaskBroker :=
  if task.runnerId = runnerId then
    (s.failTask task.id (.disconnected error)).handleRunnerReject task.id
      ("The Task Runner (" ++ runnerId ++ ") has disconnected: " ++ error)
  else s

def deregisterRunner (s : TaskBroker) (runnerId error : String) : TaskBroker :=
  let s' := { s with
    knownRunners := s.knownRunners.filter (· ≠ runnerId)
    pendingTaskOffers := s.pendingTaskOffers.filter (·.runnerId ≠ runnerId) }
  s'.tasks.values.foldl (failTaskOf runnerId error) s'

def registerRequester (s : TaskBroker) (requesterId : String) : TaskBroker :=
  { s with requesters := s.requesters.insert requesterId }

def deregisterRequester (s : TaskBroker) (requesterId : String) : TaskBroker :=
  { s with requesters := s.requesters.filter (· ≠ requesterId) }

def onRunnerMessage (s : TaskBroker) (runnerId : String) (message : RunnerMessage) (now : ℤ) :
    TaskBroker :=
  if runnerId ∈ s.knownRunners then
    match message with
    | .taskAccepted taskId => s.handleRunnerAccept taskId
    | .taskRejected taskId reason => s.handleRunnerReject taskId reason
    | .taskDeferred taskId => s.handleRunnerDeferred taskId
    | .taskOffer offerId taskType validFor =>
      s.taskOffered nanoid
        { offerId, runnerId, taskType, validFor,
          validUntil := if validFor = -1 then 0 else now + validFor * 1000000 } now
    | .taskDone taskId data => s.taskDoneHandler taskId data
    | .taskError taskId error => s.taskErrorHandler taskId (.reported error)
    | .taskDataRequest taskId requestId params => s.handleDataRequest taskId requestId params
    | .nodeTypesRequest taskId requestId params => s.handleNodeTypesRequest taskId requestId params
    | .rpc taskId callId name params => s.handleRpcRequest taskId callId name params
    | .info => s
  else s

def onRequesterMessage (s : TaskBroker) (requesterId : String) (message : RequesterMessage)
    (now : ℤ) : TaskBroker :=
  match message with
  | .taskSettings taskId settings => s.handleRequesterAccept taskId settings
  | .taskCancel taskId reason => s.cancelTask taskId reason
  | .taskRequest requestId taskType =>
    (s.setTimeout (.requestTimeout requestId)).taskRequested nanoid
      { requestId, requesterId, taskType, timeout := some s.nextTimer } now
  | .taskDataResponse taskId requestId data => s.handleRequesterDataResponse taskId requestId data
  | .nodeTypesResponse taskId requestId nodeTypes =>
    s.handleRequesterNodeTypesResponse taskId requestId nodeTypes
  | .rpcResponse taskId callId status data =>
    s.handleRequesterRpcResponse taskId callId status data

/-- The callback of a timer. -/
def onTimer (s : TaskBroker) : Timer → TaskBroker
  | .requestTimeout requestId => s.handleRequestTimeout requestId
  | .runnerAcceptTimeout c => s.settleRunner c .timedOut
  | .requesterAcceptTimeout c => s.settleRequester c .timedOut
  | .taskTimeout taskId => s.handleTaskTimeout mode taskId

/-- The rest of a handler, after the callback it awaits has returned. -/
def runJob (s : TaskBroker) : Job → TaskBroker
  | .deleteTask taskId => { s with tasks := s.tasks.erase taskId }
  | .failTimedOutTask taskId => s.taskErrorHandler taskId .executionTimeout
  | .messageRunner runnerId message => s.messageRunner runnerId message

/-- What can happen to the broker. -/
inductive Event
  | registerRunner (runnerId : String)
  | deregisterRunner (runnerId error : String)
  | registerRequester (requesterId : String)
  | deregisterRequester (requesterId : String)
  | runnerMessage (runnerId : String) (message : RunnerMessage) (now : ℤ)
  | requesterMessage (requesterId : String) (message : RequesterMessage) (now : ℤ)
  | requesterReject (taskId reason : String)
  | startDraining
  /-- The armed timer with this id fires. -/
  | timer (id : ℕ)
  /-- The call goes on. -/
  | resume (call : ℕ) (returned : Bool)
  /-- The handler at this place of `jobs` goes on. -/
  | job (index : ℕ) (returned : Bool)

/-- A step of the broker.  An event that cannot happen changes nothing. -/
def step (s : TaskBroker) : Event → TaskBroker
  | .registerRunner runnerId => s.registerRunner runnerId
  | .deregisterRunner runnerId error => s.deregisterRunner runnerId error
  | .registerRequester requesterId => s.registerRequester requesterId
  | .deregisterRequester requesterId => s.deregisterRequester requesterId
  | .runnerMessage runnerId message now => s.onRunnerMessage nanoid runnerId message now
  | .requesterMessage requesterId message now => s.onRequesterMessage nanoid requesterId message now
  | .requesterReject taskId reason => s.handleRequesterReject taskId reason
  | .startDraining => { s with isDraining := true }
  | .timer id =>
    match s.timers.find? (·.1 = id) with
    | none => s
    | some (_, timer) => { s with timers := s.timers.filter (·.1 ≠ id) }.onTimer mode timer
  | .resume c returned => if c < s.nextCall then s.resume c returned else s
  | .job i returned =>
    match s.jobs[i]? with
    | none => s
    | some job =>
      let s' := { s with jobs := s.jobs.eraseIdx i }
      if returned then s'.runJob job else s'

/-- The broker after the events, from the empty broker. -/
def run (events : List Event) : TaskBroker :=
  events.foldl (step nanoid mode) {}

@[simp] theorem run_nil : run nanoid mode [] = {} := rfl

@[simp] theorem run_concat (events : List Event) (e : Event) :
    run nanoid mode (events ++ [e]) = (run nanoid mode events).step nanoid mode e := by
  simp [run]

end TaskBroker

end N8n
