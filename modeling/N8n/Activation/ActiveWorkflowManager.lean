import N8n.Lib.Dict
import N8n.Lib.OrderedSet

/-!
# Activating workflows again and again

`active-workflow-manager.ts` on a leader in a setup with one main instance: a workflow whose
activation has failed is queued, a timer starts the next try, and removals take workflows off the
queue and out of memory.  Calls of `add` and removals go on when what they wait for answers, so
their steps are interleaved.

* `ActiveWorkflowManager`: the queue, the timers, the workflows in memory, the calls and removals;
* `addQueuedWorkflowActivation`, `removeQueuedWorkflowActivation`, `retryFails`: the queue;
* `addGoesOn`: `add` from one wait to the next;
* `removalGoesOn`: `remove` and `removeAllTriggerAndPollerBasedWorkflows`;
* `Event`, `step`: what can happen next.
-/

namespace N8n

namespace Activation

def WORKFLOW_REACTIVATE_INITIAL_TIMEOUT : ℕ := 1000

def WORKFLOW_REACTIVATE_MAX_TIMEOUT : ℕ := 24 * 60 * 60 * 1000

inductive WorkflowActivateMode where
  | init
  | create
  | update
  | activate
  | manual
  | leadershipChange
  deriving DecidableEq

/-- What `add` reads of a workflow: whether it has an active version, and there a node to start it,
a trigger or poll node, and a poll node. -/
structure WorkflowEntity where
  id : String
  hasActiveVersion : Bool := true
  hasTriggerLikeNode : Bool := true
  hasTriggerOrPollNodes : Bool := true
  hasPollNodes : Bool := false
  deriving DecidableEq

/-- The closure of a `retryFunction`. -/
structure Retry where
  activationMode : WorkflowActivateMode
  workflowData : WorkflowEntity
  deriving DecidableEq

/-- `timeout` is the number of the timer. -/
structure QueuedActivation where
  activationMode : WorkflowActivateMode
  lastTimeout : ℕ
  timeout : ℕ
  workflowData : WorkflowEntity
  deriving DecidableEq

/-- What `add` waits for.  An error that is on its way to the caller is known by whether it is an
`IsolateError`. -/
inductive Stage where
  | findingWorkflow
  | gettingBase
  | acquiringIsolate
  | addingWebhooks
  | startingTriggers
  | startingPollers (noResponses : Bool)
  | releasingIsolate (error : Option Bool)
  | deregisteringError
  | updatingTriggerCount
  | registeringError (isolateError : Bool)
  | savingStaticData
  deriving DecidableEq

/-- A call of `add`, by a retry or not. -/
structure AddCall where
  workflow : WorkflowEntity
  activationMode : WorkflowActivateMode
  byRetry : Bool
  stage : Stage
  deriving DecidableEq

/-- What a removal waits for: `closing` and `closingAll` are the closing of triggers, with any
number of waits. -/
inductive RemovalStage where
  | clearingWebhooks (workflowId : String)
  | deregisteringError (workflowId : String)
  | closing (workflowId : String)
  | closingAll (workflowId : String) (workflowIds : List String)
  deriving DecidableEq

structure Removal where
  stage : RemovalStage
  /-- History: the workflows that somebody asked to be active since the removal began. -/
  requested : List String
  deriving DecidableEq

structure ActiveWorkflowManager where
  queuedActivations : Dict String QueuedActivation := Dict.empty
  /-- The timers that have not gone off. -/
  timers : Dict ℕ Retry := Dict.empty
  nextTimer : ℕ := 0
  activeWorkflows : OrderedSet String := OrderedSet.empty
  adds : Dict ℕ AddCall := Dict.empty
  removals : Dict ℕ Removal := Dict.empty
  calls : ℕ := 0
  /-- History: a `retryFunction` has raised an error of its own. -/
  raised : Bool := false
  /-- History: a removal of the workflow has finished and since it began nobody asked for it to be
  active. -/
  removed : String → Bool := fun _ => false

namespace ActiveWorkflowManager

variable (s : ActiveWorkflowManager)

/-! ### The queue -/

/-- Start a timer for a try. -/
def setTimeout (retry : Retry) : ActiveWorkflowManager :=
  { s with timers := s.timers.set s.nextTimer retry, nextTimer := s.nextTimer + 1 }

def removeQueuedWorkflowActivation (workflowId : String) : ActiveWorkflowManager :=
  match s.queuedActivations.get? workflowId with
  | some queued =>
    { s with
      timers := s.timers.erase queued.timeout
      queuedActivations := s.queuedActivations.erase workflowId }
  | none => s

def removeAllQueuedWorkflowActivations : ActiveWorkflowManager :=
  s.queuedActivations.keys.foldl removeQueuedWorkflowActivation s

/-- History: somebody asks for a workflow to be active. -/
def request (workflowId : String) : ActiveWorkflowManager :=
  { s with
    removed := fun w => s.removed w && w ≠ workflowId
    removals := s.removals.mapValues fun r => { r with requested := workflowId :: r.requested } }

def addQueuedWorkflowActivation (activationMode : WorkflowActivateMode)
    (workflowData : WorkflowEntity) : ActiveWorkflowManager :=
  let s := (s.request workflowData.id).removeQueuedWorkflowActivation workflowData.id
  { s.setTimeout { activationMode, workflowData } with
    queuedActivations := s.queuedActivations.set workflowData.id
      { activationMode
        lastTimeout := WORKFLOW_REACTIVATE_INITIAL_TIMEOUT
        timeout := s.nextTimer
        workflowData } }

/-- The `catch` of a `retryFunction`: it reads the workflow's place in the queue and starts the next
timer; if there is none, it raises a `TypeError`. -/
def retryFails (retry : Retry) (isolateError : Bool) : ActiveWorkflowManager :=
  match s.queuedActivations.get? retry.workflowData.id with
  | none => { s with raised := true }
  | some queued =>
    let lastTimeout :=
      if !isolateError && queued.lastTimeout < WORKFLOW_REACTIVATE_MAX_TIMEOUT then
        min (queued.lastTimeout * 2) WORKFLOW_REACTIVATE_MAX_TIMEOUT
      else queued.lastTimeout
    { s.setTimeout retry with
      queuedActivations := s.queuedActivations.set retry.workflowData.id
        { queued with lastTimeout, timeout := s.nextTimer } }

/-! ### Adding -/

/-- The first part of `add`, once the workflow is at hand: its first wait, unless it is skipped. -/
def beginAdd (activationMode : WorkflowActivateMode) (workflow : WorkflowEntity) : Option Stage :=
  if (activationMode = .init ∨ activationMode = .leadershipChange) ∧ !workflow.hasActiveVersion then
    none
  else if !workflow.hasActiveVersion || !workflow.hasTriggerLikeNode then
    some (.registeringError false)
  else some .gettingBase

/-- How something that is waited for answers: with an error, which may be an `IsolateError`, or
well; if triggers were started, then with or without a response. -/
inductive Answer where
  | resolves (noResponses : Bool)
  | rejects (isolateError : Bool)
  deriving DecidableEq

def setStage (key : ℕ) (call : AddCall) (stage : Stage) : ActiveWorkflowManager :=
  { s with adds := s.adds.set key { call with stage } }

/-- A call of `add` is over. -/
def ends (key : ℕ) : ActiveWorkflowManager := { s with adds := s.adds.erase key }

/-- `add` throws to its caller. -/
def throws (key : ℕ) (call : AddCall) (isolateError : Bool) : ActiveWorkflowManager :=
  if call.byRetry then
    (s.ends key).retryFails
      { activationMode := call.activationMode, workflowData := call.workflow } isolateError
  else s.ends key

/-- `add` from one wait to the next.  After the triggers and pollers the nodes are counted; an error
of that is like one of the release. -/
def addGoesOn (key : ℕ) (call : AddCall) (answer : Answer) : ActiveWorkflowManager :=
  match call.stage, answer with
  | .findingWorkflow, .rejects isolateError => s.throws key call isolateError
  | .findingWorkflow, .resolves _ =>
    match beginAdd call.activationMode call.workflow with
    | none => s.ends key
    | some stage => s.setStage key call stage
  | .gettingBase, .rejects isolateError => s.setStage key call (.registeringError isolateError)
  | .gettingBase, .resolves _ => s.setStage key call .acquiringIsolate
  | .acquiringIsolate, .rejects isolateError =>
    s.setStage key call (.registeringError isolateError)
  | .acquiringIsolate, .resolves _ => s.setStage key call .addingWebhooks
  | .addingWebhooks, .rejects isolateError =>
    s.setStage key call (.releasingIsolate (some isolateError))
  | .addingWebhooks, .resolves _ =>
    s.setStage key call
      (if call.workflow.hasTriggerOrPollNodes then .startingTriggers else .releasingIsolate none)
  | .startingTriggers, .rejects isolateError =>
    s.setStage key call (.releasingIsolate (some isolateError))
  | .startingTriggers, .resolves noResponses =>
    { s with activeWorkflows := s.activeWorkflows.insert call.workflow.id }.setStage key call
      (if call.workflow.hasPollNodes then .startingPollers noResponses else .releasingIsolate none)
  | .startingPollers noResponses, .rejects isolateError =>
    { s with
      activeWorkflows :=
        if noResponses then s.activeWorkflows.filter (· ≠ call.workflow.id)
        else s.activeWorkflows }.setStage key call (.releasingIsolate (some isolateError))
  | .startingPollers _, .resolves _ => s.setStage key call (.releasingIsolate none)
  | .releasingIsolate _, .rejects isolateError =>
    s.setStage key call (.registeringError isolateError)
  | .releasingIsolate (some isolateError), .resolves _ =>
    s.setStage key call (.registeringError isolateError)
  | .releasingIsolate none, .resolves _ =>
    (s.removeQueuedWorkflowActivation call.workflow.id).setStage key call .deregisteringError
  | .deregisteringError, .rejects isolateError =>
    s.setStage key call (.registeringError isolateError)
  | .deregisteringError, .resolves _ => s.setStage key call .updatingTriggerCount
  | .updatingTriggerCount, .rejects isolateError =>
    s.setStage key call (.registeringError isolateError)
  | .updatingTriggerCount, .resolves _ => s.setStage key call .savingStaticData
  | .registeringError _, .rejects isolateError => s.throws key call isolateError
  | .registeringError isolateError, .resolves _ => s.throws key call isolateError
  | .savingStaticData, .rejects isolateError => s.throws key call isolateError
  | .savingStaticData, .resolves _ => s.ends key

/-- A call of `add` by somebody else than a retry. -/
def add (activationMode : WorkflowActivateMode) (workflow : WorkflowEntity) :
    ActiveWorkflowManager :=
  let s := s.request workflow.id
  { s with
    adds := s.adds.set s.calls
      { workflow, activationMode, byRetry := false, stage := .findingWorkflow }
    calls := s.calls + 1 }

/-- A timer goes off: the `retryFunction` calls `add`. -/
def timerFires (timer : ℕ) (retry : Retry) : ActiveWorkflowManager :=
  let s := { s with timers := s.timers.erase timer }
  match beginAdd retry.activationMode retry.workflowData with
  | none => s
  | some stage =>
    { s with
      adds := s.adds.set s.calls
        { workflow := retry.workflowData
          activationMode := retry.activationMode
          byRetry := true
          stage }
      calls := s.calls + 1 }

/-! ### Removing -/

def beginRemoval (stage : RemovalStage) : ActiveWorkflowManager :=
  { s with
    removals := s.removals.set s.calls { stage, requested := [] }
    calls := s.calls + 1 }

def removal (key : ℕ) (r : Removal) (stage : RemovalStage) : ActiveWorkflowManager :=
  { s with removals := s.removals.set key { r with stage } }

/-- A removal is over: it has thrown an error, or the workflows of `finished` are removed. -/
def endRemoval (key : ℕ) (requested : List String) (finished : String → Bool) :
    ActiveWorkflowManager :=
  { s with
    removals := s.removals.erase key
    removed := fun w => s.removed w || (finished w && w ∉ requested) }

/-- `remove` and the removal of all workflows, from one wait to the next. -/
def removalGoesOn (key : ℕ) (r : Removal) (answer : Answer) : ActiveWorkflowManager :=
  match r.stage, answer with
  | .clearingWebhooks workflowId, _ => s.removal key r (.deregisteringError workflowId)
  | .deregisteringError _, .rejects _ => s.endRemoval key r.requested fun _ => false
  | .deregisteringError workflowId, .resolves _ =>
    let s := s.removeQueuedWorkflowActivation workflowId
    if workflowId ∈ s.activeWorkflows then s.removal key r (.closing workflowId)
    else s.endRemoval key r.requested fun w => w = workflowId
  | .closing _, .rejects _ => s.endRemoval key r.requested fun _ => false
  | .closing workflowId, .resolves _ =>
    { s with activeWorkflows := s.activeWorkflows.filter (· ≠ workflowId) }.endRemoval key
      r.requested fun w => w = workflowId
  | .closingAll _ _, .rejects _ => s.endRemoval key r.requested fun _ => false
  | .closingAll workflowId workflowIds, .resolves _ =>
    let s := { s with activeWorkflows := s.activeWorkflows.filter (· ≠ workflowId) }
    match workflowIds with
    | [] => s.endRemoval key r.requested fun _ => true
    | next :: workflowIds => s.removal key r (.closingAll next workflowIds)

def removeAllTriggerAndPollerBasedWorkflows : ActiveWorkflowManager :=
  let s := s.removeAllQueuedWorkflowActivations
  match s.activeWorkflows.elems with
  | [] => s.endRemoval s.calls [] fun _ => true
  | workflowId :: workflowIds => s.beginRemoval (.closingAll workflowId workflowIds)

end ActiveWorkflowManager

open ActiveWorkflowManager in
/-- What can happen next: a workflow is queued or added, a timer goes off, a call of `add` goes on,
a removal is called or goes on. -/
inductive Event where
  | addQueuedWorkflowActivation (activationMode : WorkflowActivateMode)
      (workflowData : WorkflowEntity)
  | add (activationMode : WorkflowActivateMode) (workflow : WorkflowEntity)
  | timerFires (timer : ℕ)
  | addGoesOn (key : ℕ) (answer : Answer)
  | remove (workflowId : String)
  | removeAllTriggerAndPollerBasedWorkflows
  | removalGoesOn (key : ℕ) (answer : Answer)

namespace ActiveWorkflowManager

/-- The state after an event; one that cannot happen changes nothing. -/
def step (s : ActiveWorkflowManager) : Event → ActiveWorkflowManager
  | .addQueuedWorkflowActivation activationMode workflowData =>
    s.addQueuedWorkflowActivation activationMode workflowData
  | .add activationMode workflow => s.add activationMode workflow
  | .timerFires timer =>
    match s.timers.get? timer with
    | some retry => s.timerFires timer retry
    | none => s
  | .addGoesOn key answer =>
    match s.adds.get? key with
    | some call => s.addGoesOn key call answer
    | none => s
  | .remove workflowId => s.beginRemoval (.clearingWebhooks workflowId)
  | .removeAllTriggerAndPollerBasedWorkflows => s.removeAllTriggerAndPollerBasedWorkflows
  | .removalGoesOn key answer =>
    match s.removals.get? key with
    | some r => s.removalGoesOn key r answer
    | none => s

end ActiveWorkflowManager

end Activation

end N8n
