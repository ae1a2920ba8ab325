import N8n.Activation.ScheduledTasks

/-!
# Workflows that are active in memory

`active-workflows.ts`: a workflow becomes active when its triggers have been started, one by one,
and its poll nodes are activated, one by one; it becomes inactive when its crons are deregistered
and its triggers closed.

* `Workflow`: the nodes, each with how it behaves in the call at hand;
* `ActiveWorkflows`: what is kept, and which responses were obtained and closed;
* `add`, `remove`, `Action`, `step`.
-/

namespace N8n

namespace Activation

/-! ### The nodes -/

/-- A trigger node: the crons that its function registers, and how it ends: with an error, without a
response, or with one, which has a close function or not. -/
structure TriggerNode where
  name : String
  id : String
  crons : List (String × Option Recurrence) := []
  outcome : Except String (Option Bool)

/-- A poll node: the cron expressions of its poll times, or the error of reading them, and the error
of the first poll, if it fails. -/
structure PollNode where
  name : String
  id : String
  cronExpressions : Except String (List String)
  firstPoll : Option String := none

structure Workflow where
  id : String
  timezone : String
  getTriggerNodes : List TriggerNode
  getPollNodes : List PollNode

def TriggerNode.contexts (workflow : Workflow) (node : TriggerNode) : List CronContext :=
  node.crons.map fun cron =>
    { workflowId := workflow.id
      nodeId := node.id
      expression := cron.1
      timezone := workflow.timezone
      recurrence := cron.2 }

def PollNode.contexts (workflow : Workflow) (node : PollNode) (cronExpressions : List String) :
    List CronContext :=
  cronExpressions.map fun expression =>
    { workflowId := workflow.id
      nodeId := node.id
      expression
      timezone := workflow.timezone }

/-! ### The state -/

/-- The response of a trigger, told from others by `object`. -/
structure TriggerResponse where
  object : ℕ
  closeFunction : Bool
  deriving DecidableEq

structure ActiveWorkflows where
  activeWorkflows : Dict String (List TriggerResponse) := Dict.empty
  cronsByWorkflow : CronsByWorkflow := Dict.empty
  responses : ℕ := 0
  /-- History: the responses that triggers of each workflow returned. -/
  obtained : List (String × TriggerResponse) := []
  /-- History: the responses whose close function was called. -/
  closed : List TriggerResponse := []

inductive ActivationError where
  | activation (message : String) (node : String)
  | deactivation (message : String) (workflowId : String)
  deriving DecidableEq

def activationError (message node : String) : ActivationError :=
  .activation ("There was a problem activating the workflow: \"" ++ message ++ "\"") node

def deactivationError (message workflowId : String) : ActivationError :=
  .deactivation ("Failed to deactivate trigger of workflow ID \"" ++ workflowId ++ "\": \"" ++
    message ++ "\"") workflowId

namespace ActiveWorkflows

variable (cronError : CronError)

def isActive (s : ActiveWorkflows) (workflowId : String) : Bool := s.activeWorkflows.has workflowId

/-! ### Adding -/

/-- Check and register crons in order, up to the first that is refused. -/
def registerAll (check : CronContext → Option String) :
    List CronContext → CronsByWorkflow → Except String Unit × CronsByWorkflow
  | [], crons => (.ok (), crons)
  | ctx :: ctxs, crons =>
    match check ctx with
    | some message => (.error message, crons)
    | none =>
      match registerCron cronError ctx crons with
      | .error message => (.error message, crons)
      | .ok crons => registerAll check ctxs crons

/-- Run the function of a trigger node. -/
def runTrigger (workflow : Workflow) (node : TriggerNode) (s : ActiveWorkflows) :
    Except String (Option TriggerResponse) × ActiveWorkflows :=
  let (registered, cronsByWorkflow) :=
    registerAll cronError (fun _ => none) (node.contexts workflow) s.cronsByWorkflow
  let s := { s with cronsByWorkflow }
  match registered with
  | .error message => (.error message, s)
  | .ok () =>
    match node.outcome with
    | .error message => (.error message, s)
    | .ok none => (.ok none, s)
    | .ok (some closeFunction) =>
      let response : TriggerResponse := { object := s.responses, closeFunction }
      (.ok (some response),
        { s with
          responses := s.responses + 1
          obtained := s.obtained ++ [(workflow.id, response)] })

/-- The first loop of `add`. -/
def startTriggers (workflow : Workflow) : List TriggerNode → List TriggerResponse →
    ActiveWorkflows → Except ActivationError (List TriggerResponse) × ActiveWorkflows
  | [], triggerResponses, s => (.ok triggerResponses, s)
  | node :: nodes, triggerResponses, s =>
    match runTrigger cronError workflow node s with
    | (.error message, s) => (.error (activationError message node.name), s)
    | (.ok response, s) => startTriggers workflow nodes (triggerResponses ++ response.toList) s

/-- An interval of less than a minute has an asterisk in its seconds. -/
def tooShort (ctx : CronContext) : Option String :=
  if '*' ∈ ctx.expression.toList.takeWhile (· ≠ ' ') then
    some "The polling interval is too short. It has to be at least a minute."
  else none

def activatePolling (workflow : Workflow) (node : PollNode) (crons : CronsByWorkflow) :
    Except String Unit × CronsByWorkflow :=
  match node.cronExpressions with
  | .error message => (.error message, crons)
  | .ok cronExpressions =>
    match node.firstPoll with
    | some message => (.error message, crons)
    | none => registerAll cronError tooShort (node.contexts workflow cronExpressions) crons

/-- The second loop of `add`. -/
def startPolling (workflow : Workflow) : List PollNode → CronsByWorkflow →
    Except ActivationError Unit × CronsByWorkflow
  | [], crons => (.ok (), crons)
  | node :: nodes, crons =>
    match activatePolling cronError workflow node crons with
    | (.error message, crons) => (.error (activationError message node.name), crons)
    | (.ok (), crons) => startPolling workflow nodes crons

/-- Make a workflow active. -/
def add (workflow : Workflow) (s : ActiveWorkflows) :
    Except ActivationError Unit × ActiveWorkflows :=
  match startTriggers cronError workflow workflow.getTriggerNodes [] s with
  | (.error e, s) => (.error e, s)
  | (.ok triggerResponses, s) =>
    let s := { s with activeWorkflows := s.activeWorkflows.set workflow.id triggerResponses }
    match startPolling cronError workflow workflow.getPollNodes s.cronsByWorkflow with
    | (.ok (), cronsByWorkflow) => (.ok (), { s with cronsByWorkflow })
    | (.error e, cronsByWorkflow) =>
      let s := { s with cronsByWorkflow }
      (.error e,
        if triggerResponses = [] then
          { s with activeWorkflows := s.activeWorkflows.erase workflow.id }
        else s)

/-! ### Removing -/

/-- How the call of a close function ends. -/
inductive CloseOutcome where
  | closed
  | triggerCloseError
  | error (message : String)
  deriving DecidableEq

/-- Close the triggers in order, up to the first error that is not a `TriggerCloseError`. -/
def closeTriggers (workflowId : String) (close : TriggerResponse → CloseOutcome) :
    List TriggerResponse → ActiveWorkflows → Except ActivationError Unit × ActiveWorkflows
  | [], s => (.ok (), s)
  | r :: rs, s =>
    if r.closeFunction then
      let s := { s with closed := s.closed ++ [r] }
      match close r with
      | .closed | .triggerCloseError => closeTriggers workflowId close rs s
      | .error message => (.error (deactivationError message workflowId), s)
    else closeTriggers workflowId close rs s

/-- Make a workflow inactive; whether it was active. -/
def remove (workflowId : String) (close : TriggerResponse → CloseOutcome) (s : ActiveWorkflows) :
    Except ActivationError Bool × ActiveWorkflows :=
  match s.activeWorkflows.get? workflowId with
  | none => (.ok false, s)
  | some triggerResponses =>
    let s := { s with cronsByWorkflow := deregisterCrons workflowId s.cronsByWorkflow }
    match closeTriggers workflowId close triggerResponses s with
    | (.error e, s) => (.error e, s)
    | (.ok (), s) =>
      (.ok true, { s with activeWorkflows := s.activeWorkflows.erase workflowId })

end ActiveWorkflows

/-- A call, with how the nodes or the close functions behave in it. -/
inductive Action where
  | add (workflow : Workflow)
  | remove (workflowId : String) (close : TriggerResponse → ActiveWorkflows.CloseOutcome)

def step (cronError : CronError) (s : ActiveWorkflows) : Action → ActiveWorkflows
  | .add workflow => (s.add cronError workflow).2
  | .remove workflowId close => (s.remove workflowId close).2

end Activation

end N8n
