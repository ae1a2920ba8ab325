import N8n.Lib.Dict
import Mathlib.Data.List.Induction

/-!
# Active executions

`packages/cli/src/active-executions.ts` and `concurrency-capacity-reservation.ts`: an execution
reserves capacity before it is entered and gives it back when its promise settles.

* `ActiveExecutions`: the executions, the calls of `add` under way and two histories, the
  reservations made and given back;
* `Event`, `ActiveExecutions.step`, `ActiveExecutions.run`: what happens to them.

A step is the part of a call from one `await` to the next.  The n-th call of `add` makes the n-th
execution object, so objects are told apart by their call.
-/

namespace N8n

/-- The status of an execution, of which a run of a node has three. -/
inductive ActiveExecutions.ExecutionStatus
  | canceled
  | crashed
  | error
  | new
  | running
  | success
  | unknown
  | waiting
  deriving DecidableEq

/-- `ExecutionsConfig.mode`. -/
inductive ExecutionsMode
  | regular
  | queue
  deriving DecidableEq

/-- Where a call of `add` stands. -/
inductive AddStage
  | creating
  | reserving
  /-- In `setRunning` or `updateExistingExecution`. -/
  | updating
  | added
  | failed
  deriving DecidableEq

/-- A call of `add`, with its `ConcurrencyCapacityReservation`. -/
structure AddCall where
  executionId : String := ""
  isResumed : Bool := false
  stage : AddStage := .failed
  acquiredReservation : Bool := false

/-- `IExecutingWorkflowData`: the status and whether `postExecutePromise` is settled. -/
structure ExecutingWorkflowData where
  status : ActiveExecutions.ExecutionStatus := .running
  settled : Bool := false

structure ActiveExecutions where
  activeExecutions : Dict String ℕ := .empty
  executions : ℕ → ExecutingWorkflowData := fun _ => {}
  calls : ℕ → AddCall := fun _ => {}
  nextCall : ℕ := 0
  /-- The executions whose promise is settled and whose `finally` is still to run. -/
  jobs : List ℕ := []
  /-- The calls that have reserved capacity. -/
  reserved : List ℕ := []
  /-- The calls whose reservation was released. -/
  released : List ℕ := []

namespace ActiveExecutions

variable (mode : ExecutionsMode)

/-! ### Reservations and promises -/

def setCall (s : ActiveExecutions) (c : ℕ) (call : AddCall) : ActiveExecutions :=
  { s with calls := Function.update s.calls c call }

/-- `capacityReservation.reserve(…)` has returned. -/
def reserve (s : ActiveExecutions) (c : ℕ) : ActiveExecutions :=
  { s.setCall c { s.calls c with stage := .updating, acquiredReservation := true } with
    reserved := s.reserved ++ [c] }

/-- `capacityReservation.release()`. -/
def release (s : ActiveExecutions) (c : ℕ) : ActiveExecutions :=
  if (s.calls c).acquiredReservation then
    { s.setCall c { s.calls c with acquiredReservation := false } with
      released := s.released ++ [c] }
  else s

/-- Settles `postExecutePromise`, unless it is settled already. -/
def settle (s : ActiveExecutions) (c : ℕ) : ActiveExecutions :=
  if (s.executions c).settled then s
  else { s with
    executions := Function.update s.executions c { s.executions c with settled := true }
    jobs := s.jobs ++ [c] }

/-! ### `add` -/

/-- A call of `add` begins. -/
def newCall (s : ActiveExecutions) (call : AddCall) : ActiveExecutions :=
  { s.setCall s.nextCall call with nextCall := s.nextCall + 1 }

/-- `add` up to its first `await`. -/
def add (s : ActiveExecutions) : Option String → ActiveExecutions
  | none => s.newCall { stage := .creating }
  | some executionId => s.newCall { executionId, isResumed := true, stage := .reserving }

/-- The `catch` of `add`. -/
def addFailed (s : ActiveExecutions) (c : ℕ) : ActiveExecutions :=
  let s := s.release c
  s.setCall c { s.calls c with stage := .failed }

/-- The end of `add`: the execution is entered. -/
def enter (s : ActiveExecutions) (c : ℕ) : ActiveExecutions :=
  { s.setCall c { s.calls c with stage := .added } with
    activeExecutions := s.activeExecutions.set (s.calls c).executionId c
    executions := Function.update s.executions c {
      -- the status that a resumed execution with the empty id starts with
      status := if (s.calls c).executionId = "" then .new else .running } }

/-- `add` goes on after `executionPersistence.create`, which returned an id unless it threw. -/
def created (s : ActiveExecutions) (c : ℕ) (result : Option String) : ActiveExecutions :=
  if (s.calls c).stage = .creating then
    match result with
    | none => s.addFailed c
    | some executionId =>
      -- `assert(maybeExecutionId)`
      if executionId = "" then s.addFailed c
      else s.setCall c { s.calls c with executionId, stage := .reserving }
  else s

/-- `add` goes on after `throttle`. -/
def throttled (s : ActiveExecutions) (c : ℕ) (returned : Bool) : ActiveExecutions :=
  if (s.calls c).stage = .reserving then
    if returned then
      -- in queue mode a new execution is not updated
      if (s.calls c).isResumed = false ∧ mode = .queue then (s.reserve c).enter c else s.reserve c
    else s.addFailed c
  else s

/-- `add` goes on after the update of the database, which succeeded unless it threw or found the
execution resumed by another process. -/
def updated (s : ActiveExecutions) (c : ℕ) (updateSucceeded : Bool) : ActiveExecutions :=
  if (s.calls c).stage = .updating then
    if updateSucceeded then s.enter c else s.addFailed c
  else s

/-- The `finally` of `postExecutePromise`. -/
def cleanUp (s : ActiveExecutions) (c : ℕ) : ActiveExecutions :=
  if c ∈ s.jobs then
    let s := { s with jobs := s.jobs.erase c }.release c
    if (s.executions c).status = .waiting then s
    else { s with activeExecutions := s.activeExecutions.erase (s.calls c).executionId }
  else s

/-! ### Other calls -/

def setStatus (s : ActiveExecutions) (executionId : String) (status : ExecutionStatus) :
    ActiveExecutions :=
  match s.activeExecutions.get? executionId with
  | none => s
  | some c => { s with
      executions := Function.update s.executions c { s.executions c with status } }

def stopExecution (s : ActiveExecutions) (executionId : String) : ActiveExecutions :=
  match s.activeExecutions.get? executionId with
  | none => s
  | some c =>
    if (s.executions c).status = .waiting then
      { s with activeExecutions := s.activeExecutions.erase executionId }
    else s.settle c

def finalizeExecution (s : ActiveExecutions) (executionId : String) : ActiveExecutions :=
  match s.activeExecutions.get? executionId with
  | none => s
  | some c => s.settle c

/-! ### Runs -/

inductive Event
  | add (maybeExecutionId : Option String)
  | created (call : ℕ) (result : Option String)
  | throttled (call : ℕ) (returned : Bool)
  | updated (call : ℕ) (updateSucceeded : Bool)
  | cleanUp (call : ℕ)
  | setStatus (executionId : String) (status : ExecutionStatus)
  | stopExecution (executionId : String)
  | finalizeExecution (executionId : String)

/-- What an event does; one that cannot happen changes nothing. -/
def step (s : ActiveExecutions) : Event → ActiveExecutions
  | .add maybeExecutionId => s.add maybeExecutionId
  | .created c result => s.created c result
  | .throttled c returned => s.throttled mode c returned
  | .updated c updateSucceeded => s.updated c updateSucceeded
  | .cleanUp c => s.cleanUp c
  | .setStatus executionId status => s.setStatus executionId status
  | .stopExecution executionId => s.stopExecution executionId
  | .finalizeExecution executionId => s.finalizeExecution executionId

/-- The state after the events, from no execution. -/
def run (events : List Event) : ActiveExecutions :=
  events.foldl (step mode) {}

@[simp] theorem run_nil : run mode [] = {} := rfl

@[simp] theorem run_concat (events : List Event) (e : Event) :
    run mode (events ++ [e]) = (run mode events).step mode e := by
  simp [run]

end ActiveExecutions

end N8n
