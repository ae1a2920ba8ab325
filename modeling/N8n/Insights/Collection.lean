import N8n.Lib.OrderedSet
import Mathlib.Algebra.Order.Field.Rat

/-!
# Collecting insights

`insights-collection.service.ts`: events of finished executions go to a buffer, and flushes save the
buffer to the raw table.  A flush, the call of a handler that waits for one and the shutdown go on
when the database answers, so their steps are interleaved.

* `InsightsCollection`: the buffer, the flushes in progress, the raw table and who waits;
* `collectEvents`: the events of one execution;
* `flushEvents`, `handleWorkflowExecuteAfter`, `settle`, `shutdown`: the code between two waits;
* `Action`, `step`: what can happen next.
-/

namespace N8n

namespace Insights

/-! ### Events -/

inductive ExecutionStatus where
  | success
  | crashed
  | error
  | canceled
  | new
  | running
  | unknown
  | waiting
  deriving DecidableEq

inductive WorkflowExecuteMode where
  | cli
  | error
  | retry
  | trigger
  | webhook
  | evaluation
  | integrated
  | internal
  | manual
  | chat
  deriving DecidableEq

def shouldSkipStatus : ExecutionStatus → Bool
  | .success | .crashed | .error => false
  | .canceled | .new | .running | .unknown | .waiting => true

def shouldSkipMode : WorkflowExecuteMode → Bool
  | .cli | .error | .retry | .trigger | .webhook | .evaluation => false
  | .integrated | .internal | .manual | .chat => true

def MIN_RUNTIME : ℤ := 0

/-- The largest integer of a Postgres column. -/
def MAX_RUNTIME : ℤ := 2 ^ 31 - 1

inductive InsightType where
  | success
  | failure
  | runtime_ms
  | time_saved_min
  deriving DecidableEq

/-- What the handler reads of a finished execution; `nodeTimeSaved` are the minutes that its nodes
report. -/
structure WorkflowExecuteAfterContext where
  workflowId : String
  workflowName : String
  status : ExecutionStatus
  mode : WorkflowExecuteMode
  startedAt : ℤ
  stoppedAt : Option ℤ := none
  now : ℤ
  timeSavedPerExecution : Option ℚ := none
  timeSavedModeIsDynamic : Bool := false
  nodeTimeSaved : List ℚ := []

/-- An event object, told from others by `object`. -/
structure BufferedInsight where
  object : ℕ
  workflowId : String
  workflowName : String
  timestamp : ℤ
  type : InsightType
  value : ℚ
  deriving DecidableEq

def calculateTimeSaved (ctx : WorkflowExecuteAfterContext) : ℚ :=
  if ctx.timeSavedModeIsDynamic then ctx.nodeTimeSaved.sum
  else ctx.timeSavedPerExecution.getD 0

/-- The types and values of the events of an execution. -/
def insightsOf (ctx : WorkflowExecuteAfterContext) : List (InsightType × ℚ) :=
  let status : InsightType := if ctx.status = .success then .success else .failure
  [(status, 1)] ++
    (match ctx.stoppedAt with
      | some stoppedAt =>
        let runtimeMs := stoppedAt - ctx.startedAt
        [(InsightType.runtime_ms, ((min (max runtimeMs MIN_RUNTIME) MAX_RUNTIME : ℤ) : ℚ))]
      | none => []) ++
    if status = .success then [(InsightType.time_saved_min, calculateTimeSaved ctx)] else []

/-- The events of an execution; `created` objects have been made before. -/
def collectEvents (created : ℕ) (ctx : WorkflowExecuteAfterContext) : List BufferedInsight :=
  (insightsOf ctx).mapIdx fun i insight =>
    { object := created + i
      workflowId := ctx.workflowId
      workflowName := ctx.workflowName
      timestamp := ctx.now
      type := insight.1
      value := insight.2 }

/-! ### The service -/

/-- How far a flush is: the save runs, has inserted the events, or has failed without a row. -/
inductive FlushStage where
  | saving
  | stored
  | failed
  deriving DecidableEq

/-- A flush in progress. -/
structure Flush where
  id : ℕ
  events : OrderedSet BufferedInsight
  stage : FlushStage := .saving
  /-- History: whether it was started after the shutdown began. -/
  duringShutdown : Bool
  deriving DecidableEq

/-- The service and the raw table, the handlers that wait for a flush and, once it has begun, the
flushes that the shutdown waits for. -/
structure InsightsCollection where
  bufferedInsights : OrderedSet BufferedInsight := OrderedSet.empty
  /-- Whether the timer is set. -/
  flushInsightsRawBufferTimer : Bool := true
  isAsynchronouslySavingInsights : Bool := true
  flushesInProgress : List Flush := []
  isInitialized : Bool := true
  raw : List BufferedInsight := []
  handlers : List ℕ := []
  awaited : Option (List ℕ) := none
  resolved : Bool := false
  created : ℕ := 0
  flushes : ℕ := 0
  /-- History: the events that were collected. -/
  collected : List BufferedInsight := []
  /-- History: the attempts to save, the latest first, with whether the shutdown had begun. -/
  attempts : List (Bool × OrderedSet BufferedInsight) := []
  /-- History: a flush from before the shutdown has failed during it, and none was started since. -/
  lateFailure : Bool := false

namespace InsightsCollection

variable (s : InsightsCollection)

def scheduleFlushing : InsightsCollection :=
  if s.isInitialized then { s with flushInsightsRawBufferTimer := true } else s

def cancelScheduledFlushing : InsightsCollection := { s with flushInsightsRawBufferTimer := false }

/-- Take the events out of the buffer and start to save them. -/
def startFlush : InsightsCollection :=
  { s.cancelScheduledFlushing with
    bufferedInsights := OrderedSet.empty
    flushesInProgress := s.flushesInProgress ++
      [{ id := s.flushes
         events := s.bufferedInsights
         duringShutdown := !s.isAsynchronouslySavingInsights }]
    flushes := s.flushes + 1
    attempts := (!s.isAsynchronouslySavingInsights, s.bufferedInsights) :: s.attempts
    lateFailure := false }

/-- `flushEvents` up to its wait, with the flush that it starts. -/
def flushEvents : InsightsCollection × Option ℕ :=
  if !s.isInitialized then (s, none)
  else if s.bufferedInsights.size = 0 then (s.scheduleFlushing, none)
  else (s.startFlush, some s.flushes)

/-- The end of the handler: flush a full buffer. -/
def flushWhenFull (flushBatchSize : ℕ) : InsightsCollection :=
  if flushBatchSize ≤ s.bufferedInsights.size then s.flushEvents.1 else s

/-- Put the events of an execution into the buffer. -/
def collect (ctx : WorkflowExecuteAfterContext) : InsightsCollection :=
  let events := collectEvents s.created ctx
  { s with
    bufferedInsights := events.foldl OrderedSet.insert s.bufferedInsights
    created := s.created + events.length
    collected := s.collected ++ events }

/-- `handleWorkflowExecuteAfter` up to its wait. -/
def handleWorkflowExecuteAfter (flushBatchSize : ℕ) (ctx : WorkflowExecuteAfterContext) :
    InsightsCollection :=
  if !s.isInitialized then s
  else if shouldSkipStatus ctx.status || shouldSkipMode ctx.mode then s
  else
    let s := s.collect ctx
    if !s.isAsynchronouslySavingInsights then
      let (s, flush) := s.flushEvents
      { s with handlers := s.handlers ++ flush.toList }
    else s.flushWhenFull flushBatchSize

/-- The end of the save of a flush: all of its events are inserted, or none is. -/
def save (stored : Bool) (f : Flush) : InsightsCollection :=
  { s with
    flushesInProgress := s.flushesInProgress.map fun g =>
      if g.id = f.id then { g with stage := if stored then .stored else .failed } else g
    raw := if stored then s.raw ++ f.events.elems else s.raw }

/-- `catch` and `finally` of a flush. -/
def settle (f : Flush) : InsightsCollection :=
  let s := if f.stage = .failed then
      { s with
        bufferedInsights := f.events.elems.foldl OrderedSet.insert s.bufferedInsights
        lateFailure := s.lateFailure ||
          (!s.isAsynchronouslySavingInsights && !f.duringShutdown) }
    else s
  let s := s.scheduleFlushing
  { s with flushesInProgress := s.flushesInProgress.filter fun g => g.id ≠ f.id }

/-- `shutdown` up to its wait. -/
def shutdown : InsightsCollection :=
  let s := { s.cancelScheduledFlushing with isAsynchronouslySavingInsights := false }
  let inProgress := s.flushesInProgress.map (·.id)
  let (s, flush) := s.flushEvents
  { s with awaited := some (inProgress ++ flush.toList) }

/-- All flushes that the shutdown waits for are done. -/
def CanResolve : Prop :=
  s.resolved = false ∧ ∃ awaited, s.awaited = some awaited ∧
    ∀ f ∈ s.flushesInProgress, f.id ∉ awaited

instance : Decidable s.CanResolve :=
  match h : s.awaited with
  | none => isFalse fun hr => by simp [CanResolve, h] at hr
  | some awaited =>
    decidable_of_iff (s.resolved = false ∧ ∀ f ∈ s.flushesInProgress, f.id ∉ awaited)
      (by simp [CanResolve, h])

end InsightsCollection

/-- What can happen next: an execution ends, the timer goes off, a save ends, a flush is told, a
handler goes on after its flush, the shutdown begins or goes on after its flushes. -/
inductive Action where
  | workflowExecuteAfter (ctx : WorkflowExecuteAfterContext)
  | timer
  | saveEnds (id : ℕ) (stored : Bool)
  | flushSettles (id : ℕ)
  | handlerResumes (id : ℕ)
  | shutdownBegins
  | shutdownResolves

/-- The state after an action; one that cannot happen changes nothing. -/
def step (flushBatchSize : ℕ) (s : InsightsCollection) : Action → InsightsCollection
  | .workflowExecuteAfter ctx => s.handleWorkflowExecuteAfter flushBatchSize ctx
  | .timer =>
    if s.flushInsightsRawBufferTimer then
      { s with flushInsightsRawBufferTimer := false }.flushEvents.1
    else s
  | .saveEnds id stored =>
    match s.flushesInProgress.find? fun f => f.id = id ∧ f.stage = .saving with
    | some f => s.save stored f
    | none => s
  | .flushSettles id =>
    match s.flushesInProgress.find? fun f => f.id = id ∧ f.stage ≠ .saving with
    | some f => s.settle f
    | none => s
  | .handlerResumes id =>
    if id ∈ s.handlers ∧ ∀ f ∈ s.flushesInProgress, f.id ≠ id then
      { s with handlers := s.handlers.erase id }.flushWhenFull flushBatchSize
    else s
  | .shutdownBegins => if s.awaited = none then s.shutdown else s
  | .shutdownResolves =>
    if s.CanResolve then { s with isInitialized := false, resolved := true } else s

end Insights

end N8n
