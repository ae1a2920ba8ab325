import N8n.Data.JsValue
import N8n.Lib.Places

/-!
# Redaction of an execution

The strategy that redacts a whole execution before it is shown to a user.  Items and errors are
objects in memory and the execution refers to them, so that one item can stand in the run data and
in the pending data at once; redaction changes an item in place.

* `ITaskData` to `IRunExecutionData`: the execution over references to items and errors, and over
  the items and errors themselves once a reader has followed the references (`view`).
* `redactError`, `redactItem`, `redactConnections`, `apply`: the strategy.
* `covers_data`: the locations an execution refers to are all that a reader sees of the memory.
-/

namespace N8n

namespace Redaction

/-! ### Executions -/

/-- An error: its class, the status code property (`some none` is `null`) and the rest: message,
description, cause and context. -/
structure ExecutionError where
  name : String
  httpCode : Option (Option String) := none
  details : JsObject := []
  deriving DecidableEq

/-- What redaction keeps of an error. -/
structure IRedactedErrorInfo where
  type : String
  httpCode : Option (Option String) := none
  deriving DecidableEq

/-- The marker on a redacted item. -/
structure INodeExecutionRedactionInfo where
  redacted : Bool
  reason : String
  error : Option IRedactedErrorInfo := none
  deriving DecidableEq

/-- An item; `rest` holds its evaluation data, its chat message, its index and any further key. -/
structure INodeExecutionData where
  json : JsObject := []
  binary : Option JsObject := none
  error : Option ExecutionError := none
  pairedItem : Option JsValue := none
  metadata : Option JsValue := none
  redaction : Option INodeExecutionRedactionInfo := none
  rest : JsObject := []
  deriving DecidableEq

/-- Items by connection type and index. -/
abbrev ITaskDataConnections (ι : Type) := Dict String (List (Option (List ι)))

/-- One run of a node, over items `ι` and errors `ε`; `rest` is what redaction does not look at. -/
structure ITaskData (ι ε : Type) where
  data : Option (ITaskDataConnections ι) := none
  inputOverride : Option (ITaskDataConnections ι) := none
  error : Option ε := none
  redactedError : Option IRedactedErrorInfo := none
  rest : JsObject := []
  deriving DecidableEq

/-- The runs of every node. -/
abbrev IRunData (ι ε : Type) := Dict String (List (ITaskData ι ε))

/-- The results of an execution. -/
structure IResultData (ι ε : Type) where
  error : Option ε := none
  redactedError : Option IRedactedErrorInfo := none
  runData : Option (IRunData ι ε) := none
  pinData : Option (Dict String (List ι)) := none
  rest : JsObject := []
  deriving DecidableEq

/-- An entry of the execution stack. -/
structure IExecuteData (ι : Type) where
  data : ITaskDataConnections ι
  rest : JsObject := []
  deriving DecidableEq

/-- A value of the context a node keeps between its runs: items, or something else. -/
inductive ContextValue (ι : Type) where
  | items (items : List ι)
  | plain (value : JsValue)
  deriving DecidableEq

/-- What a partial or waiting execution goes on with. -/
structure IExecutionData (ι : Type) where
  contextData : Dict String (Dict String (ContextValue ι)) := Dict.empty
  nodeExecutionStack : List (IExecuteData ι) := []
  waitingExecution : Dict String (Dict String (ITaskDataConnections ι)) := Dict.empty
  rest : JsObject := []
  deriving DecidableEq

/-- Whether and how an execution was redacted. -/
structure RedactionInfo where
  isRedacted : Bool
  reason : String
  canReveal : Bool
  rest : JsObject := []
  deriving DecidableEq

/-- The data of an execution. -/
structure IRunExecutionData (ι ε : Type) where
  resultData : IResultData ι ε
  executionData : Option (IExecutionData ι) := none
  redactionInfo : Option RedactionInfo := none
  deriving DecidableEq

/-- The objects the data of an execution refers to. -/
structure Memory where
  item : ℕ → INodeExecutionData
  error : ℕ → ExecutionError

/-- An execution in memory. -/
structure RedactableExecution where
  memory : Memory
  data : IRunExecutionData ℕ ℕ

/-- What the strategy reads of its context. -/
structure RedactionContext where
  redactExecutionData : Option Bool
  userCanReveal : Bool
  hasDynamicCredentials : Bool

/-! ### The strategy -/

/-- `redactError`: the class of an error, and the status code of an API error. -/
def redactError (error : ExecutionError) : IRedactedErrorInfo :=
  { type := error.name
    httpCode := if error.name = "NodeApiError" then some error.httpCode.join else none }

/-- `redactItem`. -/
def redactItem (reason : String) (item : INodeExecutionData) : INodeExecutionData :=
  { item with
    error := none
    json := []
    binary := none
    redaction := some
      { redacted := true, reason := reason, error := item.error.map redactError } }

/-- Redact an item in place. -/
def redactAt (reason : String) (item : ℕ → INodeExecutionData) (r : ℕ) : ℕ → INodeExecutionData :=
  Function.update item r (redactItem reason (item r))

/-- `redactConnections`: redact every item of every output, in place. -/
def redactConnections (connections : ITaskDataConnections ℕ) (reason : String) (m : Memory) :
    Memory :=
  connections.values.foldl (fun m outputs =>
    outputs.foldl (fun m items => match items with
      | some items => { m with item := items.foldl (redactAt reason) m.item }
      | none => m) m) m

/-- The items of one run, redacted in place. -/
def redactTaskItems (reason : String) (m : Memory) (taskData : ITaskData ℕ ℕ) : Memory :=
  let m := match taskData.data with
    | some data => redactConnections data reason m
    | none => m
  match taskData.inputOverride with
  | some inputOverride => redactConnections inputOverride reason m
  | none => m

/-- The error of one run, replaced by what redaction keeps of it. -/
def redactTaskError (m : Memory) (taskData : ITaskData ℕ ℕ) : ITaskData ℕ ℕ :=
  match taskData.error with
  | some e => { taskData with redactedError := some (redactError (m.error e)), error := none }
  | none => taskData

/-- The reason that is written on every redacted item. -/
def RedactionContext.reason (context : RedactionContext) : String :=
  if context.hasDynamicCredentials then "dynamic_credentials"
  else if context.redactExecutionData = some true then "user_requested"
  else "workflow_redaction_policy"

/-- `FullItemRedactionStrategy.apply`.  The items are shared objects and go through memory; the
errors of the runs are replaced in the run data itself. -/
def apply (execution : RedactableExecution) (context : RedactionContext) : RedactableExecution :=
  let resultData := execution.data.resultData
  match resultData.runData with
  | none => execution
  | some runData =>
    let m := runData.values.foldl
      (fun m tasks => tasks.foldl (redactTaskItems context.reason) m) execution.memory
    let runData := runData.mapValues (List.map (redactTaskError execution.memory))
    let resultData := { resultData with runData := some runData }
    let resultData := match resultData.error with
      | some e =>
        { resultData with
          redactedError := some (redactError (execution.memory.error e)), error := none }
      | none => resultData
    { memory := m
      data := { execution.data with
        resultData := resultData
        redactionInfo := some
          { isRedacted := true
            reason := context.reason
            canReveal := context.userCanReveal
            rest := (execution.data.redactionInfo.map (·.rest)).getD [] } } }

/-! ### What a reader sees -/

namespace ITaskDataConnections

/-- The connections with their items. -/
def view (m : Memory) (connections : ITaskDataConnections ℕ) :
    ITaskDataConnections INodeExecutionData :=
  connections.mapValues (List.map (Option.map (List.map m.item)))

/-- The items that connections refer to, in the order the strategy visits them. -/
def items (connections : ITaskDataConnections ℕ) : List ℕ :=
  connections.values.flatMap fun outputs => outputs.flatMap fun items => items.toList.flatten

end ITaskDataConnections

/-- The locations of a memory. -/
inductive Location where
  | item (r : ℕ)
  | error (r : ℕ)
  deriving DecidableEq

/-- Two memories hold the same object at a location. -/
def Location.Same : Location → Memory → Memory → Prop
  | item r, m, m' => m.item r = m'.item r
  | error r, m, m' => m.error r = m'.error r

/-- A list of items. -/
def viewItems (m : Memory) (items : List ℕ) : List INodeExecutionData := items.map m.item

namespace ITaskData

/-- A run with its items and its error. -/
def view (m : Memory) (t : ITaskData ℕ ℕ) : ITaskData INodeExecutionData ExecutionError :=
  { data := t.data.map (ITaskDataConnections.view m)
    inputOverride := t.inputOverride.map (ITaskDataConnections.view m)
    error := t.error.map m.error
    redactedError := t.redactedError
    rest := t.rest }

/-- The items of a run, in the order the strategy visits them. -/
def items (t : ITaskData ℕ ℕ) : List ℕ :=
  t.data.toList.flatMap ITaskDataConnections.items ++
    t.inputOverride.toList.flatMap ITaskDataConnections.items

/-- The locations a run refers to. -/
def locations (t : ITaskData ℕ ℕ) : List Location :=
  t.items.map .item ++ t.error.toList.map .error

end ITaskData

namespace IRunData

/-- The runs of every node with their items and errors. -/
def view (m : Memory) (runData : IRunData ℕ ℕ) : IRunData INodeExecutionData ExecutionError :=
  runData.mapValues (List.map (ITaskData.view m))

/-- The items of the run data, in the order the strategy visits them. -/
def items (runData : IRunData ℕ ℕ) : List ℕ :=
  runData.values.flatMap fun tasks => tasks.flatMap ITaskData.items

/-- The locations the run data refers to. -/
def locations (runData : IRunData ℕ ℕ) : List Location :=
  runData.values.flatMap fun tasks => tasks.flatMap ITaskData.locations

end IRunData

namespace IResultData

/-- The results with their items and errors. -/
def view (m : Memory) (r : IResultData ℕ ℕ) : IResultData INodeExecutionData ExecutionError :=
  { error := r.error.map m.error
    redactedError := r.redactedError
    runData := r.runData.map (IRunData.view m)
    pinData := r.pinData.map (Dict.mapValues (viewItems m))
    rest := r.rest }

/-- The pinned items. -/
def pinned (r : IResultData ℕ ℕ) : List ℕ := r.pinData.toList.flatMap fun d => d.values.flatten

/-- The locations the results refer to. -/
def locations (r : IResultData ℕ ℕ) : List Location :=
  r.error.toList.map .error ++ r.runData.toList.flatMap IRunData.locations ++ r.pinned.map .item

end IResultData

namespace ContextValue

/-- A context value with its items. -/
def view (m : Memory) : ContextValue ℕ → ContextValue INodeExecutionData
  | .items held => .items (viewItems m held)
  | .plain value => .plain value

/-- The items of a context value. -/
def refs : ContextValue ℕ → List ℕ
  | .items held => held
  | .plain _ => []

end ContextValue

namespace IExecutionData

/-- The pending data with its items. -/
def view (m : Memory) (d : IExecutionData ℕ) : IExecutionData INodeExecutionData :=
  { contextData := d.contextData.mapValues (Dict.mapValues (ContextValue.view m))
    nodeExecutionStack := d.nodeExecutionStack.map fun e =>
      { data := ITaskDataConnections.view m e.data, rest := e.rest }
    waitingExecution := d.waitingExecution.mapValues (Dict.mapValues (ITaskDataConnections.view m))
    rest := d.rest }

/-- The items of the pending data: node contexts, execution stack and waiting runs. -/
def items (d : IExecutionData ℕ) : List ℕ :=
  (d.contextData.values.flatMap fun context => context.values.flatMap ContextValue.refs) ++
    (d.nodeExecutionStack.flatMap fun e => ITaskDataConnections.items e.data) ++
    d.waitingExecution.values.flatMap fun runs => runs.values.flatMap ITaskDataConnections.items

end IExecutionData

namespace IRunExecutionData

/-- The data of an execution with its items and errors. -/
def view (m : Memory) (d : IRunExecutionData ℕ ℕ) :
    IRunExecutionData INodeExecutionData ExecutionError :=
  { resultData := d.resultData.view m
    executionData := d.executionData.map (IExecutionData.view m)
    redactionInfo := d.redactionInfo }

/-- The locations the data of an execution refers to. -/
def locations (d : IRunExecutionData ℕ ℕ) : List Location :=
  d.resultData.locations ++ (d.executionData.toList.flatMap IExecutionData.items).map .item

end IRunExecutionData

/-- What a reader of an execution sees. -/
def RedactableExecution.view (execution : RedactableExecution) :
    IRunExecutionData INodeExecutionData ExecutionError :=
  execution.data.view execution.memory

/-! ### The locations of an execution are what a reader sees -/

theorem covers_items : Covers Location.Same viewItems fun items => items.map .item := by
  have h : Covers Location.Same Memory.item fun r => [Location.item r] := by
    intro m m' r
    simp [Location.Same]
  refine h.list.congr fun items l => ?_
  simp [List.map_eq_flatMap]

theorem covers_connections : Covers Location.Same ITaskDataConnections.view
    fun connections => (ITaskDataConnections.items connections).map .item := by
  refine (covers_items).option.list.dict.congr fun connections l => ?_
  simp [ITaskDataConnections.items, List.flatMap, List.map_flatten]

theorem covers_taskData : Covers Location.Same ITaskData.view ITaskData.locations := by
  intro m m' t
  have hdata := (covers_connections).option m m' t.data
  have hover := (covers_connections).option m m' t.inputOverride
  have herror : t.error.map m.error = t.error.map m'.error ↔
      ∀ l ∈ t.error.toList.map Location.error, l.Same m m' := by
    cases t.error <;> simp [Location.Same]
  simp only [ITaskData.view, ITaskData.mk.injEq, and_true, hdata, hover, herror,
    ITaskData.locations, ITaskData.items, List.map_append, List.map_flatMap, List.forall_mem_append,
    and_assoc]

theorem covers_runData : Covers Location.Same IRunData.view IRunData.locations :=
  (covers_taskData).list.dict

theorem covers_resultData : Covers Location.Same IResultData.view IResultData.locations := by
  intro m m' r
  have hrun := (covers_runData).option m m' r.runData
  have hpin := (covers_items).dict.option m m' r.pinData
  have herror : r.error.map m.error = r.error.map m'.error ↔
      ∀ l ∈ r.error.toList.map Location.error, l.Same m m' := by
    cases r.error <;> simp [Location.Same]
  simp only [IResultData.view, IResultData.mk.injEq, and_true, true_and, hrun, hpin, herror,
    IResultData.locations, IResultData.pinned, List.forall_mem_append, and_assoc, List.flatMap,
    List.map_flatten, List.map_map, Function.comp_def]

theorem covers_contextValue :
    Covers Location.Same ContextValue.view fun value => value.refs.map .item := by
  intro m m' value
  cases value with
  | items items => simpa [ContextValue.view, ContextValue.refs] using covers_items m m' items
  | plain value => simp [ContextValue.view, ContextValue.refs]

theorem covers_executeData : Covers Location.Same
    (fun m (e : IExecuteData ℕ) => IExecuteData.mk (ITaskDataConnections.view m e.data) e.rest)
    fun e => (ITaskDataConnections.items e.data).map .item := by
  intro m m' e
  simpa using covers_connections m m' e.data

theorem covers_executionData :
    Covers Location.Same IExecutionData.view fun d => d.items.map .item := by
  intro m m' d
  have hcontext := (covers_contextValue).dict.dict m m' d.contextData
  have hstack := (covers_executeData).list m m' d.nodeExecutionStack
  have hwaiting := (covers_connections).dict.dict m m' d.waitingExecution
  simp only [IExecutionData.view, IExecutionData.mk.injEq, and_true, hcontext, hstack, hwaiting,
    IExecutionData.items, List.map_append, List.map_flatMap, List.forall_mem_append, and_assoc]

theorem covers_data : Covers Location.Same IRunExecutionData.view IRunExecutionData.locations := by
  intro m m' d
  have hresult := covers_resultData m m' d.resultData
  have hpending := (covers_executionData).option m m' d.executionData
  simp only [IRunExecutionData.view, IRunExecutionData.mk.injEq, and_true, hresult, hpending,
    IRunExecutionData.locations, List.map_flatMap, List.forall_mem_append]

end Redaction

end N8n
