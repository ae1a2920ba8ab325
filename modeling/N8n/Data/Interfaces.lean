import N8n.Lib.IndexMap
import N8n.Data.JsValue

/-!
# The shared data types

The records that the workflow model and the execution engine exchange, with the fields that the
modelled functions read or write (`packages/workflow/src/interfaces.ts`).

* `IConnection`, `IConnections`: the connection maps of a workflow;
* `INode`: a node of a workflow;
* `INodeExecutionData`, `ITaskDataConnections`, `IExecuteData`, `ITaskData`: items, the data of one
  run of a node, an entry of the execution stack, a record of a finished run;
* `EngineRequest`: what a node returns to have other nodes run for it.

A slot of an output or input list that is `null` and one that was never written are told apart in
item data (`Cell`), where the engine treats them differently; in connection lists it does not, and
both are `none` there.
-/

namespace N8n

/-- `NodeConnectionTypes`. -/
inductive NodeConnectionType
  | aiAgent
  | aiChain
  | aiDocument
  | aiEmbedding
  | aiLanguageModel
  | aiMemory
  | aiOutputParser
  | aiRetriever
  | aiReranker
  | aiTextSplitter
  | aiTool
  | aiVectorStore
  | main
  deriving DecidableEq

/-- The text of a connection type. -/
def NodeConnectionType.text : NodeConnectionType → String
  | aiAgent => "ai_agent"
  | aiChain => "ai_chain"
  | aiDocument => "ai_document"
  | aiEmbedding => "ai_embedding"
  | aiLanguageModel => "ai_languageModel"
  | aiMemory => "ai_memory"
  | aiOutputParser => "ai_outputParser"
  | aiRetriever => "ai_retriever"
  | aiReranker => "ai_reranker"
  | aiTextSplitter => "ai_textSplitter"
  | aiTool => "ai_tool"
  | aiVectorStore => "ai_vectorStore"
  | main => "main"

/-! ### Connections and nodes -/

/-- One end of a connection: a node with the type and index of its input (or output). -/
structure IConnection where
  node : String
  type : NodeConnectionType
  index : ℕ
  deriving DecidableEq

/-- The connections of each output (or input) index. -/
abbrev NodeInputConnections := List (Option (List IConnection))

/-- The connections of a node by type. -/
abbrev INodeConnections := Dict NodeConnectionType NodeInputConnections

/-- The connections of a workflow by node name. -/
abbrev IConnections := Dict String INodeConnections

/-- What a node does with an error. -/
inductive OnError
  | continueErrorOutput
  | continueRegularOutput
  | stopWorkflow
  deriving DecidableEq

/-- A node of a workflow. -/
structure INode where
  id : String := ""
  name : String
  type : String := ""
  typeVersion : ℚ := 1
  position : ℚ × ℚ := (0, 0)
  disabled : Option Bool := none
  retryOnFail : Option Bool := none
  maxTries : Option ℕ := none
  alwaysOutputData : Option Bool := none
  onError : Option OnError := none
  continueOnFail : Option Bool := none
  parameters : JsObject := []
  deriving DecidableEq

/-! ### Items -/

/-- Where the data of an input came from; a missing output or run stands for `0`. -/
structure ISourceData where
  previousNode : String
  previousNodeOutput : Option ℕ := none
  previousNodeRun : Option ℕ := none
  deriving DecidableEq

/-- The input item that an item was derived from. -/
structure IPairedItemData where
  item : ℕ
  input : Option ℕ := none
  sourceOverwrite : Option ISourceData := none
  deriving DecidableEq

/-- The three forms of the `pairedItem` of an item. -/
inductive PairedItem
  | data (p : IPairedItemData)
  | list (ps : List IPairedItemData)
  | number (n : ℕ)
  deriving DecidableEq

/-- An item. -/
structure INodeExecutionData where
  json : JsObject
  error : Option JsValue := none
  pairedItem : Option PairedItem := none
  deriving DecidableEq

/-- The item `{ json: {} }`. -/
def emptyItem : INodeExecutionData := { json := [] }

/-- The value of a written slot of an item-list array. -/
inductive Cell
  | undefined
  | null
  | items (l : List INodeExecutionData)
  deriving DecidableEq

/-- The items of a slot, when it has any list at all. -/
def Cell.items? : Cell → Option (List INodeExecutionData)
  | items l => some l
  | _ => none

/-- The item lists of one connection type by input (or output) index. -/
abbrev ItemLists := SparseArray Cell

/-- Reading a slot: a hole reads as `undefined`. -/
def ItemLists.read (l : ItemLists) (i : ℕ) : Cell := (SparseArray.getAt l i).getD .undefined

/-- The item list at index `i`, when there is one. -/
def ItemLists.items? (l : ItemLists) (i : ℕ) : Option (List INodeExecutionData) :=
  (ItemLists.read l i).items?

/-- `n` slots holding `null`. -/
def ItemLists.nulls (n : ℕ) : ItemLists := List.replicate n (some .null)

/-- The data of a node run by connection type. -/
abbrev ITaskDataConnections := Dict NodeConnectionType ItemLists

/-- The sources of a node run by connection type; the inner `none` is `null`. -/
abbrev ITaskDataConnectionsSource := Dict NodeConnectionType (SparseArray (Option ISourceData))

/-- The record `{ main: x }`. -/
def mainOnly {α : Type} (x : α) : Dict NodeConnectionType α := Dict.empty.set .main x

/-! ### Engine requests -/

/-- The metadata of an action that the engine reads. -/
structure ActionMetadata where
  parentNodeName : Option String := none
  itemIndex : Option ℕ := none
  deriving DecidableEq

/-- A node that a requesting node wants executed. -/
structure EngineAction where
  nodeName : String
  input : JsObject := []
  type : NodeConnectionType := .aiTool
  id : String := ""
  metadata : Option ActionMetadata := none
  deriving DecidableEq

/-- What a requesting node returns. -/
structure EngineRequest where
  actions : List EngineAction
  metadata : JsObject := []
  deriving DecidableEq

/-- An action together with the run that was reserved for it. -/
structure SubNodeExecutionDataAction where
  action : EngineAction
  nodeName : String
  runIndex : ℕ
  deriving DecidableEq

/-- The actions of a paused request. -/
structure SubNodeExecutionData where
  actions : List SubNodeExecutionDataAction
  metadata : JsObject := []
  deriving DecidableEq

/-! ### Runs of nodes -/

/-- The metadata of a scheduled run. -/
structure ITaskMetadata where
  subNodeExecutionData : Option SubNodeExecutionData := none
  preserveSourceOverwrite : Bool := false
  preservedSourceOverwrite : Option ISourceData := none
  nodeWasResumed : Bool := false
  deriving DecidableEq

/-- An entry of the execution stack.  `node` is `none` when the engine took it from a name that the
workflow does not have. -/
structure IExecuteData where
  node : Option INode
  data : ITaskDataConnections
  source : Option ITaskDataConnectionsSource := none
  runIndex : Option ℕ := none
  metadata : Option ITaskMetadata := none
  deriving DecidableEq

/-- The status of a recorded run. -/
inductive ExecutionStatus
  | success
  | error
  | waiting
  deriving DecidableEq

/-- The record of one run of a node. -/
structure ITaskData where
  source : List (Option ISourceData) := []
  executionIndex : ℕ := 0
  executionStatus : Option ExecutionStatus := none
  data : Option ITaskDataConnections := none
  inputOverride : Option ITaskDataConnections := none
  error : Option String := none
  metadata : Option ITaskMetadata := none
  deriving DecidableEq

/-- The runs of every node. -/
abbrev IRunData := Dict String (List ITaskData)

/-- Pinned output of nodes. -/
abbrev IPinData := Dict String (List INodeExecutionData)

/-- An error thrown by the modelled code or by what it calls.  `rangeError` stands for a recursion that
exceeds the depth a model allows it. -/
inductive JsError
  | typeError
  | rangeError
  | assertionError
  | applicationError (message : String)
  | unexpectedError (message : String)
  | thrown (message : String)
  deriving DecidableEq

/-- The message an error record keeps. -/
def JsError.message : JsError → String
  | typeError => "TypeError"
  | rangeError => "RangeError"
  | assertionError => "AssertionError"
  | applicationError m | unexpectedError m | thrown m => m

/-- Read something that has to be there. -/
def orTypeError {α : Type} : Option α → Except JsError α
  | some a => .ok a
  | none => .error .typeError

@[simp] theorem orTypeError_some {α : Type} (a : α) : orTypeError (some a) = .ok a := rfl

theorem orTypeError_eq_ok {α : Type} {o : Option α} {a : α} (h : orTypeError o = .ok a) :
    o = some a := by
  cases o with
  | none => cases h
  | some b => cases h; rfl

/-- `assert.ok` on a value that may be missing. -/
def orAssertionError {α : Type} : Option α → Except JsError α
  | some a => .ok a
  | none => .error .assertionError

@[simp] theorem orAssertionError_some {α : Type} (a : α) : orAssertionError (some a) = .ok a := rfl

theorem orAssertionError_eq_error {α : Type} {o : Option α} {e : JsError}
    (h : orAssertionError o = .error e) : e = .assertionError := by
  cases o with
  | none =>
    cases h
    rfl
  | some a => cases h

@[simp] theorem get?_mainOnly {α : Type} (x : α) (t : NodeConnectionType) :
    (mainOnly x).get? t = if t = .main then some x else none := by
  rw [mainOnly, Dict.get?_set, Dict.get?_empty]

end N8n
