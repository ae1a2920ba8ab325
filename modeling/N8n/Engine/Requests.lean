import N8n.Engine.AddNode

/-!
# Requests of nodes

A node may return a request to have other nodes run for it: `handleRequest` of
`packages/core/src/execution-engine/requests-response.ts` reserves a run for each requested node and
lists what is to be scheduled, and `handleEngineRequest` of `workflow-execute.ts` schedules it.

A call that throws leaves the changes behind that it made before; so the functions here return the
state reached together with the result.  A node that has runs is taken to have at least one.
-/

namespace N8n

/-- What an execution changes besides its run execution data: `rewireOutputLogTo` of the nodes. -/
abbrev RewireOutputLogTo := Dict String NodeConnectionType

/-- What `handleRequest` lists to be scheduled; `parentOutputData` is `none` when it is undefined. -/
structure NodeToBeExecuted where
  inputConnectionData : IConnection
  parentOutputIndex : ℕ
  parentNode : String
  parentOutputData : Option ItemLists
  runIndex : ℕ
  nodeRunIndex : ℕ
  metadata : ITaskMetadata

/-- `buildParentOutputData`. -/
def buildParentOutputData (json : JsObject) (parentRunIndex parentOutputIndex : ℕ)
    (parentSourceNode : String) : ItemLists :=
  [some (.items [{ json := json
                   pairedItem := some (.data
                     { item := parentRunIndex
                       input := some parentOutputIndex
                       sourceOverwrite := some
                        ⟨parentSourceNode, some parentOutputIndex, some parentRunIndex⟩ }) }])]

/-- A text that is missing or empty counts as absent. -/
def truthyText : Option String → Option String
  | some "" | none => none
  | some s => some s

/-- The record that reserves a run of a requested node. -/
def initialRunData (parentNode : String) (parentOutputIndex previousNodeRun : ℕ)
    (displayOutputData : ItemLists) : ITaskData where
  source := [some ⟨parentNode, some parentOutputIndex, some previousNodeRun⟩]
  executionIndex := 0
  inputOverride := some (Dict.empty.set .aiTool displayOutputData)

/-- `initializeNodeRunData`; the index of the run is the number of runs before. -/
def initializeNodeRunData (runData : IRunData) (nodeName parentNode : String)
    (parentOutputIndex parentRunIndex : ℕ) (actionMetadata : Option ActionMetadata) (runIndex : ℕ)
    (displayOutputData : ItemLists) : IRunData × ℕ :=
  let nodeRunData := (runData.get? nodeName).getD []
  let previousNodeRun :=
    if (truthyText (actionMetadata.bind (·.parentNodeName))).isSome then parentRunIndex else runIndex
  (runData.set nodeName (nodeRunData ++
    [initialRunData parentNode parentOutputIndex previousNodeRun displayOutputData]),
    nodeRunData.length)

/-- The properties of objects, one after the other, written to an object. -/
def spread (o : JsObject) (props : JsObject) : JsObject :=
  props.foldl (fun o p => EntryList.write p.1 p.2 o) o

/-- What a request has collected so far. -/
structure RequestedNodes where
  runData : IRunData
  rewireOutputLogTo : RewireOutputLogTo
  nodesToBeExecuted : List NodeToBeExecuted := []
  actions : List SubNodeExecutionDataAction := []

/-- One action of `prepareRequestedNodesForExecution`, for a node of the workflow. -/
def prepareAction (currentNode : INode) (runIndex : ℕ) (executionData : IExecuteData)
    (r : RequestedNodes) (action : EngineAction) : RequestedNodes :=
  let parentSourceData : Option ISourceData :=
    ((executionData.source.bind (·.get? .main)).bind (SparseArray.getAt · runIndex)).bind id
  let defaultParentOutputIndex := (parentSourceData.bind (·.previousNodeOutput)).getD 0
  let defaultParentSourceNode := (parentSourceData.map (·.previousNode)).getD currentNode.name
  let parentNodeName := action.metadata.bind (·.parentNodeName)
  let parentNode := parentNodeName.getD currentNode.name
  let customParent := (truthyText parentNodeName).isSome
  let parentRunIndex :=
    if customParent then ((r.runData.get? parentNode).map List.length).getD 1 - 1
    else (parentSourceData.bind (·.previousNodeRun)).getD 0
  let itemIndex := (action.metadata.bind (·.itemIndex)).getD 0
  let agentInputData :=
    ((executionData.data.get? .main).bind (ItemLists.items? · 0)).bind (·[itemIndex]?)
  let mergedJson := EntryList.write "toolCallId" (.str action.id)
    (spread ((agentInputData.map (·.json)).getD []) action.input)
  let parentOutputData := buildParentOutputData mergedJson parentRunIndex defaultParentOutputIndex
    defaultParentSourceNode
  let displayOutputData := buildParentOutputData action.input parentRunIndex
    defaultParentOutputIndex defaultParentSourceNode
  let (runData, nodeRunIndex) := initializeNodeRunData r.runData action.nodeName parentNode
    defaultParentOutputIndex parentRunIndex action.metadata runIndex displayOutputData
  { runData := runData
    rewireOutputLogTo := r.rewireOutputLogTo.set action.nodeName action.type
    nodesToBeExecuted := r.nodesToBeExecuted ++
      [{ inputConnectionData := ⟨action.nodeName, action.type, 0⟩
         parentOutputIndex := 0
         parentNode := parentNode
         parentOutputData := some parentOutputData
         runIndex := if customParent then parentRunIndex else runIndex
         nodeRunIndex := nodeRunIndex
         metadata :=
          { preserveSourceOverwrite := true
            preservedSourceOverwrite :=
              (executionData.metadata.bind (·.preservedSourceOverwrite)).orElse fun _ => some
                ⟨defaultParentSourceNode, some defaultParentOutputIndex, some parentRunIndex⟩ } }]
    actions := r.actions ++ [⟨action, action.nodeName, nodeRunIndex⟩] }

/-- `prepareRequestedNodesForExecution`; it stops at an action for a node that the workflow does not
have. -/
def prepareRequestedNodesForExecution (w : Workflow) (currentNode : INode) (runIndex : ℕ)
    (executionData : IExecuteData) :
    RequestedNodes → List EngineAction → RequestedNodes × Option JsError
  | r, [] => (r, none)
  | r, action :: rest =>
    if (w.getNode action.nodeName).isNone then
      (r, some (.unexpectedError
        ("Workflow does not contain a node with the name of \"" ++ action.nodeName ++ "\".")))
    else
      prepareRequestedNodesForExecution w currentNode runIndex executionData
        (prepareAction currentNode runIndex executionData r action) rest

/-- The node that the entry of a requesting node came from, if any. -/
def requestParentNode (executionData : IExecuteData) : Option String :=
  truthyText ((((executionData.source.bind (·.get? .main)).bind (SparseArray.getAt · 0)).bind
    id).map (·.previousNode))

/-- `prepareRequestingNodeForResuming`: the connection, the parent and the metadata with which the
requesting node is scheduled again. -/
def prepareRequestingNodeForResuming (executionNode : INode) (executionData : IExecuteData) :
    Option (IConnection × String × ITaskMetadata) :=
  (requestParentNode executionData).map fun parentNode =>
    let preserved := (executionData.metadata.map (·.preserveSourceOverwrite)).getD false
    let source := executionData.metadata.bind (·.preservedSourceOverwrite)
    (⟨executionNode.name, .aiTool, 0⟩, parentNode,
      if preserved && source.isSome then
        { preserveSourceOverwrite := true, preservedSourceOverwrite := source }
      else {})

/-- The requesting node itself, to be scheduled below the nodes it requested. -/
def resumingNode (connectionData : IConnection) (parentNode : String) (metadata : ITaskMetadata)
    (request : EngineRequest) (runIndex : ℕ) (executionData : IExecuteData)
    (actions : List SubNodeExecutionDataAction) : NodeToBeExecuted where
  inputConnectionData := connectionData
  parentOutputIndex := 0
  parentNode := parentNode
  parentOutputData := executionData.data.get? .main
  runIndex := runIndex
  nodeRunIndex := runIndex
  metadata := { metadata with
    nodeWasResumed := true
    subNodeExecutionData := some ⟨actions, request.metadata⟩ }

/-- `handleRequest`; without a parent node the request is ignored, but the runs stay reserved. -/
def handleRequest (w : Workflow) (currentNode : INode) (request : EngineRequest) (runIndex : ℕ)
    (executionData : IExecuteData) (runData : IRunData) (rewireOutputLogTo : RewireOutputLogTo) :
    RequestedNodes × Except JsError (List NodeToBeExecuted) :=
  match prepareRequestedNodesForExecution w currentNode runIndex executionData
      { runData := runData, rewireOutputLogTo := rewireOutputLogTo } request.actions with
  | (r, some e) => (r, .error e)
  | (r, none) =>
    match prepareRequestingNodeForResuming currentNode executionData with
    | none => (r, .ok [])
    | some (connectionData, parentNode, metadata) =>
      (r, .ok (resumingNode connectionData parentNode metadata request runIndex executionData
        r.actions :: r.nodesToBeExecuted))

/-! ### Scheduling the requested nodes -/

/-- The state reached by a loop that stops at the first call that throws. -/
def foldReached {σ α : Type} (f : σ → α → Except JsError σ) : σ → List α → σ
  | s, [] => s
  | s, a :: rest =>
    match f s a with
    | .ok s' => foldReached f s' rest
    | .error _ => s

/-- The state that `selectWaitingEntry` leaves behind when it throws. -/
def openWaiting (nodeName : String) (st : RunExecutionData) : RunExecutionData :=
  if (st.waitingExecution.get? nodeName).isNone then
    st.setWaiting nodeName IndexMap.empty IndexMap.empty
  else st

/-- The state that a throwing call of `addToWaiting` leaves behind. -/
def addToWaitingReached (w : Workflow) (nodeName : String) (d : Delivery) (st : RunExecutionData) :
    RunExecutionData :=
  match selectWaitingEntry nodeName (w.numberOfInputs nodeName) d st with
  | .error _ => openWaiting nodeName st
  | .ok (st₁, k) =>
    match writeDelivery nodeName k d st₁ with
    | .error _ =>
      -- the data was written, and its source is missing
      match (st₁.waitingOf nodeName).get? k with
      | none => st₁
      | some data =>
        let waiting := (st₁.waitingOf nodeName).set k
          (data.set .main (d.writeTo ((data.get? .main).getD [])))
        { st₁ with waitingExecution := st₁.waitingExecution.set nodeName waiting }
    | .ok (data, source) =>
      let st₂ := st₁.setWaiting nodeName
        ((st₁.waitingOf nodeName).set k (mainOnly ((data.get? .main).getD [])))
        ((st₁.waitingSourceOf nodeName).set k (mainOnly ((source.get? .main).getD [])))
      match w.connectionsBySourceNode.get? d.parentNodeName with
      | none => st₂
      | some outputs =>
        let checkOutputNodes :=
          (((outputs.get? .main).getD []).flatMap (·.getD [])).map (·.node)
        foldReached (followInputConnection w d checkOutputNodes) st₂
          (((w.mainInputs nodeName).getD []).flatMap (·.getD []))

/-- The delivery of a node to be executed whose parent output data is `lists`. -/
def NodeToBeExecuted.delivery (n : NodeToBeExecuted) (lists : ItemLists) : Delivery where
  index := n.inputConnectionData.index
  outputIndex := n.parentOutputIndex
  parentNodeName := n.parentNode
  nodeSuccessData := some lists
  runIndex := n.runIndex
  newRunIndex := some n.nodeRunIndex
  metadata := some n.metadata

/-- One call of `addNodeToBeExecuted` in `handleEngineRequest`. -/
def addRequestedNode (w : Workflow) (n : NodeToBeExecuted) (st : RunExecutionData) :
    RunExecutionData × Option JsError :=
  let nodeName := n.inputConnectionData.node
  match n.parentOutputData with
  | none =>
    -- reading an output of `undefined` throws when the waiting run was chosen
    if 1 < w.numberOfInputs nodeName then
      match selectWaitingEntry nodeName (w.numberOfInputs nodeName) (n.delivery []) st with
      | .error e => (openWaiting nodeName st, some e)
      | .ok (st, _) => (st, some .typeError)
    else (st, some .typeError)
  | some lists =>
    match addNodeToBeExecuted w nodeName (n.delivery lists) st with
    | .ok st => (st, none)
    | .error e => (addToWaitingReached w nodeName (n.delivery lists) st, some e)

/-- The loop of `handleEngineRequest`. -/
def addRequestedNodes (w : Workflow) :
    RunExecutionData → List NodeToBeExecuted → RunExecutionData × Option JsError
  | st, [] => (st, none)
  | st, n :: rest =>
    match addRequestedNode w n st with
    | (st, some e) => (st, some e)
    | (st, none) => addRequestedNodes w st rest

/-- `handleEngineRequest`. -/
def handleEngineRequest (w : Workflow) (currentNode : INode) (request : EngineRequest)
    (runIndex : ℕ) (executionData : IExecuteData) (st : RunExecutionData)
    (rewireOutputLogTo : RewireOutputLogTo) :
    RunExecutionData × RewireOutputLogTo × Option JsError :=
  match handleRequest w currentNode request runIndex executionData st.runData rewireOutputLogTo with
  | (r, .error e) => ({ st with runData := r.runData }, r.rewireOutputLogTo, some e)
  | (r, .ok nodesToBeExecuted) =>
    let (st, e) := addRequestedNodes w { st with runData := r.runData } nodesToBeExecuted
    (st, r.rewireOutputLogTo, e)

end N8n
