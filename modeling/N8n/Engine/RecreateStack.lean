import N8n.Engine.AddNode
import N8n.Graph.DirectedGraph

/-!
# Rebuilding the state of an execution

What a partial execution starts from
(`packages/core/src/execution-engine/partial-execution-utils/`).

* `getIncomingData`, `getIncomingDataFromAnyRun`: the output of earlier runs (`get-incoming-data.ts`);
* `getSourceDataGroups`: the incoming connections of a node, one per input and group
  (`get-source-data-groups.ts`);
* `recreateNodeExecutionStack`: the stack and the waiting runs that the groups make
  (`recreate-node-execution-stack.ts`).

`localeCompare` is a parameter: its order depends on the collation of the platform.
-/

namespace N8n

/-! ### Data of earlier runs -/

/-- `getIncomingData`. -/
def getIncomingData (runData : IRunData) (nodeName : String) (runIndex : ℕ)
    (connectionType : NodeConnectionType) (outputIndex : ℕ) :
    Except JsError (Option (List INodeExecutionData)) :=
  match ((runData.get? nodeName).bind (·[runIndex]?)).bind (·.data) with
  | none => .ok none
  | some data => do
    let lists ← orTypeError (data.get? connectionType)
    return ItemLists.items? lists outputIndex

/-- The first of some runs with items at an output, and its index. -/
def findIncomingData (runData : IRunData) (nodeName : String) (connectionType : NodeConnectionType)
    (outputIndex : ℕ) : List ℕ → Except JsError (Option (List INodeExecutionData × ℕ))
  | [] => .ok none
  | runIndex :: rest => do
    match ← getIncomingData runData nodeName runIndex connectionType outputIndex with
    | some (item :: items) => return some (item :: items, runIndex)
    | _ => findIncomingData runData nodeName connectionType outputIndex rest

/-- `getRunIndexLength`. -/
def getRunIndexLength (runData : IRunData) (nodeName : String) : ℕ :=
  ((runData.get? nodeName).map List.length).getD 0

/-- `getIncomingDataFromAnyRun`. -/
def getIncomingDataFromAnyRun (runData : IRunData) (nodeName : String)
    (connectionType : NodeConnectionType) (outputIndex : ℕ) :
    Except JsError (Option (List INodeExecutionData × ℕ)) :=
  findIncomingData runData nodeName connectionType outputIndex
    (List.range (getRunIndexLength runData nodeName))

/-! ### Groups of incoming connections -/

/-- A group of incoming connections; it is complete when all their sources have data. -/
structure SourceConnectionGroup where
  complete : Bool := true
  connections : List GraphConnection := []
  deriving DecidableEq

/-- `sortByInputIndexThenByName`. -/
def sortByInputIndexThenByName (localeCompare : String → String → ℤ)
    (connection1 connection2 : GraphConnection) : ℤ :=
  if connection1.inputIndex = connection2.inputIndex then
    localeCompare connection1.fromNode.name connection2.fromNode.name
  else connection1.inputIndex - connection2.inputIndex

/-- The connections sorted by `sortByInputIndexThenByName`; the sort is stable. -/
def sortConnections (localeCompare : String → String → ℤ) (connections : List GraphConnection) :
    List GraphConnection :=
  connections.insertionSort fun c c' => sortByInputIndexThenByName localeCompare c c' ≤ 0

/-- The least input index of some connections. -/
def minInputIndex (connections : List GraphConnection) : ℕ :=
  ((connections.map (·.inputIndex)).min?).getD 0

/-- The loop of `getSourceDataGroups`: a connection into the next input is moved to the current
group, one with data if there is any; when no connection is left for that input the group is closed
and the next one starts at the least input left.  The first number bounds the iterations. -/
def groupConnections : ℕ → List GraphConnection → List GraphConnection → ℕ → SourceConnectionGroup →
    Except JsError (List SourceConnectionGroup)
  | 0, _, _, _, _ => .error .rangeError
  | steps + 1, withData, withoutData, inputIndex, currentGroup =>
    if withData = [] ∧ withoutData = [] then .ok [currentGroup]
    else
      match withData.find? (·.inputIndex = inputIndex) with
      | some connection =>
        groupConnections steps (withData.erase connection) withoutData (inputIndex + 1)
          { currentGroup with connections := currentGroup.connections ++ [connection] }
      | none =>
        match withoutData.find? (·.inputIndex = inputIndex) with
        | some connection =>
          groupConnections steps withData (withoutData.erase connection) (inputIndex + 1)
            { complete := false, connections := currentGroup.connections ++ [connection] }
        | none => do
          let groups ←
            groupConnections steps withData withoutData (minInputIndex (withData ++ withoutData)) {}
          return currentGroup :: groups

/-- `getSourceDataGroups`. -/
def getSourceDataGroups (localeCompare : String → String → ℤ) (graph : DirectedGraph) (node : INode)
    (runData : IRunData) (pinnedData : IPinData) : Except JsError (List SourceConnectionGroup) :=
  let hasData := fun connection : GraphConnection =>
    runData.has connection.fromNode.name || pinnedData.has connection.fromNode.name
  let connections := graph.parentConnections node
  let withData := sortConnections localeCompare (connections.filter hasData)
  let withoutData := sortConnections localeCompare (connections.filter fun connection =>
    !hasData connection && decide (connection.type = .main))
  if withData = [] ∧ withoutData = [] then .ok []
  else groupConnections (2 * (withData.length + withoutData.length) + 1) withData withoutData
    (minInputIndex (withData ++ withoutData)) {}

/-! ### The stack and the waiting runs -/

/-- The stack and the waiting runs of a rebuilt execution. -/
structure RecreatedStack where
  nodeExecutionStack : List IExecuteData := []
  waitingExecution : IWaitingForExecution := Dict.empty
  waitingExecutionSource : IWaitingForExecutionSource := Dict.empty

/-- Write a slot of a waiting run, creating what does not exist. -/
def setWaitingSlot {α : Type} (waiting : Dict String (IndexMap (Dict NodeConnectionType (SparseArray α))))
    (nodeName : String) (runIndex : ℕ) (inputType : NodeConnectionType) (inputIndex : ℕ) (a : α) :
    Dict String (IndexMap (Dict NodeConnectionType (SparseArray α))) :=
  let waitingObject := (waiting.get? nodeName).getD IndexMap.empty
  let taskDataConnections := (waitingObject.get? runIndex).getD Dict.empty
  let dataList := (taskDataConnections.get? inputType).getD []
  waiting.set nodeName (waitingObject.set runIndex
    (taskDataConnections.set inputType (SparseArray.setAt dataList inputIndex a)))

/-- `addWaitingExecution`. -/
def addWaitingExecution (waitingExecution : IWaitingForExecution) (nodeName : String)
    (runIndex : ℕ) (inputType : NodeConnectionType) (inputIndex : ℕ) (executionData : Cell) :
    IWaitingForExecution :=
  setWaitingSlot waitingExecution nodeName runIndex inputType inputIndex executionData

/-- `addWaitingExecutionSource`. -/
def addWaitingExecutionSource (waitingExecutionSource : IWaitingForExecutionSource)
    (nodeName : String) (runIndex : ℕ) (inputType : NodeConnectionType) (inputIndex : ℕ)
    (sourceData : Option ISourceData) : IWaitingForExecutionSource :=
  setWaitingSlot waitingExecutionSource nodeName runIndex inputType inputIndex sourceData

/-- The data and the sources that the connections of a complete group bring. -/
def incomingDataOf (runData : IRunData) (pinData : IPinData) (connections : List GraphConnection) :
    Except JsError (ItemLists × SparseArray (Option ISourceData)) :=
  connections.foldlM (fun (incomingData, incomingSourceData) incomingConnection => do
    let sourceNode := incomingConnection.fromNode
    let (incomingData, runIndex) ←
      match pinData.get? sourceNode.name with
      | some items => pure (incomingData ++ [some (.items items)], 0)
      | none => do
        let _ ← orAssertionError (runData.get? sourceNode.name)
        match ← getIncomingDataFromAnyRun runData sourceNode.name incomingConnection.type
            incomingConnection.outputIndex with
        | some (items, runIndex) => pure (incomingData ++ [some (.items items)], runIndex)
        | none => pure (incomingData, 0)
    return (incomingData, incomingSourceData ++
      [some (some ⟨sourceNode.name, some incomingConnection.outputIndex, some runIndex⟩)]))
    ([], [])

/-- A connection of an incomplete group: its data, if any, is written to the waiting run. -/
def addWaitingConnection (runData : IRunData) (nodeName : String) (nextRunIndex : ℕ)
    (r : RecreatedStack) (incomingConnection : GraphConnection) :
    Except JsError RecreatedStack := do
  match ← getIncomingDataFromAnyRun runData incomingConnection.fromNode.name
      incomingConnection.type incomingConnection.outputIndex with
  | none => return r
  | some (items, _) =>
    return { r with
      waitingExecution := addWaitingExecution r.waitingExecution nodeName nextRunIndex
        incomingConnection.type incomingConnection.inputIndex (.items items)
      waitingExecutionSource := addWaitingExecutionSource r.waitingExecutionSource nodeName
        nextRunIndex incomingConnection.type incomingConnection.inputIndex
        (some ⟨incomingConnection.fromNode.name, some incomingConnection.outputIndex,
          some nextRunIndex⟩) }

/-- One group of a start node. -/
def addSourceGroup (runData : IRunData) (pinData : IPinData) (startNode : INode)
    (r : RecreatedStack) (sourceData : SourceConnectionGroup) : Except JsError RecreatedStack :=
  if sourceData.complete then do
    let (incomingData, incomingSourceData) ← incomingDataOf runData pinData sourceData.connections
    return { r with nodeExecutionStack := r.nodeExecutionStack ++
      [{ node := some startNode
         data := mainOnly incomingData
         source := some (mainOnly incomingSourceData) }] }
  else
    let nextRunIndex := ((r.waitingExecution.get? startNode.name).map IndexMap.size).getD 0
    sourceData.connections.foldlM (addWaitingConnection runData startNode.name nextRunIndex) r

/-- One start node. -/
def addStartNode (localeCompare : String → String → ℤ) (graph : DirectedGraph) (runData : IRunData)
    (pinData : IPinData) (r : RecreatedStack) (startNode : INode) :
    Except JsError RecreatedStack := do
  let parentConnections ← graph.getDirectParentConnections startNode
  if parentConnections.filter (·.type = .main) = [] then
    return { r with nodeExecutionStack := r.nodeExecutionStack ++
      [{ node := some startNode, data := mainOnly [some (.items [emptyItem])] }] }
  else
    let sourceDataSets ← getSourceDataGroups localeCompare graph startNode runData pinData
    sourceDataSets.foldlM (addSourceGroup runData pinData startNode) r

/-- `recreateNodeExecutionStack`; the start nodes are a set, listed in the order of insertion. -/
def recreateNodeExecutionStack (localeCompare : String → String → ℤ) (graph : DirectedGraph)
    (startNodes : List INode) (runData : IRunData) (pinData : IPinData) :
    Except JsError RecreatedStack :=
  if graph.getNodes.any (·.disabled = some true) then .error .assertionError
  else startNodes.foldlM (addStartNode localeCompare graph runData pinData) {}

/-- The state in which the rebuilt execution starts; the rest of it comes from `st`. -/
def RecreatedStack.resume (r : RecreatedStack) (st : RunExecutionData) : RunExecutionData :=
  { st with
    nodeExecutionStack := r.nodeExecutionStack
    waitingExecution := r.waitingExecution
    waitingExecutionSource := some r.waitingExecutionSource }

end N8n
