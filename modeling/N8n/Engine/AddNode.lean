import N8n.Workflow.Workflow

/-!
# Scheduling a node

The state of an execution and the functions of
`packages/core/src/execution-engine/workflow-execute.ts` that bring the output of one node to the
inputs of the next: `prepareWaitingToExecution`, `incomingConnectionIsEmpty` and
`addNodeToBeExecuted`, whose long body is cut into the blocks its comments name.

A read of a property of `undefined` throws a `TypeError`; the state a throwing call leaves behind is
not observed.
-/

namespace N8n

/-- The data of waiting nodes by node name and run index. -/
abbrev IWaitingForExecution := Dict String (IndexMap ITaskDataConnections)

/-- The sources of waiting nodes by node name and run index. -/
abbrev IWaitingForExecutionSource := Dict String (IndexMap ITaskDataConnectionsSource)

/-- The state of an execution.  `waitingExecutionSource` may be `null`. -/
structure RunExecutionData where
  nodeExecutionStack : List IExecuteData := []
  waitingExecution : IWaitingForExecution := Dict.empty
  waitingExecutionSource : Option IWaitingForExecutionSource := none
  runData : IRunData := Dict.empty
  pinData : Option IPinData := none
  lastNodeExecuted : Option String := none
  runNodeFilter : Option (List String) := none
  destinationNode : Option String := none
  waitTill : Bool := false

namespace RunExecutionData

/-- The waiting runs of a node. -/
def waitingOf (st : RunExecutionData) (nodeName : String) : IndexMap ITaskDataConnections :=
  (st.waitingExecution.get? nodeName).getD IndexMap.empty

/-- The sources of the waiting runs of a node. -/
def waitingSourceOf (st : RunExecutionData) (nodeName : String) :
    IndexMap ITaskDataConnectionsSource :=
  ((st.waitingExecutionSource.getD Dict.empty).get? nodeName).getD IndexMap.empty

/-- Write the waiting runs of a node and their sources. -/
def setWaiting (st : RunExecutionData) (nodeName : String) (data : IndexMap ITaskDataConnections)
    (source : IndexMap ITaskDataConnectionsSource) : RunExecutionData :=
  { st with
    waitingExecution := st.waitingExecution.set nodeName data
    waitingExecutionSource :=
      some ((st.waitingExecutionSource.getD Dict.empty).set nodeName source) }

/-- Forget the waiting runs of a node. -/
def eraseWaiting (st : RunExecutionData) (nodeName : String) : RunExecutionData :=
  { st with
    waitingExecution := st.waitingExecution.erase nodeName
    waitingExecutionSource := st.waitingExecutionSource.map (·.erase nodeName) }

/-- Put an entry on the stack: in front in the order `v1`, at the end in the legacy order. -/
def enqueue (st : RunExecutionData) (w : Workflow) (e : IExecuteData) : RunExecutionData :=
  { st with
    nodeExecutionStack :=
      if w.isLegacyExecutionOrder then st.nodeExecutionStack ++ [e] else e :: st.nodeExecutionStack }

end RunExecutionData

/-- The number of main inputs of a node, `0` when nothing is connected to it. -/
def Workflow.numberOfInputs (w : Workflow) (nodeName : String) : ℕ :=
  ((w.mainInputs nodeName).map List.length).getD 0

/-- `incomingConnectionIsEmpty`. -/
def incomingConnectionIsEmpty (runData : IRunData) (inputConnections : List IConnection)
    (runIndex : ℕ) : Except JsError Bool :=
  match inputConnections with
  | [] => .ok true
  | c :: rest =>
    let taskData := (runData.get? c.node).bind (·[runIndex]?)
    let lists := (taskData.bind (·.data)).bind (·.get? .main)
    match lists.bind (SparseArray.getAt · c.index) with
    | none | some .undefined => incomingConnectionIsEmpty runData rest runIndex
    | some .null => .error .typeError
    | some (.items l) => if l ≠ [] then .ok false else incomingConnectionIsEmpty runData rest runIndex

/-- `prepareWaitingToExecution`. -/
def prepareWaitingToExecution (nodeName : String) (numberOfConnections runIndex : ℕ)
    (st : RunExecutionData) : RunExecutionData :=
  st.setWaiting nodeName
    ((st.waitingOf nodeName).set runIndex (mainOnly (ItemLists.nulls numberOfConnections)))
    ((st.waitingSourceOf nodeName).set runIndex
      (mainOnly (List.replicate numberOfConnections (some none))))

/-- Whether a slot is truthy: any item list is, an empty one included. -/
def Cell.truthy : Cell → Bool
  | items _ => true
  | _ => false

/-- The first waiting run, by ascending index, whose slot `i` is still free. -/
def findWaitingNodeIndex (i : ℕ) : List (ℕ × ITaskDataConnections) → Except JsError (Option ℕ)
  | [] => .ok none
  | (k, e) :: rest => do
    let main ← orTypeError (e.get? .main)
    if (ItemLists.read main i).truthy then findWaitingNodeIndex i rest else return some k

/-- What one call of `addNodeToBeExecuted` brings to an input of a node. -/
structure Delivery where
  index : ℕ
  outputIndex : ℕ
  parentNodeName : String
  nodeSuccessData : Option ItemLists
  runIndex : ℕ
  newRunIndex : Option ℕ := none
  metadata : Option ITaskMetadata := none

namespace Delivery

/-- The value that is written to the input slot. -/
def cell (d : Delivery) : Cell :=
  match d.nodeSuccessData with
  | none => .null
  | some lists => lists.read d.outputIndex

/-- Where the data comes from. -/
def origin (d : Delivery) : ISourceData :=
  ⟨d.parentNodeName, some d.outputIndex, some d.runIndex⟩

/-- The value that is written to the source slot. -/
def source (d : Delivery) : Option ISourceData := d.nodeSuccessData.map fun _ => d.origin

/-- The item list that the call delivers, if any. -/
def list? (d : Delivery) : Option (List INodeExecutionData) := d.cell.items?

/-- The main lists of a waiting run with the delivery written to them. -/
def writeTo (d : Delivery) (main : ItemLists) : ItemLists := SparseArray.setAt main d.index d.cell

end Delivery

/-- The waiting run that a delivery goes to, created when every waiting run has data at that input;
the index of a new run is the number of waiting runs. -/
def selectWaitingEntry (nodeName : String) (numberOfInputs : ℕ) (d : Delivery)
    (st : RunExecutionData) : Except JsError (RunExecutionData × ℕ) := do
  let st :=
    if (st.waitingExecution.get? nodeName).isNone then
      st.setWaiting nodeName IndexMap.empty IndexMap.empty
    else st
  match ← findWaitingNodeIndex d.index (st.waitingOf nodeName).entries with
  | some k => return (st, k)
  | none =>
    let waitingNodeIndex := (st.waitingOf nodeName).size
    return (prepareWaitingToExecution nodeName numberOfInputs waitingNodeIndex st, waitingNodeIndex)

/-- The data and the sources of waiting run `k` once the delivery is written to them. -/
def writeDelivery (nodeName : String) (k : ℕ) (d : Delivery) (st : RunExecutionData) :
    Except JsError (ITaskDataConnections × ITaskDataConnectionsSource) := do
  let data ← orTypeError ((st.waitingOf nodeName).get? k)
  let main ← orTypeError (data.get? .main)
  let source ← orTypeError ((st.waitingSourceOf nodeName).get? k)
  let sourceMain ← orTypeError (source.get? .main)
  return (data.set .main (d.writeTo main),
    source.set .main (SparseArray.setAt sourceMain d.index d.source))

/-- No slot up to the current length holds `null`; a hole counts as data. -/
def allDataFound (data : ITaskDataConnections) : Bool :=
  ((data.get? .main).getD []).all (· ≠ some .null)

/-- Forget waiting run `k`, and the node itself with its last waiting run. -/
def removeWaiting (nodeName : String) (k : ℕ) (st : RunExecutionData) : RunExecutionData :=
  let rest := (st.waitingOf nodeName).erase k
  if rest.size = 0 then st.eraseWaiting nodeName
  else st.setWaiting nodeName rest ((st.waitingSourceOf nodeName).erase k)

/-- Move waiting run `k` to the stack. -/
def moveToStack (w : Workflow) (nodeName : String) (k : ℕ) (data : ITaskDataConnections)
    (source : ITaskDataConnectionsSource) (st : RunExecutionData) : RunExecutionData :=
  removeWaiting nodeName k
    (st.enqueue w { node := w.getNode nodeName, data := data, source := some source })

/-- The names of the nodes on the stack. -/
def executionStackNodes (st : RunExecutionData) : Except JsError (List String) :=
  st.nodeExecutionStack.mapM fun stackData => (·.name) <$> orTypeError stackData.node

/-- The node to start from so that `inputNode` gets executed: the farthest parent that has to run
first; none when one of them is scheduled already. -/
def selectNodeToAdd (runData : IRunData) (checkOutputNodes stackNodes : List String)
    (inputNode : String) : List String → Option String → Option String
  | [], nodeToAdd => nodeToAdd
  | parentNode :: rest, nodeToAdd =>
    if inputNode ≠ parentNode ∧ parentNode ∈ checkOutputNodes then none
    else if parentNode ∈ stackNodes then none
    else if runData.has parentNode then nodeToAdd
    else selectNodeToAdd runData checkOutputNodes stackNodes inputNode rest (some parentNode)

/-- The connections of the first main input of a node. -/
def firstMainInput (w : Workflow) (nodeName : String) : Except JsError (List IConnection) := do
  let lists ← orTypeError (w.mainInputs nodeName)
  return ((lists[0]?).bind id).getD []

/-- Whether the node that an input comes from ran already or will run anyway. -/
def runsAnyway (w : Workflow) (d : Delivery) (checkOutputNodes stackNodes : List String)
    (runData : IRunData) (inputNode : String) : Except JsError Bool := do
  if inputNode ∈ checkOutputNodes then
    -- the parent node adds it, unless its own input is empty
    if !(← incomingConnectionIsEmpty runData (← firstMainInput w inputNode) d.runIndex) then
      return true
  return decide (inputNode ∈ stackNodes) || runData.has inputNode

/-- The node to schedule so that `inputNode` gets executed, if any. -/
def findNodeToAdd (w : Workflow) (d : Delivery) (checkOutputNodes stackNodes : List String)
    (runData : IRunData) (inputNode : String) : Except JsError (Option String) := do
  let parentNodes := inputNode :: (w.getParentNodes inputNode).reverse
  let nodeToAdd :=
    selectNodeToAdd runData checkOutputNodes stackNodes inputNode parentNodes (some inputNode)
  if d.parentNodeName ∈ w.getParentNodes (nodeToAdd.getD "undefined") then
    -- a child of the parent node that received no data is not to run
    let items ← orTypeError d.list?
    return if items = [] then none else nodeToAdd
  else return nodeToAdd

/-- Whether a node is to be scheduled with an empty item: its own input brings it no data. -/
def needsEmptyItem (w : Workflow) (runData : IRunData) (runIndex : ℕ) (nodeToAdd : String) :
    Except JsError Bool := do
  if w.connectionsByDestinationNode.has nodeToAdd then
    incomingConnectionIsEmpty runData (← firstMainInput w nodeToAdd) runIndex
  else return true

/-- Schedule a node with an empty item, unless its own input has data. -/
def addEmptyRun (w : Workflow) (d : Delivery) (st : RunExecutionData) (nodeToAdd : String) :
    Except JsError RunExecutionData := do
  let addEmptyItem ← needsEmptyItem w st.runData d.runIndex nodeToAdd
  return if addEmptyItem then
      st.enqueue w
        { node := w.getNode nodeToAdd
          data := mainOnly [some (.items [emptyItem])]
          source := some (mainOnly [some (some d.origin)]) }
    else st

/-- One input connection of a node that waits for the first time: in the legacy order the node it
comes from, or the first of its parents that did not run, is scheduled when nothing else will run
it. -/
def followInputConnection (w : Workflow) (d : Delivery) (checkOutputNodes : List String)
    (st : RunExecutionData) (inputData : IConnection) : Except JsError RunExecutionData :=
  if inputData.node = d.parentNodeName then .ok st
  else do
    let stackNodes ← executionStackNodes st
    let runs ← runsAnyway w d checkOutputNodes stackNodes st.runData inputData.node
    if runs || !w.isLegacyExecutionOrder then return st
    else
      match ← findNodeToAdd w d checkOutputNodes stackNodes st.runData inputData.node with
      | none => return st
      | some nodeToAdd => addEmptyRun w d st nodeToAdd

/-- The inputs of a node that waits for the first time are followed. -/
def followInputConnections (w : Workflow) (nodeName : String) (d : Delivery)
    (st : RunExecutionData) : Except JsError RunExecutionData := do
  let outputs ← orTypeError (w.connectionsBySourceNode.get? d.parentNodeName)
  let checkOutputNodes :=
    (((outputs.get? .main).getD []).flatMap (·.getD [])).map (·.node)
  (((w.mainInputs nodeName).getD []).flatMap (·.getD [])).foldlM
    (followInputConnection w d checkOutputNodes) st

/-- A delivery to a node with several main inputs. -/
def addToWaiting (w : Workflow) (nodeName : String) (d : Delivery) (st : RunExecutionData) :
    Except JsError RunExecutionData := do
  let nodeWasWaiting := (st.waitingExecution.get? nodeName).isSome
  let (st, k) ← selectWaitingEntry nodeName (w.numberOfInputs nodeName) d st
  let (data, source) ← writeDelivery nodeName k d st
  if allDataFound data then return moveToStack w nodeName k data source st
  -- the entry that stays keeps its `main` lists only
  let st := st.setWaiting nodeName
    ((st.waitingOf nodeName).set k (mainOnly ((data.get? .main).getD [])))
    ((st.waitingSourceOf nodeName).set k (mainOnly ((source.get? .main).getD [])))
  if nodeWasWaiting then return st
  followInputConnections w nodeName d st

/-- The entry of a node with at most one main input. -/
def Delivery.entry (d : Delivery) (n : INode) : IExecuteData where
  node := some n
  data := mainOnly (SparseArray.setAt (ItemLists.nulls (d.index + 1)) d.index d.cell)
  source := some (mainOnly [some (some d.origin)])
  runIndex := d.newRunIndex
  metadata := d.metadata

/-- A delivery to a node with at most one main input. -/
def addToStack (w : Workflow) (nodeName : String) (d : Delivery) (st : RunExecutionData) :
    RunExecutionData :=
  match w.getNode nodeName with
  | none => st
  | some n => st.enqueue w (d.entry n)

/-- `addNodeToBeExecuted`, for a delivery to the node `nodeName`. -/
def addNodeToBeExecuted (w : Workflow) (nodeName : String) (d : Delivery) (st : RunExecutionData) :
    Except JsError RunExecutionData :=
  if 1 < w.numberOfInputs nodeName then addToWaiting w nodeName d st
  else .ok (addToStack w nodeName d st)

end N8n
