import N8n.Engine.Drain
import N8n.Engine.Items
import N8n.Engine.Requests
import N8n.Lib.Lts

/-!
# The execution loop

The loop of `processRunExecutionData` (`packages/core/src/execution-engine/workflow-execute.ts`), one
turn after the other.

* `Behaviour`: what the nodes, and whoever may cancel the execution, do in one turn;
* `runTries`: running the node of the entry, with its tries;
* `recordSuccess`, `recordFailure`: the record of the run;
* `addChildren`: the nodes that receive its output;
* `iterate`: one turn of the loop, with how it ended.

What a node returns is taken after `convertBinaryData` and `handleNodeErrorOutput`, both part of its
behaviour.  Times, hooks, logs and reports are left out, and so are the records that sub-nodes make
of themselves while a node runs.
-/

namespace N8n

/-! ### Running a node -/

/-- The results of the requested nodes that a resumed node is given. -/
structure EngineResponse where
  actionResponses : List (EngineAction × ITaskData) := []
  metadata : JsObject := []

/-- A call of `runNode`; when the node is called again because it reported an error, the results of
requested nodes are not passed. -/
structure RunNodeCall where
  executionData : IExecuteData
  runExecutionData : RunExecutionData
  runIndex : ℕ
  subNodeExecutionResults : Option EngineResponse

/-- What `runNode` returns or throws. -/
inductive RunNodeOutcome
  | data (data : Option ItemLists)
  | request (request : EngineRequest)
  | throws (error : JsError)

/-- What a call of `runNode` does; it may put the execution to wait. -/
structure RunNodeResult where
  outcome : RunNodeOutcome
  waitTill : Bool := false

/-- What happens in one turn of the loop: whether the execution is canceled before it, what the calls
of `runNode` do, one after the other, and what becomes of the data they return. -/
structure Behaviour where
  canceled : Bool := false
  runNode : ℕ → RunNodeCall → RunNodeResult
  processOutput : Option ItemLists → Except JsError (Option ItemLists) := .ok

/-- How a turn of the loop ends.  After the first seven the loop goes on; `finished` stands for the
end of the loop with an empty stack. -/
inductive IterationEnd
  | skipped
  | deferred
  | requested
  | noData
  | destinationReached
  | completed
  | finished
  | canceled
  | failed
  | waiting
  deriving DecidableEq

/-- Whether the loop goes on after a turn. -/
def IterationEnd.continues : IterationEnd → Bool
  | skipped | deferred | requested | noData | destinationReached | completed => true
  | finished | canceled | failed | waiting => false

/-- The state of the loop. -/
structure LoopState where
  run : RunExecutionData
  lastExecutionTry : String := ""
  currentNodeExecutionIndex : ℕ := 0
  rewireOutputLogTo : RewireOutputLogTo := Dict.empty

/-- The state while a node is tried; it keeps the calls of `runNode` that were made. -/
structure TryState where
  run : RunExecutionData
  rewireOutputLogTo : RewireOutputLogTo
  calls : List RunNodeCall := []
  subNodeExecutionResults : EngineResponse := {}
  nodeSuccessData : Option ItemLists := none
  executionError : Option JsError := none

/-- How a try ends. -/
inductive TryEnd
  | success
  | leave (k : IterationEnd)
  | threw (error : JsError)

/-- The number of tries of a node. -/
def maxTriesOf (node : INode) : ℕ :=
  if node.retryOnFail = some true then
    min 5 (max 2 (match node.maxTries with | none | some 0 => 3 | some n => n))
  else 1

/-- Whether the first item that a node returned reports an error. -/
def nodeFailed : RunNodeOutcome → Bool
  | .data data =>
    match (data.map (ItemLists.read · 0)).bind Cell.items? with
    | some (item :: _) => JsObject.get item.json "error" ≠ .undefined
    | _ => false
  | _ => false

/-- The results of the nodes that the node of an entry requested, one for each that has its run. -/
def actionResponses (subNodeExecutionData : SubNodeExecutionData) (runData : IRunData) :
    List (EngineAction × ITaskData) :=
  subNodeExecutionData.actions.filterMap fun subNode =>
    ((runData.get? subNode.nodeName).bind (·[subNode.runIndex]?)).map fun data =>
      (subNode.action, data)

/-- The results of the requested nodes are added to those that the response already has. -/
def addActionResponses (executionData : IExecuteData) (runData : IRunData)
    (subNodeExecutionResults : EngineResponse) : EngineResponse :=
  match executionData.metadata.bind (·.subNodeExecutionData) with
  | none => subNodeExecutionResults
  | some subNodeExecutionData =>
    { metadata := subNodeExecutionData.metadata
      actionResponses := subNodeExecutionResults.actionResponses ++
        actionResponses subNodeExecutionData runData }

/-- A call of `runNode`. -/
def callNode (b : Behaviour) (executionData : IExecuteData) (runIndex : ℕ)
    (subNodeExecutionResults : Option EngineResponse) (s : TryState) : TryState × RunNodeOutcome :=
  let call : RunNodeCall := ⟨executionData, s.run, runIndex, subNodeExecutionResults⟩
  let result := b.runNode s.calls.length call
  ({ s with calls := s.calls ++ [call],
            run := { s.run with waitTill := s.run.waitTill || result.waitTill } }, result.outcome)

/-- The node is called again while it reports an error; the first number is the number of tries that
are left. -/
def retryFailed (b : Behaviour) (executionData : IExecuteData) (runIndex : ℕ) :
    ℕ → ℕ → TryState → RunNodeOutcome → TryState × ℕ × RunNodeOutcome
  | 0, tryIndex, s, outcome => (s, tryIndex, outcome)
  | tries + 1, tryIndex, s, outcome =>
    if nodeFailed outcome then
      match callNode b executionData runIndex none s with
      | (s, .throws e) => (s, tryIndex, .throws e)
      | (s, outcome) => retryFailed b executionData runIndex tries (tryIndex + 1) s outcome
    else (s, tryIndex, outcome)

/-- The end of a try, when the node returned data. -/
def finishTry (node : INode) (executionData : IExecuteData) (s : TryState) : TryState × TryEnd :=
  match assignPairedItems s.nodeSuccessData executionData with
  | .error e => (s, .threw e)
  | .ok nodeSuccessData =>
    let s := { s with
      nodeSuccessData := nodeSuccessData
      run := { s.run with
        lastNodeExecuted :=
          if nodeSuccessData.isSome then some node.name else s.run.lastNodeExecuted } }
    match addOutputData node executionData nodeSuccessData with
    | .error e => (s, .threw e)
    | .ok nodeSuccessData =>
      -- a node that returns `null` ends its branch
      ({ s with nodeSuccessData := nodeSuccessData },
        if nodeSuccessData.isNone && !s.run.waitTill then .leave .noData else .success)

/-- The pinned data of a node, which stands in for its execution. -/
def pinnedData (node : INode) (run : RunExecutionData) : Option (List INodeExecutionData) :=
  if node.disabled = some true then none else run.pinData.bind (·.get? node.name)

/-- What the last call of `runNode` in a try came to. -/
def handleOutcome (env : Environment) (b : Behaviour) (node : INode) (runIndex : ℕ)
    (executionData : IExecuteData) (s : TryState) : RunNodeOutcome → TryState × TryEnd
  | .throws e => (s, .threw e)
  | .request request =>
    match handleEngineRequest env.workflow node request runIndex executionData s.run
        s.rewireOutputLogTo with
    | (run, rewire, some e) => ({ s with run := run, rewireOutputLogTo := rewire }, .threw e)
    | (run, rewire, none) => ({ s with run := run, rewireOutputLogTo := rewire }, .leave .requested)
  | .data data =>
    match b.processOutput data with
    | .error e => (s, .threw e)
    | .ok data => finishTry node executionData { s with nodeSuccessData := data }

/-- One try: the pinned data is used, or the node is run. -/
def tryNode (env : Environment) (b : Behaviour) (node : INode) (runIndex tryIndex : ℕ)
    (executionData : IExecuteData) (s : TryState) : TryState × ℕ × TryEnd :=
  match pinnedData node s.run with
  | some items =>
    let (s, k) := finishTry node executionData { s with nodeSuccessData := some [some (.items items)] }
    (s, tryIndex, k)
  | none =>
    let subNodeExecutionResults :=
      addActionResponses executionData s.run.runData s.subNodeExecutionResults
    let (s, outcome) := callNode b executionData runIndex (some subNodeExecutionResults)
      { s with subNodeExecutionResults }
    let (s, tryIndex, outcome) := retryFailed b executionData runIndex
      (maxTriesOf node - 1 - tryIndex) tryIndex s outcome
    let (s, k) := handleOutcome env b node runIndex executionData s outcome
    (s, tryIndex, k)

/-- Every try but the first one forgets the error of the try before. -/
def TryState.startTry (s : TryState) (tryIndex : ℕ) : TryState :=
  if tryIndex = 0 then s else { s with executionError := none }

/-- The tries of a node; the first number bounds how many are left.  The result is how the turn is
left early, if it is. -/
def runTries (env : Environment) (b : Behaviour) (node : INode) (runIndex : ℕ)
    (executionData : IExecuteData) : ℕ → ℕ → TryState → TryState × Option IterationEnd
  | 0, _, s => (s, none)
  | tries + 1, tryIndex, s =>
    if maxTriesOf node ≤ tryIndex then (s, none)
    else
      match tryNode env b node runIndex tryIndex executionData (s.startTry tryIndex) with
      | (s, _, .success) => (s, none)
      | (s, _, .leave k) => (s, some k)
      | (s, tryIndex, .threw e) =>
        runTries env b node runIndex executionData tries (tryIndex + 1)
          { s with
            executionError := some e
            run := { s.run with lastNodeExecuted := some node.name } }

/-! ### Recording the run -/

/-- `Object.assign(current, taskData)`. -/
def assignTaskData (current taskData : ITaskData) : ITaskData :=
  { taskData with
    data := taskData.data.orElse fun _ => current.data
    inputOverride := taskData.inputOverride.orElse fun _ => current.inputOverride
    error := taskData.error.orElse fun _ => current.error }

/-- The record of run `runIndex` of a node is completed, or added. -/
def recordTaskData (nodeName : String) (runIndex : ℕ) (taskData : ITaskData) (runData : IRunData) :
    IRunData :=
  let runs := (runData.get? nodeName).getD []
  match runs[runIndex]? with
  | some current => runData.set nodeName (runs.set runIndex (assignTaskData current taskData))
  | none => runData.set nodeName (runs ++ [taskData])

/-- The data of a record goes under the type that a requesting node asked for, if any. -/
def rewireOutput (rewireOutputLogTo : RewireOutputLogTo) (nodeName : String) (runIndex : ℕ)
    (runData : IRunData) (lists : ItemLists) (taskData : ITaskData) : ITaskData :=
  match rewireOutputLogTo.get? nodeName with
  | none => taskData
  | some type =>
    { taskData with
      inputOverride := some
        ((((runData.get? nodeName).bind (·[runIndex]?)).bind (·.inputOverride)).getD Dict.empty)
      data := some (Dict.empty.set type lists) }

/-- Whether the workflow goes on when the node fails. -/
def continuesOnFail (node : INode) : Bool :=
  node.continueOnFail = some true || node.onError = some .continueRegularOutput ||
    node.onError = some .continueErrorOutput

/-- The output of a node that failed and lets the workflow go on: its first input, if it has one. -/
def passThrough (executionData : IExecuteData) (nodeSuccessData : Option ItemLists) :
    Option ItemLists :=
  match executionData.data.get? .main with
  | none | some [] => nodeSuccessData
  | some main =>
    if ItemLists.read main 0 = .null then nodeSuccessData else some [some (ItemLists.read main 0)]

/-- The record of a turn, before its outcome is added. -/
def startedTaskData (executionIndex : ℕ) (executionData : IExecuteData) (waitTill : Bool) :
    ITaskData where
  source := ((executionData.source.bind (·.get? .main)).getD []).map (·.getD none)
  executionIndex := executionIndex
  executionStatus := some (if waitTill then .waiting else .success)
  metadata := executionData.metadata

/-- The record of a failed run; the entry goes back on the stack. -/
def recordFailure (node : INode) (runIndex : ℕ) (executionData : IExecuteData) (error : JsError)
    (taskData : ITaskData) (rewire : RewireOutputLogTo) (run : RunExecutionData) :
    RunExecutionData :=
  let errorItem : INodeExecutionData := { json := [("error", .str error.message)] }
  let taskData := rewireOutput rewire node.name runIndex run.runData [some (.items [errorItem])]
    { taskData with error := some error.message, executionStatus := some .error }
  { run with
    runData := recordTaskData node.name runIndex taskData run.runData
    nodeExecutionStack := executionData :: run.nodeExecutionStack }

/-- The record of a successful run. -/
def recordSuccess (node : INode) (runIndex : ℕ) (lists : ItemLists) (taskData : ITaskData)
    (rewire : RewireOutputLogTo) (run : RunExecutionData) : RunExecutionData :=
  let taskData := rewireOutput rewire node.name runIndex run.runData lists
    { taskData with data := some (mainOnly lists) }
  { run with runData := recordTaskData node.name runIndex taskData run.runData }

/-! ### The nodes that come next -/

/-- The main connections that leave a node, with the output each of them leaves. -/
def mainOutputs (w : Workflow) (nodeName : String) : List (ℕ × IConnection) :=
  (((w.connectionsBySourceNode.get? nodeName).bind (·.get? .main)).getD []).zipIdx.flatMap
    fun (connections, outputIndex) => (connections.getD []).map fun c => (outputIndex, c)

/-- Whether an output has data for a connection; in the legacy order an empty list is data for any
but the first input. -/
def hasOutput (w : Workflow) (lists : ItemLists) (outputIndex : ℕ) (c : IConnection) : Bool :=
  match (ItemLists.read lists outputIndex).items? with
  | none => false
  | some l => l ≠ [] || (decide (0 < c.index) && w.isLegacyExecutionOrder)

/-- What the output of a node brings to a connection. -/
def outputDelivery (nodeName : String) (runIndex : ℕ) (lists : ItemLists) (outputIndex : ℕ)
    (c : IConnection) : Delivery where
  index := c.index
  outputIndex := outputIndex
  parentNodeName := nodeName
  nodeSuccessData := some lists
  runIndex := runIndex

/-- The order of two nodes by their positions: lower ones first, and farther to the right first. -/
def comparePositions (a b : ℚ × ℚ) : ℤ :=
  if a.2 < b.2 then 1 else if a.2 > b.2 then -1 else if a.1 > b.1 then -1 else 0

/-- The position of the node that a connection enters. -/
def targetPosition (w : Workflow) (c : IConnection) : ℚ × ℚ :=
  ((w.getNode c.node).map (·.position)).getD (0, 0)

/-- The connections that the output of a node takes, in the order in which their targets are added.
The sort is stable and asks only whether a later connection is to come before an earlier one. -/
def nodesToAdd (w : Workflow) (nodeName : String) (lists : ItemLists) : List (ℕ × IConnection) :=
  let taken := (mainOutputs w nodeName).filter fun (outputIndex, c) => hasOutput w lists outputIndex c
  if w.executionOrder = some .v1 then
    taken.insertionSort fun a b =>
      0 ≤ comparePositions (targetPosition w b.2) (targetPosition w a.2)
  else taken

/-- The nodes that receive the output of a node are added. -/
def addChildren (w : Workflow) (nodeName : String) (runIndex : ℕ) (lists : ItemLists)
    (run : RunExecutionData) : Except JsError RunExecutionData :=
  if (mainOutputs w nodeName).any fun c => (w.getNode c.2.node).isNone then
    .error (.applicationError "Destination node not found")
  else
    (nodesToAdd w nodeName lists).foldlM (fun run (outputIndex, c) =>
      addNodeToBeExecuted w c.node (outputDelivery nodeName runIndex lists outputIndex c) run) run

/-! ### One turn -/

/-- `ensureInputData`: whether a node has the data of its inputs; one that has not goes to the end of
the stack. -/
def ensureInputData (w : Workflow) (node : INode) (executionData : IExecuteData) :
    ℕ → ℕ → Except JsError Bool
  | 0, _ => .ok true
  | inputs + 1, connectionIndex => do
    let highestNodes ← w.getHighestNode node.name (some connectionIndex)
    if highestNodes = [] then return true
    else
      match executionData.data.get? .main with
      | none => return false
      | some main =>
        if w.isLegacyExecutionOrder && (decide (main.length < connectionIndex) ||
            ItemLists.read main connectionIndex = .null) then return false
        else ensureInputData w node executionData inputs (connectionIndex + 1)

/-- The index of the run that an entry starts. -/
def runIndexOf (executionData : IExecuteData) (node : INode) (runData : IRunData) : ℕ :=
  executionData.runIndex.getD (((runData.get? node.name).map List.length).getD 0)

/-- The try that the loop remembers to recognise an entry that makes no progress. -/
def currentExecutionTry (node : INode) (runIndex : ℕ) : String :=
  node.name ++ ":" ++ toString runIndex

/-- The error of a loop whose only entry makes no progress. -/
def endlessLoop : JsError :=
  .applicationError "Stopped execution because it seems to be in an endless loop"

/-- The end of a turn, after the tries. -/
def concludeRun (env : Environment) (node : INode) (runIndex executionIndex : ℕ)
    (executionData : IExecuteData) (s : TryState) :
    Except JsError (RunExecutionData × IterationEnd) :=
  let taskData := startedTaskData executionIndex executionData s.run.waitTill
  match s.executionError, continuesOnFail node with
  | some e, false =>
    .ok (recordFailure node runIndex executionData e taskData s.rewireOutputLogTo s.run, .failed)
  | executionError, _ => do
    let lists ← mergeErrors (if executionError.isSome then passThrough executionData s.nodeSuccessData
      else s.nodeSuccessData)
    let taskData := match executionError with
      | none => taskData
      | some e => { taskData with error := some e.message, executionStatus := some .error }
    let run := recordSuccess node runIndex lists taskData s.rewireOutputLogTo s.run
    if run.waitTill then
      return ({ run with nodeExecutionStack := executionData :: run.nodeExecutionStack }, .waiting)
    else if run.destinationNode = some node.name then return (run, .destinationReached)
    else
      let run ← addChildren env.workflow node.name runIndex lists run
      return (← drain env run, .completed)

/-- The turn of an entry that was taken off the stack. -/
def executeEntry (env : Environment) (b : Behaviour) (executionData : IExecuteData)
    (st : LoopState) : Except JsError (LoopState × IterationEnd) := do
  let executionData ← updatePairedItems executionData
  let node ← orTypeError executionData.node
  let st := { st with currentNodeExecutionIndex := st.currentNodeExecutionIndex + 1 }
  let runIndex := runIndexOf executionData node st.run.runData
  if currentExecutionTry node runIndex = st.lastExecutionTry then .error endlessLoop
  else if (st.run.runNodeFilter.map (!·.contains node.name)).getD false then return (st, .skipped)
  else if !(← ensureInputData env.workflow node executionData
      (env.workflow.numberOfInputs node.name) 0) then
    return ({ st with
      lastExecutionTry := currentExecutionTry node runIndex
      run := { st.run with nodeExecutionStack := st.run.nodeExecutionStack ++ [executionData] } },
      .deferred)
  else
    match runTries env b node runIndex executionData (maxTriesOf node) 0
        { run := st.run, rewireOutputLogTo := st.rewireOutputLogTo } with
    | (s, some k) => return ({ st with run := s.run, rewireOutputLogTo := s.rewireOutputLogTo }, k)
    | (s, none) => do
      let (run, k) ←
        concludeRun env node runIndex (st.currentNodeExecutionIndex - 1) executionData s
      return ({ st with run := run, rewireOutputLogTo := s.rewireOutputLogTo }, k)

/-- One turn of the loop. -/
def iterate (env : Environment) (b : Behaviour) (st : LoopState) :
    Except JsError (LoopState × IterationEnd) :=
  match st.run.nodeExecutionStack with
  | [] => .ok (st, .finished)
  | executionData :: rest =>
    if b.canceled then .ok (st, .canceled)
    else
      executeEntry env b executionData { st with run := { st.run with nodeExecutionStack := rest } }

/-- A turn after which the loop goes on; the label says what happened in it and how it ended. -/
def Turn (env : Environment) (st : LoopState) (a : Behaviour × IterationEnd) (st' : LoopState) :
    Prop :=
  iterate env a.1 st = .ok (st', a.2) ∧ a.2.continues = true

/-- The runs of the loop. -/
abbrev LoopRun (env : Environment) :
    LoopState → List (Behaviour × IterationEnd) → LoopState → Prop :=
  Lts.Run (Turn env)

end N8n
