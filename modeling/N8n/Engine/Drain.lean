import N8n.Engine.AddNode

/-!
# Waiting nodes when the stack is empty

The end of the loop body of `processRunExecutionData`
(`packages/core/src/execution-engine/workflow-execute.ts`): when no entry is left on the stack, a
waiting node that does not require data on all its inputs is moved to the stack.

* `drainNode`: one waiting node is looked at;
* `drain`: the search, which starts again when it removed a waiting run without items.
-/

namespace N8n

/-- The required inputs of a node type: their indexes, or how many. -/
inductive RequiredInputs
  | inputs (l : List ℕ)
  | amount (n : ℕ)
  deriving DecidableEq

/-- The `requiredInputs` of a node type description, possibly an expression. -/
inductive RequiredInputsSetting
  | value (r : RequiredInputs)
  | expression (text : String)
  deriving DecidableEq

/-- What the loop reads of a node type description; `inputs` is the length of its `inputs`. -/
structure NodeTypeDescription where
  requiredInputs : Option RequiredInputsSetting := none
  inputs : ℕ := 1
  deriving DecidableEq

/-- What the loop takes from outside: the workflow, its node types and the evaluation of an
expression for a node; the last two may throw. -/
structure Environment where
  workflow : Workflow
  getByNameAndVersion : String → ℚ → Except String NodeTypeDescription
  getSimpleParameterValue : INode → String → Except String (Option RequiredInputs)

/-- The result of a call that leaves the loop. -/
def fromOutside {α : Type} (x : Except String α) : Except JsError α := x.mapError .thrown

/-- The required inputs of a node; only the order `v1` knows them. -/
def requiredInputsOf (env : Environment) (checkNode : INode) (nodeType : NodeTypeDescription) :
    Except JsError (Option RequiredInputs) :=
  if env.workflow.executionOrder ≠ some .v1 then .ok none
  else
    match nodeType.requiredInputs with
    | none => .ok none
    | some (.value r) => .ok (some r)
    | some (.expression text) => fromOutside (env.getSimpleParameterValue checkNode text)

/-- Whether all inputs of a node are required. -/
def RequiredInputs.allOf (inputs : ℕ) : RequiredInputs → Bool
  | .inputs l => l.length = inputs
  | .amount n => n = inputs

/-- Whether the inputs with data are enough. -/
def RequiredInputs.metBy (inputsWithData : List ℕ) : RequiredInputs → Bool
  | .inputs l => l.all (· ∈ inputsWithData)
  | .amount n => n ≤ inputsWithData.length

/-- The earliest waiting run of a node: its indexes are compared as texts. -/
def firstRunIndex (waiting : IndexMap ITaskDataConnections) : Option ℕ :=
  (waiting.keys.insertionSort fun k k' => toString k ≤ toString k').head?

/-- The inputs that received data, an empty list included. -/
def inputsWithData : ℕ → ItemLists → List ℕ
  | _, [] => []
  | index, some c :: rest =>
    if c = .null then inputsWithData (index + 1) rest else index :: inputsWithData (index + 1) rest
  | index, none :: rest => inputsWithData (index + 1) rest

/-- The lists with an empty one for every input without data. -/
def fillNulls (main : ItemLists) : ItemLists :=
  SparseArray.mapCells (fun c => if c = .null then .items [] else c) main

/-- Whether any list has items; reading the length of `undefined` throws. -/
def anyItems : ItemLists → Except JsError Bool
  | [] => .ok false
  | none :: rest => anyItems rest
  | some (.items l) :: rest => do
    let r ← anyItems rest
    return l ≠ [] || r
  | some .null :: _ | some .undefined :: _ => .error .typeError

/-- The lists, extended by empty ones to the number of inputs. -/
def padInputs (inputs : ℕ) (main : ItemLists) : ItemLists :=
  main ++ List.replicate (inputs - main.length) (some (.items []))

/-- What the search does with a waiting node. -/
inductive DrainStep
  | skip
  | push (st : RunExecutionData)
  | remove (st : RunExecutionData)

/-- The earliest waiting run of a node is moved to the stack, or removed when it has no items. -/
def takeWaitingRun (w : Workflow) (nodeName : String) (k inputs : ℕ) (main : ItemLists)
    (st : RunExecutionData) : Except JsError DrainStep := do
  let taskDataMain := fillNulls main
  let sources ← orTypeError ((st.waitingExecutionSource.getD Dict.empty).get? nodeName)
  if ← anyItems taskDataMain then
    return .push (removeWaiting nodeName k
      { st with nodeExecutionStack := st.nodeExecutionStack ++
        [{ node := w.getNode nodeName
           data := mainOnly (padInputs inputs taskDataMain)
           source := sources.get? k }] })
  else return .remove (removeWaiting nodeName k st)

/-- One waiting node of the search. -/
def drainNode (env : Environment) (waitingNodes : List String) (st : RunExecutionData)
    (nodeName : String) : Except JsError DrainStep :=
  match env.workflow.getNode nodeName with
  | none => .ok .skip
  | some checkNode => do
    let nodeType ← fromOutside (env.getByNameAndVersion checkNode.type checkNode.typeVersion)
    let requiredInputs ← requiredInputsOf env checkNode nodeType
    if (requiredInputs.map (RequiredInputs.allOf nodeType.inputs)).getD false then return .skip
    -- a node whose parent is waiting is executed later
    else if (env.workflow.getParentNodes nodeName).any (· ∈ waitingNodes) then return .skip
    else
      let k ← orTypeError (firstRunIndex (st.waitingOf nodeName))
      let data ← orTypeError ((st.waitingOf nodeName).get? k)
      let main ← orTypeError (data.get? .main)
      if (requiredInputs.map (RequiredInputs.metBy (inputsWithData 0 main))).getD true then
        takeWaitingRun env.workflow nodeName k nodeType.inputs main st
      else return .skip

/-- The waiting nodes, one after the other, up to the first that is not skipped. -/
def drainScan (env : Environment) (waitingNodes : List String) (st : RunExecutionData) :
    List String → Except JsError DrainStep
  | [] => .ok .skip
  | nodeName :: rest => do
    match ← drainNode env waitingNodes st nodeName with
    | .skip => drainScan env waitingNodes st rest
    | step => return step

/-- The search; the number bounds how often it starts again. -/
def drainWaiting (env : Environment) : ℕ → RunExecutionData → Except JsError RunExecutionData
  | 0, _ => .error .rangeError
  | restarts + 1, st => do
    let waitingNodes := st.waitingExecution.ownKeys
    match ← drainScan env waitingNodes st waitingNodes with
    | .skip => return st
    | .push st => return st
    | .remove st => drainWaiting env restarts st

/-- How many runs are waiting. -/
def waitingRuns (st : RunExecutionData) : ℕ :=
  (st.waitingExecution.values.map IndexMap.size).sum

/-- The search, when the stack is empty. -/
def drain (env : Environment) (st : RunExecutionData) : Except JsError RunExecutionData :=
  if st.nodeExecutionStack = [] then drainWaiting env (waitingRuns st + 1) st else .ok st

end N8n
