import N8n.Engine.RecreateStack
import N8n.Graph.StronglyConnected
import N8n.Lib.OrderedSet

/-!
# `findStartNodes`

The nodes from which a partial execution starts, as
`packages/core/src/execution-engine/partial-execution-utils/find-start-nodes.ts` finds them.

* `isDirty`, `isALoop`, `findStartNodesRecursive`, `findStartNodes`: the functions, with
  `DirectedGraph.getChildren`;
* `FirstStop`: the ends of the data-carrying paths that stop for the first time there, for a choice
  of the output on which a loop node is done.
-/

namespace N8n

namespace DirectedGraph

/-- `getChildrenRecursive`; the first number bounds the depth of the recursion. -/
def getChildrenRecursive (g : DirectedGraph) :
    ℕ → INode → List INode → Except JsError (List INode)
  | 0, _, _ => .error .rangeError
  | depth + 1, node, children => do
    let directChildren ← g.getDirectChildConnections node
    directChildren.foldlM (fun children directChild =>
      if directChild.toNode ∈ children then .ok children
      else g.getChildrenRecursive depth directChild.toNode (children ++ [directChild.toNode]))
      children

/-- `getChildren`. -/
def getChildren (g : DirectedGraph) (node : INode) : Except JsError (List INode) :=
  g.getChildrenRecursive (g.getNodes.length + 1) node []

end DirectedGraph

/-- `isDirty`. -/
def isDirty (node : INode) (runData : IRunData) (pinData : IPinData) : Bool :=
  let hasAnError :=
    ((runData.get? node.name).map fun runs => runs.any fun taskData => taskData.error.isSome).getD
      false
  if hasAnError then true
  else if pinData.has node.name then false
  else if runData.has node.name then false
  else true

/-- `isALoop`. -/
def isALoop (graph : DirectedGraph) (node : INode) : Except JsError Bool := do
  return node ∈ (← graph.getChildren node)

/-- Whether a node is a loop node that has to run again from the start: its last run has no data on
the output tested. -/
def isUnfinishedLoop (graph : DirectedGraph) (runData : IRunData) (current : INode) :
    Except JsError Bool :=
  if current.type = "n8n-nodes-base.splitInBatches" then do
    let outputIndex := if ← isALoop graph current then 0 else 1
    let nodeRunData ← getIncomingData runData current.name
      (getRunIndexLength runData current.name - 1) .main outputIndex
    return match nodeRunData with
      | none => true
      | some items => items = []
  else return false

/-- `findStartNodesRecursive`; the first number bounds the depth of the recursion. -/
def findStartNodesRecursive (graph : DirectedGraph) (destination : INode) (runData : IRunData)
    (pinData : IPinData) : ℕ → INode → OrderedSet INode → OrderedSet INode →
    Except JsError (OrderedSet INode)
  | 0, _, _, _ => .error .rangeError
  | depth + 1, current, startNodes, seen =>
    if isDirty current runData pinData then .ok (startNodes.insert current)
    else if current = destination then .ok (startNodes.insert current)
    else do
      if ← isUnfinishedLoop graph runData current then return startNodes.insert current
      else if current ∈ seen then return startNodes
      else
        let outGoingConnections ← graph.getDirectChildConnections current
        outGoingConnections.foldlM (fun startNodes outGoingConnection => do
          let nodeRunData ← getIncomingDataFromAnyRun runData outGoingConnection.fromNode.name
            outGoingConnection.type outGoingConnection.outputIndex
          let hasNoRunData := match nodeRunData with
            | none => true
            | some (items, _) => decide (items = [])
          let hasNoPinnedData := !pinData.has outGoingConnection.fromNode.name
          if hasNoRunData && hasNoPinnedData then return startNodes
          else
            findStartNodesRecursive graph destination runData pinData depth
              outGoingConnection.toNode startNodes (seen.insert current)) startNodes

/-- `findStartNodes`. -/
def findStartNodes (graph : DirectedGraph) (trigger destination : INode) (pinData : IPinData)
    (runData : IRunData) : Except JsError (OrderedSet INode) :=
  findStartNodesRecursive graph destination runData pinData (graph.getNodes.length + 1) trigger
    .empty .empty

/-! ### What it is to find -/

section Purpose

variable (g : DirectedGraph) (destination : INode) (runData : IRunData) (pinData : IPinData)

/-- The runs of a node. -/
def IRunData.runs (runData : IRunData) (node : INode) : List ITaskData :=
  (runData.get? node.name).getD []

/-- A run has data on an output. -/
def HasOutput (taskData : ITaskData) (type : NodeConnectionType) (outputIndex : ℕ) : Prop :=
  ∃ data lists item items, taskData.data = some data ∧ data.get? type = some lists ∧
    lists.items? outputIndex = some (item :: items)

/-- A node without errors that has run data or pinned data. -/
def Clean (node : INode) : Prop :=
  (∀ taskData ∈ IRunData.runs runData node, taskData.error = none) ∧
    (runData.has node.name ∨ pinData.has node.name)

/-- A connection that leaves a pinned node, or an output with data in some run. -/
def Carries (c : GraphConnection) : Prop :=
  pinData.has c.fromNode.name ∨
    ∃ taskData ∈ IRunData.runs runData c.fromNode, HasOutput taskData c.type c.outputIndex

/-- A loop node whose last run, if any, has no data on the output on which it is done. -/
def Unfinished (doneOutput : INode → ℕ) (node : INode) : Prop :=
  node.type = "n8n-nodes-base.splitInBatches" ∧
    ∀ taskData ∈ (IRunData.runs runData node).getLast?,
      ¬HasOutput taskData .main (doneOutput node)

/-- A node at which a path stops. -/
def StopsAt (doneOutput : INode → ℕ) (node : INode) : Prop :=
  ¬Clean runData pinData node ∨ node = destination ∨ Unfinished runData doneOutput node

/-- A connection that carries data leads from one node to another. -/
def DataEdge (a b : INode) : Prop :=
  ∃ c ∈ g.getConnections, c.fromNode = a ∧ c.toNode = b ∧ Carries runData pinData c

/-- A path of connections that carry data leads from the trigger to the node, and stops at the node
for the first time. -/
def FirstStop (doneOutput : INode → ℕ) (trigger node : INode) : Prop :=
  StopsAt destination runData pinData doneOutput node ∧
    Relation.ReflTransGen
      (fun a b => ¬StopsAt destination runData pinData doneOutput a ∧ DataEdge g runData pinData a b)
      trigger node

/-- A node on a cycle. -/
def OnCycle (node : INode) : Prop := Relation.TransGen (fun a b => b ∈ g.children a) node node

open Classical in
/-- The output that is tested: the first one of a node on a cycle, the second one of another. -/
noncomputable def testedOutput (node : INode) : ℕ := if OnCycle g node then 0 else 1

/-- The data that a run of a node recorded, where there is any, has a list for the type of each
connection that leaves the node, and a main one if it is a loop node. -/
def ListsOutputs : Prop :=
  ∀ node ∈ g.getNodes, ∀ taskData ∈ IRunData.runs runData node, ∀ data ∈ taskData.data,
    (∀ c ∈ g.childConnections node, data.has c.type) ∧
      (node.type = "n8n-nodes-base.splitInBatches" → data.has .main)

end Purpose

end N8n
