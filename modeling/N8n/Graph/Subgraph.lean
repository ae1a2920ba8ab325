import N8n.Graph.DirectedGraph
import N8n.Lib.Branches

/-!
# `findSubgraph`

The part of a graph that leads from a trigger to a destination, as
`packages/core/src/execution-engine/partial-execution-utils/find-subgraph.ts` computes it, and what
it is to be.

* `findSubgraphRecursive`, `DirectedGraph.getParentConnections`, `findSubgraph`: the functions;
* `KeepsExactly`: what the returned graph is to contain;
* `CyclesRooted`, `SubNodesOnly`: the conditions under which it does.
-/

namespace N8n

/-- The connections of a branch are kept, with the nodes they connect. -/
def keepBranch (newGraph : DirectedGraph) (currentBranch : List GraphConnection) :
    Except JsError DirectedGraph :=
  currentBranch.foldlM (fun g connection =>
    (g.addNodes [connection.fromNode, connection.toNode]).addConnection connection) newGraph

/-- `findSubgraphRecursive`; the first number bounds the depth of the recursion. -/
def findSubgraphRecursive (graph : DirectedGraph) (destinationNode trigger : INode) :
    ℕ → INode → List GraphConnection → DirectedGraph → Except JsError DirectedGraph
  | 0, _, _, _ => .error .rangeError
  | depth + 1, current, currentBranch, newGraph =>
    if current = trigger then keepBranch (newGraph.addNode trigger) currentBranch
    else do
      let parentConnections ← graph.getDirectParentConnections current
      if parentConnections = [] then return newGraph
      else if current = destinationNode ∧ destinationNode ∈ currentBranch.map (·.toNode) then
        return newGraph
      else if current ∈ currentBranch.map (·.toNode) then keepBranch newGraph currentBranch
      else
        parentConnections.foldlM (fun newGraph parentConnection =>
          if parentConnection.type ≠ .main then .ok newGraph
          else findSubgraphRecursive graph destinationNode trigger depth parentConnection.fromNode
            (currentBranch ++ [parentConnection]) newGraph) newGraph

namespace DirectedGraph

/-- `getParentConnectionsRecursive`; the first number bounds the depth of the recursion. -/
def getParentConnectionsRecursive (g : DirectedGraph) :
    ℕ → INode → List GraphConnection → Except JsError (List GraphConnection)
  | 0, _, _ => .error .rangeError
  | depth + 1, node, connections => do
    let parentConnections ← g.getDirectParentConnections node
    parentConnections.foldlM (fun connections connection =>
      if connection ∈ connections then .ok connections
      else g.getParentConnectionsRecursive depth connection.fromNode (connections ++ [connection]))
      connections

/-- `getParentConnections`. -/
def getParentConnections (g : DirectedGraph) (node : INode) : Except JsError (List GraphConnection) :=
  g.getParentConnectionsRecursive (g.getConnections.length + 1) node []

end DirectedGraph

/-- The connections of other types than `main` that lead to a node are added, with their nodes. -/
def addSubNodes (graph : DirectedGraph) (subgraph : DirectedGraph) (node : INode) :
    Except JsError DirectedGraph := do
  let parentConnections ← graph.getParentConnections node
  keepBranch subgraph (parentConnections.filter (·.type ≠ .main))

/-- `findSubgraph`. -/
def findSubgraph (graph : DirectedGraph) (destination trigger : INode) :
    Except JsError DirectedGraph := do
  let subgraph ← findSubgraphRecursive graph destination trigger (graph.getNodes.length + 1)
    destination [] .empty
  subgraph.getNodes.foldlM (addSubNodes graph) subgraph

/-! ### What the subgraph is to be -/

section Purpose

variable (g : DirectedGraph) (destination trigger : INode)

/-- The main connections of a graph. -/
def IsMain (c : GraphConnection) : Prop := c ∈ g.getConnections ∧ c.type = .main

/-- A walk of main connections. -/
inductive MainWalk : INode → INode → List GraphConnection → Prop
  | nil (n : INode) : MainWalk n n []
  | cons {c : GraphConnection} {n : INode} {l : List GraphConnection} (hc : IsMain g c)
    (h : MainWalk c.toNode n l) : MainWalk c.fromNode n (c :: l)

/-- A walk of main connections from the trigger to the destination that visits the destination only
at its end and the trigger only at its start. -/
def DirectWalk (l : List GraphConnection) : Prop :=
  MainWalk g trigger destination l ∧
    (∀ c ∈ l, c.fromNode ≠ destination) ∧ ∀ c ∈ l, c.toNode ≠ trigger

/-- A node that such a walk visits. -/
def OnDirectWalk (n : INode) : Prop :=
  ∃ l, DirectWalk g destination trigger l ∧ (n = trigger ∨ ∃ c ∈ l, n = c.toNode)

/-- There is a walk from one node to another whose connections all satisfy `P`. -/
def ReachesBy (P : GraphConnection → Prop) : INode → INode → Prop :=
  Relation.ReflTransGen fun a b => ∃ c ∈ g.getConnections, P c ∧ c.fromNode = a ∧ c.toNode = b

/-- The main connections of the subgraph are those on such walks, and its other nodes reach a node
on such a walk by connections of other types only. -/
structure KeepsExactly (subgraph : DirectedGraph) : Prop where
  main : ∀ c : GraphConnection, c.type = .main → (c ∈ subgraph.getConnections ↔
    ∃ l, DirectWalk g destination trigger l ∧ c ∈ l)
  nodes : ∀ n ∈ subgraph.getNodes, OnDirectWalk g destination trigger n ∨
    ∃ k, OnDirectWalk g destination trigger k ∧ ReachesBy g (·.type ≠ .main) n k

/-- The main connections that such walks can take. -/
abbrev DirectStep : INode → INode → Prop :=
  Branches.Step GraphConnection.fromNode GraphConnection.toNode (IsMain g) trigger destination

/-- A node on a cycle of main connections that avoids the trigger and the destination, and from
which the destination is reached without passing the trigger, is reached from the trigger without
passing the destination. -/
def CyclesRooted : Prop :=
  ∀ v, Relation.TransGen (DirectStep g destination trigger) v v →
    Relation.ReflTransGen (DirectStep g destination trigger) v destination →
      Relation.ReflTransGen (DirectStep g destination trigger) trigger v

/-- A node that a connection of another type than `main` enters and that reaches, by connections of
any type, a node on such a walk, reaches one by connections of other types than `main` only. -/
def SubNodesOnly : Prop :=
  ∀ c ∈ g.getConnections, c.type ≠ .main →
    (∃ k, OnDirectWalk g destination trigger k ∧ ReachesBy g (fun _ => True) c.toNode k) →
      ∃ k, OnDirectWalk g destination trigger k ∧ ReachesBy g (·.type ≠ .main) c.toNode k

end Purpose

end N8n
