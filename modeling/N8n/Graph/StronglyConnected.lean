import N8n.Graph.DirectedGraph
import N8n.Lib.Dfs

/-!
# `getStronglyConnectedComponents`

The algorithm as the source has it, and what it is to compute.

* `followNode`, `DirectedGraph.getStronglyConnectedComponents`: the algorithm;
* `DirectedGraph.IsComponents`: sets of nodes that are the strongly connected components;
* `DirectedGraph.InReverseOrder`: the condition, on a plain depth-first search of the graph, under
  which the algorithm finds them.
-/

namespace N8n

/-- The variables that `followNode` shares.  The last element of `stack` comes first. -/
structure SccState where
  id : ℕ := 0
  visited : List INode := []
  ids : Dict INode ℕ := Dict.empty
  lowLinkValues : Dict INode ℕ := Dict.empty
  stack : List INode := []
  stronglyConnectedComponents : List (List INode) := []

namespace SccState

/-- A node that was not visited yet gets the next id. -/
def enter (s : SccState) (node : INode) : SccState where
  id := s.id + 1
  visited := s.visited ++ [node]
  ids := s.ids.set node s.id
  lowLinkValues := s.lowLinkValues.set node s.id
  stack := node :: s.stack
  stronglyConnectedComponents := s.stronglyConnectedComponents

/-- If the child is on the stack, min the low id. -/
def lower (s : SccState) (node child : INode) : Except JsError SccState :=
  if child ∈ s.stack then do
    let childLowLinkValue ← orAssertionError (s.lowLinkValues.get? child)
    let ownLowLinkValue ← orAssertionError (s.lowLinkValues.get? node)
    return { s with
      lowLinkValues := s.lowLinkValues.set node (min childLowLinkValue ownLowLinkValue) }
  else .ok s

/-- Whether the pop loop of the node with id `ownId` takes a node. -/
def takes (s : SccState) (ownId : ℕ) (next : INode) : Bool := s.lowLinkValues.get? next = some ownId

/-- Pop from the stack until it is empty or a node has a different low id. -/
def pop (s : SccState) (ownId : ℕ) : SccState :=
  let scc := s.stack.takeWhile (s.takes ownId)
  { s with
    stack := s.stack.dropWhile (s.takes ownId)
    stronglyConnectedComponents :=
      if scc = [] then s.stronglyConnectedComponents else s.stronglyConnectedComponents ++ [scc] }

/-- After all children: if the low id is the node's own id, pop a component. -/
def close (s : SccState) (node : INode) : Except JsError SccState := do
  let ownId ← orAssertionError (s.ids.get? node)
  let ownLowLinkValue ← orAssertionError (s.lowLinkValues.get? node)
  return if ownId = ownLowLinkValue then s.pop ownId else s

end SccState

/-- `followNode`; the first argument bounds the depth of the recursion. -/
def followNode (g : DirectedGraph) : ℕ → INode → SccState → Except JsError SccState
  | 0, _, _ => .error .rangeError
  | depth + 1, node, s =>
    if node ∈ s.visited then .ok s
    else do
      let s := s.enter node
      let directChildren := (← g.getDirectChildConnections node).map (·.toNode)
      let s ← directChildren.foldlM
        (fun s child => do (← followNode g depth child s).lower node child) s
      s.close node

namespace DirectedGraph

/-- `getStronglyConnectedComponents`. -/
def getStronglyConnectedComponents (g : DirectedGraph) : Except JsError (List (List INode)) := do
  let s ← g.getNodes.foldlM (fun s node => followNode g (g.getNodes.length + 1) node s) {}
  return s.stronglyConnectedComponents

/-! ### What it is to compute -/

/-- The nodes that the connections leaving a node lead to. -/
def children (g : DirectedGraph) (node : INode) : List INode :=
  (g.childConnections node).map (·.toNode)

/-- There is a walk of connections from one node to another. -/
def Reaches (g : DirectedGraph) : INode → INode → Prop := Dfs.Reaches g.children

/-- Each of two nodes is reachable from the other. -/
def Mutual (g : DirectedGraph) (a b : INode) : Prop := g.Reaches a b ∧ g.Reaches b a

/-- The sets are disjoint, cover the nodes, and hold two nodes together exactly when each of them is
reachable from the other. -/
structure IsComponents (g : DirectedGraph) (sets : List (List INode)) : Prop where
  nodup : ∀ c ∈ sets, c.Nodup
  disjoint : sets.Pairwise List.Disjoint
  cover : ∀ n, (∃ c ∈ sets, n ∈ c) ↔ n ∈ g.getNodes
  together : ∀ a ∈ g.getNodes, ∀ b ∈ g.getNodes, (∃ c ∈ sets, a ∈ c ∧ b ∈ c) ↔ g.Mutual a b

/-- No connection leads from a node of the graph to one that another node replaced. -/
def Settled (g : DirectedGraph) : Prop := ∀ v ∈ g.getNodes, ∀ c ∈ g.children v, c ∈ g.getNodes

/-- The depth-first search that takes the nodes and their connections in the order in which they
were added. -/
def depthFirst (g : DirectedGraph) : Dfs.Trace INode := Dfs.search g.children g.getNodes

/-- The search visits `r` before every other node that is mutually reachable with `v`. -/
def First (g : DirectedGraph) (t : Dfs.Trace INode) (v r : INode) : Prop :=
  g.Mutual v r ∧ ∀ y, g.Mutual v y → t.idx r ≤ t.idx y

/-- Every node has a walk to the first node visited among those mutually reachable with it, whose
connections were completed in the reverse of their order in the walk. -/
def InReverseOrder (g : DirectedGraph) : Prop :=
  ∀ v ∈ g.getNodes, ∀ r, g.First g.depthFirst v r →
    Dfs.ReverseWalk g.depthFirst.completed v r

end DirectedGraph

end N8n
