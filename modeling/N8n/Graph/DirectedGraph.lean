import N8n.Workflow.Workflow

/-!
# The `DirectedGraph` class

The graph of `packages/core/src/execution-engine/partial-execution-utils/directed-graph.ts`: a map of
nodes by name and a map of connections by a key made of their five components.

Nodes are compared by identity in the source; here two nodes are the same when they are equal.  A
node that is added under a name in use replaces the node of that name, while the connections added
before keep the node they were added with.

Two properties of script values matter when a graph is exported to a workflow or imported from one.
A plain object answers the names of the members of `Object.prototype` although nothing was stored
under them, and an array enumerates only indexes below `2 ^ 32 - 1`; a group stored at a higher index
is not seen by any loop over the array and is left out.
-/

namespace N8n

/-- A connection of a graph. -/
structure GraphConnection where
  fromNode : INode
  toNode : INode
  type : NodeConnectionType := .main
  outputIndex : ℕ := 0
  inputIndex : ℕ := 0
  deriving DecidableEq

/-- `makeKey`. -/
def makeKey (connection : GraphConnection) : String :=
  connection.fromNode.name ++ "-" ++ connection.type.text ++ "-" ++
    toString connection.outputIndex ++ "-" ++ toString connection.inputIndex ++ "-" ++
    connection.toNode.name

/-- A graph; its nodes are stored under their names and its connections under their keys. -/
structure DirectedGraph where
  nodes : Dict String INode
  connections : Dict String GraphConnection
  nodes_name : ∀ k n, nodes.get? k = some n → n.name = k
  connections_key : ∀ k c, connections.get? k = some c → makeKey c = k

namespace DirectedGraph

theorem nodes_name_empty (k : String) (n : INode)
    (h : (Dict.empty : Dict String INode).get? k = some n) : n.name = k := by
  cases h

/-- The graph without nodes. -/
def empty : DirectedGraph where
  nodes := Dict.empty
  connections := Dict.empty
  nodes_name := nodes_name_empty
  connections_key := fun _ _ h => by cases h

/-- `getNodes`. -/
def getNodes (g : DirectedGraph) : List INode := g.nodes.values

/-- `getConnections`. -/
def getConnections (g : DirectedGraph) : List GraphConnection := g.connections.values

/-- Whether the graph has this very node. -/
def hasNode (g : DirectedGraph) (node : INode) : Bool := g.nodes.get? node.name = some node

/-- `addNode`. -/
def addNode (g : DirectedGraph) (node : INode) : DirectedGraph where
  nodes := g.nodes.set node.name node
  connections := g.connections
  nodes_name := fun k n h => by
    rw [Dict.get?_set] at h
    split_ifs at h with hk
    · cases h; exact hk.symm
    · exact g.nodes_name k n h
  connections_key := g.connections_key

/-- `addNodes`. -/
def addNodes (g : DirectedGraph) (nodes : List INode) : DirectedGraph := nodes.foldl addNode g

/-- Store a connection under its key. -/
def setConnection (g : DirectedGraph) (connection : GraphConnection) : DirectedGraph where
  nodes := g.nodes
  connections := g.connections.set (makeKey connection) connection
  nodes_name := g.nodes_name
  connections_key := fun k c h => by
    rw [Dict.get?_set] at h
    split_ifs at h with hk
    · cases h; exact hk.symm
    · exact g.connections_key k c h

/-- `addConnection`. -/
def addConnection (g : DirectedGraph) (connection : GraphConnection) :
    Except JsError DirectedGraph :=
  if g.hasNode connection.fromNode && g.hasNode connection.toNode then .ok (g.setConnection connection)
  else .error .assertionError

/-- `addConnections`. -/
def addConnections (g : DirectedGraph) (connections : List GraphConnection) :
    Except JsError DirectedGraph :=
  connections.foldlM addConnection g

/-- The connections that leave a node. -/
def childConnections (g : DirectedGraph) (node : INode) : List GraphConnection :=
  g.getConnections.filter fun connection => connection.fromNode = node

/-- The connections that enter a node. -/
def parentConnections (g : DirectedGraph) (node : INode) : List GraphConnection :=
  g.getConnections.filter fun connection => connection.toNode = node

/-- `getDirectChildConnections`. -/
def getDirectChildConnections (g : DirectedGraph) (node : INode) :
    Except JsError (List GraphConnection) :=
  if g.hasNode node then .ok (g.childConnections node) else .error .assertionError

/-- `getDirectParentConnections`. -/
def getDirectParentConnections (g : DirectedGraph) (node : INode) :
    Except JsError (List GraphConnection) :=
  if g.hasNode node then .ok (g.parentConnections node) else .error .assertionError

/-! ### What the queries answer -/

theorem hasNode_iff (g : DirectedGraph) (node : INode) :
    g.hasNode node = true ↔ node ∈ g.getNodes := by
  rw [hasNode, decide_eq_true_iff, getNodes, Dict.mem_values_iff]
  constructor
  · exact fun h => ⟨node.name, h⟩
  · rintro ⟨k, h⟩
    rwa [g.nodes_name k node h]

theorem mem_getNodes_iff (g : DirectedGraph) (node : INode) :
    node ∈ g.getNodes ↔ g.nodes.get? node.name = some node := by
  rw [← hasNode_iff, hasNode, decide_eq_true_iff]

variable {g : DirectedGraph} {node : INode} {cs : List GraphConnection}

/-- Two nodes of a graph have different names. -/
theorem eq_of_name_eq {a b : INode} (ha : a ∈ g.getNodes) (hb : b ∈ g.getNodes)
    (h : a.name = b.name) : a = b := by
  rw [mem_getNodes_iff] at ha hb
  rw [h] at ha
  exact Option.some_inj.1 (ha.symm.trans hb)

variable (g)

theorem map_name_getNodes_nodup : (g.getNodes.map INode.name).Nodup := by
  have hmap : g.getNodes.map INode.name = g.nodes.keys := by
    rw [getNodes, Dict.values, Dict.keys, List.map_map]
    refine List.map_congr_left fun e he => ?_
    exact g.nodes_name e.1 e.2 ((g.nodes.mem_entries_iff e.1 e.2).1 he)
  rw [hmap]
  exact g.nodes.keys_nodup

theorem getNodes_nodup : g.getNodes.Nodup :=
  List.Nodup.of_map INode.name g.map_name_getNodes_nodup

theorem mem_parentConnections (node : INode) (c : GraphConnection) :
    c ∈ g.parentConnections node ↔ c ∈ g.getConnections ∧ c.toNode = node := by
  simp [parentConnections]

theorem mem_childConnections (node : INode) (c : GraphConnection) :
    c ∈ g.childConnections node ↔ c ∈ g.getConnections ∧ c.fromNode = node := by
  simp [childConnections]

variable {g}

theorem getDirectChildConnections_eq_ok_iff : g.getDirectChildConnections node = .ok cs ↔
      node ∈ g.getNodes ∧ cs = g.childConnections node := by
  rw [getDirectChildConnections, ← hasNode_iff]
  split_ifs with h
  · simp [h, eq_comm]
  · simp [h]

theorem mem_getConnections_iff (g : DirectedGraph) (c : GraphConnection) :
    c ∈ g.getConnections ↔ g.connections.get? (makeKey c) = some c := by
  rw [getConnections, Dict.mem_values_iff]
  constructor
  · rintro ⟨k, h⟩
    rwa [g.connections_key k c h]
  · exact fun h => ⟨_, h⟩

/-- Two connections of a graph have different keys. -/
theorem eq_of_makeKey_eq {c c' : GraphConnection} (hc : c ∈ g.getConnections)
    (hc' : c' ∈ g.getConnections) (h : makeKey c = makeKey c') : c = c' := by
  rw [mem_getConnections_iff] at hc hc'
  rw [h] at hc
  exact Option.some_inj.1 (hc.symm.trans hc')

/-! ### Adding -/

variable (g)

theorem get?_addNode (node : INode) (k : String) :
    (g.addNode node).nodes.get? k = if k = node.name then some node else g.nodes.get? k :=
  Dict.get?_set _ _ _ _

/-- A node replaces the one with the same name, if any. -/
theorem mem_getNodes_addNode (node n : INode) :
    n ∈ (g.addNode node).getNodes ↔ n = node ∨ n ∈ g.getNodes ∧ n.name ≠ node.name := by
  rw [mem_getNodes_iff, mem_getNodes_iff, get?_addNode]
  split_ifs with hname
  · simp [hname, eq_comm]
  · constructor
    · exact fun h => Or.inr ⟨h, hname⟩
    · rintro (rfl | ⟨h, -⟩)
      · exact absurd rfl hname
      · exact h

@[simp] theorem getConnections_addNode (node : INode) :
    (g.addNode node).getConnections = g.getConnections := rfl

theorem getConnections_addNodes (nodes : List INode) :
    (g.addNodes nodes).getConnections = g.getConnections := by
  induction nodes generalizing g with
  | nil => rfl
  | cons n nodes ih => exact ih (g.addNode n)

@[simp] theorem nodes_setConnection (c : GraphConnection) :
    (g.setConnection c).nodes = g.nodes := rfl

/-- A connection replaces the one with the same key, if any. -/
theorem mem_getConnections_setConnection (c c' : GraphConnection) :
    c' ∈ (g.setConnection c).getConnections ↔
      c' = c ∨ c' ∈ g.getConnections ∧ makeKey c' ≠ makeKey c := by
  rw [mem_getConnections_iff, mem_getConnections_iff, setConnection, Dict.get?_set]
  split_ifs with hk
  · simp [hk, eq_comm]
  · constructor
    · exact fun h => Or.inr ⟨h, hk⟩
    · rintro (rfl | ⟨h, -⟩)
      · exact absurd rfl hk
      · exact h

variable {g}

theorem getDirectParentConnections_eq_ok_iff : g.getDirectParentConnections node = .ok cs ↔
      node ∈ g.getNodes ∧ cs = g.parentConnections node := by
  rw [getDirectParentConnections, ← hasNode_iff]
  split_ifs with h
  · simp [h, eq_comm]
  · simp [h]

theorem getDirectParentConnections_of_mem (h : node ∈ g.getNodes) :
    g.getDirectParentConnections node = .ok (g.parentConnections node) :=
  getDirectParentConnections_eq_ok_iff.2 ⟨h, rfl⟩

/-- The connections of a graph lead between its nodes. -/
def Closed (g : DirectedGraph) : Prop :=
  ∀ c ∈ g.getConnections, c.fromNode ∈ g.getNodes ∧ c.toNode ∈ g.getNodes

theorem addConnection_eq_ok_iff {g' : DirectedGraph} {c : GraphConnection} :
    g.addConnection c = .ok g' ↔
      (c.fromNode ∈ g.getNodes ∧ c.toNode ∈ g.getNodes) ∧ g' = g.setConnection c := by
  rw [addConnection, ← hasNode_iff, ← hasNode_iff, ← Bool.and_eq_true]
  split_ifs with h
  · simp [h, eq_comm]
  · simp [h]

/-- Connections that are added lead between nodes of the graph. -/
theorem Closed.addConnections {g' : DirectedGraph} (h : g.Closed)
    (hcs : g.addConnections cs = .ok g') : g'.Closed := by
  refine Except.foldlM_rel (R := fun g g' => g.Closed → g'.Closed) (fun _ => id)
    (fun _ _ _ h h' => h' ∘ h) (fun g c g' _ hc h => ?_) hcs h
  obtain ⟨hends, rfl⟩ := addConnection_eq_ok_iff.1 hc
  intro c' hc'
  rcases (mem_getConnections_setConnection g c c').1 hc' with rfl | ⟨hc', -⟩
  · exact hends
  · exact h c' hc'

theorem closed_of_getConnections_eq_nil (h : g.getConnections = []) : g.Closed := fun c hc => by
  rw [h] at hc
  cases hc

end DirectedGraph

/-! ### Export and import -/

/-- The number of indexes of an array. -/
def arrayLimit : ℕ := 4294967295

/-- Push `c` onto the group at index `i`, which is created if it is missing. -/
def pushGroup (outputs : NodeInputConnections) (i : ℕ) (c : IConnection) : NodeInputConnections :=
  if i < arrayLimit then SparseArray.setAt outputs i ((SparseArray.getAt outputs i).getD [] ++ [c])
  else outputs

namespace DirectedGraph

/-- One connection is exported.  The record of a source is created with the type of its first
connection; a connection of another type finds no list there. -/
def exportConnection (result : IConnections) (connection : GraphConnection) :
    Except JsError IConnections :=
  let fromName := connection.fromNode.name
  if fromName ∈ objectPrototypeKeys then .error .typeError
  else do
    let resultConnection := (result.get? fromName).getD (Dict.empty.set connection.type [])
    let outputs ← orTypeError (resultConnection.get? connection.type)
    return result.set fromName (resultConnection.set connection.type
      (pushGroup outputs connection.outputIndex
        ⟨connection.toNode.name, connection.type, connection.inputIndex⟩))

/-- `toIConnections`. -/
def toIConnections (g : DirectedGraph) : Except JsError IConnections :=
  g.getConnections.foldlM exportConnection Dict.empty

/-- One connection of a source is imported. -/
def importConnection (nodeMap : Dict String INode) (fromNode : INode) (graph : DirectedGraph)
    (c : SourcedConnection) : Except JsError DirectedGraph := do
  let toNode ← orAssertionError (nodeMap.get? c.target.node)
  graph.addConnection ⟨fromNode, toNode, c.source.type, c.source.index, c.target.index⟩

/-- The connections of a source, in the order of the nested loops. -/
def sourceConnections (connections : IConnections) (fromNodeName : String) :
    List SourcedConnection :=
  ((connections.get? fromNodeName).getD Dict.empty).entries.flatMap fun e =>
    outputConnections fromNodeName e.1 0 e.2

/-- The connections of a source are imported. -/
def importSource (nodeMap : Dict String INode) (connections : IConnections) (graph : DirectedGraph)
    (fromNodeName : String) : Except JsError DirectedGraph := do
  let fromNode ← orAssertionError (nodeMap.get? fromNodeName)
  (sourceConnections connections fromNodeName).foldlM (importConnection nodeMap fromNode) graph

/-- `fromNodesAndConnections`. -/
def fromNodesAndConnections (nodes : List INode) (connections : IConnections) :
    Except JsError DirectedGraph :=
  connections.ownKeys.foldlM (importSource (Workflow.nodesByName nodes) connections)
    (empty.addNodes nodes)

end DirectedGraph

end N8n
