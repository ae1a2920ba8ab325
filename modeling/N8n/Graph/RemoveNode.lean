import N8n.Graph.DirectedGraph

/-!
# Removing nodes

`removeNode` and `clone` of `directed-graph.ts`.

* `removeNode`: with `reconnectConnections` every connection into the node is joined to every
  connection out of it;
* `removeNode_spec`: what is left, if no two connections have one key;
* `clone_spec`: a clone has the same nodes and connections.
-/

namespace N8n

namespace DirectedGraph

/-! ### Removing a node -/

/-- Delete the connections that begin or end in a node. -/
def deleteConnections (g : DirectedGraph) (node : INode) : DirectedGraph where
  nodes := g.nodes
  connections := g.connections.filter fun _ c => !(c.toNode = node || c.fromNode = node)
  nodes_name := g.nodes_name
  connections_key := fun k c h =>
    g.connections_key k c ((Dict.get?_filter_eq_some_iff _ _ _ _).1 h).1

/-- Delete a name from the map of nodes. -/
def deleteName (g : DirectedGraph) (name : String) : DirectedGraph where
  nodes := g.nodes.erase name
  connections := g.connections
  nodes_name := fun k n h => by
    rw [Dict.get?_erase] at h
    split_ifs at h
    exact g.nodes_name k n h
  connections_key := g.connections_key

/-- `removeNode`, with the connections that it makes if it reconnects. -/
def removeNode (g : DirectedGraph) (node : INode) (reconnectConnections : Bool)
    (skipConnectionFn : GraphConnection → Bool) :
    Except JsError (DirectedGraph × Option (List GraphConnection)) := do
  if reconnectConnections then
    let incomingConnections ← g.getDirectParentConnections node
    let outgoingConnections ← g.getDirectChildConnections node
    let newConnections :=
      (incomingConnections.filter fun c => !skipConnectionFn c).flatMap fun incomingConnection =>
        (outgoingConnections.filter fun c => !skipConnectionFn c).map fun outgoingConnection =>
          { incomingConnection with
            toNode := outgoingConnection.toNode
            inputIndex := outgoingConnection.inputIndex }
    let g := newConnections.foldl setConnection (g.deleteConnections node)
    return (g.deleteName node.name, some newConnections)
  else return ((g.deleteConnections node).deleteName node.name, none)

def clone (g : DirectedGraph) : Except JsError DirectedGraph :=
  (empty.addNodes g.getNodes).addConnections g.getConnections

/-! ### What is left -/

variable {g g' : DirectedGraph}

variable {node : INode} {c : GraphConnection}

theorem mem_getConnections_deleteConnections :
    c ∈ (g.deleteConnections node).getConnections ↔
      c ∈ g.getConnections ∧ c.fromNode ≠ node ∧ c.toNode ≠ node := by
  rw [mem_getConnections_iff, mem_getConnections_iff, deleteConnections,
    Dict.get?_filter_eq_some_iff]
  simp [and_comm]

theorem mem_getNodes_deleteName {n : INode} (hnode : node ∈ g.getNodes) :
    n ∈ (g.deleteName node.name).getNodes ↔ n ∈ g.getNodes ∧ n ≠ node := by
  rw [mem_getNodes_iff, deleteName, Dict.get?_erase]
  split_ifs with hname
  · constructor
    · exact fun h => nomatch h
    · rintro ⟨hn, hne⟩
      exact absurd (eq_of_name_eq hn hnode hname) hne
  · rw [mem_getNodes_iff]
    constructor
    · refine fun hn => ⟨hn, ?_⟩
      rintro rfl
      exact hname rfl
    · exact And.left

/-- Connections that have different keys are all kept. -/
theorem mem_getConnections_foldl_setConnection {cs : List GraphConnection}
    (hkeys : ∀ c c', (c ∈ g.getConnections ∨ c ∈ cs) → (c' ∈ g.getConnections ∨ c' ∈ cs) →
      makeKey c = makeKey c' → c = c') :
    c ∈ (cs.foldl setConnection g).getConnections ↔ c ∈ g.getConnections ∨ c ∈ cs := by
  induction cs generalizing g with
  | nil => simp
  | cons first cs ih =>
    have hmem : ∀ c, c ∈ (g.setConnection first).getConnections ↔
        c ∈ g.getConnections ∨ c = first := by
      intro c
      rw [mem_getConnections_setConnection, or_comm]
      constructor
      · exact fun h => h.imp_left And.left
      · rintro (hc | rfl)
        · by_cases hkey : makeKey c = makeKey first
          · exact Or.inr (hkeys c first (Or.inl hc) (Or.inr List.mem_cons_self) hkey)
          · exact Or.inl ⟨hc, hkey⟩
        · exact Or.inr rfl
    have hsub : ∀ c, (c ∈ (g.setConnection first).getConnections ∨ c ∈ cs) →
        c ∈ g.getConnections ∨ c ∈ first :: cs := by
      intro c hc
      rw [hmem, or_assoc] at hc
      rwa [List.mem_cons]
    rw [List.foldl_cons, ih fun c c' hc hc' => hkeys c c' (hsub c hc) (hsub c' hc'), hmem,
      or_assoc, List.mem_cons]

theorem nodes_foldl_setConnection (cs : List GraphConnection) (g : DirectedGraph) :
    (cs.foldl setConnection g).nodes = g.nodes := by
  induction cs generalizing g with
  | nil => rfl
  | cons c cs ih => rw [List.foldl_cons, ih, nodes_setConnection]

/-- The connections that `removeNode` makes. -/
def reconnections (g : DirectedGraph) (node : INode) : List GraphConnection :=
  ((g.parentConnections node).filter fun c => !decide (c.type ≠ .main)).flatMap fun incoming =>
    ((g.childConnections node).filter fun c => !decide (c.type ≠ .main)).map fun outgoing =>
      { incoming with toNode := outgoing.toNode, inputIndex := outgoing.inputIndex }

theorem mem_reconnections :
    c ∈ g.reconnections node ↔ c.type = .main ∧
      (∃ i, ⟨c.fromNode, node, .main, c.outputIndex, i⟩ ∈ g.getConnections) ∧
      ∃ o, ⟨node, c.toNode, .main, o, c.inputIndex⟩ ∈ g.getConnections := by
  simp only [reconnections, List.mem_flatMap, List.mem_map, List.mem_filter, parentConnections,
    childConnections, Bool.not_eq_true', decide_eq_false_iff_not, not_not, decide_eq_true_eq]
  constructor
  · rintro ⟨⟨u, w, ty, o, j⟩, ⟨⟨hin, rfl⟩, rfl⟩, ⟨w', v, ty', p, i⟩, ⟨⟨hout, rfl⟩, rfl⟩, rfl⟩
    exact ⟨rfl, ⟨j, hin⟩, p, hout⟩
  · obtain ⟨u, v, ty, o, i⟩ := c
    rintro ⟨rfl, ⟨j, hin⟩, p, hout⟩
    exact ⟨_, ⟨⟨hin, rfl⟩, rfl⟩, _, ⟨⟨hout, rfl⟩, rfl⟩, rfl⟩

/-- What is left when a node is removed. -/
theorem removeNode_spec (hnode : node ∈ g.getNodes)
    (hkeys : ∀ c c', (c ∈ g.getConnections ∨ c ∈ g.reconnections node) →
      (c' ∈ g.getConnections ∨ c' ∈ g.reconnections node) → makeKey c = makeKey c' → c = c') :
    ∃ g' new, g.removeNode node true (fun c => c.type ≠ .main) = .ok (g', new) ∧
      (∀ n, n ∈ g'.getNodes ↔ n ∈ g.getNodes ∧ n ≠ node) ∧
      ∀ c, c ∈ g'.getConnections ↔
        (c ∈ g.getConnections ∧ c.fromNode ≠ node ∧ c.toNode ≠ node) ∨
          c ∈ g.reconnections node := by
  have hin := getDirectParentConnections_of_mem hnode
  have hout : g.getDirectChildConnections node = .ok (g.childConnections node) :=
    getDirectChildConnections_eq_ok_iff.2 ⟨hnode, rfl⟩
  have hnodes := nodes_foldl_setConnection (g.reconnections node) (g.deleteConnections node)
  refine ⟨((g.reconnections node).foldl setConnection (g.deleteConnections node)).deleteName
    node.name, some (g.reconnections node), ?_, fun n => ?_, fun c => ?_⟩
  · rw [removeNode, if_pos rfl, hin, hout]
    rfl
  · rw [mem_getNodes_deleteName]
    · rw [getNodes, hnodes]
      rfl
    · rw [getNodes, hnodes]
      exact hnode
  · have hold : ∀ c, c ∈ (g.deleteConnections node).getConnections ∨ c ∈ g.reconnections node →
        c ∈ g.getConnections ∨ c ∈ g.reconnections node := fun c hc =>
      hc.imp_left fun hc => (mem_getConnections_deleteConnections.1 hc).1
    show c ∈ ((g.reconnections node).foldl setConnection
      (g.deleteConnections node)).getConnections ↔ _
    rw [mem_getConnections_foldl_setConnection fun c c' hc hc' =>
      hkeys c c' (hold c hc) (hold c' hc'), mem_getConnections_deleteConnections]

/-! ### The clone -/

theorem mem_getNodes_addNodes {nodes : List INode} (hnodes : ∀ n ∈ nodes, n ∈ g.getNodes)
    (hg' : ∀ n ∈ g'.getNodes, n ∈ g.getNodes) (n : INode) :
    n ∈ (g'.addNodes nodes).getNodes ↔ n ∈ g'.getNodes ∨ n ∈ nodes := by
  induction nodes generalizing g' with
  | nil => simp [addNodes]
  | cons first nodes ih =>
    have hfirst := hnodes first List.mem_cons_self
    have hmem : ∀ n, n ∈ (g'.addNode first).getNodes ↔ n ∈ g'.getNodes ∨ n = first := by
      intro n
      rw [mem_getNodes_addNode, or_comm]
      constructor
      · exact fun h => h.imp_left And.left
      · rintro (hn | rfl)
        · by_cases hname : n.name = first.name
          · exact Or.inr (eq_of_name_eq (hg' n hn) hfirst hname)
          · exact Or.inl ⟨hn, hname⟩
        · exact Or.inr rfl
    show n ∈ ((g'.addNode first).addNodes nodes).getNodes ↔ _
    rw [ih (fun n hn => hnodes n (List.mem_cons_of_mem _ hn)), hmem, or_assoc, List.mem_cons]
    intro n hn
    rcases (hmem n).1 hn with hn | rfl
    · exact hg' n hn
    · exact hfirst

theorem addConnections_of_mem {cs : List GraphConnection}
    (hcs : ∀ c ∈ cs, c.fromNode ∈ g.getNodes ∧ c.toNode ∈ g.getNodes) :
    g.addConnections cs = .ok (cs.foldl setConnection g) := by
  induction cs generalizing g with
  | nil => rfl
  | cons c cs ih =>
    have hc := hcs c List.mem_cons_self
    rw [addConnections, List.foldlM_cons, addConnection_eq_ok_iff.2 ⟨hc, rfl⟩]
    exact ih fun c hc => hcs c (List.mem_cons_of_mem _ hc)

/-- A clone has the same nodes and connections. -/
theorem clone_spec (hclosed : g.Closed) : ∃ g', g.clone = .ok g' ∧
    (∀ n, n ∈ g'.getNodes ↔ n ∈ g.getNodes) ∧
      ∀ c, c ∈ g'.getConnections ↔ c ∈ g.getConnections := by
  have hnodes : ∀ n, n ∈ (empty.addNodes g.getNodes).getNodes ↔ n ∈ g.getNodes := by
    intro n
    rw [mem_getNodes_addNodes (g := g) (fun _ => id) fun n hn => absurd hn List.not_mem_nil]
    exact or_iff_right List.not_mem_nil
  have hconnections : (empty.addNodes g.getNodes).getConnections = [] :=
    getConnections_addNodes empty g.getNodes
  refine ⟨_, addConnections_of_mem fun c hc => ?_, fun n => ?_, fun c => ?_⟩
  · rw [hnodes, hnodes]
    exact hclosed c hc
  · rw [getNodes, nodes_foldl_setConnection]
    exact hnodes n
  · rw [mem_getConnections_foldl_setConnection, hconnections]
    · simp
    · rw [hconnections]
      intro c c' hc hc' hkey
      exact eq_of_makeKey_eq (hc.resolve_left List.not_mem_nil) (hc'.resolve_left List.not_mem_nil)
        hkey

end DirectedGraph

end N8n
