import N8n.Codegen.Declarations
import N8n.Codegen.Representation

/-!
# The graphs that are built

* `Codegen.WellFormed`: nodes have the names they are stored under, and their sub-nodes exist;
* `Codegen.placeEntry_induction`: what the changes of a graph keep, its building keeps;
* `Codegen.buildSemanticGraph_wellFormed`, `WorkflowGraph.build`.
-/

namespace N8n

namespace Codegen

variable {nodes : Dict String SemanticNode} {graph : SemanticGraph}

/-! ### Induction over the changes -/

section Induction

variable {P : SemanticGraph → Prop}

/-- What an entry of the connections does is done by three kinds of changes. -/
theorem placeEntry_induction
    (hsource : ∀ graph target inputSlot source, P graph → P (graph.addSource target inputSlot source))
    (houtput : ∀ graph source outputName connections, P graph →
      P (graph.setOutput source outputName connections))
    (hsubnode : ∀ graph source connectionType outputs, P graph →
      P (graph.parseAiConnections source connectionType outputs))
    (h : P graph) (e : String × String × List Slot) : P (placeEntry nodes graph e) := by
  have htargets : ∀ source outputSlot targets graph, P graph →
      P (placeTargets nodes source outputSlot graph targets) := by
    intro source outputSlot targets graph h
    have hfold : ∀ s : SemanticGraph × List SemanticConnection, P s.1 →
        P (targets.foldl (placeTarget nodes source outputSlot) s).1 := by
      induction targets with
      | nil => exact fun s h => h
      | cons t targets ih =>
        intro s h
        refine ih _ ?_
        unfold placeTarget
        split_ifs
        · exact hsource _ _ _ _ h
        · exact h
    unfold placeTargets
    dsimp only
    split_ifs
    · exact hfold (graph, []) h
    · exact houtput _ _ _ _ (hfold (graph, []) h)
  unfold placeEntry
  split_ifs
  · generalize (outputsOf e).zipIdx = outputs
    induction outputs generalizing graph with
    | nil => exact h
    | cons output outputs ih =>
      refine ih ?_
      unfold placeMainOutput
      split
      · exact h
      · exact htargets _ _ _ _ h
  · exact htargets _ _ _ _ h
  · exact hsubnode _ _ _ _ h
  · exact h
  · exact h

end Induction

/-! ### Names and sub-nodes -/

/-- Nodes have the names they are stored under, and their sub-nodes exist. -/
structure WellFormed (graph : SemanticGraph) : Prop where
  name_eq : ∀ name node, graph.nodes.get? name = some node → node.name = name
  subnodes_exist : ∀ name node, graph.nodes.get? name = some node → ∀ sub ∈ node.subnodes,
    graph.nodes.has sub.subnodeName = true

theorem has_modify (graph : SemanticGraph) (name : String) (f : SemanticNode → SemanticNode)
    (n : String) : (graph.modify name f).nodes.has n = graph.nodes.has n := by
  unfold Dict.has
  rw [get?_modify]
  split_ifs
  · rw [Option.isSome_map]
  · rfl

/-- A change that keeps the name of a node and adds none but existing sub-nodes. -/
theorem WellFormed.modify (h : WellFormed graph) (name : String) {f : SemanticNode → SemanticNode}
    (hname : ∀ node, (f node).name = node.name)
    (hsubnodes : ∀ node, ∀ sub ∈ (f node).subnodes,
      sub ∈ node.subnodes ∨ graph.nodes.has sub.subnodeName = true) :
    WellFormed (graph.modify name f) := by
  have hold : ∀ n node, (graph.modify name f).nodes.get? n = some node →
      ∃ node', graph.nodes.get? n = some node' ∧ (node = f node' ∨ node = node') := by
    intro n node hnode
    rw [get?_modify] at hnode
    split_ifs at hnode with hn
    · obtain ⟨node', hnode', rfl⟩ := Option.map_eq_some_iff.1 hnode
      exact ⟨node', hnode', .inl rfl⟩
    · exact ⟨node, hnode, .inr rfl⟩
  constructor
  · intro n node hnode
    obtain ⟨node', hnode', rfl | rfl⟩ := hold n node hnode
    · exact (hname node').trans (h.name_eq n node' hnode')
    · exact h.name_eq n node hnode'
  · intro n node hnode sub hsub
    rw [has_modify]
    obtain ⟨node', hnode', rfl | rfl⟩ := hold n node hnode
    · exact (hsubnodes node' sub hsub).elim (h.subnodes_exist n node' hnode' sub) id
    · exact h.subnodes_exist n node hnode' sub hsub

theorem WellFormed.parseAiConnections (h : WellFormed graph) (source connectionType : String)
    (outputs : List (Option (List Target))) :
    WellFormed (graph.parseAiConnections source connectionType outputs) := by
  unfold SemanticGraph.parseAiConnections
  cases hsource : graph.nodes.get? source with
  | none => exact h
  | some _ =>
    dsimp only
    replace hsource : graph.nodes.has source = true := by simp [Dict.has, hsource]
    generalize (outputs.filterMap id).flatten = targets
    induction targets generalizing graph with
    | nil => exact h
    | cons t targets ih =>
      refine ih (h.modify t.node (fun _ => rfl) fun node sub hsub => ?_)
        ((has_modify _ _ _ _).trans hsource)
      rcases List.mem_append.1 hsub with hsub | hsub
      · exact .inl hsub
      · rw [List.mem_singleton.1 hsub]
        exact .inr hsource

theorem WellFormed.placeEntry (h : WellFormed graph) (e : String × String × List Slot) :
    WellFormed (placeEntry nodes graph e) :=
  placeEntry_induction (fun _ target _ _ h => h.modify target (fun _ => rfl) fun _ _ => .inl)
    (fun _ source _ _ h => h.modify source (fun _ => rfl) fun _ _ => .inl)
    (fun _ source connectionType outputs h => h.parseAiConnections source connectionType outputs) h e

theorem WellFormed.sortSubnodes (h : WellFormed graph) : WellFormed graph.sortSubnodes := by
  have hold : ∀ n node, graph.sortSubnodes.nodes.get? n = some node → ∃ node',
      graph.nodes.get? n = some node' ∧ node.name = node'.name ∧
        ∀ sub ∈ node.subnodes, sub ∈ node'.subnodes := by
    intro n node hnode
    unfold SemanticGraph.sortSubnodes at hnode
    rw [Dict.get?_mapValues] at hnode
    obtain ⟨node', hnode', rfl⟩ := Option.map_eq_some_iff.1 hnode
    exact ⟨node', hnode', rfl, fun sub hsub => (List.mem_insertionSort _).1 hsub⟩
  constructor
  · intro n node hnode
    obtain ⟨node', hnode', hname, -⟩ := hold n node hnode
    exact hname.trans (h.name_eq n node' hnode')
  · intro n node hnode sub hsub
    obtain ⟨node', hnode', -, hsubnodes⟩ := hold n node hnode
    have hhas := h.subnodes_exist n node' hnode' sub (hsubnodes sub hsub)
    unfold Dict.has SemanticGraph.sortSubnodes at *
    rwa [Dict.get?_mapValues, Option.isSome_map]

theorem createNode_spec {s : Dict String SemanticNode × Dict String ℕ} (nodeJson : NodeJSON)
    (h : WellFormed ⟨s.1⟩) (hsubnodes : ∀ name node, s.1.get? name = some node → node.subnodes = []) :
    WellFormed ⟨(createNode s nodeJson).1⟩ ∧
      ∀ name node, (createNode s nodeJson).1.get? name = some node → node.subnodes = [] := by
  have hcreated : ∃ nodeName, (createNode s nodeJson).1 =
      s.1.set nodeName { createSemanticNode nodeJson with name := nodeName } := by
    unfold createNode
    dsimp only
    split_ifs <;> exact ⟨_, rfl⟩
  obtain ⟨nodeName, heq⟩ := hcreated
  have hnone : ∀ name node, (createNode s nodeJson).1.get? name = some node →
      node.name = name ∧ node.subnodes = [] := by
    intro name node hnode
    rw [heq, Dict.get?_set] at hnode
    split_ifs at hnode with hname
    · cases hnode
      exact ⟨hname.symm, rfl⟩
    · exact ⟨h.name_eq name node hnode, hsubnodes name node hnode⟩
  refine ⟨⟨fun name node hnode => (hnone name node hnode).1, fun name node hnode sub hsub => ?_⟩,
    fun name node hnode => (hnone name node hnode).2⟩
  rw [(hnone name node hnode).2] at hsub
  cases hsub

theorem wellFormed_createNodes (l : List NodeJSON) : WellFormed ⟨createNodes l⟩ := by
  have hfold : ∀ (l : List NodeJSON) (s : Dict String SemanticNode × Dict String ℕ),
      WellFormed ⟨s.1⟩ → (∀ name node, s.1.get? name = some node → node.subnodes = []) →
        WellFormed ⟨(l.foldl createNode s).1⟩ := by
    intro l
    induction l with
    | nil => exact fun s h _ => h
    | cons nodeJson l ih =>
      intro s h hsubnodes
      obtain ⟨h', hsubnodes'⟩ := createNode_spec nodeJson h hsubnodes
      exact ih _ h' hsubnodes'
  exact hfold l (.empty, .empty) ⟨(fun _ _ h => by cases h), (fun _ _ h => by cases h)⟩
    (fun _ _ h => by cases h)

/-- **The graph of a workflow file.** -/
theorem buildSemanticGraph_wellFormed {json : WorkflowJSON}
    (h : buildSemanticGraph json = .ok graph) : WellFormed graph := by
  obtain ⟨-, rfl⟩ := (buildSemanticGraph_eq_ok_iff json graph).1 h
  refine WellFormed.sortSubnodes ?_
  have hfold : ∀ (l : List (String × String × List Slot)) (graph : SemanticGraph),
      WellFormed graph → WellFormed (l.foldl (placeEntry (createNodes json.nodes)) graph) := by
    intro l
    induction l with
    | nil => exact fun graph h => h
    | cons e l ih => exact fun graph h => ih _ (h.placeEntry e)
  exact hfold _ _ (wellFormed_createNodes json.nodes)

/-- `buildSemanticGraph`, with what holds of its result. -/
def WorkflowGraph.build (json : WorkflowJSON) : Except JsError WorkflowGraph :=
  match h : buildSemanticGraph json with
  | .ok graph => .ok
    { toSemanticGraph := graph
      name_eq := (buildSemanticGraph_wellFormed h).name_eq
      subnodes_exist := (buildSemanticGraph_wellFormed h).subnodes_exist }
  | .error e => .error e

/-- The variables for the nodes of these names. -/
def CompositeVariables.ofNames (graph : WorkflowGraph) (names : List String) :
    CompositeVariables graph where
  entries := Dict.ofList (names.filterMap fun name => (graph.nodes.get? name).map (name, ·))
  of_graph := by
    intro name node hnode
    obtain ⟨name', -, hname⟩ := List.mem_filterMap.1 (Dict.mem_of_get?_ofList hnode)
    obtain ⟨node', hnode', heq⟩ := Option.map_eq_some_iff.1 hname
    cases heq
    exact hnode'

end Codegen

end N8n
