import N8n.Graph.FindSubgraph
import N8n.Graph.StartNodes

/-!
# `cleanRunData`

What is left of the run data before nodes are run again, as
`packages/core/src/execution-engine/partial-execution-utils/clean-run-data.ts` computes it.

* `cleanRunData`: the function;
* `CleansExactly`: what is to be removed;
* `cleanRunData_erases`: what is removed;
* `cleanRunData_cleansExactly_iff`: when the two are the same.
-/

namespace N8n

/-- The run data of the nodes that lead to a node by a connection of another type than `main` are
deleted. -/
def deleteSubNodes (subNodeConnections : List GraphConnection) (newRunData : IRunData) : IRunData :=
  subNodeConnections.foldl (fun newRunData subNodeConnection =>
    if subNodeConnection.type = .main then newRunData
    else newRunData.erase subNodeConnection.fromNode.name) newRunData

/-- The run data of a node and its sub-nodes are deleted. -/
def cleanNode (graph : DirectedGraph) (newRunData : IRunData) (node : INode) :
    Except JsError IRunData := do
  let subNodeConnections ← graph.getParentConnections node
  return deleteSubNodes subNodeConnections (newRunData.erase node.name)

/-- `cleanRunData`; the nodes to clean are a set, listed in the order of insertion. -/
def cleanRunData (runData : IRunData) (graph : DirectedGraph) (nodesToClean : List INode) :
    Except JsError IRunData := do
  let newRunData ← nodesToClean.foldlM (fun newRunData nodeToClean => do
    let children ← graph.getChildren nodeToClean
    (nodeToClean :: children).foldlM (cleanNode graph) (newRunData.erase nodeToClean.name)) runData
  return newRunData.keys.foldl (fun newRunData nodeName =>
    if graph.nodes.has nodeName then newRunData else newRunData.erase nodeName) newRunData

/-! ### What is to be removed -/

section Purpose

variable (g : DirectedGraph) (nodesToClean : List INode)

/-- A node to clean, or one that can be reached from one. -/
def IsCleaned (n : INode) : Prop := ∃ k ∈ nodesToClean, g.Reaches k n

/-- Such a node, or a sub-node of one. -/
def IsInvalidated (n : INode) : Prop :=
  ∃ m, IsCleaned g nodesToClean m ∧ ReachesBy g (·.type ≠ .main) n m

/-- The run data of the other nodes of the graph are kept, and no others. -/
structure CleansExactly (runData newRunData : IRunData) : Prop where
  kept : ∀ n ∈ g.getNodes, ¬IsInvalidated g nodesToClean n →
    newRunData.get? n.name = runData.get? n.name
  removed : ∀ nodeName, (∀ n ∈ g.getNodes, n.name = nodeName → IsInvalidated g nodesToClean n) →
    newRunData.get? nodeName = none

/-- A connection of another type than `main` that leads to a cleaned node leaves one of them or a
sub-node of one of them, if its source has run data. -/
def LeadsFromSubNodes (runData : IRunData) : Prop :=
  ∀ c ∈ g.getConnections, c.type ≠ .main →
    (∃ m, IsCleaned g nodesToClean m ∧ g.Reaches c.toNode m) →
      runData.has c.fromNode.name → IsInvalidated g nodesToClean c.fromNode

/-- The names of which the run data are removed. -/
def IsDeleted (nodeName : String) : Prop :=
  (∃ m, IsCleaned g nodesToClean m ∧ (nodeName = m.name ∨ ∃ c ∈ g.getConnections,
    c.type ≠ .main ∧ g.Reaches c.toNode m ∧ nodeName = c.fromNode.name)) ∨
    g.nodes.has nodeName = false

end Purpose

variable {g : DirectedGraph} {nodesToClean : List INode} {runData : IRunData}

/-! ### What is removed -/

theorem reaches_iff_reachesBy {a b : INode} : g.Reaches a b ↔ ReachesBy g (fun _ => True) a b := by
  have hstep : ∀ a b, b ∈ g.children a ↔
      ∃ c ∈ g.getConnections, True ∧ c.fromNode = a ∧ c.toNode = b := by
    intro a b
    rw [DirectedGraph.children, List.mem_map]
    constructor
    · rintro ⟨c, hc, hto⟩
      obtain ⟨hc, hfrom⟩ := (DirectedGraph.mem_childConnections g a c).1 hc
      exact ⟨c, hc, trivial, hfrom, hto⟩
    · rintro ⟨c, hc, -, hfrom, hto⟩
      exact ⟨c, (DirectedGraph.mem_childConnections g a c).2 ⟨hc, hfrom⟩, hto⟩
  exact ⟨fun h => Relation.ReflTransGen.mono (fun a b => (hstep a b).1) _ _ h,
    fun h => Relation.ReflTransGen.mono (fun a b => (hstep a b).2) _ _ h⟩

theorem erases_deleteSubNodes (cs : List GraphConnection) (runData : IRunData) :
    Dict.Erases (fun nodeName => ∃ c ∈ cs, c.type ≠ .main ∧ nodeName = c.fromNode.name) runData
      (deleteSubNodes cs runData) := by
  refine Dict.erases_foldl (fun runData c => ?_) cs runData
  by_cases hmain : c.type = .main
  · rw [if_pos hmain]
    exact (Dict.erases_refl runData).congr (by simp [hmain])
  · rw [if_neg hmain]
    exact (runData.erases_erase c.fromNode.name).congr (by simp [hmain])

/-- Cleaning a node removes it, and the sources of all connections of other types than `main` that
lead to it. -/
theorem cleanNode_erases (hclosed : g.Closed) {n : INode} (hn : n ∈ g.getNodes)
    (runData : IRunData) : ∃ newRunData, cleanNode g runData n = .ok newRunData ∧
      Dict.Erases (fun nodeName => nodeName = n.name ∨ ∃ c ∈ g.getConnections,
        c.type ≠ .main ∧ g.Reaches c.toNode n ∧ nodeName = c.fromNode.name) runData newRunData := by
  obtain ⟨cs, hok, hcs⟩ := getParentConnections_spec hclosed hn
  refine ⟨_, by rw [cleanNode, hok]; rfl,
    ((runData.erases_erase n.name).trans (erases_deleteSubNodes cs _)).congr fun nodeName => ?_⟩
  refine or_congr_right ⟨?_, ?_⟩
  · rintro ⟨c, hc, hmain, hname⟩
    obtain ⟨hc, hreach⟩ := (hcs c).1 hc
    exact ⟨c, hc, hmain, reaches_iff_reachesBy.2 hreach, hname⟩
  · rintro ⟨c, hc, hmain, hreach, hname⟩
    exact ⟨c, (hcs c).2 ⟨hc, reaches_iff_reachesBy.1 hreach⟩, hmain, hname⟩

theorem settled_of_closed (hclosed : g.Closed) : g.Settled := by
  intro v _ n hn
  obtain ⟨c, hc, rfl⟩ := List.mem_map.1 hn
  exact (hclosed c ((DirectedGraph.mem_childConnections g v c).1 hc).1).2

theorem mem_getNodes_of_reaches (hclosed : g.Closed) {k m : INode} (hk : k ∈ g.getNodes)
    (h : g.Reaches k m) : m ∈ g.getNodes := by
  induction reaches_iff_reachesBy.1 h with
  | refl => exact hk
  | tail _ hstep _ =>
    obtain ⟨c, hc, -, -, rfl⟩ := hstep
    exact (hclosed c hc).2

/-- One node to clean is cleaned with all nodes that can be reached from it. -/
theorem cleanNodes_erases (hclosed : g.Closed) {k : INode} (hk : k ∈ g.getNodes)
    (runData : IRunData) : ∃ newRunData,
      ((g.getChildren k).bind fun children =>
        (k :: children).foldlM (cleanNode g) (runData.erase k.name)) = .ok newRunData ∧
      Dict.Erases (fun nodeName => ∃ m, g.Reaches k m ∧ (nodeName = m.name ∨
        ∃ c ∈ g.getConnections, c.type ≠ .main ∧ g.Reaches c.toNode m ∧
          nodeName = c.fromNode.name)) runData newRunData := by
  obtain ⟨children, hok, hchildren⟩ := getChildren_spec (settled_of_closed hclosed) hk
  have hmem : ∀ m, m ∈ k :: children ↔ g.Reaches k m := fun m => by
    rw [List.mem_cons, hchildren, DirectedGraph.Reaches, Dfs.Reaches,
      Relation.reflTransGen_iff_eq_or_transGen, eq_comm]
  obtain ⟨newRunData, hnew, herases⟩ := Dict.erases_foldlM (l := k :: children)
    (fun m hm => cleanNode_erases hclosed (mem_getNodes_of_reaches hclosed hk ((hmem m).1 hm)))
    (runData.erase k.name)
  refine ⟨newRunData, by rw [hok]; exact hnew,
    ((runData.erases_erase k.name).trans herases).congr fun nodeName => ?_⟩
  simp only [hmem]
  exact or_iff_right_of_imp fun hname => ⟨k, .refl, Or.inl hname⟩

/-- **What `cleanRunData` removes.** -/
theorem cleanRunData_erases (hclosed : g.Closed) (hnodes : nodesToClean ⊆ g.getNodes)
    (runData : IRunData) : ∃ newRunData, cleanRunData runData g nodesToClean = .ok newRunData ∧
      Dict.Erases (IsDeleted g nodesToClean) runData newRunData := by
  obtain ⟨cleaned, hok, hcleaned⟩ := Dict.erases_foldlM
    (fun k hk => cleanNodes_erases hclosed (hnodes hk)) runData
  have houtside := Dict.erases_foldl (f := fun (newRunData : IRunData) nodeName =>
      if g.nodes.has nodeName then newRunData else newRunData.erase nodeName)
    (R := fun nodeName' nodeName => nodeName = nodeName' ∧ g.nodes.has nodeName = false)
    (fun runData nodeName => by
      by_cases hhas : g.nodes.has nodeName = true
      · rw [if_pos hhas]
        refine (Dict.erases_refl runData).congr fun nodeName' => ⟨False.elim, ?_⟩
        rintro ⟨rfl, hnot⟩
        rw [hhas] at hnot
        cases hnot
      · rw [if_neg hhas]
        refine (runData.erases_erase nodeName).congr fun nodeName' => ⟨?_, And.left⟩
        rintro rfl
        exact ⟨rfl, by simpa using hhas⟩) cleaned.keys cleaned
  refine ⟨_, by rw [cleanRunData]; exact Except.bind_eq_ok_iff.2 ⟨cleaned, hok, rfl⟩, ?_⟩
  have herases := hcleaned.trans houtside
  refine ⟨fun nodeName hdeleted => ?_, fun nodeName hkept => herases.kept nodeName ?_⟩
  · rcases hdeleted with ⟨m, ⟨k, hk, hreach⟩, hname⟩ | hnot
    · exact herases.erased nodeName (Or.inl ⟨k, hk, m, hreach, hname⟩)
    · by_cases hkey : nodeName ∈ cleaned.keys
      · exact herases.erased nodeName (Or.inr ⟨nodeName, hkey, rfl, hnot⟩)
      · have hinside : ¬∃ nodeName' ∈ cleaned.keys,
            nodeName = nodeName' ∧ g.nodes.has nodeName = false := by
          rintro ⟨nodeName', hkey', heq, -⟩
          exact hkey (heq ▸ hkey')
        rw [houtside.kept nodeName hinside]
        rwa [Dict.mem_keys_iff, Option.not_isSome_iff_eq_none] at hkey
  · rintro (⟨k, hk, m, hreach, hname⟩ | ⟨nodeName', -, -, hnot⟩)
    · exact hkept (Or.inl ⟨m, ⟨k, hk, hreach⟩, hname⟩)
    · exact hkept (Or.inr hnot)

/-! ### The exact condition -/

/-- **What is removed is what a re-run invalidates** exactly when every connection of another type
than `main` that leads to a cleaned node, and whose source has run data, leaves a cleaned node or a
sub-node of one. -/
theorem cleanRunData_cleansExactly_iff (hclosed : g.Closed) (hnodes : nodesToClean ⊆ g.getNodes)
    (runData : IRunData) : ∃ newRunData, cleanRunData runData g nodesToClean = .ok newRunData ∧
      (CleansExactly g nodesToClean runData newRunData ↔
        LeadsFromSubNodes g nodesToClean runData) := by
  obtain ⟨newRunData, hok, herases⟩ := cleanRunData_erases hclosed hnodes runData
  have hmem : ∀ {m}, IsCleaned g nodesToClean m → m ∈ g.getNodes := fun ⟨k, hk, hreach⟩ =>
    mem_getNodes_of_reaches hclosed (hnodes hk) hreach
  refine ⟨newRunData, hok, fun h c hc hmain ⟨m, hm, hreach⟩ hhas => ?_, fun h => ⟨?_, ?_⟩⟩
  · by_contra hnot
    have hkept := h.kept c.fromNode (hclosed c hc).1 hnot
    rw [herases.erased _ (Or.inl ⟨m, hm, Or.inr ⟨c, hc, hmain, hreach, rfl⟩⟩)] at hkept
    rw [Dict.has, ← hkept] at hhas
    cases hhas
  · intro n hn hnot
    by_cases hdeleted : IsDeleted g nodesToClean n.name
    · rw [herases.erased _ hdeleted]
      rcases hdeleted with ⟨m, hm, hname | ⟨c, hc, hmain, hreach, hname⟩⟩ | hhas
      · rw [DirectedGraph.eq_of_name_eq hn (hmem hm) hname] at hnot
        exact absurd ⟨m, hm, .refl⟩ hnot
      · obtain rfl := DirectedGraph.eq_of_name_eq hn (hclosed c hc).1 hname
        have hnone : ¬runData.has c.fromNode.name = true := fun hhas =>
          hnot (h c hc hmain ⟨m, hm, hreach⟩ hhas)
        rw [Dict.has, Option.not_isSome_iff_eq_none] at hnone
        exact hnone.symm
      · rw [Dict.has, (DirectedGraph.mem_getNodes_iff g n).1 hn] at hhas
        cases hhas
    · exact herases.kept _ hdeleted
  · intro nodeName hinvalidated
    refine herases.erased nodeName ?_
    by_cases hhas : g.nodes.has nodeName = true
    · obtain ⟨n, hn⟩ := Option.isSome_iff_exists.1 hhas
      obtain rfl := g.nodes_name nodeName n hn
      obtain ⟨m, hm, hsub⟩ := hinvalidated n ((DirectedGraph.mem_getNodes_iff g n).2 hn) rfl
      -- a sub-node is the source of the first connection to the cleaned node
      rcases Relation.ReflTransGen.cases_head hsub with rfl | ⟨b, ⟨c, hc, hmain, rfl, rfl⟩, hrest⟩
      · exact Or.inl ⟨n, hm, Or.inl rfl⟩
      · have hreach : ReachesBy g (fun _ => True) c.toNode m :=
          Relation.ReflTransGen.mono (fun a b ⟨c, hc, _, hfrom, hto⟩ =>
            ⟨c, hc, trivial, hfrom, hto⟩) _ _ hrest
        exact Or.inl ⟨m, hm, Or.inr ⟨c, hc, hmain, reaches_iff_reachesBy.2 hreach, rfl⟩⟩
    · exact Or.inr (by simpa using hhas)

/-- Two agents one after the other, the first with a tool. -/
def twoAgents : Except JsError DirectedGraph :=
  (DirectedGraph.empty.addNodes [{ name := "Agent 1" }, { name := "Agent 2" }, { name := "Tool" }]
    ).addConnections [mainConnection "Agent 1" "Agent 2",
      ⟨{ name := "Tool" }, { name := "Agent 1" }, .aiTool, 0, 0⟩]

/-- The run data in which all three ran. -/
def runDataOfAgents : IRunData :=
  ["Agent 1", "Agent 2", "Tool"].foldl (fun runData name => runData.set name []) Dict.empty

theorem cleanRunData_cleansExactly_iff_twoAgents : ∃ g, twoAgents = .ok g ∧
    ∃ newRunData, cleanRunData runDataOfAgents g [{ name := "Agent 1" }] = .ok newRunData ∧
      (CleansExactly g [{ name := "Agent 1" }] runDataOfAgents newRunData ↔
        LeadsFromSubNodes g [{ name := "Agent 1" }] runDataOfAgents) := by
  have hbuild : twoAgents = .ok _ := rfl
  have hclosed := (DirectedGraph.closed_of_getConnections_eq_nil rfl).addConnections hbuild
  exact ⟨_, hbuild, cleanRunData_cleansExactly_iff hclosed (by decide) _⟩

/-- What a walk leads to is in every set that the connections of the walk do not leave. -/
theorem ReachesBy.mem_of_closed {P : GraphConnection → Prop} {l : List INode} {a b : INode}
    (hl : ∀ c ∈ g.getConnections, P c → c.fromNode ∈ l → c.toNode ∈ l) (ha : a ∈ l)
    (h : ReachesBy g P a b) : b ∈ l := by
  induction h with
  | refl => exact ha
  | tail _ hstep ih =>
    obtain ⟨c, hc, hP, rfl, rfl⟩ := hstep
    exact hl c hc hP ih

/-- The second agent runs again, and the run data of the tool of the first are removed. -/
theorem cleanRunData_removes_upstream_tool : ∃ g newRunData, twoAgents = .ok g ∧
    cleanRunData runDataOfAgents g [{ name := "Agent 2" }] = .ok newRunData ∧
    newRunData.has "Tool" = false ∧
    ¬CleansExactly g [{ name := "Agent 2" }] runDataOfAgents newRunData := by
  refine ⟨_, _, rfl, rfl, by decide, fun h => ?_⟩
  refine absurd (h.kept { name := "Tool" } (by decide) fun ⟨m, ⟨k, hk, hreach⟩, hsub⟩ => ?_)
    (by decide)
  rw [List.mem_singleton.1 hk] at hreach
  have hm := (reaches_iff_reachesBy.1 hreach).mem_of_closed (l := [{ name := "Agent 2" }])
    (by decide) (by decide)
  have hm' := hsub.mem_of_closed (l := [{ name := "Tool" }, { name := "Agent 1" }])
    (by decide) (by decide)
  rw [List.mem_singleton.1 hm] at hm'
  exact absurd hm' (by decide)

end N8n
