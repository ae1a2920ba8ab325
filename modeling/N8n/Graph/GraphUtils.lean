import N8n.Data.Interfaces
import N8n.Lib.OrderedSet
import Mathlib.Data.Finset.Card

/-!
# Selections that one node can replace

`packages/workflow/src/graph/graph-utils.ts`: when the editor turns a selection of nodes into a
sub-workflow, the selection has to have at most one input node and one output node.

* `getInputEdges`, `getOutputEdges`, `getRootNodes`, `getLeafNodes`, `hasPath`;
* `parseExtractableSubgraphSelection`, with its errors.
-/

namespace N8n

/-- The connections that leave each node. -/
abbrev IConnectionAdjacencyList := Dict String (List IConnection)

/-- `adjacencyList.get(node) ?? []`. -/
def IConnectionAdjacencyList.from (adjacencyList : IConnectionAdjacencyList) (node : String) :
    List IConnection :=
  (adjacencyList.get? node).getD []

/-- The edges into the graph. -/
def getInputEdges (graphIds : OrderedSet String) (adjacencyList : IConnectionAdjacencyList) :
    List (String × IConnection) :=
  adjacencyList.entries.flatMap fun e =>
    if e.1 ∈ graphIds then []
    else (e.2.filter fun x => x.node ∈ graphIds).map fun x => (e.1, x)

/-- The edges out of the graph. -/
def getOutputEdges (graphIds : OrderedSet String) (adjacencyList : IConnectionAdjacencyList) :
    List (String × IConnection) :=
  adjacencyList.entries.flatMap fun e =>
    if e.1 ∈ graphIds then
      (e.2.filter fun x => x.node ∉ graphIds).map fun x => (e.1, x)
    else []

/-- The other nodes that a node has main connections to. -/
def mainNeighbours (adjacencyList : IConnectionAdjacencyList) (nodeId : String) :
    OrderedSet String :=
  .ofList (((adjacencyList.from nodeId).filter fun x => x.type = .main ∧ x.node ≠ nodeId).map
    IConnection.node)

/-- The nodes of the graph without a main connection from another node of the graph. -/
def getRootNodes (graphIds : OrderedSet String) (adjacencyList : IConnectionAdjacencyList) :
    OrderedSet String :=
  let innerNodes := graphIds.elems.foldl
    (fun innerNodes nodeId => innerNodes.union (mainNeighbours adjacencyList nodeId)) .empty
  graphIds.diff innerNodes

/-- The nodes of the graph without a main connection to another node of the graph. -/
def getLeafNodes (graphIds : OrderedSet String) (adjacencyList : IConnectionAdjacencyList) :
    OrderedSet String :=
  graphIds.filter fun nodeId => ((mainNeighbours adjacencyList nodeId).inter graphIds).size = 0

/-! ### Paths -/

/-- The nodes that a node has main connections to. -/
def mainTargets (adjacencyList : IConnectionAdjacencyList) (node : String) : OrderedSet String :=
  .ofList (((adjacencyList.from node).filter fun x => x.type = .main).map IConnection.node)

/-- The nodes that a search can come by. -/
def pathNodes (adjacencyList : IConnectionAdjacencyList) (paths : List String) : Finset String :=
  (paths ++ adjacencyList.entries.flatMap fun e => e.2.map IConnection.node).toFinset

theorem mem_pathNodes_of_mainTargets {adjacencyList : IConnectionAdjacencyList}
    {paths : List String} {a b : String} (h : b ∈ mainTargets adjacencyList a) :
    b ∈ pathNodes adjacencyList paths := by
  rw [mainTargets, OrderedSet.mem_ofList, List.mem_map] at h
  obtain ⟨c, hc, rfl⟩ := h
  rw [List.mem_filter, IConnectionAdjacencyList.from] at hc
  cases hg : adjacencyList.get? a with
  | none => simp [hg] at hc
  | some tos =>
    rw [hg] at hc
    rw [pathNodes, List.mem_toFinset, List.mem_append, List.mem_flatMap]
    exact Or.inr ⟨(a, tos), (adjacencyList.mem_entries_iff a tos).2 hg,
      List.mem_map_of_mem hc.1⟩

/-- The nodes that a search comes to next. -/
def unseenTargets (adjacencyList : IConnectionAdjacencyList) (seen : OrderedSet String)
    (next : String) : List String :=
  ((mainTargets adjacencyList next).diff (seen.insert next)).elems

theorem mem_unseenTargets {adjacencyList : IConnectionAdjacencyList} {seen : OrderedSet String}
    {next a : String} :
    a ∈ unseenTargets adjacencyList seen next ↔
      a ∈ mainTargets adjacencyList next ∧ a ∉ seen ∧ a ≠ next := by
  rw [unseenTargets, OrderedSet.mem_elems, OrderedSet.mem_diff, OrderedSet.mem_insert, not_or]

/-- How far a search has come: the nodes it has still to see, then the seen ones it comes by. -/
def pathMeasure (adjacencyList : IConnectionAdjacencyList) (seen : OrderedSet String)
    (paths : List String) : ℕ × ℕ :=
  ((pathNodes adjacencyList paths \ seen.elems.toFinset).card, paths.countP (· ∈ seen))

theorem pathMeasure_lt (adjacencyList : IConnectionAdjacencyList) (seen : OrderedSet String)
    (next : String) (paths : List String) :
    Prod.Lex (· < ·) (· < ·)
      (pathMeasure adjacencyList (seen.insert next)
        ((unseenTargets adjacencyList seen next).reverse ++ paths))
      (pathMeasure adjacencyList seen (next :: paths)) := by
  have hsub : pathNodes adjacencyList ((unseenTargets adjacencyList seen next).reverse ++ paths) ⊆
      pathNodes adjacencyList (next :: paths) := by
    intro a ha
    rw [pathNodes, List.mem_toFinset, List.mem_append, List.mem_append, List.mem_reverse] at ha
    rcases ha with (ha | ha) | ha
    · exact mem_pathNodes_of_mainTargets (mem_unseenTargets.1 ha).1
    · rw [pathNodes, List.mem_toFinset, List.mem_append]
      exact Or.inl (List.mem_cons_of_mem _ ha)
    · rw [pathNodes, List.mem_toFinset, List.mem_append]
      exact Or.inr ha
  by_cases hn : next ∈ seen
  · have hins : seen.insert next = seen := dif_pos hn
    have hcard := Finset.card_le_card
      (Finset.sdiff_subset_sdiff hsub (Finset.Subset.refl seen.elems.toFinset))
    have hcount : (unseenTargets adjacencyList seen next).reverse.countP (· ∈ seen) = 0 := by
      rw [List.countP_eq_zero]
      intro a ha
      simpa using (mem_unseenTargets.1 (List.mem_reverse.1 ha)).2.1
    have hlt : ((unseenTargets adjacencyList seen next).reverse ++ paths).countP (· ∈ seen) <
        (next :: paths).countP (· ∈ seen) := by
      rw [List.countP_append, hcount, List.countP_cons_of_pos (by simpa using hn)]
      omega
    rw [hins, pathMeasure, pathMeasure, Prod.lex_iff]
    rcases hcard.lt_or_eq with hc | hc
    · exact Or.inl hc
    · exact Or.inr ⟨hc, hlt⟩
  · refine Prod.Lex.left _ _ (Finset.card_lt_card ⟨?_, fun hle => ?_⟩)
    · intro a ha
      rw [Finset.mem_sdiff, List.mem_toFinset, OrderedSet.mem_elems, OrderedSet.mem_insert,
        not_or] at ha
      rw [Finset.mem_sdiff, List.mem_toFinset]
      exact ⟨hsub ha.1, ha.2.1⟩
    · have hmem : next ∈ pathNodes adjacencyList (next :: paths) \ seen.elems.toFinset := by
        rw [Finset.mem_sdiff, pathNodes, List.mem_toFinset, List.mem_toFinset]
        exact ⟨List.mem_append_left _ List.mem_cons_self, hn⟩
      have hnot := (Finset.mem_sdiff.1 (hle hmem)).2
      rw [List.mem_toFinset, OrderedSet.mem_elems, OrderedSet.mem_insert] at hnot
      exact hnot (Or.inr rfl)

/-- The loop of `hasPath`; the last of `paths` comes first here. -/
def hasPathLoop (stop : String) (adjacencyList : IConnectionAdjacencyList)
    (seen : OrderedSet String) : List String → Bool
  | [] => false
  | next :: paths =>
    if next = stop then true
    else
      hasPathLoop stop adjacencyList (seen.insert next)
        ((unseenTargets adjacencyList seen next).reverse ++ paths)
termination_by paths => pathMeasure adjacencyList seen paths
decreasing_by exact pathMeasure_lt adjacencyList seen next paths

def hasPath (start stop : String) (adjacencyList : IConnectionAdjacencyList) : Bool :=
  hasPathLoop stop adjacencyList .empty [start]

/-! ### The selection -/

inductive ExtractableErrorResult
  | multipleInputNodes (nodes : OrderedSet String)
  | multipleOutputNodes (nodes : OrderedSet String)
  | inputEdgeToNonRootNode (node : String)
  | outputEdgeFromNonLeafNode (node : String)
  | noContinuousPathFromRootToLeafInSelection (start stop : String)
  deriving DecidableEq

structure ExtractableSubgraphData where
  start : Option String
  stop : Option String
  deriving DecidableEq

/-- A value that counts as true: a string that is there and not empty. -/
def truthy (s : Option String) : Bool := s.any (· ≠ "")

/-- The nodes of the graph that main connections from outside lead to. -/
def inputNodes (graphIds : OrderedSet String) (adjacencyList : IConnectionAdjacencyList) :
    OrderedSet String :=
  .ofList (((getInputEdges graphIds adjacencyList).filter (·.2.type = .main)).map (·.2.node))

/-- The nodes of the graph that main connections to the outside leave from. -/
def outputNodes (graphIds : OrderedSet String) (adjacencyList : IConnectionAdjacencyList) :
    OrderedSet String :=
  .ofList (((getOutputEdges graphIds adjacencyList).filter (·.2.type = .main)).map (·.1))

/-- The root (or leaf) nodes; with none of them, the one input (or output) node is tolerated. -/
def tolerated (ends border : OrderedSet String) : OrderedSet String :=
  if ends.size = 0 ∧ border.size = 1 then border else ends

/-- The errors of a selection, in the order they are pushed. -/
def selectionErrors (adjacencyList : IConnectionAdjacencyList)
    (rootNodes inputNodes leafNodes outputNodes : OrderedSet String) :
    List ExtractableErrorResult :=
  let rootInputNodes := rootNodes.inter inputNodes
  let leafOutputNodes := leafNodes.inter outputNodes
  let start := rootInputNodes.elems.head?
  let stop := leafOutputNodes.elems.head?
  (inputNodes.diff rootNodes).elems.map .inputEdgeToNonRootNode ++
    (if 1 < rootInputNodes.size then [.multipleInputNodes rootInputNodes] else []) ++
    (outputNodes.diff leafNodes).elems.map .outputEdgeFromNonLeafNode ++
    (if 1 < leafOutputNodes.size then [.multipleOutputNodes leafOutputNodes] else []) ++
    (if truthy start ∧ truthy stop ∧ ¬ hasPath (start.getD "") (stop.getD "") adjacencyList then
      [.noContinuousPathFromRootToLeafInSelection (start.getD "") (stop.getD "")]
    else [])

def parseExtractableSubgraphSelection (graphIds : OrderedSet String)
    (adjacencyList : IConnectionAdjacencyList) :
    Except (List ExtractableErrorResult) ExtractableSubgraphData :=
  let inputNodes := inputNodes graphIds adjacencyList
  let rootNodes := tolerated (getRootNodes graphIds adjacencyList) inputNodes
  let outputNodes := outputNodes graphIds adjacencyList
  let leafNodes := tolerated (getLeafNodes graphIds adjacencyList) outputNodes
  let errors := selectionErrors adjacencyList rootNodes inputNodes leafNodes outputNodes
  if errors = [] then
    .ok ⟨(rootNodes.inter inputNodes).elems.head?, (leafNodes.inter outputNodes).elems.head?⟩
  else .error errors

end N8n
