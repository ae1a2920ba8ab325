import N8n.Graph.Components
import N8n.Graph.FindStartNodes
import N8n.Lib.Walks
import N8n.Lib.Gather

/-!
# What `findStartNodes` finds

* `getChildren_spec`: the nodes below a node;
* `isUnfinishedLoop_spec`, `getIncomingDataFromAnyRun_spec`: the tests that read run data;
* `findStartNodesRecursive_found`: the search, from any node and any path to it;
* `findStartNodes_firstStops`: it returns the first stops of the paths that carry data.
-/

namespace N8n

open DirectedGraph

variable {g : DirectedGraph} {runData : IRunData} {pinData : IPinData} {node destination : INode}

/-! ### The nodes below a node -/

/-- `getChildren` returns the nodes that a walk of at least one connection leads to. -/
theorem getChildren_spec (hset : g.Settled) (hnode : node ∈ g.getNodes) :
    ∃ children, g.getChildren node = .ok children ∧ ∀ n, n ∈ children ↔
      Relation.TransGen (fun a b => b ∈ g.children a) node n := by
  have hsearch : ∀ depth, ∀ a ∈ g.getNodes, ∀ marked,
      g.getChildrenRecursive (depth + 1) a marked = (g.children a).foldlM (fun marked b =>
        if b ∈ marked then .ok marked
        else g.getChildrenRecursive depth b (marked ++ [b])) marked := by
    intro depth a ha marked
    rw [getChildrenRecursive, getDirectChildConnections_of_mem ha, children, List.foldlM_map]
    rfl
  have hsub : g.children node ⊆ g.getNodes := hset node hnode
  obtain ⟨children, hok, hgather⟩ := Gather.foldlM_gathers g.getChildrenRecursive
    (fun a ha => hset a ha) hsearch [] hsub (List.length_filter_le _ _)
  refine ⟨children, (hsearch _ node hnode []).trans hok, fun n => ?_⟩
  rw [hgather.mem_iff, Relation.TransGen.head'_iff]

/-! ### Reading run data -/

/-- A run has data on an output exactly when items are read there. -/
theorem getIncomingData_spec (runData : IRunData) (node : INode) (runIndex : ℕ)
    (type : NodeConnectionType) (outputIndex : ℕ)
    (hlist : ∀ taskData ∈ (IRunData.runs runData node)[runIndex]?, ∀ data ∈ taskData.data,
      data.has type) :
    ∃ items, getIncomingData runData node.name runIndex type outputIndex = .ok items ∧
      ((∃ item rest, items = some (item :: rest)) ↔
        ∃ taskData ∈ (IRunData.runs runData node)[runIndex]?,
          HasOutput taskData type outputIndex) := by
  have hruns : (runData.get? node.name).bind (·[runIndex]?) =
      (IRunData.runs runData node)[runIndex]? := by
    rw [IRunData.runs]
    cases runData.get? node.name <;> rfl
  rw [getIncomingData, hruns]
  cases htask : (IRunData.runs runData node)[runIndex]? with
  | none => exact ⟨none, rfl, by simp⟩
  | some taskData =>
    cases hdata : taskData.data with
    | none =>
      refine ⟨none, by simp [hdata], iff_of_false (by simp) ?_⟩
      rintro ⟨_, htask', data, _, _, _, h, _⟩
      cases htask'
      rw [hdata] at h
      cases h
    | some data =>
      obtain ⟨lists, hlists⟩ := Option.isSome_iff_exists.1
        (hlist taskData (htask ▸ rfl) data (hdata ▸ rfl))
      refine ⟨ItemLists.items? lists outputIndex, ?_, ?_⟩
      · simp [hdata, hlists, orTypeError]
      · constructor
        · rintro ⟨item, rest, h⟩
          exact ⟨taskData, rfl, data, lists, item, rest, hdata, hlists, h⟩
        · rintro ⟨_, htask', data', lists', item, rest, hdata', hlists', h⟩
          cases htask'
          cases hdata.symm.trans hdata'
          cases hlists.symm.trans hlists'
          exact ⟨item, rest, h⟩

theorem findIncomingData_spec {type : NodeConnectionType} (outputIndex : ℕ)
    (hlist : ∀ taskData ∈ IRunData.runs runData node, ∀ data ∈ taskData.data, data.has type)
    (indices : List ℕ) :
    ∃ found, findIncomingData runData node.name type outputIndex indices = .ok found ∧
      ((∃ item rest i, found = some (item :: rest, i)) ↔
        ∃ i ∈ indices, ∃ taskData ∈ (IRunData.runs runData node)[i]?,
          HasOutput taskData type outputIndex) := by
  induction indices with
  | nil => exact ⟨none, rfl, by simp⟩
  | cons i indices ih =>
    obtain ⟨items, hitems, hiff⟩ := getIncomingData_spec runData node i type outputIndex
      fun taskData htask => hlist taskData (List.mem_of_getElem? htask)
    obtain ⟨found, hfound, ihiff⟩ := ih
    simp only [List.exists_mem_cons_iff]
    rw [findIncomingData, hitems, ← hiff, ← ihiff]
    match items with
    | some (item :: rest) => exact ⟨some (item :: rest, i), rfl, by simp⟩
    | some [] => exact ⟨found, hfound, by simp⟩
    | none => exact ⟨found, hfound, by simp⟩

/-- Some run of a node has data on an output exactly when items are found there. -/
theorem getIncomingDataFromAnyRun_spec {type : NodeConnectionType} (outputIndex : ℕ)
    (hlist : ∀ taskData ∈ IRunData.runs runData node, ∀ data ∈ taskData.data, data.has type) :
    ∃ found, getIncomingDataFromAnyRun runData node.name type outputIndex = .ok found ∧
      ((∃ item rest i, found = some (item :: rest, i)) ↔
        ∃ taskData ∈ IRunData.runs runData node, HasOutput taskData type outputIndex) := by
  obtain ⟨found, hfound, hiff⟩ := findIncomingData_spec outputIndex hlist
    (List.range (getRunIndexLength runData node.name))
  refine ⟨found, hfound, hiff.trans ?_⟩
  have hlength : getRunIndexLength runData node.name = (IRunData.runs runData node).length := by
    rw [getRunIndexLength, IRunData.runs]
    cases runData.get? node.name <;> rfl
  constructor
  · rintro ⟨i, -, taskData, htask, h⟩
    exact ⟨taskData, List.mem_of_getElem? htask, h⟩
  · rintro ⟨taskData, htask, h⟩
    obtain ⟨i, hi, htask⟩ := List.getElem_of_mem htask
    refine ⟨i, List.mem_range.2 (hlength ▸ hi), taskData, ?_, h⟩
    rw [List.getElem?_eq_getElem hi, htask]
    rfl

/-! ### Where a path stops -/

theorem isDirty_iff : isDirty node runData pinData = true ↔ ¬Clean runData pinData node := by
  have herror : ((runData.get? node.name).map fun runs =>
      runs.any fun taskData => taskData.error.isSome).getD false = true ↔
      ¬∀ taskData ∈ IRunData.runs runData node, taskData.error = none := by
    rw [IRunData.runs]
    cases runData.get? node.name <;> simp [Option.isSome_iff_ne_none]
  rw [isDirty, Clean, not_and_or, ← herror]
  split_ifs <;> simp_all

theorem isUnfinishedLoop_spec (hset : g.Settled) (hlists : ListsOutputs g runData)
    (hnode : node ∈ g.getNodes) :
    ∃ unfinished, isUnfinishedLoop g runData node = .ok unfinished ∧
      (unfinished = true ↔ Unfinished runData (testedOutput g) node) := by
  rw [isUnfinishedLoop, Unfinished]
  split_ifs with htype
  · obtain ⟨children, hchildren, hmem⟩ := getChildren_spec hset hnode
    have htested : (if node ∈ children then 0 else 1) = testedOutput g node := by
      rw [testedOutput]
      by_cases hcycle : OnCycle g node
      · rw [if_pos hcycle, if_pos ((hmem node).2 hcycle)]
      · rw [if_neg hcycle, if_neg fun h => hcycle ((hmem node).1 h)]
    obtain ⟨items, hitems, hiff⟩ := getIncomingData_spec runData node
      (getRunIndexLength runData node.name - 1) .main (testedOutput g node)
      fun taskData htask data hdata =>
        (hlists node hnode taskData (List.mem_of_getElem? htask) data hdata).2 htype
    have hlast : (IRunData.runs runData node)[getRunIndexLength runData node.name - 1]? =
        (IRunData.runs runData node).getLast? := by
      rw [List.getLast?_eq_getElem?, getRunIndexLength, IRunData.runs]
      cases runData.get? node.name <;> rfl
    refine ⟨_, Except.bind_eq_ok_iff.2 ⟨decide (node ∈ children),
      Except.bind_eq_ok_iff.2 ⟨children, hchildren, rfl⟩, Except.bind_eq_ok_iff.2 ⟨items, ?_, rfl⟩⟩,
      ?_⟩
    · simpa [htested] using hitems
    · rw [and_iff_right htype, ← hlast]
      have hnone : (∀ taskData ∈
          (IRunData.runs runData node)[getRunIndexLength runData node.name - 1]?,
            ¬HasOutput taskData .main (testedOutput g node)) ↔
          ¬∃ item rest, items = some (item :: rest) := by
        rw [hiff]
        exact ⟨fun h ⟨taskData, htask, hout⟩ => h taskData htask hout,
          fun h taskData htask hout => h ⟨taskData, htask, hout⟩⟩
      rw [hnone]
      match items with
      | none => simp
      | some [] => simp
      | some (item :: rest) => simp
  · exact ⟨false, rfl, iff_of_false (by simp) fun h => htype h.1⟩

/-! ### The search -/

section Search

variable (g runData pinData destination)

/-- What the search from a node, on a path that met the nodes of a set, is to find. -/
abbrev Finds : Set INode → INode → INode → Prop :=
  FirstStops.Found (DataEdge g runData pinData)
    (StopsAt destination runData pinData (testedOutput g))

/-- The step of the search along a connection. -/
def followConnection (depth : ℕ) (current : INode) (seen : OrderedSet INode)
    (startNodes : OrderedSet INode) (outGoingConnection : GraphConnection) :
    Except JsError (OrderedSet INode) := do
  let nodeRunData ← getIncomingDataFromAnyRun runData outGoingConnection.fromNode.name
    outGoingConnection.type outGoingConnection.outputIndex
  let hasNoRunData := match nodeRunData with
    | none => true
    | some (items, _) => decide (items = [])
  let hasNoPinnedData := !pinData.has outGoingConnection.fromNode.name
  if hasNoRunData && hasNoPinnedData then return startNodes
  else
    findStartNodesRecursive g destination runData pinData depth outGoingConnection.toNode startNodes
      (seen.insert current)

variable {g runData pinData destination}

variable {depth : ℕ} {current : INode} {seen : OrderedSet INode}

theorem followConnection_of_carries {startNodes : OrderedSet INode} {c : GraphConnection}
    (hlist : ∀ taskData ∈ IRunData.runs runData c.fromNode,
      ∀ data ∈ taskData.data, data.has c.type) (hc : Carries runData pinData c) :
    followConnection g runData pinData destination depth current seen startNodes c =
      findStartNodesRecursive g destination runData pinData depth c.toNode startNodes
        (seen.insert current) := by
  obtain ⟨found, hfound, hiff⟩ := getIncomingDataFromAnyRun_spec c.outputIndex hlist
  rw [followConnection, hfound]
  rcases hc with hc | hc
  · simp [hc, bind, Except.bind]
  · obtain ⟨item, rest, i, rfl⟩ := hiff.2 hc
    rfl

theorem followConnection_of_not_carries {startNodes : OrderedSet INode} {c : GraphConnection}
    (hlist : ∀ taskData ∈ IRunData.runs runData c.fromNode, ∀ data ∈ taskData.data,
      data.has c.type) (hc : ¬Carries runData pinData c) :
    followConnection g runData pinData destination depth current seen startNodes c =
      .ok startNodes := by
  obtain ⟨found, hfound, hiff⟩ := getIncomingDataFromAnyRun_spec c.outputIndex hlist
  obtain ⟨hpin, hout⟩ := not_or.1 hc
  rw [← hiff] at hout
  rw [followConnection, hfound]
  match found with
  | none => simp [hpin, bind, Except.bind, pure, Except.pure]
  | some ([], _) => simp [hpin, bind, Except.bind, pure, Except.pure]
  | some (item :: rest, i) => exact absurd ⟨item, rest, i, rfl⟩ hout

/-- The search along connections out of a node, given the searches from the nodes they lead to. -/
theorem foldlM_followConnection (hset : g.Settled) (hlists : ListsOutputs g runData)
    (hcurrent : current ∈ g.getNodes) (hsearch : ∀ next ∈ g.getNodes, ∀ startNodes, ∃ startNodes',
      findStartNodesRecursive g destination runData pinData depth next startNodes
        (seen.insert current) = .ok startNodes' ∧
      ∀ n, n ∈ startNodes' ↔ n ∈ startNodes ∨
        Finds g runData pinData destination {m | m ∈ seen.insert current} next n)
    {cs : List GraphConnection} (hcs : cs ⊆ g.childConnections current)
    (startNodes : OrderedSet INode) :
    ∃ startNodes', cs.foldlM (followConnection g runData pinData destination depth current seen)
        startNodes = .ok startNodes' ∧
      ∀ n, n ∈ startNodes' ↔ n ∈ startNodes ∨ ∃ c ∈ cs, Carries runData pinData c ∧
        Finds g runData pinData destination {m | m ∈ seen.insert current} c.toNode n := by
  induction cs generalizing startNodes with
  | nil => exact ⟨startNodes, rfl, fun n => by simp⟩
  | cons c cs ih =>
    obtain ⟨hc, hcs⟩ := List.cons_subset.1 hcs
    have hfrom := ((mem_childConnections g _ c).1 hc).2
    have hlist : ∀ taskData ∈ IRunData.runs runData c.fromNode, ∀ data ∈ taskData.data,
        data.has c.type := by
      rw [hfrom]
      exact fun taskData htask data hdata => (hlists _ hcurrent taskData htask data hdata).1 c hc
    by_cases hcarries : Carries runData pinData c
    · have hto : c.toNode ∈ g.getNodes := hset current hcurrent c.toNode (List.mem_map_of_mem hc)
      obtain ⟨startNodes₁, h₁, hmem₁⟩ := hsearch c.toNode hto startNodes
      obtain ⟨startNodes₂, h₂, hmem₂⟩ := ih hcs startNodes₁
      refine ⟨startNodes₂, ?_, fun n => ?_⟩
      · rw [List.foldlM_cons, followConnection_of_carries hlist hcarries, h₁]
        exact h₂
      · rw [hmem₂, hmem₁, List.exists_mem_cons_iff, and_iff_right hcarries, or_assoc]
    · obtain ⟨startNodes', h', hmem'⟩ := ih hcs startNodes
      refine ⟨startNodes', ?_, fun n => (hmem' n).trans (or_congr_right ?_)⟩
      · rw [List.foldlM_cons, followConnection_of_not_carries hlist hcarries]
        exact h'
      · rw [List.exists_mem_cons_iff]
        exact (or_iff_right fun h => hcarries h.1).symm

/-- The search finds what it is to find; its depth does not exceed the number of nodes. -/
theorem findStartNodesRecursive_found (hset : g.Settled) (hlists : ListsOutputs g runData)
    (pinData : IPinData) (destination : INode) (startNodes : OrderedSet INode)
    (seen : OrderedSet INode) (hcurrent : current ∈ g.getNodes)
    (hdepth : Gather.missing g.getNodes seen.elems < depth) :
    ∃ startNodes',
      findStartNodesRecursive g destination runData pinData depth current startNodes seen =
        .ok startNodes' ∧
      ∀ n, n ∈ startNodes' ↔
        n ∈ startNodes ∨ Finds g runData pinData destination {m | m ∈ seen} current n := by
  induction depth generalizing current startNodes seen with
  | zero => exact absurd hdepth (Nat.not_lt_zero _)
  | succ depth ih =>
    obtain ⟨unfinished, hunfinished, hiff⟩ := isUnfinishedLoop_spec hset hlists hcurrent
    have hadd : StopsAt destination runData pinData (testedOutput g) current → ∀ n,
        n ∈ startNodes.insert current ↔
          n ∈ startNodes ∨ Finds g runData pinData destination {m | m ∈ seen} current n := by
      intro hstop n
      rw [OrderedSet.mem_insert]
      exact or_congr_right (FirstStops.found_of_stops hstop).symm
    rw [findStartNodesRecursive, hunfinished]
    by_cases hdirty : isDirty current runData pinData = true
    · exact ⟨_, if_pos hdirty, hadd (Or.inl (isDirty_iff.1 hdirty))⟩
    rw [if_neg hdirty]
    by_cases hdest : current = destination
    · exact ⟨_, if_pos hdest, hadd (Or.inr (Or.inl hdest))⟩
    rw [if_neg hdest]
    cases unfinished with
    | true => exact ⟨_, rfl, hadd (Or.inr (Or.inr (hiff.1 rfl)))⟩
    | false =>
      have hgo : ¬StopsAt destination runData pinData (testedOutput g) current := by
        rintro (h | h | h)
        · exact hdirty (isDirty_iff.2 h)
        · exact hdest h
        · exact absurd (hiff.2 h) Bool.false_ne_true
      by_cases hseen : current ∈ seen
      · refine ⟨startNodes, if_pos hseen, fun n => ?_⟩
        exact (or_iff_left (FirstStops.not_found_of_mem hgo hseen)).symm
      · -- fewer nodes are missing from the path that goes on
        have hlt : Gather.missing g.getNodes (seen.insert current).elems < depth := by
          have hinsert : (seen.insert current).elems = seen.elems ++ [current] := by
            rw [OrderedSet.insert, dif_neg (show current ∉ seen.elems from hseen)]
          have := Gather.missing_append_lt hcurrent hseen
          rw [hinsert]
          omega
        obtain ⟨startNodes', h', hmem'⟩ := foldlM_followConnection hset hlists hcurrent
          (fun next hnext startNodes => ih startNodes _ hnext hlt) (List.Subset.refl _) startNodes
        refine ⟨startNodes', ?_, fun n => ?_⟩
        · exact (if_neg hseen).trans (Except.bind_eq_ok_iff.2 ⟨_,
            getDirectChildConnections_of_mem hcurrent, h'⟩)
        · have hset' : {m | m ∈ seen.insert current} = insert current {m | m ∈ seen} := by
            ext m
            simp [or_comm]
          refine (hmem' n).trans (or_congr_right ?_)
          rw [hset']
          refine Iff.trans ⟨?_, ?_⟩ (FirstStops.found_of_new hgo hseen).symm
          · rintro ⟨c, hc, hcarries, hfinds⟩
            obtain ⟨hcg, hfrom⟩ := (mem_childConnections g _ c).1 hc
            exact ⟨c.toNode, ⟨c, hcg, hfrom, rfl, hcarries⟩, hfinds⟩
          · rintro ⟨_, ⟨c, hcg, hfrom, rfl, hcarries⟩, hfinds⟩
            exact ⟨c, (mem_childConnections g _ c).2 ⟨hcg, hfrom⟩, hcarries, hfinds⟩

end Search

/-- **`findStartNodes` returns the nodes at which a path of connections that carry data stops for the
first time**, where a loop node is done on the output that is tested. -/
theorem findStartNodes_firstStops (g : DirectedGraph) (trigger destination : INode)
    (pinData : IPinData) (runData : IRunData) (hset : g.Settled) (htrigger : trigger ∈ g.getNodes)
    (hlists : ListsOutputs g runData) :
    ∃ startNodes, findStartNodes g trigger destination pinData runData = .ok startNodes ∧
      ∀ n, n ∈ startNodes ↔
        FirstStop g destination runData pinData (testedOutput g) trigger n := by
  obtain ⟨startNodes, hok, hmem⟩ := findStartNodesRecursive_found hset hlists pinData destination
    .empty .empty htrigger (Gather.missing_lt_length_add_one _ _)
  refine ⟨startNodes, hok, fun n => ?_⟩
  have hempty : {m | m ∈ (OrderedSet.empty : OrderedSet INode)} = (∅ : Set INode) :=
    Set.eq_empty_of_forall_notMem fun m hm => List.not_mem_nil hm
  rw [hmem, hempty]
  exact (or_iff_right fun h => by cases h).trans FirstStops.found_empty_iff

/-! ### A loop node that is on no cycle -/

/-- A loop node. -/
def loopNode : INode := { name := "Loop", type := "n8n-nodes-base.splitInBatches" }

/-- The node on its second output. -/
def batchNode : INode := { name := "Batch" }

/-- The two nodes and a connection of some type from the second output of the first one. -/
def loopGraph (type : NodeConnectionType) : DirectedGraph :=
  (DirectedGraph.empty.addNodes [loopNode, batchNode]).setConnection ⟨loopNode, batchNode, type, 1, 0⟩

/-- The loop node ran once, and passed on a batch. -/
def batchRun : IRunData :=
  Dict.ofList [("Loop",
    [{ data := some (Dict.ofList [(.main, [some (.items []), some (.items [emptyItem])])]) }])]

theorem findStartNodes_firstStops_loopGraph : ∃ startNodes,
    findStartNodes (loopGraph .main) loopNode batchNode Dict.empty batchRun = .ok startNodes ∧
      ∀ n, n ∈ startNodes ↔ FirstStop (loopGraph .main) batchNode batchRun Dict.empty
        (testedOutput (loopGraph .main)) loopNode n := by
  refine findStartNodes_firstStops _ _ _ _ _ ?_ (by decide) ?_
  · intro v hv
    revert v
    decide
  · intro node hnode
    revert node
    decide

/-- A loop node that is on no cycle is tested on its second output, so that it is passed although
its first one has no data; and the search fails when a run has no list for the type of a
connection. -/
theorem findStartNodes_loopGraph :
    (∃ startNodes,
      findStartNodes (loopGraph .main) loopNode batchNode Dict.empty batchRun = .ok startNodes ∧
        loopNode ∉ startNodes ∧ FirstStop (loopGraph .main) batchNode batchRun Dict.empty
          (fun _ => 0) loopNode loopNode) ∧
      findStartNodes (loopGraph .aiTool) loopNode batchNode Dict.empty batchRun =
        .error .typeError := by
  refine ⟨⟨_, rfl, by decide, ?_, .refl⟩, by decide⟩
  refine Or.inr (Or.inr ⟨rfl, ?_⟩)
  rintro taskData htask ⟨data, lists, item, items, hdata, hlists, hitems⟩
  cases htask
  cases hdata
  cases hlists
  cases hitems

end N8n
