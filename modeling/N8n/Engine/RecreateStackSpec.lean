import N8n.Engine.RecreateStack
import N8n.Engine.AddNodeSpec

/-!
# What a partial execution starts from

* `getSourceDataGroups_perm`: the groups partition the incoming connections;
* `waitingGroups`: the incomplete groups of which something is known;
* `RebuiltRuns`: the waiting runs that they make, one for each, with data at the main inputs for
  which the run data has some;
* `recreateNodeExecutionStack_rebuilt`: these are the waiting runs of a start node.
-/

namespace N8n

/-! ### The groups -/

variable {cs : List GraphConnection} {i k : ℕ} {c : GraphConnection}
  {groups : List SourceConnectionGroup} {nodeName : String} {runData : IRunData}
  {r r' : RecreatedStack} {g : SourceConnectionGroup} {pinData : IPinData} {startNode : INode}
  {localeCompare : String → String → ℤ} {graph : DirectedGraph} {startNodes : List INode}

theorem minInputIndex_mem (h : cs ≠ []) : ∃ c ∈ cs, c.inputIndex = minInputIndex cs := by
  have hmap : cs.map (·.inputIndex) ≠ [] := by simpa using h
  obtain ⟨i, hi⟩ := Option.isSome_iff_exists.1 (List.isSome_min?_of_ne_nil hmap)
  have hmem := List.min?_mem hi
  rw [minInputIndex, hi, Option.getD_some]
  exact List.mem_map.1 hmem

theorem find?_eq_some_inputIndex (h : cs.find? (·.inputIndex = i) = some c) :
    c ∈ cs ∧ c.inputIndex = i :=
  ⟨List.mem_of_find?_eq_some h, by simpa using List.find?_some h⟩

/-- The number of iterations that the loop needs: one for each connection, and one to close each
group. -/
def groupingSteps (connections : List GraphConnection) (inputIndex : ℕ) : ℕ :=
  2 * connections.length + if ∃ c ∈ connections, c.inputIndex = inputIndex then 0 else 1

theorem groupingSteps_le (connections : List GraphConnection) (inputIndex : ℕ) :
    groupingSteps connections inputIndex ≤ 2 * connections.length + 1 := by
  rw [groupingSteps]
  split_ifs <;> omega

theorem groupingSteps_minInputIndex {connections : List GraphConnection} (h : connections ≠ []) :
    groupingSteps connections (minInputIndex connections) = 2 * connections.length := by
  rw [groupingSteps, if_pos (minInputIndex_mem h), Nat.add_zero]

/-- Taking a connection into the next input leaves less to do. -/
theorem groupingSteps_lt {cs' : List GraphConnection} {i' : ℕ} (hlen : cs'.length + 1 = cs.length) :
    groupingSteps cs' i' < groupingSteps cs i := by
  have := groupingSteps_le cs' i'
  have : 2 * cs.length ≤ groupingSteps cs i := Nat.le_add_right _ _
  omega

/-- What one iteration of the loop does. -/
inductive GroupingStep (steps : ℕ) (withData withoutData : List GraphConnection) (inputIndex : ℕ)
    (currentGroup : SourceConnectionGroup) (r : Except JsError (List SourceConnectionGroup)) : Prop
  | done (hwith : withData = []) (hwithout : withoutData = []) (hr : r = .ok [currentGroup])
  | withData (c : GraphConnection) (hc : c ∈ withData) (hinput : c.inputIndex = inputIndex)
      (hr : r = groupConnections steps (withData.erase c) withoutData (inputIndex + 1)
        { currentGroup with connections := currentGroup.connections ++ [c] })
  | withoutData (c : GraphConnection) (hc : c ∈ withoutData) (hinput : c.inputIndex = inputIndex)
      (hr : r = groupConnections steps withData (withoutData.erase c) (inputIndex + 1)
        { complete := false, connections := currentGroup.connections ++ [c] })
  | close (hne : withData ++ withoutData ≠ [])
      (hnone : ∀ c ∈ withData ++ withoutData, c.inputIndex ≠ inputIndex)
      (hr : r = (groupConnections steps withData withoutData
        (minInputIndex (withData ++ withoutData)) {}).bind fun groups =>
          .ok (currentGroup :: groups))

theorem groupConnections_step (steps : ℕ) (withData withoutData : List GraphConnection)
    (inputIndex : ℕ) (currentGroup : SourceConnectionGroup) :
    GroupingStep steps withData withoutData inputIndex currentGroup
      (groupConnections (steps + 1) withData withoutData inputIndex currentGroup) := by
  rw [groupConnections]
  by_cases hnil : withData = [] ∧ withoutData = []
  · rw [if_pos hnil]
    exact .done hnil.1 hnil.2 rfl
  rw [if_neg hnil]
  cases hwith : withData.find? (·.inputIndex = inputIndex) with
  | some c =>
    obtain ⟨hc, hinput⟩ := find?_eq_some_inputIndex hwith
    exact .withData c hc hinput rfl
  | none =>
    cases hwithout : withoutData.find? (·.inputIndex = inputIndex) with
    | some c =>
      obtain ⟨hc, hinput⟩ := find?_eq_some_inputIndex hwithout
      exact .withoutData c hc hinput rfl
    | none =>
      rw [List.find?_eq_none] at hwith hwithout
      refine .close (fun h => hnil (List.append_eq_nil_iff.1 h)) ?_ rfl
      intro c hc heq
      rcases List.mem_append.1 hc with hc | hc
      · exact hwith c hc (by simpa using heq)
      · exact hwithout c hc (by simpa using heq)

variable {withData withoutData done : List GraphConnection} {α : Type} {e : ITaskDataConnections}
  {s : ITaskDataConnectionsSource} {r₁ r₂ : RecreatedStack}

theorem perm_cons_erase_append (h : c ∈ withData) (withoutData : List GraphConnection) :
    (withData ++ withoutData).Perm (c :: (withData.erase c ++ withoutData)) :=
  (List.perm_cons_erase h).append_right withoutData

theorem perm_append_cons_erase (withData : List GraphConnection) (h : c ∈ withoutData) :
    (withData ++ withoutData).Perm (c :: (withData ++ withoutData.erase c)) :=
  ((List.perm_cons_erase h).append_left withData).trans List.perm_middle

/-- The loop ends within its bound. -/
theorem groupConnections_eq_ok (steps : ℕ) (withData withoutData : List GraphConnection)
    (inputIndex : ℕ) (currentGroup : SourceConnectionGroup)
    (h : groupingSteps (withData ++ withoutData) inputIndex < steps) :
    ∃ groups,
      groupConnections steps withData withoutData inputIndex currentGroup = .ok groups := by
  induction steps generalizing withData withoutData inputIndex currentGroup with
  | zero => exact absurd h (Nat.not_lt_zero _)
  | succ steps ih =>
    cases groupConnections_step steps withData withoutData inputIndex currentGroup with
    | done hwith hwithout hr => exact ⟨_, hr⟩
    | withData c hc hinput hr =>
      rw [hr]
      have hlen := (perm_cons_erase_append hc withoutData).length_eq.symm
      exact ih _ _ _ _ ((groupingSteps_lt hlen).trans_le (Nat.lt_succ_iff.1 h))
    | withoutData c hc hinput hr =>
      rw [hr]
      have hlen := (perm_append_cons_erase withData hc).length_eq.symm
      exact ih _ _ _ _ ((groupingSteps_lt hlen).trans_le (Nat.lt_succ_iff.1 h))
    | close hne hnone hr =>
      rw [groupingSteps, if_neg (by push Not; exact hnone)] at h
      have hlt : groupingSteps (withData ++ withoutData)
          (minInputIndex (withData ++ withoutData)) < steps := by
        rw [groupingSteps_minInputIndex hne]
        omega
      obtain ⟨groups, hok⟩ := ih _ _ _ {} hlt
      exact ⟨currentGroup :: groups, by rw [hr, hok]; rfl⟩

theorem groupConnections_perm {steps : ℕ} {inputIndex : ℕ} {currentGroup : SourceConnectionGroup}
    (h : groupConnections steps withData withoutData inputIndex currentGroup = .ok groups) :
    (groups.flatMap (·.connections)).Perm
      (currentGroup.connections ++ (withData ++ withoutData)) := by
  induction steps generalizing withData withoutData inputIndex currentGroup groups with
  | zero => cases h
  | succ steps ih =>
    cases groupConnections_step steps withData withoutData inputIndex currentGroup with
    | done hwith hwithout hr =>
      cases hr.symm.trans h
      simp [hwith, hwithout]
    | withData c hc hinput hr =>
      refine (ih (hr.symm.trans h)).trans ?_
      rw [List.append_assoc]
      exact (perm_cons_erase_append hc withoutData).symm.append_left _
    | withoutData c hc hinput hr =>
      refine (ih (hr.symm.trans h)).trans ?_
      rw [List.append_assoc]
      exact (perm_append_cons_erase withData hc).symm.append_left _
    | close hne hnone hr =>
      obtain ⟨rest, hrest, hgroups⟩ := Except.bind_eq_ok_iff.1 (hr.symm.trans h)
      cases hgroups
      rw [List.flatMap_cons]
      exact (ih hrest).append_left _

/-- **The groups** hold every incoming connection whose source has data and every main one, each
once. -/
theorem getSourceDataGroups_perm (localeCompare : String → String → ℤ) (graph : DirectedGraph)
    (node : INode) (runData : IRunData) (pinnedData : IPinData) :
    ∃ groups, getSourceDataGroups localeCompare graph node runData pinnedData = .ok groups ∧
      (groups.flatMap (·.connections)).Perm ((graph.parentConnections node).filter fun c =>
        (runData.has c.fromNode.name || pinnedData.has c.fromNode.name) ||
          decide (c.type = .main)) := by
  have hsplit : ∀ (p q : GraphConnection → Bool) (cs : List GraphConnection),
      (sortConnections localeCompare (cs.filter p) ++
          sortConnections localeCompare (cs.filter fun c => !p c && q c)).Perm
        (cs.filter fun c => p c || q c) := by
    intro p q cs
    refine ((List.perm_insertionSort _ _).append (List.perm_insertionSort _ _)).trans ?_
    induction cs with
    | nil => rfl
    | cons c cs ih =>
      simp only [List.filter_cons]
      cases hp : p c <;> cases hq : q c <;> simp only [Bool.not_true, Bool.not_false,
        Bool.and_true, Bool.and_false, Bool.or_true, Bool.or_false, if_true, if_false,
        Bool.false_eq_true]
      · exact ih
      · exact List.perm_middle.trans (ih.cons c)
      · exact ih.cons c
      · exact ih.cons c
  rw [getSourceDataGroups]
  simp only
  split_ifs with hnil
  · refine ⟨[], rfl, ?_⟩
    have := hsplit (fun c => runData.has c.fromNode.name || pinnedData.has c.fromNode.name)
      (fun c => decide (c.type = .main)) (graph.parentConnections node)
    rwa [hnil.1, hnil.2] at this
  · rw [← List.length_append]
    obtain ⟨groups, hok⟩ := groupConnections_eq_ok _ _ _ _ {}
      (Nat.lt_succ_of_le
        (groupingSteps_minInputIndex fun h => hnil (List.append_eq_nil_iff.1 h)).le)
    exact ⟨groups, hok, (groupConnections_perm hok).trans (hsplit _ _ _)⟩

/-! ### The waiting runs -/

/-- Whether the run data has items for a connection. -/
def hasIncomingData (runData : IRunData) (c : GraphConnection) : Bool :=
  match getIncomingDataFromAnyRun runData c.fromNode.name c.type c.outputIndex with
  | .ok (some _) => true
  | _ => false

/-- The incomplete groups with a connection for which the run data has items. -/
def waitingGroups (runData : IRunData) (groups : List SourceConnectionGroup) :
    List SourceConnectionGroup :=
  groups.filter fun g => !g.complete && g.connections.any (hasIncomingData runData)

/-- The run data has items for one of some connections into a main input. -/
def InputHasData (runData : IRunData) (connections : List GraphConnection) (i : ℕ) : Prop :=
  ∃ c ∈ connections, c.type = .main ∧ c.inputIndex = i ∧ hasIncomingData runData c = true

/-- Run `k` of a node. -/
def runAt {α : Type} (waiting : Dict String (IndexMap α)) (nodeName : String) (k : ℕ) : Option α :=
  ((waiting.get? nodeName).getD IndexMap.empty).get? k

theorem runAt_setWaitingSlot
    (waiting : Dict String (IndexMap (Dict NodeConnectionType (SparseArray α))))
    (nodeName : String) (k k' : ℕ) (t : NodeConnectionType) (i : ℕ) (a : α) :
    runAt (setWaitingSlot waiting nodeName k t i a) nodeName k' =
      if k' = k then
        some (((runAt waiting nodeName k).getD Dict.empty).set t
          (SparseArray.setAt ((((runAt waiting nodeName k).getD Dict.empty).get? t).getD []) i a))
      else runAt waiting nodeName k' := by
  rw [runAt, setWaitingSlot, Dict.get?_set_self, Option.getD_some, IndexMap.get?_set]
  rfl

theorem get?_setWaitingSlot_ne
    (waiting : Dict String (IndexMap (Dict NodeConnectionType (SparseArray α))))
    {nodeName' : String} (h : nodeName' ≠ nodeName) (k : ℕ) (t : NodeConnectionType) (i : ℕ)
    (a : α) : (setWaitingSlot waiting nodeName k t i a).get? nodeName' = waiting.get? nodeName' :=
  Dict.get?_set_ne _ _ h

/-- The data and the sources of the waiting run that some connections make. -/
structure RebuiltEntry (runData : IRunData) (connections : List GraphConnection)
    (e : ITaskDataConnections) (s : ITaskDataConnectionsSource) : Prop where
  main_iff : (e.get? .main).isSome ↔ ∃ i, InputHasData runData connections i
  source : (e.get? .main).isSome → (s.get? .main).isSome
  notNull : ∀ main, e.get? .main = some main → ∀ i, ItemLists.read main i ≠ .null
  filled : ∀ main, e.get? .main = some main → ∀ i,
    ((ItemLists.read main i).truthy = true ↔ InputHasData runData connections i)

theorem rebuiltEntry_nil (runData : IRunData) : RebuiltEntry runData [] Dict.empty Dict.empty where
  main_iff := by simp [InputHasData]
  source := by simp
  notNull := by simp
  filled := by simp

theorem inputHasData_append : InputHasData runData (cs ++ [c]) i ↔ InputHasData runData cs i ∨
      c.type = .main ∧ c.inputIndex = i ∧ hasIncomingData runData c = true := by
  simp [InputHasData, or_and_right, exists_or]

theorem read_setAt (l : ItemLists) (i j : ℕ) (c : Cell) :
    ItemLists.read (SparseArray.setAt l i c) j = if j = i then c else ItemLists.read l j := by
  rw [ItemLists.read, SparseArray.getAt_setAt]
  split_ifs <;> rfl

/-- A connection without items leaves the waiting run as it is. -/
theorem RebuiltEntry.skip (h : RebuiltEntry runData cs e s)
    (hc : hasIncomingData runData c = false ∨ c.type ≠ .main) :
    RebuiltEntry runData (cs ++ [c]) e s := by
  have hiff : ∀ i, InputHasData runData (cs ++ [c]) i ↔ InputHasData runData cs i := by
    intro i
    rw [inputHasData_append]
    refine or_iff_left fun ⟨htype, _, hdata⟩ => ?_
    rcases hc with hc | hc
    · exact absurd hdata (by simp [hc])
    · exact hc htype
  exact ⟨by simp only [hiff]; exact h.main_iff, h.source, h.notNull,
    by simp only [hiff]; exact h.filled⟩

/-- A connection with items fills its slot. -/
theorem RebuiltEntry.fill (h : RebuiltEntry runData cs e s)
    (hc : hasIncomingData runData c = true) (items : List INodeExecutionData)
    (source : Option ISourceData) :
    RebuiltEntry runData (cs ++ [c])
      (e.set c.type (SparseArray.setAt ((e.get? c.type).getD []) c.inputIndex (.items items)))
      (s.set c.type (SparseArray.setAt ((s.get? c.type).getD []) c.inputIndex source)) := by
  by_cases htype : c.type = .main
  · have hiff : ∀ i, InputHasData runData (cs ++ [c]) i ↔
        InputHasData runData cs i ∨ i = c.inputIndex := by
      intro i
      rw [inputHasData_append]
      simp [htype, hc, eq_comm]
    rw [htype]
    have hslot : ∀ i, ((ItemLists.read ((e.get? .main).getD []) i).truthy = true ↔
        InputHasData runData cs i) ∧ ItemLists.read ((e.get? .main).getD []) i ≠ .null := by
      intro i
      cases hmain : e.get? .main with
      | some main => exact ⟨h.filled main hmain i, h.notNull main hmain i⟩
      | none =>
        have hnone : ¬∃ i, InputHasData runData cs i := fun hex => by
          simpa [hmain] using h.main_iff.2 hex
        simp only [Option.getD_none, ItemLists.read, SparseArray.getAt_nil, Cell.truthy,
          Bool.false_eq_true, false_iff, ne_eq, reduceCtorEq, not_false_eq_true, and_true]
        exact fun hi => hnone ⟨i, hi⟩
    refine ⟨?_, ?_, ?_, ?_⟩
    · simp only [Dict.get?_set_self, Option.isSome_some, true_iff]
      exact ⟨c.inputIndex, (hiff _).2 (Or.inr rfl)⟩
    · simp
    · intro main hmain i
      rw [Dict.get?_set_self, Option.some.injEq] at hmain
      rw [← hmain, read_setAt]
      split_ifs
      · simp
      · exact (hslot i).2
    · intro main hmain i
      rw [Dict.get?_set_self, Option.some.injEq] at hmain
      rw [← hmain, read_setAt, hiff]
      split_ifs with hi
      · simp [hi, Cell.truthy]
      · rw [or_iff_left hi]
        exact (hslot i).1
  · have h' := h.skip (c := c) (Or.inr htype)
    have hne := Dict.get?_set_ne e (SparseArray.setAt ((e.get? c.type).getD []) c.inputIndex
      (.items items)) (Ne.symm htype)
    have hne' := Dict.get?_set_ne s (SparseArray.setAt ((s.get? c.type).getD []) c.inputIndex
      source) (Ne.symm htype)
    exact ⟨by rw [hne]; exact h'.main_iff, by rw [hne, hne']; exact h'.source,
      by rw [hne]; exact h'.notNull, by rw [hne]; exact h'.filled⟩

/-- While the connections of a group are read, only run `k` of the node changes. -/
structure RebuildsRun (runData : IRunData) (nodeName : String) (k : ℕ) (done : List GraphConnection)
    (r r' : RecreatedStack) : Prop where
  stack : r'.nodeExecutionStack = r.nodeExecutionStack
  nodes : ∀ nodeName' ≠ nodeName,
    r'.waitingExecution.get? nodeName' = r.waitingExecution.get? nodeName' ∧
      r'.waitingExecutionSource.get? nodeName' = r.waitingExecutionSource.get? nodeName'
  runs : ∀ k' ≠ k, runAt r'.waitingExecution nodeName k' = runAt r.waitingExecution nodeName k' ∧
    runAt r'.waitingExecutionSource nodeName k' = runAt r.waitingExecutionSource nodeName k'
  isSome : (runAt r'.waitingExecution nodeName k).isSome = done.any (hasIncomingData runData) ∧
    (runAt r'.waitingExecutionSource nodeName k).isSome = done.any (hasIncomingData runData)
  entry : RebuiltEntry runData done ((runAt r'.waitingExecution nodeName k).getD Dict.empty)
    ((runAt r'.waitingExecutionSource nodeName k).getD Dict.empty)

theorem RebuildsRun.addWaitingConnection (h : RebuildsRun runData nodeName k done r r₁)
    (hc : N8n.addWaitingConnection runData nodeName k r₁ c = .ok r₂) :
    RebuildsRun runData nodeName k (done ++ [c]) r r₂ := by
  rw [N8n.addWaitingConnection, Except.bind_eq_ok_iff] at hc
  obtain ⟨data, hdata, hc⟩ := hc
  cases data with
  | none =>
    have hnone : hasIncomingData runData c = false := by rw [hasIncomingData, hdata]
    cases hc
    exact ⟨h.stack, h.nodes, h.runs, by simpa [hnone] using h.isSome, h.entry.skip (Or.inl hnone)⟩
  | some p =>
    obtain ⟨items, runIndex⟩ := p
    have hsome : hasIncomingData runData c = true := by rw [hasIncomingData, hdata]
    cases hc
    refine ⟨h.stack, fun nodeName' hne => ⟨?_, ?_⟩, fun k' hk => ⟨?_, ?_⟩, ⟨?_, ?_⟩, ?_⟩
    · exact (get?_setWaitingSlot_ne _ hne _ _ _ _).trans (h.nodes nodeName' hne).1
    · exact (get?_setWaitingSlot_ne _ hne _ _ _ _).trans (h.nodes nodeName' hne).2
    · exact (runAt_setWaitingSlot _ _ _ _ _ _ _).trans ((if_neg hk).trans (h.runs k' hk).1)
    · exact (runAt_setWaitingSlot _ _ _ _ _ _ _).trans ((if_neg hk).trans (h.runs k' hk).2)
    · simp [addWaitingExecution, runAt_setWaitingSlot, hsome]
    · simp [addWaitingExecutionSource, runAt_setWaitingSlot, hsome]
    · simp only [addWaitingExecution, addWaitingExecutionSource, runAt_setWaitingSlot, if_true,
        Option.getD_some]
      exact h.entry.fill hsome items _

/-- The waiting runs of a node are those that some groups make, in their order. -/
structure RebuiltRuns (runData : IRunData) (nodeName : String) (groups : List SourceConnectionGroup)
    (r : RecreatedStack) : Prop where
  size : ((r.waitingExecution.get? nodeName).getD IndexMap.empty).size = groups.length
  run : ∀ k g, groups[k]? = some g → ∃ e s, runAt r.waitingExecution nodeName k = some e ∧
    runAt r.waitingExecutionSource nodeName k = some s ∧ RebuiltEntry runData g.connections e s
  none : ∀ k, groups.length ≤ k → runAt r.waitingExecution nodeName k = none ∧
    runAt r.waitingExecutionSource nodeName k = none

theorem rebuiltRuns_nil (runData : IRunData) (h : r.waitingExecution.get? nodeName = none)
    (h' : r.waitingExecutionSource.get? nodeName = none) : RebuiltRuns runData nodeName [] r where
  size := by rw [h]; rfl
  run := by simp
  none := fun k _ => by rw [runAt, runAt, h, h']; exact ⟨rfl, rfl⟩

/-- The waiting runs of one node are not touched. -/
def KeepsNode (nodeName : String) (r r' : RecreatedStack) : Prop :=
  r'.waitingExecution.get? nodeName = r.waitingExecution.get? nodeName ∧
    r'.waitingExecutionSource.get? nodeName = r.waitingExecutionSource.get? nodeName

theorem RebuiltRuns.congr (h : RebuiltRuns runData nodeName groups r)
    (hr : KeepsNode nodeName r r') : RebuiltRuns runData nodeName groups r' := by
  obtain ⟨hw, hs⟩ := hr
  exact ⟨by rw [hw]; exact h.size, by simp only [runAt, hw, hs]; exact h.run,
    by simp only [runAt, hw, hs]; exact h.none⟩

/-- The size of a waiting map after a run was written to it or not. -/
theorem size_eq_of_runs {waiting waiting' : IndexMap ITaskDataConnections}
    (hruns : ∀ k' ≠ k, waiting'.get? k' = waiting.get? k') (hk : waiting.get? k = none) :
    waiting'.size = waiting.size + if (waiting'.get? k).isSome then 1 else 0 := by
  cases hk' : waiting'.get? k with
  | none =>
    have : waiting' = waiting := IndexMap.ext_get? fun k₁ => by
      by_cases h : k₁ = k
      · rw [h, hk, hk']
      · exact hruns k₁ h
    rw [this]
    rfl
  | some e =>
    have : waiting' = waiting.set k e := IndexMap.ext_get? fun k₁ => by
      rw [IndexMap.get?_set]
      split_ifs with h
      · rw [h, hk']
      · exact hruns k₁ h
    rw [this, IndexMap.size_set_of_none _ _ hk]
    rfl

theorem foldlM_addWaitingConnection (h : RebuildsRun runData nodeName k done r r₁)
    (hcs : cs.foldlM (addWaitingConnection runData nodeName k) r₁ = .ok r₂) :
    RebuildsRun runData nodeName k (done ++ cs) r r₂ := by
  induction cs generalizing done r₁ with
  | nil =>
    cases hcs
    rwa [List.append_nil]
  | cons c cs ih =>
    rw [List.foldlM_cons, Except.bind_eq_ok_iff] at hcs
    obtain ⟨r', hr', hcs⟩ := hcs
    have := ih (h.addWaitingConnection hr') hcs
    rwa [List.append_assoc] at this

theorem waitingGroups_append (runData : IRunData) (groups : List SourceConnectionGroup)
    (g : SourceConnectionGroup) : waitingGroups runData (groups ++ [g]) =
      waitingGroups runData groups ++
        if !g.complete && g.connections.any (hasIncomingData runData) then [g] else [] := by
  rw [waitingGroups, List.filter_append, ← waitingGroups, List.filter_cons, List.filter_nil]

/-- A group without data makes no waiting run. -/
theorem RebuiltRuns.skip (h : RebuiltRuns runData nodeName groups r)
    (hrun : RebuildsRun runData nodeName groups.length g.connections r r')
    (hany : g.connections.any (hasIncomingData runData) = false) :
    RebuiltRuns runData nodeName groups r' := by
  have hnone := hrun.isSome
  rw [hany, Option.isSome_eq_false_iff, Option.isSome_eq_false_iff, Option.isNone_iff_eq_none,
    Option.isNone_iff_eq_none] at hnone
  have hsame : ∀ k, runAt r'.waitingExecution nodeName k = runAt r.waitingExecution nodeName k ∧
      runAt r'.waitingExecutionSource nodeName k = runAt r.waitingExecutionSource nodeName k := by
    intro k
    by_cases hk : k = groups.length
    · obtain ⟨h₁, h₂⟩ := h.none k hk.ge
      rw [h₁, h₂, hk]
      exact hnone
    · exact hrun.runs k hk
  have hsize := size_eq_of_runs (fun k' _ => (hsame k').1) (h.none _ le_rfl).1
  refine ⟨?_, fun k g' hk => ?_, fun k hk => ?_⟩
  · rw [hsize, h.size, ← runAt, hnone.1]
    rfl
  · rw [(hsame k).1, (hsame k).2]
    exact h.run k g' hk
  · rw [(hsame k).1, (hsame k).2]
    exact h.none k hk

/-- A group with data makes the next waiting run. -/
theorem RebuiltRuns.snoc {runData : IRunData} {nodeName : String}
    {groups : List SourceConnectionGroup} {g : SourceConnectionGroup} {r r' : RecreatedStack}
    (h : RebuiltRuns runData nodeName groups r)
    (hrun : RebuildsRun runData nodeName groups.length g.connections r r')
    (hany : g.connections.any (hasIncomingData runData) = true) :
    RebuiltRuns runData nodeName (groups ++ [g]) r' := by
  obtain ⟨e, he⟩ := Option.isSome_iff_exists.1 (hrun.isSome.1.trans hany)
  obtain ⟨s, hs⟩ := Option.isSome_iff_exists.1 (hrun.isSome.2.trans hany)
  have hentry := hrun.entry
  rw [he, hs] at hentry
  have hsize := size_eq_of_runs (fun k' hk => (hrun.runs k' hk).1) (h.none _ le_rfl).1
  refine ⟨?_, fun k g' hk => ?_, fun k hk => ?_⟩
  · rw [hsize, h.size, ← runAt, he, List.length_append]
    rfl
  · rcases Nat.lt_or_ge k groups.length with hlt | hle
    · rw [List.getElem?_append_left hlt] at hk
      rw [(hrun.runs k hlt.ne).1, (hrun.runs k hlt.ne).2]
      exact h.run k g' hk
    · rw [List.getElem?_append_right hle] at hk
      obtain ⟨hlt, rfl⟩ := List.getElem?_eq_some_iff.1 hk
      obtain rfl : k = groups.length := by
        rw [List.length_singleton] at hlt
        omega
      exact ⟨e, s, he, hs, by simpa using hentry⟩
  · rw [List.length_append, List.length_singleton] at hk
    rw [(hrun.runs k (by omega)).1, (hrun.runs k (by omega)).2]
    exact h.none k (by omega)

/-- The connections of an incomplete group are read into the next waiting run. -/
theorem RebuiltRuns.rebuildsRun (h : RebuiltRuns runData startNode.name groups r)
    (hcomplete : ¬g.complete = true)
    (hg : N8n.addSourceGroup runData pinData startNode r g = .ok r') :
    g.connections.foldlM (addWaitingConnection runData startNode.name groups.length) r = .ok r' ∧
      RebuildsRun runData startNode.name groups.length g.connections r r' := by
  have hsize : ((r.waitingExecution.get? startNode.name).map IndexMap.size).getD 0 =
      groups.length := by
    rw [← h.size]
    cases r.waitingExecution.get? startNode.name <;> rfl
  rw [N8n.addSourceGroup, if_neg hcomplete, hsize] at hg
  obtain ⟨hnone, hnone'⟩ := h.none _ le_rfl
  have hstart : RebuildsRun runData startNode.name groups.length [] r r :=
    ⟨rfl, fun _ _ => ⟨rfl, rfl⟩, fun _ _ => ⟨rfl, rfl⟩, by simp [hnone, hnone'],
      by rw [hnone, hnone']; exact rebuiltEntry_nil runData⟩
  have hrun := foldlM_addWaitingConnection hstart hg
  rw [List.nil_append] at hrun
  exact ⟨hg, hrun⟩

/-- A group makes a waiting run of its start node, if it is incomplete and has data. -/
theorem RebuiltRuns.addSourceGroup
    (h : RebuiltRuns runData startNode.name (waitingGroups runData groups) r)
    (hg : N8n.addSourceGroup runData pinData startNode r g = .ok r') :
    RebuiltRuns runData startNode.name (waitingGroups runData (groups ++ [g])) r' ∧
      ∀ nodeName ≠ startNode.name, KeepsNode nodeName r r' := by
  rw [waitingGroups_append]
  by_cases hcomplete : g.complete = true
  · rw [N8n.addSourceGroup, if_pos hcomplete, Except.bind_eq_ok_iff] at hg
    obtain ⟨_, -, hg⟩ := hg
    cases hg
    refine ⟨?_, fun _ _ => ⟨rfl, rfl⟩⟩
    rw [hcomplete, Bool.not_true, Bool.false_and, if_neg Bool.false_ne_true, List.append_nil]
    exact h.congr ⟨rfl, rfl⟩
  · obtain ⟨-, hrun⟩ := h.rebuildsRun hcomplete hg
    refine ⟨?_, hrun.nodes⟩
    rw [Bool.not_eq_true] at hcomplete
    rw [hcomplete, Bool.not_false, Bool.true_and]
    split_ifs with hany
    · exact h.snoc hrun hany
    · rw [List.append_nil]
      exact h.skip hrun (by simpa using hany)

theorem foldlM_addSourceGroup (done : List SourceConnectionGroup)
    (h : RebuiltRuns runData startNode.name (waitingGroups runData done) r)
    (hg : groups.foldlM (addSourceGroup runData pinData startNode) r = .ok r') :
    RebuiltRuns runData startNode.name (waitingGroups runData (done ++ groups)) r' ∧
      ∀ nodeName ≠ startNode.name, KeepsNode nodeName r r' := by
  induction groups generalizing done r with
  | nil =>
    cases hg
    rw [List.append_nil]
    exact ⟨h, fun _ _ => ⟨rfl, rfl⟩⟩
  | cons g groups ih =>
    rw [List.foldlM_cons, Except.bind_eq_ok_iff] at hg
    obtain ⟨r₁, hr₁, hg⟩ := hg
    obtain ⟨h₁, hkeeps₁⟩ := h.addSourceGroup hr₁
    obtain ⟨h₂, hkeeps₂⟩ := ih _ h₁ hg
    rw [List.append_assoc] at h₂
    refine ⟨h₂, fun nodeName hne => ?_⟩
    obtain ⟨hw₁, hs₁⟩ := hkeeps₁ nodeName hne
    obtain ⟨hw₂, hs₂⟩ := hkeeps₂ nodeName hne
    exact ⟨hw₂.trans hw₁, hs₂.trans hs₁⟩

/-! ### The start nodes -/

/-- The groups of a start node: none when no main connection enters it. -/
def sourceGroupsOf (localeCompare : String → String → ℤ) (graph : DirectedGraph)
    (runData : IRunData) (pinData : IPinData) (startNode : INode) :
    Except JsError (List SourceConnectionGroup) :=
  if (graph.parentConnections startNode).filter (·.type = .main) = [] then .ok []
  else getSourceDataGroups localeCompare graph startNode runData pinData

theorem addStartNode_rebuilt (hw : r.waitingExecution.get? startNode.name = none)
    (hs : r.waitingExecutionSource.get? startNode.name = none)
    (h : addStartNode localeCompare graph runData pinData r startNode = .ok r') :
    (∃ groups, sourceGroupsOf localeCompare graph runData pinData startNode = .ok groups ∧
      RebuiltRuns runData startNode.name (waitingGroups runData groups) r') ∧
    ∀ nodeName ≠ startNode.name, KeepsNode nodeName r r' := by
  rw [addStartNode, Except.bind_eq_ok_iff] at h
  obtain ⟨parents, hparents, h⟩ := h
  obtain ⟨-, rfl⟩ := DirectedGraph.getDirectParentConnections_eq_ok_iff.1 hparents
  have hnil := rebuiltRuns_nil runData hw hs
  rw [sourceGroupsOf]
  split_ifs at h ⊢ with hmain
  · cases h
    exact ⟨⟨[], rfl, hnil.congr ⟨rfl, rfl⟩⟩, fun _ _ => ⟨rfl, rfl⟩⟩
  · rw [Except.bind_eq_ok_iff] at h
    obtain ⟨groups, hgroups, h⟩ := h
    obtain ⟨hrebuilt, hkeeps⟩ := foldlM_addSourceGroup [] hnil h
    exact ⟨⟨groups, hgroups, hrebuilt⟩, hkeeps⟩

theorem mem_getNodes_of_foldlM
    (h : startNodes.foldlM (addStartNode localeCompare graph runData pinData) r = .ok r') :
    ∀ n ∈ startNodes, n ∈ graph.getNodes := by
  intro n hn
  obtain ⟨r₁, r₂, hr⟩ := Except.exists_of_foldlM_eq_ok h n hn
  rw [addStartNode, Except.bind_eq_ok_iff] at hr
  obtain ⟨parents, hparents, -⟩ := hr
  exact (DirectedGraph.getDirectParentConnections_eq_ok_iff.1 hparents).1

/-- The waiting runs of a start node are made when it is reached, and kept afterwards. -/
theorem foldlM_addStartNode (hnames : (startNodes.map INode.name).Nodup)
    (hnone : ∀ n ∈ startNodes, r.waitingExecution.get? n.name = none ∧
      r.waitingExecutionSource.get? n.name = none)
    (h : startNodes.foldlM (addStartNode localeCompare graph runData pinData) r = .ok r') :
    (∀ nodeName, nodeName ∉ startNodes.map INode.name → KeepsNode nodeName r r') ∧
    ∀ n ∈ startNodes, ∃ r₀ r₁, r₀.waitingExecution.get? n.name = none ∧
      r₀.waitingExecutionSource.get? n.name = none ∧
      addStartNode localeCompare graph runData pinData r₀ n = .ok r₁ ∧ KeepsNode n.name r₁ r' := by
  induction startNodes generalizing r with
  | nil =>
    cases h
    exact ⟨fun _ _ => ⟨rfl, rfl⟩, fun n hn => absurd hn List.not_mem_nil⟩
  | cons n startNodes ih =>
    rw [List.foldlM_cons, Except.bind_eq_ok_iff] at h
    obtain ⟨r₁, hr₁, h⟩ := h
    obtain ⟨hn, hnames⟩ := List.nodup_cons.1 hnames
    obtain ⟨⟨hw, hs⟩, hnone⟩ := List.forall_mem_cons.1 hnone
    obtain ⟨-, hkeeps₁⟩ := addStartNode_rebuilt hw hs hr₁
    have hnone₁ : ∀ n' ∈ startNodes, r₁.waitingExecution.get? n'.name = none ∧
        r₁.waitingExecutionSource.get? n'.name = none := by
      intro n' hn'
      obtain ⟨hw₁, hs₁⟩ := hkeeps₁ n'.name fun heq => hn (heq ▸ List.mem_map_of_mem hn')
      rw [hw₁, hs₁]
      exact hnone n' hn'
    obtain ⟨hkeeps₂, hrest⟩ := ih hnames hnone₁ h
    refine ⟨fun nodeName hnot => ?_,
      List.forall_mem_cons.2 ⟨⟨r, r₁, hw, hs, hr₁, hkeeps₂ _ hn⟩, hrest⟩⟩
    rw [List.map_cons, List.mem_cons, not_or] at hnot
    obtain ⟨hw₁, hs₁⟩ := hkeeps₁ nodeName hnot.1
    obtain ⟨hw₂, hs₂⟩ := hkeeps₂ nodeName hnot.2
    exact ⟨hw₂.trans hw₁, hs₂.trans hs₁⟩

theorem recreateNodeExecutionStack_eq_ok (hnodup : startNodes.Nodup)
    (h : recreateNodeExecutionStack localeCompare graph startNodes runData pinData = .ok r) :
    (∀ nodeName, nodeName ∉ startNodes.map INode.name → KeepsNode nodeName {} r) ∧
    ∀ n ∈ startNodes, ∃ r₀ r₁, r₀.waitingExecution.get? n.name = none ∧
      r₀.waitingExecutionSource.get? n.name = none ∧
      addStartNode localeCompare graph runData pinData r₀ n = .ok r₁ ∧ KeepsNode n.name r₁ r := by
  rw [recreateNodeExecutionStack] at h
  split_ifs at h
  have hmem := mem_getNodes_of_foldlM h
  have hnames : (startNodes.map INode.name).Nodup := by
    refine hnodup.map_on fun n hn n' hn' heq => ?_
    exact DirectedGraph.eq_of_name_eq (hmem n hn) (hmem n' hn') heq
  exact foldlM_addStartNode hnames (fun _ _ => ⟨rfl, rfl⟩) h

/-- **The waiting runs of a start node** are made by its incomplete groups with data. -/
theorem recreateNodeExecutionStack_rebuilt (hnodup : startNodes.Nodup)
    (h : recreateNodeExecutionStack localeCompare graph startNodes runData pinData = .ok r)
    (hstart : startNode ∈ startNodes) :
    ∃ groups, sourceGroupsOf localeCompare graph runData pinData startNode = .ok groups ∧
      RebuiltRuns runData startNode.name (waitingGroups runData groups) r := by
  obtain ⟨r₀, r₁, hw, hs, hr₁, hkeeps⟩ :=
    (recreateNodeExecutionStack_eq_ok hnodup h).2 startNode hstart
  obtain ⟨⟨groups, hgroups, hrebuilt⟩, -⟩ := addStartNode_rebuilt hw hs hr₁
  exact ⟨groups, hgroups, hrebuilt.congr hkeeps⟩

end N8n
