import N8n.Engine.KeptInPlace

/-!
# When rebuilt waiting runs name where their data came from

* `slotAt`: what is stored for an input of a waiting run;
* `NamesItsData`: every list that is stored is the one that its source names;
* `FillsWhatIsKnown`: every connection of an incomplete group that brings data is filled;
* `FilledRun`: what the connections of one group leave in their waiting run;
* `recreateNodeExecutionStack_namesItsData_iff`: the exact condition on the run data and the pin
  data.
-/

namespace N8n

/-! ### What a waiting run is to hold -/

/-- What is stored for an input of a waiting run. -/
def slotAt {α : Type} (waiting : Dict String (IndexMap (Dict NodeConnectionType (SparseArray α))))
    (nodeName : String) (k : ℕ) (type : NodeConnectionType) (i : ℕ) : Option α :=
  ((runAt waiting nodeName k).bind (·.get? type)).bind (SparseArray.getAt · i)

section Purpose

variable (runData : IRunData) (pinData : IPinData)

/-- The list is what the run that a source names recorded on the output that it names, or what its
node is pinned with. -/
def IsDataOf (type : NodeConnectionType) (items : List INodeExecutionData) : ISourceData → Prop
  | ⟨previousNode, previousNodeOutput, previousNodeRun⟩ =>
    (∃ outputIndex runIndex, previousNodeOutput = some outputIndex ∧
      previousNodeRun = some runIndex ∧
        recordedItems runData previousNode runIndex type outputIndex = items) ∨
      pinData.get? previousNode = some items

/-- Every list that is stored comes with a source that names it. -/
def NamesItsData (r : RecreatedStack) : Prop :=
  ∀ nodeName k type i cell, slotAt r.waitingExecution nodeName k type i = some cell →
    ∃ items source, cell = .items items ∧
      slotAt r.waitingExecutionSource nodeName k type i = some (some source) ∧
      IsDataOf runData pinData type items source

/-- Some waiting run of the node holds data that come from a connection. -/
def Filled (nodeName : String) (c : GraphConnection) (r : RecreatedStack) : Prop :=
  ∃ k cell runIndex, slotAt r.waitingExecution nodeName k c.type c.inputIndex = some cell ∧
    slotAt r.waitingExecutionSource nodeName k c.type c.inputIndex =
      some (some ⟨c.fromNode.name, some c.outputIndex, some runIndex⟩)

/-- Run `j` of the source is the first with items on the output of a connection. -/
def FirstWithItems (c : GraphConnection) (j : ℕ) : Prop :=
  recordedItems runData c.fromNode.name j c.type c.outputIndex ≠ [] ∧
    ∀ j' < j, recordedItems runData c.fromNode.name j' c.type c.outputIndex = []

variable (localeCompare : String → String → ℤ) (graph : DirectedGraph)

/-- Every connection of an incomplete group of a start node is filled if its source is pinned or has
items on its output. -/
def FillsWhatIsKnown (startNodes : List INode) (r : RecreatedStack) : Prop :=
  ∀ startNode ∈ startNodes, ∀ groups,
    sourceGroupsOf localeCompare graph runData pinData startNode = .ok groups →
      ∀ g ∈ groups, g.complete = false → ∀ c ∈ g.connections, Brings runData pinData c →
        Filled startNode.name c r

/-- For a connection into the waiting run with number `k`, run `k` of its source recorded what the
first run with items on the output recorded, or the source is pinned with it. -/
def NumberedAlike (k : ℕ) (c : GraphConnection) : Prop :=
  ∀ j, FirstWithItems runData c j →
    recordedItems runData c.fromNode.name k c.type c.outputIndex =
        recordedItems runData c.fromNode.name j c.type c.outputIndex ∨
      pinData.get? c.fromNode.name =
        some (recordedItems runData c.fromNode.name j c.type c.outputIndex)

/-- A source that is pinned has items on the output as well. -/
def RanIfPinned (c : GraphConnection) : Prop :=
  pinData.has c.fromNode.name → ∃ j, FirstWithItems runData c j

/-- The groups of a start node make waiting runs with the numbers of the runs that their data come
from, and no connection of an incomplete group has pin data only. -/
def KnownByRuns (startNode : INode) : Prop :=
  ∀ groups, sourceGroupsOf localeCompare graph runData pinData startNode = .ok groups →
    (∀ k g, (waitingGroups runData groups)[k]? = some g →
      ∀ c ∈ g.connections, NumberedAlike runData pinData k c) ∧
    ∀ g ∈ groups, g.complete = false → ∀ c ∈ g.connections, RanIfPinned runData pinData c

end Purpose

variable {runData : IRunData} {pinData : IPinData}

/-! ### Slots -/

variable {α : Type} {nodeName : String} {k : ℕ} {c : GraphConnection} {cs : List GraphConnection}
  {r r' : RecreatedStack} {startNode : INode} {groups : List SourceConnectionGroup}

theorem slotAt_setWaitingSlot
    (waiting : Dict String (IndexMap (Dict NodeConnectionType (SparseArray α))))
    (nodeName : String) (k k' : ℕ) (t t' : NodeConnectionType) (i i' : ℕ) (a : α) :
    slotAt (setWaitingSlot waiting nodeName k t i a) nodeName k' t' i' =
      if k' = k ∧ t' = t ∧ i' = i then some a else slotAt waiting nodeName k' t' i' := by
  rw [slotAt, runAt_setWaitingSlot, slotAt]
  by_cases hk : k' = k
  · subst hk
    rw [if_pos rfl, Option.bind_some]
    by_cases ht : t' = t
    · subst ht
      rw [Dict.get?_set_self, Option.bind_some, SparseArray.getAt_setAt]
      by_cases hi : i' = i
      · simp [hi]
      · simp only [hi, and_false, if_false]
        cases runAt waiting nodeName k' with
        | none => simp
        | some e => cases hget : e.get? t' <;> simp [hget]
    · rw [Dict.get?_set_ne _ _ ht]
      simp only [ht, false_and, and_false, if_false]
      cases runAt waiting nodeName k' <;> simp
  · simp [hk]

variable {waiting : Dict String (IndexMap (Dict NodeConnectionType (SparseArray α)))}
  {g : SourceConnectionGroup} {localeCompare : String → String → ℤ} {graph : DirectedGraph}

theorem slotAt_congr {waiting' : Dict String (IndexMap (Dict NodeConnectionType (SparseArray α)))}
    (h : runAt waiting' nodeName k = runAt waiting nodeName k) (t : NodeConnectionType) (i : ℕ) :
    slotAt waiting' nodeName k t i = slotAt waiting nodeName k t i := by
  rw [slotAt, h, slotAt]

theorem slotAt_of_runAt_eq_none (h : runAt waiting nodeName k = none) (t : NodeConnectionType)
    (i : ℕ) : slotAt waiting nodeName k t i = none := by
  rw [slotAt, h]
  rfl

/-! ### The first run with items -/

theorem FirstWithItems.unique {j j' : ℕ} (h : FirstWithItems runData c j)
    (h' : FirstWithItems runData c j') : j = j' := by
  rcases Nat.lt_trichotomy j j' with hlt | heq | hgt
  · exact absurd (h'.2 j hlt) h.1
  · exact heq
  · exact absurd (h.2 j' hgt) h'.1

/-- What the search through the runs finds. -/
theorem firstWithItems_of_getIncomingDataFromAnyRun {found : Option (List INodeExecutionData × ℕ)}
    (h : getIncomingDataFromAnyRun runData c.fromNode.name c.type c.outputIndex = .ok found) :
    (∀ p ∈ found, FirstWithItems runData c p.2 ∧
      recordedItems runData c.fromNode.name p.2 c.type c.outputIndex = p.1) ∧
    (found = none → ∀ j, ¬FirstWithItems runData c j) := by
  refine ⟨fun p hp => ?_, fun hnone j hj => ?_⟩
  · rw [Option.mem_def] at hp
    subst hp
    obtain ⟨hne, hitems⟩ := (recordedItems_of_findIncomingData h).1 p rfl
    refine ⟨⟨hitems ▸ hne, fun j hj => ?_⟩, hitems⟩
    rcases Nat.lt_or_ge j (getRunIndexLength runData c.fromNode.name) with hlt | hge
    · exact recordedItems_of_lt_found List.pairwise_lt_range h j (List.mem_range.2 hlt) hj
    · exact recordedItems_of_le hge c.type c.outputIndex
  · subst hnone
    exact hj.1 (recordedItems_of_getIncomingDataFromAnyRun h j)

/-- The source of a connection that brings data is pinned, or one run is the first with items. -/
theorem brings_iff : Brings runData pinData c ↔
    pinData.has c.fromNode.name ∨ ∃ j, FirstWithItems runData c j := by
  refine or_congr_right ⟨fun h => ?_, fun ⟨j, hj⟩ => ⟨j, hj.1⟩⟩
  classical
  exact ⟨Nat.find h, Nat.find_spec h, fun j hj => not_not.1 (Nat.find_min h hj)⟩

/-! ### What a group leaves in its waiting run -/

/-- Run `k` of the node holds what the first run with items of each source recorded, under the
number `k`, and nothing else. -/
structure FilledRun (runData : IRunData) (nodeName : String) (k : ℕ) (cs : List GraphConnection)
    (r : RecreatedStack) : Prop where
  stored : ∀ c ∈ cs, ∀ j, FirstWithItems runData c j →
    slotAt r.waitingExecution nodeName k c.type c.inputIndex =
        some (.items (recordedItems runData c.fromNode.name j c.type c.outputIndex)) ∧
      slotAt r.waitingExecutionSource nodeName k c.type c.inputIndex =
        some (some ⟨c.fromNode.name, some c.outputIndex, some k⟩)
  origin : ∀ type i cell, slotAt r.waitingExecution nodeName k type i = some cell →
    ∃ c ∈ cs, c.type = type ∧ c.inputIndex = i ∧ ∃ j, FirstWithItems runData c j

theorem FilledRun.congr (h : FilledRun runData nodeName k cs r)
    (hw : runAt r'.waitingExecution nodeName k = runAt r.waitingExecution nodeName k)
    (hs : runAt r'.waitingExecutionSource nodeName k = runAt r.waitingExecutionSource nodeName k) :
    FilledRun runData nodeName k cs r' := by
  refine ⟨fun c hc j hj => ?_, fun type i cell hcell => ?_⟩
  · rw [slotAt_congr hw, slotAt_congr hs]
    exact h.stored c hc j hj
  · rw [slotAt_congr hw] at hcell
    exact h.origin type i cell hcell

/-- Reading one more connection, which enters an input of its own. -/
theorem FilledRun.addWaitingConnection (h : FilledRun runData nodeName k cs r)
    (hnew : ∀ c' ∈ cs, c'.inputIndex ≠ c.inputIndex)
    (hc : N8n.addWaitingConnection runData nodeName k r c = .ok r') :
    FilledRun runData nodeName k (cs ++ [c]) r' := by
  rw [N8n.addWaitingConnection, Except.bind_eq_ok_iff] at hc
  obtain ⟨found, hfound, hc⟩ := hc
  obtain ⟨hsome, hnone⟩ := firstWithItems_of_getIncomingDataFromAnyRun hfound
  cases found with
  | none =>
    cases hc
    refine ⟨fun c' hc' j hj => ?_, fun type i cell hcell => ?_⟩
    · rcases List.mem_append.1 hc' with hc' | hc'
      · exact h.stored c' hc' j hj
      · rw [List.mem_singleton.1 hc'] at hj
        exact absurd hj (hnone rfl j)
    · obtain ⟨c', hc', horigin⟩ := h.origin type i cell hcell
      exact ⟨c', List.mem_append_left _ hc', horigin⟩
  | some p =>
    obtain ⟨items, j₀⟩ := p
    cases hc
    obtain ⟨hfirst, hitems⟩ := hsome _ rfl
    refine ⟨fun c' hc' j hj => ?_, fun type i cell hcell => ?_⟩
    · simp only [addWaitingExecution, addWaitingExecutionSource, slotAt_setWaitingSlot, true_and]
      rcases List.mem_append.1 hc' with hc' | hc'
      · have hne : ¬(c'.type = c.type ∧ c'.inputIndex = c.inputIndex) := fun h =>
          hnew c' hc' h.2
        rw [if_neg hne, if_neg hne]
        exact h.stored c' hc' j hj
      · rw [List.mem_singleton.1 hc'] at hj ⊢
        rw [hj.unique hfirst, hitems]
        simp
    · rw [addWaitingExecution, slotAt_setWaitingSlot] at hcell
      split_ifs at hcell with heq
      · exact ⟨c, by simp, heq.2.1.symm, heq.2.2.symm, j₀, hfirst⟩
      · obtain ⟨c', hc', horigin⟩ := h.origin type i cell hcell
        exact ⟨c', List.mem_append_left _ hc', horigin⟩

/-- The connections of a group fill a waiting run that is not there yet. -/
theorem foldlM_addWaitingConnection_filled
    (hdistinct : cs.Pairwise fun c c' => c.inputIndex ≠ c'.inputIndex)
    (hnone : runAt r.waitingExecution nodeName k = none)
    (h : cs.foldlM (addWaitingConnection runData nodeName k) r = .ok r') :
    FilledRun runData nodeName k cs r' := by
  induction cs using List.reverseRecOn generalizing r' with
  | nil =>
    cases h
    refine ⟨fun c hc => absurd hc List.not_mem_nil, fun type i cell hcell => ?_⟩
    rw [slotAt_of_runAt_eq_none hnone] at hcell
    cases hcell
  | append_singleton cs c ih =>
    rw [Except.foldlM_concat_eq_ok_iff] at h
    obtain ⟨r₁, h₁, h⟩ := h
    obtain ⟨hdistinct, -, hnew⟩ := List.pairwise_append.1 hdistinct
    exact (ih hdistinct h₁).addWaitingConnection (fun c' hc' => hnew c' hc' c (by simp)) h

/-- Each waiting run of a node is filled by its group. -/
def FilledRuns (runData : IRunData) (nodeName : String) (groups : List SourceConnectionGroup)
    (r : RecreatedStack) : Prop :=
  ∀ k g, groups[k]? = some g → FilledRun runData nodeName k g.connections r

/-- A group fills the next waiting run of its start node, if it makes one. -/
theorem FilledRuns.addSourceGroup
    (h : FilledRuns runData startNode.name (waitingGroups runData groups) r)
    (hrebuilt : RebuiltRuns runData startNode.name (waitingGroups runData groups) r)
    (hconsecutive : Consecutive g.connections)
    (hg : N8n.addSourceGroup runData pinData startNode r g = .ok r') :
    FilledRuns runData startNode.name (waitingGroups runData (groups ++ [g])) r' := by
  rw [waitingGroups_append]
  by_cases hcomplete : g.complete = true
  · rw [N8n.addSourceGroup, if_pos hcomplete, Except.bind_eq_ok_iff] at hg
    obtain ⟨_, -, hg⟩ := hg
    cases hg
    rw [hcomplete, Bool.not_true, Bool.false_and, if_neg Bool.false_ne_true, List.append_nil]
    exact fun k g' hk => (h k g' hk).congr rfl rfl
  · obtain ⟨hfold, hrun⟩ := hrebuilt.rebuildsRun hcomplete hg
    obtain ⟨hnone, -⟩ := hrebuilt.none _ le_rfl
    have hfilled := foldlM_addWaitingConnection_filled hconsecutive.pairwise hnone hfold
    intro k g' hk
    rcases Nat.lt_or_ge k (waitingGroups runData groups).length with hlt | hge
    · rw [List.getElem?_append_left hlt] at hk
      obtain ⟨hw, hs⟩ := hrun.runs k hlt.ne
      exact (h k g' hk).congr hw hs
    · rw [List.getElem?_append_right hge] at hk
      split_ifs at hk with hany
      · obtain ⟨hlt, rfl⟩ := List.getElem?_eq_some_iff.1 hk
        rw [List.length_singleton] at hlt
        obtain rfl : k = (waitingGroups runData groups).length := by omega
        simpa using hfilled
      · cases hk

theorem foldlM_addSourceGroup_filled {done : List SourceConnectionGroup}
    (hconsecutive : ∀ g ∈ groups, Consecutive g.connections)
    (h : FilledRuns runData startNode.name (waitingGroups runData done) r)
    (hrebuilt : RebuiltRuns runData startNode.name (waitingGroups runData done) r)
    (hg : groups.foldlM (addSourceGroup runData pinData startNode) r = .ok r') :
    FilledRuns runData startNode.name (waitingGroups runData (done ++ groups)) r' := by
  induction groups generalizing done r with
  | nil =>
    cases hg
    rwa [List.append_nil]
  | cons g groups ih =>
    rw [List.foldlM_cons, Except.bind_eq_ok_iff] at hg
    obtain ⟨r₁, hr₁, hg⟩ := hg
    obtain ⟨hgc, hconsecutive⟩ := List.forall_mem_cons.1 hconsecutive
    have := ih hconsecutive (h.addSourceGroup hrebuilt hgc hr₁) (hrebuilt.addSourceGroup hr₁).1 hg
    rwa [List.append_assoc] at this

/-! ### All waiting runs -/

/-- The connections of the incomplete groups could be looked up. -/
theorem getIncomingDataFromAnyRun_of_foldlM
    (h : groups.foldlM (addSourceGroup runData pinData startNode) r = .ok r') :
    ∀ g ∈ groups, g.complete = false → ∀ c ∈ g.connections, ∃ found,
      getIncomingDataFromAnyRun runData c.fromNode.name c.type c.outputIndex = .ok found := by
  intro g hg hcomplete c hc
  obtain ⟨r₁, r₂, hr⟩ := Except.exists_of_foldlM_eq_ok h g hg
  rw [addSourceGroup, hcomplete, if_neg Bool.false_ne_true] at hr
  obtain ⟨r₃, r₄, hr'⟩ := Except.exists_of_foldlM_eq_ok hr c hc
  obtain ⟨found, hfound, -⟩ := Except.bind_eq_ok_iff.1 hr'
  exact ⟨found, hfound⟩

theorem hasIncomingData_iff (h : ∃ found,
      getIncomingDataFromAnyRun runData c.fromNode.name c.type c.outputIndex = .ok found) :
    hasIncomingData runData c = true ↔ ∃ j, FirstWithItems runData c j := by
  obtain ⟨found, hfound⟩ := h
  obtain ⟨hsome, hnone⟩ := firstWithItems_of_getIncomingDataFromAnyRun hfound
  rw [hasIncomingData, hfound]
  cases found with
  | none =>
    refine iff_of_false Bool.false_ne_true ?_
    rintro ⟨j, hj⟩
    exact hnone rfl j hj
  | some p => exact iff_of_true rfl ⟨p.2, (hsome p rfl).1⟩

/-- What the groups of a start node leave in its waiting runs. -/
structure FilledBy (runData : IRunData) (nodeName : String) (groups : List SourceConnectionGroup)
    (r : RecreatedStack) : Prop where
  runs : FilledRuns runData nodeName (waitingGroups runData groups) r
  origin : ∀ k type i cell, slotAt r.waitingExecution nodeName k type i = some cell →
    ∃ g, (waitingGroups runData groups)[k]? = some g
  numbered : ∀ g ∈ groups, g.complete = false → ∀ c ∈ g.connections,
    (∃ j, FirstWithItems runData c j) → ∃ k : ℕ, (waitingGroups runData groups)[k]? = some g

theorem addStartNode_filledBy (hw : r.waitingExecution.get? startNode.name = none)
    (hs : r.waitingExecutionSource.get? startNode.name = none)
    (h : addStartNode localeCompare graph runData pinData r startNode = .ok r') :
    ∃ groups, sourceGroupsOf localeCompare graph runData pinData startNode = .ok groups ∧
      FilledBy runData startNode.name groups r' := by
  obtain ⟨⟨groups, hgroups, hrebuilt⟩, -⟩ := addStartNode_rebuilt hw hs h
  refine ⟨groups, hgroups, ?_⟩
  have horigin : ∀ k type i cell, slotAt r'.waitingExecution startNode.name k type i = some cell →
      ∃ g, (waitingGroups runData groups)[k]? = some g := by
    intro k type i cell hcell
    rcases Nat.lt_or_ge k (waitingGroups runData groups).length with hlt | hge
    · exact ⟨_, List.getElem?_eq_getElem hlt⟩
    · rw [slotAt_of_runAt_eq_none (hrebuilt.none k hge).1] at hcell
      cases hcell
  rw [addStartNode, Except.bind_eq_ok_iff] at h
  obtain ⟨parents, hparents, h⟩ := h
  obtain ⟨-, rfl⟩ := DirectedGraph.getDirectParentConnections_eq_ok_iff.1 hparents
  rw [sourceGroupsOf] at hgroups
  split_ifs at h hgroups with hmain
  · cases hgroups
    exact ⟨fun k g hk => by simp [waitingGroups] at hk, horigin,
      fun g hg => absurd hg List.not_mem_nil⟩
  · rw [hgroups] at h
    refine ⟨?_, horigin, fun g hg hcomplete c hc hfirst => ?_⟩
    · have hfilled : FilledRuns runData startNode.name (waitingGroups runData []) r :=
        fun k g hk => by simp [waitingGroups] at hk
      exact foldlM_addSourceGroup_filled (getSourceDataGroups_consecutive hgroups) hfilled
        (rebuiltRuns_nil runData hw hs) h
    · refine List.mem_iff_getElem?.1 (List.mem_filter.2 ⟨hg, ?_⟩)
      rw [hcomplete, Bool.not_false, Bool.true_and, List.any_eq_true]
      have hfound := getIncomingDataFromAnyRun_of_foldlM h g hg hcomplete c hc
      exact ⟨c, hc, (hasIncomingData_iff hfound).2 hfirst⟩

/-- **What is stored for a start node** belongs to the waiting run of one of its groups. -/
theorem recreateNodeExecutionStack_filledBy {startNodes : List INode} (hnodup : startNodes.Nodup)
    (h : recreateNodeExecutionStack localeCompare graph startNodes runData pinData = .ok r)
    (hstart : startNode ∈ startNodes) :
    ∃ groups, sourceGroupsOf localeCompare graph runData pinData startNode = .ok groups ∧
      FilledBy runData startNode.name groups r := by
  obtain ⟨r₀, r₁, hw, hs, hr₁, hkeeps⟩ :=
    (recreateNodeExecutionStack_eq_ok hnodup h).2 startNode hstart
  obtain ⟨groups, hgroups, hfilled⟩ := addStartNode_filledBy hw hs hr₁
  have hruns : ∀ k, runAt r.waitingExecution startNode.name k =
        runAt r₁.waitingExecution startNode.name k ∧
      runAt r.waitingExecutionSource startNode.name k =
        runAt r₁.waitingExecutionSource startNode.name k := fun k => by
    simp only [runAt, hkeeps.1, hkeeps.2, and_self]
  refine ⟨groups, hgroups, fun k g hk => (hfilled.runs k g hk).congr (hruns k).1 (hruns k).2, ?_,
    hfilled.numbered⟩
  intro k type i cell hcell
  rw [slotAt_congr (hruns k).1] at hcell
  exact hfilled.origin k type i cell hcell

/-! ### The exact condition -/

/-- The lists stored for one start node come with sources that name them. -/
theorem FilledBy.isDataOf_iff (h : FilledBy runData nodeName groups r) :
    (∀ k type i cell, slotAt r.waitingExecution nodeName k type i = some cell →
      ∃ items source, cell = .items items ∧
        slotAt r.waitingExecutionSource nodeName k type i = some (some source) ∧
        IsDataOf runData pinData type items source) ↔
      ∀ k g, (waitingGroups runData groups)[k]? = some g →
        ∀ c ∈ g.connections, NumberedAlike runData pinData k c := by
  constructor
  · intro hdata k g hk c hc j hj
    obtain ⟨hcell, hsource⟩ := (h.runs k g hk).stored c hc j hj
    obtain ⟨items, source, hitems, hsource', hof⟩ := hdata k _ _ _ hcell
    rw [hsource, Option.some.injEq, Option.some.injEq] at hsource'
    cases hitems
    subst hsource'
    rcases hof with ⟨outputIndex, runIndex, hout, hrun, hof⟩ | hof
    · cases hout
      cases hrun
      exact Or.inl hof
    · exact Or.inr hof
  · intro hall k type i cell hcell
    obtain ⟨g, hk⟩ := h.origin k type i cell hcell
    obtain ⟨c, hc, rfl, rfl, j, hj⟩ := (h.runs k g hk).origin type i cell hcell
    obtain ⟨hcell', hsource⟩ := (h.runs k g hk).stored c hc j hj
    rw [hcell, Option.some.injEq] at hcell'
    refine ⟨_, _, hcell', hsource, ?_⟩
    rcases hall k g hk c hc j hj with hof | hof
    · exact Or.inl ⟨_, _, rfl, rfl, hof⟩
    · exact Or.inr hof

/-- A connection of an incomplete group is filled exactly when some run has items on its output. -/
theorem FilledBy.filled_iff (h : FilledBy runData nodeName groups r) (hg : g ∈ groups)
    (hcomplete : g.complete = false) (hc : c ∈ g.connections) :
    Filled nodeName c r ↔ ∃ j, FirstWithItems runData c j := by
  constructor
  · rintro ⟨k, cell, runIndex, hcell, hsource⟩
    obtain ⟨g', hk⟩ := h.origin k _ _ cell hcell
    obtain ⟨c', hc', htype, hinput, j, hj⟩ := (h.runs k g' hk).origin _ _ cell hcell
    obtain ⟨-, hsource'⟩ := (h.runs k g' hk).stored c' hc' j hj
    rw [htype, hinput, hsource] at hsource'
    simp only [Option.some.injEq, ISourceData.mk.injEq] at hsource'
    rw [FirstWithItems, ← hsource'.1, ← hsource'.2.1, htype] at hj
    exact ⟨j, hj⟩
  · rintro ⟨j, hj⟩
    obtain ⟨k, hk⟩ := h.numbered g hg hcomplete c hc ⟨j, hj⟩
    obtain ⟨hcell, hsource⟩ := (h.runs k g hk).stored c hc j hj
    exact ⟨k, _, k, hcell, hsource⟩

/-- **The waiting runs name where their data came from, and hold all data that are known**, exactly
when each has the number of the run that its data are from, or of one with the same items, and no
connection of an incomplete group has pin data only. -/
theorem recreateNodeExecutionStack_namesItsData_iff {localeCompare : String → String → ℤ}
    {graph : DirectedGraph} {startNodes : List INode} {runData : IRunData} {pinData : IPinData}
    {r : RecreatedStack} (hnodup : startNodes.Nodup)
    (h : recreateNodeExecutionStack localeCompare graph startNodes runData pinData = .ok r) :
    NamesItsData runData pinData r ∧
        FillsWhatIsKnown runData pinData localeCompare graph startNodes r ↔
      ∀ startNode ∈ startNodes, KnownByRuns runData pinData localeCompare graph startNode := by
  constructor
  · rintro ⟨hnames, hfills⟩ startNode hstart groups hgroups
    obtain ⟨groups', hgroups', hfilled⟩ := recreateNodeExecutionStack_filledBy hnodup h hstart
    obtain rfl : groups = groups' := Except.ok.inj (hgroups.symm.trans hgroups')
    refine ⟨hfilled.isDataOf_iff.1 (hnames startNode.name), fun g hg hcomplete c hc hpin => ?_⟩
    exact (hfilled.filled_iff hg hcomplete hc).1
      (hfills startNode hstart groups hgroups g hg hcomplete c hc (Or.inl hpin))
  · intro hall
    refine ⟨fun nodeName => ?_, fun startNode hstart groups hgroups g hg hcomplete c hc hbrings => ?_⟩
    · by_cases hname : nodeName ∈ startNodes.map INode.name
      · obtain ⟨startNode, hstart, rfl⟩ := List.mem_map.1 hname
        obtain ⟨groups, hgroups, hfilled⟩ := recreateNodeExecutionStack_filledBy hnodup h hstart
        exact hfilled.isDataOf_iff.2 (hall startNode hstart groups hgroups).1
      · intro k type i cell hcell
        obtain ⟨hw, -⟩ := (recreateNodeExecutionStack_eq_ok hnodup h).1 nodeName hname
        rw [slotAt, runAt, hw] at hcell
        cases hcell
    · obtain ⟨groups', hgroups', hfilled⟩ := recreateNodeExecutionStack_filledBy hnodup h hstart
      obtain rfl : groups = groups' := Except.ok.inj (hgroups.symm.trans hgroups')
      refine (hfilled.filled_iff hg hcomplete hc).2 ?_
      rcases brings_iff.1 hbrings with hpin | hfirst
      · exact (hall startNode hstart groups hgroups).2 g hg hcomplete c hc hpin
      · exact hfirst

theorem recreateNodeExecutionStack_namesItsData_iff_merge : ∃ graph r,
    graphOfM ["A", "B"] = .ok graph ∧
    recreateNodeExecutionStack compareText graph [{ name := "M" }] runDataOfA Dict.empty = .ok r ∧
    (NamesItsData runDataOfA Dict.empty r ∧
        FillsWhatIsKnown runDataOfA Dict.empty compareText graph [{ name := "M" }] r ↔
      ∀ startNode ∈ [({ name := "M" } : INode)],
        KnownByRuns runDataOfA Dict.empty compareText graph startNode) :=
  ⟨_, _, rfl, rfl, recreateNodeExecutionStack_namesItsData_iff (List.nodup_singleton _) rfl⟩

/-- The run data in which `A` returned nothing first and then an item. -/
def runDataOfSecondRun : IRunData :=
  Dict.empty.set "A" [{ data := some (mainOnly [some (.items [])]) },
    { data := some (mainOnly [some (.items [emptyItem])]) }]

/-- The waiting run of `M` has the item of the second run of `A`, and names the first. -/
theorem waiting_run_names_first_run : ∃ graph r, graphOfM ["A", "B"] = .ok graph ∧
    recreateNodeExecutionStack compareText graph [{ name := "M" }] runDataOfSecondRun Dict.empty =
      .ok r ∧
    ¬(NamesItsData runDataOfSecondRun Dict.empty r ∧
      FillsWhatIsKnown runDataOfSecondRun Dict.empty compareText graph [{ name := "M" }] r) := by
  refine ⟨_, _, rfl, rfl, fun ⟨hnames, _⟩ => ?_⟩
  obtain ⟨items, source, hitems, hsource, hof⟩ := hnames "M" 0 .main 0 (.items [emptyItem]) rfl
  cases hitems
  cases hsource
  rcases hof with ⟨outputIndex, runIndex, hout, hrun, hof⟩ | hof
  · cases hout
    cases hrun
    exact absurd hof (by decide)
  · cases hof

end N8n
