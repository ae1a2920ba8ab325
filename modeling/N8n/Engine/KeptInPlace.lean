import N8n.Engine.RebuiltWaiting
import N8n.Lib.Pointwise

/-!
# When rebuilt stack entries keep every input in its place

* `InPlace`: an entry has, for each connection of its group, the data and the source of the
  connection at the input that the connection enters;
* `groupConnections_consecutive`: the connections of a group enter inputs that follow each other;
* `StackEntryOf.inPlace_iff`: when an entry made from a group has everything in its place;
* `recreateNodeExecutionStack_keepsPlaces_iff`: when all rebuilt entries do.
-/

namespace N8n

/-! ### What an entry is to hold -/

section Purpose

variable (runData : IRunData) (pinData : IPinData)

/-- The items that a run of a node recorded on an output, if there are any. -/
def recordedItems (nodeName : String) (runIndex : ℕ) (type : NodeConnectionType)
    (outputIndex : ℕ) : List INodeExecutionData :=
  (((((runData.get? nodeName).bind (·[runIndex]?)).bind (·.data)).bind (·.get? type)).bind
    (ItemLists.items? · outputIndex)).getD []

/-- The data of the source of a connection: its pin data if it is pinned, otherwise what a run
recorded. -/
def sourceItems (c : GraphConnection) (runIndex : ℕ) : List INodeExecutionData :=
  (pinData.get? c.fromNode.name).getD
    (recordedItems runData c.fromNode.name runIndex c.type c.outputIndex)

/-- The items of an entry at a main input. -/
def IExecuteData.itemsAt (e : IExecuteData) (i : ℕ) : List INodeExecutionData :=
  ((e.data.get? .main).bind (ItemLists.items? · i)).getD []

/-- The source that an entry names for a main input. -/
def IExecuteData.sourceAt (e : IExecuteData) (i : ℕ) : Option ISourceData :=
  ((e.source.bind (·.get? .main)).bind (SparseArray.getAt · i)).join

/-- For each connection the entry names its source, output and some run at the input of the
connection, and has the data of the connection there. -/
def InPlace (connections : List GraphConnection) (e : IExecuteData) : Prop :=
  ∀ c ∈ connections, ∃ previousNodeRun,
    e.sourceAt c.inputIndex =
        some ⟨c.fromNode.name, some c.outputIndex, some previousNodeRun⟩ ∧
      e.itemsAt c.inputIndex = sourceItems runData pinData c previousNodeRun

/-- The source of a connection is pinned, or some run has items on the output. -/
def Brings (c : GraphConnection) : Prop :=
  pinData.has c.fromNode.name ∨
    ∃ runIndex, recordedItems runData c.fromNode.name runIndex c.type c.outputIndex ≠ []

/-- The source of a connection has data that is not empty. -/
def BringsItems (c : GraphConnection) : Prop := ∃ runIndex, sourceItems runData pinData c runIndex ≠ []

/-- The connections start at input 0, and after one that brings nothing none brings items. -/
def StaysInPlace (connections : List GraphConnection) : Prop :=
  (∀ c ∈ connections.head?, c.inputIndex = 0) ∧
    connections.Pairwise fun c c' => ¬Brings runData pinData c → ¬BringsItems runData pinData c'

variable (localeCompare : String → String → ℤ) (graph : DirectedGraph)

/-- The complete groups of a start node that a main connection enters; another one makes an entry
without a group. -/
def completeGroups (startNode : INode) : List (Option SourceConnectionGroup) :=
  if (graph.parentConnections startNode).filter (·.type = .main) = [] then [none]
  else
    match getSourceDataGroups localeCompare graph startNode runData pinData with
    | .ok groups => (groups.filter (·.complete)).map some
    | .error _ => []

/-- The start nodes and the groups of the entries of the stack. -/
def entryGroups (startNodes : List INode) : List (INode × Option SourceConnectionGroup) :=
  startNodes.flatMap fun startNode =>
    (completeGroups runData pinData localeCompare graph startNode).map (startNode, ·)

/-- The entries of the stack are those of the start nodes, one for each complete group, and each
keeps the connections of its group in place. -/
def KeepsPlaces (startNodes : List INode) (r : RecreatedStack) : Prop :=
  List.Forall₂ (fun entry e => e.node = some entry.1 ∧
      ∀ group ∈ entry.2, InPlace runData pinData group.connections e)
    (entryGroups runData pinData localeCompare graph startNodes) r.nodeExecutionStack

end Purpose

variable {runData : IRunData} {pinData : IPinData}

/-! ### Reading run data -/

variable {nodeName : String} {outputIndex : ℕ} {type : NodeConnectionType}
  {cs : List GraphConnection} {groups : List SourceConnectionGroup}
  {localeCompare : String → String → ℤ} {graph : DirectedGraph} {r r' : RecreatedStack}

variable {runIndex first : ℕ} {items : Option (List INodeExecutionData)} {indices : List ℕ}
  {c : GraphConnection} {startNode : INode}

theorem recordedItems_of_getIncomingData
    (h : getIncomingData runData nodeName runIndex type outputIndex = .ok items) :
    recordedItems runData nodeName runIndex type outputIndex = items.getD [] := by
  rw [getIncomingData] at h
  rw [recordedItems]
  cases hdata : ((runData.get? nodeName).bind (·[runIndex]?)).bind (·.data) with
  | none =>
    rw [hdata] at h
    cases h
    rfl
  | some data =>
    rw [hdata] at h
    obtain ⟨lists, hlists, h⟩ := Except.bind_eq_ok_iff.1 h
    cases h
    cases hget : data.get? type with
    | none =>
      rw [hget] at hlists
      cases hlists
    | some lists' =>
      rw [hget] at hlists
      cases hlists
      rw [Option.bind_some, hget]
      rfl

/-- The run that is found has items, and so has none when none is found. -/
theorem recordedItems_of_findIncomingData {found : Option (List INodeExecutionData × ℕ)}
    (h : findIncomingData runData nodeName type outputIndex indices = .ok found) :
    (∀ p ∈ found, p.1 ≠ [] ∧ recordedItems runData nodeName p.2 type outputIndex = p.1) ∧
      (found = none → ∀ i ∈ indices, recordedItems runData nodeName i type outputIndex = []) := by
  induction indices with
  | nil =>
    cases h
    refine ⟨fun p hp => ?_, fun _ i hi => absurd hi List.not_mem_nil⟩
    cases hp
  | cons i indices ih =>
    obtain ⟨items, hitems, h⟩ := Except.bind_eq_ok_iff.1 h
    have hrecorded := recordedItems_of_getIncomingData hitems
    match items with
    | some (item :: rest) =>
      cases h
      refine ⟨fun p hp => ?_, fun h => by cases h⟩
      cases hp
      exact ⟨List.cons_ne_nil _ _, hrecorded⟩
    | some [] =>
      obtain ⟨hfound, hnone⟩ := ih h
      exact ⟨hfound, fun h => List.forall_mem_cons.2 ⟨hrecorded, hnone h⟩⟩
    | none =>
      obtain ⟨hfound, hnone⟩ := ih h
      exact ⟨hfound, fun h => List.forall_mem_cons.2 ⟨hrecorded, hnone h⟩⟩

/-- The runs before the one that is found have no items. -/
theorem recordedItems_of_lt_found (hsorted : indices.Pairwise (· < ·))
    {p : List INodeExecutionData × ℕ}
    (h : findIncomingData runData nodeName type outputIndex indices = .ok (some p)) :
    ∀ i ∈ indices, i < p.2 → recordedItems runData nodeName i type outputIndex = [] := by
  induction indices with
  | nil => cases h
  | cons i indices ih =>
    obtain ⟨hlt, hsorted⟩ := List.pairwise_cons.1 hsorted
    obtain ⟨items, hitems, h⟩ := Except.bind_eq_ok_iff.1 h
    have hrecorded := recordedItems_of_getIncomingData hitems
    match items with
    | some (item :: rest) =>
      cases h
      intro j hj hji
      rcases List.mem_cons.1 hj with rfl | hj
      · exact absurd hji (lt_irrefl _)
      · exact absurd (hlt j hj) hji.not_gt
    | some [] => exact List.forall_mem_cons.2 ⟨fun _ => hrecorded, ih hsorted h⟩
    | none => exact List.forall_mem_cons.2 ⟨fun _ => hrecorded, ih hsorted h⟩

theorem recordedItems_of_le {i : ℕ} (hi : getRunIndexLength runData nodeName ≤ i)
    (type : NodeConnectionType) (outputIndex : ℕ) :
    recordedItems runData nodeName i type outputIndex = [] := by
  have hrun : (runData.get? nodeName).bind (·[i]?) = none := by
    rw [getRunIndexLength] at hi
    cases hruns : runData.get? nodeName with
    | none => rfl
    | some runs =>
      rw [hruns] at hi
      exact List.getElem?_eq_none hi
  rw [recordedItems, hrun]
  rfl

theorem recordedItems_of_getIncomingDataFromAnyRun
    (h : getIncomingDataFromAnyRun runData nodeName type outputIndex = .ok none) (i : ℕ) :
    recordedItems runData nodeName i type outputIndex = [] := by
  rcases Nat.lt_or_ge i (getRunIndexLength runData nodeName) with hi | hi
  · exact (recordedItems_of_findIncomingData h).2 rfl i (List.mem_range.2 hi)
  · exact recordedItems_of_le hi type outputIndex

/-! ### What a connection brings -/

/-- The list that a connection brings, if any, and the run it is taken from. -/
def bring (runData : IRunData) (pinData : IPinData) (c : GraphConnection) :
    Except JsError (Option (List INodeExecutionData) × ℕ) :=
  match pinData.get? c.fromNode.name with
  | some items => .ok (some items, 0)
  | none => do
    let _ ← orAssertionError (runData.get? c.fromNode.name)
    match ← getIncomingDataFromAnyRun runData c.fromNode.name c.type c.outputIndex with
    | some (items, runIndex) => return (some items, runIndex)
    | none => return (none, 0)

/-- What a connection brings is the data of its source. -/
structure Brought (runData : IRunData) (pinData : IPinData) (c : GraphConnection)
    (items : Option (List INodeExecutionData)) (runIndex : ℕ) : Prop where
  items_eq : sourceItems runData pinData c runIndex = items.getD []
  none_iff : items = none ↔ ¬Brings runData pinData c
  nil_iff : items.getD [] = [] ↔ ¬BringsItems runData pinData c

theorem brought_of_bring (h : bring runData pinData c = .ok (items, runIndex)) :
    Brought runData pinData c items runIndex := by
  rw [bring] at h
  cases hpin : pinData.get? c.fromNode.name with
  | some pinned =>
    rw [hpin] at h
    cases h
    have hitems : ∀ i, sourceItems runData pinData c i = pinned := fun i => by
      rw [sourceItems, hpin, Option.getD_some]
    refine ⟨hitems 0, iff_of_false (by simp) fun h => h (Or.inl ?_), ?_⟩
    · rw [Dict.has, hpin]
      rfl
    · simp [BringsItems, hitems]
  | none =>
    rw [hpin] at h
    have hitems : ∀ i, sourceItems runData pinData c i =
        recordedItems runData c.fromNode.name i c.type c.outputIndex := fun i => by
      rw [sourceItems, hpin, Option.getD_none]
    have hbrings : Brings runData pinData c ↔ BringsItems runData pinData c := by
      simp only [Brings, BringsItems, hitems, Dict.has, hpin, Option.isSome_none,
        Bool.false_eq_true, false_or]
    obtain ⟨_, -, h⟩ := Except.bind_eq_ok_iff.1 h
    obtain ⟨found, hfound, h⟩ := Except.bind_eq_ok_iff.1 h
    rw [getIncomingDataFromAnyRun] at hfound
    match found with
    | some (found, i) =>
      cases h
      obtain ⟨hne, hrecorded⟩ := (recordedItems_of_findIncomingData hfound).1 _ rfl
      have hsource := (hitems runIndex).trans hrecorded
      have hnot : BringsItems runData pinData c := ⟨runIndex, hsource ▸ hne⟩
      exact ⟨hsource, iff_of_false (by simp) fun h => h (hbrings.2 hnot),
        iff_of_false hne fun h => h hnot⟩
    | none =>
      cases h
      have hnil := recordedItems_of_getIncomingDataFromAnyRun hfound
      have hnot : ¬BringsItems runData pinData c := fun ⟨i, hi⟩ => hi ((hitems i).trans (hnil i))
      exact ⟨(hitems 0).trans (hnil 0), iff_of_true rfl fun h => hnot (hbrings.1 h),
        iff_of_true rfl hnot⟩

/-- What a connection brings when it brings anything. -/
def brought (runData : IRunData) (pinData : IPinData) (c : GraphConnection) :
    Option (List INodeExecutionData) × ℕ :=
  match bring runData pinData c with
  | .ok p => p
  | .error _ => (none, 0)

/-- The source that an entry names for a connection. -/
def sourceOf (runData : IRunData) (pinData : IPinData) (c : GraphConnection) : ISourceData :=
  ⟨c.fromNode.name, some c.outputIndex, some (brought runData pinData c).2⟩

/-- The data of a group are what its connections bring, and its sources are theirs. -/
theorem incomingDataOf_eq_ok {data : ItemLists} {sources : SparseArray (Option ISourceData)}
    (h : incomingDataOf runData pinData cs = .ok (data, sources)) :
    data = (cs.filterMap fun c => (brought runData pinData c).1).map (some ∘ Cell.items) ∧
      sources = cs.map (some ∘ some ∘ sourceOf runData pinData) ∧
      ∀ c ∈ cs, Brought runData pinData c (brought runData pinData c).1
        (brought runData pinData c).2 := by
  induction cs using List.reverseRecOn generalizing data sources with
  | nil =>
    cases h
    exact ⟨rfl, rfl, fun c hc => absurd hc List.not_mem_nil⟩
  | append_singleton cs c ih =>
    rw [incomingDataOf, Except.foldlM_concat_eq_ok_iff] at h
    obtain ⟨⟨data₁, sources₁⟩, h₁, h⟩ := h
    obtain ⟨rfl, rfl, hall⟩ := ih h₁
    have hone : ∃ items runIndex, bring runData pinData c = .ok (items, runIndex) ∧
        data = (cs.filterMap fun c => (brought runData pinData c).1).map (some ∘ Cell.items) ++
          items.toList.map (some ∘ Cell.items) ∧
        sources = cs.map (some ∘ some ∘ sourceOf runData pinData) ++
          [some (some ⟨c.fromNode.name, some c.outputIndex, some runIndex⟩)] := by
      rw [bring]
      dsimp only at h
      cases hpin : pinData.get? c.fromNode.name with
      | some pinned =>
        simp only [hpin] at h
        cases h
        exact ⟨some pinned, 0, rfl, rfl, rfl⟩
      | none =>
        simp only [hpin] at h
        obtain ⟨runs, hruns, h⟩ := Except.bind_eq_ok_iff.1 h
        obtain ⟨found, hfound, h⟩ := Except.bind_eq_ok_iff.1 h
        refine ⟨found.map Prod.fst, (found.map Prod.snd).getD 0, ?_, ?_⟩
        · rw [hruns, hfound]
          cases found <;> rfl
        · cases found <;> cases h
          · exact ⟨(List.append_nil _).symm, rfl⟩
          · exact ⟨rfl, rfl⟩
    obtain ⟨items, runIndex, hbring, rfl, rfl⟩ := hone
    have hbrought : brought runData pinData c = (items, runIndex) := by
      rw [brought, hbring]
    refine ⟨?_, ?_, fun c' hc' => ?_⟩
    · rw [List.filterMap_append, List.map_append, List.filterMap_cons, hbrought]
      cases items <;> rfl
    · rw [List.map_append, List.map_singleton, Function.comp_apply, Function.comp_apply, sourceOf,
        hbrought]
    · rcases List.mem_append.1 hc' with hc' | hc'
      · exact hall c' hc'
      · rw [List.mem_singleton.1 hc', hbrought]
        exact brought_of_bring hbring

/-! ### One entry -/

theorem items?_map (l : List (List INodeExecutionData)) (i : ℕ) :
    ItemLists.items? (l.map (some ∘ Cell.items)) i = l[i]? := by
  rw [ItemLists.items?, ItemLists.read, SparseArray.getAt_eq_getElem?, List.getElem?_map]
  cases l[i]? <;> rfl

theorem getAt_map {α β : Type} (l : List α) (f : α → β) (i : ℕ) :
    SparseArray.getAt (l.map (some ∘ f)) i = (l[i]?).map f := by
  rw [SparseArray.getAt_eq_getElem?, List.getElem?_map]
  cases l[i]? <;> rfl

/-- The connections enter inputs that follow each other. -/
def Consecutive (cs : List GraphConnection) : Prop :=
  ∃ first, ∀ (j : ℕ) c, cs[j]? = some c → c.inputIndex = first + j

/-- No two of them enter the same input. -/
theorem Consecutive.pairwise (h : Consecutive cs) :
    cs.Pairwise fun c c' => c.inputIndex ≠ c'.inputIndex := by
  obtain ⟨first, hfirst⟩ := h
  refine List.pairwise_iff_getElem.2 fun i j hi hj hij => ?_
  rw [hfirst i _ (List.getElem?_eq_getElem hi), hfirst j _ (List.getElem?_eq_getElem hj)]
  omega

/-- The entry of a group holds its data. -/
structure StackEntryOf (runData : IRunData) (pinData : IPinData) (connections : List GraphConnection)
    (e : IExecuteData) : Prop where
  consecutive : Consecutive connections
  data : ∃ data sources, incomingDataOf runData pinData connections = .ok (data, sources) ∧
    e.data = mainOnly data ∧ e.source = some (mainOnly sources)

/-- **One entry keeps its connections in place** exactly when they start at input 0 and bring items
only while every one before brings something. -/
theorem StackEntryOf.inPlace_iff {e : IExecuteData} (h : StackEntryOf runData pinData cs e) :
    InPlace runData pinData cs e ↔ StaysInPlace runData pinData cs := by
  obtain ⟨⟨first, hfirst⟩, data, sources, hok, hdata, hsource⟩ := h
  obtain ⟨rfl, rfl, hall⟩ := incomingDataOf_eq_ok hok
  have hitems : ∀ i, e.itemsAt i =
      ((cs.filterMap fun c => (brought runData pinData c).1)[i]?).getD [] := by
    intro i
    rw [IExecuteData.itemsAt, hdata, get?_mainOnly, if_pos rfl, Option.bind_some, items?_map]
  have hsources : ∀ i, e.sourceAt i = (cs[i]?).map (sourceOf runData pinData) := by
    intro i
    rw [IExecuteData.sourceAt, hsource, Option.bind_some, get?_mainOnly, if_pos rfl,
      Option.bind_some, getAt_map]
    cases cs[i]? <;> rfl
  have hpairwise : (cs.Pairwise fun c c' => (brought runData pinData c).1 = none →
      (brought runData pinData c').1.getD [] = []) ↔
      cs.Pairwise fun c c' => ¬Brings runData pinData c → ¬BringsItems runData pinData c' := by
    refine List.Pairwise.iff_of_mem fun {c c'} hc hc' => ?_
    rw [(hall c hc).none_iff, (hall c' hc').nil_iff]
  have hhead : (∀ c ∈ cs.head?, c.inputIndex = 0) ↔ cs = [] ∨ first = 0 := by
    cases cs with
    | nil => simp
    | cons c cs =>
      have := hfirst 0 c rfl
      simp only [List.head?_cons, Option.mem_def, Option.some.injEq, forall_eq', reduceCtorEq,
        false_or]
      omega
  rw [StaysInPlace, hhead, ← hpairwise, ← Gaps.filterMap_aligned_iff]
  constructor
  · intro hplace
    have hzero : cs = [] ∨ first = 0 := by
      -- the last connection has a source at its input
      rcases List.eq_nil_or_concat cs with hnil | ⟨cs, c, rfl⟩
      · exact Or.inl hnil
      · have hlast : (cs.concat c)[cs.length]? = some c := by simp
        obtain ⟨run, hrun, -⟩ := hplace c (by simp)
        rw [hsources, hfirst _ c hlast] at hrun
        have hlt : first + cs.length < (cs.concat c).length := by
          by_contra hge
          rw [List.getElem?_eq_none (not_lt.1 hge)] at hrun
          cases hrun
        rw [List.length_concat] at hlt
        exact Or.inr (by omega)
    refine ⟨hzero, fun j c hc => ?_⟩
    have hj : c.inputIndex = j := by
      rcases hzero with rfl | rfl
      · cases hc
      · rw [hfirst j c hc, Nat.zero_add]
    obtain ⟨run, hrun, hitem⟩ := hplace c (List.mem_of_getElem? hc)
    rw [hj, hsources, hc, Option.map_some, sourceOf, Option.some.injEq, ISourceData.mk.injEq] at hrun
    have hrun : (brought runData pinData c).2 = run := by simpa using hrun
    rw [hj, hitems, ← hrun, (hall c (List.mem_of_getElem? hc)).items_eq] at hitem
    exact hitem
  · rintro ⟨hzero, haligned⟩ c hc
    obtain ⟨j, hj⟩ := List.mem_iff_getElem?.1 hc
    have hinput : c.inputIndex = j := by
      rcases hzero with rfl | rfl
      · cases hj
      · rw [hfirst j c hj, Nat.zero_add]
    refine ⟨(brought runData pinData c).2, ?_, ?_⟩
    · rw [hinput, hsources, hj]
      rfl
    · rw [hinput, hitems, (hall c hc).items_eq]
      exact haligned j c hj

/-! ### The groups -/

theorem emptyGroup_consecutive (first j : ℕ) (c : GraphConnection)
    (hc : ({} : SourceConnectionGroup).connections[j]? = some c) : c.inputIndex = first + j := by
  cases hc

theorem getElem?_concat_inputIndex (h : ∀ (j : ℕ) c, cs[j]? = some c → c.inputIndex = first + j)
    (hc : c.inputIndex = first + cs.length) (j : ℕ) (c' : GraphConnection)
    (hc' : (cs ++ [c])[j]? = some c') : c'.inputIndex = first + j := by
  rcases Nat.lt_or_ge j cs.length with hlt | hge
  · rw [List.getElem?_append_left hlt] at hc'
    exact h j c' hc'
  · rw [List.getElem?_append_right hge] at hc'
    obtain ⟨hj, rfl⟩ := List.getElem?_eq_some_iff.1 hc'
    rw [List.length_singleton] at hj
    simp only [List.getElem_singleton]
    omega

/-- Every group that the loop closes is consecutive. -/
theorem groupConnections_consecutive {steps : ℕ} {withData withoutData : List GraphConnection}
    {inputIndex : ℕ} {currentGroup : SourceConnectionGroup}
    (hcurrent : ∀ (j : ℕ) c, currentGroup.connections[j]? = some c → c.inputIndex = first + j)
    (hinput : inputIndex = first + currentGroup.connections.length)
    (h : groupConnections steps withData withoutData inputIndex currentGroup = .ok groups) :
    ∀ g ∈ groups, Consecutive g.connections := by
  induction steps generalizing withData withoutData inputIndex currentGroup groups first with
  | zero => cases h
  | succ steps ih =>
    have hnext : ∀ c : GraphConnection, c.inputIndex = inputIndex → ∀ (j : ℕ) c',
        (currentGroup.connections ++ [c])[j]? = some c' → c'.inputIndex = first + j :=
      fun c hc => getElem?_concat_inputIndex hcurrent (hc.trans hinput)
    have hlength : ∀ c : GraphConnection,
        inputIndex + 1 = first + (currentGroup.connections ++ [c]).length := by
      intro c
      rw [List.length_append, List.length_singleton, hinput]
      omega
    cases groupConnections_step steps withData withoutData inputIndex currentGroup with
    | done hwith hwithout hr =>
      cases hr.symm.trans h
      exact List.forall_mem_singleton.2 ⟨first, hcurrent⟩
    | withData c hc hi hr => exact ih (hnext c hi) (hlength c) (hr.symm.trans h)
    | withoutData c hc hi hr => exact ih (hnext c hi) (hlength c) (hr.symm.trans h)
    | close hne hnone hr =>
      obtain ⟨rest, hrest, hgroups⟩ := Except.bind_eq_ok_iff.1 (hr.symm.trans h)
      cases hgroups
      exact List.forall_mem_cons.2 ⟨⟨first, hcurrent⟩, ih (emptyGroup_consecutive _) rfl hrest⟩

theorem getSourceDataGroups_consecutive {node : INode}
    (h : getSourceDataGroups localeCompare graph node runData pinData = .ok groups) :
    ∀ g ∈ groups, Consecutive g.connections := by
  rw [getSourceDataGroups] at h
  dsimp only at h
  split_ifs at h
  · cases h
    exact fun g hg => absurd hg List.not_mem_nil
  · exact groupConnections_consecutive (emptyGroup_consecutive _) rfl h

/-! ### The stack -/

/-- What an entry of the stack was made from. -/
def MadeFrom (runData : IRunData) (pinData : IPinData) (entry : INode × Option SourceConnectionGroup)
    (e : IExecuteData) : Prop :=
  e.node = some entry.1 ∧ ∀ group ∈ entry.2, StackEntryOf runData pinData group.connections e

theorem foldlM_addWaitingConnection_stack {k : ℕ}
    (h : cs.foldlM (addWaitingConnection runData nodeName k) r = .ok r') :
    r'.nodeExecutionStack = r.nodeExecutionStack := by
  refine Except.foldlM_rel (R := fun r r' => r'.nodeExecutionStack = r.nodeExecutionStack)
    (fun _ => rfl) (fun _ _ _ h₁ h₂ => by rw [h₂, h₁]) (fun r c r' _ hc => ?_) h
  obtain ⟨found, -, hc⟩ := Except.bind_eq_ok_iff.1 hc
  cases found <;> cases hc <;> rfl

/-- The complete groups of a start node put their entries on the stack. -/
theorem foldlM_addSourceGroup_stack (hconsecutive : ∀ g ∈ groups, Consecutive g.connections)
    (h : groups.foldlM (addSourceGroup runData pinData startNode) r = .ok r') :
    ∃ entries, r'.nodeExecutionStack = r.nodeExecutionStack ++ entries ∧
      List.Forall₂ (MadeFrom runData pinData)
        (((groups.filter (·.complete)).map some).map (startNode, ·)) entries := by
  induction groups generalizing r with
  | nil =>
    cases h
    exact ⟨[], (List.append_nil _).symm, .nil⟩
  | cons g groups ih =>
    obtain ⟨hg, hgroups⟩ := List.forall_mem_cons.1 hconsecutive
    rw [List.foldlM_cons, Except.bind_eq_ok_iff] at h
    obtain ⟨r₁, h₁, h₂⟩ := h
    obtain ⟨entries, hstack, hmade⟩ := ih hgroups h₂
    rw [addSourceGroup] at h₁
    split_ifs at h₁ with hcomplete
    · obtain ⟨⟨data, sources⟩, hok, h₁⟩ := Except.bind_eq_ok_iff.1 h₁
      cases h₁
      rw [List.append_assoc, List.singleton_append] at hstack
      refine ⟨_, hstack, ?_⟩
      rw [List.filter_cons_of_pos hcomplete, List.map_cons, List.map_cons]
      refine .cons ⟨rfl, fun group hgroup => ?_⟩ hmade
      cases hgroup
      exact ⟨hg, data, sources, hok, rfl, rfl⟩
    · rw [foldlM_addWaitingConnection_stack h₁] at hstack
      rw [List.filter_cons_of_neg hcomplete]
      exact ⟨entries, hstack, hmade⟩

/-- A start node puts its entries on the stack. -/
theorem addStartNode_stack
    (h : addStartNode localeCompare graph runData pinData r startNode = .ok r') :
    ∃ entries, r'.nodeExecutionStack = r.nodeExecutionStack ++ entries ∧
      List.Forall₂ (MadeFrom runData pinData)
        ((completeGroups runData pinData localeCompare graph startNode).map (startNode, ·))
        entries := by
  rw [addStartNode, Except.bind_eq_ok_iff] at h
  obtain ⟨parents, hparents, h⟩ := h
  obtain ⟨-, rfl⟩ := DirectedGraph.getDirectParentConnections_eq_ok_iff.1 hparents
  rw [completeGroups]
  split_ifs at h ⊢ with hmain
  · cases h
    exact ⟨_, rfl, .cons ⟨rfl, fun group hgroup => by cases hgroup⟩ .nil⟩
  · obtain ⟨groups, hgroups, h⟩ := Except.bind_eq_ok_iff.1 h
    rw [hgroups]
    exact foldlM_addSourceGroup_stack (getSourceDataGroups_consecutive hgroups) h

/-- The entries of the stack, and what they were made from. -/
theorem foldlM_addStartNode_stack {startNodes : List INode}
    (h : startNodes.foldlM (addStartNode localeCompare graph runData pinData) r = .ok r') :
    ∃ entries, r'.nodeExecutionStack = r.nodeExecutionStack ++ entries ∧
      List.Forall₂ (MadeFrom runData pinData)
        (entryGroups runData pinData localeCompare graph startNodes) entries := by
  induction startNodes generalizing r with
  | nil =>
    cases h
    exact ⟨[], (List.append_nil _).symm, .nil⟩
  | cons startNode startNodes ih =>
    rw [List.foldlM_cons, Except.bind_eq_ok_iff] at h
    obtain ⟨r₁, h₁, h₂⟩ := h
    obtain ⟨entries₁, hstack₁, hmade₁⟩ := addStartNode_stack h₁
    obtain ⟨entries₂, hstack₂, hmade₂⟩ := ih h₂
    refine ⟨entries₁ ++ entries₂, ?_, ?_⟩
    · rw [hstack₂, hstack₁, List.append_assoc]
    · rw [entryGroups, List.flatMap_cons]
      exact List.rel_append hmade₁ hmade₂

/-- **The entries of the stack keep every input in its place** exactly when every complete group of
each start node starts at input 0 and has no connection that brings items after one that brings
nothing. -/
theorem recreateNodeExecutionStack_keepsPlaces_iff {localeCompare : String → String → ℤ}
    {graph : DirectedGraph} {startNodes : List INode} {runData : IRunData} {pinData : IPinData}
    {r : RecreatedStack}
    (h : recreateNodeExecutionStack localeCompare graph startNodes runData pinData = .ok r) :
    KeepsPlaces runData pinData localeCompare graph startNodes r ↔
      ∀ startNode ∈ startNodes,
        ∀ group ∈ completeGroups runData pinData localeCompare graph startNode,
          ∀ g ∈ group, StaysInPlace runData pinData g.connections := by
  rw [recreateNodeExecutionStack] at h
  split_ifs at h
  obtain ⟨entries, hstack, hmade⟩ := foldlM_addStartNode_stack h
  have hiff : KeepsPlaces runData pinData localeCompare graph startNodes r ↔
      ∀ entry ∈ entryGroups runData pinData localeCompare graph startNodes, ∀ g ∈ entry.2,
        StaysInPlace runData pinData g.connections := by
    rw [KeepsPlaces, hstack]
    refine hmade.forall₂_iff fun entry e hkept => ?_
    obtain ⟨hnode, hentry⟩ := hkept
    rw [and_iff_right hnode]
    exact forall₂_congr fun g hg => (hentry g hg).inPlace_iff
  rw [hiff]
  constructor
  · intro hall startNode hstart group hgroup
    exact hall (startNode, group)
      (List.mem_flatMap.2 ⟨startNode, hstart, List.mem_map_of_mem hgroup⟩)
  · intro hall entry hentry
    obtain ⟨startNode, hstart, hentry⟩ := List.mem_flatMap.1 hentry
    obtain ⟨group, hgroup, rfl⟩ := List.mem_map.1 hentry
    exact hall startNode hstart group hgroup

/-! ### An output without items -/

/-- The run data in which `A` returned nothing and `B` an item. -/
def runDataOfB : IRunData :=
  Dict.empty.set "A" [{ data := some (mainOnly [some (.items [])]) }] |>.set "B"
    [{ data := some (mainOnly [some (.items [emptyItem])]) }]

theorem recreateNodeExecutionStack_keepsPlaces_iff_merge : ∃ graph r,
    graphOfM ["B", "A"] = .ok graph ∧
    recreateNodeExecutionStack compareText graph [{ name := "M" }] runDataOfB Dict.empty = .ok r ∧
    (KeepsPlaces runDataOfB Dict.empty compareText graph [{ name := "M" }] r ↔
      ∀ startNode ∈ [({ name := "M" } : INode)],
        ∀ group ∈ completeGroups runDataOfB Dict.empty compareText graph startNode,
          ∀ g ∈ group, StaysInPlace runDataOfB Dict.empty g.connections) :=
  ⟨_, _, rfl, rfl, recreateNodeExecutionStack_keepsPlaces_iff rfl⟩

/-- The item of `B` is put on the first input of `M`, where `A` was. -/
theorem empty_output_shifts : ∃ graph r, graphOfM ["A", "B"] = .ok graph ∧
    recreateNodeExecutionStack compareText graph [{ name := "M" }] runDataOfB Dict.empty = .ok r ∧
    ¬KeepsPlaces runDataOfB Dict.empty compareText graph [{ name := "M" }] r := by
  refine ⟨_, _, rfl, rfl, fun h => ?_⟩
  cases h with
  | cons hentry _ =>
    obtain ⟨run, -, hitems⟩ := hentry.2 _ rfl
      ⟨{ name := "A" }, { name := "M" }, .main, 0, 0⟩ (by decide)
    have hnil : sourceItems runDataOfB Dict.empty
        ⟨{ name := "A" }, { name := "M" }, .main, 0, 0⟩ run = [] := by
      cases run <;> rfl
    rw [hnil] at hitems
    exact absurd hitems (by decide)

end N8n
