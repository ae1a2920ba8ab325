import N8n.Engine.KeptInPlace
import N8n.Lib.Layers

/-!
# When the groups of incoming connections are as few and as full as can be

* `FewAndFull`: what `getSourceDataGroups` is to make of the connections;
* `blockOf`: the inputs of a group follow each other;
* `groupConnections_greedy`: each group goes on from the least input left while there is a
  connection into the next one;
* `getSourceDataGroups_fewAndFull_iff`: the exact condition on the inputs.
-/

namespace N8n

open Layers (Block height NoValley Greedy)

/-! ### What the groups are to be -/

/-- The source of a connection has run data or pin data. -/
def hasSourceData (runData : IRunData) (pinnedData : IPinData) (c : GraphConnection) : Bool :=
  runData.has c.fromNode.name || pinnedData.has c.fromNode.name

/-- The incoming connections that are grouped: those with data, and all main ones. -/
def groupedConnections (graph : DirectedGraph) (node : INode) (runData : IRunData)
    (pinnedData : IPinData) : List GraphConnection :=
  (graph.parentConnections node).filter fun c =>
    hasSourceData runData pinnedData c || decide (c.type = .main)

/-- The number of connections into an input. -/
def connectionsInto (cs : List GraphConnection) (i : ℕ) : ℕ := cs.countP (·.inputIndex = i)

/-- Each connection is in one group, at most one per input; a group is complete if all its
connections have data; there are as many groups as connections into one input at most, and group
`k` has one for every input with more than `k`. -/
structure FewAndFull (hasData : GraphConnection → Bool) (cs : List GraphConnection)
    (groups : List SourceConnectionGroup) : Prop where
  perm : (groups.flatMap (·.connections)).Perm cs
  distinct : ∀ g ∈ groups, (g.connections.map (·.inputIndex)).Nodup
  complete : ∀ g ∈ groups, g.complete = g.connections.all hasData
  few : IsGreatest (Set.range (connectionsInto cs)) groups.length
  full : ∀ k g, groups[k]? = some g →
    ∀ i, (∃ c ∈ g.connections, c.inputIndex = i) ↔ k < connectionsInto cs i

/-! ### Groups as blocks -/

/-- The inputs of a group. -/
def blockOf (g : SourceConnectionGroup) : Block :=
  ⟨(g.connections.head?.map (·.inputIndex)).getD 0, g.connections.length⟩

variable {g : SourceConnectionGroup} {groups : List SourceConnectionGroup}

variable {first steps inputIndex : ℕ} {cs withData withoutData : List GraphConnection}
  {c : GraphConnection} {currentGroup : SourceConnectionGroup} {localeCompare : String → String → ℤ}

theorem blockOf_eq (h : ∀ (j : ℕ) c, g.connections[j]? = some c → c.inputIndex = first + j)
    (hne : g.connections ≠ []) : blockOf g = ⟨first, g.connections.length⟩ := by
  obtain ⟨c, cs, hcs⟩ := List.exists_cons_of_ne_nil hne
  have hc := h 0 c (by rw [hcs]; rfl)
  rw [blockOf, hcs, List.head?_cons, Option.map_some, Option.getD_some, hc, Nat.add_zero]

theorem mem_blockOf_iff (h : Consecutive g.connections) {i : ℕ} :
    i ∈ blockOf g ↔ ∃ c ∈ g.connections, c.inputIndex = i := by
  obtain ⟨first, hfirst⟩ := h
  rcases eq_or_ne g.connections [] with hnil | hne
  · rw [blockOf, hnil, Layers.mem_iff]
    simp
  rw [blockOf_eq hfirst hne, Layers.mem_iff]
  constructor
  · rintro ⟨hle, hlt⟩
    obtain ⟨j, rfl⟩ := Nat.exists_eq_add_of_le hle
    have hget := List.getElem?_eq_getElem (Nat.add_lt_add_iff_left.1 hlt)
    exact ⟨_, List.mem_of_getElem? hget, hfirst j _ hget⟩
  · rintro ⟨c, hc, rfl⟩
    obtain ⟨j, hj⟩ := List.mem_iff_getElem?.1 hc
    obtain ⟨hlt, -⟩ := List.getElem?_eq_some_iff.1 hj
    rw [hfirst j c hj]
    exact ⟨Nat.le_add_right _ _, Nat.add_lt_add_left hlt _⟩

theorem connectionsInto_eq (h : Consecutive g.connections) (i : ℕ) :
    connectionsInto g.connections i = if i ∈ blockOf g then 1 else 0 := by
  have hcount : connectionsInto g.connections i = (g.connections.map (·.inputIndex)).count i := by
    rw [connectionsInto, List.count, List.countP_map]
    rfl
  rw [hcount, List.Nodup.count (List.pairwise_map.2 h.pairwise)]
  exact if_congr (by rw [mem_blockOf_iff h, List.mem_map]) rfl rfl

/-- As many connections enter an input as there are groups with it. -/
theorem connectionsInto_flatMap (h : ∀ g ∈ groups, Consecutive g.connections) (i : ℕ) :
    connectionsInto (groups.flatMap (·.connections)) i = height (groups.map blockOf) i := by
  induction groups with
  | nil => rfl
  | cons g groups ih =>
    obtain ⟨hg, h⟩ := List.forall_mem_cons.1 h
    rw [List.flatMap_cons, List.map_cons, Layers.height_cons, ← ih h, ← connectionsInto_eq hg,
      connectionsInto, List.countP_append, Nat.add_comm]
    rfl

/-! ### The loop -/

theorem minInputIndex_le (hc : c ∈ cs) : minInputIndex cs ≤ c.inputIndex := by
  have hmem := List.mem_map_of_mem (f := (·.inputIndex)) hc
  obtain ⟨i, hi⟩ := Option.isSome_iff_exists.1 (List.isSome_min?_of_mem hmem)
  rw [minInputIndex, hi, Option.getD_some]
  exact (List.min?_eq_some_iff.1 hi).2 _ hmem

/-- The groups are complete when all their connections have data. -/
theorem groupConnections_complete {hasData : GraphConnection → Bool}
    (hwith : ∀ c ∈ withData, hasData c = true) (hwithout : ∀ c ∈ withoutData, hasData c = false)
    (hcurrent : currentGroup.complete = currentGroup.connections.all hasData)
    (h : groupConnections steps withData withoutData inputIndex currentGroup = .ok groups) :
    ∀ g ∈ groups, g.complete = g.connections.all hasData := by
  induction steps generalizing withData withoutData inputIndex currentGroup groups with
  | zero => cases h
  | succ steps ih =>
    cases groupConnections_step steps withData withoutData inputIndex currentGroup with
    | done hw hwo hr =>
      cases hr.symm.trans h
      exact List.forall_mem_singleton.2 hcurrent
    | withData c hc hinput hr =>
      refine ih (fun c' hc' => hwith c' (List.mem_of_mem_erase hc')) hwithout ?_ (hr.symm.trans h)
      simp [hcurrent, hwith c hc]
    | withoutData c hc hinput hr =>
      refine ih hwith (fun c' hc' => hwithout c' (List.mem_of_mem_erase hc')) ?_ (hr.symm.trans h)
      simp [hwithout c hc]
    | close hne hnone hr =>
      obtain ⟨rest, hrest, hgroups⟩ := Except.bind_eq_ok_iff.1 (hr.symm.trans h)
      cases hgroups
      exact List.forall_mem_cons.2 ⟨hcurrent, ih hwith hwithout rfl hrest⟩

/-- The groups are made greedily: the current one started at the least input, and the loop is at the
input after it. -/
theorem groupConnections_greedy
    (hcurrent : ∀ (j : ℕ) c, currentGroup.connections[j]? = some c → c.inputIndex = first + j)
    (hinput : inputIndex = first + currentGroup.connections.length)
    (hfirst : ∀ c ∈ withData ++ withoutData, first ≤ c.inputIndex)
    (hne : currentGroup.connections ≠ [] ∨ ∃ c ∈ withData ++ withoutData, c.inputIndex = inputIndex)
    (h : groupConnections steps withData withoutData inputIndex currentGroup = .ok groups) :
    Greedy (groups.map blockOf) := by
  induction steps generalizing withData withoutData inputIndex currentGroup groups first with
  | zero => cases h
  | succ steps ih =>
    have hnext : ∀ c : GraphConnection, c.inputIndex = inputIndex → ∀ (j : ℕ) c',
        (currentGroup.connections ++ [c])[j]? = some c' → c'.inputIndex = first + j :=
      fun c hc => getElem?_concat_inputIndex hcurrent (hc.trans hinput)
    have hlength : ∀ c : GraphConnection,
        inputIndex + 1 = first + (currentGroup.connections ++ [c]).length := by
      intro c
      rw [List.length_append, List.length_singleton, hinput]
      omega
    cases groupConnections_step steps withData withoutData inputIndex currentGroup with
    | done hwith hwithout hr =>
      cases hr.symm.trans h
      have hcurrent_ne : currentGroup.connections ≠ [] := by
        simpa [hwith, hwithout] using hne
      exact ⟨List.length_pos_iff.2 hcurrent_ne, fun b hb => absurd hb List.not_mem_nil, trivial⟩
    | withData c hc hi hr =>
      refine ih (hnext c hi) (hlength c) (fun c' hc' => hfirst c' ?_) (Or.inl (by simp))
        (hr.symm.trans h)
      exact (perm_cons_erase_append hc withoutData).mem_iff.2 (List.mem_cons_of_mem c hc')
    | withoutData c hc hi hr =>
      refine ih (hnext c hi) (hlength c) (fun c' hc' => hfirst c' ?_) (Or.inl (by simp))
        (hr.symm.trans h)
      exact (perm_append_cons_erase withData hc).mem_iff.2 (List.mem_cons_of_mem c hc')
    | close hne' hnone hr =>
      obtain ⟨rest, hrest, hgroups⟩ := Except.bind_eq_ok_iff.1 (hr.symm.trans h)
      cases hgroups
      have hcurrent_ne : currentGroup.connections ≠ [] := by
        rcases hne with hne | ⟨c, hc, hi⟩
        · exact hne
        · exact absurd hi (hnone c hc)
      refine ⟨List.length_pos_iff.2 hcurrent_ne, ?_, ?_⟩
      · -- a later group has only connections that are left
        intro b hb i hi
        obtain ⟨g, hg, rfl⟩ := List.mem_map.1 hb
        have hconsecutive := groupConnections_consecutive (emptyGroup_consecutive _) rfl hrest g hg
        obtain ⟨c, hc, rfl⟩ := (mem_blockOf_iff hconsecutive).1 hi
        have hleft : c ∈ withData ++ withoutData :=
          (groupConnections_perm hrest).mem_iff.1 (List.mem_flatMap.2 ⟨g, hg, hc⟩)
        rw [blockOf_eq hcurrent hcurrent_ne]
        exact ⟨hfirst c hleft, hinput ▸ hnone c hleft⟩
      · exact ih (emptyGroup_consecutive _) rfl (fun c hc => minInputIndex_le hc)
          (Or.inr (minInputIndex_mem hne')) hrest

theorem mem_sortConnections : c ∈ sortConnections localeCompare cs ↔ c ∈ cs :=
  (List.perm_insertionSort _ _).mem_iff

theorem getSourceDataGroups_greedy {graph : DirectedGraph} {node : INode} {runData : IRunData}
    {pinnedData : IPinData}
    (h : getSourceDataGroups localeCompare graph node runData pinnedData = .ok groups) :
    Greedy (groups.map blockOf) ∧
      ∀ g ∈ groups, g.complete = g.connections.all (hasSourceData runData pinnedData) := by
  rw [getSourceDataGroups] at h
  dsimp only at h
  split_ifs at h with hnil
  · cases h
    exact ⟨trivial, fun g hg => absurd hg List.not_mem_nil⟩
  · refine ⟨groupConnections_greedy (emptyGroup_consecutive _) rfl (fun c hc => minInputIndex_le hc)
      (Or.inr (minInputIndex_mem fun hne => hnil (List.append_eq_nil_iff.1 hne))) h,
      groupConnections_complete (fun c hc => ?_) (fun c hc => ?_) rfl h⟩
    · exact (List.mem_filter.1 (mem_sortConnections.1 hc)).2
    · have hdata := (List.mem_filter.1 (mem_sortConnections.1 hc)).2
      rw [Bool.and_eq_true, Bool.not_eq_true'] at hdata
      exact hdata.1

/-! ### The exact condition -/

/-- **The groups are as few and as full as can be** exactly when no input has fewer connections than
one before it and one after it. -/
theorem getSourceDataGroups_fewAndFull_iff (localeCompare : String → String → ℤ)
    (graph : DirectedGraph) (node : INode) (runData : IRunData) (pinnedData : IPinData) :
    ∃ groups, getSourceDataGroups localeCompare graph node runData pinnedData = .ok groups ∧
      (FewAndFull (hasSourceData runData pinnedData)
          (groupedConnections graph node runData pinnedData) groups ↔
        NoValley (connectionsInto (groupedConnections graph node runData pinnedData))) := by
  obtain ⟨groups, hok, hperm⟩ :=
    getSourceDataGroups_perm localeCompare graph node runData pinnedData
  have hconsecutive := getSourceDataGroups_consecutive hok
  obtain ⟨hgreedy, hcomplete⟩ := getSourceDataGroups_greedy hok
  have hheight : connectionsInto (groupedConnections graph node runData pinnedData) =
      height (groups.map blockOf) := by
    funext i
    rw [← connectionsInto_flatMap hconsecutive]
    exact (hperm.countP_eq _).symm
  have hlength : (groups.map blockOf).length = groups.length := List.length_map _
  refine ⟨groups, hok, fun h => ?_, fun hvalley => ?_⟩
  · obtain ⟨⟨p, hp⟩, -⟩ := h.few
    rw [hheight, ← hlength] at hp
    rw [hheight]
    exact Layers.noValley_of_height_eq_length hp
  · rw [hheight] at hvalley
    refine ⟨hperm, fun g hg => List.pairwise_map.2 (hconsecutive g hg).pairwise, hcomplete,
      ⟨?_, ?_⟩, fun k g hk i => ?_⟩
    · obtain ⟨p, hp⟩ := hgreedy.exists_height_eq_length hvalley
      exact ⟨p, by rw [hheight, hp, hlength]⟩
    · rintro n ⟨i, rfl⟩
      rw [hheight, ← hlength]
      exact Layers.height_le_length i
    · have hblock : (groups.map blockOf)[k]? = some (blockOf g) := by
        rw [List.getElem?_map, hk]
        rfl
      rw [hheight, ← hgreedy.mem_iff hvalley hblock i,
        mem_blockOf_iff (hconsecutive g (List.mem_of_getElem? hk))]

/-- The graph in which `A` and `B` feed the first input of `M`, `C` the second, `D` and `E` the
third. -/
def graphOfFive : Except JsError DirectedGraph :=
  (DirectedGraph.empty.addNodes (({ name := "M" } : INode) ::
    ["A", "B", "C", "D", "E"].map fun name => { name := name })).addConnections ([("A", 0), ("B", 0), ("C", 1), ("D", 2), ("E", 2)].map
      fun (name, i) => ⟨{ name := name }, { name := "M" }, .main, 0, i⟩)

/-- The run data in which all five ran. -/
def runDataOfFive : IRunData :=
  ["A", "B", "C", "D", "E"].foldl (fun runData name => runData.set name []) Dict.empty

/-- All five sources have data, and `B` and `E` are in groups of their own. -/
theorem exhausted_input_splits_group : ∃ graph groups, graphOfFive = .ok graph ∧
    getSourceDataGroups compareText graph { name := "M" } runDataOfFive Dict.empty = .ok groups ∧
    ¬FewAndFull (hasSourceData runDataOfFive Dict.empty)
      (groupedConnections graph { name := "M" } runDataOfFive Dict.empty) groups := by
  refine ⟨_, _, rfl, rfl, fun h => ?_⟩
  have hfull := (h.full 1 _ rfl 2).2 (by decide)
  exact absurd hfull (by decide)

end N8n
