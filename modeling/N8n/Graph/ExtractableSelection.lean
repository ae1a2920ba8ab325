import N8n.Graph.GraphUtils

/-!
# What an accepted selection guarantees

* `hasPath_iff`: the search finds a path of main connections exactly when there is one;
* `parse_eq_ok`: what `parseExtractableSubgraphSelection` checks;
* `Replaceable`, `replaceable_iff`: an accepted selection can be replaced by one node, unless its
  input or output node is named by the empty string.
-/

namespace N8n

variable {adjacencyList : IConnectionAdjacencyList} {graphIds : OrderedSet String}

/-- There is a main connection from `a` to `b`. -/
def MainConnection (adjacencyList : IConnectionAdjacencyList) (a b : String) : Prop :=
  ∃ c ∈ adjacencyList.from a, c.type = .main ∧ c.node = b

/-- There is a path of main connections from `a` to `b`. -/
def MainPath (adjacencyList : IConnectionAdjacencyList) : String → String → Prop :=
  Relation.ReflTransGen (MainConnection adjacencyList)

variable {a b stop : String} {c : IConnection}

theorem mem_mainTargets : b ∈ mainTargets adjacencyList a ↔ MainConnection adjacencyList a b := by
  rw [mainTargets, OrderedSet.mem_ofList, MainConnection]
  simp [and_assoc]

/-! ### The search -/

theorem mainPath_of_hasPathLoop {seen : OrderedSet String} {paths : List String}
    (h : hasPathLoop stop adjacencyList seen paths) :
    ∃ a ∈ paths, MainPath adjacencyList a stop := by
  induction seen, paths using hasPathLoop.induct stop adjacencyList with
  | case1 seen => simp [hasPathLoop] at h
  | case2 seen paths => exact ⟨stop, List.mem_cons_self, Relation.ReflTransGen.refl⟩
  | case3 seen next paths hne ih =>
    rw [hasPathLoop, if_neg hne] at h
    obtain ⟨a, ha, hp⟩ := ih h
    rw [List.mem_append, List.mem_reverse] at ha
    rcases ha with ha | ha
    · have hm := mem_mainTargets.1 (mem_unseenTargets.1 ha).1
      exact ⟨next, List.mem_cons_self, Relation.ReflTransGen.head hm hp⟩
    · exact ⟨a, List.mem_cons_of_mem _ ha, hp⟩

/-- What the search has seen leads only to what it has seen or still has on its stack, and not to
the node it looks for. -/
structure SearchInv (adjacencyList : IConnectionAdjacencyList) (stop : String)
    (seen : OrderedSet String) (paths : List String) : Prop where
  closed : ∀ a ∈ seen, ∀ b, MainConnection adjacencyList a b → b ∈ seen ∨ b ∈ paths
  notStop : stop ∉ seen

theorem SearchInv.step {stop next : String} {seen : OrderedSet String} {paths : List String}
    (h : SearchInv adjacencyList stop seen (next :: paths)) (hne : next ≠ stop) :
    SearchInv adjacencyList stop (seen.insert next)
      ((unseenTargets adjacencyList seen next).reverse ++ paths) where
  closed a ha b hb := by
    rw [OrderedSet.mem_insert, List.mem_append, List.mem_reverse, mem_unseenTargets]
    rcases OrderedSet.mem_insert.1 ha with ha | rfl
    · rcases h.closed a ha b hb with hs | hp
      · exact Or.inl (Or.inl hs)
      · rcases List.mem_cons.1 hp with rfl | hp
        · exact Or.inl (Or.inr rfl)
        · exact Or.inr (Or.inr hp)
    · by_cases hs : b ∈ seen ∨ b = a
      · exact Or.inl hs
      · rw [not_or] at hs
        exact Or.inr (Or.inl ⟨mem_mainTargets.2 hb, hs⟩)
  notStop hs := by
    rcases OrderedSet.mem_insert.1 hs with hs | rfl
    · exact h.notStop hs
    · exact hne rfl

theorem not_mainPath_of_hasPathLoop {seen : OrderedSet String} {paths : List String}
    (hinv : SearchInv adjacencyList stop seen paths)
    (h : hasPathLoop stop adjacencyList seen paths = false) (ha : a ∈ seen ∨ a ∈ paths) :
    ¬ MainPath adjacencyList a stop := by
  induction seen, paths using hasPathLoop.induct stop adjacencyList with
  | case1 seen =>
    have hin : ∀ b, MainPath adjacencyList a b → b ∈ seen := by
      intro b hb
      induction hb with
      | refl => exact ha.resolve_right List.not_mem_nil
      | tail _ hbc ih => exact (hinv.closed _ ih _ hbc).resolve_right List.not_mem_nil
    exact fun hp => hinv.notStop (hin stop hp)
  | case2 seen paths =>
    rw [hasPathLoop, if_pos rfl] at h
    cases h
  | case3 seen next paths hne ih =>
    rw [hasPathLoop, if_neg hne] at h
    refine ih (hinv.step hne) h ?_
    rw [OrderedSet.mem_insert, List.mem_append]
    rcases ha with ha | ha
    · exact Or.inl (Or.inl ha)
    · rcases List.mem_cons.1 ha with rfl | ha
      · exact Or.inl (Or.inr rfl)
      · exact Or.inr (Or.inr ha)

/-- **The search is right**: it answers whether there is a path of main connections. -/
theorem hasPath_iff {start : String} :
    hasPath start stop adjacencyList ↔ MainPath adjacencyList start stop := by
  constructor
  · intro h
    obtain ⟨a, ha, hp⟩ := mainPath_of_hasPathLoop h
    exact List.mem_singleton.1 ha ▸ hp
  · intro hp
    by_contra h
    have hinv : SearchInv adjacencyList stop .empty [start] :=
      { closed := fun a ha => absurd ha List.not_mem_nil
        notStop := List.not_mem_nil }
    exact not_mainPath_of_hasPathLoop hinv (Bool.eq_false_iff.2 h)
      (Or.inr List.mem_cons_self) hp

/-! ### The border of the selection -/

/-- A node of the selection that a main connection from outside leads to. -/
def InputNode (graphIds : OrderedSet String) (adjacencyList : IConnectionAdjacencyList)
    (b : String) : Prop :=
  ∃ a, a ∉ graphIds ∧ b ∈ graphIds ∧ MainConnection adjacencyList a b

/-- A node of the selection that a main connection to the outside leaves from. -/
def OutputNode (graphIds : OrderedSet String) (adjacencyList : IConnectionAdjacencyList)
    (a : String) : Prop :=
  ∃ b, a ∈ graphIds ∧ b ∉ graphIds ∧ MainConnection adjacencyList a b

theorem mem_from_iff :
    c ∈ adjacencyList.from a ↔ ∃ tos, (a, tos) ∈ adjacencyList.entries ∧ c ∈ tos := by
  rw [IConnectionAdjacencyList.from]
  constructor
  · intro hc
    cases hg : adjacencyList.get? a with
    | none => simp [hg] at hc
    | some tos =>
      rw [hg] at hc
      exact ⟨tos, (adjacencyList.mem_entries_iff a tos).2 hg, hc⟩
  · rintro ⟨tos, he, hc⟩
    rw [(adjacencyList.mem_entries_iff a tos).1 he]
    exact hc

theorem mem_getInputEdges :
    (a, c) ∈ getInputEdges graphIds adjacencyList ↔
      a ∉ graphIds ∧ c.node ∈ graphIds ∧ c ∈ adjacencyList.from a := by
  rw [getInputEdges, List.mem_flatMap, mem_from_iff]
  constructor
  · rintro ⟨⟨k, tos⟩, he, hm⟩
    split_ifs at hm with hk
    · cases hm
    · obtain ⟨c', hc', heq⟩ := List.mem_map.1 hm
      obtain ⟨rfl, rfl⟩ := Prod.mk.inj heq
      rw [List.mem_filter, decide_eq_true_iff] at hc'
      exact ⟨hk, hc'.2, tos, he, hc'.1⟩
  · rintro ⟨ha, hc, tos, he, hm⟩
    refine ⟨(a, tos), he, ?_⟩
    rw [if_neg ha]
    exact List.mem_map_of_mem (List.mem_filter.2 ⟨hm, by simpa using hc⟩)

theorem mem_getOutputEdges :
    (a, c) ∈ getOutputEdges graphIds adjacencyList ↔
      a ∈ graphIds ∧ c.node ∉ graphIds ∧ c ∈ adjacencyList.from a := by
  rw [getOutputEdges, List.mem_flatMap, mem_from_iff]
  constructor
  · rintro ⟨⟨k, tos⟩, he, hm⟩
    split_ifs at hm with hk
    · obtain ⟨c', hc', heq⟩ := List.mem_map.1 hm
      obtain ⟨rfl, rfl⟩ := Prod.mk.inj heq
      rw [List.mem_filter, decide_eq_true_iff] at hc'
      exact ⟨hk, hc'.2, tos, he, hc'.1⟩
    · cases hm
  · rintro ⟨ha, hc, tos, he, hm⟩
    refine ⟨(a, tos), he, ?_⟩
    rw [if_pos ha]
    exact List.mem_map_of_mem (List.mem_filter.2 ⟨hm, by simpa using hc⟩)

theorem mem_inputNodes :
    b ∈ inputNodes graphIds adjacencyList ↔ InputNode graphIds adjacencyList b := by
  rw [inputNodes, OrderedSet.mem_ofList, List.mem_map]
  constructor
  · rintro ⟨⟨a, c⟩, he, rfl⟩
    rw [List.mem_filter, mem_getInputEdges, decide_eq_true_iff] at he
    exact ⟨a, he.1.1, he.1.2.1, c, he.1.2.2, he.2, rfl⟩
  · rintro ⟨a, ha, hb, c, hc, ht, rfl⟩
    exact ⟨(a, c), List.mem_filter.2 ⟨mem_getInputEdges.2 ⟨ha, hb, hc⟩, by simpa using ht⟩, rfl⟩

theorem mem_outputNodes :
    a ∈ outputNodes graphIds adjacencyList ↔ OutputNode graphIds adjacencyList a := by
  rw [outputNodes, OrderedSet.mem_ofList, List.mem_map]
  constructor
  · rintro ⟨⟨a, c⟩, he, rfl⟩
    rw [List.mem_filter, mem_getOutputEdges, decide_eq_true_iff] at he
    exact ⟨c.node, he.1.1, he.1.2.1, c, he.1.2.2, he.2, rfl⟩
  · rintro ⟨b, ha, hb, c, hc, ht, rfl⟩
    exact ⟨(a, c), List.mem_filter.2 ⟨mem_getOutputEdges.2 ⟨ha, hb, hc⟩, by simpa using ht⟩, rfl⟩

/-- The border nodes that are kept: all of them when they are among the tolerated ones, and then
the first is the only one. -/
theorem head?_inter_iff {nodes tolerated : OrderedSet String}
    (hsub : (nodes.diff tolerated).elems = []) (hsize : ¬ 1 < (tolerated.inter nodes).size) :
    (tolerated.inter nodes).elems.head? = some a ↔ a ∈ nodes := by
  rw [OrderedSet.head?_of_size_le (Nat.le_of_not_lt hsize), OrderedSet.mem_inter]
  exact ⟨And.right, fun h => ⟨OrderedSet.diff_eq_nil.1 hsub a h, h⟩⟩

/-- What a selection without errors has passed: one input node at most, one output node at most,
and a path between them when both names count as true. -/
theorem of_selectionErrors_eq_nil {rootNodes ins leafNodes outs : OrderedSet String}
    (h : selectionErrors adjacencyList rootNodes ins leafNodes outs = []) :
    (∀ a, (rootNodes.inter ins).elems.head? = some a ↔ a ∈ ins) ∧
      (∀ a, (leafNodes.inter outs).elems.head? = some a ↔ a ∈ outs) ∧
      ∀ a b, (rootNodes.inter ins).elems.head? = some a →
        (leafNodes.inter outs).elems.head? = some b → a ≠ "" → b ≠ "" →
        MainPath adjacencyList a b := by
  simp only [selectionErrors, List.append_eq_nil_iff, List.map_eq_nil_iff] at h
  obtain ⟨⟨⟨⟨hin, hins⟩, hout⟩, houts⟩, hpath⟩ := h
  refine ⟨fun a => head?_inter_iff hin fun hlt => ?_, fun a => head?_inter_iff hout fun hlt => ?_,
    fun a b ha hb hane hbne => ?_⟩
  · rw [if_pos hlt] at hins
    cases hins
  · rw [if_pos hlt] at houts
    cases houts
  · rw [ha, hb] at hpath
    by_contra hnot
    rw [if_pos ⟨by simpa [truthy] using hane, by simpa [truthy] using hbne,
      fun hp => hnot (hasPath_iff.1 hp)⟩] at hpath
    cases hpath

theorem parse_eq_ok {data : ExtractableSubgraphData}
    (h : parseExtractableSubgraphSelection graphIds adjacencyList = .ok data) :
    (∀ a, data.start = some a ↔ InputNode graphIds adjacencyList a) ∧
      (∀ a, data.stop = some a ↔ OutputNode graphIds adjacencyList a) ∧
      ∀ a b, data.start = some a → data.stop = some b → a ≠ "" → b ≠ "" →
        MainPath adjacencyList a b := by
  rw [parseExtractableSubgraphSelection] at h
  by_cases herr : selectionErrors adjacencyList
      (tolerated (getRootNodes graphIds adjacencyList) (inputNodes graphIds adjacencyList))
      (inputNodes graphIds adjacencyList)
      (tolerated (getLeafNodes graphIds adjacencyList) (outputNodes graphIds adjacencyList))
      (outputNodes graphIds adjacencyList) = []
  · rw [if_pos herr] at h
    cases h
    obtain ⟨hin, hout, hpath⟩ := of_selectionErrors_eq_nil herr
    exact ⟨fun a => (hin a).trans mem_inputNodes, fun a => (hout a).trans mem_outputNodes, hpath⟩
  · rw [if_neg herr] at h
    cases h

/-! ### Replacing the selection by one node -/

/-- There is a path of main connections from `a` to `b` over selected nodes only. -/
def SelectedPath (graphIds : OrderedSet String) (adjacencyList : IConnectionAdjacencyList)
    (a b : String) : Prop :=
  a ∈ graphIds ∧ Relation.ReflTransGen
    (fun x y => y ∈ graphIds ∧ MainConnection adjacencyList x y) a b

/-- A selection that one node can stand for: main connections enter it at `start` and leave it at
`stop`, and its nodes join the two. -/
structure Replaceable (graphIds : OrderedSet String) (adjacencyList : IConnectionAdjacencyList)
    (data : ExtractableSubgraphData) : Prop where
  inputs : ∀ a b, a ∉ graphIds → b ∈ graphIds → MainConnection adjacencyList a b →
    data.start = some b
  outputs : ∀ a b, a ∈ graphIds → b ∉ graphIds → MainConnection adjacencyList a b →
    data.stop = some a
  start_none : data.start = none ↔
    ¬ ∃ a b, a ∉ graphIds ∧ b ∈ graphIds ∧ MainConnection adjacencyList a b
  stop_none : data.stop = none ↔
    ¬ ∃ a b, a ∈ graphIds ∧ b ∉ graphIds ∧ MainConnection adjacencyList a b
  path : ∀ a b, data.start = some a → data.stop = some b → SelectedPath graphIds adjacencyList a b

/-- A path to the only node that leaves the selection stays inside until it gets there. -/
theorem MainPath.selected (h : MainPath adjacencyList a b)
    (hout : ∀ x, OutputNode graphIds adjacencyList x → x = b) (ha : a ∈ graphIds) :
    SelectedPath graphIds adjacencyList a b := by
  refine ⟨ha, ?_⟩
  induction h using Relation.ReflTransGen.head_induction_on with
  | refl => exact Relation.ReflTransGen.refl
  | @head x y hxy _ ih =>
    by_cases hy : y ∈ graphIds
    · exact Relation.ReflTransGen.head ⟨hy, hxy⟩ (ih hy)
    · exact hout x ⟨y, ha, hy, hxy⟩ ▸ Relation.ReflTransGen.refl

theorem SelectedPath.mainPath (h : SelectedPath graphIds adjacencyList a b) :
    MainPath adjacencyList a b :=
  Relation.ReflTransGen.mono (fun _ _ hxy => hxy.2) _ _ h.2

/-- A node named by the empty string counts as no node when the path is asked for: the input and
the output node, if one of them is so named, have to be joined without that. -/
def EmptyNamesJoined (graphIds : OrderedSet String) (adjacencyList : IConnectionAdjacencyList) :
    Prop :=
  ∀ a b, InputNode graphIds adjacencyList a → OutputNode graphIds adjacencyList b →
    a = "" ∨ b = "" → MainPath adjacencyList a b

/-- **An accepted selection can be replaced by one node** exactly when its input and output nodes
are joined also where one of them is named by the empty string. -/
theorem replaceable_iff {data : ExtractableSubgraphData}
    (h : parseExtractableSubgraphSelection graphIds adjacencyList = .ok data) :
    Replaceable graphIds adjacencyList data ↔ EmptyNamesJoined graphIds adjacencyList := by
  obtain ⟨hin, hout, hpath⟩ := parse_eq_ok h
  constructor
  · intro hr a b ha hb _
    exact (hr.path a b ((hin a).2 ha) ((hout b).2 hb)).mainPath
  · intro hj
    refine ⟨fun a b ha hb hab => (hin b).2 ⟨a, ha, hb, hab⟩,
      fun a b ha hb hab => (hout a).2 ⟨b, ha, hb, hab⟩, ?_, ?_, fun a b ha hb => ?_⟩
    · rw [Option.eq_none_iff_forall_ne_some]
      exact ⟨fun hn ⟨a, b, hab⟩ => hn b ((hin b).2 ⟨a, hab⟩),
        fun hn b hb => hn ((hin b).1 hb |>.imp fun a hab => ⟨b, hab⟩)⟩
    · rw [Option.eq_none_iff_forall_ne_some]
      exact ⟨fun hn ⟨a, b, hab⟩ => hn a ((hout a).2 ⟨b, hab⟩),
        fun hn a ha => hn ⟨a, (hout a).1 ha⟩⟩
    · have hab : MainPath adjacencyList a b := by
        by_cases he : a = "" ∨ b = ""
        · exact hj a b ((hin a).1 ha) ((hout b).1 hb) he
        · rw [not_or] at he
          exact hpath a b ha hb he.1 he.2
      obtain ⟨_, _, hsel, _⟩ := (hin a).1 ha
      refine hab.selected (fun x hx => ?_) hsel
      have hx' := (hout x).2 hx
      rw [hb] at hx'
      exact (Option.some.inj hx').symm

/-- A main connection to the first input of a node. -/
def mainTo (node : String) : IConnection := ⟨node, .main, 0⟩

theorem replaceable_iff_entry : Replaceable (.ofList ["a", "b"])
    (.ofList [("o", [mainTo "a"]), ("a", [mainTo "b"])]) ⟨some "a", none⟩ := by
  refine (replaceable_iff (by decide)).2 ?_
  rintro a b ⟨_, _, ha, _⟩ ⟨_, hb, _⟩ (rfl | rfl)
  · exact absurd ha (by decide)
  · exact absurd hb (by decide)

/-- With an input node named by the empty string, a selection without a path is accepted. -/
theorem parse_accepts_empty_name :
    parseExtractableSubgraphSelection (.ofList ["", "b"])
        (.ofList [("o", [mainTo ""]), ("b", [mainTo "p"])]) = .ok ⟨some "", some "b"⟩ ∧
      ¬ Replaceable (.ofList ["", "b"]) (.ofList [("o", [mainTo ""]), ("b", [mainTo "p"])])
        ⟨some "", some "b"⟩ := by
  refine ⟨by decide, fun h => ?_⟩
  obtain ⟨-, hp⟩ := h.path "" "b" rfl rfl
  have hnone : IConnectionAdjacencyList.from
      (.ofList [("o", [mainTo ""]), ("b", [mainTo "p"])]) "" = [] := by decide
  rcases hp.cases_head with heq | ⟨c, ⟨-, x, hx, -⟩, -⟩
  · exact absurd heq (by decide)
  · rw [hnone] at hx
    cases hx

end N8n
