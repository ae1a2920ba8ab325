import N8n.Graph.RemoveNode
import N8n.Lib.Walks

/-!
# Disabled nodes are contracted

`filter-disabled-nodes.ts`: the disabled nodes are removed one after the other.

* `MainWalk`, `Arises`: walks of main connections with inner nodes in a set, and the connections
  that arise when the set is contracted;
* `Contracts`: what the graph is after some nodes were removed, `Contracts.removeNode`: one more;
* `ContractsDisabled`, `DisabledCycle`, `filterDisabledNodes_contracts_iff`: the exact condition.
-/

namespace N8n

open DirectedGraph

def filterDisabledNodes (graph : DirectedGraph) : Except JsError DirectedGraph := do
  let filteredGraph ← graph.clone
  filteredGraph.getNodes.foldlM (fun filteredGraph node =>
    if node.disabled = some true then
      Prod.fst <$> filteredGraph.removeNode node true fun c => c.type ≠ .main
    else .ok filteredGraph) filteredGraph

namespace DirectedGraph

variable {g g' : DirectedGraph} {S T : INode → Prop}

/-! ### Connections that arise -/

/-- A walk of main connections with all inner nodes in `S`: the output that it leaves `u` by, and
the input that it enters `v` by. -/
abbrev MainWalk (g : DirectedGraph) (S : INode → Prop) : INode → ℕ → INode → ℕ → Prop :=
  Through (fun u o v i => ⟨u, v, .main, o, i⟩ ∈ g.getConnections) S

/-- The connections that arise when the nodes of `S` are contracted. -/
def Arises (g : DirectedGraph) (S : INode → Prop) (c : GraphConnection) : Prop :=
  c.type = .main ∧ g.MainWalk S c.fromNode c.outputIndex c.toNode c.inputIndex ∨
    c.type ≠ .main ∧ c ∈ g.getConnections

theorem Arises.mono (hST : ∀ n, S n → T n) {c : GraphConnection} (h : g.Arises S c) :
    g.Arises T c :=
  h.imp_left fun h => ⟨h.1, h.2.mono hST⟩

theorem arises_of_mem {c : GraphConnection} (hc : c ∈ g.getConnections) : g.Arises S c := by
  by_cases hmain : c.type = .main
  · refine Or.inl ⟨hmain, .single ?_⟩
    rwa [← hmain]
  · exact Or.inr ⟨hmain, hc⟩

theorem Arises.mem_getNodes (hclosed : g.Closed) {c : GraphConnection} (h : g.Arises S c) :
    c.fromNode ∈ g.getNodes ∧ c.toNode ∈ g.getNodes := by
  rcases h with ⟨-, hwalk⟩ | ⟨-, hc⟩
  · obtain ⟨w, j, hfirst⟩ := hwalk.exists_edge_from
    obtain ⟨w', p, hlast⟩ := hwalk.exists_edge_to
    exact ⟨(hclosed _ hfirst).1, (hclosed _ hlast).2⟩
  · exact hclosed c hc

/-! ### The disabled nodes one after the other -/

/-- What a graph has become when the nodes of `S` were removed from `g`: between the others are the
connections that arise; a connection to a removed node is left exactly if there is a cycle of
removed nodes. -/
structure Contracts (g : DirectedGraph) (S : INode → Prop) (g' : DirectedGraph) : Prop where
  nodes : ∀ n, n ∈ g'.getNodes ↔ n ∈ g.getNodes ∧ ¬ S n
  arises : ∀ c ∈ g'.getConnections, g.Arises S c
  complete : ∀ c, g.Arises S c → ¬ S c.fromNode → ¬ S c.toNode → c ∈ g'.getConnections
  cycle : ∀ c ∈ g'.getConnections, S c.fromNode ∨ S c.toNode →
    ∃ n o i, S n ∧ g.MainWalk S n o n i
  loop : (∃ n o i, S n ∧ g.MainWalk S n o n i) →
    ∃ c ∈ g'.getConnections, S c.fromNode ∧ c.toNode = c.fromNode

theorem Contracts.congr (h : g.Contracts S g') (hST : ∀ n, S n ↔ T n) : g.Contracts T g' := by
  have heq : S = T := funext fun n => propext (hST n)
  exact heq ▸ h

theorem Contracts.removeNode (h : g.Contracts S g') {node : INode} (hnode : node ∈ g.getNodes)
    (hnot : ¬ S node) (hST : ∀ n, S n ∨ n = node → T n)
    (hkeys : ∀ c c', g.Arises T c → g.Arises T c' → makeKey c = makeKey c' → c = c') :
    ∃ g'' new, g'.removeNode node true (fun c => c.type ≠ .main) = .ok (g'', new) ∧
      g.Contracts (fun n => S n ∨ n = node) g'' := by
  have harises : ∀ c ∈ g'.reconnections node, g.Arises (fun n => S n ∨ n = node) c := by
    intro c hc
    obtain ⟨hmain, ⟨j, hin⟩, p, hout⟩ := mem_reconnections.1 hc
    refine Or.inl ⟨hmain, Through.or_eq_iff.2 (Or.inr ⟨⟨j, ?_⟩, p, ?_⟩)⟩
    · exact ((h.arises _ hin).resolve_right fun hno => hno.1 rfl).2
    · exact ((h.arises _ hout).resolve_right fun hno => hno.1 rfl).2
  have harises' : ∀ c, c ∈ g'.getConnections ∨ c ∈ g'.reconnections node →
      g.Arises (fun n => S n ∨ n = node) c := by
    rintro c (hc | hc)
    · exact (h.arises c hc).mono fun n => Or.inl
    · exact harises c hc
  obtain ⟨g'', new, hremove, hnodes, hconnections⟩ := removeNode_spec
    ((h.nodes node).2 ⟨hnode, hnot⟩) fun c c' hc hc' =>
      hkeys c c' ((harises' c hc).mono hST) ((harises' c' hc').mono hST)
  refine ⟨g'', new, hremove, fun n => ?_, fun c hc => ?_, fun c hc hfrom hto => ?_,
    fun c hc hdangling => ?_, fun hcycle => ?_⟩
  · rw [hnodes, h.nodes, not_or, and_assoc]
  · exact harises' c (((hconnections c).1 hc).imp_left And.left)
  · rw [not_or] at hfrom hto
    rw [hconnections]
    rcases hc with ⟨hmain, hwalk⟩ | hother
    · rcases Through.or_eq_iff.1 hwalk with hwalk | ⟨⟨j, hfirst⟩, p, hlast⟩
      · exact Or.inl ⟨h.complete c (Or.inl ⟨hmain, hwalk⟩) hfrom.1 hto.1, hfrom.2, hto.2⟩
      · refine Or.inr (mem_reconnections.2 ⟨hmain, ⟨j, ?_⟩, p, ?_⟩)
        · exact h.complete _ (Or.inl ⟨rfl, hfirst⟩) hfrom.1 hnot
        · exact h.complete _ (Or.inl ⟨rfl, hlast⟩) hnot hto.1
    · exact Or.inl ⟨h.complete c (Or.inr hother) hfrom.1 hto.1, hfrom.2, hto.2⟩
  · refine Through.exists_cycle_or_eq_iff.2 ?_
    rcases (hconnections c).1 hc with ⟨hc, hfrom, hto⟩ | hc
    · refine Or.inl (h.cycle c hc ?_)
      exact hdangling.imp (fun h => h.resolve_right hfrom) fun h => h.resolve_right hto
    · obtain ⟨-, ⟨j, hin⟩, p, hout⟩ := mem_reconnections.1 hc
      rcases hdangling with (hfrom | hfrom) | hto | hto
      · exact Or.inl (h.cycle _ hin (Or.inl hfrom))
      · rw [hfrom] at hin
        exact Or.inr ⟨_, _, ((h.arises _ hin).resolve_right fun hno => hno.1 rfl).2⟩
      · exact Or.inl (h.cycle _ hout (Or.inr hto))
      · rw [hto] at hout
        exact Or.inr ⟨_, _, ((h.arises _ hout).resolve_right fun hno => hno.1 rfl).2⟩
  · rcases Through.exists_cycle_or_eq_iff.1 hcycle with hcycle | ⟨o, i, hloop⟩
    · obtain ⟨c, hc, hfrom, hto⟩ := h.loop hcycle
      have hne : c.fromNode ≠ node := by
        rintro rfl
        exact hnot hfrom
      exact ⟨c, (hconnections c).2 (Or.inl ⟨hc, hne, hto ▸ hne⟩), Or.inl hfrom, hto⟩
    · have hmem : ⟨node, node, .main, o, i⟩ ∈ g'.getConnections :=
        h.complete _ (Or.inl ⟨rfl, hloop⟩) hnot hnot
      refine ⟨⟨node, node, .main, o, i⟩, (hconnections _).2 (Or.inr ?_), Or.inr rfl, rfl⟩
      exact mem_reconnections.2 ⟨rfl, ⟨i, hmem⟩, o, hmem⟩

end DirectedGraph

/-! ### All disabled nodes -/

variable {g : DirectedGraph}

def INode.IsDisabled (n : INode) : Prop := n.disabled = some true

/-- **What filtering is to leave**: the enabled nodes, connections between them, and for main
connections those of the walks whose inner nodes are disabled. -/
structure ContractsDisabled (g g' : DirectedGraph) : Prop where
  nodes : ∀ n, n ∈ g'.getNodes ↔ n ∈ g.getNodes ∧ ¬ n.IsDisabled
  closed : g'.Closed
  connections : ∀ u o v i, u ∈ g.getNodes → ¬ u.IsDisabled → v ∈ g.getNodes → ¬ v.IsDisabled →
    (⟨u, v, .main, o, i⟩ ∈ g'.getConnections ↔ g.MainWalk INode.IsDisabled u o v i)

/-- Different connections that arise have different keys. -/
def KeysDiffer (g : DirectedGraph) : Prop :=
  ∀ c c', g.Arises INode.IsDisabled c → g.Arises INode.IsDisabled c' → makeKey c = makeKey c' →
    c = c'

/-- A cycle of main connections through disabled nodes only. -/
def DisabledCycle (g : DirectedGraph) : Prop :=
  ∃ n o i, n.IsDisabled ∧ g.MainWalk INode.IsDisabled n o n i

theorem foldlM_removeNode (hkeys : KeysDiffer g) {nodes : List INode} {S : INode → Prop}
    {g' : DirectedGraph} (h : g.Contracts S g') (hnodes : ∀ n ∈ nodes, n ∈ g.getNodes ∧ ¬ S n)
    (hnodup : nodes.Nodup) (hS : ∀ n, S n → n.IsDisabled) :
    ∃ g'', nodes.foldlM (fun filteredGraph node =>
        if node.disabled = some true then
          Prod.fst <$> filteredGraph.removeNode node true fun c => c.type ≠ .main
        else .ok filteredGraph) g' = .ok g'' ∧
      g.Contracts (fun n => S n ∨ n ∈ nodes ∧ n.IsDisabled) g'' := by
  induction nodes generalizing S g' with
  | nil =>
    refine ⟨g', rfl, ?_⟩
    simpa using h
  | cons node nodes ih =>
    rw [List.nodup_cons] at hnodup
    have hrest : ∀ n ∈ nodes, n ∈ g.getNodes ∧ ¬ S n := fun n hn =>
      hnodes n (List.mem_cons_of_mem _ hn)
    obtain ⟨hnode, hnot⟩ := hnodes node List.mem_cons_self
    rw [List.foldlM_cons]
    by_cases hdisabled : node.disabled = some true
    · have hS' : ∀ n, S n ∨ n = node → n.IsDisabled := by
        rintro n (hn | rfl)
        · exact hS n hn
        · exact hdisabled
      obtain ⟨g₁, new, hremove, h₁⟩ := h.removeNode hnode hnot hS' hkeys
      have hrest' : ∀ n ∈ nodes, n ∈ g.getNodes ∧ ¬ (S n ∨ n = node) := by
        refine fun n hn => ⟨(hrest n hn).1, ?_⟩
        rintro (hn' | rfl)
        · exact (hrest n hn).2 hn'
        · exact hnodup.1 hn
      obtain ⟨g₂, hfold, h₂⟩ := ih h₁ hrest' hnodup.2 hS'
      refine ⟨g₂, ?_, h₂.congr fun n => ?_⟩
      · rw [if_pos hdisabled, hremove]
        exact hfold
      · rw [List.mem_cons, or_and_right, or_assoc]
        refine or_congr_right (or_congr_left ⟨?_, And.left⟩)
        rintro rfl
        exact ⟨rfl, hdisabled⟩
    · obtain ⟨g₂, hfold, h₂⟩ := ih h hrest hnodup.2 hS
      refine ⟨g₂, ?_, ?_⟩
      · rw [if_neg hdisabled]
        exact hfold
      · refine h₂.congr fun n => ?_
        rw [List.mem_cons, or_and_right]
        refine or_congr_right (or_iff_right ?_).symm
        rintro ⟨rfl, hn⟩
        exact hdisabled hn

theorem filterDisabledNodes_spec (hclosed : g.Closed) (hkeys : KeysDiffer g) :
    ∃ g', filterDisabledNodes g = .ok g' ∧
      g.Contracts (fun n => n ∈ g.getNodes ∧ n.IsDisabled) g' := by
  obtain ⟨g₁, hclone, hnodes, hconnections⟩ := clone_spec hclosed
  have h₁ : g.Contracts (fun _ => False) g₁ := by
    refine ⟨fun n => ?_, fun c hc => ?_, fun c hc _ _ => ?_, fun _ _ h => ?_, fun h => ?_⟩
    · simp [hnodes]
    · exact arises_of_mem ((hconnections c).1 hc)
    · rw [hconnections]
      rcases hc with ⟨hmain, hwalk⟩ | ⟨-, hc⟩
      · cases hwalk with
        | single hc => rwa [← hmain] at hc
        | cons _ hno _ => exact hno.elim
      · exact hc
    · exact h.elim False.elim False.elim
    · obtain ⟨_, _, _, hno, _⟩ := h
      exact hno.elim
  obtain ⟨g₂, hfold, h₂⟩ := foldlM_removeNode hkeys h₁
    (fun n hn => ⟨(hnodes n).1 hn, id⟩) g₁.getNodes_nodup fun _ => False.elim
  refine ⟨g₂, ?_, h₂.congr fun n => ?_⟩
  · rw [filterDisabledNodes, hclone]
    exact hfold
  · rw [hnodes, false_or]

/-- **Filtering contracts the disabled nodes** exactly if they form no cycle. -/
theorem filterDisabledNodes_contracts_iff (g : DirectedGraph) (hclosed : g.Closed)
    (hkeys : KeysDiffer g) :
    (∃ g', filterDisabledNodes g = .ok g' ∧ ContractsDisabled g g') ↔ ¬ DisabledCycle g := by
  obtain ⟨g', hg', h⟩ := filterDisabledNodes_spec hclosed hkeys
  have hwalk : ∀ u o v i, g.MainWalk (fun n => n ∈ g.getNodes ∧ n.IsDisabled) u o v i ↔
      g.MainWalk INode.IsDisabled u o v i := by
    intro u o v i
    refine ⟨fun h => h.mono fun n => And.right, fun h => h.imp ?_⟩
    rintro n ⟨u, o, i, hc⟩ hn
    exact ⟨(hclosed _ hc).2, hn⟩
  have hnodes : ∀ n, n ∈ g'.getNodes ↔ n ∈ g.getNodes ∧ ¬ n.IsDisabled := by
    intro n
    rw [h.nodes, not_and]
    exact and_congr_right fun hn => ⟨fun hno => hno hn, fun hno _ => hno⟩
  constructor
  · rintro ⟨g'', hg'', hcontracts⟩ ⟨n, o, i, hn, hcycle⟩
    rw [hg'] at hg''
    cases hg''
    have hnode : n ∈ g.getNodes := by
      obtain ⟨w, j, hfirst⟩ := hcycle.exists_edge_from
      exact (hclosed _ hfirst).1
    obtain ⟨c, hc, hfrom, -⟩ := h.loop ⟨n, o, i, ⟨hnode, hn⟩, (hwalk n o n i).2 hcycle⟩
    exact ((hnodes _).1 (hcontracts.closed c hc).1).2 hfrom.2
  · intro hno
    refine ⟨g', hg', hnodes, fun c hc => ?_, fun u o v i hu hu' hv hv' => ?_⟩
    · have hends := (h.arises c hc).mem_getNodes hclosed
      have hno' : ¬ ((c.fromNode ∈ g.getNodes ∧ c.fromNode.IsDisabled) ∨
          c.toNode ∈ g.getNodes ∧ c.toNode.IsDisabled) := by
        intro hdangling
        obtain ⟨n, o, i, hn, hcycle⟩ := h.cycle c hc hdangling
        exact hno ⟨n, o, i, hn.2, (hwalk n o n i).1 hcycle⟩
      rw [not_or] at hno'
      rw [hnodes, hnodes]
      exact ⟨⟨hends.1, fun hn => hno'.1 ⟨hends.1, hn⟩⟩, hends.2, fun hn => hno'.2 ⟨hends.2, hn⟩⟩
    · rw [← hwalk]
      constructor
      · exact fun hc => ((h.arises _ hc).resolve_right fun hno => hno.1 rfl).2
      · exact fun hwalk => h.complete _ (Or.inl ⟨rfl, hwalk⟩) (fun h => hu' h.2) fun h => hv' h.2

/-- A graph of an enabled, a disabled and another enabled node. -/
def disabledGraph (connections : List (INode × INode)) : DirectedGraph :=
  (connections.map fun e => { fromNode := e.1, toNode := e.2 }).foldl setConnection
    (empty.addNodes [{ name := "A" }, { name := "D", disabled := some true }, { name := "B" }])

def betweenGraph : DirectedGraph :=
  disabledGraph [({ name := "A" }, { name := "D", disabled := some true }),
    ({ name := "D", disabled := some true }, { name := "B" })]

theorem mem_betweenGraph {c : GraphConnection} (hc : c ∈ betweenGraph.getConnections) :
    c = ⟨{ name := "A" }, { name := "D", disabled := some true }, .main, 0, 0⟩ ∨
      c = ⟨{ name := "D", disabled := some true }, { name := "B" }, .main, 0, 0⟩ := by
  have hlist : betweenGraph.getConnections =
      [⟨{ name := "A" }, { name := "D", disabled := some true }, .main, 0, 0⟩,
        ⟨{ name := "D", disabled := some true }, { name := "B" }, .main, 0, 0⟩] := by decide
  rw [hlist] at hc
  simpa using hc

theorem keysDiffer_betweenGraph : KeysDiffer betweenGraph := by
  have hends : ∀ c, betweenGraph.Arises INode.IsDisabled c → c.type = .main ∧ c.outputIndex = 0 ∧
      c.inputIndex = 0 ∧ (c.fromNode = { name := "A" } ∨
        c.fromNode = { name := "D", disabled := some true }) ∧
      (c.toNode = { name := "D", disabled := some true } ∨ c.toNode = { name := "B" }) := by
    rintro ⟨u, v, ty, o, i⟩ (⟨rfl, hwalk⟩ | ⟨hno, hc⟩)
    · obtain ⟨w, j, hfirst⟩ := hwalk.exists_edge_from
      obtain ⟨w', p, hlast⟩ := hwalk.exists_edge_to
      have hfrom := mem_betweenGraph hfirst
      have hto := mem_betweenGraph hlast
      simp only [GraphConnection.mk.injEq] at hfrom hto
      rcases hfrom with ⟨rfl, -, -, rfl, -⟩ | ⟨rfl, -, -, rfl, -⟩ <;>
        rcases hto with ⟨-, rfl, -, -, rfl⟩ | ⟨-, rfl, -, -, rfl⟩ <;> simp
    · rcases mem_betweenGraph hc with hc | hc <;> simp_all
  rintro ⟨u, v, ty, o, i⟩ ⟨u', v', ty', o', i'⟩ hc hc' hkey
  obtain ⟨rfl, rfl, rfl, hfrom, hto⟩ := hends _ hc
  obtain ⟨rfl, rfl, rfl, hfrom', hto'⟩ := hends _ hc'
  simp only at hfrom hto hfrom' hto'
  rcases hfrom with rfl | rfl <;> rcases hto with rfl | rfl <;> rcases hfrom' with rfl | rfl <;>
    rcases hto' with rfl | rfl <;> first | rfl | exact absurd hkey (by decide)

theorem filterDisabledNodes_contracts_iff_between :
    (∃ g', filterDisabledNodes betweenGraph = .ok g' ∧ ContractsDisabled betweenGraph g') ↔
      ¬ DisabledCycle betweenGraph := by
  refine filterDisabledNodes_contracts_iff betweenGraph ?_ keysDiffer_betweenGraph
  unfold Closed
  decide

def selfLoopGraph : DirectedGraph :=
  disabledGraph [({ name := "A" }, { name := "D", disabled := some true }),
    ({ name := "D", disabled := some true }, { name := "D", disabled := some true })]

/-- A connection to a disabled node with a self loop is made again after the node is deleted. -/
theorem filterDisabledNodes_keeps_selfLoop :
    ¬ ∀ g : DirectedGraph, g.Closed → ∃ g', filterDisabledNodes g = .ok g' ∧
      ContractsDisabled g g' := by
  intro h
  obtain ⟨g', hg', hcontracts⟩ := h selfLoopGraph (by unfold Closed; decide)
  have hdangling : ∃ cs, (filterDisabledNodes selfLoopGraph).toOption.map getConnections = some cs ∧
      ∃ c ∈ cs, c.toNode.disabled = some true := ⟨_, rfl, by decide⟩
  obtain ⟨cs, hcs, c, hc, hdisabled⟩ := hdangling
  rw [hg'] at hcs
  obtain rfl : g'.getConnections = cs := Option.some.inj hcs
  exact ((hcontracts.nodes _).1 (hcontracts.closed c hc).2).2 hdisabled

end N8n
