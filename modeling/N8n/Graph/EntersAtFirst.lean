import N8n.Graph.Components
import N8n.Lib.DfsFind
import N8n.Lib.OrderedSet
import Mathlib.Data.List.Pairwise

/-!
# When `handleCycles` enters cycles at their first node

The start nodes of a partial execution, moved to the starts of the cycles they are on, as
`packages/core/src/execution-engine/partial-execution-utils/handle-cycles.ts` moves them.

* `DirectedGraph.depthFirstSearch`, `handleCycles`: the functions;
* `EntersAtFirst`: what the returned nodes are to be;
* `depthFirstSearch_first`: what the search from the trigger finds;
* `handleCycles_of_isComponents`: the start nodes that are returned when the components are right;
* `exists_left_of_not_inReverseOrder`: a node of a cycle that is in no component otherwise;
* `handleCycles_entersAtFirst_iff`: the exact condition on the graph.
-/

namespace N8n

namespace DirectedGraph

/-- `depthFirstSearchRecursive`; the first number bounds the depth of the recursion.  What the search
has seen is returned too. -/
def depthFirstSearchRecursive (g : DirectedGraph) (fn : INode → Bool) :
    ℕ → INode → List INode → Except JsError (Option INode × List INode)
  | 0, _, _ => .error .rangeError
  | depth + 1, node, seen =>
    if node ∈ seen then .ok (none, seen)
    else if fn node then .ok (some node, seen ++ [node])
    else do
      let childConnections ← g.getDirectChildConnections node
      childConnections.foldlM (fun s childConnection =>
        if s.1.isSome then .ok s
        else g.depthFirstSearchRecursive fn depth childConnection.toNode s.2)
        (none, seen ++ [node])

/-- `depthFirstSearch`. -/
def depthFirstSearch (g : DirectedGraph) (node : INode) (fn : INode → Bool) :
    Except JsError (Option INode) := do
  let s ← g.depthFirstSearchRecursive fn (g.getNodes.length + 1) node []
  return s.1

end DirectedGraph

/-- A start node that is part of a cycle is replaced by the first node of the cycle. -/
def enterCycle (graph : DirectedGraph) (trigger startNode : INode) (newStartNodes : OrderedSet INode)
    (cycle : List INode) : Except JsError (OrderedSet INode) :=
  if startNode ∈ cycle then do
    let firstNode ← orAssertionError (← graph.depthFirstSearch trigger fun node => node ∈ cycle)
    return (newStartNodes.erase startNode).insert firstNode
  else .ok newStartNodes

/-- `handleCycles`. -/
def handleCycles (graph : DirectedGraph) (startNodes : OrderedSet INode) (trigger : INode) :
    Except JsError (OrderedSet INode) := do
  let cycles := (← graph.getStronglyConnectedComponents).filter fun cycle => cycle.length ≥ 1
  if cycles.length = 0 then return startNodes
  else
    startNodes.elems.foldlM (fun newStartNodes startNode =>
      cycles.foldlM (enterCycle graph trigger startNode) newStartNodes) startNodes

/-! ### What the returned nodes are to be -/

namespace DirectedGraph

/-- The depth-first search from a node. -/
def searchFrom (g : DirectedGraph) (node : INode) : Dfs.Trace INode :=
  Dfs.visit g.children (g.getNodes.length + 1) node {}

end DirectedGraph

/-- Among the nodes there are no two that reach each other, and there is, for each start node, the
first node that the search from the trigger visits of those mutually reachable with it. -/
structure EntersAtFirst (g : DirectedGraph) (trigger : INode)
    (startNodes newStartNodes : OrderedSet INode) : Prop where
  one : ∀ a ∈ newStartNodes, ∀ b ∈ newStartNodes, g.Mutual a b → a = b
  first : ∀ startNode ∈ startNodes, ∃ firstNode ∈ newStartNodes,
    g.First (g.searchFrom trigger) startNode firstNode

open DirectedGraph

variable {g : DirectedGraph} {trigger startNode : INode}

/-! ### The search from the trigger -/

theorem depthFirstSearchRecursive_eq (hset : g.Settled) (fn : INode → Bool) {depth : ℕ}
    {node : INode} {seen : List INode} (hnode : node ∈ g.getNodes)
    (hdepth : Gather.missing g.getNodes seen < depth) :
    g.depthFirstSearchRecursive fn depth node seen =
      .ok (Dfs.find g.children fn depth node seen) := by
  induction depth generalizing node seen with
  | zero => exact absurd hdepth (Nat.not_lt_zero _)
  | succ depth ih =>
    rw [depthFirstSearchRecursive, Dfs.find]
    split_ifs with hseen hfn
    · rfl
    · rfl
    · have hlt : Gather.missing g.getNodes (seen ++ [node]) < depth :=
        Nat.lt_of_lt_of_le (Gather.missing_append_lt hnode hseen) (Nat.lt_succ_iff.1 hdepth)
      have hloop : ∀ cs ⊆ g.childConnections node, ∀ s : Option INode × List INode,
          Gather.missing g.getNodes s.2 < depth →
          cs.foldlM (fun s childConnection => if s.1.isSome then .ok s
            else g.depthFirstSearchRecursive fn depth childConnection.toNode s.2) s =
          (.ok (cs.foldl (fun s c => if s.1.isSome then s
            else Dfs.find g.children fn depth c.toNode s.2) s) : Except JsError _) := by
        intro cs
        induction cs with
        | nil => exact fun _ s _ => rfl
        | cons c cs ihcs =>
          intro hcs s hs
          obtain ⟨hc, hcs⟩ := List.cons_subset.1 hcs
          rw [List.foldlM_cons, List.foldl_cons]
          split_ifs with hfound
          · exact ihcs hcs s hs
          · rw [ih (hset node hnode c.toNode (List.mem_map_of_mem hc)) hs]
            refine ihcs hcs _ (lt_of_le_of_lt (Gather.missing_le ?_) hs)
            exact (Dfs.prefix_find depth c.toNode s.2).subset
      rw [getDirectChildConnections_of_mem hnode, children, List.foldl_map]
      exact hloop _ (List.Subset.refl _) _ hlt

/-- The search for the nodes mutually reachable with a node finds the first one it visits. -/
theorem depthFirstSearch_first (hset : g.Settled) (htrigger : trigger ∈ g.getNodes)
    (hreach : g.Reaches trigger startNode) (fn : INode → Bool)
    (hfn : ∀ n, fn n = true ↔ g.Mutual startNode n) :
    ∃ firstNode, g.depthFirstSearch trigger fn = .ok (some firstNode) ∧
      g.First (g.searchFrom trigger) startNode firstNode := by
  have heq := depthFirstSearchRecursive_eq hset fn htrigger
    (Gather.missing_lt_length_add_one g.getNodes [])
  have hfind := (Dfs.find_visit g.children fn (g.getNodes.length + 1) trigger {} rfl).1
  have hmem := Dfs.mem_order_of_reaches (fun a ha => hset a ha) htrigger hreach
  have hsome : ((g.searchFrom trigger).order.find? fn).isSome :=
    List.find?_isSome.2 ⟨startNode, hmem, (hfn startNode).2 (.refl g startNode)⟩
  obtain ⟨firstNode, hfirst⟩ := Option.isSome_iff_exists.1 hsome
  refine ⟨firstNode, ?_, (hfn firstNode).1 (List.find?_some hfirst), fun y hy => ?_⟩
  · refine Except.bind_eq_ok_iff.2 ⟨_, heq, ?_⟩
    exact congrArg Except.ok (hfind.trans hfirst)
  · exact Dfs.idx_le_of_find? hfirst ((hfn y).2 hy)

variable {a : INode} {sets cycles : List (List INode)}

/-- The search visits the first node of a class before every other one. -/
theorem DirectedGraph.First.eq {t : Dfs.Trace INode} {b r r' : INode} (h : g.First t a r)
    (h' : g.First t b r') (hab : g.Mutual a b) (hr : r ∈ t.order) : r = r' := by
  refine Dfs.Trace.idx_inj hr (le_antisymm ?_ ?_)
  · exact h.2 r' (hab.trans h'.1)
  · exact h'.2 r (hab.symm.trans h.1)

/-! ### The components -/

theorem DirectedGraph.Settled.mem_of_reaches (hset : g.Settled) {b : INode} (ha : a ∈ g.getNodes)
    (hab : g.Reaches a b) : b ∈ g.getNodes := by
  induction hab with
  | refl => exact ha
  | tail _ hbc ih => exact hset _ ih _ hbc

/-- The component of a node. -/
theorem DirectedGraph.IsComponents.exists_class (h : g.IsComponents sets) (hset : g.Settled)
    (ha : a ∈ g.getNodes) : ∃ c ∈ sets, ∀ b, b ∈ c ↔ g.Mutual a b := by
  obtain ⟨c, hc, hac⟩ := (h.cover a).2 ha
  refine ⟨c, hc, fun b => ⟨fun hbc => ?_, fun hab => ?_⟩⟩
  · exact (h.together a ha b ((h.cover b).1 ⟨c, hc, hbc⟩)).1 ⟨c, hc, hac, hbc⟩
  · obtain ⟨c', hc', hac', hbc'⟩ := (h.together a ha b (hset.mem_of_reaches ha hab.1)).2 hab
    have heq : c' = c := by
      by_contra hne
      have : Std.Symm (α := List INode) List.Disjoint := ⟨fun _ _ hd _ ha hb => hd hb ha⟩
      exact h.disjoint.forall hc' hc hne hac' hac
    exact heq ▸ hbc'

/-- A start node that is part of no cycle stays. -/
theorem foldlM_enterCycle_of_notMem (h : ∀ c ∈ cycles, startNode ∉ c)
    (newStartNodes : OrderedSet INode) :
    cycles.foldlM (enterCycle g trigger startNode) newStartNodes = .ok newStartNodes := by
  induction cycles with
  | nil => rfl
  | cons c cycles ih =>
    rw [List.foldlM_cons, enterCycle, if_neg (h c List.mem_cons_self)]
    exact ih fun c hc => h c (List.mem_cons_of_mem _ hc)

theorem foldlM_startNodes_of_notMem {l : List INode} (h : ∀ s ∈ l, ∀ c ∈ cycles, s ∉ c)
    (newStartNodes : OrderedSet INode) :
    l.foldlM (fun newStartNodes startNode =>
      cycles.foldlM (enterCycle g trigger startNode) newStartNodes) newStartNodes =
      .ok newStartNodes := by
  induction l with
  | nil => rfl
  | cons s l ih =>
    rw [List.foldlM_cons, foldlM_enterCycle_of_notMem (h s List.mem_cons_self)]
    exact ih fun s hs => h s (List.mem_cons_of_mem _ hs)

/-- A start node is replaced by the first node of its component. -/
theorem foldlM_enterCycle (hset : g.Settled) (htrigger : trigger ∈ g.getNodes)
    (hreach : g.Reaches trigger startNode) (hdisjoint : cycles.Pairwise List.Disjoint)
    {c : List INode} (hc : c ∈ cycles) (hclass : ∀ n, n ∈ c ↔ g.Mutual startNode n) :
    ∃ firstNode, g.First (g.searchFrom trigger) startNode firstNode ∧ ∀ newStartNodes,
      cycles.foldlM (enterCycle g trigger startNode) newStartNodes =
        .ok ((newStartNodes.erase startNode).insert firstNode) := by
  obtain ⟨firstNode, hfound, hfirst⟩ := depthFirstSearch_first hset htrigger hreach
    (fun node => node ∈ c) fun n => by rw [decide_eq_true_iff, hclass]
  refine ⟨firstNode, hfirst, fun newStartNodes => ?_⟩
  have hmem : startNode ∈ c := (hclass startNode).2 (.refl g startNode)
  obtain ⟨pre, post, rfl⟩ := List.append_of_mem hc
  obtain ⟨-, hpost, hpre⟩ := List.pairwise_append.1 hdisjoint
  have henter : enterCycle g trigger startNode newStartNodes c =
      .ok ((newStartNodes.erase startNode).insert firstNode) := by
    rw [enterCycle, if_pos hmem, hfound]
    rfl
  rw [List.foldlM_append, foldlM_enterCycle_of_notMem fun c' hc' hs =>
    hpre c' hc' c List.mem_cons_self hs hmem]
  show (enterCycle g trigger startNode newStartNodes c >>= _) = _
  rw [henter]
  exact foldlM_enterCycle_of_notMem (fun c' hc' hs =>
    (List.pairwise_cons.1 hpost).1 c' hc' hmem hs) _

/-- What `handleCycles` does with the components. -/
theorem handleCycles_eq (hsets : g.getStronglyConnectedComponents = .ok sets)
    (startNodes : OrderedSet INode) :
    handleCycles g startNodes trigger =
      startNodes.elems.foldlM (fun newStartNodes startNode =>
        (sets.filter fun cycle => cycle.length ≥ 1).foldlM (enterCycle g trigger startNode)
          newStartNodes) startNodes := by
  rw [handleCycles, hsets]
  show (if (sets.filter fun cycle => decide (cycle.length ≥ 1)).length = 0 then _ else _) = _
  split_ifs with hnil
  · rw [List.length_eq_zero_iff.1 hnil]
    exact (foldlM_startNodes_of_notMem (fun _ _ _ hc => absurd hc List.not_mem_nil) _).symm
  · rfl

/-- When the components are right, each start node is replaced by the first node of its own. -/
theorem handleCycles_of_isComponents (hset : g.Settled)
    (hsets : g.getStronglyConnectedComponents = .ok sets) (hcomp : g.IsComponents sets)
    (htrigger : trigger ∈ g.getNodes) (startNodes : OrderedSet INode)
    (hreach : ∀ s ∈ startNodes, g.Reaches trigger s) :
    ∃ newStartNodes, handleCycles g startNodes trigger = .ok newStartNodes ∧
      EntersAtFirst g trigger startNodes newStartNodes := by
  have hreplace : ∀ s, s ∈ startNodes → ∃ firstNode,
      g.First (g.searchFrom trigger) s firstNode ∧ ∀ newStartNodes,
        (sets.filter fun cycle => cycle.length ≥ 1).foldlM (enterCycle g trigger s) newStartNodes =
          .ok ((newStartNodes.erase s).insert firstNode) := by
    intro s hs
    obtain ⟨c, hc, hclass⟩ := hcomp.exists_class hset (hset.mem_of_reaches htrigger (hreach s hs))
    refine foldlM_enterCycle hset htrigger (hreach s hs) (hcomp.disjoint.filter _)
      (List.mem_filter.2 ⟨hc, ?_⟩) hclass
    exact decide_eq_true (List.length_pos_of_mem ((hclass s).2 (.refl g s)))
  choose! f hfirst hf using hreplace
  have horder : ∀ s ∈ startNodes, f s ∈ (g.searchFrom trigger).order := fun s hs =>
    Dfs.mem_order_of_reaches (fun a ha => hset a ha) htrigger
      (Relation.ReflTransGen.trans (hreach s hs) (hfirst s hs).1.1)
  have hsame : ∀ s ∈ startNodes, ∀ s' ∈ startNodes, g.Mutual s s' → f s = f s' := fun s hs s' hs' h =>
    (hfirst s hs).eq (hfirst s' hs') h (horder s hs)
  have hloop : ∀ l ⊆ startNodes.elems, ∀ newStartNodes,
      l.foldlM (fun newStartNodes startNode =>
        (sets.filter fun cycle => cycle.length ≥ 1).foldlM (enterCycle g trigger startNode)
          newStartNodes) newStartNodes =
        (.ok (l.foldl (fun s a => (s.erase a).insert (f a)) newStartNodes) : Except JsError _) := by
    intro l
    induction l with
    | nil => exact fun _ _ => rfl
    | cons s l ih =>
      intro hl newStartNodes
      obtain ⟨hs, hl⟩ := List.cons_subset.1 hl
      rw [List.foldlM_cons, hf s hs]
      exact ih hl _
  have hmem : ∀ n, n ∈ startNodes.elems.foldl (fun s a => (s.erase a).insert (f a)) startNodes ↔
      ∃ s ∈ startNodes, n = f s := by
    intro n
    rw [OrderedSet.mem_foldl_replace]
    · exact or_iff_left fun h => h.2 h.1
    · rintro s hs s' hs' rfl
      exact (hsame s hs _ hs' (hfirst s hs).1).symm
  refine ⟨_, (handleCycles_eq hsets startNodes).trans (hloop _ (List.Subset.refl _) _), ?_, ?_⟩
  · intro a ha b hb hab
    obtain ⟨s, hs, rfl⟩ := (hmem a).1 ha
    obtain ⟨s', hs', rfl⟩ := (hmem b).1 hb
    exact hsame s hs s' hs' (((hfirst s hs).1.trans hab).trans (hfirst s' hs').1.symm)
  · exact fun s hs => ⟨f s, (hmem _).2 ⟨s, hs, rfl⟩, hfirst s hs⟩

/-! ### When the components are wrong -/

/-- A run that got stuck left a node on the stack that others reach. -/
theorem exists_left_of_not_inReverseOrder (hset : g.Settled) (horder : ¬g.InReverseOrder) :
    ∃ sets, g.getStronglyConnectedComponents = .ok sets ∧ ∃ w ∈ g.getNodes, (∀ c ∈ sets, w ∉ c) ∧
      ∃ r ∈ g.getNodes, g.Mutual w r ∧ w ≠ r := by
  obtain ⟨s, t, hs, ht, h, -, hvisited⟩ :=
    foldlM_followNode hset g.getNodes (List.Subset.refl _) (Follows.init g)
  have hnodes : ∀ x, x ∈ t.order ↔ x ∈ g.getNodes := fun x => ⟨h.nodes x, fun hx => hvisited hx⟩
  refine ⟨s.stronglyConnectedComponents, Except.bind_eq_ok_iff.2 ⟨s, hs, rfl⟩, ?_⟩
  rcases h.regime with hgood | ⟨w, r, l, hstuck⟩
  · refine absurd ?_ horder
    rw [InReverseOrder, depthFirst, Dfs.search, ht]
    exact (hgood.isComponents h.simulates hnodes).2
  · have hw := (hnodes w).1 (h.simulates.stack_mem w hstuck.stack)
    refine ⟨w, hw, fun c hc hwc => (h.simulates.popped c hc w hwc).2 hstuck.stack, r, ?_,
      hstuck.first.1, ?_⟩
    · exact hset.mem_of_reaches hw hstuck.first.1.1
    · rintro rfl
      exact hstuck.no_walk (.refl _ _)

/-- The first node that a search visits is the one it starts from. -/
theorem idx_searchFrom (trigger : INode) : (g.searchFrom trigger).idx trigger = 0 := by
  have hpre : [trigger] <+: (g.searchFrom trigger).order := by
    rw [searchFrom, Dfs.visit, if_neg List.not_mem_nil]
    refine Dfs.order_prefix_foldl (fun t c => ?_) (g.children trigger) (Dfs.Trace.enter {} trigger)
    exact Dfs.order_prefix_visit _ c t
  obtain ⟨rest, hrest⟩ := hpre
  rw [Dfs.Trace.idx, ← hrest]
  exact List.idxOf_cons_self

/-- **`handleCycles` does not fail and enters every cycle at the first node that the search from the
trigger visits, for every trigger and start nodes, exactly when no connection leads to a replaced
node and every node has a walk against the order of completion to the first node visited among those
mutually reachable with it.** -/
theorem handleCycles_entersAtFirst_iff (g : DirectedGraph) :
    (∀ trigger ∈ g.getNodes, ∀ startNodes : OrderedSet INode,
      (∀ s ∈ startNodes, g.Reaches trigger s) →
        ∃ newStartNodes, handleCycles g startNodes trigger = .ok newStartNodes ∧
          EntersAtFirst g trigger startNodes newStartNodes) ↔
      g.Settled ∧ g.InReverseOrder := by
  constructor
  · intro h
    have hset : g.Settled := by
      by_contra hnot
      obtain ⟨v, hv, -⟩ := by simpa [Settled] using hnot
      obtain ⟨newStartNodes, hok, -⟩ := h v hv .empty fun s hs => absurd hs List.not_mem_nil
      rw [handleCycles, getStronglyConnectedComponents_of_not_settled hnot] at hok
      cases hok
    refine ⟨hset, ?_⟩
    by_contra horder
    obtain ⟨sets, hsets, w, hw, hleft, r, hr, hmutual, hne⟩ :=
      exists_left_of_not_inReverseOrder hset horder
    obtain ⟨newStartNodes, hok, henters⟩ := h r hr (.insert .empty w) fun s hs => by
      rcases OrderedSet.mem_insert.1 hs with hs | rfl
      · cases hs
      · exact hmutual.2
    -- the node that was left is returned, though the search starts at another one
    have hkept : handleCycles g (.insert .empty w) r = .ok (.insert .empty w) := by
      refine (handleCycles_eq hsets _).trans (foldlM_startNodes_of_notMem (fun s hs c hc => ?_) _)
      rw [List.mem_singleton.1 hs]
      exact hleft c (List.mem_filter.1 hc).1
    cases hkept.symm.trans hok
    obtain ⟨firstNode, hmem, hfirst⟩ := henters.first w (List.mem_singleton_self w)
    have heq : firstNode = w := List.mem_singleton.1 hmem
    have hle := hfirst.2 r hmutual
    rw [idx_searchFrom, heq] at hle
    have hvisited : r ∈ (g.searchFrom r).order := Dfs.mem_order_visit _ r {}
    refine hne (Dfs.Trace.idx_inj hvisited ?_).symm
    rw [idx_searchFrom]
    omega
  · rintro ⟨hset, horder⟩ trigger htrigger startNodes hreach
    obtain ⟨sets, hsets, hiff⟩ := getStronglyConnectedComponents_of_settled hset
    exact handleCycles_of_isComponents hset hsets (hiff.2 horder) htrigger startNodes hreach
/-- Two overlapping rings behind a trigger. -/
def twoRings : DirectedGraph :=
  [ringConnection "0" "1", ringConnection "1" "2", ringConnection "2" "3", ringConnection "3" "2",
    ringConnection "2" "4", ringConnection "4" "1"].foldl DirectedGraph.setConnection
      (DirectedGraph.empty.addNodes ({ name := "0" } :: ringNodes))

/-- Two nodes of the rings. -/
def ringStarts : OrderedSet INode := .ofList [{ name := "3" }, { name := "4" }]

/-- Both start nodes are returned, though each reaches the other. -/
theorem twoRings_handleCycles : (∀ s ∈ ringStarts, twoRings.Reaches { name := "0" } s) ∧
      handleCycles twoRings ringStarts { name := "0" } = .ok ringStarts ∧
      ¬EntersAtFirst twoRings { name := "0" } ringStarts ringStarts := by
  have hstep : ∀ a b : String, { name := b } ∈ twoRings.children { name := a } →
      twoRings.Reaches { name := a } { name := b } := fun _ _ h => .single h
  have h02 : twoRings.Reaches { name := "0" } { name := "2" } :=
    (hstep "0" "1" (by decide)).trans (hstep "1" "2" (by decide))
  have h23 := hstep "2" "3" (by decide)
  have h24 := hstep "2" "4" (by decide)
  refine ⟨fun s hs => ?_, by decide, fun h => ?_⟩
  · rcases List.mem_cons.1 hs with rfl | hs
    · exact h02.trans h23
    · rw [List.mem_singleton.1 hs]
      exact h02.trans h24
  · have h42 := (hstep "4" "1" (by decide)).trans (hstep "1" "2" (by decide))
    have heq := h.one { name := "3" } (by decide) { name := "4" } (by decide)
      ⟨(hstep "3" "2" (by decide)).trans h24, h42.trans h23⟩
    exact absurd heq (by decide)

end N8n
