import N8n.Codegen.SemanticGraph
import N8n.Lib.Gather

/-!
# The roots of a semantic graph

`packages/@n8n/workflow-sdk/src/codegen/semantic-graph.ts`, from `identifyRoots` on, and
`utils/trigger-detection.ts`.  The code of a workflow is written from the roots of its graph.

* `identifyRoots`: the triggers, and the nodes that no connection leads to;
* `findDisconnectedRoots`: entry points to what these do not lead to;
* `roots_spec`: every node that is no subnode can be reached from a root, and no root is in vain.
-/

namespace N8n

namespace Codegen

/-- `TRIGGER_NODE_TYPES`. -/
def triggerNodeTypes : List String :=
  ["n8n-nodes-base.webhook", "n8n-nodes-base.cron", "n8n-nodes-base.emailReadImap",
    "n8n-nodes-base.telegramBot", "n8n-nodes-base.start"]

def isTriggerNodeType (type : String) : Bool :=
  type ∈ triggerNodeTypes || "trigger".toList <:+: type.toLower.toList

namespace SemanticNode

/-- What the outputs lead to. -/
def targets (node : SemanticNode) : List String :=
  node.outputs.values.flatMap fun connections => connections.map SemanticConnection.target

end SemanticNode

namespace SemanticGraph

variable (graph : SemanticGraph)

def targets (name : String) : List String :=
  ((graph.nodes.get? name).map SemanticNode.targets).getD []

def hasIncomingConnections : List String := graph.nodes.values.flatMap SemanticNode.targets

def subnodeNames : List String :=
  graph.nodes.values.flatMap fun node => node.subnodes.map SubnodeConnection.subnodeName

def identifyRoots : List String :=
  (graph.nodes.entries.filter fun e => e.1 ∉ graph.subnodeNames ∧
    (isTriggerNodeType e.2.type ∨ e.1 ∉ graph.hasIncomingConnections)).map Prod.fst

/-- The loops that work off a stack, the top first. -/
def search (next : String → List String) (stack marked : List String) : List String :=
  Worklist.runWith next (fun new stack => new.reverse ++ stack)
    (Worklist.need next graph.nodes.keys marked stack) marked stack

def reachable : List String := graph.search graph.targets graph.identifyRoots.reverse []

def disconnected : List String :=
  graph.nodes.keys.filter fun name => name ∉ graph.reachable ∧ name ∉ graph.subnodeNames

/-- What the outputs of a node lead to among the disconnected ones. -/
def targetsWithin (name : String) : List String :=
  (graph.targets name).filter (· ∈ graph.disconnected)

def markReachable (start : String) (processed : List String) : List String :=
  graph.search graph.targetsWithin [start] processed

def incomingFromDisconnected (name : String) : List String :=
  graph.disconnected.filter fun source => name ∈ graph.targetsWithin source ∧ name ≠ source

/-- A disconnected node becomes an entry point, unless an earlier one leads to it. -/
def enter (accepts : String → Bool) (s : List String × List String) (name : String) :
    List String × List String :=
  if name ∉ s.2 ∧ accepts name then (s.1 ++ [name], graph.markReachable name s.2) else s

def findDisconnectedRoots : List String :=
  let firstPass := graph.disconnected.foldl
    (graph.enter fun name => graph.incomingFromDisconnected name = []) ([], [])
  (graph.disconnected.foldl (graph.enter fun _ => true) firstPass).1

def roots : List String := graph.identifyRoots ++ graph.findDisconnectedRoots

/-! ### Searches -/

variable {graph} {next : String → List String} {stack marked : List String} {name : String}

theorem mem_keys_of_targets (h : graph.targets name ≠ []) : name ∈ graph.nodes.keys := by
  rw [Dict.mem_keys_iff, Option.isSome_iff_ne_none]
  exact fun hnone => h (by rw [targets, hnone]; rfl)

theorem mem_search_iff (hnext : ∀ a, next a ⊆ graph.targets a)
    (hclosed : ∀ a ∈ marked, ∀ b ∈ next a, b ∈ marked) (b : String) :
    b ∈ graph.search next stack marked ↔ b ∈ marked ∨ ∃ a ∈ stack, Worklist.Reaches next a b := by
  refine Worklist.mem_runWith_iff (fun new stack => (List.reverse_perm new).append_right stack)
    (fun a ha => mem_keys_of_targets fun h => ha ?_) (Nat.le_refl _)
    (fun a ha b hb => .inl (hclosed a ha b hb)) b
  exact List.subset_nil.1 (h ▸ hnext a)

theorem mem_reachable_iff : name ∈ graph.reachable ↔
    ∃ root ∈ graph.identifyRoots, Worklist.Reaches graph.targets root name := by
  rw [reachable, mem_search_iff (fun _ => List.Subset.refl _) (by simp)]
  simp

theorem targetsWithin_subset (name : String) : graph.targetsWithin name ⊆ graph.targets name :=
  List.filter_sublist.subset

/-! ### Entry points -/

/-- The entry points so far, and what has been processed. -/
structure Entered (graph : SemanticGraph) (s : List String × List String) : Prop where
  sub : s.1 ⊆ graph.disconnected
  marked : ∀ b, b ∈ s.2 ↔ ∃ a ∈ s.1, Worklist.Reaches graph.targetsWithin a b
  apart : s.1.Pairwise fun a b => ¬ Worklist.Reaches graph.targetsWithin a b

theorem Entered.enter {s : List String × List String} (h : graph.Entered s)
    (hname : name ∈ graph.disconnected) (accepts : String → Bool) :
    graph.Entered (graph.enter accepts s name) ∧ s.2 ⊆ (graph.enter accepts s name).2 ∧
      (accepts name = true → name ∈ (graph.enter accepts s name).2) := by
  rw [SemanticGraph.enter]
  split_ifs with hnew
  · have hmem : ∀ b, b ∈ graph.markReachable name s.2 ↔
        b ∈ s.2 ∨ Worklist.Reaches graph.targetsWithin name b := by
      intro b
      rw [markReachable, mem_search_iff targetsWithin_subset ?_]
      · simp
      · intro a ha b hb
        obtain ⟨e, he, hreach⟩ := (h.marked a).1 ha
        exact (h.marked b).2 ⟨e, he, hreach.tail hb⟩
    refine ⟨⟨?_, fun b => ?_, ?_⟩, fun b hb => (hmem b).2 (.inl hb), fun _ => (hmem name).2 (.inr .refl)⟩
    · exact List.append_subset.2 ⟨h.sub, by simpa using hname⟩
    · rw [hmem, h.marked]
      simp [or_and_right, exists_or]
    · rw [List.pairwise_append]
      refine ⟨h.apart, List.pairwise_singleton _ _, fun a ha b hb hreach => hnew.1 ?_⟩
      exact (h.marked name).2 ⟨a, ha, List.mem_singleton.1 hb ▸ hreach⟩
  · exact ⟨h, List.Subset.refl _, fun haccepts => by_contra fun hnot => hnew ⟨hnot, haccepts⟩⟩

theorem Entered.foldl {s : List String × List String} (h : graph.Entered s)
    (accepts : String → Bool) {l : List String} (hl : l ⊆ graph.disconnected) :
    graph.Entered (l.foldl (graph.enter accepts) s) ∧ s.2 ⊆ (l.foldl (graph.enter accepts) s).2 ∧
      ∀ name ∈ l, accepts name = true → name ∈ (l.foldl (graph.enter accepts) s).2 := by
  induction l generalizing s with
  | nil => exact ⟨h, List.Subset.refl _, by simp⟩
  | cons name l ih =>
    obtain ⟨hname, hl⟩ := List.cons_subset.1 hl
    obtain ⟨hs, hsub, hin⟩ := h.enter hname accepts
    obtain ⟨hs', hsub', hin'⟩ := ih hs hl
    refine ⟨hs', List.Subset.trans hsub hsub', fun x hx haccepts => ?_⟩
    rcases List.mem_cons.1 hx with rfl | hx
    · exact hsub' (hin haccepts)
    · exact hin' x hx haccepts

/-- The entry points lead to all that is disconnected. -/
theorem findDisconnectedRoots_spec :
    graph.findDisconnectedRoots ⊆ graph.disconnected ∧
    (graph.findDisconnectedRoots.Pairwise fun a b => ¬ Worklist.Reaches graph.targetsWithin a b) ∧
    ∀ name ∈ graph.disconnected, ∃ root ∈ graph.findDisconnectedRoots,
      Worklist.Reaches graph.targetsWithin root name := by
  have hstart : graph.Entered ([], []) := ⟨List.nil_subset _, by simp, List.Pairwise.nil⟩
  have hfirst := (hstart.foldl (fun name => graph.incomingFromDisconnected name = [])
    (List.Subset.refl _)).1
  obtain ⟨h, -, hall⟩ := hfirst.foldl (fun _ => true) (List.Subset.refl _)
  exact ⟨h.sub, h.apart, fun name hname => (h.marked name).1 (hall name hname rfl)⟩

/-! ### Roots -/

theorem mem_identifyRoots_iff : name ∈ graph.identifyRoots ↔ ∃ node,
    graph.nodes.get? name = some node ∧ name ∉ graph.subnodeNames ∧
      (isTriggerNodeType node.type = true ∨ name ∉ graph.hasIncomingConnections) := by
  simp only [identifyRoots, List.mem_map, List.mem_filter, decide_eq_true_eq, Prod.exists,
    Dict.mem_entries_iff]
  constructor
  · rintro ⟨_, node, h, rfl⟩
    exact ⟨node, h⟩
  · rintro ⟨node, h⟩
    exact ⟨name, node, h, rfl⟩

/-- **No node is dropped**: the roots are different nodes and no subnodes, every trigger that is no
subnode is one, and every node that is no subnode can be reached from one.  None of those that were
added is in vain: the others do not lead to it, and earlier ones do not on a way without subnodes. -/
theorem roots_spec (graph : SemanticGraph) :
    graph.roots.Nodup ∧
    (∀ root ∈ graph.roots, root ∈ graph.nodes.keys ∧ root ∉ graph.subnodeNames) ∧
    (∀ name node, graph.nodes.get? name = some node → name ∉ graph.subnodeNames →
      isTriggerNodeType node.type = true → name ∈ graph.roots) ∧
    (∀ name ∈ graph.nodes.keys, name ∉ graph.subnodeNames →
      ∃ root ∈ graph.roots, Worklist.Reaches graph.targets root name) ∧
    (∀ root ∈ graph.identifyRoots, ∀ root' ∈ graph.findDisconnectedRoots,
      ¬ Worklist.Reaches graph.targets root root') ∧
    graph.findDisconnectedRoots.Pairwise fun root root' =>
      ¬ Worklist.Reaches graph.targetsWithin root root' := by
  obtain ⟨hsub, hapart, hall⟩ := graph.findDisconnectedRoots_spec
  have hdisconnected : ∀ name, name ∈ graph.disconnected ↔ name ∈ graph.nodes.keys ∧
      name ∉ graph.reachable ∧ name ∉ graph.subnodeNames := by simp [disconnected]
  have hlead : ∀ root ∈ graph.identifyRoots, ∀ root' ∈ graph.findDisconnectedRoots,
      ¬ Worklist.Reaches graph.targets root root' := fun root hroot root' hroot' hreach =>
    ((hdisconnected root').1 (hsub hroot')).2.1 (mem_reachable_iff.2 ⟨root, hroot, hreach⟩)
  refine ⟨List.nodup_append.2 ⟨?_, ?_, ?_⟩, ?_, ?_, ?_, hlead, hapart⟩
  · exact graph.nodes.nodup.sublist (List.filter_sublist.map _)
  · exact hapart.imp (S := (· ≠ ·)) fun hreach heq => hreach (heq ▸ .refl)
  · exact fun root hroot root' hroot' heq => hlead root hroot root' hroot' (heq ▸ .refl)
  · intro root hroot
    rcases List.mem_append.1 hroot with hroot | hroot
    · obtain ⟨node, hget, hnot, -⟩ := mem_identifyRoots_iff.1 hroot
      exact ⟨(Dict.mem_keys_iff _ _).2 (hget ▸ rfl), hnot⟩
    · have hroot := (hdisconnected root).1 (hsub hroot)
      exact ⟨hroot.1, hroot.2.2⟩
  · exact fun name node hget hnot htrigger =>
      List.mem_append_left _ (mem_identifyRoots_iff.2 ⟨node, hget, hnot, .inl htrigger⟩)
  · intro name hname hnot
    by_cases hreachable : name ∈ graph.reachable
    · obtain ⟨root, hroot, hreach⟩ := mem_reachable_iff.1 hreachable
      exact ⟨root, List.mem_append_left _ hroot, hreach⟩
    · obtain ⟨root, hroot, hreach⟩ := hall name ((hdisconnected name).2 ⟨hname, hreachable, hnot⟩)
      exact ⟨root, List.mem_append_right _ hroot,
        Relation.ReflTransGen.mono (fun a _ h => targetsWithin_subset a h) _ _ hreach⟩

end SemanticGraph

end Codegen

end N8n
