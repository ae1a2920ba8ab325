import N8n.Graph.Subgraph
import N8n.Lib.Gather

/-!
# What `findSubgraph` keeps

* `Collects`: what adding the connections of some branches makes of a graph;
* `findSubgraphRecursive_collects`: the search adds the branches that `Branches.Keeps` keeps;
* `getParentConnections_spec`: the connections that lead to a node;
* `findSubgraph_keepsExactly_iff`: the exact condition on the graph.
-/

namespace N8n

open DirectedGraph

variable {g g₁ g₂ g₃ : DirectedGraph}

/-- A graph with nodes and connections of another one. -/
def Within (g sub : DirectedGraph) : Prop :=
  (∀ n ∈ sub.getNodes, n ∈ g.getNodes) ∧ ∀ c ∈ sub.getConnections, c ∈ g.getConnections

/-- `g₂` is `g₁` with the connections of the branches that satisfy `P` and the nodes they connect,
all of them within `g`. -/
structure Collects (g : DirectedGraph) (P : List GraphConnection → Prop) (g₁ g₂ : DirectedGraph) :
    Prop where
  within : Within g g₂
  connections : ∀ c, c ∈ g₂.getConnections ↔ c ∈ g₁.getConnections ∨ ∃ b, P b ∧ c ∈ b
  nodes : ∀ n, n ∈ g₂.getNodes ↔
    n ∈ g₁.getNodes ∨ ∃ b, P b ∧ ∃ c ∈ b, n = c.fromNode ∨ n = c.toNode

variable {P Q : List GraphConnection → Prop} {sub : DirectedGraph} {n node : INode}
  {c : GraphConnection}

theorem Collects.refl (h : Within g g₁) (hP : ∀ b, ¬P b) : Collects g P g₁ g₁ :=
  ⟨h, fun _ => (or_iff_left fun ⟨b, hb, _⟩ => hP b hb).symm,
    fun _ => (or_iff_left fun ⟨b, hb, _⟩ => hP b hb).symm⟩

theorem Collects.congr (h : Collects g P g₁ g₂) (hPQ : ∀ b, P b ↔ Q b) : Collects g Q g₁ g₂ := by
  have : P = Q := funext fun b => propext (hPQ b)
  exact this ▸ h

theorem Collects.trans (h : Collects g P g₁ g₂) (h' : Collects g Q g₂ g₃) :
    Collects g (fun b => P b ∨ Q b) g₁ g₃ := by
  refine ⟨h'.within, fun c => ?_, fun n => ?_⟩
  · rw [h'.connections, h.connections, or_assoc]
    simp only [or_and_right, exists_or]
  · rw [h'.nodes, h.nodes, or_assoc]
    simp only [or_and_right, exists_or]

theorem Within.addNode (h : Within g sub) (hn : n ∈ g.getNodes) :
    Within g (sub.addNode n) ∧ ∀ m, m ∈ (sub.addNode n).getNodes ↔ m = n ∨ m ∈ sub.getNodes := by
  have hmem : ∀ m, m ∈ (sub.addNode n).getNodes ↔ m = n ∨ m ∈ sub.getNodes := by
    intro m
    rw [mem_getNodes_addNode]
    constructor
    · exact fun hm => hm.imp_right And.left
    · rintro (rfl | hm)
      · exact Or.inl rfl
      · by_cases hname : m.name = n.name
        · exact Or.inl (eq_of_name_eq (h.1 m hm) hn hname)
        · exact Or.inr ⟨hm, hname⟩
  refine ⟨⟨fun m hm => ?_, h.2⟩, hmem⟩
  rcases (hmem m).1 hm with rfl | hm
  · exact hn
  · exact h.1 m hm

/-- One connection is kept with its nodes. -/
theorem Within.keepConnection (h : Within g sub) (hclosed : g.Closed) (hc : c ∈ g.getConnections) :
    ∃ g', (sub.addNodes [c.fromNode, c.toNode]).addConnection c = .ok g' ∧
      Collects g (· = [c]) sub g' := by
  obtain ⟨hfrom, hmem₁⟩ := h.addNode (hclosed c hc).1
  obtain ⟨hto, hmem₂⟩ := hfrom.addNode (hclosed c hc).2
  have hnodes : ∀ n, n ∈ (sub.addNodes [c.fromNode, c.toNode]).getNodes ↔
      n = c.toNode ∨ n = c.fromNode ∨ n ∈ sub.getNodes := fun n =>
    (hmem₂ n).trans (or_congr_right (hmem₁ n))
  have hconns : ∀ c', c' ∈ ((sub.addNodes [c.fromNode, c.toNode]).setConnection c).getConnections ↔
      c' = c ∨ c' ∈ sub.getConnections := by
    intro c'
    rw [mem_getConnections_setConnection]
    constructor
    · exact fun hc' => hc'.imp_right And.left
    · rintro (rfl | hc')
      · exact Or.inl rfl
      · by_cases hkey : makeKey c' = makeKey c
        · exact Or.inl (eq_of_makeKey_eq (h.2 c' hc') hc hkey)
        · exact Or.inr ⟨hc', hkey⟩
  refine ⟨_, addConnection_eq_ok_iff.2 ⟨⟨(hnodes _).2 (Or.inr (Or.inl rfl)),
    (hnodes _).2 (Or.inl rfl)⟩, rfl⟩, ⟨hto.1, fun c' hc' => ?_⟩, fun c' => ?_, fun n => ?_⟩
  · rcases (hconns c').1 hc' with rfl | hc'
    · exact hc
    · exact h.2 c' hc'
  · rw [hconns]
    simp [or_comm]
  · show n ∈ (sub.addNodes [c.fromNode, c.toNode]).getNodes ↔ _
    rw [hnodes]
    simp only [exists_eq_left, List.mem_singleton]
    tauto

/-- A branch is kept with its nodes. -/
theorem Within.keepBranch (h : Within g sub) (hclosed : g.Closed) {b : List GraphConnection}
    (hb : ∀ c ∈ b, c ∈ g.getConnections) :
    ∃ g', keepBranch sub b = .ok g' ∧ Collects g (· = b) sub g' := by
  induction b generalizing sub with
  | nil =>
    exact ⟨sub, rfl, h, fun c => by simp, fun n => by simp⟩
  | cons c b ih =>
    obtain ⟨g₁, hg₁, h₁⟩ := h.keepConnection hclosed (hb c List.mem_cons_self)
    obtain ⟨g₂, hg₂, h₂⟩ := ih h₁.within fun c hc => hb c (List.mem_cons_of_mem _ hc)
    refine ⟨g₂, ?_, h₂.within, fun c' => ?_, fun n => ?_⟩
    · rw [N8n.keepBranch, List.foldlM_cons]
      exact Except.bind_eq_ok_iff.2 ⟨g₁, hg₁, hg₂⟩
    · rw [h₂.connections, h₁.connections]
      simp [or_assoc]
    · rw [h₂.nodes, h₁.nodes]
      simp [or_assoc]

/-! ### The search -/

section Search

variable {destination trigger : INode}

/-- The branches that the search keeps. -/
abbrev KeepsBranch (g : DirectedGraph) (destination trigger : INode) :
    INode → List GraphConnection → List GraphConnection → Prop :=
  Branches.Keeps GraphConnection.fromNode GraphConnection.toNode (IsMain g) trigger destination

variable {b b' : List GraphConnection} {current : INode}

theorem keepsBranch_trigger : KeepsBranch g destination trigger trigger b b' ↔ b' = b := by
  constructor
  · intro h
    cases h with
    | arrive => rfl
    | cycle hs => exact absurd rfl hs
    | step hs => exact absurd rfl hs
  · rintro rfl
    exact .arrive _

theorem keepsBranch_visited (hs : current ≠ trigger) (hmem : current ∈ b.map (·.toNode)) :
    KeepsBranch g destination trigger current b b' ↔ current ≠ destination ∧ b' = b := by
  constructor
  · intro h
    cases h with
    | arrive => exact absurd rfl hs
    | cycle hs ht hmem => exact ⟨ht, rfl⟩
    | step hs hmem' => exact absurd hmem hmem'
  · rintro ⟨ht, rfl⟩
    exact .cycle hs ht hmem

theorem keepsBranch_new (hs : current ≠ trigger) (hmem : current ∉ b.map (·.toNode)) :
    KeepsBranch g destination trigger current b b' ↔ ∃ c ∈ g.parentConnections current,
      c.type = .main ∧ KeepsBranch g destination trigger c.fromNode (b ++ [c]) b' := by
  constructor
  · intro h
    cases h with
    | arrive => exact absurd rfl hs
    | cycle hs ht hmem' => exact absurd hmem' hmem
    | @step _ _ _ c hs hmem he hdst h =>
      exact ⟨c, (mem_parentConnections g current c).2 ⟨he.1, hdst⟩, he.2, h⟩
  · rintro ⟨c, hc, htype, h⟩
    obtain ⟨hc, hto⟩ := (mem_parentConnections g current c).1 hc
    exact .step hs hmem ⟨hc, htype⟩ hto h

/-- What a loop collects. -/
theorem foldlM_collects {α : Type} (P : α → List GraphConnection → Prop)
    (search : DirectedGraph → α → Except JsError DirectedGraph) (ps : List α) (hsearch : ∀ c ∈ ps, ∀ sub, Within g sub →
      ∃ g', search sub c = .ok g' ∧ Collects g (P c) sub g')
    {sub : DirectedGraph} (hsub : Within g sub) :
    ∃ g', ps.foldlM search sub = .ok g' ∧ Collects g (fun b => ∃ c ∈ ps, P c b) sub g' := by
  induction ps generalizing sub with
  | nil => exact ⟨sub, rfl, .refl hsub fun b ⟨_, hc, _⟩ => List.not_mem_nil hc⟩
  | cons c ps ih =>
    obtain ⟨g₁, hg₁, h₁⟩ := hsearch c List.mem_cons_self sub hsub
    obtain ⟨g₂, hg₂, h₂⟩ := ih (fun c hc => hsearch c (List.mem_cons_of_mem _ hc)) h₁.within
    refine ⟨g₂, ?_, (h₁.trans h₂).congr fun b => by simp⟩
    rw [List.foldlM_cons]
    exact Except.bind_eq_ok_iff.2 ⟨g₁, hg₁, hg₂⟩

/-- The search adds the branches that are kept. -/
theorem findSubgraphRecursive_collects (hclosed : g.Closed) (hne : trigger ≠ destination)
    {depth : ℕ} {sub : DirectedGraph} (hsub : Within g sub) (hcurrent : current ∈ g.getNodes)
    (hb : ∀ c ∈ b, IsMain g c)
    (hend : b = [] ∧ current = destination ∨ ∃ c ∈ b, c.fromNode = current)
    (hdepth : Branches.remaining GraphConnection.toNode g.getNodes b < depth) :
    ∃ g', findSubgraphRecursive g destination trigger depth current b sub = .ok g' ∧
      Collects g (KeepsBranch g destination trigger current b) sub g' := by
  induction depth generalizing current b sub with
  | zero => exact absurd hdepth (Nat.not_lt_zero _)
  | succ depth ih =>
    rw [findSubgraphRecursive]
    by_cases hs : current = trigger
    · subst hs
      obtain ⟨c₀, hc₀, hfrom⟩ := hend.resolve_left fun h => hne h.2
      obtain ⟨hwithin, hmem⟩ := hsub.addNode hcurrent
      obtain ⟨g', hg', hcoll⟩ := hwithin.keepBranch hclosed fun c hc => (hb c hc).1
      have hcoll' : Collects g (· = b) sub g' := by
        refine ⟨hcoll.within, hcoll.connections, fun n => ?_⟩
        rw [hcoll.nodes, hmem, or_assoc]
        refine or_iff_right_of_imp ?_
        rintro rfl
        exact Or.inr ⟨b, rfl, c₀, hc₀, Or.inl hfrom.symm⟩
      exact ⟨g', by rw [if_pos rfl, hg'], hcoll'.congr fun b' => keepsBranch_trigger.symm⟩
    rw [if_neg hs, getDirectParentConnections_of_mem hcurrent]
    show ∃ g', (if g.parentConnections current = [] then _ else _) = _ ∧ _
    by_cases hmem : current ∈ b.map (·.toNode)
    · -- a node that the branch entered has a parent
      have hparents : g.parentConnections current ≠ [] := by
        obtain ⟨c, hc, hto⟩ := List.mem_map.1 hmem
        exact List.ne_nil_of_mem ((mem_parentConnections g current c).2 ⟨(hb c hc).1, hto⟩)
      rw [if_neg hparents]
      by_cases ht : current = destination
      · rw [if_pos ⟨ht, ht ▸ hmem⟩]
        exact ⟨sub, rfl, .refl hsub fun b' h => ((keepsBranch_visited hs hmem).1 h).1 ht⟩
      · rw [if_neg fun h => ht h.1, if_pos hmem]
        obtain ⟨g', hg', hcoll⟩ := hsub.keepBranch hclosed fun c hc => (hb c hc).1
        refine ⟨g', hg', hcoll.congr fun b' => ?_⟩
        rw [keepsBranch_visited hs hmem, and_iff_right ht]
    · have hnew : ∀ b', KeepsBranch g destination trigger current b b' ↔
          ∃ c ∈ g.parentConnections current, c.type = .main ∧
            KeepsBranch g destination trigger c.fromNode (b ++ [c]) b' :=
        fun b' => keepsBranch_new hs hmem
      by_cases hparents : g.parentConnections current = []
      · rw [if_pos hparents]
        refine ⟨sub, rfl, .refl hsub fun b' h => ?_⟩
        obtain ⟨c, hc, -⟩ := (hnew b').1 h
        rw [hparents] at hc
        exact List.not_mem_nil hc
      · have hdest : ¬(current = destination ∧ destination ∈ b.map (·.toNode)) := fun h =>
          hmem (h.1.symm ▸ h.2)
        rw [if_neg hparents, if_neg hdest, if_neg hmem]
        have hsearch : ∀ c ∈ g.parentConnections current, ∀ sub', Within g sub' →
            ∃ g', (if c.type ≠ .main then .ok sub' else findSubgraphRecursive g destination trigger
                depth c.fromNode (b ++ [c]) sub' : Except JsError DirectedGraph) = .ok g' ∧
              Collects g (fun b' => c.type = .main ∧
                KeepsBranch g destination trigger c.fromNode (b ++ [c]) b') sub' g' := by
          intro c hc sub' hsub'
          obtain ⟨hcg, hto⟩ := (mem_parentConnections g current c).1 hc
          by_cases htype : c.type = .main
          · have hlt : Branches.remaining GraphConnection.toNode g.getNodes (b ++ [c]) <
                Branches.remaining GraphConnection.toNode g.getNodes b :=
              Branches.remaining_append_lt (hto.symm ▸ hcurrent) (hto.symm ▸ hmem)
            have hmain : ∀ c' ∈ b ++ [c], IsMain g c' := by
              intro c' hc'
              rcases List.mem_append.1 hc' with hc' | hc'
              · exact hb c' hc'
              · exact List.mem_singleton.1 hc' ▸ ⟨hcg, htype⟩
            obtain ⟨g', hg', hcoll⟩ := ih (b := b ++ [c]) hsub' (hclosed c hcg).1 hmain
              (Or.inr ⟨c, by simp, rfl⟩) (hlt.trans_le (Nat.lt_succ_iff.1 hdepth))
            rw [if_neg (not_not.2 htype)]
            exact ⟨g', hg', hcoll.congr fun b' => (and_iff_right htype).symm⟩
          · rw [if_pos htype]
            exact ⟨sub', rfl, .refl hsub' fun b' h => htype h.1⟩
        obtain ⟨g', hg', hcoll⟩ := foldlM_collects _ _ _ hsearch hsub
        exact ⟨g', hg', hcoll.congr fun b' => (hnew b').symm⟩

end Search

/-! ### The connections that lead to a node -/

/-- The connections above a connection that a node is entered by are those that lead to the node. -/
theorem gatherReaches_iff :
    (∃ b ∈ g.parentConnections node,
        Gather.Reaches (fun b : GraphConnection => g.parentConnections b.fromNode) b c) ↔
      c ∈ g.getConnections ∧ ReachesBy g (fun _ => True) c.toNode node := by
  constructor
  · rintro ⟨b, hb, hreach⟩
    induction hreach with
    | refl =>
      obtain ⟨hbg, rfl⟩ := (mem_parentConnections g node b).1 hb
      exact ⟨hbg, .refl⟩
    | @tail x c _ hstep ih =>
      obtain ⟨hcg, hto⟩ := (mem_parentConnections g _ c).1 hstep
      exact ⟨hcg, .head ⟨x, ih.1, trivial, hto.symm, rfl⟩ ih.2⟩
  · rintro ⟨hcg, hreach⟩
    generalize hto : c.toNode = x at hreach
    induction hreach using Relation.ReflTransGen.head_induction_on generalizing c with
    | refl => exact ⟨c, (mem_parentConnections g node c).2 ⟨hcg, hto⟩, .refl⟩
    | head hstep _ ih =>
      obtain ⟨c₁, hc₁g, -, rfl, hto₁⟩ := hstep
      obtain ⟨b, hb, hreach⟩ := ih hc₁g hto₁
      exact ⟨b, hb, hreach.tail ((mem_parentConnections g _ c).2 ⟨hcg, hto⟩)⟩

/-- `getParentConnections` returns the connections that lead to a node. -/
theorem getParentConnections_spec (hclosed : g.Closed) (hnode : node ∈ g.getNodes) :
    ∃ cs, g.getParentConnections node = .ok cs ∧ ∀ c, c ∈ cs ↔
      c ∈ g.getConnections ∧ ReachesBy g (fun _ => True) c.toNode node := by
  have hsub : ∀ n, g.parentConnections n ⊆ g.getConnections := fun n c hc =>
    ((mem_parentConnections g n c).1 hc).1
  have hcall : ∀ depth, ∀ n ∈ g.getNodes, ∀ cs, g.getParentConnectionsRecursive (depth + 1) n cs =
      (g.parentConnections n).foldlM (fun cs c => if c ∈ cs then .ok cs
        else g.getParentConnectionsRecursive depth c.fromNode (cs ++ [c])) cs := by
    intro depth n hn cs
    rw [getParentConnectionsRecursive, getDirectParentConnections_of_mem hn]
    rfl
  obtain ⟨cs, hok, hgather⟩ := Gather.foldlM_gathers
    (fun depth (c : GraphConnection) cs => g.getParentConnectionsRecursive depth c.fromNode cs)
    (fun c _ => hsub c.fromNode) (fun depth c hc => hcall depth c.fromNode (hclosed c hc).1)
    [] (hsub node) (List.length_filter_le _ _)
  refine ⟨cs, (hcall _ node hnode []).trans hok, fun c => ?_⟩
  rw [hgather.mem_iff, gatherReaches_iff]

/-! ### Direct walks -/

section Exact

variable {destination trigger : INode}

/-- The main connections that walks from the trigger to the destination can take. -/
abbrev IsDirect (g : DirectedGraph) (destination trigger : INode) : GraphConnection → Prop :=
  Branches.Direct GraphConnection.fromNode GraphConnection.toNode (IsMain g) trigger destination

variable {a b : INode} {l : List GraphConnection} {sub : DirectedGraph}

theorem MainWalk.append {c : INode} {l' : List GraphConnection} (h : MainWalk g a b l)
    (h' : MainWalk g b c l') : MainWalk g a c (l ++ l') := by
  induction h with
  | nil => exact h'
  | cons hc _ ih => exact .cons hc (ih h')

/-- The connections of a walk are main connections. -/
theorem MainWalk.isMain (h : MainWalk g a b l) : ∀ c ∈ l, IsMain g c := by
  induction h with
  | nil => exact fun c hc => absurd hc List.not_mem_nil
  | cons hc _ ih => exact List.forall_mem_cons.2 ⟨hc, ih⟩

/-- A walk of direct connections is a sequence of direct steps, through each of its connections. -/
theorem MainWalk.steps (h : MainWalk g a b l) (hl : ∀ c ∈ l, IsDirect g destination trigger c) :
    Relation.ReflTransGen (DirectStep g destination trigger) a b ∧
      ∀ c ∈ l, Relation.ReflTransGen (DirectStep g destination trigger) a c.fromNode ∧
        Relation.ReflTransGen (DirectStep g destination trigger) c.toNode b := by
  induction h with
  | nil => exact ⟨.refl, fun c hc => absurd hc List.not_mem_nil⟩
  | @cons c n l hc _ ih =>
    obtain ⟨hdirect, hl⟩ := List.forall_mem_cons.1 hl
    obtain ⟨hreach, hmem⟩ := ih hl
    have hstep : DirectStep g destination trigger c.fromNode c.toNode := .of_direct hdirect
    refine ⟨.head hstep hreach, List.forall_mem_cons.2 ⟨⟨.refl, hreach⟩, fun c' hc' => ?_⟩⟩
    exact ⟨.head hstep (hmem c' hc').1, (hmem c' hc').2⟩

theorem exists_mainWalk (h : Relation.ReflTransGen (DirectStep g destination trigger) a b) :
    ∃ l, MainWalk g a b l ∧ ∀ c ∈ l, IsDirect g destination trigger c := by
  induction h using Relation.ReflTransGen.head_induction_on with
  | refl => exact ⟨[], .nil b, fun c hc => absurd hc List.not_mem_nil⟩
  | head hstep _ ih =>
    obtain ⟨c, hdirect, rfl, rfl⟩ := hstep
    obtain ⟨l, hwalk, hl⟩ := ih
    exact ⟨c :: l, .cons hdirect.1 hwalk, List.forall_mem_cons.2 ⟨hdirect, hl⟩⟩

theorem directWalk_iff : DirectWalk g destination trigger l ↔
    MainWalk g trigger destination l ∧ ∀ c ∈ l, IsDirect g destination trigger c := by
  constructor
  · rintro ⟨hwalk, hfrom, hto⟩
    exact ⟨hwalk, fun c hc => ⟨hwalk.isMain c hc, hfrom c hc, hto c hc⟩⟩
  · rintro ⟨hwalk, hl⟩
    exact ⟨hwalk, fun c hc => (hl c hc).2.1, fun c hc => (hl c hc).2.2⟩

/-- The connections of the direct walks. -/
theorem exists_directWalk_iff (c : GraphConnection) :
    (∃ l, DirectWalk g destination trigger l ∧ c ∈ l) ↔ IsDirect g destination trigger c ∧
      Relation.ReflTransGen (DirectStep g destination trigger) trigger c.fromNode ∧
      Relation.ReflTransGen (DirectStep g destination trigger) c.toNode destination := by
  constructor
  · rintro ⟨l, hl, hc⟩
    obtain ⟨hwalk, hdirect⟩ := directWalk_iff.1 hl
    exact ⟨hdirect c hc, (hwalk.steps hdirect).2 c hc⟩
  · rintro ⟨hdirect, hfrom, hto⟩
    obtain ⟨l₁, hwalk₁, hl₁⟩ := exists_mainWalk hfrom
    obtain ⟨l₂, hwalk₂, hl₂⟩ := exists_mainWalk hto
    refine ⟨l₁ ++ c :: l₂, directWalk_iff.2 ⟨hwalk₁.append (.cons hdirect.1 hwalk₂), ?_⟩, by simp⟩
    exact List.forall_mem_append.2 ⟨hl₁, List.forall_mem_cons.2 ⟨hdirect, hl₂⟩⟩

/-- The nodes of the direct walks. -/
theorem onDirectWalk_iff (n : INode) : OnDirectWalk g destination trigger n ↔
    Relation.ReflTransGen (DirectStep g destination trigger) trigger n ∧
      Relation.ReflTransGen (DirectStep g destination trigger) n destination := by
  constructor
  · rintro ⟨l, hl, rfl | ⟨c, hc, rfl⟩⟩
    · obtain ⟨hwalk, hdirect⟩ := directWalk_iff.1 hl
      exact ⟨.refl, (hwalk.steps hdirect).1⟩
    · obtain ⟨hdirect, hfrom, hto⟩ := (exists_directWalk_iff c).1 ⟨l, hl, hc⟩
      exact ⟨hfrom.tail (.of_direct hdirect), hto⟩
  · rintro ⟨hfrom, hto⟩
    obtain ⟨l₂, hwalk₂, hl₂⟩ := exists_mainWalk hto
    rcases hfrom.cases_tail with rfl | ⟨y, hy, c, hdirect, rfl, rfl⟩
    · exact ⟨l₂, directWalk_iff.2 ⟨hwalk₂, hl₂⟩, Or.inl rfl⟩
    · obtain ⟨l, hl, hc⟩ := (exists_directWalk_iff c).2 ⟨hdirect, hy, hto⟩
      exact ⟨l, hl, Or.inr ⟨c, hc, rfl⟩⟩

/-! ### The search from the destination -/

/-- A connection that the search keeps. -/
def Searched (g : DirectedGraph) (destination trigger : INode) (c : GraphConnection) : Prop :=
  IsDirect g destination trigger c ∧
    Relation.ReflTransGen (DirectStep g destination trigger) c.toNode destination ∧
    Branches.Rooted GraphConnection.fromNode GraphConnection.toNode (IsMain g) trigger destination
      c.fromNode

/-- No direct step enters the trigger, so it is reached from nowhere else. -/
theorem eq_of_reaches_trigger {n : INode}
    (h : Relation.ReflTransGen (DirectStep g destination trigger) n trigger) : n = trigger := by
  rcases h.cases_tail with heq | ⟨y, -, c, hc, -, hto⟩
  · exact heq.symm
  · exact absurd hto hc.2.2

theorem within_empty (g : DirectedGraph) : Within g empty :=
  ⟨fun _ h => absurd h List.not_mem_nil, fun _ h => absurd h List.not_mem_nil⟩

/-- The graph that the search from the destination returns. -/
theorem search_spec (trigger : INode) (hclosed : g.Closed) (hD : destination ∈ g.getNodes) :
    ∃ sub, findSubgraphRecursive g destination trigger (g.getNodes.length + 1) destination [] .empty =
        .ok sub ∧ Within g sub ∧
      (∀ c, c ∈ sub.getConnections ↔ Searched g destination trigger c) ∧
      ∀ n, n ∈ sub.getNodes ↔ n = trigger ∧ trigger = destination ∨
        ∃ c, Searched g destination trigger c ∧ (n = c.fromNode ∨ n = c.toNode) := by
  by_cases hne : trigger = destination
  · -- the search ends at once, and there is no direct connection to be kept
    obtain ⟨hwithin, hmem⟩ := (within_empty g).addNode hD
    have hnone : ∀ c, ¬Searched g destination trigger c := fun c hc =>
      hc.1.2.2 ((eq_of_reaches_trigger (hne ▸ hc.2.1)).trans hne.symm)
    refine ⟨empty.addNode destination, ?_, hwithin, fun c => ?_, fun n => ?_⟩
    · rw [findSubgraphRecursive, if_pos hne.symm, hne]
      rfl
    · rw [getConnections_addNode]
      exact ⟨fun h => absurd h List.not_mem_nil, fun h => absurd h (hnone c)⟩
    · rw [hmem]
      constructor
      · rintro (rfl | h)
        · exact Or.inl ⟨hne.symm, hne⟩
        · exact absurd h List.not_mem_nil
      · rintro (⟨rfl, -⟩ | ⟨c, hc, -⟩)
        · exact Or.inl hne
        · exact absurd hc (hnone c)
  · obtain ⟨sub, hsub, hcoll⟩ := findSubgraphRecursive_collects (b := []) hclosed hne
      (within_empty g) hD (fun c hc => absurd hc List.not_mem_nil) (Or.inl ⟨rfl, rfl⟩)
      (Nat.lt_succ_of_le (List.length_filter_le _ _))
    have hconns : ∀ c, (∃ b, KeepsBranch g destination trigger destination [] b ∧ c ∈ b) ↔
        Searched g destination trigger c :=
      Branches.keeps_iff g.getNodes (fun c hc => (hclosed c hc.1).2) hne
    refine ⟨sub, hsub, hcoll.within, fun c => ?_, fun n => ?_⟩
    · rw [hcoll.connections, hconns]
      exact or_iff_right List.not_mem_nil
    · rw [hcoll.nodes]
      constructor
      · rintro (h | ⟨b, hb, c, hc, hn⟩)
        · exact absurd h List.not_mem_nil
        · exact Or.inr ⟨c, (hconns c).1 ⟨b, hb, hc⟩, hn⟩
      · rintro (⟨-, h⟩ | ⟨c, hc, hn⟩)
        · exact absurd h hne
        · obtain ⟨b, hb, hcb⟩ := (hconns c).2 hc
          exact Or.inr ⟨b, hb, c, hcb, hn⟩

/-- When cycles are reached from the trigger, a node that is reached from a cycle is, too. -/
theorem CyclesRooted.reaches (hcycles : CyclesRooted g destination trigger) {n : INode}
    (hroot : Branches.Rooted GraphConnection.fromNode GraphConnection.toNode (IsMain g) trigger
      destination n)
    (hn : Relation.ReflTransGen (DirectStep g destination trigger) n destination) :
    Relation.ReflTransGen (DirectStep g destination trigger) trigger n := by
  rcases hroot with h | ⟨v, hcycle, hv⟩
  · exact h
  · exact (hcycles v hcycle (hv.trans hn)).trans hv

/-- The search keeps the connections of the direct walks exactly when the cycles it finds are reached
from the trigger. -/
theorem searched_iff_directWalk :
    (∀ c, Searched g destination trigger c ↔ ∃ l, DirectWalk g destination trigger l ∧ c ∈ l) ↔
      CyclesRooted g destination trigger := by
  constructor
  · intro h v hcycle hv
    obtain ⟨x, ⟨c, hc, rfl, rfl⟩, hx⟩ := Relation.TransGen.head'_iff.1 hcycle
    have hsearched : Searched g destination trigger c :=
      ⟨hc, hx.trans hv, Or.inr ⟨c.fromNode, hcycle, .refl⟩⟩
    exact ((exists_directWalk_iff c).1 ((h c).1 hsearched)).2.1
  · intro hcycles c
    rw [exists_directWalk_iff]
    constructor
    · rintro ⟨hc, hto, hroot⟩
      exact ⟨hc, hcycles.reaches hroot (.head (.of_direct hc) hto), hto⟩
    · rintro ⟨hc, hfrom, hto⟩
      exact ⟨hc, hto, Or.inl hfrom⟩

/-- The nodes of the connections kept are then the nodes of the direct walks. -/
theorem CyclesRooted.searched_node_iff (hcycles : CyclesRooted g destination trigger) (n : INode) :
    (n = trigger ∧ trigger = destination ∨
        ∃ c, Searched g destination trigger c ∧ (n = c.fromNode ∨ n = c.toNode)) ↔
      OnDirectWalk g destination trigger n := by
  rw [onDirectWalk_iff]
  constructor
  · rintro (⟨rfl, rfl⟩ | ⟨c, ⟨hc, hto, hroot⟩, rfl | rfl⟩)
    · exact ⟨.refl, .refl⟩
    · have hn := Relation.ReflTransGen.head (Branches.Step.of_direct hc) hto
      exact ⟨hcycles.reaches hroot hn, hn⟩
    · have hn := Relation.ReflTransGen.head (Branches.Step.of_direct hc) hto
      exact ⟨(hcycles.reaches hroot hn).tail (.of_direct hc), hto⟩
  · rintro ⟨hfrom, hto⟩
    rcases hfrom.cases_tail with rfl | ⟨y, hy, c, hc, rfl, rfl⟩
    · rcases hto.cases_head with heq | ⟨y, ⟨c, hc, rfl, rfl⟩, hy⟩
      · exact Or.inl ⟨rfl, heq⟩
      · exact Or.inr ⟨c, ⟨hc, hy, Or.inl .refl⟩, Or.inl rfl⟩
    · exact Or.inr ⟨c, ⟨hc, hto, Or.inl hy⟩, Or.inr rfl⟩

/-! ### The sub-nodes -/

/-- The branch that is kept for a node: what leads to it, less the main connections. -/
def SubNodeBranch (g : DirectedGraph) (node : INode) (b : List GraphConnection) : Prop :=
  ∃ cs, g.getParentConnections node = .ok cs ∧ b = cs.filter (·.type ≠ .main)

theorem addSubNodes_collects (hclosed : g.Closed) (hsub : Within g sub) {node : INode}
    (hnode : node ∈ g.getNodes) :
    ∃ g', addSubNodes g sub node = .ok g' ∧ Collects g (SubNodeBranch g node) sub g' := by
  obtain ⟨cs, hcs, hmem⟩ := getParentConnections_spec hclosed hnode
  obtain ⟨g', hg', hcoll⟩ := hsub.keepBranch (b := cs.filter (·.type ≠ .main)) hclosed
    fun c hc => ((hmem c).1 (List.mem_filter.1 hc).1).1
  refine ⟨g', Except.bind_eq_ok_iff.2 ⟨cs, hcs, hg'⟩, hcoll.congr fun b => ?_⟩
  constructor
  · exact fun hb => ⟨cs, hcs, hb⟩
  · rintro ⟨cs', hcs', rfl⟩
    obtain rfl : cs = cs' := Except.ok.inj (hcs.symm.trans hcs')
    rfl

theorem exists_subNodeBranch_iff (hclosed : g.Closed) {node : INode} (hnode : node ∈ g.getNodes)
    (c : GraphConnection) : (∃ b, SubNodeBranch g node b ∧ c ∈ b) ↔
      c ∈ g.getConnections ∧ c.type ≠ .main ∧ ReachesBy g (fun _ => True) c.toNode node := by
  obtain ⟨cs, hcs, hmem⟩ := getParentConnections_spec hclosed hnode
  constructor
  · rintro ⟨b, ⟨cs', hcs', rfl⟩, hc⟩
    obtain rfl : cs = cs' := Except.ok.inj (hcs.symm.trans hcs')
    obtain ⟨hc, htype⟩ := List.mem_filter.1 hc
    exact ⟨((hmem c).1 hc).1, of_decide_eq_true htype, ((hmem c).1 hc).2⟩
  · rintro ⟨hc, htype, hreach⟩
    exact ⟨_, ⟨cs, hcs, rfl⟩, List.mem_filter.2 ⟨(hmem c).2 ⟨hc, hreach⟩, decide_eq_true htype⟩⟩

/-- A connection that is added for a sub-node. -/
def Attached (g : DirectedGraph) (nodes : INode → Prop) (c : GraphConnection) : Prop :=
  c ∈ g.getConnections ∧ c.type ≠ .main ∧
    ∃ k, nodes k ∧ ReachesBy g (fun _ => True) c.toNode k

/-- What is added for the nodes that the search kept. -/
theorem foldlM_addSubNodes_spec (hclosed : g.Closed) (hsub : Within g sub) :
    ∃ sub', sub.getNodes.foldlM (addSubNodes g) sub = .ok sub' ∧
      (∀ c, c ∈ sub'.getConnections ↔ c ∈ sub.getConnections ∨ Attached g (· ∈ sub.getNodes) c) ∧
      ∀ n, n ∈ sub'.getNodes ↔ n ∈ sub.getNodes ∨
        ∃ c, Attached g (· ∈ sub.getNodes) c ∧ (n = c.fromNode ∨ n = c.toNode) := by
  obtain ⟨sub', hsub', hcoll⟩ := foldlM_collects (SubNodeBranch g) (addSubNodes g) sub.getNodes
    (fun n hn s hs => addSubNodes_collects hclosed hs (hsub.1 n hn)) hsub
  have hbranch : ∀ c, (∃ b, (∃ n ∈ sub.getNodes, SubNodeBranch g n b) ∧ c ∈ b) ↔
      Attached g (· ∈ sub.getNodes) c := by
    intro c
    constructor
    · rintro ⟨b, ⟨n, hn, hb⟩, hc⟩
      obtain ⟨hcg, htype, hreach⟩ := (exists_subNodeBranch_iff hclosed (hsub.1 n hn) c).1 ⟨b, hb, hc⟩
      exact ⟨hcg, htype, n, hn, hreach⟩
    · rintro ⟨hcg, htype, n, hn, hreach⟩
      obtain ⟨b, hb, hc⟩ :=
        (exists_subNodeBranch_iff hclosed (hsub.1 n hn) c).2 ⟨hcg, htype, hreach⟩
      exact ⟨b, ⟨n, hn, hb⟩, hc⟩
  refine ⟨sub', hsub', fun c => ?_, fun n => ?_⟩
  · rw [hcoll.connections, hbranch]
  · rw [hcoll.nodes]
    refine or_congr_right ⟨?_, ?_⟩
    · rintro ⟨b, hb, c, hc, hn⟩
      exact ⟨c, (hbranch c).1 ⟨b, hb, hc⟩, hn⟩
    · rintro ⟨c, hc, hn⟩
      obtain ⟨b, hb, hcb⟩ := (hbranch c).2 hc
      exact ⟨b, hb, c, hcb, hn⟩

/-- The nodes that are added are the sub-nodes exactly when what leads to a node on a direct walk
does so by other connections than main ones. -/
theorem attached_nodes_iff (hnodes : ∀ n, n ∈ sub.getNodes ↔ OnDirectWalk g destination trigger n) :
    (∀ n, (n ∈ sub.getNodes ∨
          ∃ c, Attached g (· ∈ sub.getNodes) c ∧ (n = c.fromNode ∨ n = c.toNode)) →
        OnDirectWalk g destination trigger n ∨
          ∃ k, OnDirectWalk g destination trigger k ∧ ReachesBy g (·.type ≠ .main) n k) ↔
      SubNodesOnly g destination trigger := by
  constructor
  · rintro h c hc htype ⟨k, hk, hreach⟩
    have hattached : Attached g (· ∈ sub.getNodes) c := ⟨hc, htype, k, (hnodes k).2 hk, hreach⟩
    rcases h c.toNode (Or.inr ⟨c, hattached, Or.inr rfl⟩) with hn | hn
    · exact ⟨c.toNode, hn, .refl⟩
    · exact hn
  · rintro h n (hn | ⟨c, ⟨hc, htype, k, hk, hreach⟩, hn⟩)
    · exact Or.inl ((hnodes n).1 hn)
    · obtain ⟨k', hk', hreach'⟩ := h c hc htype ⟨k, (hnodes k).1 hk, hreach⟩
      refine Or.inr ⟨k', hk', ?_⟩
      rcases hn with rfl | rfl
      · exact .head ⟨c, hc, htype, rfl, rfl⟩ hreach'
      · exact hreach'

/-- **`findSubgraph`** does not fail, and keeps exactly what leads from the trigger to the destination
when the cycles it finds are reached from the trigger and what leads to the nodes kept by other
connections than main ones does so by such connections only. -/
theorem findSubgraph_keepsExactly_iff (hclosed : g.Closed) (hD : destination ∈ g.getNodes) :
    (∃ sub, findSubgraph g destination trigger = .ok sub ∧
        KeepsExactly g destination trigger sub) ↔
      CyclesRooted g destination trigger ∧ SubNodesOnly g destination trigger := by
  obtain ⟨sub, hsub, hwithin, hconns, hsubNodes⟩ := search_spec trigger hclosed hD
  obtain ⟨sub', hsub', hconns', hnodes'⟩ := foldlM_addSubNodes_spec hclosed hwithin
  have hfind : findSubgraph g destination trigger = .ok sub' :=
    Except.bind_eq_ok_iff.2 ⟨sub, hsub, hsub'⟩
  have hmain : (∀ c : GraphConnection, c.type = .main → (c ∈ sub'.getConnections ↔
      ∃ l, DirectWalk g destination trigger l ∧ c ∈ l)) ↔ CyclesRooted g destination trigger := by
    rw [← searched_iff_directWalk]
    refine ⟨fun h c => ?_, fun h c htype => ?_⟩
    · by_cases htype : c.type = .main
      · rw [← h c htype, hconns', hconns]
        exact (or_iff_left fun h => h.2.1 htype).symm
      · rw [exists_directWalk_iff]
        exact iff_of_false (fun h => htype h.1.1.2) (fun h => htype h.1.1.2)
    · rw [← h c, hconns', hconns]
      exact or_iff_left fun h => h.2.1 htype
  have hkeeps : (∃ sub, findSubgraph g destination trigger = .ok sub ∧
      KeepsExactly g destination trigger sub) ↔ KeepsExactly g destination trigger sub' := by
    constructor
    · rintro ⟨s, hs, h⟩
      obtain rfl : sub' = s := Except.ok.inj (hfind.symm.trans hs)
      exact h
    · exact fun h => ⟨sub', hfind, h⟩
  rw [hkeeps]
  constructor
  · rintro ⟨hm, hn⟩
    have hcycles := hmain.1 hm
    have hnodes : ∀ n, n ∈ sub.getNodes ↔ OnDirectWalk g destination trigger n := fun n =>
      (hsubNodes n).trans (hcycles.searched_node_iff n)
    exact ⟨hcycles, (attached_nodes_iff hnodes).1 fun n h => hn n ((hnodes' n).2 h)⟩
  · rintro ⟨hcycles, honly⟩
    have hnodes : ∀ n, n ∈ sub.getNodes ↔ OnDirectWalk g destination trigger n := fun n =>
      (hsubNodes n).trans (hcycles.searched_node_iff n)
    exact ⟨hmain.2 hcycles, fun n hn =>
      (attached_nodes_iff hnodes).2 honly n ((hnodes' n).1 hn)⟩

end Exact

/-- A main connection between two nodes. -/
def mainConnection (a b : String) : GraphConnection := ⟨{ name := a }, { name := b }, .main, 0, 0⟩

theorem findSubgraph_keepsExactly_iff_pair : ∃ g,
    (empty.addNodes [{ name := "T" }, { name := "D" }]).addConnections [mainConnection "T" "D"] =
        .ok g ∧
      ((∃ sub, findSubgraph g { name := "D" } { name := "T" } = .ok sub ∧
          KeepsExactly g { name := "D" } { name := "T" } sub) ↔
        CyclesRooted g { name := "D" } { name := "T" } ∧
          SubNodesOnly g { name := "D" } { name := "T" }) := by
  have hbuild : (empty.addNodes [{ name := "T" }, { name := "D" }]).addConnections
      [mainConnection "T" "D"] = .ok _ := rfl
  have hclosed := (closed_of_getConnections_eq_nil rfl).addConnections hbuild
  exact ⟨_, hbuild, findSubgraph_keepsExactly_iff hclosed (by decide)⟩

/-- What is reached from a set of nodes that no connection leaves is in the set. -/
theorem mem_of_reaches {destination trigger : INode} {l : List INode}
    (hl : ∀ c ∈ g.getConnections, c.fromNode ∈ l → c.toNode ∈ l) {a : INode} (ha : a ∈ l)
    (h : Relation.ReflTransGen (DirectStep g destination trigger) a n) : n ∈ l := by
  induction h with
  | refl => exact ha
  | tail _ hstep ih =>
    obtain ⟨c, hc, rfl, rfl⟩ := hstep
    exact hl c hc.1.1 ih

/-- A cycle that leads to the destination is kept although the trigger does not lead to it. -/
theorem findSubgraph_keeps_cycle : ∃ g sub,
    (empty.addNodes [{ name := "T" }, { name := "D" }, { name := "A" }, { name := "B" }]
        ).addConnections [mainConnection "T" "D", mainConnection "A" "B", mainConnection "B" "A",
          mainConnection "A" "D"] = .ok g ∧
      findSubgraph g { name := "D" } { name := "T" } = .ok sub ∧
      mainConnection "A" "B" ∈ sub.getConnections ∧
      ¬KeepsExactly g { name := "D" } { name := "T" } sub := by
  refine ⟨_, _, rfl, rfl, by decide, fun h => ?_⟩
  obtain ⟨-, hfrom, -⟩ :=
    (exists_directWalk_iff _).1 ((h.main (mainConnection "A" "B") rfl).1 (by decide))
  have hmem := mem_of_reaches (l := [{ name := "T" }, { name := "D" }]) (by decide) (by decide) hfrom
  exact absurd hmem (by decide)

end N8n
