import N8n.Graph.LowLinks

/-!
# When the components are the strongly connected ones

* `getStronglyConnectedComponents_isComponents_iff`: the exact condition on the graph;
* `getStronglyConnectedComponents_of_not_settled`: a connection to a replaced node fails an assertion;
* `ringGraph_components`: four nodes on which the result misses three of them.
-/

namespace N8n

open DirectedGraph

/-- What holds while `followNode` and the plain search run side by side. -/
structure Follows (g : DirectedGraph) (path : List (INode × List INode)) (pending : Option INode)
    (s : SccState) (t : Dfs.Trace INode) : Prop where
  search : Dfs.Inv g.children path pending t
  simulates : Simulates path s t
  regime : Good g path s t ∨ Stuck g path s t
  nodes : ∀ x ∈ t.order, x ∈ g.getNodes

/-- How many nodes are still to be visited. -/
def unvisited (g : DirectedGraph) (visited : List INode) : ℕ :=
  (g.getNodes.filter (· ∉ visited)).length

variable {g : DirectedGraph} {v : INode} {s s' : SccState} {depth : ℕ} {e : JsError}

theorem unvisited_le {l l' : List INode} (h : l ⊆ l') : unvisited g l' ≤ unvisited g l := by
  refine (List.monotone_filter_right g.getNodes fun x hx => ?_).length_le
  simp only [decide_eq_true_eq] at hx ⊢
  exact fun hx' => hx (h hx')

theorem unvisited_append_lt {l : List INode} (hv : v ∈ g.getNodes) (hl : v ∉ l) :
    unvisited g (l ++ [v]) < unvisited g l := by
  have hperm : (g.getNodes.filter (· ∉ l)).Perm (v :: g.getNodes.filter (· ∉ l ++ [v])) := by
    refine (List.perm_ext_iff_of_nodup (g.getNodes_nodup.filter _) ?_).2 fun x => ?_
    · exact List.nodup_cons.2 ⟨by simp, g.getNodes_nodup.filter _⟩
    · by_cases hx : x = v
      · subst hx
        simp [hv, hl]
      · simp [hx]
  rw [unvisited, unvisited, hperm.length_eq, List.length_cons]
  exact Nat.lt_succ_self _

section Run

variable {g : DirectedGraph} {path : List (INode × List INode)} {s : SccState}
  {t : Dfs.Trace INode}

theorem getDirectChildConnections_of_mem {v : INode} (hv : v ∈ g.getNodes) :
    g.getDirectChildConnections v = .ok (g.childConnections v) := by
  rw [getDirectChildConnections, if_pos ((g.hasNode_iff v).2 hv)]

theorem Follows.enter (h : Follows g path none s t) {v : INode} (hv : v ∉ t.order)
    (hnode : v ∈ g.getNodes) (hhead : ∀ f ∈ path.head?, v ∈ f.2) :
    Follows g ((v, g.children v) :: path) none (s.enter v) (t.enter v) where
  search := h.search.enter hv hhead
  simulates := h.simulates.enter hv _
  regime := h.regime.imp (fun hg => hg.enter h.search h.simulates hv _)
    fun hs => hs.enter h.simulates h.search hv _
  nodes := fun x hx => by
    rcases List.mem_append.1 hx with hx | hx
    · exact h.nodes x hx
    · exact List.mem_singleton.1 hx ▸ hnode

theorem Follows.lower {v c : INode} {cs : List INode}
    (h : Follows g ((v, c :: cs) :: path) (some c) s t) (hc : c ∈ t.order) :
    ∃ s', s.lower v c = .ok s' ∧ Follows g ((v, cs) :: path) none s' (t.complete v c) := by
  obtain ⟨s', heq, hsim⟩ := h.simulates.lower hc
  exact ⟨s', heq, h.search.complete hc, hsim, h.regime.imp
    (fun hg => hg.lower h.search h.simulates hc heq) fun hs => hs.lower heq, h.nodes⟩

/-- `followNode` visits what the plain search visits. -/
theorem followNode_visit (hset : g.Settled) (depth : ℕ) (v : INode)
    (path : List (INode × List INode)) (s : SccState) (t : Dfs.Trace INode)
    (h : Follows g path none s t) (hv : v ∈ g.getNodes) (hhead : ∀ f ∈ path.head?, v ∈ f.2)
    (hdepth : unvisited g t.order < depth) :
    ∃ s', followNode g depth v s = .ok s' ∧
      Follows g path (some v) s' (Dfs.visit g.children depth v t) := by
  induction depth generalizing v path s t with
  | zero => exact absurd hdepth (Nat.not_lt_zero _)
  | succ depth ih =>
    rw [followNode, Dfs.visit, h.simulates.visited]
    split_ifs with hvisited
    · exact ⟨s, rfl, h.search.skip v, h.simulates, h.regime, h.nodes⟩
    · have hloop : ∀ cs s t, Follows g ((v, cs) :: path) none s t → unvisited g t.order < depth →
          ∃ s', cs.foldlM (fun s child => do (← followNode g depth child s).lower v child) s =
              .ok s' ∧ Follows g ((v, []) :: path) none s'
            (cs.foldl (fun t c => (Dfs.visit g.children depth c t).complete v c) t) := by
        intro cs
        induction cs with
        | nil => exact fun s t h _ => ⟨s, rfl, h⟩
        | cons c cs ihcs =>
          intro s t h hlt
          have hvc : c ∈ g.children v :=
            h.search.rest_sub (v, c :: cs) List.mem_cons_self c List.mem_cons_self
          obtain ⟨s₁, hs₁, h₁⟩ := ih c _ s t h (hset v hv c hvc)
            (fun f hf => by cases hf; exact List.mem_cons_self) hlt
          have hc : c ∈ (Dfs.visit g.children depth c t).order := by
            cases depth with
            | zero => exact absurd hlt (Nat.not_lt_zero _)
            | succ depth => exact Dfs.mem_order_visit depth c t
          obtain ⟨s₂, hs₂, h₂⟩ := h₁.lower hc
          have hpre : t.order <+: (Dfs.visit g.children depth c t).order :=
            Dfs.order_prefix_visit depth c t
          have hle := unvisited_le (g := g) hpre.subset
          obtain ⟨s₃, hs₃, h₃⟩ := ihcs s₂ _ h₂ (hle.trans_lt hlt)
          refine ⟨s₃, ?_, h₃⟩
          rw [List.foldlM_cons]
          exact Except.bind_eq_ok_iff.2 ⟨s₂, Except.bind_eq_ok_iff.2 ⟨s₁, hs₁, hs₂⟩, hs₃⟩
      obtain ⟨s₁, hs₁, h₁⟩ := hloop _ _ _ (h.enter hvisited hv hhead)
        (Nat.lt_of_lt_of_le (unvisited_append_lt hv hvisited) (Nat.lt_succ_iff.1 hdepth))
      obtain ⟨s₂, hs₂, hsim, hregime⟩ := h₁.simulates.close h₁.search h₁.regime
      refine ⟨s₂, ?_, h₁.search.finish, hsim, hregime, h₁.nodes⟩
      exact Except.bind_eq_ok_iff.2 ⟨_, getDirectChildConnections_of_mem hv,
        Except.bind_eq_ok_iff.2 ⟨s₁, hs₁, hs₂⟩⟩

/-- The loop over all nodes visits what the plain search visits. -/
theorem foldlM_followNode (hset : g.Settled) (nodes : List INode) (hnodes : nodes ⊆ g.getNodes)
    (h : Follows g [] none s t) :
    ∃ s' t', nodes.foldlM (fun s node => followNode g (g.getNodes.length + 1) node s) s = .ok s' ∧
      nodes.foldl (fun t v => Dfs.visit g.children (g.getNodes.length + 1) v t) t = t' ∧
      Follows g [] none s' t' ∧ t.order ⊆ t'.order ∧ nodes ⊆ t'.order := by
  induction nodes generalizing s t with
  | nil => exact ⟨s, t, rfl, rfl, h, List.Subset.refl _, List.nil_subset _⟩
  | cons v nodes ih =>
    have hlt : unvisited g t.order < g.getNodes.length + 1 :=
      Nat.lt_succ_of_le (List.length_filter_le _ _)
    obtain ⟨s₁, hs₁, h₁⟩ := followNode_visit hset _ v [] s t h (hnodes List.mem_cons_self)
      (fun f hf => by cases hf) hlt
    obtain ⟨s₂, t₂, hs₂, ht₂, h₂, hsub, hvisited⟩ := ih
      (fun x hx => hnodes (List.mem_cons_of_mem _ hx))
      ⟨h₁.search.of_nil, h₁.simulates, h₁.regime, h₁.nodes⟩
    refine ⟨s₂, t₂, ?_, ht₂, h₂, ?_, ?_⟩
    · rw [List.foldlM_cons]
      exact Except.bind_eq_ok_iff.2 ⟨s₁, hs₁, hs₂⟩
    · exact List.Subset.trans (Dfs.order_prefix_visit _ v t).subset hsub
    · exact List.cons_subset.2 ⟨hsub (Dfs.mem_order_visit _ v t), hvisited⟩

theorem Follows.init (g : DirectedGraph) : Follows g [] none {} {} where
  search := .init
  simulates := by
    refine ⟨rfl, rfl, ?_, ?_, ?_, .nil, ?_, ?_, ?_, .nil⟩ <;> intro x hx <;> cases hx
  regime := Or.inl (by
    refine ⟨?_, ?_, ?_, ?_, ?_, ?_, ?_⟩ <;> intro x hx <;> cases hx)
  nodes := fun x hx => by cases hx

/-! ### The end of a run -/

/-- A run that never got stuck popped the components. -/
theorem Good.isComponents (h : Good g [] s t) (hs : Simulates [] s t)
    (horder : ∀ x, x ∈ t.order ↔ x ∈ g.getNodes) :
    g.IsComponents s.stronglyConnectedComponents ∧
      ∀ v ∈ g.getNodes, ∀ r, g.First t v r → Dfs.ReverseWalk t.completed v r := by
  have hpopped : ∀ x ∈ g.getNodes, ∃ c ∈ s.stronglyConnectedComponents, x ∈ c := by
    intro x hx
    refine (h.covered x ((horder x).2 hx)).resolve_left fun hxs => ?_
    obtain ⟨f, hf, -⟩ := h.root x hxs
    exact List.not_mem_nil hf
  refine ⟨⟨hs.nodup, hs.disjoint, fun n => ⟨?_, hpopped n⟩, fun a ha b _ => ⟨?_, fun hab => ?_⟩⟩, ?_⟩
  · rintro ⟨c, hc, hn⟩
    exact (horder n).1 (hs.popped c hc n hn).1
  · rintro ⟨c, hc, hac, hbc⟩
    exact (h.exact c hc a hac b).1 hbc
  · obtain ⟨c, hc, hac⟩ := hpopped a ha
    exact ⟨c, hc, hac, (h.exact c hc a hac b).2 hab⟩
  · intro v hv r hr
    obtain ⟨c, hc, hvc⟩ := hpopped v hv
    exact h.reverse c hc v hvc r hr

/-- A run that got stuck left a node on the stack. -/
theorem Stuck.not_isComponents (h : Stuck g [] s t) (hs : Simulates [] s t)
    (horder : ∀ x, x ∈ t.order ↔ x ∈ g.getNodes) :
    ¬g.IsComponents s.stronglyConnectedComponents ∧
      ¬∀ v ∈ g.getNodes, ∀ r, g.First t v r → Dfs.ReverseWalk t.completed v r := by
  obtain ⟨w, r, l, h⟩ := h
  have hw : w ∈ g.getNodes := (horder w).1 (hs.stack_mem w h.stack)
  constructor
  · intro hcomp
    obtain ⟨c, hc, hwc⟩ := (hcomp.cover w).2 hw
    exact (hs.popped c hc w hwc).2 h.stack
  · exact fun hwalk => h.no_walk (hwalk w hw r h.first)

theorem getStronglyConnectedComponents_of_settled (hset : g.Settled) :
    ∃ sets, g.getStronglyConnectedComponents = .ok sets ∧
      (g.IsComponents sets ↔ g.InReverseOrder) := by
  obtain ⟨s, t, hs, ht, h, -, hvisited⟩ :=
    foldlM_followNode hset g.getNodes (List.Subset.refl _) (Follows.init g)
  have horder : ∀ x, x ∈ t.order ↔ x ∈ g.getNodes := fun x => ⟨h.nodes x, fun hx => hvisited hx⟩
  refine ⟨s.stronglyConnectedComponents, Except.bind_eq_ok_iff.2 ⟨s, hs, rfl⟩, ?_⟩
  rw [InReverseOrder, depthFirst, Dfs.search, ht]
  rcases h.regime with hgood | hstuck
  · obtain ⟨h1, h2⟩ := hgood.isComponents h.simulates horder
    exact iff_of_true h1 h2
  · obtain ⟨h1, h2⟩ := hstuck.not_isComponents h.simulates horder
    exact iff_of_false h1 h2

end Run

/-! ### Connections to replaced nodes -/

/-- The nodes visited between two states have all their children visited. -/
def Explores (g : DirectedGraph) (s s' : SccState) : Prop :=
  s.visited ⊆ s'.visited ∧ ∀ x ∈ s'.visited, x ∈ s.visited ∨
    x ∈ g.getNodes ∧ ∀ c ∈ g.children x, c ∈ s'.visited

theorem Explores.refl (g : DirectedGraph) (s : SccState) : Explores g s s :=
  ⟨List.Subset.refl _, fun _ hx => Or.inl hx⟩

theorem Explores.trans {s₁ s₂ s₃ : SccState} (h₁ : Explores g s₁ s₂) (h₂ : Explores g s₂ s₃) :
    Explores g s₁ s₃ := by
  refine ⟨List.Subset.trans h₁.1 h₂.1, fun x hx => ?_⟩
  rcases h₂.2 x hx with hx | hx
  · exact (h₁.2 x hx).imp_right fun ⟨hn, hc⟩ => ⟨hn, fun c hc' => h₂.1 (hc c hc')⟩
  · exact Or.inr hx

theorem SccState.visited_lower {c : INode} (h : s.lower v c = .ok s') : s'.visited = s.visited := by
  rw [SccState.lower] at h
  split_ifs at h
  · simp only [Except.bind_eq_ok_iff, Except.pure_eq_ok_iff] at h
    obtain ⟨lc, -, lv, -, rfl⟩ := h
    rfl
  · cases h
    rfl

theorem SccState.visited_close (h : s.close v = .ok s') : s'.visited = s.visited := by
  simp only [SccState.close, Except.bind_eq_ok_iff, Except.pure_eq_ok_iff] at h
  obtain ⟨k, -, l, -, rfl⟩ := h
  split_ifs <;> rfl

theorem followNode_explores (h : followNode g depth v s = .ok s') :
    Explores g s s' ∧ v ∈ s'.visited := by
  induction depth generalizing v s s' with
  | zero => cases h
  | succ depth ih =>
    rw [followNode] at h
    split_ifs at h with hv
    · cases h
      exact ⟨.refl g s, hv⟩
    · simp only [Except.bind_eq_ok_iff] at h
      obtain ⟨cs, hcs, s₁, hloop, hclose⟩ := h
      obtain ⟨hnode, rfl⟩ := getDirectChildConnections_eq_ok_iff.1 hcs
      have hrun : ∀ (cs : List INode) (s₀ : SccState),
          cs.foldlM (fun s child => do (← followNode g depth child s).lower v child) s₀ = .ok s₁ →
            Explores g s₀ s₁ ∧ cs ⊆ s₁.visited := by
        intro cs
        induction cs with
        | nil =>
          intro s₀ hfold
          cases hfold
          exact ⟨.refl g s₁, List.nil_subset _⟩
        | cons c cs ihcs =>
          intro s₀ hfold
          rw [List.foldlM_cons, Except.bind_eq_ok_iff] at hfold
          obtain ⟨s₂, hstep, hfold⟩ := hfold
          obtain ⟨s₃, hfollow, hlower⟩ := Except.bind_eq_ok_iff.1 hstep
          obtain ⟨h₁, hc⟩ := ih hfollow
          obtain ⟨h₂, hcs⟩ := ihcs s₂ hfold
          have hvis := SccState.visited_lower hlower
          have h₃ : Explores g s₃ s₂ := by
            rw [Explores, hvis]
            exact Explores.refl g s₃
          exact ⟨h₁.trans (h₃.trans h₂), List.cons_subset.2 ⟨h₂.1 (hvis ▸ hc), hcs⟩⟩
      obtain ⟨hexp, hchildren⟩ := hrun _ _ hloop
      have hmem : v ∈ s₁.visited := hexp.1 (List.mem_append_right _ (List.mem_singleton_self _))
      rw [Explores, SccState.visited_close hclose]
      refine ⟨⟨fun x hx => hexp.1 (List.mem_append_left _ hx), fun x hx => ?_⟩, hmem⟩
      rcases hexp.2 x hx with hx | hx
      · rcases List.mem_append.1 hx with hx | hx
        · exact Or.inl hx
        · rw [List.mem_singleton.1 hx]
          exact Or.inr ⟨hnode, fun c hc => hchildren hc⟩
      · exact Or.inr hx

theorem SccState.lower_eq_error {c : INode} (h : s.lower v c = .error e) : e = .assertionError := by
  rw [SccState.lower] at h
  split_ifs at h
  rcases Except.bind_eq_error_iff.1 h with h | ⟨lc, -, h⟩
  · exact orAssertionError_eq_error h
  · rcases Except.bind_eq_error_iff.1 h with h | ⟨lv, -, h⟩
    · exact orAssertionError_eq_error h
    · cases h

theorem SccState.close_eq_error (h : s.close v = .error e) : e = .assertionError := by
  rcases Except.bind_eq_error_iff.1 h with h | ⟨k, -, h⟩
  · exact orAssertionError_eq_error h
  · rcases Except.bind_eq_error_iff.1 h with h | ⟨l, -, h⟩
    · exact orAssertionError_eq_error h
    · cases h

/-- The bound on the depth is never exceeded. -/
theorem followNode_eq_error (h : followNode g depth v s = .error e)
    (hdepth : unvisited g s.visited < depth) : e = .assertionError := by
  induction depth generalizing v s with
  | zero => exact absurd hdepth (Nat.not_lt_zero _)
  | succ depth ih =>
    rw [followNode] at h
    split_ifs at h with hv
    rcases Except.bind_eq_error_iff.1 h with h | ⟨cs, hcs, h⟩
    · rw [getDirectChildConnections] at h
      split_ifs at h
      cases h
      rfl
    have hnode := (getDirectChildConnections_eq_ok_iff.1 hcs).1
    have hrun : ∀ (cs : List INode) (s₀ : SccState), unvisited g s₀.visited < depth →
        cs.foldlM (fun s child => do (← followNode g depth child s).lower v child) s₀ = .error e →
          e = .assertionError := by
      intro cs
      induction cs with
      | nil => exact fun s₀ _ hfold => by cases hfold
      | cons c cs ihcs =>
        intro s₀ hlt hfold
        rw [List.foldlM_cons] at hfold
        rcases Except.bind_eq_error_iff.1 hfold with hstep | ⟨s₂, hstep, hfold⟩
        · rcases Except.bind_eq_error_iff.1 hstep with hstep | ⟨s₁, -, hstep⟩
          · exact ih hstep hlt
          · exact SccState.lower_eq_error hstep
        · obtain ⟨s₁, hfollow, hlower⟩ := Except.bind_eq_ok_iff.1 hstep
          refine ihcs s₂ ?_ hfold
          rw [SccState.visited_lower hlower]
          exact (unvisited_le (followNode_explores hfollow).1.1).trans_lt hlt
    rcases Except.bind_eq_error_iff.1 h with h | ⟨s₁, -, h⟩
    · exact hrun _ _ (Nat.lt_of_lt_of_le (unvisited_append_lt hnode hv) (Nat.lt_succ_iff.1 hdepth)) h
    · exact SccState.close_eq_error h

theorem foldlM_followNode_explores {nodes : List INode}
    (h : nodes.foldlM (fun s node => followNode g depth node s) s = .ok s') :
    Explores g s s' ∧ nodes ⊆ s'.visited := by
  induction nodes generalizing s with
  | nil =>
    cases h
    exact ⟨.refl g s', List.nil_subset _⟩
  | cons v nodes ih =>
    rw [List.foldlM_cons, Except.bind_eq_ok_iff] at h
    obtain ⟨s₁, hs₁, h⟩ := h
    obtain ⟨h₁, hv⟩ := followNode_explores hs₁
    obtain ⟨h₂, hnodes⟩ := ih h
    exact ⟨h₁.trans h₂, List.cons_subset.2 ⟨h₂.1 hv, hnodes⟩⟩

theorem foldlM_followNode_eq_error {nodes : List INode} (hdepth : g.getNodes.length < depth)
    (h : nodes.foldlM (fun s node => followNode g depth node s) s = .error e) :
    e = .assertionError := by
  induction nodes generalizing s with
  | nil => cases h
  | cons v nodes ih =>
    rw [List.foldlM_cons] at h
    rcases Except.bind_eq_error_iff.1 h with h | ⟨s₁, -, h⟩
    · exact followNode_eq_error h ((List.length_filter_le _ _).trans_lt hdepth)
    · exact ih h

/-- A connection to a replaced node fails an assertion. -/
theorem getStronglyConnectedComponents_of_not_settled (hset : ¬g.Settled) :
    g.getStronglyConnectedComponents = .error .assertionError := by
  cases h : g.getStronglyConnectedComponents with
  | error e =>
    rcases Except.bind_eq_error_iff.1 h with h | ⟨s, -, h⟩
    · rw [foldlM_followNode_eq_error (Nat.lt_succ_self _) h]
    · cases h
  | ok sets =>
    obtain ⟨s, hs, -⟩ := Except.bind_eq_ok_iff.1 h
    obtain ⟨hexp, hvisited⟩ := foldlM_followNode_explores hs
    have hclosed :
    ∀ x ∈ s.visited, x ∈ g.getNodes ∧ ∀ c ∈ g.children x, c ∈ s.visited := fun x hx =>
      (hexp.2 x hx).resolve_left List.not_mem_nil
    exact absurd (fun v hv c hc => (hclosed c ((hclosed v (hvisited hv)).2 c hc)).1) hset

/-- **The components are the strongly connected ones exactly when no connection leads to a replaced
node and every node has a walk against the order of completion to the first node visited among
those mutually reachable with it.** -/
theorem getStronglyConnectedComponents_isComponents_iff (g : DirectedGraph) :
    (∃ sets, g.getStronglyConnectedComponents = .ok sets ∧ g.IsComponents sets) ↔
      g.Settled ∧ g.InReverseOrder := by
  by_cases hset : g.Settled
  · obtain ⟨sets, hsets, hiff⟩ := getStronglyConnectedComponents_of_settled hset
    constructor
    · rintro ⟨sets', hsets', hcomp⟩
      cases hsets.symm.trans hsets'
      exact ⟨hset, hiff.1 hcomp⟩
    · exact fun h => ⟨sets, hsets, hiff.2 h.2⟩
  · refine iff_of_false ?_ fun h => hset h.1
    rintro ⟨sets, hsets, -⟩
    rw [getStronglyConnectedComponents_of_not_settled hset] at hsets
    cases hsets

/-- Four nodes. -/
def ringNodes : List INode := [{ name := "1" }, { name := "2" }, { name := "3" }, { name := "4" }]

/-- A connection between two of them. -/
def ringConnection (a b : String) : GraphConnection := ⟨{ name := a }, { name := b }, .main, 0, 0⟩

/-- Two overlapping rings: every node reaches every other one, but only node `4` is returned. -/
theorem ringGraph_components : ∃ g, (DirectedGraph.empty.addNodes ringNodes).addConnections
        [ringConnection "1" "2", ringConnection "2" "3", ringConnection "3" "2",
          ringConnection "2" "4", ringConnection "4" "1"] = .ok g ∧
      g.getStronglyConnectedComponents = .ok [[{ name := "4" }]] ∧
      ¬g.IsComponents [[{ name := "4" }]] := by
  refine ⟨_, rfl, by decide, fun h => ?_⟩
  obtain ⟨c, hc, hn⟩ := (h.cover { name := "1" }).2 (by decide)
  rw [List.mem_singleton.1 hc] at hn
  exact absurd hn (by decide)

end N8n
