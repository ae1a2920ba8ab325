import N8n.Graph.StronglyConnected
import N8n.Lib.Cut

/-!
# The invariants of `followNode`

What holds of the variables that `followNode` shares while the nodes of a path are being visited,
next to the record of a plain depth-first search of the same graph.

* `Simulates`: holds throughout;
* `Good`: so far every component was popped exactly when its first node was closed;
* `Stuck`: a node was left on the stack that will never be popped, and it has no walk to the first
  node of its component in the reverse order of completion.
-/

namespace N8n

open DirectedGraph

variable {g : DirectedGraph} {path : List (INode × List INode)} {pending : Option INode}
  {s s' : SccState} {t : Dfs.Trace INode}

/-- The variables agree with the record of the search. -/
structure Simulates (path : List (INode × List INode)) (s : SccState) (t : Dfs.Trace INode) :
    Prop where
  visited : s.visited = t.order
  id : s.id = t.order.length
  ids : ∀ v ∈ t.order, s.ids.get? v = some (t.idx v)
  low : ∀ v ∈ t.order, ∃ l, s.lowLinkValues.get? v = some l ∧ l ≤ t.idx v
  stack_mem : ∀ v ∈ s.stack, v ∈ t.order
  stack_desc : s.stack.Pairwise fun a b => t.idx b < t.idx a
  path_stack : ∀ f ∈ path, f.1 ∈ s.stack
  nodup : ∀ c ∈ s.stronglyConnectedComponents, c.Nodup
  popped : ∀ c ∈ s.stronglyConnectedComponents, ∀ v ∈ c, v ∈ t.order ∧ v ∉ s.stack
  disjoint : s.stronglyConnectedComponents.Pairwise List.Disjoint

/-- Every node that was popped was popped with its whole component. -/
structure Good (g : DirectedGraph) (path : List (INode × List INode)) (s : SccState)
    (t : Dfs.Trace INode) : Prop where
  covered : ∀ v ∈ t.order, v ∈ s.stack ∨ ∃ c ∈ s.stronglyConnectedComponents, v ∈ c
  exact : ∀ c ∈ s.stronglyConnectedComponents, ∀ v ∈ c, ∀ u, u ∈ c ↔ g.Mutual v u
  closed : ∀ c ∈ s.stronglyConnectedComponents, ∀ v ∈ c, ∀ x ∈ g.children v,
    ∃ c' ∈ s.stronglyConnectedComponents, x ∈ c'
  root : ∀ v ∈ s.stack, ∃ f ∈ path, t.idx f.1 ≤ t.idx v ∧ g.Reaches v f.1
  sound : ∀ v ∈ s.stack, ∃ u ∈ t.order, s.lowLinkValues.get? v = some (t.idx u) ∧ g.Mutual v u ∧
    Dfs.ReverseWalk t.completed v u
  low_le : ∀ v ∈ t.order, ∀ u, Dfs.ReverseWalk t.completed v u → g.Mutual v u → ∀ l,
    s.lowLinkValues.get? v = some l → l ≤ t.idx u
  reverse : ∀ c ∈ s.stronglyConnectedComponents, ∀ v ∈ c, ∀ r, g.First t v r →
    Dfs.ReverseWalk t.completed v r

/-- A node on the stack whose low id is not the id of any node that is still to be closed. -/
structure StuckAt (g : DirectedGraph) (path : List (INode × List INode)) (s : SccState)
    (t : Dfs.Trace INode) (w r : INode) (l : ℕ) : Prop where
  stack : w ∈ s.stack
  low : s.lowLinkValues.get? w = some l
  low_lt : l < t.order.length
  low_ne : ∀ f ∈ path, t.idx f.1 ≠ l
  first : g.First t w r
  closed : ∀ y, g.Mutual w y → y ∈ t.order ∧ ∀ f ∈ path, f.1 ≠ y
  no_walk : ¬Dfs.ReverseWalk t.completed w r

/-- Some node is stuck on the stack. -/
def Stuck (g : DirectedGraph) (path : List (INode × List INode)) (s : SccState)
    (t : Dfs.Trace INode) : Prop :=
  ∃ w r l, StuckAt g path s t w r l

/-! ### Reachability -/

theorem DirectedGraph.Mutual.refl (g : DirectedGraph) (a : INode) : g.Mutual a a :=
  ⟨Relation.ReflTransGen.refl, Relation.ReflTransGen.refl⟩

theorem DirectedGraph.Mutual.symm {a b : INode} (h : g.Mutual a b) : g.Mutual b a := ⟨h.2, h.1⟩

theorem DirectedGraph.Mutual.trans {a b c : INode} (h : g.Mutual a b) (h' : g.Mutual b c) :
    g.Mutual a c :=
  ⟨Relation.ReflTransGen.trans h.1 h'.1, Relation.ReflTransGen.trans h'.2 h.2⟩

/-- What is reached from a popped node was popped. -/
theorem Good.closed_reaches (h : Good g path s t) {a b : INode} (hab : g.Reaches a b)
    (ha : ∃ c ∈ s.stronglyConnectedComponents, a ∈ c) :
    ∃ c ∈ s.stronglyConnectedComponents, b ∈ c := by
  induction hab with
  | refl => exact ha
  | tail _ hbc ih =>
    obtain ⟨c, hc, hb⟩ := ih
    exact h.closed c hc _ hb _ hbc

/-! ### A node is entered -/

theorem Simulates.enter (h : Simulates path s t) {v : INode} (hv : v ∉ t.order)
    (rest : List INode) : Simulates ((v, rest) :: path) (s.enter v) (t.enter v) := by
  have hidx : ∀ x ∈ t.order, (t.enter v).idx x = t.idx x := fun x hx =>
    Dfs.Trace.idx_enter_of_mem hx
  have hidxv : (t.enter v).idx v = t.order.length := Dfs.Trace.idx_enter_self hv
  have hmem : ∀ x, x ∈ (t.enter v).order ↔ x ∈ t.order ∨ x = v := fun x => by
    simp [Dfs.Trace.enter]
  have hne : ∀ x ∈ t.order, x ≠ v := fun x hx hxv => hv (hxv ▸ hx)
  refine ⟨?_, ?_, fun x hx => ?_, fun x hx => ?_, fun x hx => ?_, ?_, fun f hf => ?_, h.nodup,
    fun c hc x hx => ?_, h.disjoint⟩
  · rw [SccState.enter, Dfs.Trace.enter, h.visited]
  · simp [SccState.enter, Dfs.Trace.enter, h.id]
  · rcases (hmem x).1 hx with hx | rfl
    · rw [SccState.enter, Dict.get?_set_ne _ _ (hne x hx), h.ids x hx, hidx x hx]
    · rw [SccState.enter, Dict.get?_set_self, hidxv, h.id]
  · rcases (hmem x).1 hx with hx | rfl
    · rw [SccState.enter, Dict.get?_set_ne _ _ (hne x hx), hidx x hx]
      exact h.low x hx
    · exact ⟨s.id, Dict.get?_set_self _ _ _, by rw [hidxv, h.id]⟩
  · rcases List.mem_cons.1 hx with rfl | hx
    · exact (hmem x).2 (Or.inr rfl)
    · exact (hmem x).2 (Or.inl (h.stack_mem x hx))
  · refine List.pairwise_cons.2 ⟨fun x hx => ?_, h.stack_desc.imp_of_mem fun hx hy hlt => ?_⟩
    · rw [hidxv, hidx x (h.stack_mem x hx)]
      exact Dfs.Trace.idx_lt (h.stack_mem x hx)
    · rwa [hidx _ (h.stack_mem _ hx), hidx _ (h.stack_mem _ hy)]
  · rcases List.mem_cons.1 hf with rfl | hf
    · exact List.mem_cons_self
    · exact List.mem_cons_of_mem _ (h.path_stack f hf)
  · obtain ⟨hx1, hx2⟩ := h.popped c hc x hx
    refine ⟨(hmem x).2 (Or.inl hx1), fun hx' => ?_⟩
    rcases List.mem_cons.1 hx' with rfl | hx'
    · exact hv hx1
    · exact hx2 hx'

theorem DirectedGraph.First.of_enter {v x r : INode}
    (hx : ∀ y, g.Mutual x y → y ∈ t.order) (h : g.First (t.enter v) x r) : g.First t x r := by
  refine ⟨h.1, fun y hy => ?_⟩
  have hle := h.2 y hy
  rwa [Dfs.Trace.idx_enter_of_mem (hx r h.1), Dfs.Trace.idx_enter_of_mem (hx y hy)] at hle

theorem DirectedGraph.First.enter {v x r : INode} (hx : ∀ y, g.Mutual x y → y ∈ t.order)
    (h : g.First t x r) : g.First (t.enter v) x r := by
  refine ⟨h.1, fun y hy => ?_⟩
  rw [Dfs.Trace.idx_enter_of_mem (hx r h.1), Dfs.Trace.idx_enter_of_mem (hx y hy)]
  exact h.2 y hy

theorem Good.enter (h : Good g path s t) (hi : Dfs.Inv g.children path none t)
    (hs : Simulates path s t) {v : INode} (hv : v ∉ t.order) (rest : List INode) :
    Good g ((v, rest) :: path) (s.enter v) (t.enter v) := by
  have hidx : ∀ x ∈ t.order, (t.enter v).idx x = t.idx x := fun x hx =>
    Dfs.Trace.idx_enter_of_mem hx
  have hidxv : (t.enter v).idx v = t.order.length := Dfs.Trace.idx_enter_self hv
  have hmem : ∀ x, x ∈ (t.enter v).order ↔ x ∈ t.order ∨ x = v := fun x => by
    simp [Dfs.Trace.enter]
  have hlow : ∀ x ∈ t.order, (s.enter v).lowLinkValues.get? x = s.lowLinkValues.get? x :=
    fun x hx => Dict.get?_set_ne _ _ fun hxv => hv (hxv ▸ hx)
  have hlowv : (s.enter v).lowLinkValues.get? v = some t.order.length := by
    rw [← hs.id]
    exact Dict.get?_set_self _ _ _
  refine ⟨fun x hx => ?_, h.exact, h.closed, fun x hx => ?_, fun x hx => ?_,
    fun x hx u hu hxu l hl => ?_, fun c hc x hx r hr => ?_⟩
  · rcases (hmem x).1 hx with hx | rfl
    · exact (h.covered x hx).imp_left (List.mem_cons_of_mem _)
    · exact Or.inl List.mem_cons_self
  · rcases List.mem_cons.1 hx with rfl | hx
    · exact ⟨_, List.mem_cons_self, le_rfl, .refl⟩
    · obtain ⟨f, hf, hle, hreach⟩ := h.root x hx
      refine ⟨f, List.mem_cons_of_mem _ hf, ?_, hreach⟩
      rwa [hidx _ (hi.path_mem f hf), hidx x (hs.stack_mem x hx)]
  · rcases List.mem_cons.1 hx with rfl | hx
    · exact ⟨x, (hmem x).2 (Or.inr rfl), by rw [hlowv, hidxv], .refl g x, .refl _ _⟩
    · obtain ⟨u, hu, hlu, hxu, hwalk⟩ := h.sound x hx
      refine ⟨u, (hmem u).2 (Or.inl hu), ?_, hxu, hwalk⟩
      rw [hlow x (hs.stack_mem x hx), hidx u hu, hlu]
  · rcases (hmem x).1 hx with hx' | rfl
    · have hu' : u ∈ t.order := by
        rcases hu.eq_or_mem_end with rfl | ⟨y, hy⟩
        · exact hx'
        · exact (hi.completed_sub _ hy).2.1
      rw [hlow x hx'] at hl
      rw [hidx u hu']
      exact h.low_le x hx' u hu hxu l hl
    · -- no connection of a new node is completed
      rcases hu.eq_or_mem with rfl | ⟨y, hy⟩
      · cases hlowv.symm.trans hl
        exact hidxv.ge
      · exact absurd (hi.completed_sub _ hy).1 hv
  · refine h.reverse c hc x hx r (hr.of_enter fun y hy => ?_)
    exact (hs.popped c hc y ((h.exact c hc x hx y).2 hy)).1

theorem Stuck.enter (h : Stuck g path s t) (hs : Simulates path s t)
    (hi : Dfs.Inv g.children path none t) {v : INode} (hv : v ∉ t.order) (rest : List INode) :
    Stuck g ((v, rest) :: path) (s.enter v) (t.enter v) := by
  obtain ⟨w, r, l, h⟩ := h
  have hw := hs.stack_mem w h.stack
  refine ⟨w, r, l, List.mem_cons_of_mem _ h.stack, ?_, ?_, fun f hf => ?_,
    h.first.enter fun y hy => (h.closed y hy).1, fun y hy => ⟨?_, fun f hf => ?_⟩, h.no_walk⟩
  · rw [← h.low]
    exact Dict.get?_set_ne _ _ fun hwv => hv (hwv ▸ hw)
  · exact h.low_lt.trans (by simp [Dfs.Trace.enter])
  · rcases List.mem_cons.1 hf with rfl | hf
    · rw [Dfs.Trace.idx_enter_self hv]
      exact h.low_lt.ne'
    · rw [Dfs.Trace.idx_enter_of_mem (hi.path_mem f hf)]
      exact h.low_ne f hf
  · exact List.mem_append_left _ (h.closed y hy).1
  · rcases List.mem_cons.1 hf with rfl | hf
    · rintro rfl
      exact hv (h.closed _ hy).1
    · exact (h.closed y hy).2 f hf

/-! ### A connection is completed -/

/-- The low id of `v` becomes `l`, the rest stays. -/
def SccState.setLow (s : SccState) (v : INode) (l : ℕ) : SccState :=
  { s with lowLinkValues := s.lowLinkValues.set v l }

theorem SccState.lower_of_not_mem {v c : INode} (hc : c ∉ s.stack) : s.lower v c = .ok s := by
  rw [SccState.lower, if_neg hc]

theorem SccState.lower_of_mem {v c : INode} {lv lc : ℕ} (hc : c ∈ s.stack)
    (hlv : s.lowLinkValues.get? v = some lv) (hlc : s.lowLinkValues.get? c = some lc) :
    s.lower v c = .ok (s.setLow v (min lc lv)) := by
  rw [SccState.lower, if_pos hc, hlv, hlc]
  rfl

section Complete

variable {v c : INode} {cs : List INode}

theorem Simulates.lower (h : Simulates ((v, c :: cs) :: path) s t) (hc : c ∈ t.order) :
    ∃ s', s.lower v c = .ok s' ∧ Simulates ((v, cs) :: path) s' (t.complete v c) := by
  have hv := h.stack_mem v (h.path_stack (v, c :: cs) List.mem_cons_self)
  have hpath : ∀ f ∈ (v, cs) :: path, f.1 ∈ s.stack := by
    intro f hf
    rcases List.mem_cons.1 hf with rfl | hf
    · exact h.path_stack (v, c :: cs) List.mem_cons_self
    · exact h.path_stack f (List.mem_cons_of_mem _ hf)
  by_cases hstack : c ∈ s.stack
  · obtain ⟨lv, hlv, hle⟩ := h.low v hv
    obtain ⟨lc, hlc, -⟩ := h.low c hc
    refine ⟨_, SccState.lower_of_mem hstack hlv hlc, h.visited, h.id, h.ids, fun x hx => ?_,
      h.stack_mem, h.stack_desc, hpath, h.nodup, h.popped, h.disjoint⟩
    simp only [SccState.setLow, Dict.get?_set]
    split_ifs with hxv
    · subst hxv
      exact ⟨_, rfl, (min_le_right _ _).trans hle⟩
    · exact h.low x hx
  · exact ⟨s, SccState.lower_of_not_mem hstack, h.visited, h.id, h.ids, h.low, h.stack_mem,
      h.stack_desc, hpath, h.nodup, h.popped, h.disjoint⟩

theorem Good.lower (h : Good g ((v, c :: cs) :: path) s t)
    (hi : Dfs.Inv g.children ((v, c :: cs) :: path) (some c) t)
    (hs : Simulates ((v, c :: cs) :: path) s t) (hc : c ∈ t.order) (heq : s.lower v c = .ok s') :
    Good g ((v, cs) :: path) s' (t.complete v c) := by
  have hvs : v ∈ s.stack := hs.path_stack (v, c :: cs) List.mem_cons_self
  have hv := hs.stack_mem v hvs
  have hvc : g.Reaches v c :=
    .single (hi.rest_sub (v, c :: cs) List.mem_cons_self c List.mem_cons_self)
  have hroot : ∀ x ∈ s.stack, ∃ f ∈ (v, cs) :: path, t.idx f.1 ≤ t.idx x ∧ g.Reaches x f.1 := by
    intro x hx
    obtain ⟨f, hf, hle, hreach⟩ := h.root x hx
    rcases List.mem_cons.1 hf with rfl | hf
    · exact ⟨(v, cs), List.mem_cons_self, hle, hreach⟩
    · exact ⟨f, List.mem_cons_of_mem _ hf, hle, hreach⟩
  -- a walk that starts with the new connection, inside the component of `v`
  have hback : ∀ u, Dfs.ReverseWalk t.completed c u → g.Mutual v u → g.Mutual c u :=
    fun u hu hvu => ⟨hu.reaches fun e he => (hi.completed_sub e he).2.2, hvu.2.trans hvc⟩
  have hreverse : ∀ c' ∈ s.stronglyConnectedComponents, ∀ x ∈ c', ∀ r,
      g.First (t.complete v c) x r → Dfs.ReverseWalk (t.complete v c).completed x r :=
    fun c' hc' x hx r hr => (h.reverse c' hc' x hx r hr).append _
  by_cases hstack : c ∈ s.stack
  · obtain ⟨lv, hlv, -⟩ := hs.low v hv
    obtain ⟨lc, hlc, -⟩ := hs.low c hc
    cases (SccState.lower_of_mem hstack hlv hlc).symm.trans heq
    -- the child is in the component of `v`
    have hmut : g.Mutual v c := by
      obtain ⟨f, hf, hle, hreach⟩ := h.root c hstack
      exact ⟨hvc, hreach.trans (hi.reach f hf v hv (hi.idx_le_head hf rfl))⟩
    have hlow : ∀ x, (s.setLow v (min lc lv)).lowLinkValues.get? x =
        if x = v then some (min lc lv) else s.lowLinkValues.get? x := fun x => Dict.get?_set _ _ _ _
    refine ⟨h.covered, h.exact, h.closed, hroot, fun x hx => ?_, fun x hx u hu hxu l hl => ?_,
      hreverse⟩
    · rw [hlow]
      split_ifs with hxv
      · subst hxv
        rcases min_choice lc lv with hmin | hmin
        · obtain ⟨u, hu, hlu, hcu, hwalk⟩ := h.sound c hstack
          refine ⟨u, hu, by rw [hmin, ← hlc, hlu]; rfl, hmut.trans hcu, ?_⟩
          exact Dfs.reverseWalk_concat_iff.2 (Or.inr ⟨rfl, hwalk⟩)
        · obtain ⟨u, hu, hlu, hcu, hwalk⟩ := h.sound x hx
          exact ⟨u, hu, by rw [hmin, ← hlv, hlu]; rfl, hcu, hwalk.append _⟩
      · obtain ⟨u, hu, hlu, hcu, hwalk⟩ := h.sound x hx
        exact ⟨u, hu, hlu, hcu, hwalk.append _⟩
    · rw [hlow] at hl
      rcases Dfs.reverseWalk_concat_iff.1 hu with hu' | ⟨rfl, hu'⟩
      · split_ifs at hl with hxv
        · cases hl
          subst hxv
          exact (min_le_right _ _).trans (h.low_le x hx u hu' hxu lv hlv)
        · exact h.low_le x hx u hu' hxu l hl
      · rw [if_pos rfl] at hl
        cases hl
        exact (min_le_left _ _).trans (h.low_le c hc u hu' (hback u hu' hxu) lc hlc)
  · cases (SccState.lower_of_not_mem hstack).symm.trans heq
    refine ⟨h.covered, h.exact, h.closed, hroot, fun x hx => ?_, fun x hx u hu hxu l hl => ?_,
      hreverse⟩
    · obtain ⟨u, hu, hlu, hcu, hwalk⟩ := h.sound x hx
      exact ⟨u, hu, hlu, hcu, hwalk.append _⟩
    · rcases Dfs.reverseWalk_concat_iff.1 hu with hu' | ⟨rfl, hu'⟩
      · exact h.low_le x hx u hu' hxu l hl
      · -- a popped child is in another component
        obtain ⟨c', hc', hcc'⟩ := (h.covered c hc).resolve_left hstack
        have hxc' := (h.exact c' hc' c hcc' x).2 ((hback u hu' hxu).trans hxu.symm)
        exact absurd hvs (hs.popped c' hc' x hxc').2

theorem Stuck.lower (h : Stuck g ((v, c :: cs) :: path) s t) (heq : s.lower v c = .ok s') :
    Stuck g ((v, cs) :: path) s' (t.complete v c) := by
  obtain ⟨w, r, l, h⟩ := h
  have hwv : w ≠ v := fun hwv =>
    (h.closed w (.refl g w)).2 (v, c :: cs) List.mem_cons_self hwv.symm
  have hframe : s'.stack = s.stack ∧ s'.lowLinkValues.get? w = s.lowLinkValues.get? w := by
    rw [SccState.lower] at heq
    split_ifs at heq
    · simp only [Except.bind_eq_ok_iff, Except.pure_eq_ok_iff] at heq
      obtain ⟨lc, -, lv, -, rfl⟩ := heq
      exact ⟨rfl, Dict.get?_set_ne _ _ hwv⟩
    · cases heq
      exact ⟨rfl, rfl⟩
  have hpath : ∀ P : INode → Prop, (∀ f ∈ (v, c :: cs) :: path, P f.1) →
      ∀ f ∈ (v, cs) :: path, P f.1 := by
    intro P hP f hf
    rcases List.mem_cons.1 hf with rfl | hf
    · exact hP (v, c :: cs) List.mem_cons_self
    · exact hP f (List.mem_cons_of_mem _ hf)
  refine ⟨w, r, l, hframe.1 ▸ h.stack, hframe.2 ▸ h.low, h.low_lt,
    hpath (t.idx · ≠ l) h.low_ne, h.first,
    fun y hy => ⟨(h.closed y hy).1, hpath (· ≠ y) (h.closed y hy).2⟩, fun hwalk => ?_⟩
  rcases Dfs.reverseWalk_concat_iff.1 hwalk with hwalk | ⟨hwv', -⟩
  · exact h.no_walk hwalk
  · exact hwv hwv'

end Complete

/-! ### A node is closed -/

section Close

variable {v : INode}

theorem SccState.takes_iff (s : SccState) (k : ℕ) (x : INode) :
    s.takes k x = true ↔ s.lowLinkValues.get? x = some k :=
  decide_eq_true_iff

theorem Simulates.stack_nodup (h : Simulates path s t) : s.stack.Nodup :=
  h.stack_desc.imp fun hlt heq => absurd (heq ▸ hlt) (lt_irrefl _)

variable {k l : ℕ} {c : List INode} {x : INode}

theorem SccState.mem_components_pop {s : SccState} (h : c ∈ (s.pop k).stronglyConnectedComponents) :
    c ∈ s.stronglyConnectedComponents ∨ c = s.stack.takeWhile (s.takes k) := by
  simp only [SccState.pop] at h
  split_ifs at h
  · exact Or.inl h
  · exact (List.mem_append.1 h).imp_right List.mem_singleton.1

theorem SccState.subset_components_pop {s : SccState}
    (h : c ∈ s.stronglyConnectedComponents) : c ∈ (s.pop k).stronglyConnectedComponents := by
  simp only [SccState.pop]
  split_ifs
  · exact h
  · exact List.mem_append_left _ h

theorem SccState.takeWhile_mem_components_pop {s : SccState}
    (h : x ∈ s.stack.takeWhile (s.takes k)) :
    s.stack.takeWhile (s.takes k) ∈ (s.pop k).stronglyConnectedComponents := by
  simp only [SccState.pop]
  rw [if_neg (List.ne_nil_of_mem h)]
  exact List.mem_append_right _ (List.mem_singleton_self _)

/-- The nodes of the path below `v` are not popped when `v` is closed. -/
theorem Simulates.not_takes (h : Simulates ((v, []) :: path) s t) (hx : x ∈ t.order)
    (hlt : t.idx x < t.idx v) : s.takes (t.idx v) x = false := by
  obtain ⟨l, hl, hle⟩ := h.low x hx
  refine decide_eq_false fun heq => ?_
  cases hl.symm.trans heq
  exact absurd hle (not_le.2 hlt)

theorem Simulates.pop (h : Simulates ((v, []) :: path) s t)
    (hi : Dfs.Inv g.children ((v, []) :: path) none t) : Simulates path (s.pop (t.idx v)) t := by
  have hsub : (s.stack.dropWhile (s.takes (t.idx v))).Sublist s.stack := List.dropWhile_sublist _
  have htake : (s.stack.takeWhile (s.takes (t.idx v))).Sublist s.stack := List.takeWhile_sublist _
  refine ⟨h.visited, h.id, h.ids, h.low, fun x hx => h.stack_mem x (hsub.subset hx),
    h.stack_desc.sublist hsub, fun f hf => ?_, fun c hc => ?_, fun c hc x hx => ?_, ?_⟩
  · have hfs := h.path_stack f (List.mem_cons_of_mem _ hf)
    exact List.mem_dropWhile_of_not hfs (h.not_takes (h.stack_mem _ hfs)
      ((List.pairwise_cons.1 hi.path_desc).1 f hf))
  · rcases SccState.mem_components_pop hc with hc | rfl
    · exact h.nodup c hc
    · exact h.stack_nodup.sublist htake
  · rcases SccState.mem_components_pop hc with hc | rfl
    · obtain ⟨h1, h2⟩ := h.popped c hc x hx
      exact ⟨h1, fun h3 => h2 (hsub.subset h3)⟩
    · exact ⟨h.stack_mem x (htake.subset hx),
        List.not_mem_dropWhile_of_mem_takeWhile h.stack_nodup hx⟩
  · simp only [SccState.pop]
    split_ifs
    · exact h.disjoint
    · refine List.pairwise_append.2 ⟨h.disjoint, List.pairwise_singleton _ _, ?_⟩
      intro c hc c' hc' x hx hx'
      rw [List.mem_singleton.1 hc'] at hx'
      exact (h.popped c hc x hx).2 (htake.subset hx')

theorem Simulates.tail {f : INode × List INode} (h : Simulates (f :: path) s t) :
    Simulates path s t where
  __ := h
  path_stack := fun f hf => h.path_stack f (List.mem_cons_of_mem _ hf)

theorem Simulates.close_eq (h : Simulates ((v, []) :: path) s t)
    (hl : s.lowLinkValues.get? v = some l) :
    s.close v = .ok (if t.idx v = l then s.pop (t.idx v) else s) := by
  rw [SccState.close, h.ids v (h.stack_mem v (h.path_stack (v, []) List.mem_cons_self)), hl]
  rfl

/-- A node that reaches a node below it on the path has a low id below its own. -/
theorem Good.low_lt (h : Good g ((v, []) :: path) s t)
    (hi : Dfs.Inv g.children ((v, []) :: path) none t) (hs : Simulates ((v, []) :: path) s t)
    (hreach : ∃ f ∈ path, g.Reaches v f.1) (hl : s.lowLinkValues.get? v = some l) :
    l < t.idx v := by
  obtain ⟨f, hf, hvf⟩ := hreach
  have hvs : v ∈ s.stack := hs.path_stack (v, []) List.mem_cons_self
  have hv := hs.stack_mem v hvs
  have hfs := hs.path_stack f (List.mem_cons_of_mem _ hf)
  have hfv : t.idx f.1 < t.idx v := (List.pairwise_cons.1 hi.path_desc).1 f hf
  -- the connection that leaves the nodes on the stack from `v` on
  obtain ⟨x, c, ⟨hxs, hvx⟩, hxc, hcout, hcf⟩ := hvf.exists_exit
    (P := fun x => x ∈ s.stack ∧ t.idx v ≤ t.idx x) ⟨hvs, le_rfl⟩ fun h => absurd h.2 (not_le.2 hfv)
  have hx := hs.stack_mem x hxs
  have hdone : (x, c) ∈ t.completed := by
    refine (hi.done x hx c hxc).resolve_right ?_
    rintro ⟨f', hf', rfl, hcf'⟩
    rcases List.mem_cons.1 hf' with rfl | hf'
    · exact List.not_mem_nil hcf'
    · exact absurd ((List.pairwise_cons.1 hi.path_desc).1 f' hf') (not_lt.2 hvx)
  have hc : c ∈ t.order := (hi.completed_sub _ hdone).2.1
  have hcs : c ∈ s.stack := by
    refine (h.covered c hc).resolve_right fun hpop => ?_
    obtain ⟨c', hc', hfc'⟩ := h.closed_reaches hcf hpop
    exact (hs.popped c' hc' f.1 hfc').2 hfs
  have hcv : t.idx c < t.idx v := not_le.1 fun hle => hcout ⟨hcs, hle⟩
  -- the walk from `v` to `c` in the reverse order of completion
  have hwalk : Dfs.ReverseWalk t.completed v c := by
    refine (hi.reverse x hx v ⟨List.mem_cons_self, hvx, fun q hq _ => ?_⟩ c
      (.of_mem hdone)).resolve_right ?_
    · obtain ⟨f', hf', rfl⟩ := List.mem_map.1 hq
      exact hi.idx_le_head hf' rfl
    · rintro ⟨_, hnone, _⟩
      cases hnone
  have hmut : g.Mutual v c := by
    refine ⟨hwalk.reaches fun e he => (hi.completed_sub e he).2.2, ?_⟩
    obtain ⟨q, hq, hle, hcq⟩ := h.root c hcs
    exact hcq.trans (hi.reach q hq v hv (hle.trans hcv.le))
  exact (h.low_le v hv c hwalk hmut l hl).trans_lt hcv

/-- A node on the stack below a closed node stays good when nothing is popped. -/
theorem Good.tail (h : Good g ((v, []) :: path) s t)
    (hi : Dfs.Inv g.children ((v, []) :: path) none t)
    (hreach : ∃ f ∈ path, g.Reaches v f.1) : Good g path s t where
  __ := h
  root := fun x hx => by
    obtain ⟨f, hf, hle, hxf⟩ := h.root x hx
    rcases List.mem_cons.1 hf with rfl | hf
    · obtain ⟨f', hf', hvf'⟩ := hreach
      have hlt := (List.pairwise_cons.1 hi.path_desc).1 f' hf'
      exact ⟨f', hf', hlt.le.trans hle, hxf.trans hvf'⟩
    · exact ⟨f, hf, hle, hxf⟩

/-- The nodes on the stack from a node on that reaches no node below it on the path are the
component of that node. -/
theorem Good.mutual_iff (h : Good g ((v, []) :: path) s t)
    (hi : Dfs.Inv g.children ((v, []) :: path) none t) (hs : Simulates ((v, []) :: path) s t)
    (hreach : ¬∃ f ∈ path, g.Reaches v f.1) (y : INode) :
    g.Mutual v y ↔ y ∈ s.stack ∧ t.idx v ≤ t.idx y := by
  have hvs : v ∈ s.stack := hs.path_stack (v, []) List.mem_cons_self
  have hv := hs.stack_mem v hvs
  constructor
  · intro hy
    -- a walk from `v` stays among the visited nodes
    have hvisited : y ∈ t.order := by
      by_contra hy'
      obtain ⟨x, c, ⟨hx, hvx⟩, hxc, hcout, -⟩ := hy.1.exists_exit
        (P := fun x => x ∈ t.order ∧ g.Reaches v x) ⟨hv, .refl⟩ fun h => hy' h.1
      rcases hi.done x hx c hxc with hdone | ⟨f, hf, rfl, hcf⟩
      · exact hcout ⟨(hi.completed_sub _ hdone).2.1, hvx.tail hxc⟩
      · rcases List.mem_cons.1 hf with rfl | hf
        · exact List.not_mem_nil hcf
        · exact hreach ⟨f, hf, hvx⟩
    have hys : y ∈ s.stack := by
      refine (h.covered y hvisited).resolve_right ?_
      rintro ⟨c, hc, hyc⟩
      exact (hs.popped c hc v ((h.exact c hc y hyc v).2 hy.symm)).2 hvs
    refine ⟨hys, ?_⟩
    obtain ⟨f, hf, hle, hyf⟩ := h.root y hys
    rcases List.mem_cons.1 hf with rfl | hf
    · exact hle
    · exact absurd ⟨f, hf, hy.1.trans hyf⟩ hreach
  · rintro ⟨hys, hle⟩
    refine ⟨hi.reach (v, []) List.mem_cons_self y (hs.stack_mem y hys) hle, ?_⟩
    obtain ⟨f, hf, -, hyf⟩ := h.root y hys
    rcases List.mem_cons.1 hf with rfl | hf
    · exact hyf
    · exact absurd ⟨f, hf, (hi.reach (v, []) List.mem_cons_self y (hs.stack_mem y hys) hle).trans
        hyf⟩ hreach

/-- The low id of such a node is its own id. -/
theorem Good.low_eq (h : Good g ((v, []) :: path) s t)
    (hi : Dfs.Inv g.children ((v, []) :: path) none t) (hs : Simulates ((v, []) :: path) s t)
    (hreach : ¬∃ f ∈ path, g.Reaches v f.1) : s.lowLinkValues.get? v = some (t.idx v) := by
  have hvs : v ∈ s.stack := hs.path_stack (v, []) List.mem_cons_self
  obtain ⟨u, hu, hlu, hvu, -⟩ := h.sound v hvs
  obtain ⟨l, hl, hle⟩ := hs.low v (hs.stack_mem v hvs)
  cases hl.symm.trans hlu
  rw [hlu, hle.antisymm ((h.mutual_iff hi hs hreach u).1 hvu).2]

/-- Its component is popped when every node of it has the same low id. -/
theorem Good.pop (h : Good g ((v, []) :: path) s t)
    (hi : Dfs.Inv g.children ((v, []) :: path) none t) (hs : Simulates ((v, []) :: path) s t)
    (hreach : ¬∃ f ∈ path, g.Reaches v f.1)
    (hall : ∀ x ∈ s.stack, t.idx v ≤ t.idx x → s.lowLinkValues.get? x = some (t.idx v)) :
    Good g path (s.pop (t.idx v)) t := by
  have hmut := h.mutual_iff hi hs hreach
  have htake : ∀ x, x ∈ s.stack.takeWhile (s.takes (t.idx v)) ↔ g.Mutual v x := by
    intro x
    rw [hmut x]
    refine List.mem_takeWhile_iff_of_pairwise (P := fun x => t.idx v ≤ t.idx x)
      (hs.stack_desc.imp fun hlt hle => hle.trans hlt.le) fun y hy => ?_
    constructor
    · intro htakes
      by_contra hlt
      rw [hs.not_takes (hs.stack_mem y hy) (not_le.1 hlt)] at htakes
      cases htakes
    · exact fun hle => (s.takes_iff _ y).2 (hall y hy hle)
  have hrest : ∀ x ∈ (s.pop (t.idx v)).stack, x ∈ s.stack ∧ t.idx x < t.idx v := by
    intro x hx
    have hxs := (List.dropWhile_sublist _).subset hx
    refine ⟨hxs, not_le.1 fun hle => ?_⟩
    exact List.not_mem_dropWhile_of_mem_takeWhile hs.stack_nodup ((htake x).2 ((hmut x).2 ⟨hxs, hle⟩))
      hx
  have hnew : ∀ x, g.Mutual v x → ∃ c ∈ (s.pop (t.idx v)).stronglyConnectedComponents, x ∈ c :=
    fun x hx => ⟨_, SccState.takeWhile_mem_components_pop ((htake x).2 hx), (htake x).2 hx⟩
  have hold : ∀ x, (∃ c ∈ s.stronglyConnectedComponents, x ∈ c) →
      ∃ c ∈ (s.pop (t.idx v)).stronglyConnectedComponents, x ∈ c :=
    fun x ⟨c, hc, hx⟩ => ⟨c, SccState.subset_components_pop hc, hx⟩
  have hcovered : ∀ x ∈ t.order, x ∈ (s.pop (t.idx v)).stack ∨
      ∃ c ∈ (s.pop (t.idx v)).stronglyConnectedComponents, x ∈ c := by
    intro x hx
    by_cases hvx : g.Mutual v x
    · exact Or.inr (hnew x hvx)
    · refine (h.covered x hx).imp (fun hxs => ?_) (hold x)
      have hdrop : x ∉ s.stack.takeWhile (s.takes (t.idx v)) := fun hx' => hvx ((htake x).1 hx')
      rw [← List.takeWhile_append_dropWhile (p := s.takes (t.idx v)) (l := s.stack)] at hxs
      exact (List.mem_append.1 hxs).resolve_left hdrop
  refine ⟨hcovered, fun c hc x hx u => ?_, fun c hc x hx y hxy => ?_, fun x hx => ?_,
    fun x hx => h.sound x (hrest x hx).1, h.low_le, fun c hc x hx r hr => ?_⟩
  · rcases SccState.mem_components_pop hc with hc | rfl
    · exact h.exact c hc x hx u
    · rw [htake u]
      have hvx := (htake x).1 hx
      exact ⟨fun hvu => hvx.symm.trans hvu, fun hxu => hvx.trans hxu⟩
  · rcases SccState.mem_components_pop hc with hc | rfl
    · exact hold y (h.closed c hc x hx y hxy)
    · -- a child of a popped node was visited, and it is not below `v` on the stack
      have hvx := (htake x).1 hx
      have hy : y ∈ t.order := by
        rcases hi.done x (hs.stack_mem x ((hmut x).1 hvx).1) y hxy with hdone | ⟨f, hf, rfl, hyf⟩
        · exact (hi.completed_sub _ hdone).2.1
        · rcases List.mem_cons.1 hf with rfl | hf
          · exact absurd hyf List.not_mem_nil
          · exact absurd ⟨f, hf, hvx.1⟩ hreach
      refine (hcovered y hy).resolve_left fun hys => ?_
      obtain ⟨hys, hlt⟩ := hrest y hys
      obtain ⟨f, hf, hle, hyf⟩ := h.root y hys
      rcases List.mem_cons.1 hf with rfl | hf
      · exact absurd hle (not_le.2 hlt)
      · exact hreach ⟨f, hf, (hvx.1.tail hxy).trans hyf⟩
  · obtain ⟨hxs, hlt⟩ := hrest x hx
    obtain ⟨f, hf, hle, hxf⟩ := h.root x hxs
    rcases List.mem_cons.1 hf with rfl | hf
    · exact absurd hle (not_le.2 hlt)
    · exact ⟨f, hf, hle, hxf⟩
  · rcases SccState.mem_components_pop hc with hc | rfl
    · exact h.reverse c hc x hx r hr
    · have hvx := (htake x).1 hx
      obtain ⟨hxs, hle⟩ := (hmut x).1 hvx
      obtain ⟨u, hu, hlu, -, hwalk⟩ := h.sound x hxs
      have huv : u = v := Dfs.Trace.idx_inj hu (Option.some_inj.1 (hlu.symm.trans (hall x hxs hle)))
      have hrv : r = v := by
        obtain ⟨hrs, hvr⟩ := (hmut r).1 (hvx.trans hr.1)
        exact Dfs.Trace.idx_inj (hs.stack_mem r hrs) ((hr.2 v hvx.symm).antisymm hvr)
      rw [hrv, ← huv]
      exact hwalk

/-- Otherwise a node of it is left on the stack for good. -/
theorem Good.stuck (h : Good g ((v, []) :: path) s t)
    (hi : Dfs.Inv g.children ((v, []) :: path) none t) (hs : Simulates ((v, []) :: path) s t)
    (hreach : ¬∃ f ∈ path, g.Reaches v f.1) (hx : x ∈ s.stack) (hle : t.idx v ≤ t.idx x)
    (hne : s.lowLinkValues.get? x ≠ some (t.idx v)) : Stuck g path (s.pop (t.idx v)) t := by
  have hmut := h.mutual_iff hi hs hreach
  have hvx : g.Mutual v x := (hmut x).2 ⟨hx, hle⟩
  obtain ⟨u, hu, hlu, hxu, -⟩ := h.sound x hx
  have hvu : t.idx v ≤ t.idx u := ((hmut u).1 (hvx.trans hxu)).2
  have hpath : ∀ y, t.idx v ≤ t.idx y → ∀ f ∈ path, t.idx f.1 ≠ t.idx y := fun y hy f hf =>
    (((List.pairwise_cons.1 hi.path_desc).1 f hf).trans_le hy).ne
  refine ⟨x, v, t.idx u, ?_, hlu, Dfs.Trace.idx_lt hu, hpath u hvu,
    ⟨hvx.symm, fun y hy => ((hmut y).1 (hvx.trans hy)).2⟩, fun y hy => ?_, fun hwalk => ?_⟩
  · exact List.mem_dropWhile_of_not hx (decide_eq_false hne)
  · obtain ⟨hys, hvy⟩ := (hmut y).1 (hvx.trans hy)
    exact ⟨hs.stack_mem y hys, fun f hf hfy => hpath y hvy f hf (congrArg t.idx hfy)⟩
  · have huv := h.low_le x (hs.stack_mem x hx) v hwalk hvx.symm _ hlu
    exact hne (hlu.trans (congrArg some (huv.antisymm hvu)))

theorem Stuck.tail {f : INode × List INode} (h : Stuck g (f :: path) s t) : Stuck g path s t := by
  obtain ⟨w, r, l, h⟩ := h
  exact ⟨w, r, l, h.stack, h.low, h.low_lt, fun f' hf' => h.low_ne f' (List.mem_cons_of_mem _ hf'),
    h.first, fun y hy => ⟨(h.closed y hy).1, fun f' hf' =>
      (h.closed y hy).2 f' (List.mem_cons_of_mem _ hf')⟩, h.no_walk⟩

theorem Stuck.pop (h : Stuck g ((v, []) :: path) s t) : Stuck g path (s.pop (t.idx v)) t := by
  obtain ⟨w, r, l, h⟩ := h
  refine ⟨w, r, l, ?_, h.low, h.low_lt, fun f hf => h.low_ne f (List.mem_cons_of_mem _ hf), h.first,
    fun y hy => ⟨(h.closed y hy).1, fun f hf => (h.closed y hy).2 f (List.mem_cons_of_mem _ hf)⟩,
    h.no_walk⟩
  refine List.mem_dropWhile_of_not h.stack (decide_eq_false fun heq => ?_)
  exact h.low_ne (v, []) List.mem_cons_self (Option.some_inj.1 (heq.symm.trans h.low))

/-- Closing a node. -/
theorem Simulates.close (hs : Simulates ((v, []) :: path) s t)
    (hi : Dfs.Inv g.children ((v, []) :: path) none t)
    (h : Good g ((v, []) :: path) s t ∨ Stuck g ((v, []) :: path) s t) :
    ∃ s', s.close v = .ok s' ∧ Simulates path s' t ∧ (Good g path s' t ∨ Stuck g path s' t) := by
  obtain ⟨l, hl, -⟩ := hs.low v (hs.stack_mem v (hs.path_stack (v, []) List.mem_cons_self))
  refine ⟨_, hs.close_eq hl, ?_, ?_⟩
  · split_ifs
    · exact hs.pop hi
    · exact hs.tail
  · rcases h with h | h
    · by_cases hreach : ∃ f ∈ path, g.Reaches v f.1
      · rw [if_neg (h.low_lt hi hs hreach hl).ne']
        exact Or.inl (h.tail hi hreach)
      · rw [if_pos (Option.some_inj.1 ((h.low_eq hi hs hreach).symm.trans hl))]
        by_cases hall : ∀ x ∈ s.stack, t.idx v ≤ t.idx x → s.lowLinkValues.get? x = some (t.idx v)
        · exact Or.inl (h.pop hi hs hreach hall)
        · simp only [not_forall] at hall
          obtain ⟨x, hx, hle, hne⟩ := hall
          exact Or.inr (h.stuck hi hs hreach hx hle hne)
    · split_ifs
      · exact Or.inr h.pop
      · exact Or.inr h.tail

end Close

end N8n
