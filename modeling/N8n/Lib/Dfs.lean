import Mathlib.Data.List.Infix
import Mathlib.Data.List.Nodup
import Mathlib.Logic.Relation

/-!
# Depth-first search

A depth-first search over a graph that is given by the list of children of each vertex.

* `Dfs.visit`: the search, which records the order in which it visits the vertices and the order in
  which it completes the edges;
* `Dfs.ReverseWalk`: walks whose edges were completed one before the other, the first edge last;
* `Dfs.Inv`: what holds of the record while the vertices of a path are being visited, with one lemma
  for each kind of step: `Dfs.Inv.enter`, `Dfs.Inv.skip`, `Dfs.Inv.complete`, `Dfs.Inv.finish`.
-/

universe u

namespace Dfs

variable {α : Type u}

/-- The record of a search: the vertices visited and the edges completed, both in order. -/
structure Trace (α : Type u) where
  order : List α := []
  completed : List (α × α) := []

namespace Trace

/-- The visit of `v` starts. -/
def enter (t : Trace α) (v : α) : Trace α := { t with order := t.order ++ [v] }

/-- The edge from `v` to `c` is completed: the visit of `c` is over. -/
def complete (t : Trace α) (v c : α) : Trace α := { t with completed := t.completed ++ [(v, c)] }

@[simp] theorem order_complete (t : Trace α) (v c : α) : (t.complete v c).order = t.order := rfl

@[simp] theorem completed_enter (t : Trace α) (v : α) : (t.enter v).completed = t.completed := rfl

end Trace

/-! ### Walks against the order of completion -/

/-- A walk whose edges were completed in the reverse of their order in the walk. -/
inductive ReverseWalk : List (α × α) → α → α → Prop
  | refl (l : List (α × α)) (v : α) : ReverseWalk l v v
  | step {pre post : List (α × α)} {v x u : α} (h : ReverseWalk pre x u) :
    ReverseWalk (pre ++ (v, x) :: post) v u

variable {l : List (α × α)} {v u x : α} {t : Trace α} {path : List (α × List α)}

theorem ReverseWalk.append (h : ReverseWalk l v u) (l' : List (α × α)) :
    ReverseWalk (l ++ l') v u := by
  cases h with
  | refl => exact .refl _ _
  | step h =>
    rw [List.append_assoc, List.cons_append]
    exact .step h

/-- The edge completed last can only be the first one of the walk. -/
theorem reverseWalk_concat_iff {a b : α} :
    ReverseWalk (l ++ [(a, b)]) v u ↔ ReverseWalk l v u ∨ v = a ∧ ReverseWalk l b u := by
  constructor
  · intro h
    generalize hl : l ++ [(a, b)] = l' at h
    cases h with
    | refl => exact Or.inl (.refl _ _)
    | @step pre post _ x _ h =>
      rcases List.eq_nil_or_concat post with rfl | ⟨post, e, rfl⟩
      · obtain ⟨rfl, heq⟩ := List.append_inj' hl rfl
        cases heq
        exact Or.inr ⟨rfl, h⟩
      · rw [List.concat_eq_append, ← List.cons_append, ← List.append_assoc] at hl
        obtain ⟨rfl, -⟩ := List.append_inj' hl rfl
        exact Or.inl (.step h)
  · rintro (h | ⟨rfl, h⟩)
    · exact h.append _
    · exact .step h

/-- A walk that is not empty starts with a completed edge. -/
theorem ReverseWalk.eq_or_mem (h : ReverseWalk l v u) : v = u ∨ ∃ x, (v, x) ∈ l := by
  cases h with
  | refl => exact Or.inl rfl
  | @step pre post _ x _ h => exact Or.inr ⟨x, by simp⟩

/-- A walk ends where it starts or at the end of a completed edge. -/
theorem ReverseWalk.eq_or_mem_end (h : ReverseWalk l v u) : v = u ∨ ∃ x, (x, u) ∈ l := by
  induction h with
  | refl => exact Or.inl rfl
  | @step pre post v x u h ih =>
    rcases ih with rfl | ⟨y, hy⟩
    · exact Or.inr ⟨v, by simp⟩
    · exact Or.inr ⟨y, List.mem_append_left _ hy⟩

/-- A completed edge is a walk. -/
theorem ReverseWalk.of_mem (h : (v, x) ∈ l) : ReverseWalk l v x := by
  obtain ⟨pre, post, rfl⟩ := List.append_of_mem h
  exact .step (.refl _ _)

variable (children : α → List α)

/-- There is a walk from one vertex to another. -/
def Reaches : α → α → Prop := Relation.ReflTransGen fun a b => b ∈ children a

variable {children}

theorem ReverseWalk.reaches (h : ReverseWalk l v u) (hl : ∀ e ∈ l, e.2 ∈ children e.1) :
    Reaches children v u := by
  induction h with
  | refl => exact .refl
  | @step pre post v x u h ih =>
    refine Relation.ReflTransGen.head (hl (v, x) (by simp)) (ih fun e he => hl e ?_)
    exact List.mem_append_left _ he

/-- A walk that leaves a set has an edge that leaves it. -/
theorem Reaches.exists_exit {P : α → Prop} {a b : α} (h : Reaches children a b) (ha : P a)
    (hb : ¬P b) : ∃ x y, P x ∧ y ∈ children x ∧ ¬P y ∧ Reaches children y b := by
  induction h using Relation.ReflTransGen.head_induction_on with
  | refl => exact absurd ha hb
  | @head x y hxy hyb ih =>
    by_cases hy : P y
    · exact ih hy
    · exact ⟨x, y, ha, hxy, hy, hyb⟩

/-! ### The search -/

variable [DecidableEq α] (children)

/-- Visit `v` and everything that is reached from it and was not visited before. -/
def visit : ℕ → α → Trace α → Trace α
  | 0, _, t => t
  | fuel + 1, v, t =>
    if v ∈ t.order then t
    else (children v).foldl (fun t c => (visit fuel c t).complete v c) (t.enter v)

/-- The search over all of the given vertices. -/
def search (vertices : List α) : Trace α :=
  vertices.foldl (fun t v => visit children (vertices.length + 1) v t) {}

variable {children}

omit [DecidableEq α] in
theorem order_prefix_foldl {f : Trace α → α → Trace α} (hf : ∀ t c, t.order <+: (f t c).order)
    (cs : List α) (t : Trace α) : t.order <+: (cs.foldl f t).order := by
  induction cs generalizing t with
  | nil => exact List.prefix_refl _
  | cons c cs ih => exact (hf t c).trans (ih (f t c))

theorem order_prefix_visit (fuel : ℕ) (v : α) (t : Trace α) :
    t.order <+: (visit children fuel v t).order := by
  induction fuel generalizing v t with
  | zero => exact List.prefix_refl _
  | succ fuel ih =>
    rw [visit]
    split_ifs
    · exact List.prefix_refl _
    · refine (List.prefix_append t.order [v]).trans (order_prefix_foldl ?_ _ (t.enter v))
      exact fun t c => ih c t

theorem mem_order_visit (fuel : ℕ) (v : α) (t : Trace α) :
    v ∈ (visit children (fuel + 1) v t).order := by
  rw [visit]
  split_ifs with h
  · exact h
  · refine (order_prefix_foldl (fun t c => ?_) _ (t.enter v)).subset ?_
    · exact order_prefix_visit fuel c t
    · simp [Trace.enter]

/-! ### The invariant -/

/-- The position of a vertex in the order of the visits. -/
def Trace.idx (t : Trace α) (v : α) : ℕ := t.order.idxOf v

theorem Trace.idx_enter_of_mem (hx : x ∈ t.order) : (t.enter v).idx x = t.idx x :=
  List.idxOf_append_of_mem hx

theorem Trace.idx_enter_self (hv : v ∉ t.order) : (t.enter v).idx v = t.order.length := by
  rw [Trace.idx, Trace.enter, List.idxOf_append_of_notMem hv, List.idxOf_cons_self, Nat.add_zero]

theorem Trace.idx_lt (hx : x ∈ t.order) : t.idx x < t.order.length :=
  List.idxOf_lt_length_of_mem hx

theorem Trace.idx_inj {y : α} (hx : x ∈ t.order) (h : t.idx x = t.idx y) : x = y :=
  (List.idxOf_inj hx).1 h

/-- `q` is the last of the vertices `qs` that were visited no later than `x`. -/
def Covers (t : Trace α) (qs : List α) (q x : α) : Prop :=
  q ∈ qs ∧ t.idx q ≤ t.idx x ∧ ∀ q' ∈ qs, t.idx q' ≤ t.idx x → t.idx q' ≤ t.idx q

variable (children)

/-- The state of a search while the vertices of a path are being visited, the last one first, each
with the children it still has to go through; `pending` is the child whose visit is just over. -/
structure Inv (path : List (α × List α)) (pending : Option α) (t : Trace α) : Prop where
  nodup : t.order.Nodup
  path_mem : ∀ f ∈ path, f.1 ∈ t.order
  path_desc : path.Pairwise fun f f' => t.idx f'.1 < t.idx f.1
  rest_sub : ∀ f ∈ path, ∀ c ∈ f.2, c ∈ children f.1
  completed_sub : ∀ e ∈ t.completed, e.1 ∈ t.order ∧ e.2 ∈ t.order ∧ e.2 ∈ children e.1
  done : ∀ x ∈ t.order, ∀ c ∈ children x, (x, c) ∈ t.completed ∨ ∃ f ∈ path, f.1 = x ∧ c ∈ f.2
  reach : ∀ f ∈ path, ∀ x ∈ t.order, t.idx f.1 ≤ t.idx x → Reaches children f.1 x
  reverse : ∀ x ∈ t.order, ∀ q, Covers t (path.map Prod.fst) q x → ∀ u,
    ReverseWalk t.completed x u → ReverseWalk t.completed q u ∨
      ∃ c, pending = some c ∧ (path.map Prod.fst).head? = some q ∧ ReverseWalk t.completed c u

variable {children}

theorem Inv.init : Inv children [] none {} where
  nodup := List.nodup_nil
  path_mem := fun _ h => absurd h List.not_mem_nil
  path_desc := .nil
  rest_sub := fun _ h => absurd h List.not_mem_nil
  completed_sub := fun _ h => absurd h List.not_mem_nil
  done := fun _ h => absurd h List.not_mem_nil
  reach := fun _ h => absurd h List.not_mem_nil
  reverse := fun _ h => absurd h List.not_mem_nil

theorem Inv.idx_le_head {pending : Option α} (h : Inv children path pending t) {f g : α × List α}
    (hf : f ∈ path) (hg : path.head? = some g) : t.idx f.1 ≤ t.idx g.1 := by
  cases path with
  | nil => exact absurd hf List.not_mem_nil
  | cons g' rest =>
    cases hg
    rcases List.mem_cons.1 hf with rfl | hf
    · exact le_rfl
    · exact ((List.pairwise_cons.1 h.path_desc).1 f hf).le

/-- A child that was visited before is passed over. -/
theorem Inv.skip (h : Inv children path none t) (v : α) : Inv children path (some v) t where
  __ := h
  reverse := fun x hx q hq u hu =>
    (h.reverse x hx q hq u hu).imp_right fun ⟨_, hc, _⟩ => by cases hc

/-- With an empty path nothing is pending. -/
theorem Inv.of_nil {pending : Option α} (h : Inv children [] pending t) :
    Inv children [] none t where
  __ := h
  reverse := fun _ _ _ hf => absurd hf.1 List.not_mem_nil

/-- The visit of a child of the last vertex of the path starts. -/
theorem Inv.enter {path : List (α × List α)} {t : Trace α} (h : Inv children path none t) {v : α}
    (hv : v ∉ t.order) (hhead : ∀ f ∈ path.head?, v ∈ f.2) :
    Inv children ((v, children v) :: path) none (t.enter v) := by
  have hidx : ∀ x ∈ t.order, (t.enter v).idx x = t.idx x := fun x hx => Trace.idx_enter_of_mem hx
  have hidxv : (t.enter v).idx v = t.order.length := Trace.idx_enter_self hv
  have hmem : ∀ x, x ∈ (t.enter v).order ↔ x ∈ t.order ∨ x = v := fun x => by
    simp [Trace.enter]
  have hpath : ∀ f ∈ path, (t.enter v).idx f.1 < (t.enter v).idx v := fun f hf => by
    rw [hidx _ (h.path_mem f hf), hidxv]
    exact Trace.idx_lt (h.path_mem f hf)
  refine ⟨?_, ?_, ?_, ?_, ?_, ?_, ?_, ?_⟩
  · rw [Trace.enter, ← List.concat_eq_append]
    exact h.nodup.concat hv
  · intro f hf
    rcases List.mem_cons.1 hf with rfl | hf
    · exact (hmem v).2 (Or.inr rfl)
    · exact (hmem _).2 (Or.inl (h.path_mem f hf))
  · refine List.pairwise_cons.2 ⟨hpath, h.path_desc.imp_of_mem fun hf hf' hlt => ?_⟩
    rwa [hidx _ (h.path_mem _ hf), hidx _ (h.path_mem _ hf')]
  · intro f hf c hc
    rcases List.mem_cons.1 hf with rfl | hf
    · exact hc
    · exact h.rest_sub f hf c hc
  · intro e he
    obtain ⟨h1, h2, h3⟩ := h.completed_sub e he
    exact ⟨(hmem _).2 (Or.inl h1), (hmem _).2 (Or.inl h2), h3⟩
  · intro x hx c hc
    rcases (hmem x).1 hx with hx | rfl
    · refine (h.done x hx c hc).imp_right fun ⟨f, hf, hfx⟩ => ?_
      exact ⟨f, List.mem_cons_of_mem _ hf, hfx⟩
    · exact Or.inr ⟨_, List.mem_cons_self, rfl, hc⟩
  · intro f hf x hx hle
    rcases List.mem_cons.1 hf with rfl | hf'
    · rcases (hmem x).1 hx with hx | rfl
      · rw [hidxv, hidx x hx] at hle
        exact absurd (Trace.idx_lt hx) (not_lt.2 hle)
      · exact .refl
    · rcases (hmem x).1 hx with hx | rfl
      · rw [hidx x hx, hidx _ (h.path_mem f hf')] at hle
        exact h.reach f hf' x hx hle
      · -- the last vertex of the path is reached from `f` and has the new one as a child
        cases hpath : path.head? with
        | none =>
          rw [List.head?_eq_none_iff] at hpath
          exact absurd hf' (by rw [hpath]; exact List.not_mem_nil)
        | some g =>
          have hg := List.mem_of_head? hpath
          refine (h.reach f hf' g.1 (h.path_mem g hg) (h.idx_le_head hf' hpath)).tail ?_
          exact h.rest_sub g hg _ (hhead g hpath)
  · intro x hx q hq u hu
    obtain ⟨hqmem, hqle, hqmax⟩ := hq
    rcases (hmem x).1 hx with hx' | rfl
    · have hqmem : q ∈ path.map Prod.fst := by
        rcases List.mem_cons.1 hqmem with hqv | hqmem
        · rw [hqv, hidxv, hidx x hx'] at hqle
          exact absurd (Trace.idx_lt hx') (not_lt.2 hqle)
        · exact hqmem
      have hqs : ∀ q' ∈ path.map Prod.fst, (t.enter v).idx q' = t.idx q' := fun q' hq' => by
        obtain ⟨f, hf, rfl⟩ := List.mem_map.1 hq'
        exact hidx _ (h.path_mem f hf)
      refine Or.inl ((h.reverse x hx' q ⟨hqmem, ?_, fun q' hq' hle => ?_⟩ u hu).resolve_right ?_)
      · rwa [hidx x hx', hqs q hqmem] at hqle
      · have := hqmax q' (List.mem_cons_of_mem _ hq')
        rw [hqs q' hq', hqs q hqmem, hidx x hx'] at this
        exact this hle
      · rintro ⟨c, hc, _⟩
        cases hc
    · rcases List.mem_cons.1 hqmem with rfl | hqmem
      · exact Or.inl hu
      · obtain ⟨f, hf, rfl⟩ := List.mem_map.1 hqmem
        have := hqmax x List.mem_cons_self le_rfl
        exact absurd (hpath f hf) (not_lt.2 this)

omit [DecidableEq α] in
theorem completed_complete (t : Trace α) (v c : α) :
    (t.complete v c).completed = t.completed ++ [(v, c)] := rfl

/-- The edge to a child whose visit is over is completed. -/
theorem Inv.complete {c : α} {cs : List α} (h : Inv children ((v, c :: cs) :: path) (some c) t)
    (hc : c ∈ t.order) : Inv children ((v, cs) :: path) none (t.complete v c) := by
  have hv : v ∈ t.order := h.path_mem (v, c :: cs) List.mem_cons_self
  have hframe : ∀ f ∈ (v, cs) :: path, ∃ f' ∈ (v, c :: cs) :: path, f'.1 = f.1 ∧ f.2 ⊆ f'.2 := by
    intro f hf
    rcases List.mem_cons.1 hf with rfl | hf
    · exact ⟨_, List.mem_cons_self, rfl, List.subset_cons_self _ _⟩
    · exact ⟨f, List.mem_cons_of_mem _ hf, rfl, List.Subset.refl _⟩
  refine ⟨h.nodup, ?_, ?_, ?_, ?_, ?_, ?_, ?_⟩
  · intro f hf
    obtain ⟨f', hf', heq, -⟩ := hframe f hf
    exact heq ▸ h.path_mem f' hf'
  · exact List.pairwise_cons.2 (List.pairwise_cons.1 h.path_desc)
  · intro f hf a ha
    obtain ⟨f', hf', heq, hsub⟩ := hframe f hf
    exact heq ▸ h.rest_sub f' hf' a (hsub ha)
  · intro e he
    rcases List.mem_append.1 he with he | he
    · exact h.completed_sub e he
    · rw [List.mem_singleton.1 he]
      exact ⟨hv, hc, h.rest_sub (v, c :: cs) List.mem_cons_self c List.mem_cons_self⟩
  · intro x hx a ha
    rcases h.done x hx a ha with hdone | ⟨f, hf, hfx, hfa⟩
    · exact Or.inl (List.mem_append_left _ hdone)
    · rcases List.mem_cons.1 hf with rfl | hf
      · cases hfx
        rcases List.mem_cons.1 hfa with rfl | hfa
        · exact Or.inl (List.mem_append_right _ (List.mem_singleton_self _))
        · exact Or.inr ⟨_, List.mem_cons_self, rfl, hfa⟩
      · exact Or.inr ⟨f, List.mem_cons_of_mem _ hf, hfx, hfa⟩
  · intro f hf x hx hle
    obtain ⟨f', hf', heq, -⟩ := hframe f hf
    rw [← heq] at hle ⊢
    exact h.reach f' hf' x hx hle
  · intro x hx q hq u hu
    rw [completed_complete] at hu ⊢
    rcases reverseWalk_concat_iff.1 hu with hu' | ⟨rfl, hu'⟩
    · rcases h.reverse x hx q hq u hu' with hwalk | ⟨c', hc', hhead, hwalk⟩
      · exact Or.inl (hwalk.append _)
      · cases hc'
        cases hhead
        exact Or.inl (.step hwalk)
    · -- the walk starts at the last vertex of the path
      have hle : t.idx x ≤ t.idx q := hq.2.2 x List.mem_cons_self le_rfl
      have hqx : x = q := Trace.idx_inj hx (hle.antisymm hq.2.1)
      exact Or.inl (hqx ▸ hu)

/-- The visit of the last vertex of the path is over. -/
theorem Inv.finish {path : List (α × List α)} {t : Trace α} {v : α}
    (h : Inv children ((v, []) :: path) none t) : Inv children path (some v) t := by
  refine ⟨h.nodup, fun f hf => h.path_mem f (List.mem_cons_of_mem _ hf),
    (List.pairwise_cons.1 h.path_desc).2, fun f hf => h.rest_sub f (List.mem_cons_of_mem _ hf),
    h.completed_sub, ?_, fun f hf => h.reach f (List.mem_cons_of_mem _ hf), ?_⟩
  · intro x hx c hc
    refine (h.done x hx c hc).imp_right fun ⟨f, hf, hfx, hfc⟩ => ?_
    rcases List.mem_cons.1 hf with rfl | hf
    · exact absurd hfc List.not_mem_nil
    · exact ⟨f, hf, hfx, hfc⟩
  · intro x hx q hq u hu
    have hv : v ∈ t.order := h.path_mem _ List.mem_cons_self
    by_cases hle : t.idx v ≤ t.idx x
    · -- `v` covered `x`, now the vertex before it on the path does
      have hcov : Covers t (((v, []) :: path).map Prod.fst) v x := by
        refine ⟨List.mem_cons_self, hle, fun q' hq' _ => ?_⟩
        obtain ⟨f, hf, rfl⟩ := List.mem_map.1 hq'
        exact h.idx_le_head hf rfl
      have hwalk := (h.reverse x hx v hcov u hu).resolve_right (by rintro ⟨_, hc, _⟩; cases hc)
      refine Or.inr ⟨v, rfl, ?_, hwalk⟩
      cases path with
      | nil => exact absurd hq.1 List.not_mem_nil
      | cons g rest =>
        have hg : g ∈ (v, []) :: g :: rest := List.mem_cons_of_mem _ List.mem_cons_self
        obtain ⟨f, hf, rfl⟩ := List.mem_map.1 hq.1
        have hlt : t.idx g.1 < t.idx v := (List.pairwise_cons.1 h.path_desc).1 g List.mem_cons_self
        have hgf : t.idx g.1 ≤ t.idx f.1 := hq.2.2 g.1 List.mem_cons_self (hlt.le.trans hle)
        have hfg : t.idx f.1 ≤ t.idx g.1 := by
          rcases List.mem_cons.1 hf with rfl | hf
          · exact le_rfl
          · exact ((List.pairwise_cons.1 (List.pairwise_cons.1 h.path_desc).2).1 f hf).le
        exact congrArg some (Trace.idx_inj (h.path_mem g hg) (hgf.antisymm hfg))
    · refine (h.reverse x hx q ⟨List.mem_cons_of_mem _ hq.1, hq.2.1, fun q' hq' hle' => ?_⟩ u
        hu).imp_right fun ⟨_, hc, _⟩ => by cases hc
      rcases List.mem_cons.1 hq' with rfl | hq'
      · exact absurd hle' hle
      · exact hq.2.2 q' hq' hle'

end Dfs
