import N8n.Lib.Dfs
import N8n.Lib.Gather

/-!
# Finding a vertex by a depth-first search

A depth-first search that ends at the first vertex with a given property.

* `Dfs.find`: the search;
* `Dfs.find_visit`: it finds the first such vertex in the order of the full search;
* `Dfs.mem_order_of_reaches`: the full search visits what can be reached.
-/

universe u

namespace Dfs

variable {α : Type u} [DecidableEq α] (children : α → List α) (p : α → Bool)

/-- Visit `v` and what is reached from it, up to the first vertex that satisfies `p`; what the search
has seen is returned too. -/
def find : ℕ → α → List α → Option α × List α
  | 0, _, seen => (none, seen)
  | fuel + 1, v, seen =>
    if v ∈ seen then (none, seen)
    else if p v then (some v, seen ++ [v])
    else
      (children v).foldl (fun s c => if s.1.isSome then s else find fuel c s.2) (none, seen ++ [v])

variable {children p}

omit [DecidableEq α] in
theorem foldl_of_isSome (f : Option α × List α → α → Option α × List α) {s : Option α × List α}
    (hs : s.1.isSome) (cs : List α) :
    cs.foldl (fun s c => if s.1.isSome then s else f s c) s = s := by
  induction cs with
  | nil => rfl
  | cons c cs ih => rw [List.foldl_cons, if_pos hs, ih]

omit [DecidableEq α] in
theorem find?_mono {l l' : List α} (h : l <+: l') {a : α} (ha : l.find? p = some a) :
    l'.find? p = some a := by
  obtain ⟨r, rfl⟩ := h
  rw [List.find?_append, ha]
  rfl

/-- **The search finds the first vertex with the property in the order of the full search**; when
there is none, it has seen what the full search visits. -/
theorem find_visit (children : α → List α) (p : α → Bool) (fuel : ℕ) (v : α) (t : Trace α) (ht : t.order.find? p = none) :
    (find children p fuel v t.order).1 = (visit children fuel v t).order.find? p ∧
      ((find children p fuel v t.order).1 = none →
        (find children p fuel v t.order).2 = (visit children fuel v t).order) := by
  induction fuel generalizing v t with
  | zero => exact ⟨ht.symm, fun _ => rfl⟩
  | succ fuel ih =>
    rw [find, visit]
    split_ifs with hv hp
    · exact ⟨ht.symm, fun _ => rfl⟩
    · refine ⟨(find?_mono (order_prefix_foldl ?_ _ (t.enter v)) ?_).symm, fun h => by cases h⟩
      · exact fun t c => order_prefix_visit fuel c t
      · rw [Trace.enter, List.find?_append, ht]
        simp [hp]
    · -- the loop over the children, before anything is found
      have hloop : ∀ (cs : List α) (t : Trace α), t.order.find? p = none → ∀ s t',
          cs.foldl (fun s c => if s.1.isSome then s else find children p fuel c s.2)
            (none, t.order) = s →
          cs.foldl (fun t c => (visit children fuel c t).complete v c) t = t' →
          s.1 = t'.order.find? p ∧ (s.1 = none → s.2 = t'.order) := by
        intro cs
        induction cs with
        | nil =>
          rintro t ht _ _ rfl rfl
          exact ⟨ht.symm, fun _ => rfl⟩
        | cons c cs ihcs =>
          intro t ht s t' hs ht'
          obtain ⟨hfound, hseen⟩ := ih c t ht
          rw [List.foldl_cons] at hs ht'
          change cs.foldl _ (find children p fuel c t.order) = s at hs
          cases hfind : (find children p fuel c t.order).1 with
          | none =>
            have heq : find children p fuel c t.order =
                (none, ((visit children fuel c t).complete v c).order) :=
              Prod.ext hfind (hseen hfind)
            rw [heq] at hs
            exact ihcs ((visit children fuel c t).complete v c) (hfound.symm.trans hfind) s t' hs ht'
          | some a =>
            rw [foldl_of_isSome _ (by rw [hfind]; rfl)] at hs
            subst hs ht'
            rw [hfind]
            refine ⟨(find?_mono (order_prefix_foldl ?_ cs _) ?_).symm, fun h => by cases h⟩
            · exact fun t c => order_prefix_visit fuel c t
            · exact hfound.symm.trans hfind
      refine hloop (children v) (t.enter v) ?_ _ _ rfl rfl
      rw [Trace.enter, List.find?_append, ht]
      simp [hp]

theorem prefix_find (fuel : ℕ) (v : α) (seen : List α) :
    seen <+: (find children p fuel v seen).2 := by
  induction fuel generalizing v seen with
  | zero => exact List.prefix_refl _
  | succ fuel ih =>
    rw [find]
    split_ifs with hv hp
    · exact List.prefix_refl _
    · exact List.prefix_append _ _
    · have hloop : ∀ (cs : List α) (s : Option α × List α), s.2 <+:
          (cs.foldl (fun s c => if s.1.isSome then s else find children p fuel c s.2) s).2 := by
        intro cs
        induction cs with
        | nil => exact fun s => List.prefix_refl _
        | cons c cs ihcs =>
          intro s
          rw [List.foldl_cons]
          refine List.IsPrefix.trans ?_ (ihcs _)
          split_ifs
          · exact List.prefix_refl _
          · exact ih c s.2
      exact (List.prefix_append seen [v]).trans (hloop _ (none, seen ++ [v]))

/-! ### What the full search visits -/

variable {domain : List α}

/-- The children of what a visit adds are visited. -/
theorem subset_order_visit (hchildren : ∀ a ∈ domain, children a ⊆ domain) (fuel : ℕ) {v : α}
    (t : Trace α) (hv : v ∈ domain) (hfuel : Gather.missing domain t.order < fuel) :
    ∀ x ∈ (visit children fuel v t).order,
      x ∈ t.order ∨ children x ⊆ (visit children fuel v t).order := by
  induction fuel generalizing v t with
  | zero => exact absurd hfuel (Nat.not_lt_zero _)
  | succ fuel ih =>
    rw [visit]
    split_ifs with hmem
    · exact fun x hx => Or.inl hx
    · have hlt : Gather.missing domain (t.enter v).order < fuel :=
        Nat.lt_of_lt_of_le (Gather.missing_append_lt hv hmem) (Nat.lt_succ_iff.1 hfuel)
      have hloop : ∀ cs ⊆ domain, ∀ t : Trace α, Gather.missing domain t.order < fuel →
          let t' := cs.foldl (fun t c => (visit children fuel c t).complete v c) t
          cs ⊆ t'.order ∧ ∀ x ∈ t'.order, x ∈ t.order ∨ children x ⊆ t'.order := by
        intro cs
        induction cs with
        | nil => exact fun _ t _ => ⟨List.nil_subset _, fun x hx => Or.inl hx⟩
        | cons c cs ihcs =>
          intro hcs t hlt
          obtain ⟨hc, hcs⟩ := List.cons_subset.1 hcs
          have hsub : t.order ⊆ (visit children fuel c t).order :=
            (order_prefix_visit fuel c t).subset
          have hcv : c ∈ (visit children fuel c t).order := by
            cases fuel with
            | zero => exact absurd hlt (Nat.not_lt_zero _)
            | succ fuel => exact mem_order_visit fuel c t
          obtain ⟨hall, hclosed⟩ := ihcs hcs ((visit children fuel c t).complete v c)
            (Nat.lt_of_le_of_lt (Gather.missing_le hsub) hlt)
          have hsub' : (visit children fuel c t).order ⊆
              ((c :: cs).foldl (fun t c => (visit children fuel c t).complete v c) t).order :=
            (order_prefix_foldl (f := fun t c => (visit children fuel c t).complete v c)
              (fun t c => order_prefix_visit fuel c t) cs ((visit children fuel c t).complete v c)).subset
          refine ⟨List.cons_subset.2 ⟨hsub' hcv, hall⟩, fun x hx => ?_⟩
          rcases hclosed x hx with hx | hx
          · exact (ih t hc hlt x hx).imp_right fun h => List.Subset.trans h hsub'
          · exact Or.inr hx
      obtain ⟨hall, hclosed⟩ := hloop (children v) (hchildren v hv) (t.enter v) hlt
      intro x hx
      rcases hclosed x hx with hx | hx
      · rcases List.mem_append.1 hx with hx | hx
        · exact Or.inl hx
        · rw [List.mem_singleton.1 hx]
          exact Or.inr hall
      · exact Or.inr hx

/-- What can be reached from a vertex is visited by the search from it. -/
theorem mem_order_of_reaches (hchildren : ∀ a ∈ domain, children a ⊆ domain) {v x : α}
    (hv : v ∈ domain) (hx : Reaches children v x) :
    x ∈ (visit children (domain.length + 1) v {}).order := by
  induction hx with
  | refl => exact mem_order_visit _ v {}
  | tail _ hstep ih =>
    refine (subset_order_visit hchildren _ {} hv ?_ _ ih).resolve_left List.not_mem_nil hstep
    exact Gather.missing_lt_length_add_one domain []

/-- The first vertex with a property in the order of a search comes before the others. -/
theorem idx_le_of_find? {t : Trace α} {a : α} (h : t.order.find? p = some a) {x : α} (hx : p x) :
    t.idx a ≤ t.idx x := by
  obtain ⟨ha, as, bs, horder, has⟩ := List.find?_eq_some_iff_append.1 h
  have hbefore : ∀ y, p y → y ∉ as := by
    intro y hy hmem
    have := has y hmem
    simp [hy] at this
  rw [Trace.idx, Trace.idx, horder, List.idxOf_append_of_notMem (hbefore a ha),
    List.idxOf_append_of_notMem (hbefore x hx), List.idxOf_cons_self]
  omega

end Dfs
