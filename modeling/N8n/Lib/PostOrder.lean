import N8n.Lib.Dfs

/-!
# Collecting in post-order

A depth-first search that stores what it has completed: the children of a vertex are stored before
the vertex itself, unless their visit has not ended, which is the case for the vertices on the way to
it only.  Some vertices are visited but not stored, and a vertex that is stored again keeps its place.

* `PostOrder.collect`: the search, below the edges `β` out of a vertex `α`, into a store `τ`;
* `PostOrder.Ordered`: a child is stored before its parent, or reaches it;
* `PostOrder.Inv`, `PostOrder.collect_spec`: what the search keeps, from any state;
* `PostOrder.collectAll_spec`: searches from several vertices, each with nothing visited.
-/

universe u v w

namespace PostOrder

variable {α : Type u} {β : Type v} {τ : Type w} [DecidableEq α]

section Search

variable (children : α → List β) (name : β → α) (skip : α → Bool) (add : β → τ → τ)

/-- The ends of the edges out of a vertex. -/
def ends (a : α) : List α := (children a).map name

/-- Visit everything below the given edges that was not visited before. -/
def collect : ℕ → List β → List α × τ → List α × τ
  | 0, _, s => s
  | fuel + 1, edges, s =>
    edges.foldl (fun s b =>
      if name b ∈ s.1 then s
      else
        let s' := collect fuel (children (name b)) (name b :: s.1, s.2)
        if skip (name b) then s' else (s'.1, add b s'.2)) s

/-- Searches from several vertices into one store. -/
def collectAll (fuel : ℕ) (vertices : List α) (t : τ) : τ :=
  vertices.foldl (fun t a => (collect children name skip add fuel (children a) ([], t)).2) t

end Search

variable {children : α → List β} {name : β → α} {skip : α → Bool} {add : β → τ → τ}
  {keys : τ → List α}

/-- What storing keeps holds of the store at the end. -/
theorem collect_induction (P : τ → Prop) (hadd : ∀ b t, P t → P (add b t)) (fuel : ℕ) :
    ∀ (edges : List β) (s : List α × τ), P s.2 →
      P (collect children name skip add fuel edges s).2 := by
  induction fuel with
  | zero => exact fun _ _ h => h
  | succ fuel ih =>
    intro edges
    unfold collect
    induction edges with
    | nil => exact fun _ h => h
    | cons b edges ihedges =>
      intro s h
      refine ihedges _ ?_
      have hbelow := ih (children (name b)) (name b :: s.1, s.2) h
      dsimp only
      split_ifs
      · exact h
      · exact hbelow
      · exact hadd b _ hbelow

variable {fuel : ℕ} {a : α} {vertices visited : List α}

theorem collectAll_induction (P : τ → Prop) (hadd : ∀ b t, P t → P (add b t)) (vertices : List α)
    (t : τ) (h : P t) : P (collectAll children name skip add fuel vertices t) := by
  unfold collectAll
  induction vertices generalizing t with
  | nil => exact h
  | cons a vertices ih => exact ih _ (collect_induction P hadd fuel _ _ h)

/-- A child that is stored at all is stored before its parent, or reaches it. -/
def Ordered (children : α → List β) (name : β → α) (skip : α → Bool) (l : List α) : Prop :=
  ∀ pre a post, l = pre ++ a :: post → ∀ d ∈ ends children name a, skip d = false →
    d ∈ pre ∨ Dfs.Reaches (ends children name) d a

omit [DecidableEq α] in
theorem Ordered.concat {l : List α} (h : Ordered children name skip l)
    (ha : ∀ d ∈ ends children name a, skip d = false →
      d ∈ l ∨ Dfs.Reaches (ends children name) d a) : Ordered children name skip (l ++ [a]) := by
  intro pre x post heq
  rcases List.eq_nil_or_concat post with rfl | ⟨post, y, rfl⟩
  · obtain ⟨rfl, hx⟩ := List.append_inj' heq rfl
    cases hx
    exact ha
  · rw [List.concat_eq_append, ← List.cons_append, ← List.append_assoc] at heq
    obtain ⟨rfl, -⟩ := List.append_inj' heq rfl
    exact h pre x post rfl

/-- What is stored, of a vertex: nothing else is stored than what an edge leads to. -/
structure Inv (children : α → List β) (name : β → α) (skip : α → Bool) (keys : τ → List α)
    (vertices : List α) (underway : α → Prop) (s : List α × τ) : Prop where
  visited : ∀ d ∈ s.1, skip d = false → d ∈ keys s.2 ∨ underway d
  ordered : Ordered children name skip (keys s.2)
  stored : ∀ d ∈ keys s.2, skip d = false ∧ ∃ a ∈ vertices, d ∈ ends children name a

/-- The vertices that are left to be visited. -/
def unvisited (vertices visited : List α) : ℕ := vertices.countP fun a => a ∉ visited

theorem unvisited_le {visited' : List α} (h : visited ⊆ visited') :
    unvisited vertices visited' ≤ unvisited vertices visited := by
  refine List.countP_mono_left fun a _ ha => ?_
  rw [decide_eq_true_iff] at ha ⊢
  exact fun hmem => ha (h hmem)

theorem unvisited_cons_lt (ha : a ∈ vertices) (hvisited : a ∉ visited) : unvisited vertices
    (a :: visited) < unvisited vertices visited := by
  unfold unvisited
  induction vertices with
  | nil => cases ha
  | cons x vertices ih =>
    have hle : unvisited vertices (a :: visited) ≤ unvisited vertices visited :=
      unvisited_le fun y hy => List.mem_cons_of_mem _ hy
    unfold unvisited at hle
    rw [List.countP_cons, List.countP_cons]
    by_cases hx : x = a
    · subst hx
      rw [decide_eq_false (by simp), decide_eq_true hvisited, if_neg Bool.false_ne_true, if_pos rfl]
      omega
    · have hmem : a ∈ vertices := (List.mem_cons.1 ha).resolve_left fun h => hx h.symm
      have hsame : decide (x ∉ a :: visited) = decide (x ∉ visited) := by simp [hx]
      rw [hsame]
      exact Nat.add_lt_add_right (ih hmem) _

/-- **The search**: it keeps the invariant, visits the ends of all edges, and forgets no visit. -/
theorem collect_spec (hadd : ∀ b t, skip (name b) = false →
      keys (add b t) = if name b ∈ keys t then keys t else keys t ++ [name b])
    (hclosed : ∀ a ∈ vertices, ∀ d ∈ ends children name a, d ∈ vertices) (fuel : ℕ) :
    ∀ (edges : List β) (s : List α × τ) (x : α) (underway : α → Prop), x ∈ vertices →
      (∀ b ∈ edges, b ∈ children x) → (∀ p, underway p → Dfs.Reaches (ends children name) p x) →
      unvisited vertices s.1 < fuel → Inv children name skip keys vertices underway s →
      Inv children name skip keys vertices underway (collect children name skip add fuel edges s) ∧
        (∀ b ∈ edges, name b ∈ (collect children name skip add fuel edges s).1) ∧
        s.1 ⊆ (collect children name skip add fuel edges s).1 ∧
        keys s.2 ⊆ keys (collect children name skip add fuel edges s).2 := by
  induction fuel with
  | zero => exact fun _ _ _ _ _ _ _ h => absurd h (Nat.not_lt_zero _)
  | succ fuel ih =>
    intro edges
    induction edges with
    | nil => exact fun s _ _ _ _ _ _ hinv => ⟨hinv, (fun _ h => by cases h),
      List.Subset.refl _, List.Subset.refl _⟩
    | cons b edges ihedges =>
      intro s x underway hx hedges hunderway hfuel hinv
      have hb : name b ∈ ends children name x := List.mem_map_of_mem (hedges b (by simp))
      have hrest := fun c hc => hedges c (List.mem_cons_of_mem b hc)
      unfold collect at ihedges ⊢
      rw [List.foldl_cons]
      by_cases hvisited : name b ∈ s.1
      · rw [if_pos hvisited]
        obtain ⟨hinv', hall, hsub, hkeep⟩ := ihedges s x underway hx hrest hunderway hfuel hinv
        refine ⟨hinv', fun c hc => ?_, hsub, hkeep⟩
        rcases List.mem_cons.1 hc with rfl | hc
        · exact hsub hvisited
        · exact hall c hc
      · rw [if_neg hvisited]
        have hreach : Dfs.Reaches (ends children name) x (name b) := Relation.ReflTransGen.single hb
        -- below the edge, its end is underway as well
        have hbelow := ih (children (name b)) (name b :: s.1, s.2) (name b)
          (fun d => underway d ∨ d = name b) (hclosed x hx _ hb) (fun _ h => h)
          (by
            rintro p (hp | rfl)
            · exact (hunderway p hp).trans hreach
            · exact .refl)
          ((Nat.lt_succ_iff.1 hfuel).trans_lt' (unvisited_cons_lt (hclosed x hx _ hb) hvisited))
          ⟨fun d hd hskip => by
            rcases List.mem_cons.1 hd with rfl | hd
            · exact .inr (.inr rfl)
            · exact (hinv.visited d hd hskip).imp_right .inl, hinv.ordered, hinv.stored⟩
        generalize collect children name skip add fuel (children (name b)) (name b :: s.1, s.2) = s'
          at hbelow ⊢
        obtain ⟨hinv', hall, hsub, hkeep⟩ := hbelow
        have hmem : name b ∈ s'.1 := hsub (by simp)
        -- the end of the edge is stored now, unless it is skipped
        have hstored : Inv children name skip keys vertices underway
            (if skip (name b) then s' else (s'.1, add b s'.2)) := by
          cases hskip : skip (name b) with
          | true =>
            refine ⟨fun d hd hd' => (hinv'.visited d hd hd').imp_right fun h => ?_, hinv'.ordered,
              hinv'.stored⟩
            refine h.resolve_right fun heq => ?_
            rw [heq, hskip] at hd'
            cases hd'
          | false =>
            have hkeys : ∀ d, d ∈ keys (add b s'.2) ↔ d ∈ keys s'.2 ∨ d = name b := by
              intro d
              rw [hadd b _ hskip]
              split_ifs with hold
              · exact ⟨.inl, fun h => h.elim id fun heq => heq ▸ hold⟩
              · simp
            refine ⟨fun d hd hd' => ?_, ?_, fun d hd => ?_⟩
            · rcases hinv'.visited d hd hd' with h | h | h
              · exact .inl ((hkeys d).2 (.inl h))
              · exact .inr h
              · exact .inl ((hkeys d).2 (.inr h))
            · change Ordered children name skip (keys (add b s'.2))
              rw [hadd b _ hskip]
              split_ifs with hold
              · exact hinv'.ordered
              · refine hinv'.ordered.concat fun d hd hd' => ?_
                obtain ⟨c, hc, rfl⟩ := List.mem_map.1 hd
                refine (hinv'.visited _ (hall c hc) hd').imp_right fun h => ?_
                rcases h with h | h
                · exact (hunderway _ h).trans hreach
                · rw [h]
                  exact .refl
            · rcases (hkeys d).1 hd with h | rfl
              · exact hinv'.stored d h
              · exact ⟨hskip, x, hx, hb⟩
        have hadded : keys s'.2 ⊆ keys (if skip (name b) then s' else (s'.1, add b s'.2)).2 := by
          split_ifs with hskip
          · exact List.Subset.refl _
          · intro d hd
            change d ∈ keys (add b s'.2)
            rw [hadd b _ (Bool.not_eq_true _ ▸ hskip)]
            split_ifs
            · exact hd
            · exact List.mem_append_left _ hd
        have hfirst : (if skip (name b) then s' else (s'.1, add b s'.2)).1 = s'.1 := by
          split_ifs <;> rfl
        have hgrow : s.1 ⊆ s'.1 := fun d hd => hsub (List.mem_cons_of_mem _ hd)
        have hfuel' : unvisited vertices (if skip (name b) then s' else (s'.1, add b s'.2)).1 <
            fuel + 1 := by
          rw [hfirst]
          exact (unvisited_le hgrow).trans_lt hfuel
        obtain ⟨hinv'', hall', hsub', hkeep'⟩ :=
          ihedges _ x underway hx hrest hunderway hfuel' hstored
        rw [hfirst] at hsub'
        refine ⟨hinv'', fun c hc => ?_, fun d hd => hsub' (hgrow hd),
          fun d hd => hkeep' (hadded (hkeep hd))⟩
        rcases List.mem_cons.1 hc with rfl | hc
        · exact hsub' hmem
        · exact hall' c hc

/-- **All searches**: what is stored is in order, and it is what the edges of the vertices, and of
the vertices below them, lead to. -/
theorem collectAll_spec (hadd : ∀ b t, skip (name b) = false →
      keys (add b t) = if name b ∈ keys t then keys t else keys t ++ [name b])
    (hclosed : ∀ a ∈ vertices, ∀ d ∈ ends children name a, d ∈ vertices)
    (hfuel : vertices.length < fuel) {t : τ} (ht : keys t = []) :
    Ordered children name skip (keys (collectAll children name skip add fuel vertices t)) ∧
      ∀ d, d ∈ keys (collectAll children name skip add fuel vertices t) ↔
        skip d = false ∧ ∃ a ∈ vertices, d ∈ ends children name a := by
  have hrun : ∀ l, l ⊆ vertices → ∀ t, Ordered children name skip (keys t) →
      (∀ d ∈ keys t, skip d = false ∧ ∃ a ∈ vertices, d ∈ ends children name a) →
      Ordered children name skip (keys (collectAll children name skip add fuel l t)) ∧
      (∀ d ∈ keys (collectAll children name skip add fuel l t),
        skip d = false ∧ ∃ a ∈ vertices, d ∈ ends children name a) ∧
      keys t ⊆ keys (collectAll children name skip add fuel l t) ∧
      ∀ a ∈ l, ∀ d ∈ ends children name a, skip d = false →
        d ∈ keys (collectAll children name skip add fuel l t) := by
    intro l
    induction l with
    | nil =>
      exact fun _ t hordered hstored => ⟨hordered, hstored, List.Subset.refl _, fun _ h => by cases h⟩
    | cons a l ih =>
      intro hl t hordered hstored
      have ha : a ∈ vertices := hl (by simp)
      have hinv : Inv children name skip keys vertices (fun _ => False) ([], t) :=
        ⟨(fun _ h => by cases h), hordered, hstored⟩
      obtain ⟨hinv, hall, -, hkeep⟩ := collect_spec hadd hclosed fuel (children a) ([], t) a
        (fun _ => False) ha (fun _ h => h) (fun _ h => h.elim)
        ((List.countP_le_length).trans_lt hfuel) hinv
      obtain ⟨hordered', hstored', hkeep', hall'⟩ :=
        ih (fun x hx => hl (List.mem_cons_of_mem _ hx)) _ hinv.ordered hinv.stored
      refine ⟨hordered', hstored', fun d hd => hkeep' (hkeep hd), fun x hx d hd hskip => ?_⟩
      rcases List.mem_cons.1 hx with rfl | hx
      · obtain ⟨b, hb, rfl⟩ := List.mem_map.1 hd
        exact hkeep' ((hinv.visited _ (hall b hb) hskip).resolve_right id)
      · exact hall' x hx d hd hskip
  obtain ⟨hordered, hstored, -, hall⟩ := hrun vertices (List.Subset.refl _) t
    (by intro pre a post h; simp [ht] at h) (by simp [ht])
  exact ⟨hordered, fun d => ⟨hstored d, fun ⟨hskip, a, ha, hd⟩ => hall a ha d hd hskip⟩⟩

end PostOrder
