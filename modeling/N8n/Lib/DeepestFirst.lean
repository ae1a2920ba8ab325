import N8n.Lib.Walks

/-!
# Listing the descendants, the deepest first

A search of a graph along all its simple paths.  What is found below a child is moved to the front of
the list, before the child.

* `moveToFront`: the elements of one list moved to the front of another;
* `descendants`: the search, with the elements of the path that leads to it;
* `mem_descendants_iff`: it finds what can be reached past the elements of the path;
* `descendants_eq`: with enough fuel for the elements that have children, more fuel changes nothing;
* `DeepFirst`: a list with all descendants of an element before the element;
* `Acyclic.nodup_descendants_iff`, `Acyclic.deepFirst_descendants`: the list in an acyclic graph.
-/

universe u

variable {α : Type u} [DecidableEq α]

/-! ### Moving to the front -/

/-- The elements of `add`, in their order, moved or added to the front. -/
def moveToFront (add l : List α) : List α := add.foldr (fun a l => a :: l.erase a) l

@[simp] theorem moveToFront_nil (l : List α) : moveToFront [] l = l := rfl

@[simp] theorem moveToFront_cons (a : α) (add l : List α) :
    moveToFront (a :: add) l = a :: (moveToFront add l).erase a := rfl

theorem mem_moveToFront {add l : List α} {b : α} : b ∈ moveToFront add l ↔ b ∈ add ∨ b ∈ l := by
  induction add with
  | nil => simp
  | cons a add ih =>
    rw [moveToFront_cons, List.mem_cons, List.mem_cons, or_assoc, ← ih]
    by_cases hb : b = a
    · exact iff_of_true (.inl hb) (.inl hb)
    · rw [List.mem_erase_of_ne hb]

/-- Moving removes no duplicates and makes none. -/
theorem nodup_moveToFront_iff {add l : List α} : (moveToFront add l).Nodup ↔ l.Nodup := by
  induction add with
  | nil => rfl
  | cons a add ih =>
    rw [moveToFront_cons, ← ih]
    by_cases ha : a ∈ moveToFront add l
    · exact (List.perm_cons_erase ha).symm.nodup_iff
    · rw [List.erase_of_not_mem ha, List.nodup_cons, and_iff_right ha]

/-! ### The search -/

section Search

variable (children : α → List α)

/-- What is found from `v` when `path` leads to it. -/
def descendants : ℕ → α → List α → List α
  | 0, _, _ => []
  | fuel + 1, v, path =>
    if v ∈ path then []
    else (children v).foldl (fun found child =>
      if child ∈ path ++ [v] then found
      else moveToFront (descendants fuel child (path ++ [v])) (child :: found)) []

/-- A step to a child outside of a set. -/
def StepsPast (past : Set α) (a b : α) : Prop := b ∈ children a ∧ b ∉ past

variable {children}

omit [DecidableEq α] in
theorem StepsPast.mono {past past' : Set α} {a b : α} (h : StepsPast children past' a b)
    (hle : past ⊆ past') : StepsPast children past a b :=
  ⟨h.1, fun hb => h.2 (hle hb)⟩

variable {v w : α} {path : List α} {parents : Finset α}

omit [DecidableEq α] in
/-- A walk need not return to where it starts. -/
theorem reflTransGen_stepsPast_iff {past : Set α} :
    Relation.ReflTransGen (StepsPast children past) v w ↔
      w = v ∨ Relation.TransGen (StepsPast children (insert v past)) v w := by
  constructor
  · intro h
    induction h with
    | refl => exact .inl rfl
    | @tail x w _ hstep ih =>
      by_cases hw : w = v
      · exact .inl hw
      · have hpast : StepsPast children (insert v past) x w :=
          ⟨hstep.1, fun h => h.elim hw hstep.2⟩
        rcases ih with rfl | ih
        · exact .inr (.single hpast)
        · exact .inr (ih.tail hpast)
  · rintro (rfl | h)
    · exact .refl
    · refine Relation.TransGen.to_reflTransGen (h.lift id fun _ _ hstep => ?_)
      exact StepsPast.mono hstep (Set.subset_insert v past)

/-- The elements of a path. -/
def onPath (path : List α) : Set α := {a | a ∈ path}

omit [DecidableEq α] in
@[simp] theorem onPath_nil : onPath ([] : List α) = ∅ := by
  simp [onPath]

omit [DecidableEq α] in
theorem onPath_append (path : List α) (v : α) : onPath (path ++ [v]) = insert v (onPath path) := by
  ext a
  simp [onPath, or_comm]

/-- What the loop over some of the children finds. -/
theorem mem_foldl_descendants {fuel : ℕ} {cs found : List α} :
    w ∈ cs.foldl (fun found child => if child ∈ path then found
      else moveToFront (descendants children fuel child path) (child :: found)) found ↔
    w ∈ found ∨ ∃ child ∈ cs, child ∉ path ∧
      (w = child ∨ w ∈ descendants children fuel child path) := by
  induction cs generalizing found with
  | nil => simp
  | cons c cs ih =>
    rw [List.foldl_cons, ih, List.exists_mem_cons_iff, ← or_assoc]
    refine or_congr_left ?_
    by_cases hc : c ∈ path
    · rw [if_pos hc]
      exact (or_iff_left fun h => h.1 hc).symm
    · rw [if_neg hc, mem_moveToFront, List.mem_cons, and_iff_right hc]
      tauto

/-- The elements with children that are not on the path bound the depth of the search. -/
structure EnoughFuel (children : α → List α) (parents : Finset α) (fuel : ℕ) (path : List α) :
    Prop where
  mem_parents : ∀ v, children v ≠ [] → v ∈ parents
  card_lt : (parents.filter (· ∉ path)).card < fuel

theorem EnoughFuel.of_child {fuel : ℕ} (h : EnoughFuel children parents (fuel + 1) path)
    (hv : v ∉ path) (hchild : children v ≠ []) :
    EnoughFuel children parents fuel (path ++ [v]) where
  mem_parents := h.mem_parents
  card_lt := by
    have hlt : (parents.filter (· ∉ path ++ [v])).card < (parents.filter (· ∉ path)).card := by
      refine Finset.card_lt_card (Finset.ssubset_iff_of_subset (fun w hw => ?_) |>.2 ⟨v, ?_, ?_⟩)
      · rw [Finset.mem_filter, List.mem_append, not_or] at hw
        exact Finset.mem_filter.2 ⟨hw.1, hw.2.1⟩
      · exact Finset.mem_filter.2 ⟨h.mem_parents v hchild, hv⟩
      · simp
    have hfuel := h.card_lt
    omega

/-- **What is found**: all that can be reached past the elements of the path. -/
theorem mem_descendants_iff {fuel : ℕ} (h : EnoughFuel children parents fuel path) (hv : v ∉ path) :
    w ∈ descendants children fuel v path ↔
      Relation.TransGen (StepsPast children (onPath (path ++ [v]))) v w := by
  induction fuel generalizing path v with
  | zero => exact absurd h.card_lt (Nat.not_lt_zero _)
  | succ fuel ih =>
    have hfirst : Relation.TransGen (StepsPast children (onPath (path ++ [v]))) v w ↔
        ∃ child ∈ children v, child ∉ path ++ [v] ∧
          Relation.ReflTransGen (StepsPast children (onPath (path ++ [v]))) child w := by
      rw [Relation.TransGen.head'_iff]
      exact exists_congr fun child => ⟨fun h => ⟨h.1.1, h.1.2, h.2⟩, fun h => ⟨⟨h.1, h.2.1⟩, h.2.2⟩⟩
    rw [descendants, if_neg hv, mem_foldl_descendants, hfirst, or_iff_right List.not_mem_nil]
    refine exists_congr fun child => and_congr_right fun hchild => and_congr_right fun hpath => ?_
    rw [reflTransGen_stepsPast_iff, ih (h.of_child hv (List.ne_nil_of_mem hchild)) hpath,
      ← onPath_append]

/-- **The search ends**: more fuel finds the same list. -/
theorem descendants_eq {fuel fuel' : ℕ} (h : EnoughFuel children parents fuel path)
    (h' : EnoughFuel children parents fuel' path) :
    descendants children fuel v path = descendants children fuel' v path := by
  induction fuel generalizing fuel' path v with
  | zero => exact absurd h.card_lt (Nat.not_lt_zero _)
  | succ fuel ih =>
    obtain _ | fuel' := fuel'
    · exact absurd h'.card_lt (Nat.not_lt_zero _)
    rw [descendants, descendants]
    split_ifs with hv
    · rfl
    refine List.foldl_ext _ _ _ fun found child hchild => ?_
    have hne := List.ne_nil_of_mem hchild
    rw [ih (h.of_child hv hne) (h'.of_child hv hne)]

/-- From the beginning all descendants are found, except where the search started. -/
theorem mem_descendants_nil_iff {fuel : ℕ} (h : EnoughFuel children parents fuel []) :
    w ∈ descendants children fuel v [] ↔
      Relation.TransGen (fun a b => b ∈ children a) v w ∧ w ≠ v := by
  have hstep : StepsPast children (onPath []) = fun a b => b ∈ children a := by
    funext a b
    simp [StepsPast]
  have hall : Relation.ReflTransGen (StepsPast children (onPath [])) v w ↔
      w = v ∨ Relation.TransGen (StepsPast children (onPath ([] ++ [v]))) v w := by
    rw [onPath_append]
    exact reflTransGen_stepsPast_iff
  rw [hstep, Relation.reflTransGen_iff_eq_or_transGen] at hall
  rw [mem_descendants_iff h List.not_mem_nil]
  constructor
  · intro hw
    have hne : w ≠ v := by
      obtain ⟨x, -, hx⟩ := Relation.TransGen.tail'_iff.1 hw
      exact fun he => hx.2 (by simp [onPath, he])
    exact ⟨(hall.2 (.inr hw)).resolve_left hne, hne⟩
  · rintro ⟨hw, hne⟩
    exact (hall.1 (.inr hw)).resolve_left hne

/-! ### Acyclic graphs -/

/-- Before each element all its descendants are listed, or were before. -/
def DeepFirst (children : α → List α) : (before : α → Prop) → List α → Prop
  | _, [] => True
  | before, v :: l =>
    (∀ w, Relation.TransGen (fun a b => b ∈ children a) v w → before w) ∧
      DeepFirst children (fun w => w = v ∨ before w) l

namespace DeepFirst

variable {before before' : α → Prop} {l add : List α}

omit [DecidableEq α] in
theorem mono (h : DeepFirst children before l) (hle : ∀ w, before w → before' w) :
    DeepFirst children before' l := by
  induction l generalizing before before' with
  | nil => trivial
  | cons v l ih =>
    exact ⟨fun w hw => hle w (h.1 w hw), ih h.2 fun w hw => hw.imp_right (hle w)⟩

/-- An element that was listed before may be left out. -/
theorem erase (h : DeepFirst children before l) {a : α} (ha : before a) :
    DeepFirst children before (l.erase a) := by
  induction l generalizing before with
  | nil => trivial
  | cons v l ih =>
    by_cases hv : v = a
    · subst hv
      rw [List.erase_cons_head]
      exact h.2.mono fun w hw => hw.elim (fun he => he ▸ ha) id
    · rw [List.erase_cons_tail (by simpa using hv)]
      exact ⟨h.1, ih h.2 (.inr ha)⟩

/-- Elements are moved to the front with what they need. -/
theorem move (hadd : DeepFirst children before add)
    (hl : DeepFirst children (fun w => w ∈ add ∨ before w) l) :
    DeepFirst children before (moveToFront add l) := by
  induction add generalizing before with
  | nil => exact hl.mono fun w hw => hw.resolve_left List.not_mem_nil
  | cons a add ih =>
    refine ⟨hadd.1, (ih hadd.2 (hl.mono fun w hw => ?_)).erase (.inl rfl)⟩
    rw [List.mem_cons] at hw
    tauto

omit [DecidableEq α] in
/-- In a list without duplicates no element is a descendant of an earlier one. -/
theorem pairwise (h : DeepFirst children before l) (hnodup : l.Nodup)
    (hbefore : ∀ w ∈ l, ¬before w) :
    l.Pairwise fun a b => ¬Relation.TransGen (fun a b => b ∈ children a) a b := by
  induction l generalizing before with
  | nil => exact .nil
  | cons v l ih =>
    rw [List.nodup_cons] at hnodup
    rw [List.forall_mem_cons] at hbefore
    refine .cons (fun w hw hvw => hbefore.2 w hw (h.1 w hvw)) (ih h.2 hnodup.2 fun w hw hor => ?_)
    rcases hor with rfl | hor
    · exact hnodup.1 hw
    · exact hbefore.2 w hw hor

end DeepFirst

/-- The list after the loop over some children has no duplicates when no child is in it already. -/
theorem nodup_foldl_moveToFront_iff {listed : α → List α} {cs found : List α}
    (hlisted : ∀ c ∈ cs, ∀ w, w ∈ listed c ↔ Relation.TransGen (fun a b => b ∈ children a) c w) :
    (cs.foldl (fun found c => moveToFront (listed c) (c :: found)) found).Nodup ↔
      found.Nodup ∧ (∀ c ∈ cs, c ∉ found) ∧
        cs.Pairwise fun c c' => ¬Relation.ReflTransGen (fun a b => b ∈ children a) c c' := by
  induction cs generalizing found with
  | nil => simp
  | cons c cs ih =>
    rw [List.forall_mem_cons] at hlisted
    have hfree : ∀ c', c' ∉ moveToFront (listed c) (c :: found) ↔
        ¬Relation.ReflTransGen (fun a b => b ∈ children a) c c' ∧ c' ∉ found := fun c' => by
      rw [mem_moveToFront, hlisted.1, List.mem_cons, Relation.reflTransGen_iff_eq_or_transGen]
      tauto
    rw [List.foldl_cons, ih hlisted.2, nodup_moveToFront_iff, List.nodup_cons, List.forall_mem_cons,
      List.pairwise_cons]
    simp only [hfree, forall_and]
    tauto

theorem DeepFirst.foldl {listed : α → List α} {cs found : List α}
    (hlisted : ∀ c ∈ cs, DeepFirst children (fun _ => False) (listed c) ∧
      ∀ w, Relation.TransGen (fun a b => b ∈ children a) c w → w ∈ listed c)
    (hfound : DeepFirst children (fun _ => False) found) :
    DeepFirst children (fun _ => False)
      (cs.foldl (fun found c => moveToFront (listed c) (c :: found)) found) := by
  induction cs generalizing found with
  | nil => exact hfound
  | cons c cs ih =>
    rw [List.forall_mem_cons] at hlisted
    refine ih hlisted.2 (hlisted.1.1.move ⟨fun w hw => .inl (hlisted.1.2 w hw), ?_⟩)
    exact hfound.mono fun w hw => absurd hw id

namespace Acyclic

variable {parents : Finset α} {fuel : ℕ} {path : List α} {v : α}

/-- All elements of the path lead to `v`. -/
def LeadsTo (children : α → List α) (path : List α) (v : α) : Prop :=
  ∀ a ∈ path, Relation.TransGen (fun a b => b ∈ children a) a v

omit [DecidableEq α] in
theorem LeadsTo.append (h : LeadsTo children path v) {w : α}
    (hw : Relation.TransGen (fun a b => b ∈ children a) v w) :
    LeadsTo children (path ++ [v]) w := by
  intro a ha
  rcases List.mem_append.1 ha with ha | ha
  · exact (h a ha).trans hw
  · exact List.mem_singleton.1 ha ▸ hw

omit [DecidableEq α] in
theorem LeadsTo.not_mem (hacyclic : Acyclic children) (h : LeadsTo children path v) : v ∉ path :=
  fun hv => hacyclic v (h v hv)

/-- Without cycles all descendants are found. -/
theorem mem_descendants_acyclic_iff (hacyclic : Acyclic children)
    (henough : EnoughFuel children parents fuel path) (h : LeadsTo children path v) {w : α} :
    w ∈ descendants children fuel v path ↔
      Relation.TransGen (fun a b => b ∈ children a) v w := by
  rw [mem_descendants_iff henough (h.not_mem hacyclic)]
  constructor
  · intro hw
    induction hw with
    | single hstep => exact .single hstep.1
    | tail _ hstep ih => exact ih.tail hstep.1
  · intro hw
    induction hw with
    | single hstep =>
      exact .single ⟨hstep, (h.append (.single hstep)).not_mem hacyclic⟩
    | tail hwalk hstep ih =>
      exact ih.tail ⟨hstep, (h.append (hwalk.tail hstep)).not_mem hacyclic⟩

/-- Without cycles no child is on the path. -/
theorem descendants_succ (hacyclic : Acyclic children) (h : LeadsTo children path v) :
    descendants children (fuel + 1) v path = (children v).foldl (fun found c =>
      moveToFront (descendants children fuel c (path ++ [v])) (c :: found)) [] := by
  rw [descendants, if_neg (h.not_mem hacyclic)]
  refine List.foldl_ext _ _ _ fun found c hc => if_neg ?_
  exact (h.append (.single hc)).not_mem hacyclic

/-- **Descendants come first.** -/
theorem deepFirst_descendants (hacyclic : Acyclic children)
    (henough : EnoughFuel children parents fuel path) (h : LeadsTo children path v) :
    DeepFirst children (fun _ => False) (descendants children fuel v path) := by
  induction fuel generalizing path v with
  | zero => trivial
  | succ fuel ih =>
    rw [descendants_succ hacyclic h]
    refine DeepFirst.foldl (fun c hc => ?_) trivial
    have hchild := henough.of_child (h.not_mem hacyclic) (List.ne_nil_of_mem hc)
    have hpath := h.append (.single hc)
    exact ⟨ih hchild hpath,
      fun w hw => (mem_descendants_acyclic_iff hacyclic hchild hpath).2 hw⟩

/-- **When each descendant is listed once**: no child is, or descends from, an earlier child. -/
theorem nodup_descendants_iff (hacyclic : Acyclic children)
    (henough : EnoughFuel children parents fuel path) (h : LeadsTo children path v) :
    (descendants children fuel v path).Nodup ↔ (children v).Pairwise fun c c' =>
      ¬Relation.ReflTransGen (fun a b => b ∈ children a) c c' := by
  cases fuel with
  | zero => exact absurd henough.card_lt (Nat.not_lt_zero _)
  | succ fuel =>
    have hlisted : ∀ c ∈ children v, ∀ w, w ∈ descendants children fuel c (path ++ [v]) ↔
        Relation.TransGen (fun a b => b ∈ children a) c w := fun c hc w =>
      mem_descendants_acyclic_iff hacyclic
        (henough.of_child (h.not_mem hacyclic) (List.ne_nil_of_mem hc)) (h.append (.single hc))
    rw [descendants_succ hacyclic h, nodup_foldl_moveToFront_iff hlisted]
    simp

end Acyclic

end Search
