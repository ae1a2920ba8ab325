import N8n.Lib.DeepestFirst
import N8n.Lib.OrderedSet

/-!
# The topmost elements above an element

A depth-first search of a graph that shares one list of checked elements and answers the wanted
elements from which it came to no further wanted one.  Only inner elements are checked; the others
have no children.

* `topmost`: the search;
* `walked`: what has been checked once some children were gone through;
* `Comes`: how a search comes to an element, with what it has checked before;
* `findsTopmost_topmost`: which elements are found.
-/

universe u

variable {α : Type u}

/-- A split of a list with a last element is a split of the list before it, or the last one. -/
theorem exists_split_append_iff {P : List α → α → Prop} {l : List α} {a : α} :
    (∃ pre b post, l ++ [a] = pre ++ b :: post ∧ P pre b) ↔
      (∃ pre b post, l = pre ++ b :: post ∧ P pre b) ∨ P l a := by
  constructor
  · rintro ⟨pre, b, post, hl, h⟩
    rcases List.eq_nil_or_concat post with rfl | ⟨post, b', rfl⟩
    · obtain ⟨rfl, hb⟩ := List.append_inj' hl rfl
      obtain rfl : a = b := List.singleton_injective hb
      exact .inr h
    · rw [List.concat_eq_append, ← List.cons_append, ← List.append_assoc] at hl
      obtain ⟨rfl, -⟩ := List.append_inj' hl rfl
      exact .inl ⟨pre, b, post, rfl, h⟩
  · rintro (⟨pre, b, post, rfl, h⟩ | h)
    · exact ⟨pre, b, post ++ [a], by simp, h⟩
    · exact ⟨l, a, [], rfl, h⟩

/-- Of two splits of a list one is further on, unless they are the same. -/
theorem split_cases {pre post pre' post' : List α} {a a' : α}
    (h : pre ++ a :: post = pre' ++ a' :: post') :
    (pre = pre' ∧ a = a') ∨ (∃ mid, pre' = pre ++ a :: mid) ∨ ∃ mid, pre = pre' ++ a' :: mid := by
  rcases List.append_eq_append_iff.1 h with ⟨mid, hpre, hmid⟩ | ⟨mid, hpre, hmid⟩
  · cases mid with
    | nil => exact .inl ⟨by simpa using hpre.symm, by simpa using (List.cons.inj hmid).1⟩
    | cons b mid => exact .inr (.inl ⟨mid, (List.cons.inj hmid).1 ▸ hpre⟩)
  · cases mid with
    | nil => exact .inl ⟨by simpa using hpre, by simpa using (List.cons.inj hmid).1.symm⟩
    | cons b mid => exact .inr (.inr ⟨mid, (List.cons.inj hmid).1 ▸ hpre⟩)

/-! ### How a search goes on -/

section Comes

variable (children : α → List α) (inner : α → Prop)

/-- What is reached from some elements past others. -/
def reachedPast (past : Set α) (cs : List α) : Set α :=
  {y | ∃ c ∈ cs, c ∉ past ∧ Relation.ReflTransGen (StepsPast children past) c y}

/-- What has been checked when a search has gone through some elements. -/
def walked (past : Set α) (cs : List α) : Set α := past ∪ {y ∈ reachedPast children past cs | inner y}

/-- The search goes on from an element, having gone through the children that come before the next
one in an order of the children. -/
def GoesOn (order : α → List α → Prop) (p q : Set α × α) : Prop :=
  ∃ pre post, order p.2 (pre ++ q.2 :: post) ∧
    q.1 = walked children inner (insert p.2 p.1) pre ∧ q.2 ∉ q.1

/-- From `v` the search comes to `x`. -/
def Comes (order : α → List α → Prop) (past : Set α) (v : α) (past' : Set α) (x : α) : Prop :=
  Relation.TransGen (GoesOn children inner order) (past, v) (past', x)

/-- From `x` no wanted element can be reached any more. -/
def ClosedOff (wanted : α → Prop) (past : Set α) (x : α) : Prop :=
  ∀ y, wanted y → ¬Relation.TransGen (StepsPast children (insert x past)) x y

variable {children inner}

variable {past : Set α} {cs : List α} {y v : α}

theorem mem_walked_iff :
    y ∈ walked children inner past cs ↔ y ∈ past ∨ y ∈ reachedPast children past cs ∧ inner y :=
  Iff.rfl

theorem subset_walked (past : Set α) (cs : List α) : past ⊆ walked children inner past cs :=
  Set.subset_union_left

/-- What is reached goes on being reached. -/
theorem reachedPast_tail {a b : α} (ha : a ∈ reachedPast children past cs)
    (hab : Relation.ReflTransGen (StepsPast children past) a b) :
    b ∈ reachedPast children past cs := by
  obtain ⟨c, hc, hpast, hca⟩ := ha
  exact ⟨c, hc, hpast, hca.trans hab⟩

theorem reachedPast_nil (past : Set α) : reachedPast children past [] = ∅ := by
  simp [reachedPast]

theorem walked_nil (past : Set α) : walked children inner past [] = past := by
  simp [walked, reachedPast_nil]

variable (inner) in
/-- A further element adds what is reached from it past all that was checked. -/
theorem mem_reachedPast_append {c : α} :
    y ∈ reachedPast children past (cs ++ [c]) ↔ y ∈ reachedPast children past cs ∨
      c ∉ walked children inner past cs ∧
        Relation.ReflTransGen (StepsPast children (walked children inner past cs)) c y := by
  constructor
  · rintro ⟨c', hc', hpast, hy⟩
    rcases List.mem_append.1 hc' with hc' | hc'
    · exact .inl ⟨c', hc', hpast, hy⟩
    rw [List.mem_singleton] at hc'
    subst hc'
    by_cases hc : c' ∈ walked children inner past cs
    · exact .inl (reachedPast_tail (hc.resolve_left hpast).1 hy)
    · -- the walk stays past what was checked, or it meets something that had been reached
      suffices h : y ∈ reachedPast children past cs ∨
          Relation.ReflTransGen (StepsPast children (walked children inner past cs)) c' y from
        h.imp_right fun h => ⟨hc, h⟩
      clear hc
      induction hy with
      | refl => exact .inr .refl
      | @tail a b _ hstep ih =>
        rcases ih with ha | ha
        · exact .inl (reachedPast_tail ha (.single hstep))
        · by_cases hb : b ∈ walked children inner past cs
          · exact .inl (hb.resolve_left hstep.2).1
          · exact .inr (ha.tail ⟨hstep.1, hb⟩)
  · rintro (⟨c', hc', hpast, hy⟩ | ⟨hc, hy⟩)
    · exact ⟨c', List.mem_append_left _ hc', hpast, hy⟩
    · refine ⟨c, List.mem_append_right _ (List.mem_singleton_self c),
        fun hpast => hc (subset_walked past cs hpast), hy.lift id fun a b hstep => ?_⟩
      exact StepsPast.mono hstep (subset_walked past cs)

variable (inner) in
/-- What is reached is reached from the first element that leads to it, past all that was checked
before. -/
theorem mem_reachedPast_iff :
    y ∈ reachedPast children past cs ↔ ∃ pre c post, cs = pre ++ c :: post ∧
      c ∉ walked children inner past pre ∧
        Relation.ReflTransGen (StepsPast children (walked children inner past pre)) c y := by
  induction cs using List.reverseRecOn with
  | nil => simp [reachedPast_nil]
  | append_singleton cs c ih =>
    rw [mem_reachedPast_append inner, ih, exists_split_append_iff]

/-- What is reached from an element is reached from its children. -/
theorem transGen_stepsPast_iff :
    Relation.TransGen (StepsPast children past) v y ↔ y ∈ reachedPast children past (children v) := by
  rw [Relation.TransGen.head'_iff]
  exact exists_congr fun c => and_assoc

theorem closedOff_iff {wanted : α → Prop} :
    ClosedOff children wanted past v ↔
      ∀ y ∈ reachedPast children (insert v past) (children v), ¬wanted y := by
  simp only [ClosedOff, transGen_stepsPast_iff]
  exact forall_congr' fun y => ⟨fun h hy hw => h hw hy, fun h hw hy => h hy hw⟩

/-- The first turn of a search. -/
theorem comes_iff {order : α → List α → Prop} {past' : Set α} {x : α} :
    Comes children inner order past v past' x ↔ ∃ pre c post, order v (pre ++ c :: post) ∧
      c ∉ walked children inner (insert v past) pre ∧
        Relation.ReflTransGen (GoesOn children inner order)
          (walked children inner (insert v past) pre, c) (past', x) := by
  rw [Comes, Relation.TransGen.head'_iff]
  constructor
  · rintro ⟨⟨s, c⟩, ⟨pre, post, horder, rfl, hc⟩, hx⟩
    exact ⟨pre, c, post, horder, hc, hx⟩
  · rintro ⟨pre, c, post, horder, hc, hx⟩
    exact ⟨_, ⟨pre, post, horder, rfl, hc⟩, hx⟩

/-! ### Orders of the children -/

section Order

variable {order : α → List α → Prop}

/-- A step of a search goes to a child, past more elements than before. -/
theorem GoesOn.step (horder : ∀ u l, order u l → ∀ c ∈ l, c ∈ children u) {p q : Set α × α}
    (h : GoesOn children inner order p q) :
    insert p.2 p.1 ⊆ q.1 ∧ q.2 ∉ q.1 ∧ q.2 ∈ children p.2 := by
  obtain ⟨pre, post, hl, hq, hnew⟩ := h
  refine ⟨hq ▸ subset_walked _ pre, hnew, horder _ _ hl _ (by simp)⟩

variable {p q : Set α × α} {past past' : Set α} {x : α} {f : α → List α}

/-- What a search comes to has not been checked, and is reached past what had been checked. -/
theorem goesOn_past (horder : ∀ u l, order u l → ∀ c ∈ l, c ∈ children u)
    (h : Relation.ReflTransGen (GoesOn children inner order) p q) (hp : p.2 ∉ p.1) :
    p.1 ⊆ q.1 ∧ q.2 ∉ q.1 ∧ Relation.ReflTransGen (StepsPast children p.1) p.2 q.2 := by
  induction h with
  | refl => exact ⟨Set.Subset.refl _, hp, .refl⟩
  | @tail q r _ hstep ih =>
    obtain ⟨hsub, -, hreached⟩ := ih
    obtain ⟨hsub', hnew, hchild⟩ := hstep.step horder
    have hle : p.1 ⊆ r.1 := hsub.trans ((Set.subset_insert _ _).trans hsub')
    exact ⟨hle, hnew, hreached.tail ⟨hchild, fun hr => hnew (hle hr)⟩⟩

/-- An element that was passed over has been checked when the search comes to something else. -/
theorem mem_walked_of_before (horder : ∀ u l, order u l → ∀ c ∈ l, c ∈ children u)
    {pre mid : List α} {c : α} (hc : c ∉ walked children inner past pre)
    (h : Relation.ReflTransGen (GoesOn children inner order)
      (walked children inner past pre, c) (past', x)) (hx : inner x) :
    x ∈ walked children inner past (pre ++ c :: mid) := by
  obtain ⟨-, -, hreached⟩ := goesOn_past horder h hc
  exact .inr ⟨(mem_reachedPast_iff inner).2 ⟨pre, c, mid, rfl, hc, hreached⟩, hx⟩

/-- With one order of the children a search comes to an inner element once. -/
theorem goesOn_unique (hf : ∀ u, ∀ c ∈ f u, c ∈ children u) (hp : p.2 ∉ p.1) (hx : inner x)
    (h : Relation.ReflTransGen (GoesOn children inner fun u l => l = f u) p (past, x))
    (h' : Relation.ReflTransGen (GoesOn children inner fun u l => l = f u) p (past', x)) :
    past = past' := by
  have horder : ∀ u l, l = f u → ∀ c ∈ l, c ∈ children u := fun u l hl c hc => hf u c (hl ▸ hc)
  induction h using Relation.ReflTransGen.head_induction_on with
  | refl =>
    rcases h'.cases_head with he | ⟨q, hstep, hq⟩
    · exact congrArg Prod.fst he
    · obtain ⟨hsub, hnew, -⟩ := hstep.step horder
      obtain ⟨hle, hout, -⟩ := goesOn_past horder hq hnew
      exact absurd (hle (hsub (Set.mem_insert x past))) hout
  | @head p q hstep hq ih =>
    obtain ⟨hsub, hnew, -⟩ := hstep.step horder
    obtain ⟨hle, hout, -⟩ := goesOn_past horder hq hnew
    rcases h'.cases_head with rfl | ⟨q', hstep', hq'⟩
    · exact absurd (hle (hsub (Set.mem_insert x past'))) hout
    obtain ⟨-, hnew', -⟩ := hstep'.step horder
    obtain ⟨hle', hout', -⟩ := goesOn_past horder hq' hnew'
    obtain ⟨pre, post, hl, hpast, -⟩ := hstep
    obtain ⟨pre', post', hl', hpast', -⟩ := hstep'
    obtain ⟨s, c⟩ := q
    obtain ⟨s', c'⟩ := q'
    dsimp only at hpast hpast' hl hl' hnew hnew' hle hle'
    subst hpast hpast'
    rcases split_cases (hl.trans hl'.symm) with ⟨rfl, rfl⟩ | ⟨mid, rfl⟩ | ⟨mid, rfl⟩
    · exact ih hnew hq'
    · exact absurd (hle' (mem_walked_of_before horder hnew hq hx)) hout'
    · exact absurd (hle (mem_walked_of_before horder hnew' hq' hx)) hout

/-- Only the orders of elements that have been checked matter to where a search has come. -/
theorem goesOn_congr {f' : α → List α} (hf : ∀ u, ∀ c ∈ f u, c ∈ children u)
    (h : Relation.ReflTransGen (GoesOn children inner fun u l => l = f u) p q)
    (heq : ∀ u ∈ q.1, f' u = f u) :
    Relation.ReflTransGen (GoesOn children inner fun u l => l = f' u) p q := by
  have horder : ∀ u l, l = f u → ∀ c ∈ l, c ∈ children u := fun u l hl c hc => hf u c (hl ▸ hc)
  induction h with
  | refl => exact .refl
  | @tail q r hq hstep ih =>
    obtain ⟨hsub, -, -⟩ := hstep.step horder
    refine (ih fun u hu => heq u (hsub (Set.mem_insert_of_mem _ hu))).tail ?_
    obtain ⟨pre, post, hl, hpast, hnew⟩ := hstep
    exact ⟨pre, post, hl.trans (heq q.2 (hsub (Set.mem_insert _ _))).symm, hpast, hnew⟩

/-- Where a search can come when it goes through the children in any order, it comes in some order
of the children of each element. -/
theorem exists_order_of_goesOn (hp : p.2 ∉ p.1)
    (h : Relation.ReflTransGen (GoesOn children inner fun u l => l.Perm (children u)) p q) :
    ∃ f : α → List α, (∀ u, (f u).Perm (children u)) ∧
      Relation.ReflTransGen (GoesOn children inner fun u l => l = f u) p q := by
  classical
  induction h with
  | refl => exact ⟨children, fun _ => .refl _, .refl⟩
  | @tail q r _ hstep ih =>
    obtain ⟨f, hf, hq⟩ := ih
    have hmem : ∀ u, ∀ c ∈ f u, c ∈ children u := fun u c hc => (hf u).subset hc
    have horder : ∀ u l, l = f u → ∀ c ∈ l, c ∈ children u := fun u l hl c hc => hmem u c (hl ▸ hc)
    obtain ⟨-, hout, -⟩ := goesOn_past horder hq hp
    obtain ⟨pre, post, hl, hpast, hnew⟩ := hstep
    refine ⟨Function.update f q.2 (pre ++ r.2 :: post), fun u => ?_, ?_⟩
    · by_cases hu : u = q.2
      · subst hu
        rwa [Function.update_self]
      · rw [Function.update_of_ne hu]
        exact hf u
    · have hself : Function.update f q.2 (pre ++ r.2 :: post) q.2 = pre ++ r.2 :: post :=
        Function.update_self ..
      refine (goesOn_congr hmem hq fun u hu => ?_).tail ⟨pre, post, hself.symm, hpast, hnew⟩
      have hne : u ≠ q.2 := fun he => hout (he ▸ hu)
      exact Function.update_of_ne hne _ _

theorem exists_order_of_comes {v : α} (hv : v ∉ past)
    (h : Comes children inner (fun u l => l.Perm (children u)) past v past' x) :
    ∃ f : α → List α, (∀ u, (f u).Perm (children u)) ∧
      Comes children inner (fun u l => l = f u) past v past' x := by
  have horder : ∀ u (l : List α), l.Perm (children u) → ∀ c ∈ l, c ∈ children u :=
    fun _ _ hl _ hc => hl.subset hc
  obtain ⟨f, hf, hq⟩ := exists_order_of_goesOn (p := (past, v)) hv h.to_reflTransGen
  refine ⟨f, hf, (Relation.reflTransGen_iff_eq_or_transGen.1 hq).resolve_left fun he => ?_⟩
  -- the search has gone on, past more than before
  obtain ⟨q, hstep, hq'⟩ := Relation.TransGen.head'_iff.1 h
  obtain ⟨hsub, hnew, -⟩ := hstep.step horder
  obtain ⟨hle, -, -⟩ := goesOn_past horder hq' hnew
  have hpast : past' = past := congrArg Prod.fst he
  exact hv (hpast ▸ hle (hsub (Set.mem_insert v past)))

variable (inner) in
/-- A search comes to everything that can be reached. -/
theorem exists_comes (hf : ∀ u, (f u).Perm (children u)) {parents : Finset α}
    (hparents : ∀ v, children v ≠ [] → v ∈ parents) {v y : α} (hv : v ∉ past)
    (hy : Relation.TransGen (StepsPast children (insert v past)) v y) :
    ∃ past', Comes children inner (fun u l => l = f u) past v past' y := by
  classical
  induction hn : (parents.filter (· ∉ past)).card using Nat.strong_induction_on
    generalizing past v with
  | _ n ih =>
    have hsame : ∀ S : Set α, reachedPast children S (f v) = reachedPast children S (children v) :=
      fun S => by
        ext z
        simp only [reachedPast, (hf v).mem_iff]
    have hreached := transGen_stepsPast_iff.1 hy
    rw [← hsame, mem_reachedPast_iff inner] at hreached
    obtain ⟨pre, c, post, hl, hc, hcy⟩ := hreached
    have hstep : GoesOn children inner (fun u l => l = f u) (past, v)
        (walked children inner (insert v past) pre, c) := ⟨pre, post, hl.symm, rfl, hc⟩
    rcases reflTransGen_stepsPast_iff.1 hcy with rfl | hcy
    · exact ⟨_, .single hstep⟩
    · have hchild : children v ≠ [] := by
        obtain ⟨c, hc, -⟩ := Relation.TransGen.head'_iff.1 hy
        exact List.ne_nil_of_mem hc.1
      have hless : (parents.filter (· ∉ walked children inner (insert v past) pre)).card < n := by
        rw [← hn]
        refine Finset.card_lt_card (Finset.ssubset_iff_of_subset (fun w hw => ?_) |>.2 ⟨v, ?_, ?_⟩)
        · rw [Finset.mem_filter] at hw ⊢
          exact ⟨hw.1, fun hpast => hw.2 (subset_walked _ pre (Set.mem_insert_of_mem v hpast))⟩
        · exact Finset.mem_filter.2 ⟨hparents v hchild, hv⟩
        · exact fun hw => (Finset.mem_filter.1 hw).2 (subset_walked _ pre (Set.mem_insert v past))
      obtain ⟨past', hpast'⟩ := ih _ hless hc hcy rfl
      exact ⟨past', .head hstep hpast'⟩

end Order

/-! ### Which elements are found -/

/-- A search from `v` finds a wanted element when it comes to it and has checked before all that
could have led on from there. -/
def Found (children : α → List α) (inner : α → Prop) (wanted : α → Prop)
    (order : α → List α → Prop) (v x : α) : Prop :=
  wanted x ∧ ∃ past, Comes children inner order ∅ v past x ∧ ClosedOff children wanted past x

/-- The wanted elements above `x` are on a cycle with it. -/
def OnlyCyclic (children : α → List α) (wanted : α → Prop) (x : α) : Prop :=
  ∀ y, wanted y → Relation.TransGen (fun a b => b ∈ children a) x y →
    Relation.TransGen (fun a b => b ∈ children a) y x

section Found

variable {wanted : α → Prop} {v x : α} {f f' : α → List α}

/-- What is found depends on the children of an element only as a set, except for their order. -/
theorem found_congr {children' : α → List α} (h : ∀ u c, c ∈ children' u ↔ c ∈ children u)
    {order : α → List α → Prop} :
    Found children' inner wanted order v x ↔ Found children inner wanted order v x := by
  have hsteps : ∀ past, StepsPast children' past = StepsPast children past := fun past => by
    funext a b
    simp only [StepsPast, h]
  unfold Found Comes GoesOn ClosedOff walked reachedPast
  simp only [hsteps]

theorem Comes.of_order (hf : ∀ u, (f u).Perm (children u)) {past past' : Set α}
    (h : Comes children inner (fun u l => l = f u) past v past' x) :
    Comes children inner (fun u l => l.Perm (children u)) past v past' x := by
  refine h.lift id fun p q hstep => ?_
  obtain ⟨pre, post, hl, hq⟩ := hstep
  exact ⟨pre, post, hl ▸ hf p.2, hq⟩

/-- What a search comes to is not where it started. -/
theorem Comes.reached {order : α → List α → Prop} (horder : ∀ u l, order u l → ∀ c ∈ l, c ∈ children u)
    {past' : Set α} (h : Comes children inner order ∅ v past' x) :
    Relation.TransGen (StepsPast children (insert v ∅)) v x := by
  obtain ⟨q, hstep, hq⟩ := Relation.TransGen.head'_iff.1 h
  obtain ⟨hsub, hnew, -⟩ := hstep.step horder
  obtain ⟨hle, hout, -⟩ := goesOn_past horder hq hnew
  have hne : x ≠ v := fun he => hout (hle (hsub (he ▸ Set.mem_insert v ∅)))
  obtain ⟨-, -, hwalk⟩ := goesOn_past horder h.to_reflTransGen (Set.notMem_empty v)
  exact (reflTransGen_stepsPast_iff.1 hwalk).resolve_left hne

/-- A wanted element with no wanted element above it is found in every order. -/
theorem found_of_top (hf : ∀ u, (f u).Perm (children u)) {parents : Finset α}
    (hparents : ∀ v, children v ≠ [] → v ∈ parents) (hx : wanted x)
    (hvx : Relation.TransGen (fun a b => b ∈ children a) v x)
    (htop : ∀ z, wanted z → ¬Relation.TransGen (fun a b => b ∈ children a) x z) :
    Found children inner wanted (fun u l => l = f u) v x := by
  have hne : x ≠ v := fun he => htop x hx (he ▸ hvx : Relation.TransGen _ x x)
  have hall : StepsPast children ∅ = fun a b => b ∈ children a := by
    funext a b
    simp [StepsPast]
  have hpast : Relation.TransGen (StepsPast children (insert v ∅)) v x := by
    refine (reflTransGen_stepsPast_iff.1 ?_).resolve_left hne
    rw [hall]
    exact hvx.to_reflTransGen
  obtain ⟨past', hcomes⟩ := exists_comes inner hf hparents (Set.notMem_empty v) hpast
  exact ⟨hx, past', hcomes, fun y hy hxy => htop y hy (hxy.lift id fun _ _ hstep => hstep.1)⟩

/-- **When a search finds the topmost elements whatever the order of the children**: it finds only
elements with no wanted element above them outside of a cycle, and the same in all orders, exactly if
each element that it can come to with all ways on closed has these properties. -/
theorem found_iff (hinner : ∀ v, children v ≠ [] → inner v) {parents : Finset α}
    (hparents : ∀ v, children v ≠ [] → v ∈ parents) :
    ((∀ x, Found children inner wanted (fun u l => l = children u) v x →
        OnlyCyclic children wanted x) ∧
      ∀ f : α → List α, (∀ u, (f u).Perm (children u)) → ∀ x,
        Found children inner wanted (fun u l => l = f u) v x ↔
          Found children inner wanted (fun u l => l = children u) v x) ↔
    ∀ x past, wanted x → Comes children inner (fun u l => l.Perm (children u)) ∅ v past x →
      ClosedOff children wanted past x → OnlyCyclic children wanted x ∧
        ∀ past', Comes children inner (fun u l => l.Perm (children u)) ∅ v past' x →
          ClosedOff children wanted past' x := by
  have hv : v ∉ (∅ : Set α) := Set.notMem_empty v
  constructor
  · rintro ⟨hcyclic, hsame⟩ x past hx hcomes hclosed
    obtain ⟨f, hf, hcomes⟩ := exists_order_of_comes hv hcomes
    have hfound := (hsame f hf x).1 ⟨hx, past, hcomes, hclosed⟩
    refine ⟨hcyclic x hfound, fun past' hcomes' => ?_⟩
    by_cases hin : inner x
    · obtain ⟨f', hf', hcomes'⟩ := exists_order_of_comes hv hcomes'
      obtain ⟨-, past'', hcomes'', hclosed'⟩ := (hsame f' hf' x).2 hfound
      have he : past' = past'' := goesOn_unique (fun u c hc => (hf' u).subset hc) hv hin
        hcomes'.to_reflTransGen hcomes''.to_reflTransGen
      exact he ▸ hclosed'
    · -- nothing is above an element that is not inner
      intro y _ hy
      obtain ⟨c, hc, -⟩ := Relation.TransGen.head'_iff.1 hy
      exact hin (hinner x (List.ne_nil_of_mem hc.1))
  · intro h
    have hmove : ∀ f f' :
    α → List α, (∀ u, (f u).Perm (children u)) → (∀ u, (f' u).Perm (children u)) →
        ∀ x, Found children inner wanted (fun u l => l = f u) v x →
          Found children inner wanted (fun u l => l = f' u) v x := by
      rintro f f' hf hf' x ⟨hx, past, hcomes, hclosed⟩
      have hany := hcomes.of_order hf
      obtain ⟨past', hcomes'⟩ := exists_comes inner hf' hparents hv
        (hany.reached fun u l hl c hc => hl.subset hc)
      exact ⟨hx, past', hcomes', (h x past hx hany hclosed).2 past' (hcomes'.of_order hf')⟩
    refine ⟨?_, fun f hf x => ⟨hmove f children hf (fun _ => .refl _) x,
      hmove children f (fun _ => .refl _) hf x⟩⟩
    rintro x ⟨hx, past, hcomes, hclosed⟩
    exact (h x past hx (hcomes.of_order fun _ => .refl _) hclosed).1

end Found

end Comes

/-! ### The search -/

section Search

variable [DecidableEq α] (children : α → List α) (inner wanted : α → Prop) [DecidablePred inner]
  [DecidablePred wanted]

/-- What is found at an element: itself, when it is wanted and nothing was found above it. -/
def orSelf (v : α) (found : List α) : List α := if found = [] ∧ wanted v then [v] else found

/-- The wanted elements found above `v`, and the elements that have been checked. -/
def topmost : ℕ → α → List α → List α × List α
  | 0, _, checked => ([], checked)
  | fuel + 1, v, checked =>
    (children v).foldl (fun acc c =>
      if c ∈ acc.2 then acc
      else
        let above := topmost fuel c acc.2
        (appendNew acc.1 (orSelf wanted c above.1), above.2))
      ([], if inner v then checked ++ [v] else checked)

variable {children inner wanted}

omit [DecidableEq α] [DecidablePred inner] in
theorem orSelf_eq_nil_iff {v : α} {found : List α} :
    orSelf wanted v found = [] ↔ found = [] ∧ ¬wanted v := by
  unfold orSelf
  split_ifs with h
  · simp [h.2]
  · exact ⟨fun hnil => ⟨hnil, fun hv => h ⟨hnil, hv⟩⟩, fun h => h.1⟩

/-- What a search from `v` answers when some elements have been checked before. -/
structure FindsTopmost (children : α → List α) (inner wanted : α → Prop) (past : Set α) (v : α)
    (answer : List α × List α) : Prop where
  checked : onPath answer.2 =
    past ∪ {y | inner y ∧ Relation.ReflTransGen (StepsPast children past) v y}
  eq_nil_iff : answer.1 = [] ↔ ClosedOff children wanted past v
  mem_iff : ∀ x, x ∈ answer.1 ↔ wanted x ∧ ∃ past',
    Comes children inner (fun u l => l = children u) past v past' x ∧
      ClosedOff children wanted past' x

/-- What the loop over the children of an element has found after some of them. -/
structure FoundAfter (children : α → List α) (inner wanted : α → Prop) (past : Set α)
    (cs : List α) (acc : List α × List α) : Prop where
  checked : onPath acc.2 = walked children inner past cs
  eq_nil_iff : acc.1 = [] ↔ ∀ y ∈ reachedPast children past cs, ¬wanted y
  mem_iff : ∀ x, x ∈ acc.1 ↔ wanted x ∧ ∃ pre c post, cs = pre ++ c :: post ∧
    c ∉ walked children inner past pre ∧ ∃ past',
      Relation.ReflTransGen (GoesOn children inner (fun u l => l = children u))
        (walked children inner past pre, c) (past', x) ∧
      ClosedOff children wanted past' x

omit [DecidableEq α] [DecidablePred inner] [DecidablePred wanted] in
theorem FoundAfter.init {past : Set α} {checked : List α} (h : onPath checked = past) :
    FoundAfter children inner wanted past [] ([], checked) where
  checked := by rw [walked_nil, h]
  eq_nil_iff := by simp [reachedPast_nil]
  mem_iff x := by simp

omit [DecidableEq α] [DecidablePred inner] [DecidablePred wanted] in
/-- A child that was checked before is passed over. -/
theorem FoundAfter.skip {past : Set α} {cs : List α} {acc : List α × List α} {c : α}
    (h : FoundAfter children inner wanted past cs acc) (hc : c ∈ acc.2) :
    FoundAfter children inner wanted past (cs ++ [c]) acc := by
  have hc : c ∈ walked children inner past cs := h.checked ▸ hc
  have hsame : reachedPast children past (cs ++ [c]) = reachedPast children past cs := by
    ext y
    rw [mem_reachedPast_append inner]
    exact or_iff_left fun hy => hy.1 hc
  refine ⟨by rw [walked, hsame, ← walked, h.checked], by rw [hsame, h.eq_nil_iff], fun x => ?_⟩
  rw [h.mem_iff, exists_split_append_iff]
  exact and_congr_right fun _ => (or_iff_left fun hx => hx.1 hc).symm

omit [DecidableEq α] [DecidablePred inner] in
/-- What is found at an element: all to which the search comes from there, itself included. -/
theorem FindsTopmost.mem_orSelf_iff {past : Set α} {v : α} {answer : List α × List α}
    (h : FindsTopmost children inner wanted past v answer) (x : α) :
    x ∈ orSelf wanted v answer.1 ↔ wanted x ∧ ∃ past',
      Relation.ReflTransGen (GoesOn children inner (fun u l => l = children u))
        (past, v) (past', x) ∧ ClosedOff children wanted past' x := by
  have hcomes : ∀ past', Relation.ReflTransGen (GoesOn children inner (fun u l => l = children u))
      (past, v) (past', x) ↔ (past' = past ∧ x = v) ∨
        Comes children inner (fun u l => l = children u) past v past' x := fun past' => by
    rw [Relation.reflTransGen_iff_eq_or_transGen, Prod.mk.injEq]
    rfl
  simp only [hcomes, or_and_right, exists_or, and_or_left, ← h.mem_iff]
  unfold orSelf
  split_ifs with hself
  · rw [hself.1, List.mem_singleton, or_iff_left List.not_mem_nil]
    constructor
    · rintro rfl
      exact ⟨hself.2, past, ⟨rfl, rfl⟩, h.eq_nil_iff.1 hself.1⟩
    · rintro ⟨-, past', ⟨-, rfl⟩, -⟩
      rfl
  · refine (or_iff_right ?_).symm
    rintro ⟨hx, past', ⟨rfl, rfl⟩, hclosed⟩
    exact hself ⟨h.eq_nil_iff.2 hclosed, hx⟩

/-- The search goes on above a child. -/
theorem FoundAfter.visit {past : Set α} {cs : List α} {acc above : List α × List α} {c : α}
    (h : FoundAfter children inner wanted past cs acc) (hc : c ∉ acc.2)
    (habove : FindsTopmost children inner wanted (onPath acc.2) c above) :
    FoundAfter children inner wanted past (cs ++ [c])
      (appendNew acc.1 (orSelf wanted c above.1), above.2) := by
  have hc : c ∉ walked children inner past cs := h.checked ▸ hc
  rw [h.checked] at habove
  refine ⟨?_, ?_, fun x => ?_⟩
  · ext y
    rw [habove.checked, Set.mem_union, mem_walked_iff, mem_walked_iff,
      mem_reachedPast_append inner, Set.mem_ofPred_eq, and_iff_right hc]
    tauto
  · have hnil : appendNew acc.1 (orSelf wanted c above.1) = [] ↔
        acc.1 = [] ∧ orSelf wanted c above.1 = [] := by
      simp only [List.eq_nil_iff_forall_not_mem, mem_appendNew, not_or, forall_and]
    have hself : orSelf wanted c above.1 = [] ↔ ∀ y, Relation.ReflTransGen
        (StepsPast children (walked children inner past cs)) c y → ¬wanted y := by
      rw [orSelf_eq_nil_iff, habove.eq_nil_iff]
      simp only [reflTransGen_stepsPast_iff, ClosedOff]
      constructor
      · rintro ⟨hclosed, hself⟩ y (rfl | hy) hwanted
        · exact hself hwanted
        · exact hclosed y hwanted hy
      · exact fun hall => ⟨fun y hwanted hy => hall y (.inr hy) hwanted, hall c (.inl rfl)⟩
    rw [hnil, h.eq_nil_iff, hself]
    simp only [mem_reachedPast_append inner, and_iff_right hc, or_imp, forall_and]
  · rw [mem_appendNew, h.mem_iff, habove.mem_orSelf_iff, ← and_or_left, exists_split_append_iff,
      and_iff_right hc]

omit [DecidablePred inner] in
theorem EnoughFuel.mono {parents : Finset α} {fuel : ℕ} {path path' : List α}
    (h : EnoughFuel children parents fuel path) (hsub : path ⊆ path') :
    EnoughFuel children parents fuel path' where
  mem_parents := h.mem_parents
  card_lt := by
    refine lt_of_le_of_lt (Finset.card_le_card fun v hv => ?_) h.card_lt
    rw [Finset.mem_filter] at hv ⊢
    exact ⟨hv.1, fun hpath => hv.2 (hsub hpath)⟩

/-- **What the search finds**, with enough fuel for the elements that were not checked before. -/
theorem findsTopmost_topmost (hinner : ∀ v, children v ≠ [] → inner v) {parents : Finset α}
    {fuel : ℕ} {checked : List α} {v : α} (h : EnoughFuel children parents fuel checked)
    (hv : v ∉ checked) :
    FindsTopmost children inner wanted (onPath checked) v
      (topmost children inner wanted fuel v checked) := by
  induction fuel generalizing checked v with
  | zero => exact absurd h.card_lt (Nat.not_lt_zero _)
  | succ fuel ih =>
    rw [topmost]
    by_cases hin : inner v
    · rw [if_pos hin]
      have hloop : ∀ cs, cs ⊆ children v →
          FoundAfter children inner wanted (insert v (onPath checked)) cs
            (cs.foldl (fun acc c => if c ∈ acc.2 then acc else
              (appendNew acc.1 (orSelf wanted c (topmost children inner wanted fuel c acc.2).1),
                (topmost children inner wanted fuel c acc.2).2)) ([], checked ++ [v])) := by
        intro cs
        induction cs using List.reverseRecOn with
        | nil => exact fun _ => .init (onPath_append checked v)
        | append_singleton cs c ihcs =>
          intro hcs
          have hbefore := ihcs fun a ha => hcs (List.mem_append_left _ ha)
          have hchild : c ∈ children v := hcs (List.mem_append_right _ (List.mem_singleton_self c))
          rw [List.foldl_append, List.foldl_cons, List.foldl_nil]
          generalize cs.foldl _ ([], checked ++ [v]) = acc at hbefore ⊢
          split_ifs with hc
          · exact hbefore.skip hc
          · refine hbefore.visit hc (ih ?_ hc)
            refine (h.of_child hv (List.ne_nil_of_mem hchild)).mono fun a ha => ?_
            have hpast : a ∈ onPath acc.2 := by
              rw [hbefore.checked, ← onPath_append]
              exact subset_walked _ cs ha
            exact hpast
      have hall := hloop (children v) (List.Subset.refl _)
      refine ⟨?_, by rw [hall.eq_nil_iff, closedOff_iff], fun x => ?_⟩
      · ext y
        rw [hall.checked, mem_walked_iff, Set.mem_union, Set.mem_ofPred_eq,
          reflTransGen_stepsPast_iff, transGen_stepsPast_iff, Set.mem_insert_iff]
        constructor
        · rintro ((rfl | hy) | hy)
          · exact .inr ⟨hin, .inl rfl⟩
          · exact .inl hy
          · exact .inr ⟨hy.2, .inr hy.1⟩
        · rintro (hy | ⟨hy, rfl | hreached⟩)
          · exact .inl (.inr hy)
          · exact .inl (.inl rfl)
          · exact .inr ⟨hreached, hy⟩
      · rw [hall.mem_iff]
        simp only [comes_iff]
        refine and_congr_right fun _ => ⟨?_, ?_⟩
        · rintro ⟨pre, c, post, hcs, hc, past', hx, hclosed⟩
          exact ⟨past', ⟨pre, c, post, hcs.symm, hc, hx⟩, hclosed⟩
        · rintro ⟨past', ⟨pre, c, post, hcs, hc, hx⟩, hclosed⟩
          exact ⟨pre, c, post, hcs.symm, hc, past', hx, hclosed⟩
    · -- an element that is not inner has no children and is not checked
      have hnil : children v = [] := not_not.1 fun hne => hin (hinner v hne)
      rw [if_neg hin, hnil, List.foldl_nil]
      refine ⟨?_, ?_, fun x => ?_⟩
      · ext y
        rw [Set.mem_union, Set.mem_ofPred_eq, reflTransGen_stepsPast_iff, transGen_stepsPast_iff, hnil,
          reachedPast_nil]
        exact (or_iff_left fun hy => hin (hy.2.elim (fun he => he ▸ hy.1) fun h => h.elim)).symm
      · rw [closedOff_iff, hnil, reachedPast_nil]
        simp
      · simp only [comes_iff, hnil]
        simp

end Search
