import Mathlib.Data.List.Infix
import Mathlib.Data.List.TakeWhile
import Mathlib.Order.Lattice

/-!
# Cutting a list

A list is cut at its first doubled delimiter, or where a predicate fails for the first time.  A
delimiter is a letter `b` written twice.  An escape letter `esc` in front of it makes it ordinary
text.  Or it is cut into batches of a fixed size, the last one with what is left.

* `cut`: a list up to its first unescaped delimiter, and what follows that;
* `stopsEscaped`: whether nothing follows the last escaped delimiter;
* `cut_eq_append`, `cut_left`: what `cut` answers is the list, and its left part has no delimiter;
* `cut_append`: text without a delimiter, closed by one, is cut there;
* `Batched`: the batches of a list; there is one way to make them, and together they are the list.
-/

universe u

section Delimiters

variable {α : Type u} {esc b : α}

variable {l r : List α} {x : α}

theorem escaped_prefix_iff : [esc, b, b] <+: l ↔ ∃ r, l = esc :: b :: b :: r := by
  constructor
  · rintro ⟨r, rfl⟩
    exact ⟨r, rfl⟩
  · rintro ⟨r, rfl⟩
    exact ⟨r, rfl⟩

theorem pair_prefix_iff : [b, b] <+: l ↔ ∃ r, l = b :: b :: r := by
  constructor
  · rintro ⟨r, rfl⟩
    exact ⟨r, rfl⟩
  · rintro ⟨r, rfl⟩
    exact ⟨r, rfl⟩

/-- The list ends neither with the escape letter nor with the delimiter letter. -/
def EndsPlain (esc b : α) (l : List α) : Prop :=
  ∀ x ∈ l.getLast?, x ≠ esc ∧ x ≠ b

theorem EndsPlain.of_cons (h : EndsPlain esc b (x :: l)) : EndsPlain esc b l := by
  intro y hy
  refine h y ?_
  cases l with
  | nil => simp at hy
  | cons z l => rwa [List.getLast?_cons_cons]

/-- Text that ends plainly does not run into what is put after it. -/
theorem EndsPlain.escaped_prefix (h : EndsPlain esc b (x :: l)) :
    [esc, b, b] <+: x :: (l ++ r) ↔ [esc, b, b] <+: x :: l := by
  match l with
  | [] =>
    have hx : esc ≠ x := (h x rfl).1.symm
    simp [List.cons_prefix_cons, hx]
  | [y] =>
    have hy : b ≠ y := (h y rfl).2.symm
    simp [List.cons_prefix_cons, hy]
  | y :: z :: l => simp [List.cons_prefix_cons]

theorem EndsPlain.pair_prefix (h : EndsPlain esc b (x :: l)) :
    [b, b] <+: x :: (l ++ r) ↔ [b, b] <+: x :: l := by
  match l with
  | [] =>
    have hx : b ≠ x := (h x rfl).2.symm
    simp [List.cons_prefix_cons, hx]
  | y :: l => simp [List.cons_prefix_cons]

end Delimiters

variable {α : Type u} [DecidableEq α] {esc b : α}

/-- The list before the first unescaped `bb`, and the list after it. -/
def cut (esc b : α) : List α → Option (List α × List α)
  | [] => none
  | x :: l =>
    if [esc, b, b] <+: x :: l then
      (cut esc b (l.drop 2)).map fun p => (esc :: b :: b :: p.1, p.2)
    else if [b, b] <+: x :: l then some ([], l.drop 1)
    else (cut esc b l).map fun p => (x :: p.1, p.2)
termination_by l => l.length

/-- Whether the list is empty or ends with an escaped `bb`, before any unescaped one. -/
def stopsEscaped (esc b : α) : List α → Bool
  | [] => true
  | x :: l =>
    if [esc, b, b] <+: x :: l then stopsEscaped esc b (l.drop 2)
    else if [b, b] <+: x :: l then false
    else l ≠ [] && stopsEscaped esc b l
termination_by l => l.length

@[simp] theorem cut_nil : cut esc b [] = none := by rw [cut]

theorem cut_escaped (l : List α) :
    cut esc b (esc :: b :: b :: l) =
      (cut esc b l).map fun p => (esc :: b :: b :: p.1, p.2) := by
  rw [cut, if_pos ⟨l, rfl⟩]
  rfl

theorem cut_pair (h : esc ≠ b) (l : List α) : cut esc b (b :: b :: l) = some ([], l) := by
  rw [cut, if_neg, if_pos ⟨l, rfl⟩]
  · rfl
  · rw [escaped_prefix_iff]
    rintro ⟨r, hr⟩
    exact h (List.cons.inj hr).1.symm

theorem cut_cons {x : α} {l : List α} (he : ¬ [esc, b, b] <+: x :: l) (hb : ¬ [b, b] <+: x :: l) :
    cut esc b (x :: l) = (cut esc b l).map fun p => (x :: p.1, p.2) := by
  rw [cut, if_neg he, if_neg hb]

theorem cut_of_not_mem {l : List α} (h : b ∉ l) : cut esc b l = none := by
  induction l with
  | nil => exact cut_nil
  | cons x l ih =>
    rw [List.mem_cons, not_or] at h
    have hp : ¬ [b, b] <+: x :: l := by
      rw [List.cons_prefix_cons]
      exact fun hp => h.1 hp.1
    have he : ¬ [esc, b, b] <+: x :: l := by
      rintro ⟨r, hr⟩
      exact h.2 ((List.cons.inj hr).2 ▸ List.mem_cons_self)
    rw [cut_cons he hp, ih h.2]
    rfl

/-- A list that stops at an escaped delimiter ends with it. -/
theorem getLast_of_stopsEscaped {l : List α} (h : stopsEscaped esc b l) :
    ∀ c ∈ l.getLast?, c = b := by
  induction l using stopsEscaped.induct esc b with
  | case1 => simp
  | case2 x l hp ih =>
    obtain ⟨l, he⟩ := escaped_prefix_iff.1 hp
    obtain ⟨rfl, rfl⟩ := List.cons.inj he
    rw [stopsEscaped, if_pos hp] at h
    intro c hc
    cases l with
    | nil =>
      cases hc
      rfl
    | cons y l => exact ih h c (by simpa using hc)
  | case3 x l he hp =>
    rw [stopsEscaped, if_neg he, if_pos hp] at h
    cases h
  | case4 x l he hp ih =>
    rw [stopsEscaped, if_neg he, if_neg hp, Bool.and_eq_true, decide_eq_true_iff] at h
    intro c hc
    refine ih h.2 c ?_
    cases l with
    | nil => exact absurd rfl h.1
    | cons y l => rwa [List.getLast?_cons_cons] at hc

/-- A list is cut at a delimiter, behind an escaped one, or behind an element that starts neither. -/
theorem cut_some_rec {l t r : List α} {motive : List α → List α → Prop}
    (here : motive (b :: b :: r) [])
    (escaped : ∀ l t, motive l t → motive (esc :: b :: b :: l) (esc :: b :: b :: t))
    (cons : ∀ x l t, ¬ [esc, b, b] <+: x :: l → ¬ [b, b] <+: x :: l → cut esc b l = some (t, r) →
      motive l t → motive (x :: l) (x :: t))
    (h : cut esc b l = some (t, r)) : motive l t := by
  induction l using cut.induct esc b generalizing t with
  | case1 => simp at h
  | case2 x l hp ih =>
    obtain ⟨l, he⟩ := escaped_prefix_iff.1 hp
    obtain ⟨rfl, rfl⟩ := List.cons.inj he
    rw [cut_escaped, Option.map_eq_some_iff] at h
    obtain ⟨⟨t', r'⟩, hc, he⟩ := h
    obtain ⟨rfl, rfl⟩ := Prod.mk.inj he
    exact escaped l t' (ih hc)
  | case3 x l he hp =>
    rw [cut, if_neg he, if_pos hp] at h
    obtain ⟨l, hl⟩ := pair_prefix_iff.1 hp
    obtain ⟨rfl, rfl⟩ := List.cons.inj hl
    obtain ⟨rfl, rfl⟩ := Prod.mk.inj (Option.some.inj h)
    exact here
  | case4 x l he hp ih =>
    rw [cut_cons he hp, Option.map_eq_some_iff] at h
    obtain ⟨⟨t', r'⟩, hc, hs⟩ := h
    obtain ⟨rfl, rfl⟩ := Prod.mk.inj hs
    exact cons x l t' he hp hc (ih hc)

/-- What is cut, with the delimiter put back, is the list. -/
theorem cut_eq_append {l t r : List α} (h : cut esc b l = some (t, r)) : l = t ++ b :: b :: r := by
  refine cut_some_rec (motive := fun l t => l = t ++ b :: b :: r) rfl (fun l t ih => ?_)
    (fun x l t _ _ _ ih => ?_) h
  · rw [ih]
    rfl
  · rw [ih]
    rfl

theorem length_lt_of_cut {l t r : List α} (h : cut esc b l = some (t, r)) :
    r.length < l.length := by
  rw [cut_eq_append h]
  simp only [List.length_append, List.length_cons]
  omega

/-- No unescaped delimiter stands before the one that a list is cut at. -/
theorem cut_left {l t r : List α} (h : cut esc b l = some (t, r)) : cut esc b t = none := by
  refine cut_some_rec (motive := fun _ t => cut esc b t = none) cut_nil (fun l t ih => ?_)
    (fun x l t he hp hc ih => ?_) h
  · rw [cut_escaped, ih]
    rfl
  · have hpre : x :: t <+: x :: l := ⟨b :: b :: r, by rw [cut_eq_append hc]; rfl⟩
    rw [cut_cons (fun hx => he (hx.trans hpre)) (fun hx => hp (hx.trans hpre)), ih]
    rfl

/-- Text without an unescaped delimiter, closed by one, is cut there. -/
theorem cut_append (hne : esc ≠ b) {t : List α} (r : List α) (ht : cut esc b t = none)
    (hend : EndsPlain esc b t) : cut esc b (t ++ b :: b :: r) = some (t, r) := by
  induction t using cut.induct esc b with
  | case1 => exact cut_pair hne r
  | case2 x l hp ih =>
    obtain ⟨l, he⟩ := escaped_prefix_iff.1 hp
    obtain ⟨rfl, rfl⟩ := List.cons.inj he
    rw [cut_escaped, Option.map_eq_none_iff] at ht
    have hcut := ih ht hend.of_cons.of_cons.of_cons
    rw [List.drop_succ_cons, List.drop_succ_cons, List.drop_zero] at hcut
    rw [List.cons_append, List.cons_append, List.cons_append, cut_escaped, hcut]
    rfl
  | case3 x l he hp =>
    rw [cut, if_neg he, if_pos hp] at ht
    exact absurd ht (by simp)
  | case4 x l he hp ih =>
    rw [cut_cons he hp, Option.map_eq_none_iff] at ht
    rw [List.cons_append, cut_cons (mt hend.escaped_prefix.1 he) (mt hend.pair_prefix.1 hp),
      ih ht hend.of_cons]
    rfl

/-- What follows does not move the place a list is cut at. -/
theorem cut_append_right (hne : esc ≠ b) {l t r : List α} (s : List α)
    (h : cut esc b l = some (t, r)) : cut esc b (l ++ s) = some (t, r ++ s) := by
  refine cut_some_rec (motive := fun l t => cut esc b (l ++ s) = some (t, r ++ s))
    (cut_pair hne (r ++ s)) (fun l t ih => ?_) (fun x l t he hp hc ih => ?_) h
  · rw [List.cons_append, List.cons_append, List.cons_append, cut_escaped, ih]
    rfl
  · -- the cut leaves room for the delimiter, so no window reaches into `s`
    have hlen : 2 ≤ l.length := by
      rw [cut_eq_append hc, List.length_append, List.length_cons, List.length_cons]
      omega
    have hpre : x :: l <+: x :: (l ++ s) := ⟨s, rfl⟩
    have he' : ¬ [esc, b, b] <+: x :: (l ++ s) := fun hx =>
      he (List.prefix_of_prefix_length_le hx hpre (Nat.succ_le_succ hlen))
    have hp' : ¬ [b, b] <+: x :: (l ++ s) := fun hx =>
      hp (List.prefix_of_prefix_length_le hx hpre (Nat.le_succ_of_le hlen))
    rw [List.cons_append, cut_cons he' hp', ih]
    rfl

namespace List

variable {α : Type u} {p : α → Bool} {l : List α}

theorem mem_dropWhile_of_not {x : α} (hx : x ∈ l) (hp : p x = false) : x ∈ l.dropWhile p := by
  rw [← takeWhile_append_dropWhile (p := p) (l := l)] at hx
  refine (mem_append.1 hx).resolve_left fun h => ?_
  exact absurd (mem_takeWhile_imp h) (by simp [hp])

theorem not_mem_dropWhile_of_mem_takeWhile {x : α} (hl : l.Nodup) (hx : x ∈ l.takeWhile p) :
    x ∉ l.dropWhile p := by
  rw [← takeWhile_append_dropWhile (p := p) (l := l)] at hl
  exact fun hx' => (nodup_append.1 hl).2.2 x hx x hx' rfl

/-- If every element before one with the property `P` has it too, and within the list the elements
with this property are those that satisfy the predicate, then they make up the prefix. -/
theorem mem_takeWhile_iff_of_pairwise {P : α → Prop} (hl : l.Pairwise fun a b => P b → P a)
    (hp : ∀ x ∈ l, p x = true ↔ P x) {x : α} : x ∈ l.takeWhile p ↔ x ∈ l ∧ P x := by
  induction l with
  | nil => simp
  | cons a l ih =>
    obtain ⟨ha, hl⟩ := pairwise_cons.1 hl
    have ih := ih hl fun x hx => hp x (mem_cons_of_mem _ hx)
    have hpa := hp a mem_cons_self
    by_cases hP : P a
    · rw [takeWhile_cons, if_pos (hpa.2 hP), mem_cons, mem_cons, ih]
      constructor
      · rintro (rfl | ⟨hx, hPx⟩)
        · exact ⟨Or.inl rfl, hP⟩
        · exact ⟨Or.inr hx, hPx⟩
      · rintro ⟨rfl | hx, hPx⟩
        · exact Or.inl rfl
        · exact Or.inr ⟨hx, hPx⟩
    · rw [takeWhile_cons, if_neg fun h => hP (hpa.1 h)]
      refine iff_of_false not_mem_nil ?_
      rintro ⟨hx, hPx⟩
      rcases mem_cons.1 hx with rfl | hx
      · exact hP hPx
      · exact hP (ha x hx hPx)

end List

/-! ### Batches -/

/-- The batches of so many elements into which a list falls. -/
inductive Batched {α : Type u} (size : ℕ) : List α → List (List α) → Prop
  | nil : Batched size [] []
  | cons {l : List α} {batches : List (List α)} (hl : l ≠ [])
      (h : Batched size (l.drop size) batches) : Batched size l (l.take size :: batches)

namespace Batched

variable {α : Type u} {size : ℕ} {l : List α} {batches : List (List α)}

theorem flatten_eq (h : Batched size l batches) : batches.flatten = l := by
  induction h with
  | nil => rfl
  | cons _ _ ih => rw [List.flatten_cons, ih, List.take_append_drop]

theorem unique {batches' : List (List α)} (h : Batched size l batches)
    (h' : Batched size l batches') : batches = batches' := by
  induction h generalizing batches' with
  | nil =>
    cases h' with
    | nil => rfl
    | cons hl => exact absurd rfl hl
  | cons hl _ ih =>
    cases h' with
    | nil => exact absurd rfl hl
    | cons _ h' => rw [ih h']

theorem length_le (h : Batched size l batches) : ∀ batch ∈ batches, batch.length ≤ size := by
  induction h with
  | nil => simp
  | cons _ _ ih =>
    intro batch hbatch
    obtain rfl | hbatch := List.mem_cons.1 hbatch
    · exact List.length_take_le _ _
    · exact ih batch hbatch

theorem exists_length (h : Batched size l batches) (hl : l ≠ []) (hsize : size ≤ l.length) :
    ∃ batch ∈ batches, batch.length = size := by
  cases h with
  | nil => exact absurd rfl hl
  | cons _ _ =>
    refine ⟨_, List.mem_cons_self, ?_⟩
    rw [List.length_take, min_eq_left hsize]

end Batched
