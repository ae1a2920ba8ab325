import Mathlib.Data.List.Forall2
import Mathlib.Data.List.Pairwise
import Mathlib.Order.Nat

/-!
# Lists that are related element by element

Two lists may be related element by element.  Or each element of a list may stand for a list, or for
nothing, a gap, and the lists are put one after the other.

* `List.Forall₂.exists_mem_zip`, `List.Forall₂.exists_left`, `List.Forall₂.exists_right`: the
  elements that an element is related to;
* `List.Forall₂.forall_mem_iff`, `List.Forall₂.exists_mem_iff`: conditions on related elements;
* `List.Forall₂.forall₂_iff`: a relation that comes to a condition on one side;
* `Gaps.exists_of_getElem?_filterMap`: where a list that is left comes from;
* `Gaps.filterMap_aligned_iff`: when each list is left at the position of its element.
-/

universe u v

namespace List

variable {α : Type u} {β : Type v} {R : α → β → Prop} {l : List α} {m : List β}

theorem Forall₂.exists_mem_zip (h : Forall₂ R l m) {a : α} (ha : a ∈ l) :
    ∃ b, (a, b) ∈ l.zip m := by
  induction h with
  | nil => cases ha
  | @cons a' b l m hab h ih =>
    rcases mem_cons.1 ha with rfl | ha
    · exact ⟨b, mem_cons_self⟩
    · obtain ⟨b', hb'⟩ := ih ha
      exact ⟨b', mem_cons_of_mem _ hb'⟩

theorem Forall₂.exists_right (h : Forall₂ R l m) : ∀ a ∈ l, ∃ b ∈ m, R a b := by
  intro a ha
  obtain ⟨b, hb⟩ := h.exists_mem_zip ha
  exact ⟨b, (of_mem_zip hb).2, (forall₂_iff_zip.1 h).2 hb⟩

theorem Forall₂.exists_left (h : Forall₂ R l m) : ∀ b ∈ m, ∃ a ∈ l, R a b :=
  h.flip.exists_right

section Conditions

variable {P : α → Prop} {Q : β → Prop} {S : α → β → Prop}

theorem Forall₂.exists_mem_iff (h : Forall₂ R l m) (hR : ∀ a b, R a b → (Q b ↔ P a)) :
    (∃ b ∈ m, Q b) ↔ ∃ a ∈ l, P a := by
  induction h with
  | nil => simp
  | cons hab _ ih => rw [exists_mem_cons_iff, exists_mem_cons_iff, hR _ _ hab, ih]

theorem Forall₂.forall_mem_iff (h : Forall₂ R l m) (hR : ∀ a b, R a b → (Q b ↔ P a)) :
    (∀ b ∈ m, Q b) ↔ ∀ a ∈ l, P a := by
  induction h with
  | nil => simp
  | cons hab _ ih => rw [forall_mem_cons, forall_mem_cons, hR _ _ hab, ih]

theorem Forall₂.forall₂_iff (h : Forall₂ R l m) (hS : ∀ a b, R a b → (S a b ↔ P a)) :
    Forall₂ S l m ↔ ∀ a ∈ l, P a := by
  induction h with
  | nil => simp
  | cons hab _ ih => rw [forall₂_cons, forall_mem_cons, hS _ _ hab, ih]

end Conditions

end List

namespace Gaps

variable {α : Type u} {β : Type v} {d : α → Option (List β)} {cs : List α}

/-- What is left of a list with gaps comes from the same position or a later one. -/
theorem exists_of_getElem?_filterMap {γ : Type v} {d : α → Option γ} {cs : List α} {i : ℕ} {x : γ}
    (h : (cs.filterMap d)[i]? = some x) : ∃ k c, i ≤ k ∧ cs[k]? = some c ∧ d c = some x := by
  induction cs generalizing i with
  | nil => cases h
  | cons c cs ih =>
    cases hd : d c with
    | none =>
      rw [List.filterMap_cons_none hd] at h
      obtain ⟨k, c', hk, hc', hx⟩ := ih h
      exact ⟨k + 1, c', by omega, hc', hx⟩
    | some y =>
      rw [List.filterMap_cons_some hd] at h
      cases i with
      | zero =>
        cases h
        exact ⟨0, c, le_rfl, rfl, hd⟩
      | succ i =>
        obtain ⟨k, c', hk, hc', hx⟩ := ih h
        exact ⟨k + 1, c', by omega, hc', hx⟩

/-- When every list is as the next place of what is left says, all are empty. -/
theorem getD_eq_nil_of_shifted
    (h : ∀ (j : ℕ) c, cs[j]? = some c → ((cs.filterMap d)[j + 1]?).getD [] = (d c).getD []) :
    ∀ c ∈ cs, (d c).getD [] = [] := by
  -- by induction on the number of elements after the one
  have hall : ∀ n j c, cs.length ≤ j + n → cs[j]? = some c → (d c).getD [] = [] := by
    intro n
    induction n with
    | zero =>
      intro j c hj hc
      rw [List.getElem?_eq_none (by omega)] at hc
      cases hc
    | succ n ih =>
      intro j c hj hc
      rw [← h j c hc]
      cases hx : (cs.filterMap d)[j + 1]? with
      | none => rfl
      | some x =>
        obtain ⟨k, c', hk, hc', hd⟩ := exists_of_getElem?_filterMap hx
        have := ih k c' (by omega) hc'
        rwa [hd] at this
  intro c hc
  obtain ⟨j, hj⟩ := List.mem_iff_getElem?.1 hc
  exact hall cs.length j c (by omega) hj

/-- **Lists stay in place when gaps are dropped** exactly when no list that is not empty comes after
a gap. -/
theorem filterMap_aligned_iff :
    (∀ (j : ℕ) c, cs[j]? = some c → ((cs.filterMap d)[j]?).getD [] = (d c).getD []) ↔
      cs.Pairwise fun c c' => d c = none → (d c').getD [] = [] := by
  induction cs with
  | nil => simp
  | cons c cs ih =>
    rw [List.pairwise_cons]
    cases hd : d c with
    | some x =>
      rw [List.filterMap_cons_some hd, ← ih, and_iff_right fun _ _ h => by cases h]
      constructor
      · exact fun h j c' hc' => h (j + 1) c' hc'
      · intro h j c' hc'
        cases j with
        | zero =>
          cases hc'
          rw [hd]
          rfl
        | succ j => exact h j c' hc'
    | none =>
      rw [List.filterMap_cons_none hd]
      constructor
      · intro h
        have hnil := getD_eq_nil_of_shifted fun (j : ℕ) c' hc' => h (j + 1) c' hc'
        exact ⟨fun c' hc' _ => hnil c' hc',
          List.pairwise_of_forall_mem_list fun _ _ c' hc' _ => hnil c' hc'⟩
      · rintro ⟨hnil, -⟩ j c' hc'
        have hleft : ((cs.filterMap d)[j]?).getD [] = [] := by
          cases hx : (cs.filterMap d)[j]? with
          | none => rfl
          | some x =>
            obtain ⟨k, c'', -, hc'', hx⟩ := exists_of_getElem?_filterMap hx
            have := hnil c'' (List.mem_of_getElem? hc'') rfl
            rwa [hx] at this
        rw [hleft]
        cases j with
        | zero =>
          cases hc'
          rw [hd]
          rfl
        | succ j => exact (hnil c' (List.mem_of_getElem? hc') rfl).symm

end Gaps
