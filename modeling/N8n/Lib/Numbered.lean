import Mathlib.Data.List.Sort
import Mathlib.Data.List.InsertIdx
import Mathlib.Data.List.Range
import Mathlib.Algebra.Order.Ring.Cast

/-!
# Lists whose keys are their positions

Rows that keep an order by a key of their own, as the columns of a table do.

* `List.Numbered`: the keys are `0, …, n - 1` in this order;
* `List.numbered_perm_iff`: some order of the rows is numbered when their keys are the positions;
* `List.Numbered.insertIdx`, `List.Numbered.eraseIdx`: rows are numbered again when the keys behind
  an inserted or removed row are shifted by one.
-/

namespace List

variable {α R : Type*} [Ring R] [LinearOrder R] [IsStrictOrderedRing R] {key : α → R}
  {order : List α}

/-- The keys of the list are its positions. -/
def Numbered (key : α → R) (order : List α) : Prop :=
  ∀ i (h : i < order.length), key order[i] = i

omit [LinearOrder R] [IsStrictOrderedRing R] in
theorem numbered_iff_map : Numbered key order ↔
    order.map key = (range order.length).map fun i : ℕ => (i : R) := by
  constructor
  · intro h
    apply ext_getElem
    · simp
    · intro i hi _
      rw [getElem_map, getElem_map, getElem_range]
      exact h i _
  · intro h i hi
    have hget := congrArg (fun m : List R => m[i]?) h
    simpa [hi] using hget

theorem Numbered.pairwise_lt (h : Numbered key order) :
    order.Pairwise fun a b => key a < key b := by
  rw [pairwise_iff_getElem]
  intro i j hi hj hij
  rw [h i hi, h j hj]
  exact Nat.cast_lt.2 hij

omit [Ring R] [IsStrictOrderedRing R] in
theorem pairwise_insertionSort_key (l : List α) :
    (l.insertionSort fun a b => key a ≤ key b).Pairwise fun a b => key a ≤ key b := by
  have : IsTrans α fun a b => key a ≤ key b := ⟨fun _ _ _ h h' => le_trans h h'⟩
  have : Std.Total fun a b : α => key a ≤ key b := ⟨fun a b => le_total (key a) (key b)⟩
  exact pairwise_insertionSort _ l

/-- The sorted rows are the numbered ones. -/
theorem Numbered.insertionSort_eq {l : List α} (h : Numbered key order) (hperm : order.Perm l) :
    (l.insertionSort fun a b => key a ≤ key b) = order := by
  have hl := (perm_insertionSort (fun a b => key a ≤ key b) l).trans hperm.symm
  apply @Perm.eq_of_pairwise _ (fun a b => key a ≤ key b) _ _ ?_ ?_ ?_ hl
  · intro a b ha hb hab hba
    have hkey := le_antisymm hab hba
    obtain ⟨i, hi, rfl⟩ := mem_iff_getElem.1 (hl.mem_iff.1 ha)
    obtain ⟨j, hj, rfl⟩ := mem_iff_getElem.1 hb
    rw [h i hi, h j hj, Nat.cast_inj] at hkey
    simp only [hkey]
  · exact pairwise_insertionSort_key l
  · exact h.pairwise_lt.imp fun h => le_of_lt h

/-- **Rows can be numbered when their keys are the positions.** -/
theorem numbered_perm_iff {l : List α} : (∃ order, order.Perm l ∧ Numbered key order) ↔
    (l.map key).Perm ((range l.length).map fun i : ℕ => (i : R)) := by
  constructor
  · rintro ⟨order, hperm, h⟩
    rw [← hperm.length_eq, ← numbered_iff_map.1 h]
    exact (hperm.map key).symm
  · intro h
    refine ⟨l.insertionSort fun a b => key a ≤ key b, perm_insertionSort _ l, ?_⟩
    rw [numbered_iff_map, length_insertionSort]
    have hsort := perm_insertionSort (fun a b => key a ≤ key b) l
    apply @Perm.eq_of_pairwise _ (fun a b : R => a ≤ b) _ _ ?_ ?_ ?_ ((hsort.map key).trans h)
    · exact fun a b _ _ hab hba => le_antisymm hab hba
    · exact pairwise_map.2 (pairwise_insertionSort_key l)
    · rw [pairwise_map]
      exact pairwise_lt_range.imp fun h => Nat.cast_le.2 (le_of_lt h)

/-- A row goes in at position `k` when the keys from `k` on are shifted up. -/
theorem Numbered.insertIdx {k : ℕ} {a : α} {shift : α → α} (h : Numbered key order)
    (hk : k ≤ order.length) (ha : key a = k)
    (hshift : ∀ b, key (shift b) = if (k : R) ≤ key b then key b + 1 else key b) :
    Numbered key ((order.map shift).insertIdx k a) := by
  intro i hi
  rcases lt_trichotomy i k with hlt | rfl | hgt
  · rw [getElem_insertIdx_of_lt hlt, getElem_map, hshift, h, if_neg]
    rw [Nat.cast_le]
    omega
  · rw [getElem_insertIdx_self]
    exact ha
  · rw [getElem_insertIdx_of_gt hgt, getElem_map, hshift, h, if_pos]
    · rw [← Nat.cast_succ]
      congr 1
      omega
    · rw [Nat.cast_le]
      omega

/-- A row comes out from position `k` when the keys from `k` on are shifted down. -/
theorem Numbered.eraseIdx {k : ℕ} {shift : α → α} (h : Numbered key order)
    (hshift : ∀ b, key (shift b) = if (k : R) ≤ key b then key b - 1 else key b) :
    Numbered key ((order.eraseIdx k).map shift) := by
  intro i hi
  rw [getElem_map, hshift, getElem_eraseIdx]
  split
  case isTrue hlt =>
    rw [h, if_neg]
    rw [Nat.cast_le]
    omega
  case isFalse hge =>
    rw [h, if_pos]
    · simp
    · rw [Nat.cast_le]
      omega

end List
