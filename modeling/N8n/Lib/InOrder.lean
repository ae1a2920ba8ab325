import Mathlib.Data.List.Sort
import Mathlib.Data.List.Range

/-!
# Lists in the order of an integer key

What a query gives that sorts its rows, and the lists whose keys number their elements.

* `List.inOrder`: the elements in the order of their keys, and `List.inOrder_eq_of_perm`: any list
  of the same elements with rising keys is that one;
* `List.Dense`: the keys are the positions, and `List.dense_iff_inOrder`.
-/

universe u

namespace List

variable {α : Type u} {key : α → ℤ} {l : List α}

/-- The elements in the order of their keys. -/
def inOrder (key : α → ℤ) (l : List α) : List α := l.insertionSort fun a b => key a ≤ key b

/-- The keys are `0, …, n - 1`, each once. -/
def Dense (key : α → ℤ) (l : List α) : Prop :=
  (l.map key).Perm ((range l.length).map fun i : ℕ => (i : ℤ))

theorem inOrder_perm (key : α → ℤ) (l : List α) : (inOrder key l).Perm l :=
  perm_insertionSort _ l

theorem mem_inOrder {a : α} : a ∈ inOrder key l ↔ a ∈ l := (inOrder_perm key l).mem_iff

theorem length_inOrder (key : α → ℤ) (l : List α) : (inOrder key l).length = l.length :=
  (inOrder_perm key l).length_eq

theorem pairwise_inOrder (key : α → ℤ) (l : List α) :
    (inOrder key l).Pairwise fun a b => key a ≤ key b := by
  have : IsTrans α fun a b => key a ≤ key b := ⟨fun _ _ _ h h' => le_trans h h'⟩
  have : Std.Total fun a b : α => key a ≤ key b := ⟨fun a b => le_total (key a) (key b)⟩
  exact pairwise_insertionSort _ l

/-- Elements with distinct keys come with rising keys. -/
theorem pairwise_lt_inOrder (h : (l.map key).Nodup) :
    (inOrder key l).Pairwise fun a b => key a < key b := by
  have hnodup : ((inOrder key l).map key).Nodup := ((inOrder_perm key l).map key).nodup_iff.2 h
  rw [List.Nodup, pairwise_map] at hnodup
  exact ((pairwise_inOrder key l).and hnodup).imp fun h => lt_of_le_of_ne h.1 h.2

/-- **A list with rising keys is the list in order.** -/
theorem inOrder_eq_of_perm {m : List α} (hm : m.Pairwise fun a b => key a < key b)
    (hperm : m.Perm l) : inOrder key l = m := by
  apply @Perm.eq_of_pairwise _ fun a b => key a ≤ key b
  · intro a b ha hb hab hba
    have hab' : key a = key b := le_antisymm hab hba
    by_contra hne
    have hnodup : (m.map key).Nodup := by
      rw [List.Nodup, pairwise_map]
      exact hm.imp fun h => ne_of_lt h
    exact hne (inj_on_of_nodup_map hnodup (hperm.mem_iff.2 (mem_inOrder.1 ha)) hb hab')
  · exact pairwise_inOrder key l
  · exact hm.imp fun h => le_of_lt h
  · exact (inOrder_perm key l).trans hperm.symm

/-! ### Dense lists -/

theorem dense_nil : Dense key [] := Perm.refl _

/-- Keys that are the positions. -/
theorem dense_of_getElem {m : List α} (h : ∀ i (hi : i < m.length), key m[i] = i) :
    Dense key m := by
  have hmap : m.map key = (range m.length).map fun i : ℕ => (i : ℤ) := by
    apply ext_getElem
    · simp
    · intro i hi hi'
      rw [getElem_map, getElem_map, getElem_range]
      exact h i _
  rw [Dense, hmap]

/-- **A list is dense when its elements, in order, have their positions as keys.** -/
theorem dense_iff_inOrder : Dense key l ↔
    (inOrder key l).map key = (range l.length).map fun i : ℕ => (i : ℤ) := by
  constructor
  · intro h
    have hsorted : ((inOrder key l).map key).Pairwise (· ≤ ·) :=
      pairwise_map.2 (pairwise_inOrder key l)
    have hrange : ((range l.length).map fun i : ℕ => (i : ℤ)).Pairwise (· ≤ ·) := by
      rw [pairwise_map]
      exact pairwise_lt_range.imp fun h => by omega
    apply @Perm.eq_of_pairwise _ (fun a b : ℤ => a ≤ b) _ _ _ hsorted hrange
    · exact ((inOrder_perm key l).map key).trans h
    · exact fun a b _ _ hab hba => le_antisymm hab hba
  · intro h
    rw [Dense, ← h]
    exact ((inOrder_perm key l).map key).symm

theorem Dense.getElem_inOrder (h : Dense key l) (i : ℕ) (hi : i < (inOrder key l).length) :
    key (inOrder key l)[i] = i := by
  have hget := congrArg (fun m : List ℤ => m[i]?) (dense_iff_inOrder.1 h)
  have hlt : i < l.length := by simpa [length_inOrder] using hi
  simpa [hi, hlt] using hget

/-- The elements of a list with rising keys are numbered when the list is dense. -/
theorem dense_iff_getElem (hl : l.Pairwise fun a b => key a < key b) :
    Dense key l ↔ ∀ i (hi : i < l.length), key l[i] = i := by
  refine ⟨fun h i hi => ?_, dense_of_getElem⟩
  have hself : inOrder key l = l := inOrder_eq_of_perm hl (Perm.refl l)
  have := h.getElem_inOrder i (by rwa [hself])
  simpa only [hself] using this

end List
