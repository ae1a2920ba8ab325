import N8n.Lib.Dict
import Mathlib.Order.Nat

/-!
# Maps from indexes

`IndexMap α` is a finite map from natural numbers whose entries are listed by ascending key, the
order in which a script engine enumerates the integer keys of an object.  A script array is a finite
list of cells, some of which were never written: `none` is such a hole, `some a` a written cell.
Writing past the end extends the array with holes.

* `IndexMap.get?`, `IndexMap.set`, `IndexMap.erase`, `IndexMap.keys`, `IndexMap.size`;
* `IndexMap.get?_set`, `IndexMap.get?_erase`: the equations of a finite map;
* `IndexMap.entries_set_perm`, `IndexMap.entries_erase_perm`: what writing and deleting do to the
  entries as a multiset;
* `SparseArray.getAt`, `SparseArray.setAt`: reading and writing at an index of an array;
* `SparseArray.getAt_setAt`, `SparseArray.length_setAt`: what a write changes;
* `SparseArray.present`: the written cells, in order.
-/

universe u v

namespace EntryList

variable {α : Type v}

/-- Write `a` at index `k` of an ascending list of entries. -/
def insertAt (k : ℕ) (a : α) : List (ℕ × α) → List (ℕ × α)
  | [] => [(k, a)]
  | (k', a') :: l =>
    if k < k' then (k, a) :: (k', a') :: l
    else if k = k' then (k, a) :: l
    else (k', a') :: insertAt k a l

variable {k : ℕ} {a : α} {l : List (ℕ × α)}

theorem mem_insertAt {e : ℕ × α} (h : e ∈ insertAt k a l) : e = (k, a) ∨ e ∈ l := by
  induction l with
  | nil => exact Or.inl (List.mem_singleton.1 h)
  | cons e' l ih =>
    obtain ⟨k', a'⟩ := e'
    rw [insertAt] at h
    split_ifs at h with h1 h2
    · exact List.mem_cons.1 h
    · exact (List.mem_cons.1 h).imp_right (List.mem_cons_of_mem _)
    · rcases List.mem_cons.1 h with h | h
      · exact Or.inr (h ▸ List.mem_cons_self)
      · exact (ih h).imp_right (List.mem_cons_of_mem _)

theorem pairwise_insertAt (h : l.Pairwise fun e e' => e.1 < e'.1) :
    (insertAt k a l).Pairwise fun e e' => e.1 < e'.1 := by
  induction l with
  | nil => exact List.pairwise_singleton _ _
  | cons e l ih =>
    obtain ⟨k', a'⟩ := e
    obtain ⟨h1, h2⟩ := List.pairwise_cons.1 h
    rw [insertAt]
    split_ifs with hlt heq
    · refine List.pairwise_cons.2 ⟨fun e he => ?_, h⟩
      rcases List.mem_cons.1 he with rfl | he
      · exact hlt
      · exact hlt.trans (h1 e he)
    · subst heq
      exact List.pairwise_cons.2 ⟨h1, h2⟩
    · refine List.pairwise_cons.2 ⟨fun e he => ?_, ih h2⟩
      rcases mem_insertAt he with rfl | he
      · show k' < k; omega
      · exact h1 e he

theorem lookup_insertAt (k k' : ℕ) (a : α) (l : List (ℕ × α))
    (h : l.Pairwise fun e e' => e.1 < e'.1) :
    lookup k' (insertAt k a l) = if k' = k then some a else lookup k' l := by
  induction l with
  | nil => simp only [insertAt, lookup, eq_comm]
  | cons e l ih =>
    obtain ⟨k₁, a₁⟩ := e
    obtain ⟨h1, h2⟩ := List.pairwise_cons.1 h
    by_cases hlt : k < k₁
    · rw [insertAt, if_pos hlt]
      simp only [lookup, eq_comm]
    · by_cases heq : k = k₁
      · subst heq
        rw [insertAt, if_neg hlt, if_pos rfl]
        by_cases hk : k = k'
        · simp [lookup, hk]
        · simp [lookup, hk, Ne.symm hk]
      · rw [insertAt, if_neg hlt, if_neg heq, lookup, ih h2, lookup]
        by_cases hk : k' = k
        · rw [if_pos hk, if_pos hk, if_neg (fun h' => heq (hk.symm.trans h'.symm))]
        · rw [if_neg hk, if_neg hk]

theorem nodup_of_pairwise_lt (h : l.Pairwise fun e e' => e.1 < e'.1) : (l.map Prod.fst).Nodup :=
  List.pairwise_map.2 (h.imp fun hlt => Nat.ne_of_lt hlt)

/-- Writing at an index is consing the entry onto the entries with other indexes. -/
theorem insertAt_perm (k : ℕ) (a : α) (l : List (ℕ × α)) (h : l.Pairwise fun e e' => e.1 < e'.1) :
    (insertAt k a l).Perm ((k, a) :: drop k l) := by
  induction l with
  | nil => exact List.Perm.refl _
  | cons e l ih =>
    obtain ⟨k', a'⟩ := e
    obtain ⟨h1, h2⟩ := List.pairwise_cons.1 h
    have hdrop : ∀ m, m ≤ k' → drop m l = l := fun m hm =>
      List.filter_eq_self.2 fun e he => decide_eq_true (by have := h1 e he; simp only at this; omega)
    rw [insertAt]
    split_ifs with hlt heq
    · rw [drop_cons_ne (by omega), hdrop k hlt.le]
    · subst heq
      rw [drop_cons_self, hdrop k le_rfl]
    · rw [drop_cons_ne (Ne.symm heq)]
      exact ((ih h2).cons (k', a')).trans (List.Perm.swap _ _ _)

end EntryList

/-- A finite map from indexes, listed by ascending index. -/
structure IndexMap (α : Type v) where
  entries : List (ℕ × α)
  sorted : entries.Pairwise fun e e' => e.1 < e'.1
  deriving DecidableEq

namespace IndexMap

variable {α : Type v}

/-- The map without indexes. -/
def empty : IndexMap α := ⟨[], List.Pairwise.nil⟩

instance : Inhabited (IndexMap α) := ⟨empty⟩

/-- The value at index `k`. -/
def get? (m : IndexMap α) (k : ℕ) : Option α := EntryList.lookup k m.entries

/-- Write `a` at index `k`. -/
def set (m : IndexMap α) (k : ℕ) (a : α) : IndexMap α :=
  ⟨EntryList.insertAt k a m.entries, EntryList.pairwise_insertAt m.sorted⟩

/-- Delete index `k`. -/
def erase (m : IndexMap α) (k : ℕ) : IndexMap α :=
  ⟨EntryList.drop k m.entries, m.sorted.sublist List.filter_sublist⟩

/-- The indexes, ascending. -/
def keys (m : IndexMap α) : List ℕ := m.entries.map Prod.fst

/-- How many indexes have a value. -/
def size (m : IndexMap α) : ℕ := m.entries.length

/-- A map with one entry. -/
def single (k : ℕ) (a : α) : IndexMap α := empty.set k a

@[simp] theorem get?_empty (k : ℕ) : (empty : IndexMap α).get? k = none := rfl

@[simp] theorem entries_empty : (empty : IndexMap α).entries = [] := rfl

@[simp] theorem size_empty : (empty : IndexMap α).size = 0 := rfl

variable (m : IndexMap α)

theorem get?_set (k k' : ℕ) (a : α) : (m.set k a).get? k' = if k' = k then some a else m.get? k' :=
  EntryList.lookup_insertAt k k' a m.entries m.sorted

@[simp] theorem get?_set_self (k : ℕ) (a : α) : (m.set k a).get? k = some a := by
  rw [get?_set, if_pos rfl]

theorem get?_set_ne {k k' : ℕ} (a : α) (h : k' ≠ k) : (m.set k a).get? k' = m.get? k' := by
  rw [get?_set, if_neg h]

theorem get?_erase (k k' : ℕ) : (m.erase k).get? k' = if k' = k then none else m.get? k' :=
  EntryList.lookup_drop k k' m.entries

theorem mem_entries_iff (k : ℕ) (a : α) : (k, a) ∈ m.entries ↔ m.get? k = some a :=
  EntryList.mem_iff_lookup (EntryList.nodup_of_pairwise_lt m.sorted) k a

theorem mem_keys_iff (k : ℕ) : k ∈ m.keys ↔ (m.get? k).isSome :=
  (EntryList.lookup_isSome_iff k m.entries).symm

theorem keys_nodup : m.keys.Nodup := EntryList.nodup_of_pairwise_lt m.sorted

/-- Maps with the same values are equal. -/
theorem ext_get? {m m' : IndexMap α} (h : ∀ k, m.get? k = m'.get? k) : m = m' := by
  have hperm : m.entries.Perm m'.entries := by
    refine (List.perm_ext_iff_of_nodup ?_ ?_).2 fun e => ?_
    · exact List.Nodup.of_map Prod.fst m.keys_nodup
    · exact List.Nodup.of_map Prod.fst m'.keys_nodup
    · rw [← Prod.mk.eta (p := e), mem_entries_iff, mem_entries_iff, h]
  have heq : m.entries = m'.entries :=
    hperm.eq_of_pairwise (fun e e' _ _ h1 h2 => absurd (lt_trans h1 h2) (lt_irrefl _)) m.sorted
      m'.sorted
  cases m
  cases m'
  cases heq
  rfl

theorem erase_set (k : ℕ) (a : α) : (m.set k a).erase k = m.erase k := by
  refine ext_get? fun k' => ?_
  rw [get?_erase, get?_erase, get?_set]
  split_ifs <;> rfl

theorem entries_set_perm (k : ℕ) (a : α) :
    (m.set k a).entries.Perm ((k, a) :: (m.erase k).entries) :=
  EntryList.insertAt_perm k a m.entries m.sorted

/-- Deleting an index removes exactly its entry. -/
theorem entries_erase_perm {k : ℕ} {a : α} (h : m.get? k = some a) :
    m.entries.Perm ((k, a) :: (m.erase k).entries) := by
  have hset : (m.set k a).entries.Perm m.entries := by
    refine (List.perm_ext_iff_of_nodup ?_ ?_).2 fun e => ?_
    · exact List.Nodup.of_map Prod.fst (m.set k a).keys_nodup
    · exact List.Nodup.of_map Prod.fst m.keys_nodup
    · rw [← Prod.mk.eta (p := e), mem_entries_iff, mem_entries_iff, get?_set]
      split_ifs with hk
      · rw [hk, h]
      · exact Iff.rfl
  exact hset.symm.trans (m.entries_set_perm k a)

theorem entries_erase_of_none {k : ℕ} (h : m.get? k = none) : (m.erase k).entries = m.entries := by
  refine List.filter_eq_self.2 fun e he => decide_eq_true fun hk => ?_
  have := (m.mem_entries_iff e.1 e.2).1 he
  rw [hk, h] at this
  cases this

theorem size_erase {k : ℕ} {a : α} (h : m.get? k = some a) : (m.erase k).size + 1 = m.size := by
  have := (m.entries_erase_perm h).length_eq
  simpa [size] using this.symm

theorem size_set_of_none {k : ℕ} (a : α) (h : m.get? k = none) : (m.set k a).size = m.size + 1 := by
  have := (m.entries_set_perm k a).length_eq
  rw [List.length_cons, entries_erase_of_none m h] at this
  exact this

theorem size_set_of_some {k : ℕ} (a : α) {b : α} (h : m.get? k = some b) :
    (m.set k a).size = m.size := by
  have h1 := (m.entries_set_perm k a).length_eq
  have h2 := m.size_erase h
  rw [List.length_cons] at h1
  exact h1.trans h2

theorem size_set_le (k : ℕ) (a : α) : (m.set k a).size ≤ m.size + 1 := by
  cases h : m.get? k with
  | none => rw [size_set_of_none m a h]
  | some b =>
    rw [size_set_of_some m a h]
    exact Nat.le_succ _

theorem eq_empty_of_size_eq_zero {m : IndexMap α} (h : m.size = 0) : m = empty := by
  cases m with
  | mk entries sorted =>
    cases List.eq_nil_of_length_eq_zero h
    rfl

end IndexMap

/-- An array whose unwritten cells are `none`. -/
abbrev SparseArray (α : Type u) := List (Option α)

namespace SparseArray

variable {α : Type u} {β : Type v}

/-- The written value at index `i`; none at a hole and past the end. -/
def getAt : SparseArray α → ℕ → Option α
  | [], _ => none
  | c :: _, 0 => c
  | _ :: l, i + 1 => getAt l i

/-- Write `a` at index `i`, extending the array with holes as far as needed. -/
def setAt : SparseArray α → ℕ → α → SparseArray α
  | [], 0, a => [some a]
  | [], i + 1, a => none :: setAt [] i a
  | _ :: l, 0, a => some a :: l
  | c :: l, i + 1, a => c :: setAt l i a

/-- The written values, in order. -/
def present (l : SparseArray α) : List α := l.filterMap id

/-- Apply `f` to every written value; holes stay holes. -/
def mapCells (f : α → β) (l : SparseArray α) : SparseArray β := l.map (Option.map f)

@[simp] theorem getAt_nil (i : ℕ) : getAt ([] : SparseArray α) i = none := by cases i <;> rfl

variable (l : SparseArray α)

theorem getAt_eq_getElem? (i : ℕ) : getAt l i = (l[i]?).bind id := by
  induction l generalizing i with
  | nil => simp
  | cons c l ih =>
    cases i with
    | zero => rfl
    | succ i => exact ih i

theorem getAt_setAt (i j : ℕ) (a : α) :
    getAt (setAt l i a) j = if j = i then some a else getAt l j := by
  induction l generalizing i j with
  | nil =>
    induction i generalizing j with
    | zero => cases j <;> simp [setAt, getAt]
    | succ i ih => cases j <;> simp [setAt, getAt, ih]
  | cons c l ih => cases i <;> cases j <;> simp [setAt, getAt, ih]

@[simp] theorem getAt_setAt_self (i : ℕ) (a : α) : getAt (setAt l i a) i = some a := by
  rw [getAt_setAt, if_pos rfl]

theorem length_setAt (i : ℕ) (a : α) : (setAt l i a).length = max l.length (i + 1) := by
  induction l generalizing i with
  | nil =>
    induction i with
    | zero => rfl
    | succ i ih => simp only [setAt, List.length_cons, ih, List.length_nil]; omega
  | cons c l ih => cases i <;> simp only [setAt, List.length_cons, ih] <;> omega

theorem getAt_replicate (n i : ℕ) (a : α) :
    getAt (List.replicate n (some a)) i = if i < n then some a else none := by
  induction n generalizing i with
  | zero => simp
  | succ n ih => cases i <;> simp [List.replicate_succ, getAt, ih]

/-- A value is among the written ones exactly when some index holds it. -/
theorem mem_present_iff (a : α) : a ∈ present l ↔ ∃ i, getAt l i = some a := by
  induction l with
  | nil => simp [present]
  | cons c l ih =>
    have hcons : (∃ i, getAt (c :: l) i = some a) ↔ c = some a ∨ ∃ i, getAt l i = some a := by
      constructor
      · rintro ⟨_ | i, h⟩
        · exact Or.inl h
        · exact Or.inr ⟨i, h⟩
      · rintro (h | ⟨i, h⟩)
        · exact ⟨0, h⟩
        · exact ⟨i + 1, h⟩
    rw [hcons, ← ih]
    cases c with
    | none => simp [present]
    | some b => simp [present, eq_comm]

end SparseArray
