import Mathlib.Data.List.Count
import Mathlib.Order.Lattice

/-!
# Layers of blocks

Blocks of consecutive numbers are laid over each other, and each number is as high as the blocks
that have it.

* `noValley_of_height_eq_length`: if a number is in all blocks there is no valley;
* `Greedy`: each block is laid from the least number left up to the next one that is not left;
* `Greedy.mem_iff`: without a valley, block `k` of such a list has the numbers higher than `k`.
-/

namespace Layers

/-- Consecutive numbers. -/
structure Block where
  first : ℕ
  length : ℕ

instance : Membership ℕ Block := ⟨fun b i => b.first ≤ i ∧ i < b.first + b.length⟩

theorem mem_iff {b : Block} {i : ℕ} : i ∈ b ↔ b.first ≤ i ∧ i < b.first + b.length := Iff.rfl

instance (b : Block) (i : ℕ) : Decidable (i ∈ b) := decidable_of_iff _ mem_iff.symm

/-- The number of blocks that have a number. -/
def height (bs : List Block) (i : ℕ) : ℕ := bs.countP (i ∈ ·)

/-- No number is lower than one before it and one after it. -/
def NoValley (n : ℕ → ℕ) : Prop := ∀ i j k, i < j → j < k → min (n i) (n k) ≤ n j

variable {bs : List Block} {b : Block}

variable (i : ℕ)

@[simp] theorem height_nil : height [] i = 0 := rfl

theorem height_cons : height (b :: bs) i = height bs i + if i ∈ b then 1 else 0 := by
  rw [height, List.countP_cons, height]
  simp

theorem height_le_length : height bs i ≤ bs.length := List.countP_le_length

theorem height_eq_zero_iff {i : ℕ} : height bs i = 0 ↔ ∀ b ∈ bs, i ∉ b := by
  rw [height, List.countP_eq_zero]
  simp

/-- If a number is in all blocks there is no valley. -/
theorem noValley_of_height_eq_length {p : ℕ} (h : height bs p = bs.length) :
    NoValley (height bs) := by
  have hall : ∀ b ∈ bs, p ∈ b := by
    simpa using List.countP_eq_length.1 h
  intro i j k hij hjk
  rcases le_total j p with hjp | hpj
  · refine (min_le_left _ _).trans (List.countP_mono_left fun b hb hi => ?_)
    have hp := mem_iff.1 (hall b hb)
    have hi := mem_iff.1 (of_decide_eq_true hi)
    exact decide_eq_true (mem_iff.2 (by omega))
  · refine (min_le_right _ _).trans (List.countP_mono_left fun b hb hk => ?_)
    have hp := mem_iff.1 (hall b hb)
    have hk := mem_iff.1 (of_decide_eq_true hk)
    exact decide_eq_true (mem_iff.2 (by omega))

/-- Each block starts at the least number of the blocks left, and the number after its last one is
in none of them. -/
def Greedy : List Block → Prop
  | [] => True
  | b :: bs => 0 < b.length ∧
      (∀ b' ∈ bs, ∀ i ∈ b', b.first ≤ i ∧ i ≠ b.first + b.length) ∧ Greedy bs

/-- Without a valley the first block has all numbers of the blocks left. -/
theorem Greedy.mem_of_height_ne_zero (h : Greedy (b :: bs)) (hn : NoValley (height (b :: bs)))
    {i : ℕ} (hi : height (b :: bs) i ≠ 0) : i ∈ b := by
  obtain ⟨hpos, hlater, -⟩ := h
  by_contra hnot
  have hex : ∃ b' ∈ bs, i ∈ b' := by
    by_contra hnone
    push Not at hnone
    rw [height_cons, if_neg hnot, height_eq_zero_iff.2 hnone] at hi
    exact hi rfl
  obtain ⟨b', hb', hib'⟩ := hex
  obtain ⟨hle, hne⟩ := hlater b' hb' i hib'
  -- the number after the block is lower than its first number and than `i`
  have hend : height (b :: bs) (b.first + b.length) = 0 := by
    refine height_eq_zero_iff.2 (List.forall_mem_cons.2 ⟨fun hb => ?_, fun b₁ hb₁ hmem => ?_⟩)
    · exact absurd (mem_iff.1 hb).2 (lt_irrefl _)
    · exact (hlater b₁ hb₁ _ hmem).2 rfl
  have hfirst : height (b :: bs) b.first ≠ 0 := fun hzero =>
    height_eq_zero_iff.1 hzero b (by simp) (mem_iff.2 ⟨le_rfl, by omega⟩)
  have hlt : b.first + b.length < i := by
    have : ¬(b.first ≤ i ∧ i < b.first + b.length) := fun h => hnot (mem_iff.2 h)
    omega
  have := hn b.first (b.first + b.length) i (by omega) hlt
  omega

/-- **Block `k`** has the numbers that are higher than `k`. -/
theorem Greedy.mem_iff (h : Greedy bs) (hn : NoValley (height bs)) {k : ℕ} {b : Block}
    (hb : bs[k]? = some b) (i : ℕ) : i ∈ b ↔ k < height bs i := by
  induction bs generalizing k with
  | nil => cases hb
  | cons b₀ bs ih =>
    have hmem : ∀ i, i ∈ b₀ ↔ height (b₀ :: bs) i ≠ 0 := fun i => by
      refine ⟨fun hi hzero => ?_, h.mem_of_height_ne_zero hn⟩
      exact height_eq_zero_iff.1 hzero b₀ (by simp) hi
    have hheight : ∀ i, height bs i = height (b₀ :: bs) i - 1 := fun i => by
      by_cases hi : i ∈ b₀
      · rw [height_cons, if_pos hi, Nat.add_sub_cancel]
      · have hzero := not_not.1 (mt (hmem i).2 hi)
        rw [hzero]
        rw [height_cons, if_neg hi] at hzero
        exact hzero
    cases k with
    | zero =>
      cases hb
      rw [hmem]
      omega
    | succ k =>
      have hn' : NoValley (height bs) := fun i j k hij hjk => by
        rw [hheight, hheight, hheight]
        have := hn i j k hij hjk
        omega
      rw [ih h.2.2 hn' hb, hheight]
      omega

/-- Without a valley some number is in all blocks. -/
theorem Greedy.exists_height_eq_length (h : Greedy bs) (hn : NoValley (height bs)) :
    ∃ p, height bs p = bs.length := by
  rcases List.eq_nil_or_concat bs with rfl | ⟨bs', b, rfl⟩
  · exact ⟨0, rfl⟩
  · have hlast : (bs'.concat b)[bs'.length]? = some b := by simp
    have hpos : ∀ {bs : List Block}, Greedy bs → ∀ b ∈ bs, 0 < b.length := fun {bs} h => by
      induction bs with
      | nil => exact fun b hb => absurd hb List.not_mem_nil
      | cons b bs ih => exact List.forall_mem_cons.2 ⟨h.1, ih h.2.2⟩
    have hfirst : b.first ∈ b :=
      Layers.mem_iff.2 ⟨le_rfl, Nat.lt_add_of_pos_right (hpos h b (by simp))⟩
    refine ⟨b.first, le_antisymm (height_le_length _) ?_⟩
    rw [List.length_concat]
    exact (h.mem_iff hn hlast _).1 hfirst

end Layers
