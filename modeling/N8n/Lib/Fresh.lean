import Mathlib.Algebra.Order.Ring.Nat

/-!
# Looking for a fresh value

A loop changes a value as long as it is taken.  When each change makes it larger and finitely many
values are taken, as many rounds as there are taken values are enough to leave the loop.

* `whileDo`: the loop, with a bound on its rounds;
* `whileDo_eq_false`: its result is not taken;
* `firstFree`: the first value of a sequence that is not taken;
* `numberedName`: a name, then the name with `1`, `2` and so on behind it.
-/

universe u v

variable {α : Type u} {β : Type v} {p : α → Bool} {f : α → α}

/-- `while (p a) a = f a`, for `n` rounds at most. -/
def whileDo (p : α → Bool) (f : α → α) : ℕ → α → α
  | 0, a => a
  | n + 1, a => if p a then whileDo p f n (f a) else a

/-- A change leaves fewer taken values that are at least as large. -/
theorem countP_succ_le {taken : List β} {μ : β → ℕ} {b b' : β} (hb : b ∈ taken) (hlt : μ b < μ b') :
    taken.countP (fun x => μ b' ≤ μ x) + 1 ≤ taken.countP fun x => μ b ≤ μ x := by
  induction taken with
  | nil => cases hb
  | cons x taken ih =>
    have hmono : taken.countP (fun x => μ b' ≤ μ x) ≤ taken.countP fun x => μ b ≤ μ x :=
      List.countP_mono_left fun y _ hy => by
        rw [decide_eq_true_iff] at hy ⊢
        omega
    rw [List.countP_cons, List.countP_cons]
    rcases List.mem_cons.1 hb with rfl | hb
    · rw [if_neg (by simpa using hlt), if_pos (by simp)]
      omega
    · have hrest := ih hb
      by_cases hx : μ b' ≤ μ x
      · rw [if_pos (by simpa using hx), if_pos (by simpa using (hlt.trans_le hx).le)]
        omega
      · rw [if_neg (by simpa using hx)]
        omega

/-- **The loop ends with a value that is not taken.** -/
theorem whileDo_eq_false (taken : List β) (k : α → β) (μ : β → ℕ)
    (hp : ∀ a, p a = true → k a ∈ taken) (hf : ∀ a, μ (k a) < μ (k (f a))) {n : ℕ}
    (hn : taken.length ≤ n) (a : α) : p (whileDo p f n a) = false := by
  suffices ∀ a, taken.countP (fun x => μ (k a) ≤ μ x) ≤ n → p (whileDo p f n a) = false from
    this a (List.countP_le_length.trans hn)
  clear hn a
  induction n with
  | zero =>
    intro a hcount
    rw [whileDo]
    by_contra hpa
    have hpos := countP_succ_le (hp a (Bool.not_eq_false _ ▸ hpa)) (hf a)
    omega
  | succ n ih =>
    intro a hcount
    rw [whileDo]
    split_ifs with hpa
    · have hless := countP_succ_le (hp a hpa) (hf a)
      exact ih (f a) (by omega)
    · exact Bool.not_eq_true _ ▸ hpa

/-! ### Sequences of names -/

variable [DecidableEq β]

/-- The first value of the sequence that is not taken. -/
def firstFree (name : ℕ → β) (taken : List β) : β :=
  name (whileDo (fun i => decide (name i ∈ taken)) (· + 1) taken.length 0)

theorem firstFree_not_mem {name : ℕ → β} (hname : Function.Injective name) (taken : List β) :
    firstFree name taken ∉ taken := by
  have hindex : ∀ i, Function.invFun name (name i) = i := Function.leftInverse_invFun hname
  have hfree := whileDo_eq_false (p := fun i => decide (name i ∈ taken)) (f := (· + 1)) taken name
    (Function.invFun name) (fun i hi => of_decide_eq_true hi)
    (fun i => by rw [hindex, hindex]; omega) le_rfl 0
  exact of_decide_eq_false hfree

/-- The name itself, then the name with `1`, `2` and so on behind it. -/
def numberedName (base : String) : ℕ → String
  | 0 => base
  | counter + 1 => base ++ toString (counter + 1)
