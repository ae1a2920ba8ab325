import Mathlib.Data.List.Infix

/-!
# Escaped texts

* `escape`: an escape symbol is put before each symbol that has a meaning inside quotes;
* `unescape`: one kind of escaped symbol is replaced by the symbol, from left to right;
* `foldl_unescape_eq_self_iff`: when replacing several kinds, one after the other, changes nothing.
-/

universe u

variable {α : Type u} [DecidableEq α]

/-- A text with `e` before each `e` and each quote `q`. -/
def escape (e q : α) (s : List α) : List α := s.flatMap fun a => if a = e ∨ a = q then [e, a] else [a]

@[simp] theorem escape_nil (e q : α) : escape e q [] = [] := rfl

theorem escape_cons (e q a : α) (s : List α) :
    escape e q (a :: s) = (if a = e ∨ a = q then [e, a] else [a]) ++ escape e q s := rfl

/-- A text is its own escape up to the first symbol that is escaped. -/
theorem escape_cases (e q : α) (s : List α) : escape e q s = s ∨
    ∃ t a u, (a = e ∨ a = q) ∧ s = t ++ a :: u ∧ escape e q s = t ++ e :: a :: escape e q u := by
  induction s with
  | nil => exact .inl rfl
  | cons a s ih =>
    rw [escape_cons]
    split_ifs with ha
    · exact .inr ⟨[], a, s, ha, rfl, rfl⟩
    · rcases ih with hs | ⟨t, b, u, hb, rfl, hs⟩
      · exact .inl (by rw [hs, List.singleton_append])
      · exact .inr ⟨a :: t, b, u, hb, rfl, by rw [hs, List.singleton_append, List.cons_append]⟩

/-- Each `c` behind an `e` replaces the two. -/
def unescape (e c : α) : List α → List α
  | a :: b :: s => if a = e ∧ b = c then c :: unescape e c s else a :: unescape e c (b :: s)
  | [a] => [a]
  | [] => []

theorem length_unescape_le (e c : α) (s : List α) : (unescape e c s).length ≤ s.length := by
  fun_induction unescape e c s with
  | case1 a b s h ih => simp only [List.length_cons]; omega
  | case2 a b s h ih => simpa using ih
  | case3 a => exact le_rfl
  | case4 => exact le_rfl

/-- A text that keeps its length has no escaped `c`. -/
theorem length_unescape_eq_iff {e c : α} {s : List α} :
    (unescape e c s).length = s.length ↔ ¬[e, c] <:+: s := by
  fun_induction unescape e c s with
  | case1 a b s h ih =>
    obtain ⟨rfl, rfl⟩ := h
    have hle := length_unescape_le a b s
    refine iff_of_false (fun h => ?_) fun h => h ⟨[], s, rfl⟩
    simp only [List.length_cons] at h
    omega
  | case2 a b s h ih =>
    rw [List.length_cons, List.length_cons, Nat.add_right_cancel_iff, ih]
    refine not_congr ⟨fun hs => hs.trans (List.suffix_cons a _).isInfix, fun hs => ?_⟩
    rcases List.infix_cons_iff.1 hs with hs | hs
    · rw [List.cons_prefix_cons, List.cons_prefix_cons] at hs
      exact absurd ⟨hs.1.symm, hs.2.1.symm⟩ h
    · exact hs
  | case3 a => simp [List.infix_cons_iff]
  | case4 => simp

/-- A text is not changed when it has no escaped `c`. -/
theorem unescape_eq_self_iff {e c : α} {s : List α} : unescape e c s = s ↔ ¬[e, c] <:+: s := by
  refine ⟨fun h => length_unescape_eq_iff.1 (congrArg List.length h), fun h => ?_⟩
  fun_induction unescape e c s with
  | case1 a b s hab ih =>
    obtain ⟨rfl, rfl⟩ := hab
    exact absurd ⟨[], s, rfl⟩ h
  | case2 a b s hab ih =>
    rw [ih fun hs => h (hs.trans (List.suffix_cons a _).isInfix)]
  | case3 a => rfl
  | case4 => rfl

theorem length_foldl_unescape_le (e : α) (cs s : List α) :
    (cs.foldl (fun s c => unescape e c s) s).length ≤ s.length := by
  induction cs generalizing s with
  | nil => exact le_rfl
  | cons c cs ih => exact (ih _).trans (length_unescape_le e c s)

/-- **Replacing several kinds of escaped symbols** changes every text that has one of them. -/
theorem foldl_unescape_eq_self_iff {e : α} {cs s : List α} :
    cs.foldl (fun s c => unescape e c s) s = s ↔ ∀ c ∈ cs, ¬[e, c] <:+: s := by
  induction cs with
  | nil => simp
  | cons c cs ih =>
    rw [List.foldl_cons, List.forall_mem_cons]
    constructor
    · intro h
      have hle := length_foldl_unescape_le e cs (unescape e c s)
      rw [h] at hle
      have hc : ¬[e, c] <:+: s :=
        length_unescape_eq_iff.1 (le_antisymm (length_unescape_le e c s) hle)
      rw [unescape_eq_self_iff.2 hc] at h
      exact ⟨hc, ih.1 h⟩
    · rintro ⟨hc, hcs⟩
      rw [unescape_eq_self_iff.2 hc]
      exact ih.2 hcs
