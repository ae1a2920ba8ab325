import Mathlib.Tactic.Common

/-!
# A loop that is tested at its end

* `DoWhile.run body again`: `do result = body() while (again(result))`, for at most so many turns;
* `run_invariant`: what a turn keeps, the loop keeps;
* `exists_run`: a measure that falls whenever the loop goes on;
* `run_eq_none`: a loop that goes on for ever;
* `andThen`: loops in sequence.
-/

universe u v

namespace DoWhile

variable {σ : Type u} {β : Type v} {body : σ → σ × β} {again : β → Bool}

/-- The state and the last result when the loop ends within `fuel` turns. -/
def run (body : σ → σ × β) (again : β → Bool) : ℕ → σ → Option (σ × β)
  | 0, _ => none
  | fuel + 1, s =>
    if again (body s).2 then run body again fuel (body s).1 else some (body s)

variable {s : σ} {fuel : ℕ} {r : σ × β}

theorem run_succ_of_again (h : again (body s).2 = true) (fuel : ℕ) :
    run body again (fuel + 1) s = run body again fuel (body s).1 := by
  rw [run, if_pos h]

theorem run_succ_of_stops (h : again (body s).2 = false) (fuel : ℕ) :
    run body again (fuel + 1) s = some (body s) := by
  rw [run, if_neg (by simp [h])]

/-- More fuel does not change a result. -/
theorem run_mono {fuel' : ℕ} (hle : fuel ≤ fuel') (h : run body again fuel s = some r) :
    run body again fuel' s = some r := by
  induction fuel generalizing s fuel' with
  | zero => cases h
  | succ fuel ih =>
    obtain ⟨d, rfl⟩ := Nat.exists_eq_add_of_le' hle
    cases hagain : again (body s).2 with
    | true =>
      rw [run_succ_of_again hagain] at h
      rw [← Nat.add_assoc, run_succ_of_again hagain]
      exact ih (Nat.le_add_left _ _) h
    | false =>
      rw [run_succ_of_stops hagain] at h
      rw [← Nat.add_assoc, run_succ_of_stops hagain, h]

/-- The result does not depend on the fuel. -/
theorem run_unique {fuel' : ℕ} {r' : σ × β} (h : run body again fuel s = some r)
    (h' : run body again fuel' s = some r') : r = r' := by
  have hmax := run_mono (Nat.le_max_left fuel fuel') h
  rw [run_mono (Nat.le_max_right fuel fuel') h'] at hmax
  exact (Option.some.inj hmax).symm

/-- **The invariant of the loop.** -/
theorem run_invariant {I : σ → Prop} (hbody : ∀ s, I s → I (body s).1) (hs : I s)
    (h : run body again fuel s = some r) : I r.1 := by
  induction fuel generalizing s with
  | zero => cases h
  | succ fuel ih =>
    cases hagain : again (body s).2 with
    | true =>
      rw [run_succ_of_again hagain] at h
      exact ih (hbody s hs) h
    | false =>
      rw [run_succ_of_stops hagain, Option.some.injEq] at h
      exact h ▸ hbody s hs

/-- The loop ends when a measure falls in every turn after which it goes on. -/
theorem exists_run (m : σ → ℕ) (hbody : ∀ s, again (body s).2 = true → m (body s).1 < m s)
    (s : σ) : ∃ fuel, (run body again fuel s).isSome = true := by
  induction hm : m s using Nat.strongRecOn generalizing s with
  | ind n ih =>
    cases hagain : again (body s).2 with
    | true =>
      obtain ⟨fuel, hfuel⟩ := ih _ (hm ▸ hbody s hagain) (body s).1 rfl
      exact ⟨fuel + 1, by rwa [run_succ_of_again hagain]⟩
    | false => exact ⟨1, by rw [run_succ_of_stops hagain]; rfl⟩

/-- A state after which the loop goes on, and which a turn leads to another such state, is one that
it never ends from. -/
theorem run_eq_none {P : σ → Prop} (hbody : ∀ s, P s → again (body s).2 = true ∧ P (body s).1)
    (hs : P s) (fuel : ℕ) : run body again fuel s = none := by
  induction fuel generalizing s with
  | zero => rfl
  | succ fuel ih =>
    rw [run_succ_of_again (hbody s hs).1]
    exact ih (hbody s hs).2

/-! ### Loops in sequence -/

section

variable {ε β' γ : Type v} {again' : Except ε β' → Bool} {body' : σ → σ × Except ε β'}

/-- Go on after a loop that ends without an error. -/
def andThen (r : Option (σ × Except ε β')) (f : σ → Option (σ × Except ε γ)) :
    Option (σ × Except ε γ) :=
  r.bind fun r =>
    match r with
    | (s, .ok _) => f s
    | (s, .error e) => some (s, .error e)

theorem andThen_eq_some {r : Option (σ × Except ε β')} {f : σ → Option (σ × Except ε γ)}
    {s' : σ} {b : Except ε γ} (h : andThen r f = some (s', b)) :
    (∃ e, r = some (s', .error e) ∧ b = .error e) ∨
      ∃ s a, r = some (s, .ok a) ∧ f s = some (s', b) := by
  obtain _ | ⟨s, e | a⟩ := r
  · cases h
  · cases h
    exact Or.inl ⟨e, rfl, rfl⟩
  · exact Or.inr ⟨s, a, rfl, h⟩

theorem exists_of_andThen {r : Option (σ × Except ε β')} {f : σ → Option (σ × Except ε γ)}
    {r' : σ × Except ε γ} (h : andThen r f = some r') : ∃ r₁, r = some r₁ := by
  cases r with
  | none => cases h
  | some r => exact ⟨r, rfl⟩

/-- What happens after a loop does not depend on the fuel, if it is enough. -/
theorem andThen_mono {f : ℕ → σ → Option (σ × Except ε γ)}
    (hf : ∀ {fuel fuel' : ℕ}, fuel ≤ fuel' → ∀ {s r}, f fuel s = some r → f fuel' s = some r)
    {fuel fuel' : ℕ} (hle : fuel ≤ fuel') {s : σ} {r : σ × Except ε γ}
    (h : andThen (run body' again' fuel s) (f fuel) = some r) :
    andThen (run body' again' fuel' s) (f fuel') = some r := by
  obtain ⟨s', b⟩ := r
  rcases andThen_eq_some h with ⟨e, hrun, rfl⟩ | ⟨s₁, a, hrun, hs'⟩
  · rw [run_mono hle hrun]
    rfl
  · rw [run_mono hle hrun]
    exact hf hle hs'

/-- Two things in sequence end when both do. -/
theorem exists_andThen {f : ℕ → σ → Option (σ × Except ε γ)}
    (hf : ∀ {fuel fuel' : ℕ}, fuel ≤ fuel' → ∀ {s r}, f fuel s = some r → f fuel' s = some r)
    {s s₁ : σ} {a : Except ε β'} {fuel : ℕ} (h : run body' again' fuel s = some (s₁, a))
    (hthen : ∀ b, a = .ok b → ∃ fuel', (f fuel' s₁).isSome = true) :
    ∃ fuel, (andThen (run body' again' fuel s) (f fuel)).isSome = true := by
  cases a with
  | error e => exact ⟨fuel, by rw [h]; rfl⟩
  | ok b =>
    obtain ⟨fuel', hfuel'⟩ := hthen b rfl
    obtain ⟨r, hr⟩ := Option.isSome_iff_exists.1 hfuel'
    refine ⟨max fuel fuel', ?_⟩
    rw [run_mono (Nat.le_max_left _ _) h]
    show (f _ s₁).isSome = true
    rw [hf (Nat.le_max_right _ _) hr]
    rfl

end

end DoWhile
