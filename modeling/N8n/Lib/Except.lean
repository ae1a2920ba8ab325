import Mathlib.Data.List.Forall2
import Mathlib.Algebra.GroupWithZero.Nat

/-!
# Computations that may fail

Inversion rules for `Except`: what a successful computation says about its parts.

* `Except.bind_eq_ok_iff`, `Except.bind_eq_error_iff`: a sequence succeeds when both parts do, and
  fails when one of them does;
* `Except.mapM_eq_ok_iff`, `Except.exists_mapM_eq_ok_iff`, `Except.foldlM_rel`,
  `Except.foldlM_le_add_sum`, `Except.foldlM_eq_ok_iff`: a successful loop;
* `Except.FailsOnly`: what the errors of a computation can be;
* `Except.Ends`: what its error or its result is;
* `Except.foldlM_again`: a loop that is run again on what it has left.
-/

universe u v

namespace Except

variable {ε : Type u} {α β σ : Type v}

variable {x : Except ε α} {l : List α} {f : σ → α → Except ε σ} {s s' : σ}

@[simp] theorem bind_eq_ok_iff {f : α → Except ε β} {b : β} :
    (x >>= f) = .ok b ↔ ∃ a, x = .ok a ∧ f a = .ok b := by
  cases x with
  | error e =>
    constructor
    · intro h
      cases h
    · rintro ⟨_, h, _⟩
      cases h
  | ok a =>
    constructor
    · exact fun h => ⟨a, rfl, h⟩
    · rintro ⟨_, h, h'⟩
      cases h
      exact h'

theorem bind_eq_error_iff {f : α → Except ε β} {e : ε} :
    (x >>= f) = .error e ↔ x = .error e ∨ ∃ a, x = .ok a ∧ f a = .error e := by
  cases x with
  | error e' =>
    constructor
    · intro h
      cases h
      exact Or.inl rfl
    · rintro (h | ⟨_, h, _⟩)
      · cases h
        rfl
      · cases h
  | ok a =>
    constructor
    · exact fun h => Or.inr ⟨a, rfl, h⟩
    · rintro (h | ⟨_, h, h'⟩)
      · cases h
      · cases h
        exact h'

@[simp] theorem pure_eq_ok_iff {a b : α} : (pure a : Except ε α) = .ok b ↔ a = b :=
  ⟨fun h => by cases h; rfl, fun h => h ▸ rfl⟩

@[simp] theorem map_eq_ok_iff {f : α → β} {b : β} : f <$> x = .ok b ↔ ∃ a, x = .ok a ∧ f a = b := by
  cases x with
  | error e =>
    constructor
    · intro h
      cases h
    · rintro ⟨_, h, _⟩
      cases h
  | ok a =>
    constructor
    · intro h
      cases h
      exact ⟨a, rfl, rfl⟩
    · rintro ⟨_, h, rfl⟩
      cases h
      rfl

/-- A loop that collects the results of its steps. -/
theorem mapM_eq_ok_iff {f : α → Except ε β} {l' : List β} :
    l.mapM f = .ok l' ↔ List.Forall₂ (fun a b => f a = .ok b) l l' := by
  induction l generalizing l' with
  | nil => rw [List.mapM_nil, pure_eq_ok_iff, List.forall₂_nil_left_iff, eq_comm]
  | cons a l ih =>
    rw [List.mapM_cons, List.forall₂_cons_left_iff]
    simp only [bind_eq_ok_iff, pure_eq_ok_iff, ih]
    exact ⟨fun ⟨b, hb, bs, hbs, h⟩ => ⟨b, bs, hb, hbs, h.symm⟩,
      fun ⟨b, bs, hb, hbs, h⟩ => ⟨b, hb, bs, hbs, h.symm⟩⟩

theorem exists_mapM_eq_ok_iff {f : α → Except ε β} :
    (∃ l', l.mapM f = .ok l') ↔ ∀ a ∈ l, ∃ b, f a = .ok b := by
  induction l with
  | nil => exact ⟨fun _ a ha => absurd ha List.not_mem_nil, fun _ => ⟨[], rfl⟩⟩
  | cons a l ih =>
    rw [List.forall_mem_cons, ← ih, List.mapM_cons]
    simp only [bind_eq_ok_iff, pure_eq_ok_iff]
    constructor
    · rintro ⟨_, b, hb, bs, hbs, -⟩
      exact ⟨⟨b, hb⟩, bs, hbs⟩
    · rintro ⟨⟨b, hb⟩, bs, hbs⟩
      exact ⟨b :: bs, b, hb, bs, hbs, rfl⟩

theorem foldlM_concat_eq_ok_iff {a : α} :
    (l ++ [a]).foldlM f s = .ok s' ↔ ∃ s₁, l.foldlM f s = .ok s₁ ∧ f s₁ a = .ok s' := by
  simp

/-- In a loop that succeeds every step does. -/
theorem exists_of_foldlM_eq_ok (h : l.foldlM f s = .ok s') : ∀ a ∈ l, ∃ s₁ s₂, f s₁ a = .ok s₂ := by
  induction l generalizing s with
  | nil => exact fun a ha => absurd ha List.not_mem_nil
  | cons a l ih =>
    rw [List.foldlM_cons, bind_eq_ok_iff] at h
    obtain ⟨s₁, h₁, h₂⟩ := h
    exact List.forall_mem_cons.2 ⟨⟨s, s₁, h₁⟩, ih h₂⟩

/-- A relation that is reflexive, transitive and holds between the states before and after each
successful step of a loop holds between those before and after the loop. -/
theorem foldlM_rel {R : σ → σ → Prop} (hrefl : ∀ s, R s s)
    (htrans : ∀ s₁ s₂ s₃, R s₁ s₂ → R s₂ s₃ → R s₁ s₃)
    (hstep : ∀ s a s', a ∈ l → f s a = .ok s' → R s s') (h : l.foldlM f s = .ok s') : R s s' := by
  induction l generalizing s with
  | nil => rw [List.foldlM_nil, pure_eq_ok_iff] at h; exact h ▸ hrefl s
  | cons a l ih =>
    rw [List.foldlM_cons, bind_eq_ok_iff] at h
    obtain ⟨s₁, h₁, h₂⟩ := h
    refine htrans _ _ _ (hstep s a s₁ List.mem_cons_self h₁) (ih ?_ h₂)
    exact fun s a s' ha => hstep s a s' (List.mem_cons_of_mem _ ha)

/-- A measure that each step of a loop raises by a cost at most is raised by the costs together. -/
theorem foldlM_le_add_sum {m : σ → ℕ} {cost : α → ℕ}
    (hstep : ∀ s a s', f s a = .ok s' → m s' ≤ m s + cost a) (h : l.foldlM f s = .ok s') :
    m s' ≤ m s + (l.map cost).sum := by
  induction l generalizing s with
  | nil =>
    rw [List.foldlM_nil, pure_eq_ok_iff] at h
    exact h ▸ Nat.le_add_right _ _
  | cons a l ih =>
    rw [List.foldlM_cons, bind_eq_ok_iff] at h
    obtain ⟨s₁, h₁, h₂⟩ := h
    have hhead := hstep s a s₁ h₁
    have hrest := ih h₂
    rw [List.map_cons, List.sum_cons]
    omega

/-- A loop whose steps succeed under a condition on the element only, and then do what a function
says, succeeds when the condition holds of all elements, and then does what the function does. -/
theorem foldlM_eq_ok_iff {g : σ → α → σ} {I : σ → Prop} {P : α → Prop}
    (hf : ∀ s a s', I s → (f s a = .ok s' ↔ P a ∧ s' = g s a)) (hI : ∀ s a, I s → I (g s a))
    (hs : I s) : l.foldlM f s = .ok s' ↔ (∀ a ∈ l, P a) ∧ s' = l.foldl g s := by
  induction l generalizing s with
  | nil =>
    rw [List.foldlM_nil, pure_eq_ok_iff, List.foldl_nil]
    exact ⟨fun h => ⟨(fun a ha => by cases ha), h.symm⟩, fun h => h.2.symm⟩
  | cons a l ih =>
    rw [List.foldlM_cons, bind_eq_ok_iff, List.forall_mem_cons, List.foldl_cons, and_assoc]
    constructor
    · rintro ⟨s₁, h₁, h₂⟩
      obtain ⟨ha, rfl⟩ := (hf s a s₁ hs).1 h₁
      exact ⟨ha, (ih (hI s a hs)).1 h₂⟩
    · rintro ⟨ha, h⟩
      exact ⟨g s a, (hf s a _ hs).2 ⟨ha, rfl⟩, (ih (hI s a hs)).2 h⟩

/-- A loop whose steps all succeed. -/
theorem foldlM_eq_ok_foldl {g : σ → α → σ} (h : ∀ s a, f s a = .ok (g s a)) (l : List α) (s : σ) :
    l.foldlM f s = .ok (l.foldl g s) := by
  induction l generalizing s with
  | nil => rfl
  | cons a l ih =>
    rw [List.foldlM_cons, h]
    exact ih (g s a)

/-! ### The errors of a computation -/

/-- Every error of the computation satisfies `P`. -/
def FailsOnly (P : ε → Prop) (x : Except ε α) : Prop := ∀ e, x = .error e → P e

variable {P : ε → Prop}

theorem failsOnly_ok (a : α) : FailsOnly P (.ok a : Except ε α) := fun _ h => by cases h

theorem failsOnly_error {e : ε} (h : P e) : FailsOnly P (.error e : Except ε α) := by
  intro e' he
  cases he
  exact h

theorem FailsOnly.imp {Q : ε → Prop} (h : FailsOnly P x) (hPQ : ∀ e, P e → Q e) :
    FailsOnly Q x := fun e he => hPQ e (h e he)

theorem FailsOnly.bind {f : α → Except ε β} (hx : FailsOnly P x)
    (hf : ∀ a, x = .ok a → FailsOnly P (f a)) : FailsOnly P (x >>= f) := by
  intro e he
  rcases bind_eq_error_iff.1 he with he | ⟨a, ha, he⟩
  · exact hx e he
  · exact hf a ha e he

theorem FailsOnly.map (hx : FailsOnly P x) (f : α → β) : FailsOnly P (f <$> x) := by
  cases x with
  | error e => exact failsOnly_error (hx e rfl)
  | ok a => exact failsOnly_ok (f a)

theorem FailsOnly.foldlM (hf : ∀ s a, FailsOnly P (f s a)) (l : List α) (s : σ) :
    FailsOnly P (l.foldlM f s) := by
  induction l generalizing s with
  | nil => exact failsOnly_ok s
  | cons a l ih =>
    rw [List.foldlM_cons]
    exact (hf s a).bind fun s' _ => ih s'

theorem FailsOnly.mapM {f : α → Except ε β} (hf : ∀ a, FailsOnly P (f a)) (l : List α) :
    FailsOnly P (l.mapM f) := by
  induction l with
  | nil => exact failsOnly_ok []
  | cons a l ih =>
    rw [List.mapM_cons]
    exact (hf a).bind fun b _ => ih.bind fun bs _ => failsOnly_ok (b :: bs)

/-! ### Postconditions -/

/-- The error of the computation satisfies `P`, or its result satisfies `Q`. -/
def Ends (P : ε → Prop) (Q : α → Prop) : Except ε α → Prop
  | .error e => P e
  | .ok a => Q a

section Ends

variable {P : ε → Prop} {Q : α → Prop}

theorem Ends.imp {P' : ε → Prop} {Q' : α → Prop} {x : Except ε α} (h : x.Ends P Q)
    (hP : ∀ e, P e → P' e) (hQ : ∀ a, Q a → Q' a) : x.Ends P' Q' := by
  cases x with
  | error e => exact hP e h
  | ok a => exact hQ a h

theorem Ends.of_ok {x : Except ε α} {a : α} (h : x.Ends P Q) (hx : x = .ok a) : Q a := by
  rw [hx] at h
  exact h

theorem Ends.bind {R : β → Prop} {x : Except ε α} {f : α → Except ε β} (hx : x.Ends P Q)
    (hf : ∀ a, Q a → (f a).Ends P R) : (x >>= f).Ends P R := by
  cases x with
  | error e => exact hx
  | ok a => exact hf a hx

/-- What each step of a loop keeps. -/
theorem Ends.foldlM {I : σ → Prop} {f : σ → α → Except ε σ} {l : List α}
    (hf : ∀ s, ∀ a ∈ l, I s → (f s a).Ends P I) {s : σ} (hs : I s) : (l.foldlM f s).Ends P I := by
  induction l generalizing s with
  | nil => exact hs
  | cons a l ih =>
    rw [List.foldlM_cons]
    exact (hf s a List.mem_cons_self hs).bind fun s' hs' =>
      ih (fun s a ha => hf s a (List.mem_cons_of_mem _ ha)) hs'

end Ends

/-! ### Running a loop again -/

section Again

variable {τ : Type*} (Le Sim : σ → σ → Prop) (view : σ → τ) {l : List α} {s s' t : σ}

/-- **A second run** of a loop that only adds to a state, from a state with all that the first run
adds: where a step finds what it added in the first run, and leaves the view of the state as it is,
the second run succeeds and leaves the view as it is. -/
theorem foldlM_again {f : σ → α → Except ε σ} (hrefl : ∀ s, Le s s)
    (htrans : ∀ s₁ s₂ s₃, Le s₁ s₂ → Le s₂ s₃ → Le s₁ s₃)
    (hview : ∀ s t t', Le s t → view t' = view t → Le s t')
    (hstep : ∀ s a s', f s a = .ok s' → Le s s')
    (hagain : ∀ s a s' t, f s a = .ok s' → Sim s t → Le s' t →
      ∃ t', f t a = .ok t' ∧ Sim s' t' ∧ view t' = view t)
    (h : l.foldlM f s = .ok s') (hsim : Sim s t) (hle : Le s' t) :
    ∃ t', l.foldlM f t = .ok t' ∧ Sim s' t' ∧ view t' = view t := by
  induction l generalizing s t with
  | nil =>
    cases h
    exact ⟨t, rfl, hsim, rfl⟩
  | cons a l ih =>
    rw [List.foldlM_cons, bind_eq_ok_iff] at h
    obtain ⟨s₁, h₁, h₂⟩ := h
    have hle₁ : Le s₁ s' := foldlM_rel hrefl htrans (fun s a s' _ => hstep s a s') h₂
    obtain ⟨t₁, ht₁, hsim₁, hview₁⟩ := hagain s a s₁ t h₁ hsim (htrans _ _ _ hle₁ hle)
    obtain ⟨t', ht', hsim', hview'⟩ := ih h₂ hsim₁ (hview _ _ _ hle hview₁)
    refine ⟨t', ?_, hsim', hview'.trans hview₁⟩
    rw [List.foldlM_cons, ht₁]
    exact ht'

/-- A second run of a loop that cannot fail. -/
theorem foldl_again {f : σ → α → σ} (hrefl : ∀ s, Le s s)
    (htrans : ∀ s₁ s₂ s₃, Le s₁ s₂ → Le s₂ s₃ → Le s₁ s₃)
    (hview : ∀ s t t', Le s t → view t' = view t → Le s t') (hstep : ∀ s a, Le s (f s a))
    (hagain : ∀ s a t, Sim s t → Le (f s a) t → Sim (f s a) (f t a) ∧ view (f t a) = view t)
    (hsim : Sim s t) (hle : Le (l.foldl f s) t) :
    Sim (l.foldl f s) (l.foldl f t) ∧ view (l.foldl f t) = view t := by
  have hpure : ∀ s, l.foldlM (fun s a => (.ok (f s a) : Except Unit σ)) s = .ok (l.foldl f s) :=
    fun s => List.foldlM_pure
  obtain ⟨t', ht', hsim', hview'⟩ := foldlM_again Le Sim view
    (f := fun s a => (.ok (f s a) : Except Unit σ)) hrefl htrans hview
    (fun s a s' h => by cases h; exact hstep s a)
    (fun s a s' t h hs hl => by cases h; exact ⟨_, rfl, hagain s a t hs hl⟩)
    (hpure s) hsim hle
  rw [hpure t] at ht'
  cases ht'
  exact ⟨hsim', hview'⟩

end Again

end Except
