import Mathlib.Order.Basic
import Mathlib.Tactic.Common

/-!
# Computations on a state

A computation reads and changes a state and may fail; what it did to the state before stays done.
States are ordered by what is known in them, which nothing takes back.

* `Stateful.Yields`: a computation keeps an invariant, forgets nothing, and what it gives has a
  property;
* `Stateful.Yields.bind`, `all`, `each`: the rules for one computation after another.
-/

universe u v w

/-- A computation on a state that may fail. -/
def Stateful (σ : Type u) (ε : Type v) (α : Type w) := σ → Except ε α × σ

namespace Stateful

variable {σ : Type u} {ε : Type v} {α β : Type w}

instance : Monad (Stateful σ ε) where
  pure a s := (.ok a, s)
  bind m f s :=
    match m s with
    | (.ok a, s') => f a s'
    | (.error e, s') => (.error e, s')

def fail (e : ε) : Stateful σ ε α := fun s => (.error e, s)

def reading (f : σ → α) : Stateful σ ε α := fun s => (.ok (f s), s)

def change (f : σ → σ) : Stateful σ ε PUnit := fun s => (.ok ⟨⟩, f s)

/-- What is given or not whatever the state is. -/
def lift (x : Except ε α) : Stateful σ ε α := fun s => (x, s)

/-- One computation for each element, in order. -/
def all (f : α → Stateful σ ε β) : List α → Stateful σ ε (List β)
  | [] => pure []
  | a :: l => do
    let b ← f a
    let bs ← all f l
    pure (b :: bs)

/-- One computation for each element, in order, for what it does. -/
def each {α : Type*} (f : α → Stateful σ ε PUnit) : List α → Stateful σ ε PUnit
  | [] => pure ⟨⟩
  | a :: l => do
    f a
    each f l

theorem run_bind (m : Stateful σ ε α) (f : α → Stateful σ ε β) (s : σ) :
    (m >>= f) s = match m s with
      | (.ok a, s') => f a s'
      | (.error e, s') => (.error e, s') := rfl

variable [Preorder σ] {I : σ → Prop} {s : σ} {m : Stateful σ ε α} {Q : α → σ → Prop}

/-- Started in a state, the computation keeps the invariant and what is known, and what it gives has
the property. -/
structure Yields (I : σ → Prop) (s : σ) (m : Stateful σ ε α) (Q : α → σ → Prop) : Prop where
  keeps : I (m s).2
  le : s ≤ (m s).2
  gives : ∀ a, (m s).1 = .ok a → Q a (m s).2

theorem Yields.imp {Q' : α → σ → Prop} (h : Yields I s m Q) (hQ : ∀ a s', Q a s' → Q' a s') :
    Yields I s m Q' := ⟨h.keeps, h.le, fun a ha => hQ a _ (h.gives a ha)⟩

theorem Yields.any (h : Yields I s m Q) : Yields I s m fun _ _ => True := h.imp fun _ _ _ => trivial

theorem Yields.pure {a : α} (hs : I s) (ha : Q a s) :
    Yields I s (Pure.pure a : Stateful σ ε α) Q := by
  refine ⟨hs, le_rfl, fun b hb => ?_⟩
  cases hb
  exact ha

theorem Yields.fail (hs : I s) (e : ε) : Yields I s (Stateful.fail e) Q :=
  ⟨hs, le_rfl, fun _ h => by cases h⟩

theorem Yields.reading {f : σ → α} (hs : I s) (hf : Q (f s) s) :
    Yields I s (Stateful.reading f : Stateful σ ε α) Q := by
  refine ⟨hs, le_rfl, fun a ha => ?_⟩
  cases ha
  exact hf

theorem Yields.lift {x : Except ε α} (hs : I s) (hx : ∀ a, x = .ok a → Q a s) :
    Yields I s (Stateful.lift x) Q := ⟨hs, le_rfl, hx⟩

theorem Yields.change {f : σ → σ} {Q : PUnit → σ → Prop} (hs : I (f s)) (hle : s ≤ f s)
    (hf : Q ⟨⟩ (f s)) : Yields I s (Stateful.change f : Stateful σ ε PUnit) Q :=
  ⟨hs, hle, fun _ _ => hf⟩

/-- **One computation after another.** -/
theorem Yields.bind {f : α → Stateful σ ε β} {Q' : β → σ → Prop} (hm : Yields I s m Q)
    (hf : ∀ a s', I s' → s ≤ s' → Q a s' → Yields I s' (f a) Q') : Yields I s (m >>= f) Q' := by
  obtain ⟨hkeeps, hle, hgives⟩ := hm
  have hrun := run_bind m f s
  match hms : m s with
  | (.error e, s') =>
    rw [hms] at hkeeps hle hrun
    rw [show (Except.error e, s').2 = ((m >>= f) s).2 by rw [hrun]] at hkeeps hle
    refine ⟨hkeeps, hle, fun b hb => ?_⟩
    rw [hrun] at hb
    cases hb
  | (.ok a, s') =>
    rw [hms] at hkeeps hle hrun hgives
    change (m >>= f) s = f a s' at hrun
    obtain ⟨hkeeps', hle', hgives'⟩ := hf a s' hkeeps hle (hgives a rfl)
    rw [← hrun] at hkeeps' hle' hgives'
    exact ⟨hkeeps', hle.trans hle', hgives'⟩

theorem Yields.all {f : α → Stateful σ ε β} (hf : ∀ a s', I s' → Yields I s' (f a) fun _ _ => True)
    (l : List α) (hs : I s) : Yields I s (all f l) fun _ _ => True := by
  induction l generalizing s with
  | nil => exact Yields.pure hs trivial
  | cons a l ih =>
    refine (hf a s hs).bind fun b s₁ h₁ _ _ => ?_
    exact (ih h₁).bind fun bs s₂ h₂ _ _ => Yields.pure h₂ trivial

theorem Yields.each {α : Type*} {f : α → Stateful σ ε PUnit}
    (hf : ∀ a s', I s' → Yields I s' (f a) fun _ _ => True) (l : List α) (hs : I s) :
    Yields I s (each f l) fun _ _ => True := by
  induction l generalizing s with
  | nil => exact Yields.pure hs trivial
  | cons a l ih => exact (hf a s hs).bind fun _ s₁ h₁ _ _ => ih h₁

end Stateful
