import N8n.Lib.Except
import Mathlib.Data.List.Infix

/-!
# Transition systems

A step relation `step : σ → α → σ → Prop` says which states an action can lead to.  `Lts.Run` is
the relation of its finite runs.  A total function `step : σ → α → σ` says what an event does to a
state; its runs are those of `Trace.run`.

* `Lts.Run.invariant`: a property kept by every step of a run holds at its end;
* `Lts.forall_prefix_iff`: a property whose preservation by a step is equivalent to a side
  condition holds in every state of a run exactly when the side condition holds at every step;
* `Lts.Run.length_le`: a run is no longer than a measure that each of its steps lowers;
* `Lts.run_iff_foldlM`: the runs of a system whose steps are successful calls;
* `Trace.run`: the state after a list of events, `Trace.invariant_run`: what every event keeps;
* `Trace.EachStep`: a condition holds of the state before each event and the event;
* `Trace.EachStep.invariant`: what the events that meet the condition keep holds after each of them;
* `Trace.stateAt`: the states of an endless run, `Trace.invariant_stateAt`: their invariants, and
  `Trace.exists_leaves`: what holds for a while and then no more ends at an event.
-/

universe u v

namespace Lts

variable {σ : Type u} {α : Type v} {step : σ → α → σ → Prop}

/-- `Run step s l s'`: the actions `l`, one after the other, lead from `s` to `s'`. -/
inductive Run (step : σ → α → σ → Prop) : σ → List α → σ → Prop
  | nil (s : σ) : Run step s [] s
  | snoc {s s₁ s₂ : σ} {l : List α} {a : α} (h : Run step s l s₁) (ha : step s₁ a s₂) :
    Run step s (l ++ [a]) s₂

theorem Run.eq_of_nil {s s' : σ} (h : Run step s [] s') : s' = s := by
  generalize hl : ([] : List α) = l at h
  cases h with
  | nil => rfl
  | snoc h ha => exact absurd hl (by simp)

theorem Run.last {s s' : σ} {l : List α} {a : α} (h : Run step s (l ++ [a]) s') :
    ∃ s₁, Run step s l s₁ ∧ step s₁ a s' := by
  generalize hl : l ++ [a] = l' at h
  cases h with
  | nil => exact absurd hl (by simp)
  | snoc h ha =>
    obtain ⟨rfl, rfl⟩ := List.append_inj' hl rfl |>.imp_right List.singleton_inj.1
    exact ⟨_, h, ha⟩

/-- A property of the actions done and the state reached that holds at the start and is kept by
every step taken holds at the end. -/
theorem Run.invariant {P : List α → σ → Prop} {s s' : σ} {l : List α} (h : Run step s l s')
    (hs : P [] s)
    (hstep : ∀ pre a s₁ s₂, pre ++ [a] <+: l → Run step s pre s₁ → step s₁ a s₂ → P pre s₁ →
      P (pre ++ [a]) s₂) :
    P l s' := by
  induction h with
  | nil => exact hs
  | snoc h ha ih =>
    refine hstep _ _ _ _ (List.prefix_refl _) h ha (ih fun pre a s₁ s₂ hp => ?_)
    exact hstep pre a s₁ s₂ (hp.trans (List.prefix_append _ _))

/-- A condition on the steps of a sequence, step by step. -/
theorem forall_prefix_concat {P : List α → α → Prop} {l : List α} {a : α} :
    (∀ pre e, pre ++ [e] <+: l ++ [a] → P pre e) ↔
      (∀ pre e, pre ++ [e] <+: l → P pre e) ∧ P l a := by
  constructor
  · exact fun h => ⟨fun pre e hp => h pre e (hp.trans (List.prefix_append l [a])),
      h l a (List.prefix_refl _)⟩
  · rintro ⟨hl, ha⟩ pre e hp
    rcases List.prefix_concat_iff.1 hp with heq | hp
    · obtain ⟨rfl, he⟩ := List.append_inj' heq rfl
      cases he
      exact ha
    · exact hl pre e hp

/-- If a step keeps `P` exactly when `Q` holds of it, then `P` holds in all states of the runs over
`l` exactly when `Q` holds of all their steps. -/
theorem forall_prefix_iff {P : List α → σ → Prop} {Q : σ → α → Prop} {s : σ} (l : List α)
    (hs : P [] s)
    (hstep : ∀ pre a s₁ s₂, Run step s pre s₁ → step s₁ a s₂ → P pre s₁ →
      (P (pre ++ [a]) s₂ ↔ Q s₁ a)) :
    (∀ pre s', pre <+: l → Run step s pre s' → P pre s') ↔
      ∀ pre a s₁ s₂, pre ++ [a] <+: l → Run step s pre s₁ → step s₁ a s₂ → Q s₁ a := by
  constructor
  · intro h pre a s₁ s₂ hp hr ha
    refine (hstep pre a s₁ s₂ hr ha (h pre s₁ ?_ hr)).1 (h _ s₂ hp (hr.snoc ha))
    exact (List.prefix_append pre [a]).trans hp
  · intro h pre s' hp hr
    refine hr.invariant hs fun pre' a s₁ s₂ hp' hr' ha hP => ?_
    exact (hstep pre' a s₁ s₂ hr' ha hP).2 (h pre' a s₁ s₂ (hp'.trans hp) hr' ha)

/-- A run has at most as many steps as a measure that every step lowers. -/
theorem Run.length_le {m : σ → ℕ} {s s' : σ} {l : List α} (h : Run step s l s')
    (hstep : ∀ pre a s₁ s₂, pre ++ [a] <+: l → Run step s pre s₁ → step s₁ a s₂ → m s₂ < m s₁) :
    l.length + m s' ≤ m s := by
  induction h with
  | nil => simp
  | snoc h ha ih =>
    have hlt := hstep _ _ _ _ (List.prefix_refl _) h ha
    have hle := ih fun pre a s₁ s₂ hp => hstep pre a s₁ s₂ (hp.trans (List.prefix_append _ _))
    rw [List.length_append, List.length_singleton]
    omega

/-- The successful calls of a partial function make up a run. -/
theorem run_of_foldlM {f : σ → α → Option σ} {s s' : σ} {l : List α} (h : l.foldlM f s = some s') :
    Run (fun s a s' => f s a = some s') s l s' := by
  induction l using List.reverseRecOn generalizing s' with
  | nil =>
    cases h
    exact Run.nil s
  | append_singleton l a ih =>
    rw [List.foldlM_append] at h
    obtain ⟨s₁, hl, ha⟩ := Option.bind_eq_some_iff.1 h
    rw [List.foldlM_cons] at ha
    obtain ⟨s₂, ha, hs⟩ := Option.bind_eq_some_iff.1 ha
    cases hs
    exact (ih hl).snoc ha

/-- When the steps are the successful calls of a function, the runs are its successful folds. -/
theorem run_iff_foldlM {ε : Type u} {σ α : Type v} {f : σ → α → Except ε σ} {s s' : σ}
    {l : List α} : Run (fun s a s' => f s a = .ok s') s l s' ↔ l.foldlM f s = .ok s' := by
  induction l using List.reverseRecOn generalizing s' with
  | nil =>
    rw [List.foldlM_nil, Except.pure_eq_ok_iff]
    exact ⟨fun h => h.eq_of_nil.symm, fun h => h ▸ Run.nil s⟩
  | append_singleton l a ih =>
    rw [List.foldlM_append, Except.bind_eq_ok_iff]
    constructor
    · intro h
      obtain ⟨s₁, hr, ha⟩ := h.last
      exact ⟨s₁, ih.1 hr, by rw [List.foldlM_cons, ha]; rfl⟩
    · rintro ⟨s₁, hr, ha⟩
      rw [List.foldlM_cons, Except.bind_eq_ok_iff] at ha
      obtain ⟨s₂, ha, hs⟩ := ha
      rw [List.foldlM_nil, Except.pure_eq_ok_iff] at hs
      exact (ih.2 hr).snoc (hs ▸ ha)

end Lts

namespace Trace

variable {σ : Type u} {α : Type v} {step : σ → α → σ}

/-- The state after the events. -/
def run (step : σ → α → σ) (s : σ) (events : List α) : σ := events.foldl step s

/-- `Q` holds of every event and the state that it finds. -/
def EachStep (step : σ → α → σ) (Q : σ → α → Prop) (s : σ) (events : List α) : Prop :=
  ∀ pre e, pre ++ [e] <+: events → Q (run step s pre) e

@[simp] theorem run_nil (s : σ) : run step s [] = s := rfl

@[simp] theorem run_concat (s : σ) (events : List α) (e : α) :
    run step s (events ++ [e]) = step (run step s events) e := by
  simp [run]

/-- What every event keeps holds after a run. -/
theorem invariant_run {I : σ → Prop} {s : σ} (hs : I s) (hstep : ∀ s e, I s → I (step s e))
    (events : List α) : I (run step s events) := by
  induction events using List.reverseRecOn with
  | nil => exact hs
  | append_singleton events e ih =>
    rw [run_concat]
    exact hstep _ e ih

section EachStep

variable {Q R : σ → α → Prop} {s : σ} {events : List α}

theorem EachStep.of_prefix (h : EachStep step Q s events) {pre : List α} (hp : pre <+: events) :
    EachStep step Q s pre :=
  fun pre' e hp' => h pre' e (hp'.trans hp)

theorem eachStep_nil : EachStep step Q s [] := by
  intro pre e hp
  simp at hp

theorem eachStep_concat {e : α} :
    EachStep step Q s (events ++ [e]) ↔ EachStep step Q s events ∧ Q (run step s events) e := by
  constructor
  · intro h
    exact ⟨h.of_prefix (List.prefix_append _ _), h events e (List.prefix_refl _)⟩
  · rintro ⟨h, he⟩ pre e' hp
    rcases List.prefix_concat_iff.1 hp with heq | hp
    · obtain ⟨rfl, hlast⟩ := List.append_inj' heq rfl
      cases hlast
      exact he
    · exact h pre e' hp

theorem eachStep_cons {e : α} :
    EachStep step Q s (e :: events) ↔ Q s e ∧ EachStep step Q (step s e) events := by
  constructor
  · intro h
    exact ⟨h [] e (by simp), fun pre e' hp => h (e :: pre) e' (by simpa using hp)⟩
  · rintro ⟨he, h⟩ pre e' hp
    cases pre with
    | nil =>
      obtain rfl : e' = e := by simpa using hp
      exact he
    | cons e₁ pre =>
      obtain ⟨rfl, hpre⟩ := List.cons_prefix_cons.1 hp
      exact h pre e' hpre

/-- **Invariants**: what the events keep that meet the condition. -/
theorem EachStep.invariant {I : σ → Prop} (h : EachStep step Q s events) (hs : I s)
    (hstep : ∀ s e, I s → Q s e → I (step s e)) : ∀ pre, pre <+: events → I (run step s pre) := by
  intro pre hp
  have hpre := h.of_prefix hp
  clear hp
  induction pre using List.reverseRecOn with
  | nil => exact hs
  | append_singleton pre e ih =>
    obtain ⟨hpre, he⟩ := eachStep_concat.1 hpre
    rw [run_concat]
    exact hstep _ e (ih hpre) he

/-- What an invariant and the condition say of an event holds of every event. -/
theorem EachStep.imp {I : σ → Prop} (h : EachStep step Q s events) (hs : I s)
    (hstep : ∀ s e, I s → Q s e → I (step s e)) (hR : ∀ s e, I s → Q s e → R s e) :
    EachStep step R s events := by
  intro pre e hp
  exact hR _ e (h.invariant hs hstep pre ((List.prefix_append pre [e]).trans hp)) (h pre e hp)

end EachStep

/-! ### Endless runs -/

section Endless

variable {events : ℕ → α} {s : σ}

/-- The state before event `n`. -/
def stateAt (step : σ → α → σ) (s : σ) (events : ℕ → α) : ℕ → σ
  | 0 => s
  | n + 1 => step (stateAt step s events n) (events n)

@[simp] theorem stateAt_zero : stateAt step s events 0 = s := rfl

theorem invariant_stateAt {I : σ → Prop} {Q : σ → α → Prop} (hs : I s)
    (hstep : ∀ s e, I s → Q s e → I (step s e))
    (h : ∀ n, Q (stateAt step s events n) (events n)) (n : ℕ) : I (stateAt step s events n) := by
  induction n with
  | zero => exact hs
  | succ n ih => exact hstep _ _ ih (h n)

theorem exists_leaves {P : σ → Prop} {n m : ℕ} (hnm : n ≤ m) (hn : P (stateAt step s events n))
    (hm : ¬ P (stateAt step s events m)) :
    ∃ k, n ≤ k ∧ P (stateAt step s events k) ∧ ¬ P (stateAt step s events (k + 1)) := by
  by_contra hno
  push Not at hno
  induction m, hnm using Nat.le_induction with
  | base => exact hm hn
  | succ m hnm ih => exact ih fun hP => hm (hno m hnm hP)

end Endless

end Trace
