import Mathlib.Data.List.Basic

/-!
# Processes on a shared state

A process is a sequence of operations on a state that it shares with others.  An operation is one
step; between two of them any other process may go on.

* `Operations`, `Process`: what can be asked of the state, and a program that asks;
* `Process.run`, `Process.Leads`: what a process gives that runs alone, and what it can give when
  operations fail; `Process.leads_ok_iff`;
* `Process.Does`: what a process asks for that runs alone, and how it ends;
* `Process.Respects`: a process that asks only for what is permitted, as long as the replies are
  possible ones;
* `Pool`: the state and the processes under way; `Pool.step`, `Pool.fail`: one of them goes on;
* `Pool.Keeps`: the state is as it should be and the processes respect what is permitted; a step and
  a failure keep this.
-/

universe u v

/-- Operations, with the type of the reply to each. -/
structure Operations where
  Op : Type u
  Reply : Op → Type u

/-- A program that calls operations; it returns a value or throws. -/
inductive Process (I : Operations.{u}) (ε α : Type u)
  | pure (a : α)
  | throw (e : ε)
  | call (op : I.Op) (next : I.Reply op → Process I ε α)

namespace Process

variable {I : Operations.{u}} {ε α β : Type u}

/-- One process, then another. -/
def bind : Process I ε α → (α → Process I ε β) → Process I ε β
  | .pure a, f => f a
  | .throw e, _ => .throw e
  | .call op next, f => .call op fun r => bind (next r) f

instance : Monad (Process I ε) where
  pure := Process.pure
  bind := Process.bind

/-- One operation. -/
def perform (op : I.Op) : Process I ε (I.Reply op) := .call op .pure

@[simp] theorem pure_bind (a : α) (f : α → Process I ε β) : (Pure.pure a >>= f) = f a := rfl

@[simp] theorem throw_bind (e : ε) (f : α → Process I ε β) :
    ((.throw e : Process I ε α) >>= f) = .throw e := rfl

@[simp] theorem call_bind (op : I.Op) (next : I.Reply op → Process I ε α)
    (f : α → Process I ε β) : (Process.call op next >>= f) = .call op fun r => next r >>= f := rfl

/-- The process has come to its end. -/
def Finished : Process I ε α → Prop
  | .call _ _ => False
  | _ => True

instance (p : Process I ε α) : Decidable p.Finished := by
  cases p <;> unfold Finished <;> infer_instance

/-! ### A process that runs alone -/

section Alone

variable {σ : Type v} (handle : σ → (op : I.Op) → I.Reply op × σ)

/-- The outcome of a process none of whose operations fails. -/
def run : Process I ε α → σ → Except ε α × σ
  | .pure a, s => (.ok a, s)
  | .throw e, s => (.error e, s)
  | .call op next, s => run (next (handle s op).1) (handle s op).2

/-- The outcomes of a process whose operations may fail. -/
inductive Leads : σ → Process I ε α → Except ε α → σ → Prop
  | pure (s : σ) (a : α) : Leads s (.pure a) (.ok a) s
  | throw (s : σ) (e : ε) : Leads s (.throw e) (.error e) s
  | call {s s' : σ} {op : I.Op} {next : I.Reply op → Process I ε α} {r : Except ε α}
      (h : Leads (handle s op).2 (next (handle s op).1) r s') : Leads s (.call op next) r s'
  | fails (s : σ) (op : I.Op) (next : I.Reply op → Process I ε α) (e : ε) :
      Leads s (.call op next) (.error e) s

variable {handle} {p : Process I ε α} {s s' : σ} {a : α}

/-- A process comes to its end only when none of its operations fails. -/
theorem leads_ok_iff : Leads handle s p (.ok a) s' ↔ run handle p s = (.ok a, s') := by
  induction p generalizing s with
  | pure b =>
    constructor
    · intro h
      cases h
      rfl
    · intro h
      cases h
      exact .pure _ _
  | throw e =>
    constructor
    · intro h
      cases h
    · intro h
      cases h
  | call op next ih =>
    constructor
    · intro h
      cases h with
      | call h => exact (ih _).mp h
    · exact fun h => .call ((ih _).mpr h)

theorem run_bind (p : Process I ε α) (f : α → Process I ε β) (s : σ) :
    run handle (p >>= f) s = match run handle p s with
      | (.ok a, s') => run handle (f a) s'
      | (.error e, s') => (.error e, s') := by
  induction p generalizing s with
  | pure a => rfl
  | throw e => rfl
  | call op next ih => exact ih _ _

theorem run_bind_ok {f : α → Process I ε β} {b : β} (h : run handle (p >>= f) s = (.ok b, s')) :
    ∃ a s₁, run handle p s = (.ok a, s₁) ∧ run handle (f a) s₁ = (.ok b, s') := by
  rw [run_bind] at h
  match hp : run handle p s with
  | (.ok a, s₁) =>
    rw [hp] at h
    exact ⟨a, s₁, rfl, h⟩
  | (.error e, s₁) =>
    rw [hp] at h
    cases h

/-- The process, running alone, asks only for what is permitted at the time, and its outcome is as it
should be. -/
def Does (handle : σ → (op : I.Op) → I.Reply op × σ) (Ok : σ → I.Op → Prop)
    (Q : Except ε α → σ → Prop) : Process I ε α → σ → Prop
  | .pure a, s => Q (.ok a) s
  | .throw e, s => Q (.error e) s
  | .call op next, s => Ok s op ∧ Does handle Ok Q (next (handle s op).1) (handle s op).2

variable {Ok : σ → I.Op → Prop} {Q Q' : Except ε α → σ → Prop}

theorem Does.imp (h : Does handle Ok Q p s) (hQ : ∀ r s, Q r s → Q' r s) :
    Does handle Ok Q' p s := by
  induction p generalizing s with
  | pure a => exact hQ _ _ h
  | throw e => exact hQ _ _ h
  | call op next ih => exact ⟨h.1, ih _ h.2⟩

theorem Does.run (h : Does handle Ok Q p s) : Q (run handle p s).1 (run handle p s).2 := by
  induction p generalizing s with
  | pure a => exact h
  | throw e => exact h
  | call op next ih => exact ih _ h.2

/-- One process, then another. -/
theorem Does.bind {f : α → Process I ε β} {R : Except ε β → σ → Prop}
    (h : Does handle Ok Q p s) (hok : ∀ a s, Q (.ok a) s → Does handle Ok R (f a) s)
    (herror : ∀ e s, Q (.error e) s → R (.error e) s) : Does handle Ok R (p >>= f) s := by
  induction p generalizing s with
  | pure a => exact hok a _ h
  | throw e => exact herror e _ h
  | call op next ih => exact ⟨h.1, ih _ h.2⟩

end Alone

/-! ### What a process asks for -/

section Respects

variable {Ok : I.Op → Prop} {Possible : (op : I.Op) → I.Reply op → Prop}

/-- The process asks only for permitted operations, as long as the replies are possible ones. -/
def Respects (Ok : I.Op → Prop) (Possible : (op : I.Op) → I.Reply op → Prop) :
    Process I ε α → Prop
  | .pure _ => True
  | .throw _ => True
  | .call op next => Ok op ∧ ∀ reply, Possible op reply → Respects Ok Possible (next reply)

theorem Respects.bind {p : Process I ε α} {f : α → Process I ε β} (hp : Respects Ok Possible p)
    (hf : ∀ a, Respects Ok Possible (f a)) : Respects Ok Possible (p >>= f) := by
  induction p with
  | pure a => exact hf a
  | throw e => trivial
  | call op next ih => exact ⟨hp.1, fun reply hreply => ih reply (hp.2 reply hreply)⟩

end Respects

end Process

/-- A state and the processes that share it. -/
structure Pool (σ : Type u) (I : Operations.{u}) (ε α : Type u) where
  state : σ
  processes : List (Process I ε α) := []

namespace Pool

variable {σ : Type u} {I : Operations.{u}} {ε α : Type u}
  (handle : σ → (op : I.Op) → I.Reply op × σ)

/-- A process begins. -/
def start (s : Pool σ I ε α) (p : Process I ε α) : Pool σ I ε α :=
  { s with processes := s.processes ++ [p] }

/-- The process at the position carries out its next operation. -/
def step (s : Pool σ I ε α) (c : ℕ) : Pool σ I ε α :=
  match s.processes[c]? with
  | some (.call op next) =>
    let (reply, state) := handle s.state op
    ⟨state, s.processes.set c (next reply)⟩
  | _ => s

/-- The next operation of the process at the position throws. -/
def fail (s : Pool σ I ε α) (c : ℕ) (e : ε) : Pool σ I ε α :=
  match s.processes[c]? with
  | some (.call _ _) => { s with processes := s.processes.set c (.throw e) }
  | _ => s

/-- All processes have come to their end. -/
def Finished (s : Pool σ I ε α) : Prop := ∀ p ∈ s.processes, p.Finished

instance (s : Pool σ I ε α) : Decidable s.Finished :=
  inferInstanceAs (Decidable (∀ p ∈ s.processes, p.Finished))

/-- The state is as it should be, and the processes ask only for what is permitted. -/
structure Keeps (Inv : σ → Prop) (Ok : I.Op → Prop) (Possible : (op : I.Op) → I.Reply op → Prop)
    (s : Pool σ I ε α) : Prop where
  state : Inv s.state
  respects : ∀ p ∈ s.processes, p.Respects Ok Possible

section Keeps

variable {handle : σ → (op : I.Op) → I.Reply op × σ} {Inv : σ → Prop} {Ok : I.Op → Prop}
  {Possible : (op : I.Op) → I.Reply op → Prop} {s : Pool σ I ε α}

theorem respects_set {l : List (Process I ε α)} {c : ℕ} {p : Process I ε α}
    (hl : ∀ p ∈ l, p.Respects Ok Possible) (hp : p.Respects Ok Possible) :
    ∀ p' ∈ l.set c p, p'.Respects Ok Possible := by
  intro p' hp'
  rcases List.mem_or_eq_of_mem_set hp' with hp' | rfl
  · exact hl p' hp'
  · exact hp

/-- **One step**: what is permitted keeps the state as it should be, and its reply is a possible
one. -/
theorem Keeps.step (hs : Keeps Inv Ok Possible s)
    (hhandle : ∀ state op, Inv state → Ok op → Inv (handle state op).2 ∧
      Possible op (handle state op).1) (c : ℕ) : Keeps Inv Ok Possible (s.step handle c) := by
  rw [Pool.step]
  split
  · rename_i op next hc
    obtain ⟨hop, hnext⟩ := hs.respects _ (List.mem_of_getElem? hc)
    obtain ⟨hstate, hreply⟩ := hhandle s.state op hs.state hop
    exact ⟨hstate, respects_set hs.respects (hnext _ hreply)⟩
  · exact hs

theorem Keeps.fail (hs : Keeps Inv Ok Possible s) (c : ℕ) (e : ε) :
    Keeps Inv Ok Possible (s.fail c e) := by
  rw [Pool.fail]
  split
  · exact ⟨hs.state, respects_set hs.respects trivial⟩
  · exact hs

end Keeps

/-- The processes at the other positions stay. -/
theorem getElem?_set_of_ne {l : List (Process I ε α)} {c c' : ℕ} {p p' : Process I ε α}
    (h : l[c']? = some p') (hne : c' ≠ c) : (l.set c p)[c']? = some p' := by
  rw [List.getElem?_set_ne (Ne.symm hne), h]

theorem getElem?_set_self {l : List (Process I ε α)} {c : ℕ} {p p' : Process I ε α}
    (h : l[c]? = some p') : (l.set c p)[c]? = some p := by
  obtain ⟨hlt, -⟩ := List.getElem?_eq_some_iff.1 h
  rw [List.getElem?_set_self hlt]

end Pool
