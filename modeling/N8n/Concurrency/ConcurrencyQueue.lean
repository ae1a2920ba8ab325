import N8n.Lib.Lts
import Mathlib.Data.List.Nodup
import Mathlib.Tactic.Linarith

/-!
# The concurrency queue

`packages/cli/src/concurrency/concurrency-queue.ts`: executions beyond a limit wait until earlier
ones have ended.

* `ConcurrencyQueue`: the queue, with `enqueue`, `dequeue` and `remove`;
* `Executions`: a queue together with what became of the calls of `enqueue`;
* `Executions.Run`: the sequences of calls, in which an execution ends once at most;
* `Executions.step_cases`: what a call can do.

The promise that a call of `enqueue` returns is told apart by the number of the call.
-/

namespace N8n

/-- An entry of the queue. -/
structure QueuedExecution where
  executionId : String
  /-- The call of `enqueue` whose promise the entry resolves. -/
  resolve : ℕ
  deriving DecidableEq

structure ConcurrencyQueue where
  capacity : ℤ
  queue : List QueuedExecution := []
  deriving DecidableEq

namespace ConcurrencyQueue

/-- `enqueue`, and whether the call returns at once. -/
def enqueue (q : ConcurrencyQueue) (executionId : String) (resolve : ℕ) : ConcurrencyQueue × Bool :=
  if q.capacity - 1 < 0 then
    ({ capacity := q.capacity - 1, queue := q.queue ++ [{ executionId, resolve }] }, false)
  else ({ q with capacity := q.capacity - 1 }, true)

/-- `resolveNext`, and the entry whose promise it resolves. -/
def resolveNext (q : ConcurrencyQueue) : ConcurrencyQueue × Option QueuedExecution :=
  match q.queue with
  | [] => (q, none)
  | item :: queue => ({ q with queue }, some item)

def dequeue (q : ConcurrencyQueue) : ConcurrencyQueue × Option QueuedExecution :=
  { q with capacity := q.capacity + 1 }.resolveNext

/-- Whether an execution is in the queue. -/
def has (q : ConcurrencyQueue) (executionId : String) : Bool :=
  q.queue.any fun item => item.executionId = executionId

/-- The first entry of an execution. -/
def find? (q : ConcurrencyQueue) (executionId : String) : Option QueuedExecution :=
  q.queue.find? fun item => item.executionId = executionId

def remove (q : ConcurrencyQueue) (executionId : String) :
    ConcurrencyQueue × Option QueuedExecution :=
  match q.find? executionId with
  | none => (q, none)
  | some _ =>
    { q with
      capacity := q.capacity + 1
      queue := q.queue.eraseP fun item => item.executionId = executionId }.resolveNext

theorem exists_find?_iff (q : ConcurrencyQueue) (executionId : String) :
    (∃ item, q.find? executionId = some item) ↔ q.has executionId = true := by
  rw [← Option.isSome_iff_exists, find?, has, List.find?_isSome, List.any_eq_true]

end ConcurrencyQueue

/-! ### Runs -/

/-- A queue and what became of the calls of `enqueue`, which are numbered. -/
structure Executions where
  queue : ConcurrencyQueue
  nextCall : ℕ := 0
  /-- The calls that were let through, in this order. -/
  admitted : List ℕ := []
  /-- The calls that were let through and whose execution has not ended. -/
  running : List ℕ := []
  /-- The calls that had to wait, in their order. -/
  throttled : List ℕ := []
  /-- The calls whose entry was removed. -/
  removed : List ℕ := []
  deriving DecidableEq

namespace Executions

inductive Action
  | enqueue (executionId : String)
  /-- The execution of this call ends. -/
  | dequeue (call : ℕ)
  | remove (executionId : String)
  deriving DecidableEq

def Action.isDequeue : Action → Bool
  | dequeue _ => true
  | _ => false

/-- An empty queue with a limit. -/
def start (limit : ℤ) : Executions := { queue := { capacity := limit } }

/-- The calls that wait, in their order. -/
def waiting (s : Executions) : List ℕ := s.queue.queue.map QueuedExecution.resolve

/-- The promise of an entry is resolved. -/
def resolved (s : Executions) : Option QueuedExecution → Executions
  | none => s
  | some item => { s with
      admitted := s.admitted ++ [item.resolve]
      running := s.running ++ [item.resolve] }

/-- What an action leads to; only an execution that was let through ends, and once. -/
def step (s : Executions) : Action → Option Executions
  | .enqueue executionId =>
    let (queue, returned) := s.queue.enqueue executionId s.nextCall
    if returned then
      some { s with
        queue
        nextCall := s.nextCall + 1
        admitted := s.admitted ++ [s.nextCall]
        running := s.running ++ [s.nextCall] }
    else some { s with
        queue
        nextCall := s.nextCall + 1
        throttled := s.throttled ++ [s.nextCall] }
  | .dequeue call =>
    if call ∈ s.running then
      let (queue, item) := s.queue.dequeue
      some ({ s with queue, running := s.running.erase call }.resolved item)
    else none
  | .remove executionId =>
    let (queue, item) := s.queue.remove executionId
    some ({ s with
      queue
      removed := s.removed ++ (s.queue.find? executionId).toList.map QueuedExecution.resolve
      }.resolved item)

/-- The runs of a queue. -/
abbrev Run : Executions → List Action → Executions → Prop :=
  Lts.Run fun s a s' => s.step a = some s'

/-! ### One step -/

/-- The entry at the head of the queue is let through, if there is one. -/
def resolveNext (s : Executions) : Executions :=
  { s with queue := s.queue.resolveNext.1 }.resolved s.queue.resolveNext.2

/-- An execution has ended, and the head of the queue is not yet let through. -/
def ended (s : Executions) (call : ℕ) : Executions :=
  { s with
    queue := { s.queue with capacity := s.queue.capacity + 1 }
    running := s.running.erase call }

/-- An entry is removed, and the head of the queue is not yet let through. -/
def without (s : Executions) (executionId : String) (item : QueuedExecution) : Executions :=
  { s with
    queue := { s.queue with
      capacity := s.queue.capacity + 1
      queue := s.queue.queue.eraseP fun item => item.executionId = executionId }
    removed := s.removed ++ [item.resolve] }

theorem step_dequeue (s : Executions) {call : ℕ} (h : call ∈ s.running) :
    s.step (.dequeue call) = some (s.ended call).resolveNext := if_pos h

theorem step_remove_of_none {s : Executions} {executionId : String}
    (h : s.queue.find? executionId = none) : s.step (.remove executionId) = some s := by
  unfold step ConcurrencyQueue.remove
  dsimp only
  rw [h]
  simp [resolved]

theorem step_remove_of_some {s : Executions} {executionId : String} {item : QueuedExecution}
    (h : s.queue.find? executionId = some item) :
    s.step (.remove executionId) = some (s.without executionId item).resolveNext := by
  unfold step ConcurrencyQueue.remove
  dsimp only
  rw [h]
  rfl

/-- What a step can do. -/
theorem step_cases {s s' : Executions} {a : Action} (h : s.step a = some s') :
    (∃ executionId, a = .enqueue executionId ∧ 0 < s.queue.capacity ∧ s' = { s with
      queue := { s.queue with capacity := s.queue.capacity - 1 }
      nextCall := s.nextCall + 1
      admitted := s.admitted ++ [s.nextCall]
      running := s.running ++ [s.nextCall] }) ∨
    (∃ executionId, a = .enqueue executionId ∧ s.queue.capacity ≤ 0 ∧ s' = { s with
      queue := {
        capacity := s.queue.capacity - 1
        queue := s.queue.queue ++ [{ executionId, resolve := s.nextCall }] }
      nextCall := s.nextCall + 1
      throttled := s.throttled ++ [s.nextCall] }) ∨
    (∃ call ∈ s.running, a = .dequeue call ∧ s' = (s.ended call).resolveNext) ∨
    (∃ executionId, a = .remove executionId ∧ s.queue.find? executionId = none ∧ s' = s) ∨
    (∃ executionId item, a = .remove executionId ∧ s.queue.find? executionId = some item ∧
      s' = (s.without executionId item).resolveNext) := by
  cases a with
  | enqueue executionId =>
    by_cases hc : s.queue.capacity - 1 < 0
    · refine .inr (.inl ⟨executionId, rfl, by omega, ?_⟩)
      simpa [step, ConcurrencyQueue.enqueue, hc] using h.symm
    · refine .inl ⟨executionId, rfl, by omega, ?_⟩
      simpa [step, ConcurrencyQueue.enqueue, hc] using h.symm
  | dequeue call =>
    by_cases hcall : call ∈ s.running
    · rw [step_dequeue s hcall] at h
      exact .inr (.inr (.inl ⟨call, hcall, rfl, (Option.some.inj h).symm⟩))
    · exact absurd (show none = some s' from (if_neg hcall).symm.trans h) (by simp)
  | remove executionId =>
    cases hfind : s.queue.find? executionId with
    | none =>
      rw [step_remove_of_none hfind] at h
      exact .inr (.inr (.inr (.inl ⟨executionId, rfl, hfind, (Option.some.inj h).symm⟩)))
    | some item =>
      rw [step_remove_of_some hfind] at h
      exact .inr (.inr (.inr (.inr ⟨executionId, item, rfl, hfind, (Option.some.inj h).symm⟩)))

end Executions

end N8n
