import N8n.Concurrency.ActiveExecutions
import N8n.Lib.Lts

/-!
# Dangling executions

`recoverFromQueue` of `packages/cli/src/scaling/scaling.service.ts` marks executions as crashed that
are in progress in the database and not in the queue.  The ids are read from the database, then the
queue is read, and then the rows are written, a batch at a time.

* `QueueRecovery`: the rows, the queue and the calls of `recoverFromQueue` under way;
* `QueueRecovery.CrashesOnlyDangling`: what is claimed of a write;
* `QueueRecovery.crashesOnlyDangling`: a condition on the events under which it holds;
* `QueueRecovery.enqueued_is_crashed`: a run that crashes an execution that has just been enqueued.
-/

namespace N8n

/-- The execution has ended. -/
def ActiveExecutions.ExecutionStatus.Final : ActiveExecutions.ExecutionStatus → Prop
  | .success | .error | .canceled | .crashed => True
  | .new | .running | .unknown | .waiting => False

instance (status : ActiveExecutions.ExecutionStatus) : Decidable status.Final := by
  cases status <;> unfold ActiveExecutions.ExecutionStatus.Final <;> infer_instance

/-- Where a call of `recoverFromQueue` stands. -/
inductive RecoverStage
  | readingStored
  | readingQueue (storedIds : List String)
  /-- In `markAsCrashed`, with the ids that are not processed. -/
  | writing (executionIds : List String)
  | returned

structure QueueRecovery where
  /-- The status of each execution in the database. -/
  rows : Dict String ActiveExecutions.ExecutionStatus := .empty
  /-- The execution ids of the jobs that are active or waiting. -/
  queue : List String := []
  calls : ℕ → RecoverStage := fun _ => .returned
  nextCall : ℕ := 0

namespace QueueRecovery

def MAX_UPDATE_BATCH_SIZE : ℕ := 900

/-! ### Database -/

/-- The ids with status `new` or `running`. -/
def inProgress (s : QueueRecovery) : List String :=
  s.rows.keys.filter fun id => s.rows.get? id = some .new ∨ s.rows.get? id = some .running

/-- The ids are an answer of `getInProgressExecutionIds`; which executions the database takes to be
the newest is left open. -/
def IsStoredIds (s : QueueRecovery) (batchSize : ℕ) (ids : List String) : Prop :=
  ids.Nodup ∧ (∀ id ∈ ids, id ∈ s.inProgress) ∧ ids.length = min batchSize s.inProgress.length

instance (s : QueueRecovery) (batchSize : ℕ) (ids : List String) :
    Decidable (s.IsStoredIds batchSize ids) := inferInstanceAs (Decidable (_ ∧ _ ∧ _))

/-- `this.update({ id: In(ids) }, { status, … })`. -/
def update (s : QueueRecovery) (ids : List String) (status : ActiveExecutions.ExecutionStatus) :
    QueueRecovery :=
  { s with
    rows := ids.foldl (fun rows id => if rows.has id then rows.set id status else rows) s.rows }

/-! ### `recoverFromQueue` -/

def setCall (s : QueueRecovery) (c : ℕ) (stage : RecoverStage) : QueueRecovery :=
  { s with calls := Function.update s.calls c stage }

/-- A call of `recoverFromQueue` begins. -/
def recoverFromQueue (s : QueueRecovery) : QueueRecovery :=
  { s.setCall s.nextCall .readingStored with nextCall := s.nextCall + 1 }

/-- `recoverFromQueue` goes on after `getInProgressExecutionIds`. -/
def storedRead (s : QueueRecovery) (batchSize c : ℕ) (storedIds : List String) : QueueRecovery :=
  match s.calls c with
  | .readingStored =>
    if s.IsStoredIds batchSize storedIds then
      s.setCall c (if storedIds = [] then .returned else .readingQueue storedIds)
    else s
  | _ => s

/-- `recoverFromQueue` goes on after `findJobsByStatus`. -/
def queueRead (s : QueueRecovery) (c : ℕ) : QueueRecovery :=
  match s.calls c with
  | .readingQueue storedIds =>
    let danglingIds := storedIds.filter fun id => id ∉ s.queue
    s.setCall c (if danglingIds = [] then .returned else .writing danglingIds)
  | _ => s

/-- The batch that a call of `markAsCrashed` writes next. -/
def batch (s : QueueRecovery) (c : ℕ) : List String :=
  match s.calls c with
  | .writing executionIds => executionIds.take MAX_UPDATE_BATCH_SIZE
  | _ => []

/-- One turn of the loop of `markAsCrashed`. -/
def batchWritten (s : QueueRecovery) (c : ℕ) : QueueRecovery :=
  match s.calls c with
  | .writing executionIds =>
    let rest := executionIds.drop MAX_UPDATE_BATCH_SIZE
    (s.update (s.batch c) .crashed).setCall c (if rest = [] then .returned else .writing rest)
  | _ => s

/-! ### Runs -/

inductive Event
  /-- A row is written for a new execution. -/
  | created (executionId : String)
  | enqueued (executionId : String)
  /-- A worker sets the execution running. -/
  | pickedUp (executionId : String)
  /-- The run ends, and its status is written. -/
  | finished (executionId : String) (status : ActiveExecutions.ExecutionStatus)
  /-- The job goes from the queue. -/
  | removed (executionId : String)
  | recoverFromQueue
  | storedRead (call : ℕ) (storedIds : List String)
  | queueRead (call : ℕ)
  | batchWritten (call : ℕ)

/-- What an event does; one that cannot happen changes nothing. -/
def step (batchSize : ℕ) (s : QueueRecovery) : Event → QueueRecovery
  | .created executionId =>
    if s.rows.has executionId then s else { s with rows := s.rows.set executionId .new }
  | .enqueued executionId => { s with queue := s.queue ++ [executionId] }
  | .pickedUp executionId => s.update [executionId] .running
  | .finished executionId status => s.update [executionId] status
  | .removed executionId => { s with queue := s.queue.erase executionId }
  | .recoverFromQueue => s.recoverFromQueue
  | .storedRead c storedIds => s.storedRead batchSize c storedIds
  | .queueRead c => s.queueRead c
  | .batchWritten c => s.batchWritten c

/-! ### What is claimed -/

/-- The execution has ended, and its row says so. -/
def Ended (s : QueueRecovery) (executionId : String) : Prop :=
  ∃ status, s.rows.get? executionId = some status ∧ status.Final

/-- What is marked as crashed is neither in the queue nor in a final state. -/
def CrashesOnlyDangling (s : QueueRecovery) : Event → Prop
  | .batchWritten c => ∀ id ∈ s.batch c, id ∉ s.queue ∧ ¬ s.Ended id
  | _ => True

/-! ### The condition -/

/-- A call has read that the execution is in progress, and is still to read the queue. -/
def Stored (s : QueueRecovery) (executionId : String) : Prop :=
  ∃ c ids, s.calls c = .readingQueue ids ∧ executionId ∈ ids

/-- A call is about to mark the execution as crashed. -/
def Dangling (s : QueueRecovery) (executionId : String) : Prop :=
  ∃ c ids, s.calls c = .writing ids ∧ executionId ∈ ids

/-- The executions that a call holds are left alone: one that is stored does not end unless its job
is in the queue, and its job stays there once it has ended; one that is dangling is not enqueued and
does not end; and no two calls hold one execution when one of them writes it. -/
def LeftAlone (s : QueueRecovery) : Event → Prop
  | .enqueued id => ¬ s.Dangling id
  | .finished id status => status.Final → ¬ s.Dangling id ∧ (s.Stored id → id ∈ s.queue)
  | .removed id => s.Stored id → s.Ended id → id ∈ s.queue.erase id
  | .batchWritten c => ∀ id ∈ s.batch c, ¬ s.Stored id ∧
    ∀ c' ids, s.calls c' = .writing ids → id ∈ ids → c' = c
  | _ => True

/-! ### The invariant -/

/-- What holds of the ids of a call. -/
def StageOk (s : QueueRecovery) : RecoverStage → Prop
  | .readingQueue ids => ids.Nodup ∧ ∀ id ∈ ids, s.Ended id → id ∈ s.queue
  | .writing ids => ids.Nodup ∧ ∀ id ∈ ids, id ∉ s.queue ∧ ¬ s.Ended id
  | _ => True

/-- The ids of each call are as it has read them. -/
def Current (s : QueueRecovery) : Prop := ∀ c, s.StageOk (s.calls c)

theorem current_nil : Current {} := fun _ => trivial

section Steps

variable {s : QueueRecovery} {batchSize : ℕ}

theorem get?_foldl_set (ids : List String) (status : ActiveExecutions.ExecutionStatus)
    (id : String) :
    ∀ rows : Dict String ActiveExecutions.ExecutionStatus,
      (ids.foldl (fun rows id => if rows.has id then rows.set id status else rows) rows).get? id =
        if id ∈ ids then (rows.get? id).map fun _ => status else rows.get? id := by
  induction ids with
  | nil => simp
  | cons id' ids ih =>
    intro rows
    rw [List.foldl_cons, ih]
    by_cases hid : id = id'
    · subst hid
      by_cases hhas : rows.has id = true
      · obtain ⟨old, hold⟩ := Option.isSome_iff_exists.1 hhas
        simp [hhas, hold]
      · have hnone : rows.get? id = none := by simpa [Dict.has] using hhas
        simp [hhas, hnone]
    · have hget : (if rows.has id' then rows.set id' status else rows).get? id = rows.get? id := by
        split_ifs
        · exact Dict.get?_set_ne _ _ hid
        · rfl
      simp [hget, hid]

theorem ended_update {ids : List String} {status : ActiveExecutions.ExecutionStatus} {id : String} :
    (s.update ids status).Ended id → s.Ended id ∨ id ∈ ids ∧ status.Final := by
  rintro ⟨status', hget, hfinal⟩
  rw [update, get?_foldl_set] at hget
  split_ifs at hget with hid
  · obtain ⟨old, -, rfl⟩ := Option.map_eq_some_iff.1 hget
    exact .inr ⟨hid, hfinal⟩
  · exact .inl ⟨status', hget, hfinal⟩

/-- A step that moves no call. -/
theorem Current.frame {s' : QueueRecovery} (h : Current s) (hcalls : s'.calls = s.calls)
    (hstored : ∀ id, s.Stored id → (s.Ended id → id ∈ s.queue) → s'.Ended id → id ∈ s'.queue)
    (hdangling : ∀ id, s.Dangling id → id ∉ s.queue → ¬ s.Ended id →
      id ∉ s'.queue ∧ ¬ s'.Ended id) : Current s' := by
  intro c
  have hold := h c
  rw [hcalls]
  cases hstage : s.calls c with
  | readingQueue ids =>
    rw [hstage] at hold
    exact ⟨hold.1, fun id hid => hstored id ⟨c, ids, hstage, hid⟩ (hold.2 id hid)⟩
  | writing ids =>
    rw [hstage] at hold
    exact ⟨hold.1, fun id hid => hdangling id ⟨c, ids, hstage, hid⟩ (hold.2 id hid).1
      (hold.2 id hid).2⟩
  | readingStored => trivial
  | returned => trivial

/-- A step that moves one call. -/
theorem Current.setCall (h : Current s) (c : ℕ) (stage : RecoverStage) (hstage : s.StageOk stage) :
    Current (s.setCall c stage) := by
  intro c'
  show s.StageOk (Function.update s.calls c stage c')
  by_cases hc : c' = c
  · subst hc
    rwa [Function.update_self]
  · rw [Function.update_of_ne hc]
    exact h c'

theorem Current.storedRead (h : Current s) (c : ℕ) (storedIds : List String) :
    Current (s.storedRead batchSize c storedIds) := by
  unfold QueueRecovery.storedRead
  split
  · by_cases hids : s.IsStoredIds batchSize storedIds
    · rw [if_pos hids]
      refine h.setCall _ _ ?_
      split_ifs
      · trivial
      · refine ⟨hids.1, fun id hid hended => ?_⟩
        -- an execution in progress has not ended
        have hprogress := (List.mem_filter.1 (hids.2.1 id hid)).2
        obtain ⟨status, hget, hfinal⟩ := hended
        rw [hget] at hprogress
        rcases of_decide_eq_true hprogress with hnew | hrunning
        · obtain rfl := Option.some.inj hnew
          exact hfinal.elim
        · obtain rfl := Option.some.inj hrunning
          exact hfinal.elim
    · rwa [if_neg hids]
  · exact h

theorem Current.queueRead (h : Current s) (c : ℕ) : Current (s.queueRead c) := by
  unfold QueueRecovery.queueRead
  split
  · rename_i storedIds hstage
    have hold := h c
    rw [hstage] at hold
    refine h.setCall _ _ ?_
    split_ifs
    · trivial
    · refine ⟨hold.1.filter _, fun id hid => ?_⟩
      obtain ⟨hmem, hqueue⟩ := List.mem_filter.1 hid
      have hnot : id ∉ s.queue := of_decide_eq_true hqueue
      exact ⟨hnot, fun hended => hnot (hold.2 id hmem hended)⟩
  · exact h

theorem Current.batchWritten (h : Current s) {c : ℕ}
    (he : s.LeftAlone (.batchWritten c)) : Current (s.batchWritten c) := by
  unfold QueueRecovery.batchWritten
  split
  · rename_i executionIds hstage
    have hold := h c
    rw [hstage] at hold
    have hbatch : s.batch c = executionIds.take MAX_UPDATE_BATCH_SIZE := by
      simp [QueueRecovery.batch, hstage]
    -- the call itself is out of the way while the rows are written
    have hothers : Current ((s.setCall c .returned).update (s.batch c) .crashed) := by
      refine (h.setCall c .returned trivial).frame rfl ?_ ?_
      · rintro id ⟨c', ids, hc', hid⟩ hqueue hended
        refine hqueue ((ended_update hended).resolve_right fun hin => ?_)
        change Function.update s.calls c .returned c' = _ at hc'
        by_cases hc : c' = c
        · subst hc
          simp at hc'
        · rw [Function.update_of_ne hc] at hc'
          exact (he id hin.1).1 ⟨c', ids, hc', hid⟩
      · rintro id ⟨c', ids, hc', hid⟩ hqueue hnot
        refine ⟨hqueue, fun hended => hnot ((ended_update hended).resolve_right fun hin => ?_)⟩
        change Function.update s.calls c .returned c' = _ at hc'
        by_cases hc : c' = c
        · subst hc
          simp at hc'
        · rw [Function.update_of_ne hc] at hc'
          exact hc ((he id hin.1).2 c' ids hc' hid)
    have hcalls : ∀ stage, (s.update (s.batch c) .crashed).setCall c stage =
        ((s.setCall c .returned).update (s.batch c) .crashed).setCall c stage := by
      intro stage
      simp [QueueRecovery.setCall, QueueRecovery.update]
    rw [hcalls]
    refine hothers.setCall _ _ ?_
    split_ifs
    · trivial
    · refine ⟨hold.1.drop, fun id hid => ⟨(hold.2 id (List.mem_of_mem_drop hid)).1, fun hended => ?_⟩⟩
      rcases ended_update hended with hended | ⟨hin, -⟩
      · exact (hold.2 id (List.mem_of_mem_drop hid)).2 hended
      · rw [hbatch] at hin
        exact List.disjoint_take_drop hold.1 le_rfl hin hid
  · exact h

/-- **One event.** -/
theorem Current.step (h : Current s) {e : Event} (he : s.LeftAlone e) :
    Current (s.step batchSize e) := by
  cases e with
  | created executionId =>
    rw [QueueRecovery.step]
    split_ifs with hhas
    · exact h
    · have hended : ∀ id, Ended { s with rows := s.rows.set executionId .new } id → s.Ended id := by
        rintro id ⟨status, hget, hfinal⟩
        change (s.rows.set executionId .new).get? id = some status at hget
        rw [Dict.get?_set] at hget
        split_ifs at hget
        · obtain rfl := Option.some.inj hget
          exact hfinal.elim
        · exact ⟨status, hget, hfinal⟩
      refine h.frame rfl (fun id _ hqueue hid => hqueue (hended id hid)) ?_
      exact fun id _ hqueue hnot => ⟨hqueue, fun hid => hnot (hended id hid)⟩
  | enqueued executionId =>
    refine h.frame rfl (fun id _ hqueue hid => List.mem_append_left _ (hqueue hid)) ?_
    intro id hdangling hqueue hnot
    refine ⟨fun hin => ?_, hnot⟩
    rcases List.mem_append.1 hin with hold | hnew
    · exact hqueue hold
    · exact he (List.mem_singleton.1 hnew ▸ hdangling)
  | pickedUp executionId =>
    have hended : ∀ id, (s.update [executionId] .running).Ended id → s.Ended id :=
      fun id hid => (ended_update hid).resolve_right fun hin => hin.2.elim
    refine h.frame rfl (fun id _ hqueue hid => hqueue (hended id hid)) ?_
    exact fun id _ hqueue hnot => ⟨hqueue, fun hid => hnot (hended id hid)⟩
  | finished executionId status =>
    refine h.frame rfl (fun id hstored hqueue hid => ?_) fun id hdangling hqueue hnot =>
      ⟨hqueue, fun hid => ?_⟩
    · rcases ended_update hid with hold | ⟨hin, hfinal⟩
      · exact hqueue hold
      · obtain rfl := List.mem_singleton.1 hin
        exact (he hfinal).2 hstored
    · rcases ended_update hid with hold | ⟨hin, hfinal⟩
      · exact hnot hold
      · obtain rfl := List.mem_singleton.1 hin
        exact (he hfinal).1 hdangling
  | removed executionId =>
    refine h.frame rfl (fun id hstored hqueue hid => ?_) fun id _ hqueue hnot =>
      ⟨fun hin => hqueue (List.mem_of_mem_erase hin), hnot⟩
    show id ∈ s.queue.erase executionId
    by_cases heq : id = executionId
    · subst heq
      exact he hstored hid
    · exact (List.mem_erase_of_ne heq).2 (hqueue hid)
  | recoverFromQueue => exact h.setCall s.nextCall .readingStored trivial
  | storedRead c storedIds => exact h.storedRead c storedIds
  | queueRead c => exact h.queueRead c
  | batchWritten c => exact h.batchWritten he

/-- What is written is what the call holds. -/
theorem Current.crashes_dangling (h : Current s) (e : Event) : s.CrashesOnlyDangling e := by
  cases e with
  | batchWritten c =>
    intro id hid
    have hold := h c
    unfold QueueRecovery.batch at hid
    split at hid
    · rename_i executionIds hstage
      rw [hstage] at hold
      exact hold.2 id (List.mem_of_mem_take hid)
    · cases hid
  | _ => trivial

end Steps

/-! ### Runs -/

/-- **Queue recovery never crashes a live execution**, in every run in which the executions that its
calls hold are left alone. -/
theorem crashesOnlyDangling (batchSize : ℕ) (events : List Event)
    (h : Trace.EachStep (step batchSize) LeftAlone {} events) :
    Trace.EachStep (step batchSize) CrashesOnlyDangling {} events :=
  h.imp current_nil (fun _ _ hs he => hs.step he) fun _ e hs _ => hs.crashes_dangling e

theorem dangling_crashesOnlyDangling :
    let events := [.created "1", .recoverFromQueue, .storedRead 0 ["1"], .queueRead 0,
      .created "2", .enqueued "2", .batchWritten 0]
    (Trace.run (step 100) {} events).rows.get? "1" = some .crashed ∧
      Trace.EachStep (step 100) CrashesOnlyDangling {} events := by
  refine ⟨by decide, crashesOnlyDangling 100 _ ?_⟩
  simp only [Trace.eachStep_cons]
  refine ⟨trivial, trivial, trivial, trivial, trivial, ?_, ?_, Trace.eachStep_nil⟩
  · rintro ⟨c, ids, hstage, hid⟩
    match c with
    | 0 =>
      obtain rfl : ["1"] = ids := by injection hstage
      revert hid
      decide
    | c + 1 => cases hstage
  · intro id _
    refine ⟨?_, fun c' ids hstage _ => ?_⟩
    · rintro ⟨c, ids, hstage, -⟩
      match c with
      | 0 => cases hstage
      | c + 1 => cases hstage
    · match c' with
      | 0 => rfl
      | c + 1 => cases hstage

/-- The condition is needed: an execution is enqueued after the queue was read. -/
theorem enqueued_is_crashed : ¬ ∀ (batchSize : ℕ) (events : List Event),
    Trace.EachStep (step batchSize) CrashesOnlyDangling {} events := by
  intro h
  have hall := h 100 [.created "1", .recoverFromQueue, .storedRead 0 ["1"], .queueRead 0,
    .enqueued "1", .batchWritten 0]
  simp only [Trace.eachStep_cons] at hall
  obtain ⟨-, -, -, -, -, hlast, -⟩ := hall
  exact (hlast "1" (by decide)).1 (by decide)

end QueueRecovery

end N8n
