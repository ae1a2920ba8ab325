import N8n.Activation.ActiveWorkflowManager
import N8n.Lib.Lts

/-!
# A removed workflow stays removed

* `StaysRemoved`: no try of a removed workflow is scheduled, it is not in memory, and no retry has
  raised an error of its own;
* `Meets`: when a removal passes a workflow, no call of `add` has yet to start its triggers, and
  when a retry fails, its workflow is in the queue without another try scheduled;
* `Quiet`, `Sound`: what the events that meet this keep;
* `staysRemoved_of_eachStep`.
-/

namespace N8n

namespace Activation

open ActiveWorkflowManager

/-! ### The property and the condition -/

namespace AddCall

/-- Whether the call may still start the triggers of its workflow. -/
def yetToStart (call : AddCall) : Bool :=
  match call.stage with
  | .findingWorkflow | .gettingBase | .acquiringIsolate | .addingWebhooks =>
    call.workflow.hasTriggerOrPollNodes
  | .startingTriggers => true
  | _ => false

/-- Whether the call throws when what it waits for answers. -/
def fails (call : AddCall) (answer : Answer) : Bool :=
  match call.stage, answer with
  | .findingWorkflow, .rejects _ | .registeringError _, _ | .savingStaticData, .rejects _ => true
  | _, _ => false

theorem yetToStart_beginAdd {activationMode : WorkflowActivateMode} {workflow : WorkflowEntity}
    {stage : Stage} (h : beginAdd activationMode workflow = some stage) {call : AddCall}
    (hnodes : call.workflow.hasTriggerOrPollNodes = false) :
    { call with stage }.yetToStart = false := by
  rw [beginAdd] at h
  split at h
  · cases h
  · split at h <;> cases h
    · rfl
    · exact hnodes

end AddCall

namespace ActiveWorkflowManager

variable (s : ActiveWorkflowManager)

/-- Nothing of a removed workflow is scheduled or in memory, and no retry has raised an error. -/
structure StaysRemoved : Prop where
  scheduled : ∀ w, s.removed w = true → ∀ timer retry, s.timers.get? timer = some retry →
    retry.workflowData.id ≠ w
  active : ∀ w, s.removed w = true → w ∉ s.activeWorkflows
  raised : s.raised = false

/-- No call of `add` for a workflow may still start its triggers. -/
def NoneYetToStart (w : String) : Prop :=
  ∀ key call, s.adds.get? key = some call → call.workflow.id = w → call.yetToStart = false

/-- The workflows that a removal, which nobody contradicted, passes with an event: after it the
removal does nothing about them. -/
def Passes (w : String) : Event → Prop
  | .removalGoesOn key answer =>
    ∃ r, s.removals.get? key = some r ∧ w ∉ r.requested ∧
      match r.stage, answer with
      | .deregisteringError workflowId, .resolves _ =>
        w = workflowId ∧ workflowId ∉ s.activeWorkflows
      | .closing workflowId, .resolves _ => w = workflowId
      | .closingAll workflowId _, .resolves _ => w = workflowId
      | _, _ => False
  | .removeAllTriggerAndPollerBasedWorkflows => w ∉ s.activeWorkflows
  | _ => False

/-- When a removal passes a workflow, no call of `add` may still start its triggers; and when a
retry fails, its workflow is in the queue, with no try scheduled. -/
def Meets (event : Event) : Prop :=
  (∀ w, s.Passes w event → s.NoneYetToStart w) ∧
    ∀ key answer call, event = .addGoesOn key answer → s.adds.get? key = some call →
      call.byRetry = true → call.fails answer = true → ∃ queued,
        s.queuedActivations.get? call.workflow.id = some queued ∧
          s.timers.get? queued.timeout = none

/-! ### What is kept -/

/-- Nothing of a workflow is going on. -/
structure Quiet (w : String) : Prop where
  queue : s.queuedActivations.get? w = none
  active : w ∉ s.activeWorkflows
  adds : s.NoneYetToStart w

/-- What a removal has achieved so far for the workflows that nobody asked for. -/
def Achieved (r : Removal) : Prop :=
  match r.stage with
  | .clearingWebhooks _ | .deregisteringError _ => True
  | .closing workflowId => workflowId ∉ r.requested → s.queuedActivations.get? workflowId = none
  | .closingAll workflowId workflowIds => ∀ w, w ∉ r.requested →
      s.queuedActivations.get? w = none ∧ (w ∉ workflowId :: workflowIds → s.Quiet w)

/-- The timers are those of the workflows in the queue. -/
def Timed : Prop :=
  ∀ timer retry, s.timers.get? timer = some retry → ∃ queued,
    s.queuedActivations.get? retry.workflowData.id = some queued ∧ queued.timeout = timer

structure Sound : Prop where
  timed : s.Timed
  raised : s.raised = false
  removed : ∀ w, s.removed w = true → s.Quiet w
  removals : ∀ key r, s.removals.get? key = some r → s.Achieved r

/-- No removal speaks for the workflow: whoever asked for it contradicted them all. -/
structure Asked (w : String) : Prop where
  removed : s.removed w = false
  requested : ∀ key r, s.removals.get? key = some r → w ∈ r.requested

variable {s} {s' s'' : ActiveWorkflowManager}

theorem Sound.staysRemoved (h : s.Sound) : s.StaysRemoved := by
  refine ⟨fun w hw timer retry ht heq => ?_, fun w hw => (h.removed w hw).active, h.raised⟩
  obtain ⟨queued, hqueued, -⟩ := h.timed timer retry ht
  rw [heq, (h.removed w hw).queue] at hqueued
  cases hqueued

/-- A workflow that is quiet stays so, and one that is not in the queue is not put there. -/
structure Calms (s s' : ActiveWorkflowManager) (w : String) : Prop where
  queue : s.queuedActivations.get? w = none → s'.queuedActivations.get? w = none
  quiet : s.Quiet w → s'.Quiet w

variable {r : Removal} {retry : Retry} {timer key : ℕ} {call : AddCall}

theorem Achieved.of_calms {r' : Removal} (h : s.Achieved r) (hstage : r'.stage = r.stage)
    (hcalms : ∀ w, w ∉ r'.requested → w ∉ r.requested ∧ Calms s s' w) : s'.Achieved r' := by
  rw [Achieved] at h ⊢
  rw [hstage]
  split at h
  · trivial
  · trivial
  · intro hw
    exact (hcalms _ hw).2.queue (h (hcalms _ hw).1)
  · intro w hw
    obtain ⟨hqueue, hquiet⟩ := h w (hcalms w hw).1
    exact ⟨(hcalms w hw).2.queue hqueue, fun hnot => (hcalms w hw).2.quiet (hquiet hnot)⟩

/-- **The frame rule**: an event that calms every workflow, but for those that were asked for. -/
theorem Sound.frame (h : s.Sound) (htimed : s'.Timed) (hraised : s'.raised = s.raised)
    (hremoved : s'.removed = s.removed) (hremovals : s'.removals = s.removals)
    (hcalms : ∀ w, ¬ s.Asked w → Calms s s' w) : s'.Sound := by
  refine ⟨htimed, hraised.trans h.raised, fun w hw => ?_, fun key r hr => ?_⟩
  · rw [hremoved] at hw
    refine (hcalms w fun hasked => ?_).quiet (h.removed w hw)
    rw [hasked.removed] at hw
    cases hw
  · rw [hremovals] at hr
    refine (h.removals key r hr).of_calms rfl fun w hw => ⟨hw, hcalms w fun hasked => ?_⟩
    exact hw (hasked.requested key r hr)

/-! ### The queue -/

theorem get?_removeQueuedWorkflowActivation (s : ActiveWorkflowManager) (id w : String) :
    (s.removeQueuedWorkflowActivation id).queuedActivations.get? w =
      if w = id then none else s.queuedActivations.get? w := by
  rw [removeQueuedWorkflowActivation]
  split
  · exact Dict.get?_erase _ _ _
  · rename_i hnone
    split
    · rename_i heq
      rw [heq, hnone]
    · rfl

@[simp] theorem activeWorkflows_removeQueuedWorkflowActivation (s : ActiveWorkflowManager)
    (id : String) : (s.removeQueuedWorkflowActivation id).activeWorkflows = s.activeWorkflows := by
  rw [removeQueuedWorkflowActivation]
  split <;> rfl

@[simp] theorem adds_removeQueuedWorkflowActivation (s : ActiveWorkflowManager) (id : String) :
    (s.removeQueuedWorkflowActivation id).adds = s.adds := by
  rw [removeQueuedWorkflowActivation]
  split <;> rfl

@[simp] theorem removals_removeQueuedWorkflowActivation (s : ActiveWorkflowManager) (id : String) :
    (s.removeQueuedWorkflowActivation id).removals = s.removals := by
  rw [removeQueuedWorkflowActivation]
  split <;> rfl

@[simp] theorem removed_removeQueuedWorkflowActivation (s : ActiveWorkflowManager) (id : String) :
    (s.removeQueuedWorkflowActivation id).removed = s.removed := by
  rw [removeQueuedWorkflowActivation]
  split <;> rfl

@[simp] theorem raised_removeQueuedWorkflowActivation (s : ActiveWorkflowManager) (id : String) :
    (s.removeQueuedWorkflowActivation id).raised = s.raised := by
  rw [removeQueuedWorkflowActivation]
  split <;> rfl

theorem Timed.removeQueuedWorkflowActivation (h : s.Timed) (id : String) :
    (s.removeQueuedWorkflowActivation id).Timed := by
  intro timer retry ht
  rw [get?_removeQueuedWorkflowActivation]
  rw [ActiveWorkflowManager.removeQueuedWorkflowActivation] at ht
  split at ht
  · rename_i queued hqueued
    rw [Dict.get?_erase] at ht
    split at ht
    · cases ht
    · rename_i hne
      obtain ⟨queued', hqueued', htimeout⟩ := h timer retry ht
      have hid : retry.workflowData.id ≠ id := by
        rintro rfl
        rw [hqueued] at hqueued'
        cases hqueued'
        exact hne htimeout.symm
      exact ⟨queued', by rw [if_neg hid, hqueued'], htimeout⟩
  · rename_i hnone
    obtain ⟨queued, hqueued, htimeout⟩ := h timer retry ht
    have hid : retry.workflowData.id ≠ id := by
      rintro rfl
      rw [hnone] at hqueued
      cases hqueued
    exact ⟨queued, by rw [if_neg hid, hqueued], htimeout⟩

variable {queued : QueuedActivation} {answer : Answer} {stage : RemovalStage}

/-- A timer is started for a workflow that has none. -/
theorem Timed.schedule (h : s.Timed) (htimeout : queued.timeout = timer)
    (hnone : ∀ timer' retry', s.timers.get? timer' = some retry' →
      retry'.workflowData.id ≠ retry.workflowData.id) :
    Timed { s with
      timers := s.timers.set timer retry
      queuedActivations := s.queuedActivations.set retry.workflowData.id queued } := by
  intro timer' retry' ht
  rw [Dict.get?_set] at ht
  split at ht
  · rename_i heq
    cases ht
    exact ⟨queued, Dict.get?_set_self _ _ _, htimeout.trans heq.symm⟩
  · obtain ⟨queued', hqueued', htimeout'⟩ := h timer' retry' ht
    refine ⟨queued', ?_, htimeout'⟩
    rw [Dict.get?_set_ne _ _ (hnone timer' retry' ht), hqueued']

/-- No timer is running for a workflow that is not in the queue. -/
theorem Timed.ne_of_get?_eq_none (h : s.Timed) {w : String}
    (hw : s.queuedActivations.get? w = none) (ht : s.timers.get? timer = some retry) :
    retry.workflowData.id ≠ w := by
  rintro rfl
  obtain ⟨queued, hqueued, -⟩ := h timer retry ht
  rw [hw] at hqueued
  cases hqueued

theorem calms_removeQueuedWorkflowActivation (s : ActiveWorkflowManager) (id w : String) :
    Calms s (s.removeQueuedWorkflowActivation id) w := by
  have hqueue : s.queuedActivations.get? w = none →
      (s.removeQueuedWorkflowActivation id).queuedActivations.get? w = none := by
    intro hnone
    rw [get?_removeQueuedWorkflowActivation, hnone, ite_self]
  refine ⟨hqueue, fun h => ⟨hqueue h.queue, ?_, ?_⟩⟩
  · rw [activeWorkflows_removeQueuedWorkflowActivation]
    exact h.active
  · rw [NoneYetToStart, adds_removeQueuedWorkflowActivation]
    exact h.adds

theorem Sound.removeQueuedWorkflowActivation (h : s.Sound) (id : String) :
    (s.removeQueuedWorkflowActivation id).Sound := by
  exact h.frame (h.timed.removeQueuedWorkflowActivation id) (by simp) (by simp) (by simp)
    fun w _ => calms_removeQueuedWorkflowActivation s id w

/-- What the removal from the queue of some workflows leaves. -/
theorem foldl_removeQueuedWorkflowActivation (ids : List String) (h : s.Sound) :
    (ids.foldl ActiveWorkflowManager.removeQueuedWorkflowActivation s).Sound ∧
      (ids.foldl ActiveWorkflowManager.removeQueuedWorkflowActivation s).activeWorkflows =
        s.activeWorkflows ∧
      (ids.foldl ActiveWorkflowManager.removeQueuedWorkflowActivation s).adds = s.adds ∧
      ∀ w, w ∈ ids ∨ s.queuedActivations.get? w = none →
        (ids.foldl ActiveWorkflowManager.removeQueuedWorkflowActivation
          s).queuedActivations.get? w = none := by
  induction ids generalizing s with
  | nil => exact ⟨h, rfl, rfl, fun w hw => hw.resolve_left List.not_mem_nil⟩
  | cons id ids ih =>
    rw [List.foldl_cons]
    obtain ⟨hsound, hactive, hadds, hnone⟩ := ih (h.removeQueuedWorkflowActivation id)
    refine ⟨hsound, ?_, ?_, fun w hw => hnone w ?_⟩
    · rw [hactive, activeWorkflows_removeQueuedWorkflowActivation]
    · rw [hadds, adds_removeQueuedWorkflowActivation]
    · rw [get?_removeQueuedWorkflowActivation]
      by_cases heq : w = id
      · exact Or.inr (if_pos heq)
      · rw [if_neg heq]
        exact hw.imp_left fun hmem => (List.mem_cons.1 hmem).resolve_left heq

theorem get?_removeAllQueuedWorkflowActivations (h : s.Sound) (w : String) :
    s.removeAllQueuedWorkflowActivations.queuedActivations.get? w = none := by
  refine (foldl_removeQueuedWorkflowActivation s.queuedActivations.keys h).2.2.2 w ?_
  rw [Dict.mem_keys_iff]
  cases s.queuedActivations.get? w with
  | none => exact Or.inr rfl
  | some queued => exact Or.inl rfl

theorem asked_request (s : ActiveWorkflowManager) (w : String) : (s.request w).Asked w := by
  refine ⟨by simp [request], fun key r hr => ?_⟩
  simp only [request, Dict.get?_mapValues, Option.map_eq_some_iff] at hr
  obtain ⟨r', -, rfl⟩ := hr
  exact List.mem_cons_self

theorem Sound.request (h : s.Sound) (w : String) : (s.request w).Sound := by
  refine ⟨h.timed, h.raised, fun w' hw => ?_, fun key r hr => ?_⟩
  · simp only [ActiveWorkflowManager.request, Bool.and_eq_true] at hw
    obtain ⟨hqueue, hactive, hadds⟩ := h.removed w' hw.1
    exact ⟨hqueue, hactive, hadds⟩
  · simp only [ActiveWorkflowManager.request, Dict.get?_mapValues, Option.map_eq_some_iff] at hr
    obtain ⟨r', hr', rfl⟩ := hr
    refine (h.removals key r' hr').of_calms rfl fun w' hw => ⟨?_, id, fun hquiet => ?_⟩
    · exact fun hmem => hw (List.mem_cons_of_mem _ hmem)
    · exact ⟨hquiet.queue, hquiet.active, hquiet.adds⟩

theorem Sound.addQueuedWorkflowActivation (h : s.Sound) (activationMode : WorkflowActivateMode)
    (workflowData : WorkflowEntity) :
    (s.addQueuedWorkflowActivation activationMode workflowData).Sound := by
  have hsound := (h.request workflowData.id).removeQueuedWorkflowActivation workflowData.id
  have hasked : ((s.request workflowData.id).removeQueuedWorkflowActivation workflowData.id).Asked
      workflowData.id := by
    refine ⟨?_, ?_⟩
    · rw [removed_removeQueuedWorkflowActivation]
      exact (asked_request s workflowData.id).removed
    · rw [removals_removeQueuedWorkflowActivation]
      exact (asked_request s workflowData.id).requested
  have hnone : ((s.request workflowData.id).removeQueuedWorkflowActivation
      workflowData.id).queuedActivations.get? workflowData.id = none := by
    rw [get?_removeQueuedWorkflowActivation, if_pos rfl]
  refine hsound.frame ?_ rfl rfl rfl fun w hw => ?_
  · exact hsound.timed.schedule rfl fun timer retry ht => hsound.timed.ne_of_get?_eq_none hnone ht
  · have hne : w ≠ workflowData.id := by
      rintro rfl
      exact hw hasked
    refine ⟨fun hqueue => ?_, fun hquiet => ⟨?_, hquiet.active, hquiet.adds⟩⟩
    · exact (Dict.get?_set_ne _ _ hne).trans hqueue
    · exact (Dict.get?_set_ne _ _ hne).trans hquiet.queue

/-! ### Adding -/

theorem Sound.add (h : s.Sound) (activationMode : WorkflowActivateMode)
    (workflow : WorkflowEntity) : (s.add activationMode workflow).Sound := by
  have hasked := asked_request s workflow.id
  refine (h.request workflow.id).frame (h.request workflow.id).timed rfl rfl rfl fun w hw =>
    ⟨id, fun hquiet => ⟨hquiet.queue, hquiet.active, fun key call hcall hid => ?_⟩⟩
  rw [ActiveWorkflowManager.add, Dict.get?_set] at hcall
  split at hcall
  · cases hcall
    exact absurd (hid ▸ hasked) hw
  · exact hquiet.adds key call hcall hid

/-- A call of `add` goes on, and it is not yet to start its triggers if it was not before. -/
theorem Sound.setStage (h : s.Sound) {stage : Stage} (hcall : s.adds.get? key = some call)
    (hstage : call.yetToStart = false → { call with stage }.yetToStart = false) :
    (s.setStage key call stage).Sound := by
  refine h.frame h.timed rfl rfl rfl fun w _ =>
    ⟨id, fun hquiet => ⟨hquiet.queue, hquiet.active, fun key' call' hcall' hid => ?_⟩⟩
  rw [ActiveWorkflowManager.setStage, Dict.get?_set] at hcall'
  split at hcall'
  · cases hcall'
    exact hstage (hquiet.adds key call hcall hid)
  · exact hquiet.adds key' call' hcall' hid

theorem Sound.ends (h : s.Sound) (key : ℕ) : (s.ends key).Sound := by
  refine h.frame h.timed rfl rfl rfl fun w _ =>
    ⟨id, fun hquiet => ⟨hquiet.queue, hquiet.active, fun key' call' hcall' hid => ?_⟩⟩
  rw [ActiveWorkflowManager.ends, Dict.get?_erase] at hcall'
  split at hcall'
  · cases hcall'
  · exact hquiet.adds key' call' hcall' hid

/-- The triggers of a workflow start in a call that was yet to start them. -/
theorem Sound.insert_activeWorkflows (h : s.Sound) (hcall : s.adds.get? key = some call)
    (hstart : call.yetToStart = true) :
    Sound { s with activeWorkflows := s.activeWorkflows.insert call.workflow.id } := by
  refine h.frame h.timed rfl rfl rfl fun w _ =>
    ⟨id, fun hquiet => ⟨hquiet.queue, fun hmem => ?_, hquiet.adds⟩⟩
  rcases OrderedSet.mem_insert.1 hmem with hmem | rfl
  · exact hquiet.active hmem
  · rw [hquiet.adds key call hcall rfl] at hstart
    cases hstart

theorem Sound.filter_activeWorkflows (h : s.Sound) (p : String → Bool) :
    Sound { s with activeWorkflows := s.activeWorkflows.filter p } := by
  refine h.frame h.timed rfl rfl rfl fun w _ =>
    ⟨id, fun hquiet => ⟨hquiet.queue, fun hmem => ?_, hquiet.adds⟩⟩
  exact hquiet.active (OrderedSet.mem_filter.1 hmem).1

/-- A retry fails whose workflow is in the queue with no try scheduled. -/
theorem Sound.retryFails (h : s.Sound) (retry : Retry)
    (hqueued : s.queuedActivations.get? retry.workflowData.id = some queued)
    (hnone : s.timers.get? queued.timeout = none) (isolateError : Bool) :
    (s.retryFails retry isolateError).Sound := by
  rw [ActiveWorkflowManager.retryFails, hqueued]
  have hne : ∀ w, s.queuedActivations.get? w = none → w ≠ retry.workflowData.id := by
    rintro w hw rfl
    rw [hqueued] at hw
    cases hw
  refine h.frame ?_ rfl rfl rfl fun w _ => ?_
  · refine h.timed.schedule rfl fun timer retry' ht hid => ?_
    obtain ⟨queued', hqueued', rfl⟩ := h.timed timer retry' ht
    rw [hid, hqueued] at hqueued'
    cases hqueued'
    rw [hnone] at ht
    cases ht
  · refine ⟨fun hqueue => ?_, fun hquiet => ⟨?_, hquiet.active, hquiet.adds⟩⟩
    · exact (Dict.get?_set_ne _ _ (hne w hqueue)).trans hqueue
    · exact (Dict.get?_set_ne _ _ (hne w hquiet.queue)).trans hquiet.queue

theorem Sound.timerFires (h : s.Sound) (ht : s.timers.get? timer = some retry) :
    (s.timerFires timer retry).Sound := by
  have htimed : Timed { s with timers := s.timers.erase timer } := by
    intro timer' retry' ht'
    rw [Dict.get?_erase] at ht'
    split at ht'
    · cases ht'
    · exact h.timed timer' retry' ht'
  rw [ActiveWorkflowManager.timerFires]
  split
  · exact h.frame htimed rfl rfl rfl fun w _ =>
      ⟨id, fun hquiet => ⟨hquiet.queue, hquiet.active, hquiet.adds⟩⟩
  · refine h.frame htimed rfl rfl rfl fun w _ =>
      ⟨id, fun hquiet => ⟨hquiet.queue, hquiet.active, fun key call hcall hid => ?_⟩⟩
    rw [Dict.get?_set] at hcall
    split at hcall
    · cases hcall
      -- the timer is one of a workflow in the queue
      exact absurd hid (h.timed.ne_of_get?_eq_none hquiet.queue ht)
    · exact hquiet.adds key call hcall hid

theorem Sound.throws (h : s.Sound) (isolateError : Bool) (hmeets : call.byRetry = true → ∃ queued,
      s.queuedActivations.get? call.workflow.id = some queued ∧
        s.timers.get? queued.timeout = none) : (s.throws key call isolateError).Sound := by
  rw [ActiveWorkflowManager.throws]
  split
  · rename_i hretry
    obtain ⟨queued, hqueued, hnone⟩ := hmeets hretry
    exact (h.ends key).retryFails ⟨call.activationMode, call.workflow⟩ hqueued hnone _
  · exact h.ends key

theorem Sound.addGoesOn (h : s.Sound) (hcall : s.adds.get? key = some call)
    (hmeets : s.Meets (.addGoesOn key answer)) : (s.addGoesOn key call answer).Sound := by
  have hthrows : call.fails answer = true → ∀ isolateError,
      (s.throws key call isolateError).Sound := fun hfails isolateError =>
    h.throws isolateError fun hretry => hmeets.2 key answer call rfl hcall hretry hfails
  cases hstage : call.stage with
  | findingWorkflow =>
    cases answer with
    | rejects isolateError =>
      simp only [addGoesOn, hstage]
      exact hthrows (by simp [AddCall.fails, hstage]) isolateError
    | resolves _ =>
      simp only [addGoesOn, hstage]
      split
      · exact h.ends key
      · rename_i hbegin
        refine h.setStage hcall fun hno => ?_
        rw [AddCall.yetToStart, hstage] at hno
        exact AddCall.yetToStart_beginAdd hbegin hno
  | gettingBase =>
    cases answer <;> simp only [addGoesOn, hstage] <;>
      exact h.setStage hcall (by simp [AddCall.yetToStart, hstage])
  | acquiringIsolate =>
    cases answer <;> simp only [addGoesOn, hstage] <;>
      exact h.setStage hcall (by simp [AddCall.yetToStart, hstage])
  | addingWebhooks =>
    cases answer with
    | rejects isolateError =>
      simp only [addGoesOn, hstage]
      exact h.setStage hcall (by simp [AddCall.yetToStart])
    | resolves _ =>
      simp only [addGoesOn, hstage]
      refine h.setStage hcall fun hno => ?_
      have hnodes : call.workflow.hasTriggerOrPollNodes = false := by
        simpa [AddCall.yetToStart, hstage] using hno
      simp [AddCall.yetToStart, hnodes]
  | startingTriggers =>
    have hstart : call.yetToStart = true := by simp [AddCall.yetToStart, hstage]
    cases answer with
    | rejects isolateError =>
      simp only [addGoesOn, hstage]
      exact h.setStage hcall (by simp [hstart])
    | resolves noResponses =>
      simp only [addGoesOn, hstage]
      exact (h.insert_activeWorkflows hcall hstart).setStage hcall (by simp [hstart])
  | startingPollers noResponses =>
    cases answer with
    | rejects isolateError =>
      simp only [addGoesOn, hstage]
      split
      · exact (h.filter_activeWorkflows _).setStage hcall (by simp [AddCall.yetToStart])
      · exact h.setStage hcall (by simp [AddCall.yetToStart])
    | resolves _ =>
      simp only [addGoesOn, hstage]
      exact h.setStage hcall (by simp [AddCall.yetToStart])
  | releasingIsolate error =>
    cases answer with
    | rejects isolateError =>
      simp only [addGoesOn, hstage]
      exact h.setStage hcall (by simp [AddCall.yetToStart])
    | resolves _ =>
      cases error with
      | some isolateError =>
        simp only [addGoesOn, hstage]
        exact h.setStage hcall (by simp [AddCall.yetToStart])
      | none =>
        simp only [addGoesOn, hstage]
        refine (h.removeQueuedWorkflowActivation call.workflow.id).setStage ?_
          (by simp [AddCall.yetToStart])
        rw [adds_removeQueuedWorkflowActivation, hcall]
  | deregisteringError =>
    cases answer <;> simp only [addGoesOn, hstage] <;>
      exact h.setStage hcall (by simp [AddCall.yetToStart])
  | updatingTriggerCount =>
    cases answer <;> simp only [addGoesOn, hstage] <;>
      exact h.setStage hcall (by simp [AddCall.yetToStart])
  | registeringError isolateError =>
    have hfails : call.fails answer = true := by simp [AddCall.fails, hstage]
    cases answer <;> simp only [addGoesOn, hstage] <;>
      exact hthrows hfails _
  | savingStaticData =>
    cases answer with
    | rejects isolateError =>
      simp only [addGoesOn, hstage]
      exact hthrows (by simp [AddCall.fails, hstage]) isolateError
    | resolves _ =>
      simp only [addGoesOn, hstage]
      exact h.ends key

/-! ### Removing -/

/-- A removal goes on to a wait up to which it has achieved what it should. -/
theorem Sound.removal (h : s.Sound) (key : ℕ) (hachieved : s.Achieved { r with stage }) :
    (s.removal key r stage).Sound := by
  have hcalms : ∀ w, Calms s (s.removal key r stage) w := fun w =>
    ⟨id, fun hquiet => ⟨hquiet.queue, hquiet.active, hquiet.adds⟩⟩
  refine ⟨h.timed, h.raised, fun w hw => (hcalms w).quiet (h.removed w hw), fun key' r' hr' => ?_⟩
  rw [ActiveWorkflowManager.removal, Dict.get?_set] at hr'
  split at hr'
  · cases hr'
    exact hachieved.of_calms rfl fun w hw => ⟨hw, hcalms w⟩
  · exact (h.removals key' r' hr').of_calms rfl fun w hw => ⟨hw, hcalms w⟩

/-- A removal ends, and the workflows it has finished with are quiet. -/
theorem Sound.endRemoval (h : s.Sound) (key : ℕ) {requested : List String}
    {finished : String → Bool} (hfinished : ∀ w, finished w = true → w ∉ requested → s.Quiet w) :
    (s.endRemoval key requested finished).Sound := by
  have hcalms : ∀ w, Calms s (s.endRemoval key requested finished) w := fun w =>
    ⟨id, fun hquiet => ⟨hquiet.queue, hquiet.active, hquiet.adds⟩⟩
  refine ⟨h.timed, h.raised, fun w hw => (hcalms w).quiet ?_, fun key' r' hr' => ?_⟩
  · simp only [ActiveWorkflowManager.endRemoval, Bool.or_eq_true, Bool.and_eq_true,
      decide_eq_true_eq] at hw
    rcases hw with hw | ⟨hw, hnot⟩
    · exact h.removed w hw
    · exact hfinished w hw hnot
  · rw [ActiveWorkflowManager.endRemoval, Dict.get?_erase] at hr'
    split at hr'
    · cases hr'
    · exact (h.removals key' r' hr').of_calms rfl fun w hw => ⟨hw, hcalms w⟩

/-- A removal begins. -/
theorem Sound.beginRemoval (h : s.Sound) (hachieved : s.Achieved { stage, requested := [] }) :
    (s.beginRemoval stage).Sound := by
  have hcalms : ∀ w, Calms s (s.beginRemoval stage) w := fun w =>
    ⟨id, fun hquiet => ⟨hquiet.queue, hquiet.active, hquiet.adds⟩⟩
  refine ⟨h.timed, h.raised, fun w hw => (hcalms w).quiet (h.removed w hw), fun key' r' hr' => ?_⟩
  rw [ActiveWorkflowManager.beginRemoval, Dict.get?_set] at hr'
  split at hr'
  · cases hr'
    exact hachieved.of_calms rfl fun w hw => ⟨hw, hcalms w⟩
  · exact (h.removals key' r' hr').of_calms rfl fun w hw => ⟨hw, hcalms w⟩

theorem Sound.removalGoesOn (h : s.Sound) (hr : s.removals.get? key = some r)
    (hmeets : s.Meets (.removalGoesOn key answer)) : (s.removalGoesOn key r answer).Sound := by
  obtain ⟨stage, requested⟩ := r
  have hach := h.removals key _ hr
  cases stage with
  | clearingWebhooks workflowId => exact h.removal key trivial
  | deregisteringError workflowId =>
    cases answer with
    | rejects _ => exact h.endRemoval key (by simp)
    | resolves b =>
      have hsound := h.removeQueuedWorkflowActivation workflowId
      have hnone : (s.removeQueuedWorkflowActivation workflowId).queuedActivations.get? workflowId =
          none := by
        rw [get?_removeQueuedWorkflowActivation, if_pos rfl]
      simp only [removalGoesOn, activeWorkflows_removeQueuedWorkflowActivation]
      split
      · exact hsound.removal key fun _ => hnone
      · rename_i hactive
        refine hsound.endRemoval key fun w hw hnot => ?_
        obtain rfl := of_decide_eq_true hw
        refine ⟨hnone, ?_, ?_⟩
        · rwa [activeWorkflows_removeQueuedWorkflowActivation]
        · rw [NoneYetToStart, adds_removeQueuedWorkflowActivation]
          exact hmeets.1 w ⟨_, hr, hnot, rfl, hactive⟩
  | closing workflowId =>
    cases answer with
    | rejects _ => exact h.endRemoval key (by simp)
    | resolves b =>
      refine (h.filter_activeWorkflows _).endRemoval key fun w hw hnot => ?_
      obtain rfl := of_decide_eq_true hw
      exact ⟨hach hnot, by simp, hmeets.1 w ⟨_, hr, hnot, rfl⟩⟩
  | closingAll workflowId workflowIds =>
    cases answer with
    | rejects _ => exact h.endRemoval key (by simp)
    | resolves b =>
      -- the workflows before this one are quiet already
      have hquiet : ∀ w, w ∉ requested → w ∉ workflowIds → Quiet { s with
          activeWorkflows := s.activeWorkflows.filter (· ≠ workflowId) } w := by
        intro w hnot hlater
        obtain ⟨hqueue, hrest⟩ := hach w hnot
        by_cases heq : w = workflowId
        · subst heq
          exact ⟨hqueue, by simp, hmeets.1 w ⟨_, hr, hnot, rfl⟩⟩
        · obtain ⟨-, hactive, hadds⟩ := hrest (by simp [heq, hlater])
          exact ⟨hqueue, fun hmem => hactive (OrderedSet.mem_filter.1 hmem).1, hadds⟩
      cases workflowIds with
      | nil =>
        exact (h.filter_activeWorkflows _).endRemoval key fun w _ hnot =>
          hquiet w hnot List.not_mem_nil
      | cons next workflowIds =>
        refine (h.filter_activeWorkflows _).removal key fun w hnot => ⟨(hach w hnot).1, ?_⟩
        exact hquiet w hnot

theorem Sound.removeAllTriggerAndPollerBasedWorkflows (h : s.Sound)
    (hmeets : s.Meets .removeAllTriggerAndPollerBasedWorkflows) :
    s.removeAllTriggerAndPollerBasedWorkflows.Sound := by
  obtain ⟨hsound, hactive, hadds, -⟩ :=
    foldl_removeQueuedWorkflowActivation s.queuedActivations.keys h
  have hnone := get?_removeAllQueuedWorkflowActivations h
  rw [← removeAllQueuedWorkflowActivations] at hsound hactive hadds
  -- a workflow that is not in memory is passed
  have hquiet : ∀ w, w ∉ s.activeWorkflows → s.removeAllQueuedWorkflowActivations.Quiet w := by
    intro w hinactive
    refine ⟨hnone w, by rwa [hactive], ?_⟩
    rw [NoneYetToStart, hadds]
    exact hmeets.1 w hinactive
  rw [ActiveWorkflowManager.removeAllTriggerAndPollerBasedWorkflows]
  simp only [hactive]
  split
  · rename_i hnil
    refine hsound.endRemoval _ fun w _ _ => hquiet w ?_
    rw [← OrderedSet.mem_elems, hnil]
    exact List.not_mem_nil
  · rename_i hcons
    refine hsound.beginRemoval fun w _ => ⟨hnone w, fun hlater => hquiet w ?_⟩
    rwa [← OrderedSet.mem_elems, hcons]

/-! ### Runs -/

theorem Sound.step (h : s.Sound) (event : Event) (hmeets : s.Meets event) :
    (s.step event).Sound := by
  cases event with
  | addQueuedWorkflowActivation activationMode workflowData =>
    exact h.addQueuedWorkflowActivation activationMode workflowData
  | add activationMode workflow => exact h.add activationMode workflow
  | timerFires timer =>
    rw [ActiveWorkflowManager.step]
    split
    · rename_i ht
      exact h.timerFires ht
    · exact h
  | addGoesOn key answer =>
    rw [ActiveWorkflowManager.step]
    split
    · rename_i hcall
      exact h.addGoesOn hcall hmeets
    · exact h
  | remove workflowId => exact h.beginRemoval trivial
  | removeAllTriggerAndPollerBasedWorkflows =>
    exact h.removeAllTriggerAndPollerBasedWorkflows hmeets
  | removalGoesOn key answer =>
    rw [ActiveWorkflowManager.step]
    split
    · rename_i hr
      exact h.removalGoesOn hr hmeets
    · exact h

theorem sound_init : Sound {} := by
  refine ⟨fun _ _ h => ?_, rfl, fun _ h => ?_, fun _ _ h => ?_⟩
  all_goals cases h

end ActiveWorkflowManager

/-- **A removed workflow stays removed** in every run whose events meet the condition. -/
theorem staysRemoved_of_eachStep (events : List Event)
    (h : Trace.EachStep ActiveWorkflowManager.step Meets {} events) :
    ∀ pre, pre <+: events → (Trace.run ActiveWorkflowManager.step {} pre).StaysRemoved := by
  intro pre hpre
  have hsound := h.invariant (I := ActiveWorkflowManager.Sound)
    ActiveWorkflowManager.sound_init
    (fun s event hs hmeets => hs.step event hmeets) pre hpre
  exact hsound.staysRemoved

/-- A retry fails, and the workflow is removed before the next one. -/
theorem staysRemoved_of_eachStep_remove :
    (Trace.run ActiveWorkflowManager.step {}
      [.addQueuedWorkflowActivation .init { id := "w" }, .timerFires 0,
        .addGoesOn 0 (.rejects false), .addGoesOn 0 (.resolves false), .remove "w",
        .removalGoesOn 1 (.resolves false), .removalGoesOn 1 (.resolves false)]).StaysRemoved := by
  refine staysRemoved_of_eachStep _ ?_ _ (List.prefix_refl _)
  simp only [Trace.eachStep_cons]
  refine ⟨?_, ?_, ⟨fun _ h => h.elim, ?_⟩, ⟨fun _ h => h.elim, ?_⟩, ?_, ⟨?_, ?_⟩, ⟨?_, ?_⟩,
    Trace.eachStep_nil⟩
  · exact ⟨fun _ h => h.elim, fun _ _ _ h => nomatch h⟩
  · exact ⟨fun _ h => h.elim, fun _ _ _ h => nomatch h⟩
  · rintro key answer call ⟨⟩ hcall - hfails
    obtain rfl := Option.some.inj hcall
    cases hfails
  · rintro key answer call ⟨⟩ hcall - -
    obtain rfl := Option.some.inj hcall
    exact ⟨_, rfl, rfl⟩
  · exact ⟨fun _ h => h.elim, fun _ _ _ h => nomatch h⟩
  · intro w _ key call hcall
    cases hcall
  · exact fun _ _ _ h => nomatch h
  · intro w _ key call hcall
    cases hcall
  · exact fun _ _ _ h => nomatch h

/-- A workflow is removed while a retry of it waits: the retry starts its triggers. -/
theorem retry_revives : ¬ ∀ events : List Event,
    (Trace.run ActiveWorkflowManager.step {} events).StaysRemoved := by
  intro h
  refine (h [.addQueuedWorkflowActivation .init { id := "w" }, .timerFires 0, .remove "w",
    .removalGoesOn 1 (.resolves false), .removalGoesOn 1 (.resolves false),
    .addGoesOn 0 (.resolves false), .addGoesOn 0 (.resolves false),
    .addGoesOn 0 (.resolves false), .addGoesOn 0 (.resolves false)]).active "w" ?_ ?_
  all_goals decide

end Activation

end N8n
