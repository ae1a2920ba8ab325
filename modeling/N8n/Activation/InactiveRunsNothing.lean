import N8n.Activation.ActiveWorkflows
import N8n.Lib.Lts

/-!
# An inactive workflow has nothing running

* `InactiveRunsNothing`: no cron is registered for an inactive workflow and its triggers are closed;
* `LeavesRunning`: an activation fails after something has been started, and the workflow stays
  inactive;
* `Registers`, `Starts`: what the loops of `add` do, node by node;
* `inactiveRunsNothing_iff`: the property holds throughout exactly when no activation does so.
-/

namespace N8n

namespace Activation

open ActiveWorkflows

/-- The elements up to the first that fails, which is one of them. -/
def attempted {α : Type} (fails : α → Bool) : List α → List α
  | [] => []
  | a :: l => a :: if fails a then [] else attempted fails l

/-! ### The behaviour of the nodes -/

section

variable (cronError : CronError) (workflow : Workflow)

/-- Whether a cron passes the check and is accepted. -/
def accepts (check : CronContext → Option String) (ctx : CronContext) : Bool :=
  (check ctx).isNone && (cronError ctx.expression ctx.timezone).isNone

namespace TriggerNode

def fails (node : TriggerNode) : Bool :=
  !(node.contexts workflow).all (accepts cronError fun _ => none) || !node.outcome.isOk

/-- Whether the first of its crons is registered. -/
def registers (node : TriggerNode) : Bool :=
  (node.contexts workflow).head?.any (accepts cronError fun _ => none)

/-- Whether it returns a response. -/
def responds (node : TriggerNode) : Bool :=
  match node.outcome with
  | .ok response => response.isSome
  | .error _ => false

/-- Whether it returns a response that is to be closed. -/
def opens (node : TriggerNode) : Bool :=
  !node.fails cronError workflow &&
    match node.outcome with
    | .ok closeFunction => closeFunction.getD false
    | .error _ => false

end TriggerNode

namespace PollNode

def fails (node : PollNode) : Bool :=
  match node.cronExpressions with
  | .error _ => true
  | .ok cronExpressions =>
    node.firstPoll.isSome ||
      !(node.contexts workflow cronExpressions).all (accepts cronError tooShort)

def registers (node : PollNode) : Bool :=
  match node.cronExpressions with
  | .error _ => false
  | .ok cronExpressions =>
    node.firstPoll.isNone &&
      (node.contexts workflow cronExpressions).head?.any (accepts cronError tooShort)

end PollNode

/-- The activation fails and leaves the workflow inactive after a cron was registered or a response
to be closed obtained: either a trigger fails, or no trigger responds and a poll node fails. -/
def LeavesRunning : Prop :=
  ((∃ t ∈ workflow.getTriggerNodes, t.fails cronError workflow = true) ∧
      ∃ t ∈ attempted (·.fails cronError workflow) workflow.getTriggerNodes,
        t.registers cronError workflow = true ∨ t.opens cronError workflow = true) ∨
    ((∀ t ∈ workflow.getTriggerNodes, t.fails cronError workflow = false ∧ t.responds = false) ∧
      (∃ p ∈ workflow.getPollNodes, p.fails cronError workflow = true) ∧
        ((∃ t ∈ workflow.getTriggerNodes, t.registers cronError workflow = true) ∨
          ∃ p ∈ attempted (·.fails cronError workflow) workflow.getPollNodes,
            p.registers cronError workflow = true))

end

/-! ### The property -/

/-- No cron is registered for a workflow and every response obtained for it has been closed. -/
structure RunsNothing (s : ActiveWorkflows) (workflowId : String) : Prop where
  crons : cronsOf s.cronsByWorkflow workflowId = []
  closed : ∀ r, (workflowId, r) ∈ s.obtained → r.closeFunction = true → r ∈ s.closed

def InactiveRunsNothing (s : ActiveWorkflows) : Prop :=
  ∀ workflowId, s.isActive workflowId = false → RunsNothing s workflowId

/-- `add` is called for workflows that are not active. -/
def Called (s : ActiveWorkflows) : Action → Prop
  | .add workflow => s.isActive workflow.id = false
  | .remove _ _ => True

/-- The call leaves nothing running of an inactive workflow. -/
def LeavesNothing (cronError : CronError) : Action → Prop
  | .add workflow => ¬ LeavesRunning cronError workflow
  | .remove _ _ => True

variable {cronError : CronError} {workflow : Workflow}

/-! ### Registering -/

/-- Crons have been registered for a workflow, if `registered`. -/
structure Registers (cronError : CronError) (workflowId : String) (registered : Prop)
    (crons crons' : CronsByWorkflow) : Prop where
  accepted : Accepted cronError crons'
  others : ∀ workflowId', workflowId' ≠ workflowId →
    cronsOf crons' workflowId' = cronsOf crons workflowId'
  own : cronsOf crons' workflowId = [] ↔ cronsOf crons workflowId = [] ∧ ¬ registered

namespace Registers

variable {workflowId : String} {registered registered' : Prop}
  {crons crons' crons'' : CronsByWorkflow}

theorem refl (h : Accepted cronError crons) (hnot : ¬ registered) :
    Registers cronError workflowId registered crons crons :=
  ⟨h, fun _ _ => rfl, by simp [hnot]⟩

theorem trans (h : Registers cronError workflowId registered crons crons')
    (h' : Registers cronError workflowId registered' crons' crons'') :
    Registers cronError workflowId (registered ∨ registered') crons crons'' := by
  refine ⟨h'.accepted, fun id hid => ?_, ?_⟩
  · rw [h'.others id hid, h.others id hid]
  · rw [h'.own, h.own, not_or, and_assoc]

theorem congr (h : Registers cronError workflowId registered crons crons')
    (hiff : registered ↔ registered') : Registers cronError workflowId registered' crons crons' :=
  ⟨h.accepted, h.others, by rw [h.own, hiff]⟩

end Registers

variable {ctxs : List CronContext} {crons : CronsByWorkflow}

/-- The crons up to the first that is refused are registered. -/
theorem registerAll_registers (check : CronContext → Option String) {workflowId : String}
    (hids : ∀ ctx ∈ ctxs, ctx.workflowId = workflowId) (haccepted : Accepted cronError crons) :
    Registers cronError workflowId (ctxs.head?.any (accepts cronError check) = true) crons
        (registerAll cronError check ctxs crons).2 ∧
      ((registerAll cronError check ctxs crons).1.isOk = ctxs.all (accepts cronError check)) := by
  induction ctxs generalizing crons with
  | nil => exact ⟨Registers.refl haccepted (by simp), rfl⟩
  | cons ctx ctxs ih =>
    have hid := hids ctx List.mem_cons_self
    rw [registerAll]
    split
    case h_1 message hcheck =>
      have hrefused : accepts cronError check ctx = false := by simp [accepts, hcheck]
      exact ⟨Registers.refl haccepted (by simp [hrefused]), by simp [hrefused, Except.isOk,
        Except.toBool]⟩
    case h_2 hcheck =>
      split
      case h_1 message herror =>
        have hrefused : accepts cronError check ctx = false := by
          simp [accepts, haccepted.registerCron_error_iff.1 herror]
        exact ⟨Registers.refl haccepted (by simp [hrefused]), by simp [hrefused, Except.isOk,
          Except.toBool]⟩
      case h_2 crons' hok =>
        have haccepts : accepts cronError check ctx = true := by
          cases herror : cronError ctx.expression ctx.timezone with
          | none => simp [accepts, hcheck, herror]
          | some message =>
            rw [haccepted.registerCron_error_iff.2 herror] at hok
            cases hok
        have hfirst : Registers cronError workflowId True crons crons' := by
          refine ⟨haccepted.registerCron hok, fun id hne => ?_, ?_⟩
          · exact cronsOf_registerCron_of_ne hok (hid ▸ hne)
          · have hne := cronsOf_registerCron_ne_nil hok
            rw [hid] at hne
            simp [hne]
        obtain ⟨hrest, hall⟩ := ih (fun c hc => hids c (List.mem_cons_of_mem _ hc))
          (haccepted.registerCron hok)
        refine ⟨(hfirst.trans hrest).congr (by simp [haccepts]), ?_⟩
        rw [hall, List.all_cons, haccepts, Bool.true_and]

/-! ### Starting the triggers -/

/-- Triggers of a workflow have been started and returned the responses `news`. -/
structure Starts (cronError : CronError) (workflow : Workflow) (registered : Prop)
    (news : List TriggerResponse) (s s' : ActiveWorkflows) : Prop where
  crons : Registers cronError workflow.id registered s.cronsByWorkflow s'.cronsByWorkflow
  obtained : s'.obtained = s.obtained ++ news.map fun r => (workflow.id, r)
  closed : s'.closed = s.closed
  count : s.responses ≤ s'.responses
  fresh : ∀ r ∈ news, s.responses ≤ r.object ∧ r.object < s'.responses

namespace Starts

variable {registered registered' : Prop} {news news' : List TriggerResponse}
  {s s' s'' : ActiveWorkflows}

theorem trans (h : Starts cronError workflow registered news s s')
    (h' : Starts cronError workflow registered' news' s' s'') :
    Starts cronError workflow (registered ∨ registered') (news ++ news') s s'' := by
  refine ⟨h.crons.trans h'.crons, ?_, h'.closed.trans h.closed,
    h.count.trans h'.count, fun r hr => ?_⟩
  · rw [h'.obtained, h.obtained, List.append_assoc, List.map_append]
  · rcases List.mem_append.1 hr with hr | hr
    · exact ⟨(h.fresh r hr).1, (h.fresh r hr).2.trans_le h'.count⟩
    · exact ⟨h.count.trans (h'.fresh r hr).1, (h'.fresh r hr).2⟩

theorem congr (h : Starts cronError workflow registered news s s')
    (hiff : registered ↔ registered') : Starts cronError workflow registered' news s s' :=
  ⟨h.crons.congr hiff, h.obtained, h.closed, h.count, h.fresh⟩

end Starts

variable {s : ActiveWorkflows}

/-- **A trigger node**: it fails or returns the response that it has. -/
theorem runTrigger_starts (workflow : Workflow) (node : TriggerNode)
    (haccepted : Accepted cronError s.cronsByWorkflow) :
    ∃ news, Starts cronError workflow (node.registers cronError workflow = true) news s
        (runTrigger cronError workflow node s).2 ∧
      ((∃ r ∈ news, r.closeFunction = true) ↔ node.opens cronError workflow = true) ∧
      ((∃ message, (runTrigger cronError workflow node s).1 = .error message) ∧
          node.fails cronError workflow = true ∨
        (∃ response, (runTrigger cronError workflow node s).1 = .ok response ∧
          news = response.toList ∧ response.isSome = node.responds) ∧
          node.fails cronError workflow = false) := by
  have hids : ∀ ctx ∈ node.contexts workflow, ctx.workflowId = workflow.id := by
    intro ctx hctx
    obtain ⟨cron, -, rfl⟩ := List.mem_map.1 hctx
    rfl
  obtain ⟨hregisters, hok⟩ := registerAll_registers (fun _ => none) hids haccepted
  unfold runTrigger
  cases hpair : registerAll cronError (fun _ => none) (node.contexts workflow)
    s.cronsByWorkflow
  rename_i result crons
  rw [hpair] at hregisters hok
  cases result with
  | error message =>
    have hfails : node.fails cronError workflow = true := by
      rw [TriggerNode.fails, ← hok]
      rfl
    refine ⟨[], ⟨hregisters, by simp, rfl, le_rfl, by simp⟩, ?_,
      Or.inl ⟨⟨message, rfl⟩, hfails⟩⟩
    simp [TriggerNode.opens, hfails]
  | ok u =>
    have hfails : node.fails cronError workflow = !node.outcome.isOk := by
      rw [TriggerNode.fails, ← hok]
      rfl
    cases houtcome : node.outcome with
    | error message =>
      rw [houtcome] at hfails
      refine ⟨[], ⟨hregisters, by simp, rfl, le_rfl, by simp⟩, ?_,
        Or.inl ⟨⟨message, rfl⟩, hfails⟩⟩
      simp [TriggerNode.opens, houtcome]
    | ok closeFunction =>
      rw [houtcome] at hfails
      cases closeFunction with
      | none =>
        refine ⟨[], ⟨hregisters, by simp, rfl, le_rfl, by simp⟩, ?_,
          Or.inr ⟨⟨none, rfl, rfl, ?_⟩, hfails⟩⟩
        · simp [TriggerNode.opens, houtcome]
        · simp [TriggerNode.responds, houtcome]
      | some closeFunction =>
        refine ⟨[{ object := s.responses, closeFunction }],
          ⟨hregisters, rfl, rfl, Nat.le_succ _, ?_⟩, ?_, Or.inr ⟨⟨_, rfl, rfl, ?_⟩, hfails⟩⟩
        · intro r hr
          rw [List.mem_singleton.1 hr]
          exact ⟨le_rfl, Nat.lt_succ_self _⟩
        · rw [TriggerNode.opens, hfails, houtcome]
          simp [Except.isOk, Except.toBool]
        · simp [TriggerNode.responds, houtcome]

/-- **The first loop**: the triggers up to the first that fails are started. -/
theorem startTriggers_starts (workflow : Workflow) (nodes : List TriggerNode)
    (triggerResponses : List TriggerResponse) (haccepted : Accepted cronError s.cronsByWorkflow) :
    ∃ news, Starts cronError workflow
        (∃ t ∈ attempted (·.fails cronError workflow) nodes, t.registers cronError workflow = true)
        news s (startTriggers cronError workflow nodes triggerResponses s).2 ∧
      ((∃ r ∈ news, r.closeFunction = true) ↔
        ∃ t ∈ attempted (·.fails cronError workflow) nodes, t.opens cronError workflow = true) ∧
      ((∃ e, (startTriggers cronError workflow nodes triggerResponses s).1 = .error e) ∧
          (∃ t ∈ nodes, t.fails cronError workflow = true) ∨
        (startTriggers cronError workflow nodes triggerResponses s).1 =
            .ok (triggerResponses ++ news) ∧
          (∀ t ∈ nodes, t.fails cronError workflow = false) ∧
            (news = [] ↔ ∀ t ∈ nodes, t.responds = false)) := by
  induction nodes generalizing s triggerResponses with
  | nil =>
    refine ⟨[], ⟨Registers.refl haccepted (by simp [attempted]), by simp [startTriggers],
      rfl, le_rfl, by simp⟩, by simp [attempted],
      Or.inr ⟨by simp [startTriggers], by simp, by simp⟩⟩
  | cons node nodes ih =>
    obtain ⟨news, hstarts, hopens, hresult⟩ :=
      runTrigger_starts workflow node haccepted
    rw [startTriggers]
    rcases hresult with ⟨⟨message, herror⟩, hfails⟩ | ⟨⟨response, hok, hnews, hresponds⟩, hfails⟩
    · have hattempted : attempted (·.fails cronError workflow) (node :: nodes) = [node] := by
        simp [attempted, hfails]
      rw [hattempted]
      refine ⟨news, ?_, by simpa using hopens, Or.inl ⟨?_, node, List.mem_cons_self, hfails⟩⟩
      · split
        case h_1 message' s' heq =>
          rw [heq] at hstarts
          exact hstarts.congr (by simp)
        case h_2 response s' heq =>
          rw [heq] at herror
          cases herror
      · split
        case h_1 message' s' heq => exact ⟨_, rfl⟩
        case h_2 response s' heq =>
          rw [heq] at herror
          cases herror
    · have hattempted : attempted (·.fails cronError workflow) (node :: nodes) =
          node :: attempted (·.fails cronError workflow) nodes := by
        simp [attempted, hfails]
      rw [hattempted]
      split
      case h_1 message' s' heq =>
        rw [heq] at hok
        cases hok
      case h_2 response' s' heq =>
        rw [heq] at hok hstarts
        cases hok
        obtain ⟨news', hstarts', hopens', hresult'⟩ :=
          ih (triggerResponses ++ response.toList) hstarts.crons.accepted
        refine ⟨news ++ news', (hstarts.trans hstarts').congr (by simp), ?_, ?_⟩
        · simp only [List.mem_append, or_and_right, exists_or, hopens, hopens', List.mem_cons,
            exists_eq_left]
        · rcases hresult' with ⟨herror, t, ht, hfails'⟩ | ⟨hok, hnone, hempty⟩
          · exact Or.inl ⟨herror, t, List.mem_cons_of_mem _ ht, hfails'⟩
          · refine Or.inr ⟨?_, ?_, ?_⟩
            · rw [hok, hnews, List.append_assoc]
            · intro t ht
              rcases List.mem_cons.1 ht with rfl | ht
              · exact hfails
              · exact hnone t ht
            · rw [List.append_eq_nil_iff, hempty, hnews, List.forall_mem_cons, ← hresponds]
              cases response <;> simp

/-! ### Starting to poll -/

theorem activatePolling_registers (workflow : Workflow) (node : PollNode)
    (haccepted : Accepted cronError crons) :
    Registers cronError workflow.id (node.registers cronError workflow = true) crons
        (activatePolling cronError workflow node crons).2 ∧
      (activatePolling cronError workflow node crons).1.isOk =
        !node.fails cronError workflow := by
  unfold activatePolling PollNode.registers PollNode.fails
  cases hexpressions : node.cronExpressions with
  | error message => exact ⟨Registers.refl haccepted (by simp), rfl⟩
  | ok cronExpressions =>
    cases node.firstPoll with
    | some message => exact ⟨Registers.refl haccepted (by simp), rfl⟩
    | none =>
      have hids : ∀ ctx ∈ node.contexts workflow cronExpressions, ctx.workflowId = workflow.id := by
        intro ctx hctx
        obtain ⟨expression, -, rfl⟩ := List.mem_map.1 hctx
        rfl
      simpa using registerAll_registers tooShort hids haccepted

/-- **The second loop**: the poll nodes up to the first that fails are activated. -/
theorem startPolling_registers (workflow : Workflow) (nodes : List PollNode)
    (haccepted : Accepted cronError crons) :
    Registers cronError workflow.id
        (∃ p ∈ attempted (·.fails cronError workflow) nodes, p.registers cronError workflow = true)
        crons (startPolling cronError workflow nodes crons).2 ∧
      ((∃ e, (startPolling cronError workflow nodes crons).1 = .error e) ∧
          (∃ p ∈ nodes, p.fails cronError workflow = true) ∨
        (startPolling cronError workflow nodes crons).1 = .ok () ∧
          ∀ p ∈ nodes, p.fails cronError workflow = false) := by
  induction nodes generalizing crons with
  | nil =>
    exact ⟨Registers.refl haccepted (by simp [attempted]), Or.inr ⟨rfl, by simp⟩⟩
  | cons node nodes ih =>
    obtain ⟨hregisters, hok⟩ := activatePolling_registers workflow node haccepted
    rw [startPolling]
    split
    case h_1 message crons' heq =>
      rw [heq] at hregisters hok
      have hfails : node.fails cronError workflow = true := by
        simpa [Except.isOk, Except.toBool] using hok
      have hattempted : attempted (·.fails cronError workflow) (node :: nodes) = [node] := by
        simp [attempted, hfails]
      rw [hattempted]
      exact ⟨hregisters.congr (by simp), Or.inl ⟨⟨_, rfl⟩, node, List.mem_cons_self, hfails⟩⟩
    case h_2 crons' heq =>
      rw [heq] at hregisters hok
      have hfails : node.fails cronError workflow = false := by
        simpa [Except.isOk, Except.toBool] using hok
      have hattempted : attempted (·.fails cronError workflow) (node :: nodes) =
          node :: attempted (·.fails cronError workflow) nodes := by
        simp [attempted, hfails]
      rw [hattempted]
      obtain ⟨hregisters', hresult⟩ := ih hregisters.accepted
      refine ⟨(hregisters.trans hregisters').congr (by simp), ?_⟩
      rcases hresult with ⟨herror, p, hp, hfails'⟩ | ⟨hok', hnone⟩
      · exact Or.inl ⟨herror, p, List.mem_cons_of_mem _ hp, hfails'⟩
      · refine Or.inr ⟨hok', fun p hp => ?_⟩
        rcases List.mem_cons.1 hp with rfl | hp
        · exact hfails
        · exact hnone p hp

/-! ### Adding -/

theorem activeWorkflows_runTrigger (cronError : CronError) (workflow : Workflow)
    (node : TriggerNode) (s : ActiveWorkflows) :
    (runTrigger cronError workflow node s).2.activeWorkflows = s.activeWorkflows := by
  unfold runTrigger
  dsimp only
  split
  · rfl
  · split <;> rfl

/-- Only the end of the first loop marks the workflow as active. -/
theorem activeWorkflows_startTriggers (cronError : CronError) (workflow : Workflow)
    (nodes : List TriggerNode) (triggerResponses : List TriggerResponse) (s : ActiveWorkflows) :
    (startTriggers cronError workflow nodes triggerResponses s).2.activeWorkflows =
      s.activeWorkflows := by
  induction nodes generalizing triggerResponses s with
  | nil => rfl
  | cons node nodes ih =>
    have hnode := activeWorkflows_runTrigger cronError workflow node s
    rw [startTriggers]
    split
    case h_1 message s' heq =>
      rw [heq] at hnode
      exact hnode
    case h_2 response s' heq =>
      rw [heq] at hnode
      exact (ih _ s').trans hnode

theorem attempted_of_none_fails {α : Type} {fails : α → Bool} {l : List α}
    (h : ∀ a ∈ l, fails a = false) : attempted fails l = l := by
  induction l with
  | nil => rfl
  | cons a l ih =>
    rw [attempted, h a List.mem_cons_self, ih fun b hb => h b (List.mem_cons_of_mem _ hb)]
    rfl

/-- **What `add` does to an inactive workflow**: it is active with the responses obtained, or it is
inactive and something was started exactly if it is left running. -/
theorem add_spec (haccepted : Accepted cronError s.cronsByWorkflow)
    (hinactive : s.activeWorkflows.get? workflow.id = none) :
    ∃ registered news, Starts cronError workflow registered news s (add cronError workflow s).2 ∧
      (∀ id, id ≠ workflow.id → (add cronError workflow s).2.activeWorkflows.get? id =
        s.activeWorkflows.get? id) ∧
      ((add cronError workflow s).2.activeWorkflows.get? workflow.id = some news ∧
          ¬ LeavesRunning cronError workflow ∨
        (add cronError workflow s).2.activeWorkflows.get? workflow.id = none ∧
          (LeavesRunning cronError workflow ↔
            registered ∨ ∃ r ∈ news, r.closeFunction = true)) := by
  obtain ⟨news, hstarts, hopens, hresult⟩ := startTriggers_starts workflow
    workflow.getTriggerNodes [] haccepted
  have hactive := activeWorkflows_startTriggers cronError workflow
    workflow.getTriggerNodes [] s
  unfold add
  cases hpair : startTriggers cronError workflow workflow.getTriggerNodes [] s
  rename_i result s₁
  rw [hpair] at hstarts hresult hactive
  dsimp only at hactive hstarts hresult
  rcases hresult with ⟨⟨e, rfl⟩, hfails⟩ | ⟨rfl, hnone, hempty⟩
  · -- a trigger fails
    refine ⟨_, news, hstarts, fun id _ => by rw [hactive], Or.inr ⟨by rw [hactive, hinactive], ?_⟩⟩
    have hnot : ¬ ∀ t ∈ workflow.getTriggerNodes,
        t.fails cronError workflow = false ∧ t.responds = false := by
      obtain ⟨t, ht, hfails⟩ := hfails
      intro hall
      rw [(hall t ht).1] at hfails
      cases hfails
    rw [hopens, LeavesRunning]
    simp only [hfails, hnot, true_and, false_and, or_false, and_or_left, exists_or]
  have hnofail : ¬ ∃ t ∈ workflow.getTriggerNodes, t.fails cronError workflow = true := by
    rintro ⟨t, ht, hfails⟩
    rw [hnone t ht] at hfails
    cases hfails
  obtain ⟨hpolls, hresult'⟩ := startPolling_registers workflow
    workflow.getPollNodes hstarts.crons.accepted
  dsimp only
  cases hpair' : startPolling cronError workflow workflow.getPollNodes s₁.cronsByWorkflow
  rename_i result' crons'
  rw [hpair'] at hpolls hresult'
  dsimp only at hpolls hresult'
  -- in each case the state but for what is active
  have hstarts' : ∀ active, Starts cronError workflow _ news s
      { s₁ with activeWorkflows := active, cronsByWorkflow := crons' } := fun _ =>
    ⟨hstarts.crons.trans hpolls, hstarts.obtained, hstarts.closed, hstarts.count, hstarts.fresh⟩
  have hset : ∀ id, id ≠ workflow.id →
      (s₁.activeWorkflows.set workflow.id news).get? id = s.activeWorkflows.get? id := by
    intro id hid
    rw [Dict.get?_set_ne _ _ hid, hactive]
  have hleaves : LeavesRunning cronError workflow ↔ news = [] ∧
      (∃ p ∈ workflow.getPollNodes, p.fails cronError workflow = true) ∧
        ((∃ t ∈ workflow.getTriggerNodes, t.registers cronError workflow = true) ∨
          ∃ p ∈ attempted (·.fails cronError workflow) workflow.getPollNodes,
            p.registers cronError workflow = true) := by
    rw [LeavesRunning, hempty]
    simp only [hnofail, false_and, false_or, forall_and]
    rw [and_iff_right hnone]
  rcases hresult' with ⟨⟨e, rfl⟩, hpollFails⟩ | ⟨rfl, hpollNone⟩
  · -- a poll node fails
    dsimp only [List.nil_append]
    by_cases hnews : news = []
    · rw [if_pos hnews]
      refine ⟨_, news, hstarts' _, fun id hid => ?_, Or.inr ⟨Dict.get?_erase_self _ _, ?_⟩⟩
      · exact (Dict.get?_erase_ne _ hid).trans (hset id hid)
      · rw [hleaves, attempted_of_none_fails hnone]
        simp [hnews, hpollFails]
    · rw [if_neg hnews]
      refine ⟨_, news, hstarts' _, hset, Or.inl ⟨Dict.get?_set_self _ _ _, ?_⟩⟩
      rw [hleaves]
      exact fun h => hnews h.1
  · refine ⟨_, news, hstarts' _, hset, Or.inl ⟨Dict.get?_set_self _ _ _, ?_⟩⟩
    rw [hleaves]
    rintro ⟨-, ⟨p, hp, hfails⟩, -⟩
    rw [hpollNone p hp] at hfails
    cases hfails

/-! ### Removing -/

/-- Closing triggers calls close functions only, all of them if there is no error. -/
theorem closeTriggers_spec (workflowId : String) (close : TriggerResponse → CloseOutcome)
    (rs : List TriggerResponse) (s : ActiveWorkflows) :
    ∃ closed, (closeTriggers workflowId close rs s).2 = { s with closed := s.closed ++ closed } ∧
      closed ⊆ rs ∧ ((closeTriggers workflowId close rs s).1 = .ok () →
        ∀ r ∈ rs, r.closeFunction = true → r ∈ closed) := by
  induction rs generalizing s with
  | nil => exact ⟨[], by simp [closeTriggers], List.nil_subset _, by simp⟩
  | cons r rs ih =>
    rw [closeTriggers]
    split
    case isTrue hclose =>
      obtain ⟨closed, hstate, hsub, hall⟩ := ih { s with closed := s.closed ++ [r] }
      dsimp only
      split
      case h_3 message hcase =>
        refine ⟨[r], rfl, by simp, ?_⟩
        rintro ⟨⟩
      all_goals
        refine ⟨r :: closed, ?_, List.cons_subset_cons r hsub, fun hok r' hr' hclose' => ?_⟩
        · rw [hstate]
          simp
        · rcases List.mem_cons.1 hr' with rfl | hr'
          · exact List.mem_cons_self
          · exact List.mem_cons_of_mem _ (hall hok r' hr' hclose')
    case isFalse hclose =>
      obtain ⟨closed, hstate, hsub, hall⟩ := ih s
      refine ⟨closed, hstate, List.Subset.trans hsub (List.subset_cons_self r rs),
        fun hok r' hr' hclose' => ?_⟩
      rcases List.mem_cons.1 hr' with rfl | hr'
      · exact absurd hclose' hclose
      · exact hall hok r' hr' hclose'

/-! ### Runs -/

/-- What every call keeps: what is registered was accepted, and the objects of the responses at hand
are old. -/
structure Sound (cronError : CronError) (s : ActiveWorkflows) : Prop where
  accepted : Accepted cronError s.cronsByWorkflow
  closed : ∀ r ∈ s.closed, r.object < s.responses
  active : ∀ id rs, s.activeWorkflows.get? id = some rs → ∀ r ∈ rs, r.object < s.responses

/-- What is not closed belongs to an active workflow, and so do the crons. -/
structure Kept (s : ActiveWorkflows) : Prop where
  responses : ∀ id r, (id, r) ∈ s.obtained → r.closeFunction = true → r ∉ s.closed →
    ∃ rs, s.activeWorkflows.get? id = some rs ∧ r ∈ rs
  crons : ∀ id, s.activeWorkflows.get? id = none → cronsOf s.cronsByWorkflow id = []

theorem isActive_eq_false {id : String} :
    s.isActive id = false ↔ s.activeWorkflows.get? id = none := by
  rw [isActive, Dict.has, Option.isSome_eq_false_iff, Option.isNone_iff_eq_none]

theorem Kept.inactiveRunsNothing (h : Kept s) : InactiveRunsNothing s := by
  intro id hid
  rw [isActive_eq_false] at hid
  refine ⟨h.crons id hid, fun r hr hclose => ?_⟩
  by_contra hnot
  obtain ⟨rs, hrs, -⟩ := h.responses id r hr hclose hnot
  rw [hid] at hrs
  cases hrs

theorem Sound.step (h : Sound cronError s) {action : Action} (hcalled : Called s action) :
    Sound cronError (step cronError s action) := by
  cases action with
  | add workflow =>
    have hinactive := isActive_eq_false.1 hcalled
    obtain ⟨registered, news, hstarts, hothers, hown⟩ := add_spec h.accepted hinactive
    refine ⟨hstarts.crons.accepted, fun r hr => ?_, fun id rs hrs r hr => ?_⟩
    · rw [Activation.step, hstarts.closed] at hr
      exact (h.closed r hr).trans_le hstarts.count
    · by_cases hid : id = workflow.id
      · rw [hid] at hrs
        rcases hown with ⟨hsome, -⟩ | ⟨hnone, -⟩
        · rw [Activation.step, hsome] at hrs
          cases hrs
          exact (hstarts.fresh r hr).2
        · rw [Activation.step, hnone] at hrs
          cases hrs
      · rw [Activation.step, hothers id hid] at hrs
        exact (h.active id rs hrs r hr).trans_le hstarts.count
  | remove workflowId close =>
    rw [Activation.step, remove]
    split
    case h_1 => exact h
    case h_2 rs hrs =>
      obtain ⟨closed, hstate, hsub, -⟩ := closeTriggers_spec workflowId close rs
        { s with cronsByWorkflow := deregisterCrons workflowId s.cronsByWorkflow }
      have hclosed : ∀ r ∈ s.closed ++ closed, r.object < s.responses := by
        intro r hr
        rcases List.mem_append.1 hr with hr | hr
        · exact h.closed r hr
        · exact h.active workflowId rs hrs r (hsub hr)
      dsimp only
      split
      case h_1 e s' heq =>
        rw [heq] at hstate
        dsimp only at hstate
        rw [hstate]
        exact ⟨h.accepted.deregisterCrons _, hclosed, h.active⟩
      case h_2 s' heq =>
        rw [heq] at hstate
        dsimp only at hstate
        rw [hstate]
        refine ⟨h.accepted.deregisterCrons _, hclosed, fun id rs' hrs' => ?_⟩
        dsimp only at hrs'
        rw [Dict.get?_erase] at hrs'
        split at hrs'
        · cases hrs'
        · exact h.active id rs' hrs'

theorem Kept.add (hk : Kept s) (h : Sound cronError s)
    (hinactive : s.activeWorkflows.get? workflow.id = none)
    (hleaves : ¬ LeavesRunning cronError workflow) : Kept (add cronError workflow s).2 := by
  obtain ⟨registered, news, hstarts, hothers, hown⟩ := add_spec h.accepted hinactive
  constructor
  · intro id r hr hclose hnot
    rw [hstarts.closed] at hnot
    rw [hstarts.obtained, List.mem_append] at hr
    rcases hr with hr | hr
    · obtain ⟨rs, hrs, hmem⟩ := hk.responses id r hr hclose hnot
      have hid : id ≠ workflow.id := by
        rintro rfl
        rw [hinactive] at hrs
        cases hrs
      exact ⟨rs, (hothers id hid).trans hrs, hmem⟩
    · obtain ⟨r', hr', heq⟩ := List.mem_map.1 hr
      obtain ⟨rfl, rfl⟩ := Prod.mk.inj heq
      rcases hown with ⟨hsome, -⟩ | ⟨-, hiff⟩
      · exact ⟨news, hsome, hr'⟩
      · exact absurd (hiff.2 (Or.inr ⟨r', hr', hclose⟩)) hleaves
  · intro id hid
    by_cases heq : id = workflow.id
    · rw [heq] at hid ⊢
      rcases hown with ⟨hsome, -⟩ | ⟨-, hiff⟩
      · rw [hsome] at hid
        cases hid
      · refine hstarts.crons.own.2 ⟨hk.crons _ hinactive, fun hregistered => ?_⟩
        exact hleaves (hiff.2 (Or.inl hregistered))
    · rw [hothers id heq] at hid
      rw [hstarts.crons.others id heq]
      exact hk.crons id hid

theorem Kept.remove (hk : Kept s) (workflowId : String) (close : TriggerResponse → CloseOutcome) :
    Kept (remove workflowId close s).2 := by
  rw [ActiveWorkflows.remove]
  split
  case h_1 => exact hk
  case h_2 rs hrs =>
    obtain ⟨closed, hstate, -, hall⟩ := closeTriggers_spec workflowId close rs
      { s with cronsByWorkflow := deregisterCrons workflowId s.cronsByWorkflow }
    -- the crons of the workflow are gone, those of others are not
    have hcrons : ∀ id, s.activeWorkflows.get? id = none ∨ id = workflowId →
        cronsOf (deregisterCrons workflowId s.cronsByWorkflow) id = [] := by
      intro id hid
      by_cases heq : id = workflowId
      · rw [heq]
        exact cronsOf_deregisterCrons_self _ _
      · rw [cronsOf_deregisterCrons_of_ne heq]
        exact hk.crons id (hid.resolve_right heq)
    have hopen : ∀ id r, (id, r) ∈ s.obtained → r.closeFunction = true → r ∉ s.closed ++ closed →
        ∃ rs, s.activeWorkflows.get? id = some rs ∧ r ∈ rs := by
      intro id r hr hclose hnot
      exact hk.responses id r hr hclose fun hmem => hnot (List.mem_append_left _ hmem)
    dsimp only
    split
    case h_1 e s' heq =>
      rw [heq] at hstate
      dsimp only at hstate
      rw [hstate]
      exact ⟨hopen, fun id hid => hcrons id (Or.inl hid)⟩
    case h_2 s' heq =>
      rw [heq] at hstate hall
      dsimp only at hstate
      rw [hstate]
      constructor
      · intro id r hr hclose hnot
        obtain ⟨rs', hrs', hmem⟩ := hopen id r hr hclose hnot
        by_cases hid : id = workflowId
        · rw [hid, hrs] at hrs'
          cases hrs'
          exact absurd (List.mem_append_right _ (hall rfl r hmem hclose)) hnot
        · exact ⟨rs', (Dict.get?_erase_ne _ hid).trans hrs', hmem⟩
      · intro id hid
        dsimp only at hid
        rw [Dict.get?_erase] at hid
        split at hid
        case isTrue heq => exact hcrons id (Or.inr heq)
        case isFalse => exact hcrons id (Or.inl hid)

theorem Kept.step (hk : Kept s) (h : Sound cronError s) {action : Action}
    (hcalled : Called s action) (hleaves : LeavesNothing cronError action) :
    Kept (step cronError s action) := by
  cases action with
  | add workflow => exact hk.add h (isActive_eq_false.1 hcalled) hleaves
  | remove workflowId close => exact hk.remove workflowId close

/-- An activation that leaves something running does so at once. -/
theorem not_inactiveRunsNothing_add (h : Sound cronError s)
    (hinactive : s.activeWorkflows.get? workflow.id = none)
    (hleaves : LeavesRunning cronError workflow) :
    ¬ InactiveRunsNothing (add cronError workflow s).2 := by
  obtain ⟨registered, news, hstarts, -, ⟨-, hnot⟩ | ⟨hnone, hiff⟩⟩ := add_spec h.accepted hinactive
  · exact absurd hleaves hnot
  intro hnothing
  have hruns := hnothing workflow.id (isActive_eq_false.2 hnone)
  rcases hiff.1 hleaves with hregistered | ⟨r, hr, hclose⟩
  · exact (hstarts.crons.own.1 hruns.crons).2 hregistered
  · have hobtained : (workflow.id, r) ∈ (add cronError workflow s).2.obtained := by
      rw [hstarts.obtained]
      exact List.mem_append_right _ (List.mem_map_of_mem hr)
    have hmem := hruns.closed r hobtained hclose
    rw [hstarts.closed] at hmem
    exact absurd (h.closed r hmem) (hstarts.fresh r hr).1.not_gt

theorem sound_init (cronError : CronError) : Sound cronError {} := by
  refine ⟨accepted_empty, by simp, fun id rs hrs => ?_⟩
  cases hrs

theorem kept_init : Kept {} := by
  refine ⟨fun id r hr => ?_, fun id _ => rfl⟩
  cases hr

/-- **An inactive workflow has nothing running**, after every call, exactly when no activation fails
after it has started something and without marking the workflow as active. -/
theorem inactiveRunsNothing_iff (cronError : CronError) (actions : List Action)
    (hcalled : Trace.EachStep (step cronError) Called {} actions) :
    (∀ pre, pre <+: actions → InactiveRunsNothing (Trace.run (step cronError) {} pre)) ↔
      ∀ action ∈ actions, LeavesNothing cronError action := by
  have hsound := hcalled.invariant (I := Sound cronError) (sound_init cronError)
    fun _ _ h hcalled => h.step hcalled
  constructor
  · intro h action haction
    obtain ⟨pre, post, rfl⟩ := List.append_of_mem haction
    have hpre : pre ++ [action] <+: pre ++ action :: post := ⟨post, by simp⟩
    have hcalled' := hcalled pre action hpre
    have hafter := h _ hpre
    rw [Trace.run_concat] at hafter
    cases action with
    | add workflow =>
      intro hleaves
      exact not_inactiveRunsNothing_add (hsound pre ((List.prefix_append _ _).trans hpre))
        (isActive_eq_false.1 hcalled') hleaves hafter
    | remove workflowId close => trivial
  · intro h pre hpre
    have heach : Trace.EachStep (step cronError)
        (fun s action => Called s action ∧ LeavesNothing cronError action) {} actions := by
      intro pre action hpre
      refine ⟨hcalled pre action hpre, h action (hpre.subset ?_)⟩
      exact List.mem_append_right _ List.mem_cons_self
    have hinv := heach.invariant (I := fun s => Sound cronError s ∧ Kept s)
      ⟨sound_init cronError, kept_init⟩
      (fun _ _ h haction => ⟨h.1.step haction.1, h.2.step h.1 haction.1 haction.2⟩) pre hpre
    exact hinv.2.inactiveRunsNothing

/-- A workflow with two triggers, of which the second fails. -/
def twoTriggers : Workflow where
  id := "w1"
  timezone := "UTC"
  getTriggerNodes :=
    [{ name := "Queue", id := "n1", outcome := .ok (some true) },
      { name := "Mailbox", id := "n2", outcome := .error "connection refused" }]
  getPollNodes := []

/-- All expressions are accepted. -/
def acceptAll : CronError := fun _ _ => none

/-- A workflow with one trigger. -/
def oneTrigger : Workflow where
  id := "w1"
  timezone := "UTC"
  getTriggerNodes := [{ name := "Queue", id := "n1", outcome := .ok (some true) }]
  getPollNodes := []

theorem inactiveRunsNothing_iff_oneTrigger :
    (∀ pre, pre <+: [Action.add oneTrigger, .remove "w1" fun _ => .closed] →
      InactiveRunsNothing (Trace.run (step acceptAll) {} pre)) ↔
        ∀ action ∈ [Action.add oneTrigger, .remove "w1" fun _ => .closed],
          LeavesNothing acceptAll action :=
  inactiveRunsNothing_iff acceptAll _
    (Trace.eachStep_cons.2 ⟨rfl, Trace.eachStep_cons.2 ⟨trivial, Trace.eachStep_nil⟩⟩)

/-- The first trigger is left running when the second fails. -/
theorem add_leaves_trigger : ¬ ∀ (cronError : CronError) (actions : List Action),
    Trace.EachStep (step cronError) Called {} actions →
      ∀ pre, pre <+: actions → InactiveRunsNothing (Trace.run (step cronError) {} pre) := by
  intro h
  have hnothing := h acceptAll [.add twoTriggers]
    (Trace.eachStep_cons.2 ⟨rfl, Trace.eachStep_nil⟩) _ (List.prefix_refl _)
  have hclosed := (hnothing "w1" rfl).closed { object := 0, closeFunction := true } (by decide) rfl
  revert hclosed
  decide

end Activation

end N8n
