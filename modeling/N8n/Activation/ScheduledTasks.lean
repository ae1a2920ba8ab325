import N8n.Lib.Dict

/-!
# Scheduled tasks

`scheduled-task-manager.ts`: the crons of each workflow.

* `registerCron`, `deregisterCrons`: a cron is kept under its context;
* `cronsOf`: the crons that are registered for a workflow.
-/

namespace N8n

namespace Activation

inductive Recurrence where
  | inactive
  | activated (index intervalSize : ℕ) (typeInterval : String)
  deriving DecidableEq

structure CronContext where
  workflowId : String
  nodeId : String
  expression : String
  timezone : String
  recurrence : Option Recurrence := none
  deriving DecidableEq

structure Cron where
  summary : String
  ctx : CronContext
  deriving DecidableEq

/-- The key of a cron: it is the JSON text of the context with its properties sorted, which tells
contexts apart. -/
abbrev CronKey := CronContext

abbrev CronsByWorkflow := Dict String (Dict CronKey Cron)

/-- The message with which `new CronJob` refuses an expression in a time zone. -/
abbrev CronError := String → String → Option String

def summaryOf (ctx : CronContext) : String :=
  match ctx.recurrence with
  | some (.activated _ intervalSize typeInterval) =>
    ctx.expression ++ " (every " ++ toString intervalSize ++ " " ++ typeInterval ++ ")"
  | _ => ctx.expression

variable (cronError : CronError)

/-- Register a cron, unless it is registered already. -/
def registerCron (ctx : CronContext) (crons : CronsByWorkflow) : Except String CronsByWorkflow :=
  let workflowCrons := crons.get? ctx.workflowId
  if workflowCrons.any (·.has ctx) then .ok crons
  else
    match cronError ctx.expression ctx.timezone with
    | some message => .error message
    | none =>
      let cron : Cron := { summary := summaryOf ctx, ctx }
      .ok (crons.set ctx.workflowId ((workflowCrons.getD Dict.empty).set ctx cron))

def deregisterCrons (workflowId : String) (crons : CronsByWorkflow) : CronsByWorkflow :=
  match crons.get? workflowId with
  | none => crons
  | some workflowCrons => if workflowCrons.entries = [] then crons else crons.erase workflowId

/-- The crons that are registered for a workflow. -/
def cronsOf (crons : CronsByWorkflow) (workflowId : String) : List Cron :=
  ((crons.get? workflowId).getD Dict.empty).values

variable {cronError} {crons crons' : CronsByWorkflow} {ctx : CronContext}

theorem cronsOf_registerCron_of_ne (h : registerCron cronError ctx crons = .ok crons')
    {workflowId : String} (hne : workflowId ≠ ctx.workflowId) :
    cronsOf crons' workflowId = cronsOf crons workflowId := by
  unfold registerCron at h
  dsimp only at h
  split at h
  · cases h
    rfl
  split at h
  · cases h
  · cases h
    rw [cronsOf, Dict.get?_set_ne _ _ hne, cronsOf]

/-- A registered cron, be it new or not, is there. -/
theorem cronsOf_registerCron_ne_nil (h : registerCron cronError ctx crons = .ok crons') :
    cronsOf crons' ctx.workflowId ≠ [] := by
  have hvalues : ∀ {d : Dict CronKey Cron} {c}, d.get? ctx = some c → d.values ≠ [] := by
    intro d c hc
    exact List.ne_nil_of_mem ((Dict.mem_values_iff d c).2 ⟨ctx, hc⟩)
  unfold registerCron at h
  dsimp only at h
  split at h
  case isTrue hhas =>
    cases h
    obtain ⟨d, hd, hhas⟩ := (Option.any_eq_true _ _).1 hhas
    obtain ⟨c, hc⟩ := Option.isSome_iff_exists.1 hhas
    rw [cronsOf, hd]
    exact hvalues hc
  case isFalse =>
    split at h
    · cases h
    · cases h
      rw [cronsOf, Dict.get?_set_self]
      exact hvalues (Dict.get?_set_self _ _ _)

/-- Only accepted crons are registered. -/
def Accepted (cronError : CronError) (crons : CronsByWorkflow) : Prop :=
  ∀ workflowId d ctx c, crons.get? workflowId = some d → d.get? ctx = some c →
    cronError ctx.expression ctx.timezone = none

theorem accepted_empty : Accepted cronError Dict.empty := by
  intro workflowId d ctx c hd
  cases hd

theorem Accepted.registerCron_error_iff (haccepted : Accepted cronError crons) {message : String} :
    registerCron cronError ctx crons = .error message ↔
      cronError ctx.expression ctx.timezone = some message := by
  unfold registerCron
  dsimp only
  split
  case isTrue hhas =>
    obtain ⟨d, hd, hhas⟩ := (Option.any_eq_true _ _).1 hhas
    obtain ⟨c, hc⟩ := Option.isSome_iff_exists.1 hhas
    rw [haccepted _ d ctx c hd hc]
    simp
  case isFalse =>
    split
    case h_1 message' hmessage => simp [hmessage]
    case h_2 hnone => simp [hnone]

theorem Accepted.registerCron (haccepted : Accepted cronError crons)
    (h : registerCron cronError ctx crons = .ok crons') : Accepted cronError crons' := by
  unfold Activation.registerCron at h
  dsimp only at h
  split at h
  · cases h
    exact haccepted
  split at h
  · cases h
  case h_2 hnone =>
    cases h
    intro workflowId d ctx' c hd hc
    rw [Dict.get?_set] at hd
    split at hd
    · cases hd
      rw [Dict.get?_set] at hc
      split at hc
      case isTrue heq =>
        rw [heq]
        exact hnone
      case isFalse =>
        cases hcrons : crons.get? ctx.workflowId with
        | none =>
          rw [hcrons] at hc
          cases hc
        | some d' =>
          rw [hcrons] at hc
          exact haccepted _ d' ctx' c hcrons hc
    · exact haccepted _ d ctx' c hd hc

theorem Accepted.deregisterCrons (haccepted : Accepted cronError crons) (workflowId : String) :
    Accepted cronError (deregisterCrons workflowId crons) := by
  unfold Activation.deregisterCrons
  split
  · exact haccepted
  split
  · exact haccepted
  · intro workflowId' d ctx c hd hc
    rw [Dict.get?_erase] at hd
    split at hd
    · cases hd
    · exact haccepted _ d ctx c hd hc

theorem cronsOf_deregisterCrons_self (workflowId : String) (crons : CronsByWorkflow) :
    cronsOf (deregisterCrons workflowId crons) workflowId = [] := by
  unfold deregisterCrons
  split
  case h_1 hnone => rw [cronsOf, hnone]; rfl
  case h_2 d hd =>
    split
    case isTrue hempty =>
      rw [cronsOf, hd, Option.getD_some, Dict.values, hempty]
      rfl
    case isFalse =>
      rw [cronsOf, Dict.get?_erase_self]
      rfl

theorem cronsOf_deregisterCrons_of_ne {workflowId workflowId' : String}
    (hne : workflowId' ≠ workflowId) (crons : CronsByWorkflow) :
    cronsOf (deregisterCrons workflowId crons) workflowId' = cronsOf crons workflowId' := by
  unfold deregisterCrons
  split
  · rfl
  split
  · rfl
  · rw [cronsOf, Dict.get?_erase_ne _ hne, cronsOf]

end Activation

end N8n
