import N8n.Broker.Pairing
import N8n.Lib.MatchmakerTasks

/-!
# Orphan tasks

* `TaskBroker.NoOrphan`: the task of a finished call is gone, or its requester was told of it;
* `TaskBroker.noOrphan_run`: this holds throughout a run whose acceptances find their requests
  pending and whose settings are for tasks that were announced;
* `TaskBroker.expiry_orphans`: a request that expires while it is accepted leaves an orphan task.
-/

namespace N8n

namespace TaskBroker

variable {nanoid : ℕ → String} {mode : TaskRunnerMode}

/-- The requester of the call was sent that its task is ready. -/
def Announced (s : TaskBroker) (c : ℕ) : Prop :=
  ∃ m ∈ s.sent, m.announced =
    some ((s.requests (s.calls c).request).requesterId, s.requestIdOf c, (s.calls c).taskId)

/-- No finished call has left its task without telling the requester that it is ready. -/
def NoOrphan (s : TaskBroker) : Prop :=
  ∀ c < s.nextCall, (s.calls c).stage = .finished →
    s.tasks.get? (s.calls c).taskId = none ∨ s.Announced c

def hasActiveTasks (s : TaskBroker) : Bool := ! s.tasks.keys.isEmpty

/-- In the run over `events` no acceptance goes on when its request has left the pending ones, and
settings come in only for tasks that were announced. -/
def AcceptsWell (nanoid : ℕ → String) (mode : TaskRunnerMode) (events : List Event) : Prop :=
  ∀ pre e c, pre ++ [e] <+: events → ¬ (run nanoid mode pre).Loses e c ∧
    ((run nanoid mode pre).Answers e c → (run nanoid mode pre).Announced c)

variable {events : List Event} {e : Event}

theorem AcceptsWell.of_prefix {events' : List Event} (h : AcceptsWell nanoid mode events)
    (hp : events' <+: events) : AcceptsWell nanoid mode events' :=
  fun pre e c hpre => h pre e c (hpre.trans hp)

/-- **The tasks of a run are accounted for.** -/
theorem accounted_run (hname : Function.Injective nanoid) (h : AcceptsWell nanoid mode events) :
    (run nanoid mode events).matchmaker.Accounted nanoid := by
  induction events using List.reverseRecOn with
  | nil => refine ⟨?_, ?_, ?_, ?_, ?_⟩ <;> simp [matchmaker]
  | append_singleton events e ih =>
    have hs := ih (h.of_prefix (List.prefix_append _ _))
    have hlt := (exclusive_run nanoid mode events).request_lt
    obtain ⟨m, hm, hacts⟩ := step_refines nanoid mode (run nanoid mode events) e
    rw [run_concat]
    refine Matchmaker.Accounted.acts hname ?_ (fun m₁ c hlose => ?_) (fun m₁ c hanswer _ => ?_) hacts
    · cases hm with
      | nothing => exact hs
      | offer => exact hs.offer _
      | request => exact hs.request _ _ hlt
      | refusal => exact hs.refuse _
    · exact (h events e c (List.prefix_refl _)).1 hlose.2
    · obtain ⟨rfl, hanswer⟩ := hanswer
      exact (h events e c (List.prefix_refl _)).2 hanswer

/-- **The broker leaves no orphan task** in a run whose acceptances find their requests pending and
whose settings are for tasks that were announced. -/
theorem noOrphan_run (nanoid : ℕ → String) (mode : TaskRunnerMode) (events : List Event)
    (hname : Function.Injective nanoid) (h : AcceptsWell nanoid mode events) :
    ∀ pre, pre <+: events → (run nanoid mode pre).NoOrphan := by
  intro pre hp c hc hstage
  have haccounted := accounted_run hname (AcceptsWell.of_prefix h hp)
  by_cases htask : (run nanoid mode pre).tasks.get? ((run nanoid mode pre).calls c).taskId = none
  · exact .inl htask
  · refine .inr (haccounted.closed c hc (congrArg Stage.phase hstage) ?_)
    have hname' : ((run nanoid mode pre).calls c).taskId = nanoid c := haccounted.task c hc
    rw [hname'] at htask
    exact Option.ne_none_iff_isSome.1 htask

/-! ### Two runs -/

theorem AcceptsWell.concat (h : AcceptsWell nanoid mode events)
    (hlose : ∀ c, ¬ (run nanoid mode events).Loses e c)
    (hanswer : ∀ c, (run nanoid mode events).Answers e c → (run nanoid mode events).Announced c) :
    AcceptsWell nanoid mode (events ++ [e]) := by
  intro pre e' c hp
  rcases List.prefix_concat_iff.1 hp with heq | hp
  · obtain ⟨rfl, he⟩ := List.append_inj' heq rfl
    cases he
    exact ⟨hlose c, hanswer c⟩
  · exact h pre e' c hp

/-- An event that is neither a continuation nor brings settings. -/
theorem AcceptsWell.concat_of_ne (h : AcceptsWell nanoid mode events)
    (hresume : ∀ c returned, e ≠ .resume c returned) (hsettings : ∀ requesterId taskId settings now,
      e ≠ .requesterMessage requesterId (.taskSettings taskId settings) now) :
    AcceptsWell nanoid mode (events ++ [e]) := by
  refine h.concat (fun c => ?_) fun c => ?_
  · rintro ⟨⟨returned, he⟩, -⟩
    exact hresume c returned he
  · rintro ⟨requesterId, taskId, settings, now, he, -⟩
    exact absurd he (hsettings requesterId taskId settings now)

/-- A run of `a`s, as many as there are ids before it. -/
def unaryId (n : ℕ) : String := String.ofList (List.replicate n 'a')

theorem unaryId_injective : Function.Injective unaryId := by
  intro n n' h
  have hlength := congrArg (fun s => s.toList.length) h
  simpa [unaryId] using hlength

/-- A request, an offer for it, and the acceptance by the runner. -/
def readyTask : List Event :=
  [.registerRunner "runner", .registerRequester "requester",
    .requesterMessage "requester" (.taskRequest "request" "javascript") 0,
    .runnerMessage "runner" (.taskOffer "offer" "javascript" (-1)) 0,
    .resume 0 true, .runnerMessage "runner" (.taskAccepted "") 0, .resume 0 true]

theorem acceptsWell_readyTask : AcceptsWell unaryId .internal readyTask := by
  have hnil : AcceptsWell unaryId .internal [] := fun pre e c hp => absurd hp (by simp)
  have hask := (((hnil.concat_of_ne (e := .registerRunner "runner") (by simp) (by simp)).concat_of_ne
    (e := .registerRequester "requester") (by simp) (by simp)).concat_of_ne
    (e := .requesterMessage "requester" (.taskRequest "request" "javascript") 0)
    (by simp) (by simp)).concat_of_ne
    (e := .runnerMessage "runner" (.taskOffer "offer" "javascript" (-1)) 0) (by simp) (by simp)
  have hsent := hask.concat (e := .resume 0 true)
    (by
      rintro c ⟨-, hc, hstage, -⟩
      -- the one call still awaits the callback of the runner
      obtain rfl : c = 0 := Nat.lt_one_iff.1 hc
      exact absurd hstage (by decide))
    (by simp [Answers])
  have haccepted := hsent.concat_of_ne (e := .runnerMessage "runner" (.taskAccepted "") 0)
    (by simp) (by simp)
  exact haccepted.concat (e := .resume 0 true)
    (by
      rintro c ⟨-, hc, -, -, hnot⟩
      obtain rfl : c = 0 := Nat.lt_one_iff.1 hc
      exact hnot 0 (by decide) (by decide))
    (by simp [Answers])

theorem noOrphan_run_readyTask : (run unaryId .internal readyTask).NoOrphan :=
  noOrphan_run unaryId .internal readyTask unaryId_injective acceptsWell_readyTask readyTask
    (List.prefix_refl _)

/-- **An orphan task**: the request expires while the runner's acceptance is outstanding, and the
task that the acceptance enters is never announced. -/
theorem expiry_orphans : let events := readyTask.take 5 ++ [.timer 0] ++ readyTask.drop 5
    ((run unaryId .internal events).calls 0).stage = .finished ∧
      (run unaryId .internal events).hasActiveTasks ∧
      ((run unaryId .internal events).tasks.get? ((run unaryId .internal events).calls 0).taskId).isSome ∧
      ∀ m ∈ (run unaryId .internal events).sent, m.announced = none := by
  decide

end TaskBroker

end N8n
