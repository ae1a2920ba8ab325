import N8n.Broker.Refinement
import Mathlib.Data.List.Induction

/-!
# Requests and offers are paired once

* `TaskBroker.exclusive_run`: in every run the live calls are at different requests;
* `TaskBroker.acceptOffer_once`: of a request at most one call is in flight, each offer is passed to
  at most one call, and a request becomes at most one task.
-/

namespace N8n

open Matchmaker (Acts)

namespace TaskBroker

variable (nanoid : ℕ → String) (mode : TaskRunnerMode)

/-- The ids of the requests that come in. -/
def requestIds (events : List Event) : List String :=
  events.filterMap fun
    | .requesterMessage _ (.taskRequest requestId _) _ => some requestId
    | _ => none

/-- The ids of the offers that come in. -/
def offerIds (events : List Event) : List String :=
  events.filterMap fun
    | .runnerMessage _ (.taskOffer offerId _ _) _ => some offerId
    | _ => none

/-- The id of the request that a call is about. -/
def requestIdOf (s : TaskBroker) (c : ℕ) : String := (s.requests (s.calls c).request).requestId

/-- The calls of `acceptOffer` for a request id that have not finished. -/
def callsInFlight (s : TaskBroker) (requestId : String) : List ℕ :=
  (List.range s.nextCall).filter fun c =>
    (s.calls c).stage ≠ .finished ∧ s.requestIdOf c = requestId

/-- The calls of `acceptOffer` that an offer id was passed to. -/
def callsWithOffer (s : TaskBroker) (offerId : String) : List ℕ :=
  (List.range s.nextCall).filter fun c => (s.calls c).offer.offerId = offerId

/-- The calls that have entered a task for a request id into `tasks`. -/
def callsEntered (s : TaskBroker) (requestId : String) : List ℕ :=
  s.entered.filter fun c => s.requestIdOf c = requestId

/-! ### Runs -/

variable (events : List Event)

/-- **In every run the live calls are at different requests.** -/
theorem exclusive_run : (run nanoid mode events).matchmaker.Exclusive := by
  induction events using List.reverseRecOn with
  | nil =>
    refine ⟨?_, ?_, ?_, ?_, ?_, ?_, ?_⟩ <;> simp [matchmaker]
  | append_singleton events e ih =>
    rw [run_concat]
    obtain ⟨m, hm, hacts⟩ := step_refines nanoid mode (run nanoid mode events) e
    refine Matchmaker.Exclusive.acts ?_ hacts
    cases hm with
    | nothing => exact ih
    | request => exact ih.request ..
    | refusal => exact ih.refuse _
    | offer => exact ih.offer _

/-- The requests are some of those that came in, in their order. -/
theorem ids_run : (run nanoid mode events).matchmaker.ids.Sublist (requestIds events) := by
  induction events using List.reverseRecOn with
  | nil => exact List.Sublist.refl _
  | append_singleton events e ih =>
    rw [run_concat]
    obtain ⟨m, hm, hacts⟩ := step_refines nanoid mode (run nanoid mode events) e
    rw [(Acts.kept hacts).ids_eq, requestIds, List.filterMap_append]
    cases hm with
    | nothing | refusal | offer => exact ih.trans (List.sublist_append_left _ _)
    | request =>
      rw [Matchmaker.ids_request]
      exact ih.append (List.Sublist.refl _)

/-- The offers passed to calls are some of those that came in, each passed once. -/
theorem spent_run :
    ((run nanoid mode events).matchmaker.spent ++ (run nanoid mode events).matchmaker.offers).Subperm
      (offerIds events) := by
  induction events using List.reverseRecOn with
  | nil => exact List.Subperm.refl _
  | append_singleton events e ih =>
    rw [run_concat]
    obtain ⟨m, hm, hacts⟩ := step_refines nanoid mode (run nanoid mode events) e
    refine Acts.spent_subperm hacts ?_
    rw [offerIds, List.filterMap_append]
    cases hm with
    | nothing | refusal | request => exact ih.trans (List.sublist_append_left _ _).subperm
    | offer =>
      change ((run nanoid mode events).matchmaker.spent ++
        ((run nanoid mode events).matchmaker.offers ++ [_])).Subperm _
      rw [← List.append_assoc]
      exact ih.append (List.Subperm.refl _)

/-! ### Counting -/

omit nanoid mode in
theorem phase_eq_closed_iff (stage : Stage) : stage.phase = .closed ↔ stage = .finished := by
  cases stage <;> simp [Stage.phase]

theorem length_callsInFlight_le (requestId : String) :
    ((run nanoid mode events).callsInFlight requestId).length ≤
      (requestIds events).count requestId := by
  have hlive : ∀ c ∈ (run nanoid mode events).callsInFlight requestId,
      c < (run nanoid mode events).nextCall ∧ (run nanoid mode events).matchmaker.Live c ∧
        (run nanoid mode events).requestIdOf c = requestId := by
    intro c hc
    obtain ⟨hlt, hc⟩ := List.mem_filter.1 hc
    obtain ⟨hstage, hid⟩ := of_decide_eq_true hc
    exact ⟨List.mem_range.1 hlt, .inl fun h => hstage ((phase_eq_closed_iff _).1 h), hid⟩
  exact ((exclusive_run nanoid mode events).length_le_count (List.nodup_range.filter _) hlive).trans
    ((ids_run nanoid mode events).count_le _)

theorem length_callsEntered_le (requestId : String) :
    ((run nanoid mode events).callsEntered requestId).length ≤
      (requestIds events).count requestId := by
  have hexclusive := exclusive_run nanoid mode events
  have hlive : ∀ c ∈ (run nanoid mode events).callsEntered requestId,
      c < (run nanoid mode events).nextCall ∧ (run nanoid mode events).matchmaker.Live c ∧
        (run nanoid mode events).requestIdOf c = requestId := by
    intro c hc
    obtain ⟨hentered, hid⟩ := List.mem_filter.1 hc
    exact ⟨hexclusive.entered_lt c hentered, .inr hentered, of_decide_eq_true hid⟩
  exact (hexclusive.length_le_count (hexclusive.entered_nodup.filter _) hlive).trans
    ((ids_run nanoid mode events).count_le _)

theorem length_callsWithOffer_le (offerId : String) :
    ((run nanoid mode events).callsWithOffer offerId).length ≤ (offerIds events).count offerId := by
  have hcount : ((run nanoid mode events).callsWithOffer offerId).length =
      (run nanoid mode events).matchmaker.spent.count offerId := by
    rw [Matchmaker.spent, List.count, List.countP_map, List.countP_eq_length_filter]
    rfl
  rw [hcount]
  exact ((List.sublist_append_left _ _).count_le _).trans
    ((spent_run nanoid mode events).count_le _)

/-- **Requests and offers are paired once**: in every run each request id has no more calls in flight
and no more tasks entered than requests with it came in, and each offer id was passed to no more
calls than offers with it came in; so when the ids are distinct, at most one of each. -/
theorem acceptOffer_once (events : List Event) :
    (∀ requestId, ((run nanoid mode events).callsInFlight requestId).length ≤
        (requestIds events).count requestId ∧
      ((run nanoid mode events).callsEntered requestId).length ≤
        (requestIds events).count requestId) ∧
    (∀ offerId, ((run nanoid mode events).callsWithOffer offerId).length ≤
      (offerIds events).count offerId) ∧
    ((requestIds events).Nodup → (offerIds events).Nodup →
      (∀ requestId, ((run nanoid mode events).callsInFlight requestId).length ≤ 1 ∧
        ((run nanoid mode events).callsEntered requestId).length ≤ 1) ∧
      ∀ offerId, ((run nanoid mode events).callsWithOffer offerId).length ≤ 1) := by
  have hrequests := fun requestId =>
    And.intro (length_callsInFlight_le nanoid mode events requestId)
      (length_callsEntered_le nanoid mode events requestId)
  have hoffers := length_callsWithOffer_le nanoid mode events
  refine ⟨hrequests, hoffers, fun hr ho => ⟨fun requestId => ?_, fun offerId => ?_⟩⟩
  · have hone := List.nodup_iff_count_le_one.1 hr requestId
    exact ⟨(hrequests requestId).1.trans hone, (hrequests requestId).2.trans hone⟩
  · exact (hoffers offerId).trans (List.nodup_iff_count_le_one.1 ho offerId)

/-- A runner and a requester, an offer, a request, and the acceptance by the runner. -/
def acceptedRequest : List Event :=
  [.registerRunner "runner", .registerRequester "requester",
    .runnerMessage "runner" (.taskOffer "offer" "javascript" (-1)) 0,
    .requesterMessage "requester" (.taskRequest "request" "javascript") 0,
    .resume 0 true, .runnerMessage "runner" (.taskAccepted "0") 0]

theorem acceptOffer_once_pair :
    (∀ requestId,
      ((run toString .internal acceptedRequest).callsInFlight requestId).length ≤ 1 ∧
      ((run toString .internal acceptedRequest).callsEntered requestId).length ≤ 1) ∧
    ∀ offerId, ((run toString .internal acceptedRequest).callsWithOffer offerId).length ≤ 1 :=
  (acceptOffer_once toString .internal acceptedRequest).2.2 (by decide) (by decide)

end TaskBroker

end N8n
