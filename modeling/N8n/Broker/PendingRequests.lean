import N8n.Broker.Pairing
import N8n.Lib.MatchmakerRequests

/-!
# Pending requests

* `TaskBroker.PendingOnce`: no request is pending twice, or after its requester was told that it
  expired or that its task is ready;
* `TaskBroker.pendingOnce_iff`: this holds throughout a run exactly when every deferral finds its
  request no longer pending and its requester not told;
* `TaskBroker.deferral_pends_twice`: a deferral leaves a request pending twice.
-/

namespace N8n

open Matchmaker (Acts Act)

namespace TaskBroker

variable (nanoid : ℕ → String) (mode : TaskRunnerMode)

/-- A requester was sent that the request expired or that its task is ready. -/
def Told (s : TaskBroker) (requestId : String) : Prop := ∃ m ∈ s.sent, m.told = some requestId

instance (s : TaskBroker) (requestId : String) : Decidable (s.Told requestId) :=
  inferInstanceAs (Decidable (∃ m ∈ s.sent, m.told = some requestId))

/-- The ids of the pending requests. -/
def pendingIds (s : TaskBroker) : List String :=
  s.pendingTaskRequests.map fun r => (s.requests r).requestId

/-- No request is pending twice or after its requester was told about it. -/
structure PendingOnce (s : TaskBroker) : Prop where
  nodup : s.pendingIds.Nodup
  not_told : ∀ requestId, s.Told requestId → requestId ∉ s.pendingIds

/-- From `s` to `s'` no call was begun for a request whose requester had been told about it. -/
def NotPairedAgain (s s' : TaskBroker) : Prop :=
  ∀ requestId, s.Told requestId →
    ∀ c, s.nextCall ≤ c → c < s'.nextCall → s'.requestIdOf c ≠ requestId

/-- The request of the call can be put back: it is not pending, and its requester was told nothing
about it. -/
def CanPutBack (s : TaskBroker) (c : ℕ) : Prop :=
  s.requestIdOf c ∉ s.pendingIds ∧ ¬ s.Told (s.requestIdOf c)

variable {nanoid mode}

variable {s : TaskBroker} {events : List Event} {e : Event}

theorem canPutBack_matchmaker {c : ℕ} (h : s.CanPutBack c) : s.matchmaker.CanPutBack c :=
  ⟨fun r hr he => h.1 (List.mem_map.2 ⟨r, hr, he⟩), h.2⟩

theorem PendingOnce.of_unrepeated {seen : Set String} (h : s.matchmaker.Unrepeated seen) :
    s.PendingOnce where
  nodup := h.nodup.map_on fun r hr r' hr' he =>
    h.distinct r (h.pending_lt r hr) r' (h.pending_lt r' hr') he
  not_told requestId htold hmem := by
    obtain ⟨r, hr, rfl⟩ := List.mem_map.1 hmem
    exact h.not_told r hr htold

/-- Every deferral of the run over `events` finds its request ready to be put back. -/
def DefersWell (nanoid : ℕ → String) (mode : TaskRunnerMode) (events : List Event) : Prop :=
  ∀ pre e c, pre ++ [e] <+: events → (run nanoid mode pre).Defers e c →
    (run nanoid mode pre).CanPutBack c

theorem DefersWell.of_prefix {events' : List Event} (h : DefersWell nanoid mode events)
    (hp : events' <+: events) : DefersWell nanoid mode events' :=
  fun pre e c hpre => h pre e c (hpre.trans hp)

/-- What comes in is new, so the pending requests stay apart. -/
theorem unrepeated_of_brings {m m' : Matchmaker String String String String}
    (hids : (requestIds (events ++ [e])).Nodup) (h : m.Unrepeated {id | id ∈ requestIds events})
    (hm : e.Brings m m') : m'.Unrepeated {id | id ∈ requestIds (events ++ [e])} := by
  have happ : requestIds (events ++ [e]) = requestIds events ++ requestIds [e] :=
    List.filterMap_append
  rw [happ] at hids ⊢
  obtain ⟨-, -, hnew⟩ := List.nodup_append.1 hids
  have hsub : {id | id ∈ requestIds events} ⊆ {id | id ∈ requestIds events ++ requestIds [e]} :=
    fun id hid => List.mem_append_left _ hid
  cases hm with
  | nothing => exact h.seen_subset hsub
  | offer => exact (h.offer _).seen_subset hsub
  | @request requesterId requestId taskType now =>
    have hmem : requestId ∈
        requestIds [.requesterMessage requesterId (.taskRequest requestId taskType) now] :=
      List.mem_singleton.2 rfl
    exact (h.request fun hseen => hnew _ hseen requestId hmem rfl).seen_subset
      (Set.insert_subset (List.mem_append_right _ hmem) hsub)
  | @refusal requesterId requestId taskType now =>
    have hmem : requestId ∈
        requestIds [.requesterMessage requesterId (.taskRequest requestId taskType) now] :=
      List.mem_singleton.2 rfl
    exact (h.refuse fun hseen => hnew _ hseen requestId hmem rfl).seen_subset
      (Set.insert_subset (List.mem_append_right _ hmem) hsub)

theorem allowed_canPutBack (h : DefersWell nanoid mode (events ++ [e]))
    (m : Matchmaker String String String String) (c : ℕ)
    (hallowed : (run nanoid mode events).Allowed e m (.defer c)) : m.CanPutBack c := by
  obtain ⟨rfl, hdefers⟩ := hallowed
  exact canPutBack_matchmaker (h events e c (List.prefix_refl _) hdefers)

/-- **The pending requests stay apart** in a run whose deferrals find their requests ready to be put
back. -/
theorem unrepeated_run (hids : (requestIds events).Nodup) (h : DefersWell nanoid mode events) :
    (run nanoid mode events).matchmaker.Unrepeated {id | id ∈ requestIds events} := by
  induction events using List.reverseRecOn with
  | nil => refine ⟨?_, ?_, ?_, ?_, ?_, ?_, ?_⟩ <;> simp [matchmaker]
  | append_singleton events e ih =>
    have hsub : (requestIds events).Sublist (requestIds (events ++ [e])) :=
      (List.sublist_append_left events [e]).filterMap _
    obtain ⟨m, hm, hacts⟩ := step_refines nanoid mode (run nanoid mode events) e
    rw [run_concat]
    have hs := ih (hids.sublist hsub) (h.of_prefix (List.prefix_append _ _))
    exact (unrepeated_of_brings hids hs hm).acts (allowed_canPutBack h) hacts

/-- A step tells more, begins calls, and leaves the calls begun at their requests. -/
theorem step_keeps (events : List Event) (e : Event) :
    (run nanoid mode events).matchmaker.told ⊆ (run nanoid mode (events ++ [e])).matchmaker.told ∧
    (run nanoid mode events).nextCall ≤ (run nanoid mode (events ++ [e])).nextCall ∧
    ∀ c < (run nanoid mode events).nextCall,
      (run nanoid mode (events ++ [e])).requestIdOf c = (run nanoid mode events).requestIdOf c := by
  rw [run_concat]
  obtain ⟨m, hm, hacts⟩ := step_refines nanoid mode (run nanoid mode events) e
  have hkept := Acts.kept hacts
  have hlt := (exclusive_run nanoid mode events).request_lt
  -- what comes in leaves the requests of the calls alone
  have hm' : (run nanoid mode events).matchmaker.told ⊆ m.told ∧
      m.count = (run nanoid mode events).nextCall ∧
      ∀ c < (run nanoid mode events).nextCall,
        m.requestId c = (run nanoid mode events).requestIdOf c := by
    cases hm with
    | nothing | offer => exact ⟨subset_rfl, rfl, fun _ _ => rfl⟩
    | refusal => exact ⟨Set.subset_insert _ _, rfl, fun _ _ => rfl⟩
    | request =>
      refine ⟨subset_rfl, rfl, fun c hc => ?_⟩
      exact congrArg Matchmaker.Request.id
        ((Matchmaker.request_requests ..).trans (if_neg (hlt c hc).ne))
  refine ⟨hm'.1.trans hkept.told, hm'.2.1 ▸ hkept.count_le, fun c hc => ?_⟩
  have hc' : c < m.count := hm'.2.1.symm ▸ hc
  calc (run nanoid mode events |>.step nanoid mode e).matchmaker.requestId c
      = m.requestId c := by
        rw [Matchmaker.requestId, (hkept.ids _).2, hkept.request c hc', Matchmaker.requestId]
    _ = (run nanoid mode events).requestIdOf c := hm'.2.2 c hc

theorem told_mono (pre post : List Event) :
    (run nanoid mode pre).matchmaker.told ⊆ (run nanoid mode (pre ++ post)).matchmaker.told := by
  induction post using List.reverseRecOn with
  | nil => rw [List.append_nil]
  | append_singleton post e ih =>
    rw [← List.append_assoc]
    exact ih.trans (step_keeps (pre ++ post) e).1

/-- No call is begun for a request once its requester was told about it. -/
theorem notPairedAgain_run (hids : (requestIds events).Nodup) (h : DefersWell nanoid mode events)
    {pre post : List Event} (hp : pre ++ post <+: events) :
    (run nanoid mode pre).NotPairedAgain (run nanoid mode (pre ++ post)) := by
  intro requestId htold
  induction post using List.reverseRecOn with
  | nil =>
    intro c hc hc'
    rw [List.append_nil] at hc'
    omega
  | append_singleton post e ih =>
    have hp' : pre ++ post <+: events := by
      rw [← List.append_assoc] at hp
      exact (List.prefix_append _ [e]).trans hp
    rw [← List.append_assoc] at hp ⊢
    intro c hc hc'
    by_cases hlt : c < (run nanoid mode (pre ++ post)).nextCall
    · rw [(step_keeps (pre ++ post) e).2.2 c hlt]
      exact ih hp' c hc hlt
    · -- the last step began the call
      have hids' : (requestIds (pre ++ post ++ [e])).Nodup :=
        hids.sublist (hp.sublist.filterMap _)
      have hs := unrepeated_run (hids.sublist (hp'.sublist.filterMap _)) (h.of_prefix hp')
      obtain ⟨m, hm, hacts⟩ := step_refines nanoid mode (run nanoid mode (pre ++ post)) e
      have htold' : requestId ∈ m.told := by
        have htold'' := told_mono pre post htold
        cases hm with
        | nothing | offer | request => exact htold''
        | refusal => exact Set.mem_insert_of_mem _ htold''
      have hcount : m.count = (run nanoid mode (pre ++ post)).nextCall := by
        cases hm <;> rfl
      rw [run_concat] at hc' ⊢
      rintro rfl
      exact (unrepeated_of_brings hids' hs hm).not_told_of_begun
        (allowed_canPutBack (h.of_prefix hp)) hacts (hcount ▸ not_lt.1 hlt) hc' htold'

/-- After a deferral the request is pending, so it has to have been ready to be put back. -/
theorem canPutBack_of_pendingOnce {c : ℕ} (hdefers : s.Defers e c)
    (h : (s.step nanoid mode e).PendingOnce) : s.CanPutBack c := by
  obtain ⟨⟨returned, rfl⟩, hc, hstage, hreply⟩ := hdefers
  have hstep : s.step nanoid mode (.resume c returned) = s.acceptDeferred c := by
    simp [step, hc, resume, hstage, hreply]
  rw [hstep] at h
  have hids : (s.acceptDeferred c).pendingIds = s.pendingIds ++ [s.requestIdOf c] := by
    have hid : ∀ r, ((s.acceptDeferred c).requests r).requestId = (s.requests r).requestId := by
      intro r
      have hm := congrArg (fun m => (m.requests r).id) (matchmaker_acceptDeferred s c)
      exact hm.trans (Matchmaker.setBusy_ids s.matchmaker _ r false).2
    have hpending : (s.acceptDeferred c).pendingTaskRequests =
        s.pendingTaskRequests ++ [(s.calls c).request] :=
      congrArg Matchmaker.pending (matchmaker_acceptDeferred s c)
    rw [pendingIds, hpending, List.map_append, List.map_singleton, hid,
      List.map_congr_left fun r _ => hid r]
    rfl
  refine ⟨fun hmem => ?_, fun htold => h.not_told (s.requestIdOf c) ?_ ?_⟩
  · have hnodup := h.nodup
    rw [hids] at hnodup
    exact (List.nodup_append.1 hnodup).2.2 _ hmem _ (List.mem_singleton.2 rfl) rfl
  · have hm := congrArg Matchmaker.told (matchmaker_acceptDeferred s c)
    exact (Set.ext_iff.1 hm _).2 htold
  · rw [hids]
    exact List.mem_append_right _ (List.mem_singleton.2 rfl)

/-- **Pending requests are unique and expire for good exactly when deferrals find their requests
ready to be put back.** -/
theorem pendingOnce_iff (nanoid : ℕ → String) (mode : TaskRunnerMode) (events : List Event)
    (hids : (requestIds events).Nodup) :
    ((∀ pre, pre <+: events → (run nanoid mode pre).PendingOnce) ∧
      ∀ pre post, pre ++ post <+: events →
        (run nanoid mode pre).NotPairedAgain (run nanoid mode (pre ++ post))) ↔
    DefersWell nanoid mode events := by
  constructor
  · rintro ⟨h, -⟩ pre e c hp hdefers
    have hnext := h (pre ++ [e]) hp
    rw [run_concat] at hnext
    exact canPutBack_of_pendingOnce hdefers hnext
  · intro h
    exact ⟨fun pre hp => .of_unrepeated
      (unrepeated_run (hids.sublist (hp.sublist.filterMap _)) (DefersWell.of_prefix h hp)),
      fun pre post hp => notPairedAgain_run hids h hp⟩

/-- A request whose runner defers the task. -/
def deferredRequest : List Event :=
  [.registerRunner "runner", .registerRequester "requester",
    .runnerMessage "runner" (.taskOffer "offer" "javascript" (-1)) 0,
    .requesterMessage "requester" (.taskRequest "request" "javascript") 0,
    .resume 0 true, .runnerMessage "runner" (.taskDeferred "0") 0, .resume 0 true]

theorem pendingOnce_iff_deferred :
    ((∀ pre, pre <+: deferredRequest → (run toString .internal pre).PendingOnce) ∧
      ∀ pre post, pre ++ post <+: deferredRequest →
        (run toString .internal pre).NotPairedAgain (run toString .internal (pre ++ post))) ↔
    DefersWell toString .internal deferredRequest :=
  pendingOnce_iff toString .internal deferredRequest (by decide)

/-- The deferral leaves the request pending twice, and it stays pending when it has expired. -/
theorem deferral_pends_twice :
    (requestIds deferredRequest).Nodup ∧
    (run toString .internal deferredRequest).pendingIds = ["request", "request"] ∧
    (run toString .internal (deferredRequest ++ [.timer 2])).pendingIds = ["request"] ∧
    (run toString .internal (deferredRequest ++ [.timer 2])).Told "request" := by
  decide

end TaskBroker

end N8n
