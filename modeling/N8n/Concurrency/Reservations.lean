import N8n.Concurrency.ActiveExecutions
import N8n.Lib.Lts

/-!
# Reservations are given back

* `ActiveExecutions.Place`: where the reservation of a call is;
* `ActiveExecutions.Careful`: the events that orphan no reservation;
* `ActiveExecutions.givesBack_run`: in a run of such events every reservation is released once, or
  is held by a pending call or by an active execution;
* `ActiveExecutions.stopped_leaks`: an execution that is stopped while it waits leaks one.
-/

namespace N8n

namespace ActiveExecutions

/-- Where the reservation of a call is. -/
inductive Place (s : ActiveExecutions) (c : ℕ) : Prop
  | idle (hstage : (s.calls c).stage ≠ .updating ∧ (s.calls c).stage ≠ .added)
      (hacquired : (s.calls c).acquiredReservation = false) (hjob : c ∉ s.jobs)
      (hreserved : c ∈ s.reserved → (s.calls c).stage = .failed ∧ c ∈ s.released)
      (hreleased : c ∈ s.released → c ∈ s.reserved)
  | updating (hstage : (s.calls c).stage = .updating)
      (hacquired : (s.calls c).acquiredReservation = true) (hjob : c ∉ s.jobs)
      (hreserved : c ∈ s.reserved) (hreleased : c ∉ s.released)
  | active (hstage : (s.calls c).stage = .added)
      (hacquired : (s.calls c).acquiredReservation = true) (hjob : c ∉ s.jobs)
      (hreserved : c ∈ s.reserved) (hreleased : c ∉ s.released)
      (hsettled : (s.executions c).settled = false)
      (hentry : s.activeExecutions.get? (s.calls c).executionId = some c)
  | settled (hstage : (s.calls c).stage = .added)
      (hacquired : (s.calls c).acquiredReservation = true) (hjob : c ∈ s.jobs)
      (hreserved : c ∈ s.reserved) (hreleased : c ∉ s.released)
      (hsettled : (s.executions c).settled = true)
      (hentry : s.activeExecutions.get? (s.calls c).executionId = some c)
  | gone (hstage : (s.calls c).stage = .added)
      (hacquired : (s.calls c).acquiredReservation = false) (hjob : c ∉ s.jobs)
      (hreserved : c ∈ s.reserved) (hreleased : c ∈ s.released)
      (hsettled : (s.executions c).settled = true)

/-- What keeps the reservation of a call where it is. -/
structure Frame (s s' : ActiveExecutions) (c : ℕ) : Prop where
  calls : s'.calls c = s.calls c
  settled : (s'.executions c).settled = (s.executions c).settled
  jobs : c ∈ s'.jobs ↔ c ∈ s.jobs
  reserved : c ∈ s'.reserved ↔ c ∈ s.reserved
  released : c ∈ s'.released ↔ c ∈ s.released
  entry : (s.calls c).acquiredReservation = true →
    s.activeExecutions.get? (s.calls c).executionId = some c →
    s'.activeExecutions.get? (s.calls c).executionId = some c

variable {s : ActiveExecutions} {mode : ExecutionsMode}

theorem Place.frame {s' : ActiveExecutions} {c : ℕ} (h : Place s c) (hframe : Frame s s' c) :
    Place s' c := by
  obtain ⟨hcalls, hset, hjobs, hres, hrel, hent⟩ := hframe
  cases h with
  | idle hstage hacquired hjob hreserved hreleased =>
    exact .idle (hcalls ▸ hstage) (hcalls ▸ hacquired) (mt hjobs.1 hjob)
      (fun h => hcalls ▸ ⟨(hreserved (hres.1 h)).1, hrel.2 (hreserved (hres.1 h)).2⟩)
      fun h => hres.2 (hreleased (hrel.1 h))
  | updating hstage hacquired hjob hreserved hreleased =>
    exact .updating (hcalls ▸ hstage) (hcalls ▸ hacquired) (mt hjobs.1 hjob) (hres.2 hreserved)
      (mt hrel.1 hreleased)
  | active hstage hacquired hjob hreserved hreleased hsettled hentry =>
    exact .active (hcalls ▸ hstage) (hcalls ▸ hacquired) (mt hjobs.1 hjob) (hres.2 hreserved)
      (mt hrel.1 hreleased) (hset.trans hsettled) (hcalls ▸ hent hacquired hentry)
  | settled hstage hacquired hjob hreserved hreleased hsettled hentry =>
    exact .settled (hcalls ▸ hstage) (hcalls ▸ hacquired) (hjobs.2 hjob) (hres.2 hreserved)
      (mt hrel.1 hreleased) (hset.trans hsettled) (hcalls ▸ hent hacquired hentry)
  | gone hstage hacquired hjob hreserved hreleased hsettled =>
    exact .gone (hcalls ▸ hstage) (hcalls ▸ hacquired) (mt hjobs.1 hjob) (hres.2 hreserved)
      (hrel.2 hreleased) (hset.trans hsettled)

/-- The invariant. -/
structure Kept (s : ActiveExecutions) : Prop where
  place : ∀ c, Place s c
  entry : ∀ executionId c, s.activeExecutions.get? executionId = some c →
    (s.calls c).executionId = executionId ∧ (s.calls c).stage = .added
  fresh : ∀ c, s.nextCall ≤ c → (s.calls c).stage = .failed ∧ c ∉ s.reserved
  nodup_jobs : s.jobs.Nodup
  nodup_reserved : s.reserved.Nodup
  nodup_released : s.released.Nodup

theorem kept_nil : Kept {} where
  place c := .idle (by simp) rfl (by simp) (by simp) (by simp)
  entry executionId c h := by cases h
  fresh c _ := ⟨rfl, by simp⟩
  nodup_jobs := List.nodup_nil
  nodup_reserved := List.nodup_nil
  nodup_released := List.nodup_nil

section Step

variable {s : ActiveExecutions} {c : ℕ}

/-- A call that has not reserved yet. -/
theorem Kept.idle_of_stage (h : Kept s) (hstage : (s.calls c).stage = .creating ∨
    (s.calls c).stage = .reserving) :
    (s.calls c).acquiredReservation = false ∧ c ∉ s.jobs ∧ c ∉ s.reserved ∧ c ∉ s.released := by
  cases h.place c with
  | idle _ hacquired hjob hreserved hreleased =>
    have hnot : c ∉ s.reserved := fun hmem => by
      rcases hstage with hstage | hstage <;> simp [hstage] at hreserved <;> exact hreserved hmem
    exact ⟨hacquired, hjob, hnot, mt hreleased hnot⟩
  | updating hs | active hs | settled hs | gone hs =>
    rcases hstage with hstage | hstage <;> simp [hstage] at hs

theorem Kept.lt_nextCall (h : Kept s) (hstage : (s.calls c).stage ≠ .failed) : c < s.nextCall := by
  by_contra hle
  exact hstage (h.fresh c (Nat.le_of_not_lt hle)).1

variable {c' : ℕ} {call : AddCall} {l : List ℕ} {executionId : String}

theorem calls_setCall_of_ne (s : ActiveExecutions) (call : AddCall) (h : c' ≠ c) :
    (s.setCall c call).calls c' = s.calls c' := Function.update_of_ne h _ _

@[simp] theorem calls_setCall_self (s : ActiveExecutions) (call : AddCall) :
    (s.setCall c call).calls c = call := Function.update_self _ _ _

theorem Kept.newCall (h : Kept s) (hstage : call.stage = .creating ∨ call.stage = .reserving)
    (hacquired : call.acquiredReservation = false) : Kept (s.newCall call) := by
  obtain ⟨hnew, hreserved⟩ := h.fresh s.nextCall (Nat.le_refl _)
  have hself : (s.newCall call).calls s.nextCall = call := calls_setCall_self s call
  have hother : ∀ c ≠ s.nextCall, (s.newCall call).calls c = s.calls c :=
    fun c hc => calls_setCall_of_ne s call hc
  constructor
  case place =>
    intro c
    by_cases hc : c = s.nextCall
    · subst hc
      have hidle : s.nextCall ∉ s.jobs ∧ s.nextCall ∉ s.released := by
        cases h.place s.nextCall with
        | idle _ _ hjob _ hreleased => exact ⟨hjob, mt hreleased hreserved⟩
        | updating hs | active hs | settled hs | gone hs => simp [hnew] at hs
      refine .idle ?_ ?_ hidle.1 (fun hmem => absurd hmem hreserved) fun hmem => absurd hmem hidle.2
      · rw [hself]
        rcases hstage with hs | hs <;> simp [hs]
      · rw [hself]
        exact hacquired
    · exact (h.place c).frame ⟨hother c hc, rfl, .rfl, .rfl, .rfl, fun _ hentry => hentry⟩
  case entry =>
    intro executionId c hentry
    have hold := h.entry executionId c hentry
    have hc : c ≠ s.nextCall := by
      rintro rfl
      simp [hnew] at hold
    rwa [hother c hc]
  case fresh =>
    intro c hc
    rw [hother c (Nat.ne_of_gt hc)]
    exact h.fresh c (Nat.le_of_succ_le hc)
  case nodup_jobs => exact h.nodup_jobs
  case nodup_reserved => exact h.nodup_reserved
  case nodup_released => exact h.nodup_released

/-- A step that moves one reservation and leaves the others where they are. -/
theorem Kept.move (h : Kept s) {s' : ActiveExecutions} (hlt : c < s.nextCall)
    (hnext : s'.nextCall = s.nextCall) (hplace : Place s' c) (hframe : ∀ c' ≠ c, Frame s s' c')
    (hentry : ∀ executionId c', s'.activeExecutions.get? executionId = some c' →
      (s'.calls c').executionId = executionId ∧ (s'.calls c').stage = .added)
    (hjobs : s'.jobs.Nodup) (hreserved : s'.reserved.Nodup) (hreleased : s'.released.Nodup) :
    Kept s' where
  place c' := by
    by_cases hc : c' = c
    · exact hc ▸ hplace
    · exact (h.place c').frame (hframe c' hc)
  entry := hentry
  fresh c' hc' := by
    have hne : c' ≠ c := by omega
    rw [(hframe c' hne).calls, (hframe c' hne).reserved]
    exact h.fresh c' (hnext ▸ hc')
  nodup_jobs := hjobs
  nodup_reserved := hreserved
  nodup_released := hreleased

/-- The calls after a step that changes one call without an execution. -/
theorem Kept.entry_setCall (h : Kept s) (hbefore : (s.calls c).stage ≠ .added) (call : AddCall)
    (executionId : String) (c' : ℕ) (hentry : s.activeExecutions.get? executionId = some c') :
    ((s.setCall c call).calls c').executionId = executionId ∧
      ((s.setCall c call).calls c').stage = .added := by
  have hold := h.entry executionId c' hentry
  have hc : c' ≠ c := by
    rintro rfl
    exact hbefore hold.2
  rwa [calls_setCall_of_ne s call hc]

/-- A call without an execution goes on to another stage. -/
theorem Kept.setCall (h : Kept s) (hbefore : (s.calls c).stage ≠ .added) (hlt : c < s.nextCall)
    (hplace : Place (s.setCall c call) c) : Kept (s.setCall c call) := by
  exact h.move hlt rfl hplace
    (fun c' hc => ⟨calls_setCall_of_ne s call hc, rfl, .rfl, .rfl, .rfl, fun _ hentry => hentry⟩)
    (h.entry_setCall hbefore call) h.nodup_jobs h.nodup_reserved h.nodup_released

theorem mem_concat_of_ne (h : c' ≠ c) : c' ∈ l ++ [c] ↔ c' ∈ l := by
  simp [h]

theorem nodup_concat (h : l.Nodup) (hc : c ∉ l) : (l ++ [c]).Nodup := by
  refine List.nodup_append.2 ⟨h, List.nodup_singleton c, fun a ha b hb hab => ?_⟩
  rw [List.mem_singleton] at hb
  exact hc (hb ▸ hab ▸ ha)

/-- A call that has reserved holds its reservation until it is entered. -/
theorem Kept.held_of_updating (h : Kept s) (hstage : (s.calls c).stage = .updating) :
    (s.calls c).acquiredReservation = true ∧ c ∉ s.jobs ∧ c ∈ s.reserved ∧ c ∉ s.released := by
  cases h.place c with
  | updating _ hacquired hjob hreserved hreleased => exact ⟨hacquired, hjob, hreserved, hreleased⟩
  | idle hs => exact absurd hstage hs.1
  | active hs | settled hs | gone hs => simp [hstage] at hs

theorem addFailed_of_not_acquired (h : (s.calls c).acquiredReservation = false) :
    s.addFailed c = s.setCall c { s.calls c with stage := .failed } := by
  unfold addFailed release
  rw [if_neg (by simp [h])]

theorem addFailed_of_acquired (h : (s.calls c).acquiredReservation = true) :
    s.addFailed c = { s.setCall c { s.calls c with stage := .failed, acquiredReservation := false }
      with released := s.released ++ [c] } := by
  unfold addFailed release
  rw [if_pos h]
  simp [setCall]

theorem Kept.addFailed (h : Kept s) (hstage : (s.calls c).stage = .creating ∨
    (s.calls c).stage = .reserving ∨ (s.calls c).stage = .updating) : Kept (s.addFailed c) := by
  have hlt : c < s.nextCall := h.lt_nextCall (by rcases hstage with hs | hs | hs <;> simp [hs])
  have hadded : (s.calls c).stage ≠ .added := by rcases hstage with hs | hs | hs <;> simp [hs]
  rcases or_assoc.2 hstage with hs | hs
  · obtain ⟨hacquired, hjob, hreserved, hreleased⟩ := h.idle_of_stage hs
    rw [addFailed_of_not_acquired hacquired]
    refine h.setCall hadded hlt (.idle ?_ ?_ hjob (fun hmem => absurd hmem hreserved)
      fun hmem => absurd hmem hreleased)
    · simp
    · simpa using hacquired
  · obtain ⟨hacquired, hjob, hreserved, hreleased⟩ := h.held_of_updating hs
    rw [addFailed_of_acquired hacquired]
    generalize hcall : ({ s.calls c with stage := .failed, acquiredReservation := false } : AddCall)
      = call
    have hself : (s.setCall c call).calls c = call := calls_setCall_self s call
    refine h.move hlt rfl ?_ (fun c' hc => ?_) (h.entry_setCall hadded call) h.nodup_jobs
      h.nodup_reserved (nodup_concat h.nodup_released hreleased)
    · refine .idle ?_ ?_ hjob (fun _ => ⟨?_, List.mem_concat_self⟩) fun _ => hreserved
      · rw [hself, ← hcall]
        simp
      · rw [hself, ← hcall]
      · rw [hself, ← hcall]
    · exact ⟨calls_setCall_of_ne s call hc, rfl, .rfl, .rfl, mem_concat_of_ne hc,
        fun _ hentry => hentry⟩

theorem Kept.created (h : Kept s) (result : Option String) : Kept (s.created c result) := by
  unfold ActiveExecutions.created
  split_ifs with hs
  · cases result with
    | none => exact h.addFailed (.inl hs)
    | some executionId =>
      dsimp only
      split_ifs
      · exact h.addFailed (.inl hs)
      · obtain ⟨hacquired, hjob, hreserved, hreleased⟩ := h.idle_of_stage (.inl hs)
        refine h.setCall (by simp [hs]) (h.lt_nextCall (by simp [hs])) (.idle ?_ ?_ hjob
          (fun hmem => absurd hmem hreserved) fun hmem => absurd hmem hreleased)
        · simp
        · simpa using hacquired
  · exact h

/-- The call has reserved capacity. -/
theorem Kept.reserve (h : Kept s) (hs : (s.calls c).stage = .reserving) : Kept (s.reserve c) := by
  unfold ActiveExecutions.reserve
  obtain ⟨-, hjob, hreserved, hreleased⟩ := h.idle_of_stage (.inr hs)
  have hlt : c < s.nextCall := h.lt_nextCall (by simp [hs])
  have hadded : (s.calls c).stage ≠ .added := by simp [hs]
  generalize hcall : ({ s.calls c with stage := .updating, acquiredReservation := true } : AddCall)
    = call
  have hself : (s.setCall c call).calls c = call := calls_setCall_self s call
  refine h.move hlt rfl ?_ (fun c' hc => ?_)
    (h.entry_setCall hadded call) h.nodup_jobs (nodup_concat h.nodup_reserved hreserved)
    h.nodup_released
  · refine .updating ?_ ?_ hjob List.mem_concat_self hreleased
    · rw [hself, ← hcall]
    · rw [hself, ← hcall]
  · exact ⟨calls_setCall_of_ne s call hc, rfl, .rfl, mem_concat_of_ne hc, .rfl,
      fun _ hentry => hentry⟩

/-- No execution is under this id, or one without a reservation. -/
def Free (s : ActiveExecutions) (executionId : String) : Prop :=
  ∀ c, s.activeExecutions.get? executionId = some c → (s.calls c).acquiredReservation = false

/-- The call enters its execution. -/
theorem Kept.enter (h : Kept s) (hs : (s.calls c).stage = .updating)
    (hfree : s.Free (s.calls c).executionId) : Kept (s.enter c) := by
  obtain ⟨hacquired, hjob, hreserved, hreleased⟩ := h.held_of_updating hs
  have hlt : c < s.nextCall := h.lt_nextCall (by simp [hs])
  have hadded : (s.calls c).stage ≠ .added := by simp [hs]
  generalize hcall : ({ s.calls c with stage := .added } : AddCall) = call
  have hs' : s.enter c = { s.setCall c call with
      activeExecutions := s.activeExecutions.set (s.calls c).executionId c
      executions := Function.update s.executions c {
        status := if (s.calls c).executionId = "" then .new else .running } } := by
    rw [← hcall]
    rfl
  have hself : (s.setCall c call).calls c = call := calls_setCall_self s call
  rw [hs']
  refine h.move hlt rfl ?_ (fun c' hc => ?_) ?_ h.nodup_jobs h.nodup_reserved h.nodup_released
  · refine .active ?_ ?_ hjob hreserved hreleased ?_ ?_
    · rw [hself, ← hcall]
    · rw [hself, ← hcall]
      exact hacquired
    · simp
    · rw [hself, ← hcall]
      exact Dict.get?_set_self _ _ _
  · refine ⟨calls_setCall_of_ne s call hc, ?_, .rfl, .rfl, .rfl, fun hheld hentry => ?_⟩
    · show (Function.update s.executions c _ c').settled = _
      rw [Function.update_of_ne hc]
    · have hne : (s.calls c').executionId ≠ (s.calls c).executionId := by
        intro heq
        have hfree' := hfree c' (heq ▸ hentry)
        rw [hheld] at hfree'
        cases hfree'
      exact (Dict.get?_set_ne _ _ hne).trans hentry
  · intro executionId c' hentry
    have hget : (s.activeExecutions.set (s.calls c).executionId c).get? executionId = some c' :=
      hentry
    rw [Dict.get?_set] at hget
    split_ifs at hget with hid
    · cases hget
      rw [hself, ← hcall]
      exact ⟨hid.symm, rfl⟩
    · exact h.entry_setCall hadded call executionId c' hget

/-- The promise of an execution that is entered settles. -/
theorem Kept.settle (h : Kept s) (hget : s.activeExecutions.get? executionId = some c) :
    Kept (s.settle c) := by
  have hadded := (h.entry executionId c hget).2
  unfold ActiveExecutions.settle
  split_ifs with hsettled
  · exact h
  · have hlt : c < s.nextCall := h.lt_nextCall (by simp [hadded])
    refine h.move hlt rfl ?_ (fun c' hc => ?_) h.entry
      (nodup_concat h.nodup_jobs ?_) h.nodup_reserved h.nodup_released
    · cases h.place c with
      | active hstage hacquired hjob hreserved hreleased _ hentry =>
        exact .settled hstage hacquired List.mem_concat_self hreserved hreleased (by simp) hentry
      | idle hstage => exact absurd hadded hstage.2
      | updating hstage => simp [hadded] at hstage
      | settled _ _ _ _ _ hs | gone _ _ _ _ _ hs => exact absurd hs hsettled
    · refine ⟨rfl, ?_, mem_concat_of_ne hc, .rfl, .rfl, fun _ hentry => hentry⟩
      show (Function.update s.executions c _ c').settled = _
      rw [Function.update_of_ne hc]
    · intro hjob
      cases h.place c with
      | settled _ _ _ _ _ hs => exact hsettled hs
      | idle _ _ hjob' | updating _ _ hjob' | active _ _ hjob' | gone _ _ hjob' =>
        exact hjob' hjob

theorem Kept.setStatus (h : Kept s) (executionId : String) (status : ExecutionStatus) :
    Kept (s.setStatus executionId status) := by
  unfold ActiveExecutions.setStatus
  cases hget : s.activeExecutions.get? executionId with
  | none => exact h
  | some c =>
    refine { h with
      place := fun c' => (h.place c').frame ⟨rfl, ?_, .rfl, .rfl, .rfl, fun _ hentry => hentry⟩ }
    show (Function.update s.executions c _ c').settled = _
    by_cases hc : c' = c
    · rw [hc, Function.update_self]
    · rw [Function.update_of_ne hc]

/-- An execution that holds no reservation is deleted. -/
theorem Kept.delete (h : Kept s) (hfree : s.Free executionId) :
    Kept { s with activeExecutions := s.activeExecutions.erase executionId } := by
  refine { h with
    place := fun c' =>
      (h.place c').frame ⟨rfl, rfl, .rfl, .rfl, .rfl, fun hheld hentry => ?_⟩
    entry := ?_ }
  · have hne : (s.calls c').executionId ≠ executionId := by
      intro heq
      have hfree' := hfree c' (heq ▸ hentry)
      rw [hheld] at hfree'
      cases hfree'
    exact (Dict.get?_erase_ne _ hne).trans hentry
  · intro executionId' c' hentry
    have hget : (s.activeExecutions.erase executionId).get? executionId' = some c' := hentry
    rw [Dict.get?_erase] at hget
    split_ifs at hget
    exact h.entry executionId' c' hget

theorem Kept.throttled (h : Kept s) {mode : ExecutionsMode} {returned : Bool}
    (hfree : returned = true → (s.calls c).stage = .reserving → (s.calls c).isResumed = false →
      mode = .queue → s.Free (s.calls c).executionId) : Kept (s.throttled mode c returned) := by
  unfold ActiveExecutions.throttled
  split_ifs with hs hreturned hmode
  · have hself : (s.reserve c).calls c =
        { s.calls c with stage := .updating, acquiredReservation := true } :=
      calls_setCall_self s _
    refine (h.reserve hs).enter (by rw [hself]) fun c' hentry => ?_
    rw [hself] at hentry
    have hc : c' ≠ c := by
      rintro rfl
      have hadded := (h.entry _ _ hentry).2
      simp [hs] at hadded
    have hsame : (s.reserve c).calls c' = s.calls c' := calls_setCall_of_ne s _ hc
    rw [hsame]
    exact hfree hreturned hs hmode.1 hmode.2 c' hentry
  · exact h.reserve hs
  · exact h.addFailed (.inr (.inl hs))
  · exact h

theorem Kept.updated (h : Kept s) {updateSucceeded : Bool}
    (hfree : updateSucceeded = true → (s.calls c).stage = .updating →
      s.Free (s.calls c).executionId) : Kept (s.updated c updateSucceeded) := by
  unfold ActiveExecutions.updated
  split_ifs with hs hsucceeded
  · exact h.enter hs (hfree hsucceeded hs)
  · exact h.addFailed (.inr (.inr hs))
  · exact h

/-- The reservation of an execution whose promise has settled is released. -/
theorem Kept.releaseJob (h : Kept s) (hjob : c ∈ s.jobs) :
    Kept ({ s with jobs := s.jobs.erase c }.release c) ∧
      ({ s with jobs := s.jobs.erase c }.release c).Free (s.calls c).executionId := by
  cases h.place c with
  | idle _ _ hjob' | updating _ _ hjob' | active _ _ hjob' | gone _ _ hjob' => exact absurd hjob hjob'
  | settled hstage hacquired _ hreserved hreleased hsettled hentry =>
    generalize hcall : ({ s.calls c with acquiredReservation := false } : AddCall) = call
    have hs' : { s with jobs := s.jobs.erase c }.release c = { s.setCall c call with
        jobs := s.jobs.erase c, released := s.released ++ [c] } := by
      rw [← hcall]
      exact if_pos hacquired
    have hself : (s.setCall c call).calls c = call := calls_setCall_self s call
    rw [hs']
    refine ⟨h.move (h.lt_nextCall (c := c) (by simp [hstage])) rfl ?_ (fun c' hc => ?_) ?_
      (h.nodup_jobs.erase c) h.nodup_reserved (nodup_concat h.nodup_released hreleased), ?_⟩
    · refine .gone ?_ ?_ (h.nodup_jobs.not_mem_erase) hreserved List.mem_concat_self hsettled
      · rw [hself, ← hcall]
        exact hstage
      · rw [hself, ← hcall]
    · exact ⟨calls_setCall_of_ne s call hc, rfl, List.mem_erase_of_ne hc, .rfl,
        mem_concat_of_ne hc, fun _ hentry => hentry⟩
    · intro executionId c' hentry'
      have hold := h.entry executionId c' hentry'
      by_cases hc : c' = c
      · subst hc
        rw [hself, ← hcall]
        exact hold
      · rwa [calls_setCall_of_ne s call hc]
    · intro c' hentry'
      have hc : c' = c := Option.some.inj (hentry'.symm.trans hentry)
      rw [hc, hself, ← hcall]

theorem Kept.cleanUp (h : Kept s) : Kept (s.cleanUp c) := by
  unfold ActiveExecutions.cleanUp
  dsimp only
  split_ifs with hjob hwaiting
  · exact (h.releaseJob hjob).1
  · obtain ⟨hkept, hfree⟩ := h.releaseJob hjob
    have hid : (({ s with jobs := s.jobs.erase c }.release c).calls c).executionId =
        (s.calls c).executionId := by
      unfold release
      split_ifs
      · simp
      · rfl
    rw [hid]
    exact hkept.delete hfree
  · exact h

end Step

/-! ### Runs -/

/-- The event stops no waiting execution and replaces none whose reservation is held. -/
def Careful (mode : ExecutionsMode) (s : ActiveExecutions) : Event → Prop
  | .stopExecution executionId =>
    ∀ c, s.activeExecutions.get? executionId = some c → (s.executions c).status = .waiting →
      (s.calls c).acquiredReservation = false
  | .updated c updateSucceeded =>
    updateSucceeded = true → (s.calls c).stage = .updating → s.Free (s.calls c).executionId
  | .throttled c returned =>
    returned = true → (s.calls c).stage = .reserving → (s.calls c).isResumed = false →
      mode = .queue → s.Free (s.calls c).executionId
  | _ => True

/-- **A careful event keeps the invariant.** -/
theorem kept_step (h : Kept s) {e : Event} (he : s.Careful mode e) : Kept (s.step mode e) := by
  cases e with
  | add maybeExecutionId =>
    cases maybeExecutionId with
    | none => exact h.newCall (.inl rfl) rfl
    | some executionId => exact h.newCall (.inr rfl) rfl
  | created c result => exact h.created result
  | throttled c returned => exact h.throttled he
  | updated c updateSucceeded => exact h.updated he
  | cleanUp c => exact h.cleanUp
  | setStatus executionId status => exact h.setStatus executionId status
  | stopExecution executionId =>
    show Kept (s.stopExecution executionId)
    unfold stopExecution
    cases hget : s.activeExecutions.get? executionId with
    | none => exact h
    | some c =>
      dsimp only
      split_ifs with hwaiting
      · refine h.delete fun c' hget' => ?_
        obtain rfl : c = c' := Option.some.inj (hget.symm.trans hget')
        exact he c hget hwaiting
      · exact h.settle hget
  | finalizeExecution executionId =>
    show Kept (s.finalizeExecution executionId)
    unfold finalizeExecution
    cases hget : s.activeExecutions.get? executionId with
    | none => exact h
    | some c => exact h.settle hget

/-- Every event of the run is careful. -/
def CarefulRun (mode : ExecutionsMode) (events : List Event) : Prop :=
  ∀ pre e, pre ++ [e] <+: events → (run mode pre).Careful mode e

theorem CarefulRun.nil (mode : ExecutionsMode) : CarefulRun mode [] :=
  fun pre e hp => absurd hp (by simp)

theorem CarefulRun.concat {events : List Event} (h : CarefulRun mode events) (e : Event)
    (he : (run mode events).Careful mode e) : CarefulRun mode (events ++ [e]) :=
  Lts.forall_prefix_concat.2 ⟨h, he⟩

theorem kept_run {events : List Event} (h : CarefulRun mode events) : Kept (run mode events) := by
  induction events using List.reverseRecOn with
  | nil => exact kept_nil
  | append_singleton events e ih =>
    rw [run_concat]
    obtain ⟨hevents, he⟩ := Lts.forall_prefix_concat.1 h
    exact kept_step (ih hevents) he

/-- A call of `add` that has not returned. -/
def IsPending (s : ActiveExecutions) (c : ℕ) : Prop :=
  (s.calls c).stage = .creating ∨ (s.calls c).stage = .reserving ∨ (s.calls c).stage = .updating

/-- Every reservation is released once at most; one that is held belongs to a pending call, or to
the active execution under its id, whose promise is still to settle or to be handled; so an id
without either holds none. -/
structure GivesBack (s : ActiveExecutions) : Prop where
  nodup_reserved : s.reserved.Nodup
  nodup_released : s.released.Nodup
  reserved_of_released : ∀ c ∈ s.released, c ∈ s.reserved
  held : ∀ c ∈ s.reserved, c ∉ s.released → s.IsPending c ∨
    (s.activeExecutions.get? (s.calls c).executionId = some c ∧
      ((s.executions c).settled = false ∨ c ∈ s.jobs))
  released : ∀ executionId, s.activeExecutions.get? executionId = none →
    (∀ c, (s.calls c).executionId = executionId → ¬ s.IsPending c) →
    ∀ c ∈ s.reserved, (s.calls c).executionId = executionId → c ∈ s.released

theorem Kept.givesBack (h : Kept s) : GivesBack s := by
  have hheld : ∀ c ∈ s.reserved, c ∉ s.released → s.IsPending c ∨
      (s.activeExecutions.get? (s.calls c).executionId = some c ∧
        ((s.executions c).settled = false ∨ c ∈ s.jobs)) := by
    intro c hreserved hreleased
    cases h.place c with
    | idle _ _ _ hr => exact absurd (hr hreserved).2 hreleased
    | updating hstage => exact .inl (.inr (.inr hstage))
    | active _ _ _ _ _ hsettled hentry => exact .inr ⟨hentry, .inl hsettled⟩
    | settled _ _ hjob _ _ _ hentry => exact .inr ⟨hentry, .inr hjob⟩
    | gone _ _ _ _ hr => exact absurd hr hreleased
  refine ⟨h.nodup_reserved, h.nodup_released, fun c hreleased => ?_, hheld, ?_⟩
  · cases h.place c with
    | idle _ _ _ _ hr => exact hr hreleased
    | updating _ _ _ _ hr | active _ _ _ _ hr | settled _ _ _ _ hr => exact absurd hreleased hr
    | gone _ _ _ hreserved => exact hreserved
  · intro executionId hnone hpending c hreserved hid
    by_contra hreleased
    rcases hheld c hreserved hreleased with hp | ⟨hentry, -⟩
    · exact hpending c hid hp
    · rw [hid, hnone] at hentry
      cases hentry

/-- **Capacity is given back** in a run in which no execution that is waiting is stopped, and none
is replaced by a resumed one, while its reservation is held. -/
theorem givesBack_run (mode : ExecutionsMode) (events : List Event) (h : CarefulRun mode events) :
    ∀ pre, pre <+: events → (run mode pre).GivesBack :=
  fun _ hpre => (kept_run fun pre' e hp => h pre' e (hp.trans hpre)).givesBack

/-- An execution is added, waits, is finalized and cleaned up, and is then stopped. -/
theorem givesBack_run_waiting : (run .regular [.add none, .created 0 (some "1"), .throttled 0 true,
    .updated 0 true, .setStatus "1" .waiting, .finalizeExecution "1", .cleanUp 0,
    .stopExecution "1"]).GivesBack := by
  refine givesBack_run .regular _ ?_ _ (List.prefix_refl _)
  have hadded := ((((CarefulRun.nil .regular).concat (.add none) trivial).concat
    (.created 0 (some "1")) trivial).concat (.throttled 0 true)
      fun _ _ _ hmode => by cases hmode).concat (.updated 0 true)
        fun _ _ c hget => by cases hget
  have hcleaned := ((hadded.concat (.setStatus "1" .waiting) trivial).concat
    (.finalizeExecution "1") trivial).concat (.cleanUp 0) trivial
  refine hcleaned.concat (.stopExecution "1") fun c hget _ => ?_
  obtain rfl : 0 = c := Option.some.inj hget
  rfl

/-- **A leak**: an execution that is stopped when it has begun to wait is gone for
`finalizeExecution`, and its reservation stays. -/
theorem stopped_leaks : ¬ ∀ (mode : ExecutionsMode) (events : List Event),
    (run mode events).GivesBack := by
  intro h
  have hgives := h .regular [.add none, .created 0 (some "1"), .throttled 0 true, .updated 0 true,
    .setStatus "1" .waiting, .stopExecution "1", .finalizeExecution "1"]
  have hreleased := hgives.held 0 (by decide) (by decide)
  rcases hreleased with hpending | ⟨hentry, -⟩
  · exact absurd hpending (by unfold IsPending; decide)
  · cases hentry

end ActiveExecutions

end N8n
