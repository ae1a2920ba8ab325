import N8n.Concurrency.ActiveExecutions
import N8n.Lib.Lts

/-!
# Attempts of one execution

An execution that waits is resumed under its id, by another call of `add`.  The calls are the
attempts, and when the run of an attempt ends, `finalizeExecution` is called with its id
(`packages/cli/src/workflow-runner.ts`).

* `Attempts`: active executions, and the attempts whose run has ended;
* `Attempts.FinalizesItself`: the end of a run settles the promise of its own attempt and no other,
  and what then follows removes no entry of another attempt;
* `Attempts.finalizesItself`: a condition on the events under which this holds;
* `Attempts.resumed_is_finalized`: an attempt that finalizes the next one.
-/

namespace N8n

/-- Active executions, and the attempts whose run has ended. -/
structure Attempts where
  active : ActiveExecutions := {}
  ended : List ℕ := []

namespace Attempts

open ActiveExecutions

inductive Event
  | call (e : ActiveExecutions.Event)
  /-- The run of the attempt ends, and `finalizeExecution` is called. -/
  | runEnded (c : ℕ)

/-- What an event does; the run of an attempt ends once, and only the ends of runs call
`finalizeExecution`. -/
def step (mode : ExecutionsMode) (s : Attempts) : Event → Attempts
  | .call (.finalizeExecution _) => s
  | .call e => { s with active := s.active.step mode e }
  | .runEnded c =>
    if (s.active.calls c).stage = .added ∧ c ∉ s.ended then
      { active := s.active.finalizeExecution (s.active.calls c).executionId, ended := c :: s.ended }
    else s

/-- The state after the events, from no execution. -/
def run (mode : ExecutionsMode) (events : List Event) : Attempts := Trace.run (step mode) {} events

/-! ### What is claimed -/

/-- The end of a run settles the promise of its attempt and no other; a promise that is handled
releases the capacity of its attempt and no other, and removes no entry of another attempt. -/
def FinalizesItself (mode : ExecutionsMode) (s : Attempts) : Event → Prop
  | .runEnded c => (s.active.calls c).stage = .added → c ∉ s.ended →
    ((s.step mode (.runEnded c)).active.executions c).settled = true ∧
      ∀ c' ≠ c, (s.step mode (.runEnded c)).active.executions c' = s.active.executions c' ∧
        (c' ∈ (s.step mode (.runEnded c)).active.jobs ↔ c' ∈ s.active.jobs)
  | .call (.cleanUp c) => ∀ c' ≠ c,
    (c' ∈ (s.step mode (.call (.cleanUp c))).active.released ↔ c' ∈ s.active.released) ∧
      ∀ executionId, s.active.activeExecutions.get? executionId = some c' →
        (s.step mode (.call (.cleanUp c))).active.activeExecutions.get? executionId = some c'
  | _ => True

/-! ### The condition -/

/-- An attempt is open until its run has ended, and its promise is settled and handled. -/
def Open (s : Attempts) (c : ℕ) : Prop :=
  (s.active.calls c).stage = .added ∧
    (c ∉ s.ended ∨ (s.active.executions c).settled = false ∨ c ∈ s.active.jobs)

instance (s : Attempts) (c : ℕ) : Decidable (s.Open c) := inferInstanceAs (Decidable (_ ∧ _))

/-- No attempt with this id is open. -/
def Closed (s : Attempts) (executionId : String) : Prop :=
  ∀ c, s.Open c → (s.active.calls c).executionId ≠ executionId

/-- An attempt is entered when the earlier ones with its id are closed, and an execution that waits
is stopped after its run has ended. -/
def Orderly (mode : ExecutionsMode) (s : Attempts) : Event → Prop
  | .call (.throttled c returned) => (s.active.calls c).stage = .reserving → returned = true →
    (s.active.calls c).isResumed = false → mode = .queue → s.Closed (s.active.calls c).executionId
  | .call (.updated c updateSucceeded) => (s.active.calls c).stage = .updating →
    updateSucceeded = true → s.Closed (s.active.calls c).executionId
  | .call (.stopExecution executionId) => ∀ c,
    s.active.activeExecutions.get? executionId = some c →
      (s.active.executions c).status = .waiting → c ∈ s.ended
  | _ => True

/-! ### The invariant -/

/-- The entry of an id is that of the open attempt with the id, if there is one. -/
structure Sole (s : Attempts) : Prop where
  entry : ∀ executionId c, s.active.activeExecutions.get? executionId = some c →
    (s.active.calls c).executionId = executionId ∧ (s.active.calls c).stage = .added
  fresh : ∀ c, s.active.nextCall ≤ c → (s.active.calls c).stage = .failed
  jobs : ∀ c ∈ s.active.jobs, (s.active.calls c).stage = .added ∧
    (s.active.executions c).settled = true
  sole : ∀ c, s.Open c → ∀ c', s.active.activeExecutions.get? (s.active.calls c).executionId =
    some c' → c' = c
  held : ∀ c, (s.active.calls c).stage = .added → c ∉ s.ended →
    (s.active.executions c).settled = false →
      s.active.activeExecutions.get? (s.active.calls c).executionId = some c
  ended : ∀ c ∈ s.ended, (s.active.calls c).stage = .added

theorem sole_nil : Sole {} where
  entry executionId c h := by cases h
  fresh c _ := rfl
  jobs c h := by cases h
  sole c h := by cases h.1
  held c h := by cases h
  ended c h := by cases h

section Steps

variable {s : Attempts} {c : ℕ}

theorem Sole.lt_nextCall (h : Sole s) (hstage : (s.active.calls c).stage ≠ .failed) :
    c < s.active.nextCall := by
  by_contra hle
  exact hstage (h.fresh c (Nat.le_of_not_lt hle))

/-- A step that changes a call that has no execution yet. -/
theorem Sole.quiet (h : Sole s) {a : ActiveExecutions}
    (hbefore : (s.active.calls c).stage ≠ .added) (hafter : (a.calls c).stage ≠ .added)
    (hcalls : ∀ c' ≠ c, a.calls c' = s.active.calls c')
    (hentries : a.activeExecutions = s.active.activeExecutions)
    (hexecutions : a.executions = s.active.executions) (hjobs : a.jobs = s.active.jobs)
    (hfresh : ∀ c', a.nextCall ≤ c' → (a.calls c').stage = .failed) :
    Sole { s with active := a } := by
  have hsame : ∀ c', (s.active.calls c').stage = .added ∨ (a.calls c').stage = .added →
      a.calls c' = s.active.calls c' := by
    intro c' hadded
    by_cases hc : c' = c
    · subst hc
      exact absurd hadded (not_or.2 ⟨hbefore, hafter⟩)
    · exact hcalls c' hc
  constructor
  · intro executionId c' hentry
    have hold := h.entry executionId c' (hentries ▸ hentry)
    exact hsame c' (.inl hold.2) ▸ hold
  · exact hfresh
  · intro c' hjob
    have hold := h.jobs c' (hjobs ▸ hjob)
    exact ⟨hsame c' (.inl hold.1) ▸ hold.1, hexecutions ▸ hold.2⟩
  · rintro c' ⟨hadded, hopen⟩
    have hcall := hsame c' (.inr hadded)
    have hold : s.Open c' := ⟨hcall ▸ hadded, by rwa [hexecutions, hjobs] at hopen⟩
    show ∀ c'', a.activeExecutions.get? (a.calls c').executionId = some c'' → c'' = c'
    rw [hcall, hentries]
    exact h.sole c' hold
  · intro c' hadded hended hsettled
    have hcall := hsame c' (.inr hadded)
    show a.activeExecutions.get? (a.calls c').executionId = some c'
    rw [hcall, hentries]
    exact h.held c' (hcall ▸ hadded) hended (hexecutions ▸ hsettled)
  · intro c' hended
    have hold := h.ended c' hended
    exact hsame c' (.inl hold) ▸ hold

theorem Sole.newCall (h : Sole s) {call : AddCall} (hcall : call.stage ≠ .added) :
    Sole { s with active := s.active.newCall call } := by
  have hnew : (s.active.calls s.active.nextCall).stage = .failed := h.fresh _ le_rfl
  have hother : ∀ c ≠ s.active.nextCall, (s.active.newCall call).calls c = s.active.calls c :=
    fun c hc => Function.update_of_ne hc _ _
  refine h.quiet (c := s.active.nextCall) (by simp [hnew]) ?_ hother rfl rfl rfl fun c hc => ?_
  · show (Function.update s.active.calls s.active.nextCall call s.active.nextCall).stage ≠ .added
    rwa [Function.update_self]
  · rw [hother c (Nat.ne_of_gt hc)]
    exact h.fresh c (Nat.le_of_succ_le hc)

/-- A call without an execution gets another stage. -/
theorem Sole.setCall (h : Sole s) (call : AddCall) (hstage : (s.active.calls c).stage ≠ .failed)
    (hbefore : (s.active.calls c).stage ≠ .added) {a : ActiveExecutions}
    (hcall : call.stage ≠ .added) (hcalls : a.calls = Function.update s.active.calls c call)
    (hentries : a.activeExecutions = s.active.activeExecutions)
    (hexecutions : a.executions = s.active.executions) (hjobs : a.jobs = s.active.jobs)
    (hnext : a.nextCall = s.active.nextCall) : Sole { s with active := a } := by
  have hother : ∀ c' ≠ c, a.calls c' = s.active.calls c' := fun c' hc => by
    rw [hcalls, Function.update_of_ne hc]
  refine h.quiet hbefore (by rwa [hcalls, Function.update_self]) hother hentries hexecutions hjobs
    fun c' hc' => ?_
  have hlt := h.lt_nextCall hstage
  rw [hother c' (by omega)]
  exact h.fresh c' (hnext ▸ hc')

theorem calls_addFailed (s : ActiveExecutions) (c : ℕ) : ∃ call : AddCall,
    call.stage = .failed ∧ (s.addFailed c).calls = Function.update s.calls c call ∧
      (s.addFailed c).activeExecutions = s.activeExecutions ∧
      (s.addFailed c).executions = s.executions ∧ (s.addFailed c).jobs = s.jobs ∧
      (s.addFailed c).nextCall = s.nextCall := by
  unfold addFailed release
  split_ifs
  · exact ⟨_, rfl, Function.update_idem _ _ _, rfl, rfl, rfl, rfl⟩
  · exact ⟨_, rfl, rfl, rfl, rfl, rfl, rfl⟩

theorem Sole.addFailed (h : Sole s) (hstage : (s.active.calls c).stage ≠ .failed)
    (hbefore : (s.active.calls c).stage ≠ .added) :
    Sole { s with active := s.active.addFailed c } := by
  obtain ⟨call, hcall, hcalls, hentries, hexecutions, hjobs, hnext⟩ := calls_addFailed s.active c
  exact h.setCall _ hstage hbefore (by simp [hcall]) hcalls hentries hexecutions hjobs hnext

/-- An attempt is entered while no other one with its id is open. -/
theorem Sole.enter (h : Sole s) (hstage : (s.active.calls c).stage ≠ .failed)
    (hbefore : (s.active.calls c).stage ≠ .added)
    (hclosed : s.Closed (s.active.calls c).executionId) :
    Sole { s with active := s.active.enter c } := by
  generalize hid : (s.active.calls c).executionId = executionId at hclosed
  have hnew : (s.active.enter c).calls c = { s.active.calls c with stage := .added } :=
    Function.update_self _ _ _
  have hcalls : ∀ c' ≠ c, (s.active.enter c).calls c' = s.active.calls c' :=
    fun c' hc => Function.update_of_ne hc _ _
  have hexecutions : ∀ c' ≠ c, (s.active.enter c).executions c' = s.active.executions c' :=
    fun c' hc => Function.update_of_ne hc _ _
  have hentry : ∀ id, (s.active.enter c).activeExecutions.get? id =
      if id = executionId then some c else s.active.activeExecutions.get? id := by
    intro id
    show (s.active.activeExecutions.set (s.active.calls c).executionId c).get? id = _
    rw [Dict.get?_set, hid]
  -- an open attempt other than the new one was open before, so it has another id
  have hopen : ∀ c' ≠ c, Open { s with active := s.active.enter c } c' →
      s.Open c' ∧ (s.active.calls c').executionId ≠ executionId := by
    rintro c' hc ⟨hadded, hopen⟩
    rw [hcalls c' hc] at hadded
    rw [hexecutions c' hc] at hopen
    exact ⟨⟨hadded, hopen⟩, hclosed c' ⟨hadded, hopen⟩⟩
  have hnot : ∀ c', (s.active.calls c').stage = .added → c' ≠ c := by
    rintro c' hadded rfl
    exact hbefore hadded
  constructor
  · intro id c' hget
    change (s.active.enter c).activeExecutions.get? id = some c' at hget
    rw [hentry] at hget
    show ((s.active.enter c).calls c').executionId = id ∧ ((s.active.enter c).calls c').stage = .added
    split_ifs at hget with heq
    · obtain rfl := Option.some.inj hget
      rw [hnew]
      exact ⟨hid.trans heq.symm, rfl⟩
    · have hold := h.entry id c' hget
      rwa [hcalls c' (hnot c' hold.2)]
  · intro c' hc'
    have hlt := h.lt_nextCall hstage
    have hle : s.active.nextCall ≤ c' := hc'
    rw [hcalls c' (by omega)]
    exact h.fresh c' hle
  · intro c' hjob
    have hold := h.jobs c' hjob
    rw [hcalls c' (hnot c' hold.1), hexecutions c' (hnot c' hold.1)]
    exact hold
  · intro c' hopen' c'' hget
    change (s.active.enter c).activeExecutions.get? ((s.active.enter c).calls c').executionId =
      some c'' at hget
    rw [hentry] at hget
    by_cases hc : c' = c
    · subst hc
      rw [hnew, if_pos hid] at hget
      exact (Option.some.inj hget).symm
    · obtain ⟨hold, hne⟩ := hopen c' hc hopen'
      rw [hcalls c' hc, if_neg hne] at hget
      exact h.sole c' hold c'' hget
  · intro c' hadded hended hsettled
    show (s.active.enter c).activeExecutions.get? ((s.active.enter c).calls c').executionId = some c'
    rw [hentry]
    by_cases hc : c' = c
    · subst hc
      rw [hnew, if_pos hid]
    · obtain ⟨-, hne⟩ := hopen c' hc ⟨hadded, .inl hended⟩
      rw [hcalls c' hc, if_neg hne]
      exact h.held c' (hcalls c' hc ▸ hadded) hended (hexecutions c' hc ▸ hsettled)
  · intro c' hended
    have hold := h.ended c' hended
    rwa [hcalls c' (hnot c' hold)]

/-- What settling a promise that was not settled does. -/
theorem settle_cases (s : ActiveExecutions) (c : ℕ) : (s.executions c).settled = true ∧
      s.settle c = s ∨
    (s.executions c).settled = false ∧ (s.settle c).calls = s.calls ∧
      (s.settle c).nextCall = s.nextCall ∧ (s.settle c).activeExecutions = s.activeExecutions ∧
      (s.settle c).jobs = s.jobs ++ [c] ∧ ((s.settle c).executions c).settled = true ∧
      ∀ c' ≠ c, (s.settle c).executions c' = s.executions c' := by
  unfold ActiveExecutions.settle
  split_ifs with hsettled
  · exact .inl ⟨hsettled, rfl⟩
  · refine .inr ⟨Bool.not_eq_true _ ▸ hsettled, rfl, rfl, rfl, rfl, ?_, fun c' hc => ?_⟩
    · show (Function.update s.executions c { s.executions c with settled := true } c).settled = true
      rw [Function.update_self]
    · exact Function.update_of_ne hc _ _

/-- The promise of an attempt is settled. -/
theorem Sole.settle (h : Sole s) (hadded : (s.active.calls c).stage = .added) :
    Sole { s with active := s.active.settle c } := by
  rcases settle_cases s.active c with ⟨-, heq⟩ | ⟨hsettled, hcalls, hnext, hentries, hjobs, hset, hother⟩
  · rwa [heq]
  · generalize s.active.settle c = a at *
    have hopen : ∀ c', Open { s with active := a } c' → s.Open c' := by
      rintro c' ⟨hadded', hopen⟩
      change (a.calls c').stage = .added at hadded'
      change c' ∉ s.ended ∨ (a.executions c').settled = false ∨ c' ∈ a.jobs at hopen
      by_cases hc : c' = c
      · subst hc
        exact ⟨hadded, .inr (.inl hsettled)⟩
      · rw [hother c' hc, hjobs] at hopen
        rw [hcalls] at hadded'
        simp only [List.mem_append, List.mem_singleton, hc, or_false] at hopen
        exact ⟨hadded', hopen⟩
    constructor
    · intro executionId c' hentry
      change a.activeExecutions.get? executionId = some c' at hentry
      show (a.calls c').executionId = executionId ∧ (a.calls c').stage = .added
      rw [hentries] at hentry
      rw [hcalls]
      exact h.entry executionId c' hentry
    · intro c' hc'
      change a.nextCall ≤ c' at hc'
      show (a.calls c').stage = .failed
      rw [hcalls]
      exact h.fresh c' (hnext ▸ hc')
    · intro c' hjob
      change c' ∈ a.jobs at hjob
      show (a.calls c').stage = .added ∧ (a.executions c').settled = true
      rw [hcalls]
      by_cases hc : c' = c
      · subst hc
        exact ⟨hadded, hset⟩
      · rw [hjobs, List.mem_append, List.mem_singleton] at hjob
        rw [hother c' hc]
        exact h.jobs c' (hjob.resolve_right hc)
    · intro c' hopen' c'' hget
      change a.activeExecutions.get? (a.calls c').executionId = some c'' at hget
      rw [hentries, hcalls] at hget
      exact h.sole c' (hopen c' hopen') c'' hget
    · intro c' hadded' hended hsettled'
      change (a.calls c').stage = .added at hadded'
      change (a.executions c').settled = false at hsettled'
      show a.activeExecutions.get? (a.calls c').executionId = some c'
      rw [hentries, hcalls]
      by_cases hc : c' = c
      · subst hc
        rw [hset] at hsettled'
        cases hsettled'
      · exact h.held c' (hcalls ▸ hadded') hended (hother c' hc ▸ hsettled')
    · intro c' hended
      show (a.calls c').stage = .added
      rw [hcalls]
      exact h.ended c' hended

/-- The entry of an id goes, and with it no attempt whose promise is to be settled at its end. -/
theorem Sole.erase (h : Sole s) {executionId : String}
    (hended : ∀ c, s.active.activeExecutions.get? executionId = some c → c ∈ s.ended ∨
      (s.active.executions c).settled = true) :
    Sole { s with active := { s.active with
      activeExecutions := s.active.activeExecutions.erase executionId } } := by
  have hget : ∀ id c, (s.active.activeExecutions.erase executionId).get? id = some c →
      s.active.activeExecutions.get? id = some c := by
    intro id c hget
    rw [Dict.get?_erase] at hget
    split_ifs at hget
    exact hget
  refine ⟨fun id c hentry => h.entry id c (hget id c hentry), h.fresh, h.jobs,
    fun c hopen c' hentry => h.sole c hopen c' (hget _ c' hentry), fun c hadded hnot hsettled => ?_,
    h.ended⟩
  show (s.active.activeExecutions.erase executionId).get? (s.active.calls c).executionId = some c
  have hold := h.held c hadded hnot hsettled
  have hne : (s.active.calls c).executionId ≠ executionId := by
    rintro rfl
    rcases hended c hold with hin | hset
    · exact hnot hin
    · exact absurd hset (Bool.not_eq_true _ ▸ hsettled)
  rwa [Dict.get?_erase_ne _ hne]

theorem calls_release (a : ActiveExecutions) (c c' : ℕ) :
    ((a.release c).calls c').stage = (a.calls c').stage ∧
      ((a.release c).calls c').executionId = (a.calls c').executionId := by
  unfold release
  split_ifs
  · by_cases hc : c' = c
    · subst hc
      simp [ActiveExecutions.setCall, Function.update_self]
    · simp [ActiveExecutions.setCall, Function.update_of_ne hc]
  · exact ⟨rfl, rfl⟩

theorem release_rest (a : ActiveExecutions) (c : ℕ) :
    (a.release c).activeExecutions = a.activeExecutions ∧
      (a.release c).executions = a.executions ∧ (a.release c).jobs = a.jobs ∧
      (a.release c).nextCall = a.nextCall := by
  unfold release
  split_ifs <;> exact ⟨rfl, rfl, rfl, rfl⟩

/-- The promise of an attempt has been handled, but the entry is not removed yet. -/
theorem Sole.handled (h : Sole s) :
    Sole { s with active := { s.active with jobs := s.active.jobs.erase c }.release c } := by
  have hcalls := calls_release { s.active with jobs := s.active.jobs.erase c } c
  obtain ⟨hentries, hexecutions, hjobs, hnext⟩ :=
    release_rest { s.active with jobs := s.active.jobs.erase c } c
  generalize ({ s.active with jobs := s.active.jobs.erase c } : ActiveExecutions).release c = a at *
  constructor
  · intro id c' hentry
    change a.activeExecutions.get? id = some c' at hentry
    show (a.calls c').executionId = id ∧ (a.calls c').stage = .added
    rw [(hcalls c').1, (hcalls c').2]
    exact h.entry id c' (hentries ▸ hentry)
  · intro c' hc'
    change a.nextCall ≤ c' at hc'
    exact (hcalls c').1.trans (h.fresh c' (hnext ▸ hc'))
  · intro c' hjob
    change c' ∈ a.jobs at hjob
    show (a.calls c').stage = .added ∧ (a.executions c').settled = true
    rw [(hcalls c').1, hexecutions]
    exact h.jobs c' (List.mem_of_mem_erase (hjobs ▸ hjob))
  · rintro c' ⟨hadded, hopen⟩ c'' hget
    change (a.calls c').stage = .added at hadded
    change c' ∉ s.ended ∨ (a.executions c').settled = false ∨ c' ∈ a.jobs at hopen
    change a.activeExecutions.get? (a.calls c').executionId = some c'' at hget
    rw [(hcalls c').1] at hadded
    rw [hexecutions, hjobs] at hopen
    rw [hentries, (hcalls c').2] at hget
    exact h.sole c' ⟨hadded, hopen.imp_right (Or.imp_right List.mem_of_mem_erase)⟩ c'' hget
  · intro c' hadded hended hsettled
    show a.activeExecutions.get? (a.calls c').executionId = some c'
    rw [hentries, (hcalls c').2]
    exact h.held c' ((hcalls c').1 ▸ hadded) hended (hexecutions ▸ hsettled)
  · intro c' hended
    exact (hcalls c').1.trans (h.ended c' hended)

/-- The end of a run counts once the promise of its attempt is settled. -/
theorem Sole.end (h : Sole s) (hadded : (s.active.calls c).stage = .added)
    (hsettled : (s.active.executions c).settled = true) :
    Sole { s with ended := c :: s.ended } where
  entry := h.entry
  fresh := h.fresh
  jobs := h.jobs
  sole c' hopen := by
    refine h.sole c' ⟨hopen.1, hopen.2.imp_left fun hnot hin => ?_⟩
    exact hnot (List.mem_cons_of_mem c hin)
  held c' hadded' hnot := h.held c' hadded' fun hin => hnot (List.mem_cons_of_mem c hin)
  ended c' hc' := by
    rcases List.mem_cons.1 hc' with rfl | hin
    · exact hadded
    · exact h.ended c' hin

end Steps

/-! ### Events -/

section Events

variable {mode : ExecutionsMode} {s : Attempts} {c : ℕ}

theorem Sole.created (h : Sole s) (c : ℕ) (result : Option String) :
    Sole { s with active := s.active.created c result } := by
  unfold ActiveExecutions.created
  by_cases hstage : (s.active.calls c).stage = .creating
  · have hfailed : (s.active.calls c).stage ≠ .failed := by simp [hstage]
    have hadded : (s.active.calls c).stage ≠ .added := by simp [hstage]
    rw [if_pos hstage]
    cases result with
    | none => exact h.addFailed hfailed hadded
    | some executionId =>
      by_cases hid : executionId = ""
      · simp only [hid, if_true]
        exact h.addFailed hfailed hadded
      · simp only [hid, if_false]
        exact h.setCall { s.active.calls c with executionId, stage := .reserving } hfailed hadded
          (by simp) rfl rfl rfl rfl rfl
  · rwa [if_neg hstage]

theorem Sole.reserve (h : Sole s) (hstage : (s.active.calls c).stage = .reserving) :
    Sole { s with active := s.active.reserve c } :=
  h.setCall { s.active.calls c with stage := .updating, acquiredReservation := true }
    (by simp [hstage]) (by simp [hstage]) (by simp) rfl rfl rfl rfl rfl

theorem Sole.throttled (h : Sole s) {returned : Bool}
    (he : s.Orderly mode (.call (.throttled c returned))) :
    Sole { s with active := s.active.throttled mode c returned } := by
  unfold ActiveExecutions.throttled
  by_cases hstage : (s.active.calls c).stage = .reserving
  · rw [if_pos hstage]
    by_cases hreturned : returned = true
    · rw [if_pos hreturned]
      have hreserved := h.reserve hstage
      by_cases hnew : (s.active.calls c).isResumed = false ∧ mode = .queue
      · rw [if_pos hnew]
        have hclosed := he hstage hreturned hnew.1 hnew.2
        have hcall : (s.active.reserve c).calls c =
            { s.active.calls c with stage := .updating, acquiredReservation := true } :=
          Function.update_self _ _ _
        refine hreserved.enter (c := c) (by simp [hcall]) (by simp [hcall]) fun c' hopen => ?_
        by_cases hc : c' = c
        · subst hc
          simp [Open, hcall] at hopen
        · have hcall' : (s.active.reserve c).calls c' = s.active.calls c' :=
            Function.update_of_ne hc _ _
          simp only [Open, hcall'] at hopen
          simp only [hcall, hcall']
          exact hclosed c' hopen
      · rwa [if_neg hnew]
    · rw [if_neg hreturned]
      exact h.addFailed (by simp [hstage]) (by simp [hstage])
  · rwa [if_neg hstage]

theorem Sole.updated (h : Sole s) {updateSucceeded : Bool}
    (he : s.Orderly mode (.call (.updated c updateSucceeded))) :
    Sole { s with active := s.active.updated c updateSucceeded } := by
  unfold ActiveExecutions.updated
  by_cases hstage : (s.active.calls c).stage = .updating
  · rw [if_pos hstage]
    by_cases hupdated : updateSucceeded = true
    · rw [if_pos hupdated]
      exact h.enter (by simp [hstage]) (by simp [hstage]) (he hstage hupdated)
    · rw [if_neg hupdated]
      exact h.addFailed (by simp [hstage]) (by simp [hstage])
  · rwa [if_neg hstage]

/-- Where the promise of an attempt is handled, the entry of its id is its own. -/
theorem Sole.entry_of_job (h : Sole s) (hc : c ∈ s.active.jobs) {c' : ℕ}
    (hget : s.active.activeExecutions.get? (s.active.calls c).executionId = some c') : c' = c :=
  h.sole c ⟨(h.jobs c hc).1, .inr (.inr hc)⟩ c' hget

theorem Sole.cleanUp (h : Sole s) (c : ℕ) : Sole { s with active := s.active.cleanUp c } := by
  unfold ActiveExecutions.cleanUp
  by_cases hc : c ∈ s.active.jobs
  · rw [if_pos hc]
    have hhandled := h.handled (c := c)
    have hcall := (calls_release { s.active with jobs := s.active.jobs.erase c } c c).2
    obtain ⟨hentries, hexecutions, -, -⟩ :=
      release_rest { s.active with jobs := s.active.jobs.erase c } c
    generalize ({ s.active with jobs := s.active.jobs.erase c } : ActiveExecutions).release c = a
      at *
    by_cases hstatus : (a.executions c).status = .waiting
    · rwa [if_pos hstatus]
    · rw [if_neg hstatus]
      refine hhandled.erase fun c' hget => .inr ?_
      change a.activeExecutions.get? (a.calls c).executionId = some c' at hget
      rw [hentries, hcall] at hget
      obtain rfl := h.entry_of_job hc hget
      show (a.executions c').settled = true
      rw [hexecutions]
      exact (h.jobs c' hc).2
  · rwa [if_neg hc]

theorem Sole.setStatus (h : Sole s) (executionId : String)
    (status : ActiveExecutions.ExecutionStatus) :
    Sole { s with active := s.active.setStatus executionId status } := by
  unfold ActiveExecutions.setStatus
  split
  · exact h
  · rename_i c _
    have hsettled : ∀ c', (Function.update s.active.executions c
        { s.active.executions c with status } c').settled = (s.active.executions c').settled := by
      intro c'
      by_cases hc : c' = c
      · subst hc
        rw [Function.update_self]
      · rw [Function.update_of_ne hc]
    exact {
      entry := h.entry
      fresh := h.fresh
      jobs := fun c' hc' => ⟨(h.jobs c' hc').1, (hsettled c').trans (h.jobs c' hc').2⟩
      sole := fun c' hopen => h.sole c' ⟨hopen.1, hsettled c' ▸ hopen.2⟩
      held := fun c' hadded hnot hfalse => h.held c' hadded hnot (hsettled c' ▸ hfalse)
      ended := h.ended }

theorem Sole.stopExecution (h : Sole s) {executionId : String}
    (he : s.Orderly mode (.call (.stopExecution executionId))) :
    Sole { s with active := s.active.stopExecution executionId } := by
  unfold ActiveExecutions.stopExecution
  split
  · exact h
  · rename_i c hget
    by_cases hstatus : (s.active.executions c).status = .waiting
    · rw [if_pos hstatus]
      refine h.erase fun c' hget' => .inl ?_
      obtain rfl := Option.some.inj (hget.symm.trans hget')
      exact he c hget hstatus
    · rw [if_neg hstatus]
      exact h.settle (h.entry executionId c hget).2

/-- The end of a run settles no other promise. -/
theorem Sole.finalizeExecution (h : Sole s) (hadded : (s.active.calls c).stage = .added)
    (hnot : c ∉ s.ended) :
    s.active.finalizeExecution (s.active.calls c).executionId = s.active.settle c := by
  unfold ActiveExecutions.finalizeExecution
  split
  · rename_i hget
    by_cases hsettled : (s.active.executions c).settled = true
    · rw [ActiveExecutions.settle, if_pos hsettled]
    · exact absurd (h.held c hadded hnot (Bool.not_eq_true _ ▸ hsettled)) (by simp [hget])
  · rename_i c' hget
    rw [h.sole c ⟨hadded, .inl hnot⟩ c' hget]

theorem settled_settle (a : ActiveExecutions) (c : ℕ) :
    ((a.settle c).executions c).settled = true := by
  rcases settle_cases a c with ⟨hsettled, heq⟩ | ⟨-, -, -, -, -, hsettled, -⟩
  · rwa [heq]
  · exact hsettled

theorem calls_settle (a : ActiveExecutions) (c : ℕ) : (a.settle c).calls = a.calls := by
  rcases settle_cases a c with ⟨-, heq⟩ | ⟨-, hcalls, -⟩
  · rw [heq]
  · exact hcalls

/-- **One event.** -/
theorem Sole.step (h : Sole s) {e : Event} (he : s.Orderly mode e) : Sole (s.step mode e) := by
  cases e with
  | runEnded c =>
    rw [Attempts.step]
    by_cases hended : (s.active.calls c).stage = .added ∧ c ∉ s.ended
    · rw [if_pos hended, h.finalizeExecution hended.1 hended.2]
      refine (h.settle hended.1).end (c := c) ?_ (settled_settle s.active c)
      show ((s.active.settle c).calls c).stage = .added
      rw [calls_settle]
      exact hended.1
    · rwa [if_neg hended]
  | call e =>
    cases e with
    | add maybeExecutionId =>
      cases maybeExecutionId with
      | none => exact h.newCall (by simp)
      | some executionId => exact h.newCall (by simp)
    | created c result => exact h.created c result
    | throttled c returned => exact h.throttled he
    | updated c updateSucceeded => exact h.updated he
    | cleanUp c => exact h.cleanUp c
    | setStatus executionId status => exact h.setStatus executionId status
    | stopExecution executionId => exact h.stopExecution he
    | finalizeExecution executionId => exact h

end Events

/-! ### Runs -/

section Runs

variable {mode : ExecutionsMode} {s : Attempts}

theorem released_cleanUp (a : ActiveExecutions) {c c' : ℕ} (hc : c' ≠ c) :
    c' ∈ (a.cleanUp c).released ↔ c' ∈ a.released := by
  have hrelease : ∀ a : ActiveExecutions, c' ∈ (a.release c).released ↔ c' ∈ a.released := by
    intro a
    unfold release
    split_ifs
    · simp [hc]
    · exact Iff.rfl
  have hsame := hrelease { a with jobs := a.jobs.erase c }
  unfold ActiveExecutions.cleanUp
  split_ifs
  · dsimp only
    split_ifs
    · exact hsame
    · exact hsame
  · exact Iff.rfl

theorem Sole.get?_cleanUp (h : Sole s) {c c' : ℕ} (hc : c' ≠ c) {executionId : String}
    (hget : s.active.activeExecutions.get? executionId = some c') :
    (s.active.cleanUp c).activeExecutions.get? executionId = some c' := by
  have hcall := (calls_release { s.active with jobs := s.active.jobs.erase c } c c).2
  have hentries := (release_rest { s.active with jobs := s.active.jobs.erase c } c).1
  unfold ActiveExecutions.cleanUp
  by_cases hjob : c ∈ s.active.jobs
  · rw [if_pos hjob]
    generalize ({ s.active with jobs := s.active.jobs.erase c } : ActiveExecutions).release c = a
      at *
    have hkept : a.activeExecutions.get? executionId = some c' := by rwa [hentries]
    -- the entry that goes is the one of the attempt itself
    have hne : executionId ≠ (s.active.calls c).executionId := by
      rintro rfl
      exact hc (h.entry_of_job hjob hget)
    by_cases hstatus : (a.executions c).status = .waiting
    · rwa [if_pos hstatus]
    · rw [if_neg hstatus]
      show (a.activeExecutions.erase (a.calls c).executionId).get? executionId = some c'
      rwa [Dict.get?_erase_ne _ (hcall ▸ hne)]
  · rwa [if_neg hjob]

/-- What an event does to other attempts. -/
theorem Sole.finalizes (h : Sole s) (e : Event) : s.FinalizesItself mode e := by
  unfold FinalizesItself
  split
  · rename_i c
    intro hadded hnot
    rw [Attempts.step, if_pos ⟨hadded, hnot⟩, h.finalizeExecution hadded hnot]
    refine ⟨settled_settle s.active c, fun c' hc => ?_⟩
    rcases settle_cases s.active c with ⟨-, heq⟩ | ⟨-, -, -, -, hjobs, -, hother⟩
    · simp [heq]
    · simp [hjobs, hother c' hc, hc]
  · rename_i c
    intro c' hc
    exact ⟨released_cleanUp s.active hc, fun executionId => h.get?_cleanUp hc⟩
  · trivial

/-- **An attempt finalizes only itself**, in every run in which an attempt is entered when the
earlier ones with its id are closed, and executions that wait are stopped after their run. -/
theorem finalizesItself (mode : ExecutionsMode) (events : List Event)
    (h : Trace.EachStep (step mode) (Orderly mode) {} events) :
    Trace.EachStep (step mode) (FinalizesItself mode) {} events :=
  h.imp sole_nil (fun _ _ hs he => hs.step he) fun _ e hs _ => hs.finalizes e

theorem resumed_finalizesItself :
    let events := [.call (.add none), .call (.created 0 (some "1")), .call (.throttled 0 true),
      .call (.updated 0 true), .call (.setStatus "1" .waiting), .runEnded 0, .call (.cleanUp 0),
      .call (.add (some "1")), .call (.throttled 1 true), .call (.updated 1 true), .runEnded 1]
    (run .regular events).ended = [1, 0] ∧
      Trace.EachStep (step .regular) (FinalizesItself .regular) {} events := by
  refine ⟨by decide, finalizesItself .regular _ ?_⟩
  simp only [Trace.eachStep_cons]
  refine ⟨trivial, trivial, (fun _ _ _ h => by cases h), fun _ _ c hopen => ?_, trivial, trivial,
    trivial, trivial, (fun _ _ _ h => by cases h), fun _ _ c hopen => ?_, trivial, Trace.eachStep_nil⟩
  all_goals
    match c with
    | 0 => revert hopen; decide
    | 1 => revert hopen; decide
    | c + 2 => cases hopen.1

/-- The condition is needed: the execution is resumed once its row says that it waits, and then the
first run ends. -/
theorem resumed_is_finalized : ¬ ∀ (mode : ExecutionsMode) (events : List Event),
    Trace.EachStep (step mode) (FinalizesItself mode) {} events := by
  intro h
  have hall := h .regular [.call (.add none), .call (.created 0 (some "1")),
    .call (.throttled 0 true), .call (.updated 0 true), .call (.setStatus "1" .waiting),
    .call (.add (some "1")), .call (.throttled 1 true), .call (.updated 1 true), .runEnded 0]
  simp only [Trace.eachStep_cons] at hall
  obtain ⟨-, -, -, -, -, -, -, -, hlast, -⟩ := hall
  have hsettled := (hlast rfl (by decide)).1
  revert hsettled
  decide

end Runs

end Attempts

end N8n
