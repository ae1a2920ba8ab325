import N8n.Concurrency.ConcurrencyQueue

/-!
# Capacity and order of the concurrency queue

* `Executions.Fair`: the joint invariant of the counter, the queue and the executions;
* `Executions.fair_run`: it holds throughout every run;
* `Executions.Advanced`: how far a call that waits has come;
* `Executions.enqueue_fair`: no capacity is wasted, and who waits is let through in order;
* `Executions.forall_running_le_iff`: when the limit is kept.
-/

namespace N8n

namespace Executions

/-- What the counter, the queue and the calls have to do with each other; `slack` is the number of
executions that have ended and whose place was not given away yet. -/
structure Fair (limit : ℤ) (slack : ℕ) (s : Executions) : Prop where
  capacity : s.queue.capacity = limit - s.running.length - s.waiting.length
  full : s.waiting ≠ [] → limit ≤ s.running.length + slack
  order : s.admitted.filter (· ∈ s.throttled) ++ s.waiting = s.throttled.filter (· ∉ s.removed)
  sorted : s.throttled.Pairwise (· < ·)
  nodup : s.admitted.Nodup
  lt_of_admitted : ∀ call ∈ s.admitted, call < s.nextCall
  lt_of_throttled : ∀ call ∈ s.throttled, call < s.nextCall
  throttled_of_removed : ∀ call ∈ s.removed, call ∈ s.throttled

theorem fair_start (limit : ℤ) : Fair limit 0 (start limit) := by
  constructor <;> simp [start, waiting]

section Fair

variable {limit : ℤ} {slack : ℕ} {s : Executions}

variable {call : ℕ} {executionId : String} {item : QueuedExecution}

theorem Fair.throttled_of_waiting (h : Fair limit slack s) (hcall : call ∈ s.waiting) :
    call ∈ s.throttled ∧ call ∉ s.removed := by
  have hmem : call ∈ s.throttled.filter (· ∉ s.removed) := by
    rw [← h.order]
    exact List.mem_append_right _ hcall
  simpa using hmem

theorem Fair.nodup_waiting (h : Fair limit slack s) : s.waiting.Nodup := by
  have hnodup : (s.throttled.filter (· ∉ s.removed)).Nodup :=
    (h.sorted.imp fun hlt => ne_of_lt hlt).filter _
  rw [← h.order] at hnodup
  exact (List.nodup_append.1 hnodup).2.1

/-- A call that waits was not let through. -/
theorem Fair.notMem_admitted (h : Fair limit slack s) (hcall : call ∈ s.waiting) :
    call ∉ s.admitted := by
  intro hadmitted
  have hnodup : (s.throttled.filter (· ∉ s.removed)).Nodup :=
    (h.sorted.imp fun hlt => ne_of_lt hlt).filter _
  rw [← h.order] at hnodup
  refine (List.nodup_append.1 hnodup).2.2 call ?_ call hcall rfl
  simpa [hadmitted] using (h.throttled_of_waiting hcall).1

/-- Letting the head of the queue through gives the place of the ended execution away. -/
theorem Fair.resolveNext (h : Fair limit 1 s) : Fair limit 0 s.resolveNext := by
  obtain ⟨⟨capacity, queue⟩, nextCall, admitted, running, throttled, removed⟩ := s
  cases queue with
  | nil => exact { h with full := fun hne => absurd rfl hne }
  | cons item queue =>
    have hhead : item.resolve ∈ waiting
        ⟨⟨capacity, item :: queue⟩, nextCall, admitted, running, throttled, removed⟩ :=
      List.mem_cons_self
    have hthrottled := (h.throttled_of_waiting hhead).1
    have hcapacity := h.capacity
    have hfull := h.full (List.ne_nil_of_mem hhead)
    have horder := h.order
    refine ⟨?_, fun _ => ?_, ?_, h.sorted, ?_, fun call hcall => ?_, h.lt_of_throttled,
      h.throttled_of_removed⟩
    · simp only [Executions.resolveNext, ConcurrencyQueue.resolveNext, resolved, waiting,
        List.length_append, List.length_map, List.length_cons, List.length_nil] at hcapacity ⊢
      push_cast at hcapacity ⊢
      linarith
    · simp only [Executions.resolveNext, ConcurrencyQueue.resolveNext, resolved,
        List.length_append, List.length_cons, List.length_nil] at hfull ⊢
      push_cast at hfull ⊢
      linarith
    · have hsingle : [item.resolve].filter (· ∈ throttled) = [item.resolve] := by
        simpa using hthrottled
      show (admitted ++ [item.resolve]).filter (· ∈ throttled) ++
        queue.map QueuedExecution.resolve = throttled.filter (· ∉ removed)
      rw [List.filter_append, hsingle, List.append_assoc]
      exact horder
    · refine List.nodup_append.2 ⟨h.nodup, List.nodup_singleton _, fun a ha b hb hab => ?_⟩
      rw [List.mem_singleton] at hb
      exact h.notMem_admitted hhead (hb ▸ hab ▸ ha)
    · rcases List.mem_append.1 hcall with hcall | hcall
      · exact h.lt_of_admitted call hcall
      · rw [List.mem_singleton.1 hcall]
        exact h.lt_of_throttled _ hthrottled

/-- The end of an execution frees a place. -/
theorem Fair.ended (h : Fair limit 0 s) (hcall : call ∈ s.running) :
    Fair limit 1 (s.ended call) := by
  have hlength := List.length_erase_of_mem hcall
  have hpos := List.length_pos_of_mem hcall
  refine { h with capacity := ?_, full := fun hne => ?_ }
  · have hcapacity := h.capacity
    show s.queue.capacity + 1 = limit - (s.running.erase call).length - s.waiting.length
    omega
  · have hfull := h.full hne
    show limit ≤ (s.running.erase call).length + (1 : ℕ)
    omega

/-- What is left of a queue when the first entry of an execution is removed. -/
theorem waiting_without (h : Fair limit 0 s) (hfind : s.queue.find? executionId = some item) :
    (s.without executionId item).waiting = s.waiting.filter (· ≠ item.resolve) ∧
      item.resolve ∈ s.waiting ∧
      (s.without executionId item).waiting.length + 1 = s.waiting.length := by
  have hnodup := h.nodup_waiting
  unfold ConcurrencyQueue.find? at hfind
  unfold without waiting at *
  dsimp only
  generalize s.queue.queue = queue at *
  clear h
  induction queue with
  | nil => cases hfind
  | cons e queue ih =>
    rw [List.map_cons, List.nodup_cons] at hnodup
    rw [List.find?_cons] at hfind
    by_cases he : e.executionId = executionId
    · simp only [he, decide_true] at hfind
      obtain rfl := Option.some.inj hfind
      have hrest : (queue.map QueuedExecution.resolve).filter (· ≠ e.resolve) =
          queue.map QueuedExecution.resolve :=
        List.filter_eq_self.2 fun call hcall =>
          decide_eq_true fun heq => hnodup.1 (heq ▸ hcall)
      have herase : (e :: queue).eraseP (fun item => item.executionId = executionId) = queue :=
        List.eraseP_cons_of_pos (by simpa using he)
      rw [herase, List.map_cons, List.filter_cons_of_neg (by simp), hrest]
      exact ⟨rfl, List.mem_cons_self, rfl⟩
    · simp only [he, decide_false] at hfind
      obtain ⟨hrest, hmem, hlength⟩ := ih hfind hnodup.2
      have hne : e.resolve ≠ item.resolve := fun heq => hnodup.1 (heq ▸ hmem)
      rw [List.eraseP_cons_of_neg (by simpa using he), List.map_cons, List.map_cons,
        List.filter_cons_of_pos (by simpa using hne), List.length_cons, List.length_cons, hlength,
        hrest]
      exact ⟨rfl, List.mem_cons_of_mem _ hmem, rfl⟩

/-- The removal of an entry frees its place in the queue. -/
theorem Fair.without (h : Fair limit 0 s) (hfind : s.queue.find? executionId = some item) :
    Fair limit 1 (s.without executionId item) := by
  obtain ⟨hrest, hmem, hlength⟩ := waiting_without h hfind
  have hthrottled := (h.throttled_of_waiting hmem).1
  have hadmitted := h.notMem_admitted hmem
  refine { h with capacity := ?_, full := fun hne => ?_, order := ?_, throttled_of_removed := ?_ }
  · have hcapacity := h.capacity
    show s.queue.capacity + 1 =
      limit - s.running.length - (s.without executionId item).waiting.length
    omega
  · have hfull := h.full (List.ne_nil_of_mem hmem)
    show limit ≤ s.running.length + (1 : ℕ)
    omega
  · have horder := congrArg (List.filter (· ≠ item.resolve)) h.order
    rw [List.filter_append, List.filter_filter, List.filter_filter] at horder
    rw [hrest]
    show s.admitted.filter (· ∈ s.throttled) ++ s.waiting.filter (· ≠ item.resolve) =
      s.throttled.filter (· ∉ s.removed ++ [item.resolve])
    have hleft : s.admitted.filter (fun call => decide (call ≠ item.resolve) &&
        decide (call ∈ s.throttled)) = s.admitted.filter (· ∈ s.throttled) :=
      List.filter_congr fun call hcall => by
        have hne : call ≠ item.resolve := fun heq => hadmitted (heq ▸ hcall)
        simp [hne]
    have hright : s.throttled.filter (fun call => decide (call ≠ item.resolve) &&
        decide (call ∉ s.removed)) = s.throttled.filter (· ∉ s.removed ++ [item.resolve]) :=
      List.filter_congr fun call _ => by
        simp [and_comm]
    rw [hleft, hright] at horder
    exact horder
  · intro call hcall
    rcases List.mem_append.1 hcall with hcall | hcall
    · exact h.throttled_of_removed call hcall
    · rw [List.mem_singleton.1 hcall]
      exact hthrottled

/-- A call that is let through takes a free place. -/
theorem Fair.enqueue_free (h : Fair limit 0 s) :
    Fair limit 0 { s with
      queue := { s.queue with capacity := s.queue.capacity - 1 }
      nextCall := s.nextCall + 1
      admitted := s.admitted ++ [s.nextCall]
      running := s.running ++ [s.nextCall] } := by
  have hcapacity := h.capacity
  constructor
  case capacity =>
    show s.queue.capacity - 1 = limit - (s.running ++ [s.nextCall]).length - s.waiting.length
    rw [List.length_append, List.length_singleton]
    omega
  case full =>
    intro hne
    have hfull := h.full hne
    show limit ≤ (s.running ++ [s.nextCall]).length + (0 : ℕ)
    rw [List.length_append]
    omega
  case order =>
    have hnew : s.nextCall ∉ s.throttled := fun hmem => lt_irrefl _ (h.lt_of_throttled _ hmem)
    show (s.admitted ++ [s.nextCall]).filter (· ∈ s.throttled) ++ s.waiting = _
    rw [List.filter_append, List.filter_cons_of_neg (by simpa using hnew), List.filter_nil,
      List.append_nil]
    exact h.order
  case sorted => exact h.sorted
  case nodup =>
    refine List.nodup_append.2 ⟨h.nodup, List.nodup_singleton _, fun a ha b hb hab => ?_⟩
    rw [List.mem_singleton] at hb
    exact lt_irrefl _ (h.lt_of_admitted s.nextCall (hb ▸ hab ▸ ha))
  case lt_of_admitted =>
    intro call hcall
    rcases List.mem_append.1 hcall with hcall | hcall
    · exact Nat.lt_succ_of_lt (h.lt_of_admitted call hcall)
    · exact List.mem_singleton.1 hcall ▸ Nat.lt_succ_self s.nextCall
  case lt_of_throttled => exact fun call hcall => Nat.lt_succ_of_lt (h.lt_of_throttled call hcall)
  case throttled_of_removed => exact h.throttled_of_removed

/-- A call that has to wait goes to the end of the queue. -/
theorem Fair.enqueue_full (h : Fair limit 0 s) (hfull : s.queue.capacity ≤ 0)
    (executionId : String) :
    Fair limit 0 { s with
      queue := {
        capacity := s.queue.capacity - 1
        queue := s.queue.queue ++ [{ executionId, resolve := s.nextCall }] }
      nextCall := s.nextCall + 1
      throttled := s.throttled ++ [s.nextCall] } := by
  have hcapacity := h.capacity
  have hwaiting : (s.queue.queue ++ [QueuedExecution.mk executionId s.nextCall]).map
      QueuedExecution.resolve = s.waiting ++ [s.nextCall] := List.map_append
  constructor
  case capacity =>
    show s.queue.capacity - 1 = limit - s.running.length - (List.length (List.map _ _))
    rw [hwaiting, List.length_append, List.length_singleton]
    omega
  case full =>
    intro _
    show limit ≤ s.running.length + (0 : ℕ)
    by_cases hne : s.waiting = []
    · rw [hne] at hcapacity
      simp only [List.length_nil] at hcapacity
      omega
    · exact h.full hne
  case order =>
    have hold : s.admitted.filter (· ∈ s.throttled ++ [s.nextCall]) =
        s.admitted.filter (· ∈ s.throttled) :=
      List.filter_congr fun call hcall => by
        have hne : call ≠ s.nextCall := (h.lt_of_admitted call hcall).ne
        simp [hne]
    have hnew : s.nextCall ∉ s.removed := fun hmem =>
      lt_irrefl _ (h.lt_of_throttled _ (h.throttled_of_removed _ hmem))
    show s.admitted.filter (· ∈ s.throttled ++ [s.nextCall]) ++ List.map _ _ =
      (s.throttled ++ [s.nextCall]).filter (· ∉ s.removed)
    rw [hwaiting, hold, List.filter_append, List.filter_cons_of_pos (by simpa using hnew),
      List.filter_nil, ← h.order, List.append_assoc]
  case sorted =>
    refine List.pairwise_append.2 ⟨h.sorted, List.pairwise_singleton _ _, fun a ha b hb => ?_⟩
    rw [List.mem_singleton.1 hb]
    exact h.lt_of_throttled a ha
  case nodup => exact h.nodup
  case lt_of_admitted => exact fun call hcall => Nat.lt_succ_of_lt (h.lt_of_admitted call hcall)
  case lt_of_throttled =>
    intro call hcall
    rcases List.mem_append.1 hcall with hcall | hcall
    · exact Nat.lt_succ_of_lt (h.lt_of_throttled call hcall)
    · exact List.mem_singleton.1 hcall ▸ Nat.lt_succ_self s.nextCall
  case throttled_of_removed =>
    exact fun call hcall => List.mem_append_left _ (h.throttled_of_removed call hcall)

/-- **Every call keeps the invariant.** -/
theorem fair_step (h : Fair limit 0 s) {s' : Executions} {a : Action} (ha : s.step a = some s') :
    Fair limit 0 s' := by
  rcases step_cases ha with ⟨executionId, -, -, rfl⟩ | ⟨executionId, -, hfull, rfl⟩ |
    ⟨call, hcall, -, rfl⟩ | ⟨executionId, -, -, rfl⟩ | ⟨executionId, item, -, hfind, rfl⟩
  · exact h.enqueue_free
  · exact h.enqueue_full hfull executionId
  · exact (h.ended hcall).resolveNext
  · exact h
  · exact (h.without hfind).resolveNext

theorem fair_run {l : List Action} (h : Run (start limit) l s) : Fair limit 0 s :=
  h.invariant (P := fun _ s => Fair limit 0 s) (fair_start limit)
    fun _ _ _ _ _ _ ha hfair => fair_step hfair ha

end Fair

/-! ### Progress -/

section Progress

variable {limit : ℤ} {s s' : Executions} {call : ℕ}

theorem idxOf_filter_le (p : ℕ → Bool) {l : List ℕ} {a : ℕ} (ha : p a = true) :
    (l.filter p).idxOf a ≤ l.idxOf a := by
  induction l with
  | nil => exact le_rfl
  | cons b l ih =>
    by_cases hb : b = a
    · subst hb
      rw [List.filter_cons_of_pos ha, List.idxOf_cons_self]
      exact Nat.zero_le _
    · rw [List.idxOf_cons_ne _ hb]
      by_cases hp : p b = true
      · rw [List.filter_cons_of_pos hp, List.idxOf_cons_ne _ hb]
        omega
      · rw [List.filter_cons_of_neg hp]
        omega

/-- The call waits among that many at the head, or it was let through or removed. -/
def Advanced (s : Executions) (call places : ℕ) : Prop :=
  call ∈ s.removed ∨ call ∈ s.admitted ∨ (call ∈ s.waiting ∧ s.waiting.idxOf call < places)

/-- Letting the head of the queue through brings the other calls one place forward. -/
theorem Advanced.resolveNext {places : ℕ} (h : s.Advanced call places) :
    s.resolveNext.Advanced call (places - 1) := by
  obtain ⟨⟨capacity, queue⟩, nextCall, admitted, running, throttled, removed⟩ := s
  cases queue with
  | nil =>
    rcases h with h | h | ⟨h, -⟩
    · exact .inl h
    · exact .inr (.inl h)
    · cases h
  | cons item queue =>
    rcases h with h | h | ⟨h, hplace⟩
    · exact .inl h
    · exact .inr (.inl (List.mem_append_left _ h))
    · by_cases hitem : item.resolve = call
      · exact .inr (.inl (List.mem_append_right _ (by simp [hitem])))
      · refine .inr (.inr ⟨(List.mem_cons.1 h).resolve_left (Ne.symm hitem), ?_⟩)
        have hidx :
    (item.resolve :: queue.map QueuedExecution.resolve).idxOf call < places := hplace
        rw [List.idxOf_cons_ne _ hitem] at hidx
        show (queue.map QueuedExecution.resolve).idxOf call < places - 1
        omega

theorem Advanced.without (hfair : Fair limit 0 s) {executionId : String} {item : QueuedExecution}
    (hfind : s.queue.find? executionId = some item) {places : ℕ} (h : s.Advanced call places) :
    (s.without executionId item).Advanced call places := by
  rcases h with h | h | ⟨h, hplace⟩
  · exact .inl (List.mem_append_left _ h)
  · exact .inr (.inl h)
  · by_cases hitem : call = item.resolve
    · exact .inl (List.mem_append_right _ (by simp [hitem]))
    · have hrest := (waiting_without hfair hfind).1
      refine .inr (.inr ⟨?_, ?_⟩)
      · rw [hrest]
        exact List.mem_filter.2 ⟨h, by simpa using hitem⟩
      · rw [hrest]
        exact (idxOf_filter_le _ (by simpa using hitem)).trans_lt hplace

theorem Advanced.mono {places places' : ℕ} (hle : places ≤ places') (h : s.Advanced call places) :
    s.Advanced call places' :=
  h.imp id fun h => h.imp id fun h => ⟨h.1, h.2.trans_le hle⟩

/-- No call moves back, and an end of an execution brings each one place forward. -/
theorem advanced_step (hfair : Fair limit 0 s) {a : Action} (ha : s.step a = some s') {places : ℕ}
    (h : s.Advanced call places) :
    s'.Advanced call (if a.isDequeue then places - 1 else places) := by
  rcases step_cases ha with ⟨executionId, rfl, -, rfl⟩ | ⟨executionId, rfl, -, rfl⟩ |
    ⟨c, -, rfl, rfl⟩ | ⟨executionId, rfl, -, rfl⟩ | ⟨executionId, item, rfl, hfind, rfl⟩
  · exact h.imp id fun h => h.imp (List.mem_append_left _) id
  · refine h.imp id fun h => h.imp id fun h => ?_
    have hwaiting : (s.queue.queue ++ [QueuedExecution.mk executionId s.nextCall]).map
        QueuedExecution.resolve = s.waiting ++ [s.nextCall] := List.map_append
    show call ∈ List.map _ _ ∧ List.idxOf call (List.map _ _) < places
    rw [hwaiting, List.idxOf_append, if_pos h.1]
    exact ⟨List.mem_append_left _ h.1, h.2⟩
  · exact Advanced.resolveNext (s := s.ended c) h
  · exact h
  · exact (Advanced.resolveNext (h.without hfair hfind)).mono (Nat.sub_le places 1)

/-- **The ends of executions bring a call to the head of the queue.** -/
theorem advanced_run (hfair : Fair limit 0 s) {l : List Action} (hrun : Run s l s') {places : ℕ}
    (h : s.Advanced call places) : s'.Advanced call (places - l.countP Action.isDequeue) := by
  have hinv := hrun.invariant (P := fun pre s₁ => Fair limit 0 s₁ ∧
    s₁.Advanced call (places - pre.countP Action.isDequeue)) ⟨hfair, h⟩ ?_
  · exact hinv.2
  · intro pre a s₁ s₂ _ _ ha hs₁
    refine ⟨fair_step hs₁.1 ha, ?_⟩
    have hstep := advanced_step hs₁.1 ha hs₁.2
    rw [List.countP_append, List.countP_singleton]
    cases hd : a.isDequeue with
    | false => simpa [hd] using hstep
    | true =>
      rw [hd, if_pos rfl] at hstep
      rwa [if_pos rfl, ← Nat.sub_sub]

end Progress

/-- **No capacity is wasted, and the executions are let through in their order**: the counter is the
limit less the executions that run and wait, one waits only when the limit is reached, those that had
to wait are let through in order and once, and each when more executions have ended than wait before
it, unless it is removed. -/
theorem enqueue_fair (limit : ℤ) {l : List Action} {s : Executions} (h : Run (start limit) l s) :
    s.queue.capacity = limit - s.running.length - s.waiting.length ∧
    (s.waiting ≠ [] → limit ≤ s.running.length) ∧
    s.throttled.Pairwise (· < ·) ∧ s.admitted.Nodup ∧
    s.admitted.filter (· ∈ s.throttled) ++ s.waiting = s.throttled.filter (· ∉ s.removed) ∧
    ∀ l' s' call, Run s l' s' → call ∈ s.waiting → call ∉ s'.removed →
      s.waiting.idxOf call < l'.countP Action.isDequeue → call ∈ s'.admitted := by
  have hfair := fair_run h
  refine ⟨hfair.capacity, fun hne => ?_, hfair.sorted, hfair.nodup, hfair.order, ?_⟩
  · simpa using hfair.full hne
  · intro l' s' call hrun hcall hremoved hended
    have hahead : s.Advanced call (s.waiting.idxOf call + 1) :=
      .inr (.inr ⟨hcall, Nat.lt_succ_self _⟩)
    rcases advanced_run hfair hrun hahead with hcall' | hcall' | ⟨-, hplace⟩
    · exact absurd hcall' hremoved
    · exact hcall'
    · omega

/-- One execution runs, another waits, and the first ends. -/
theorem enqueue_fair_handover :
    1 ∈ (Executions.mk { capacity := 0 } 2 [0, 1] [1] [1] []).admitted :=
  (enqueue_fair 1 (l := [.enqueue "a", .enqueue "b"])
    (s := Executions.mk ⟨-1, [⟨"b", 1⟩]⟩ 2 [0] [0] [1] [])
    (Lts.run_of_foldlM (by decide))).2.2.2.2.2 [.dequeue 0] _ 1 (Lts.run_of_foldlM (by decide))
    (by decide) (by decide) (by decide)

/-! ### The limit -/

theorem length_running_resolveNext (s : Executions) : s.resolveNext.running.length =
    if s.waiting = [] then s.running.length else s.running.length + 1 := by
  obtain ⟨⟨capacity, queue⟩, nextCall, admitted, running, throttled, removed⟩ := s
  cases queue with
  | nil => rfl
  | cons item queue =>
    show (running ++ [item.resolve]).length = running.length + 1
    exact List.length_append

/-- **The limit is kept exactly when no removal finds another execution waiting.** -/
theorem forall_running_le_iff (limit : ℕ) (l : List Action) :
    (∀ pre s, pre <+: l → Run (start limit) pre s → s.running.length ≤ limit) ↔
      ∀ pre a s₁ s₂, pre ++ [a] <+: l → Run (start limit) pre s₁ → s₁.step a = some s₂ →
        ∀ executionId, a = .remove executionId → s₁.queue.has executionId = true →
          s₁.waiting.length = 1 := by
  refine Lts.forall_prefix_iff (P := fun _ (s : Executions) => s.running.length ≤ limit)
    (Q := fun s a => ∀ executionId, a = .remove executionId → s.queue.has executionId = true →
      s.waiting.length = 1) (s := start limit) l (Nat.zero_le _) ?_
  intro pre a s₁ s₂ hrun ha hle
  have hfair := fair_run hrun
  have hcapacity := hfair.capacity
  rcases step_cases ha with ⟨executionId, rfl, hfree, rfl⟩ | ⟨executionId, rfl, -, rfl⟩ |
    ⟨c, hc, rfl, rfl⟩ | ⟨executionId, rfl, hnone, hs⟩ | ⟨executionId, item, rfl, hfind, rfl⟩
  · refine iff_of_true ?_ (by simp)
    show (s₁.running ++ [s₁.nextCall]).length ≤ limit
    rw [List.length_append, List.length_singleton]
    omega
  · exact iff_of_true hle (by simp)
  · refine iff_of_true ?_ (by simp)
    have hlength := List.length_erase_of_mem hc
    have hpos := List.length_pos_of_mem hc
    have hnext := length_running_resolveNext (s₁.ended c)
    have hended : (s₁.ended c).running.length = (s₁.running.erase c).length := rfl
    split_ifs at hnext <;> omega
  · refine iff_of_true (hs ▸ hle) fun executionId' h hhas => ?_
    cases h
    obtain ⟨item, hitem⟩ := (s₁.queue.exists_find?_iff executionId).2 hhas
    rw [hnone] at hitem
    cases hitem
  · obtain ⟨-, hmem, hrest⟩ := waiting_without hfair hfind
    have hfull := hfair.full (List.ne_nil_of_mem hmem)
    have hhas := (s₁.queue.exists_find?_iff executionId).1 ⟨item, hfind⟩
    have hnext := length_running_resolveNext (s₁.without executionId item)
    have hrunning : (s₁.without executionId item).running.length = s₁.running.length := rfl
    constructor
    · intro hle' executionId' h _
      cases h
      split_ifs at hnext with hempty
      · rw [hempty] at hrest
        exact hrest.symm
      · omega
    · intro honly
      have hone := honly executionId rfl hhas
      have hempty : (s₁.without executionId item).waiting = [] :=
        List.length_eq_zero_iff.1 (by omega)
      rw [if_pos hempty] at hnext
      omega

/-- **Over the limit**: with a limit of one, a removal lets a second execution through. -/
theorem removed_exceeds_limit :
    ¬ ∀ (limit : ℕ) (l : List Action) (s : Executions), 0 < limit → Run (start limit) l s →
      s.running.length ≤ limit := by
  intro h
  have hrun := h 1 [.enqueue "a", .enqueue "b", .enqueue "c", .remove "b"]
    (Executions.mk ⟨-1, []⟩ 3 [0, 2] [0, 2] [1, 2] [1]) one_pos (Lts.run_of_foldlM (by decide))
  exact absurd hrun (by decide)

end Executions

end N8n
