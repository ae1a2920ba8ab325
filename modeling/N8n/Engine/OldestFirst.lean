import N8n.Engine.LoopEnd
import N8n.Engine.WaitingData
import N8n.Lib.Picks
import Mathlib.Data.List.ReduceOption

/-!
# The order in which waiting runs are taken

* `TakesRun`, `takesRun_cases`: the search takes the waiting run whose index is least as a text;
* `WaitingRun`, `waitingRun_of_drain`: the searches of an execution, as far as they concern one node;
* `waitingRun_ascending_iff`: whether its runs are taken by ascending index;
* `takes_oldest_first`: they are while at most ten wait.
-/

namespace N8n

/-! ### The earliest run -/

variable {k : ℕ} {nodeName : String} {st st' : RunExecutionData} {env : Environment}

theorem toString_injective {k' : ℕ} (h : toString k = toString k') : k = k' := by
  have hdigits : Nat.toDigits 10 k = Nat.toDigits 10 k' := by
    rw [← Nat.toList_repr, ← Nat.toList_repr]
    exact congrArg String.toList h
  have hvalue := congrArg (Nat.ofDigitChars 10 · 0) hdigits
  simpa only [Nat.ofDigitChars_toDigits (b := 10) (by decide) (by decide)] using hvalue

theorem firstRunIndex_eq_some {waiting : IndexMap ITaskDataConnections}
    (h : firstRunIndex waiting = some k) :
    k ∈ waiting.keys ∧ ∀ k' ∈ waiting.keys, toString k ≤ toString k' := by
  have : Std.Total fun k k' : ℕ => toString k ≤ toString k' := ⟨fun _ _ => String.le_total _ _⟩
  have : IsTrans ℕ fun k k' => toString k ≤ toString k' := ⟨fun _ _ _ => String.le_trans⟩
  have hsorted := List.pairwise_insertionSort (fun k k' => toString k ≤ toString k') waiting.keys
  have hperm := List.perm_insertionSort (fun k k' => toString k ≤ toString k') waiting.keys
  rw [firstRunIndex] at h
  obtain ⟨rest, hrest⟩ := List.head?_eq_some_iff.1 h
  rw [hrest] at hsorted hperm
  refine ⟨hperm.mem_iff.1 List.mem_cons_self, fun k' hk' => ?_⟩
  rcases List.mem_cons.1 (hperm.mem_iff.2 hk') with rfl | hk'
  · exact String.le_refl _
  · exact (List.pairwise_cons.1 hsorted).1 k' hk'

/-! ### The search -/

/-- The search takes a waiting run: it goes to the stack, or is removed for want of items. -/
def TakesRun (env : Environment) (st st' : RunExecutionData) : Prop :=
  let waitingNodes := st.waitingExecution.ownKeys
  drainScan env waitingNodes st waitingNodes = .ok (.push st') ∨
    drainScan env waitingNodes st waitingNodes = .ok (.remove st')

/-- Only run `k` of a node is gone, and it was the earliest one. -/
structure TookFirst (nodeName : String) (k : ℕ) (st st' : RunExecutionData) : Prop where
  first : firstRunIndex (st.waitingOf nodeName) = some k
  runs : st'.waitingOf nodeName = (st.waitingOf nodeName).erase k
  others : ∀ nodeName' ≠ nodeName, st'.waitingOf nodeName' = st.waitingOf nodeName'

theorem tookFirst_removeWaiting (hwaiting : st'.waitingExecution = st.waitingExecution)
    (h : firstRunIndex (st.waitingOf nodeName) = some k) :
    TookFirst nodeName k st (removeWaiting nodeName k st') where
  first := h
  runs := by
    rw [waitingOf_removeWaiting, RunExecutionData.waitingOf, hwaiting]
    rfl
  others := fun nodeName' hne => by
    rw [RunExecutionData.waitingOf, get?_removeWaiting nodeName k st' hne, hwaiting]
    rfl

theorem takeWaitingRun_tookFirst {w : Workflow} {inputs : ℕ} {main : ItemLists}
    (hfirst : firstRunIndex (st.waitingOf nodeName) = some k)
    (h : takeWaitingRun w nodeName k inputs main st = .ok (.push st') ∨
      takeWaitingRun w nodeName k inputs main st = .ok (.remove st')) :
    TookFirst nodeName k st st' := by
  simp only [takeWaitingRun, Except.bind_eq_ok_iff] at h
  rcases h with ⟨sources, -, any, -, h⟩ | ⟨sources, -, any, -, h⟩
  · cases any <;> cases h
    exact tookFirst_removeWaiting rfl hfirst
  · cases any <;> cases h
    exact tookFirst_removeWaiting rfl hfirst

theorem drainNode_tookFirst {waitingNodes : List String}
    (h : drainNode env waitingNodes st nodeName = .ok (.push st') ∨
      drainNode env waitingNodes st nodeName = .ok (.remove st')) :
    ∃ k, TookFirst nodeName k st st' := by
  rw [drainNode] at h
  cases hnode : env.workflow.getNode nodeName with
  | none => simp [hnode] at h
  | some checkNode =>
    simp only [hnode, Except.bind_eq_ok_iff] at h
    rcases h with ⟨nodeType, -, requiredInputs, -, h⟩ | ⟨nodeType, -, requiredInputs, -, h⟩
    all_goals
      split_ifs at h
      · cases h
      · cases h
      · simp only [Except.bind_eq_ok_iff] at h
        obtain ⟨k, hk, data, -, main, -, h⟩ := h
        split_ifs at h
        · first
            | exact ⟨k, takeWaitingRun_tookFirst (orTypeError_eq_ok hk) (Or.inl h)⟩
            | exact ⟨k, takeWaitingRun_tookFirst (orTypeError_eq_ok hk) (Or.inr h)⟩
        · cases h

theorem drainScan_tookFirst {waitingNodes l : List String}
    (h : drainScan env waitingNodes st l = .ok (.push st') ∨
      drainScan env waitingNodes st l = .ok (.remove st')) :
    ∃ nodeName k, TookFirst nodeName k st st' := by
  induction l with
  | nil => rcases h with h | h <;> cases h
  | cons nodeName l ih =>
    simp only [drainScan, Except.bind_eq_ok_iff] at h
    rcases h with ⟨step, hstep, h⟩ | ⟨step, hstep, h⟩
    · cases step with
      | skip => exact ih (Or.inl h)
      | push st₁ =>
        cases h
        exact ⟨nodeName, drainNode_tookFirst (Or.inl hstep)⟩
      | remove st₁ => cases h
    · cases step with
      | skip => exact ih (Or.inr h)
      | push st₁ => cases h
      | remove st₁ =>
        cases h
        exact ⟨nodeName, drainNode_tookFirst (Or.inr hstep)⟩

/-- **The search takes the earliest run of one node.** -/
theorem takesRun_cases (h : TakesRun env st st') : ∃ nodeName k, TookFirst nodeName k st st' :=
  drainScan_tookFirst h

theorem mem_keys_erase {α : Type*} (m : IndexMap α) (k k' : ℕ) :
    k' ∈ (m.erase k).keys ↔ k' ∈ m.keys ∧ k' ≠ k := by
  rw [IndexMap.mem_keys_iff, IndexMap.mem_keys_iff, IndexMap.get?_erase]
  split_ifs with h
  · simp [h]
  · simp [h]

/-! ### The runs of one node -/

/-- A step of an execution, as seen by one node: its waiting run `k` is taken when the stack is empty,
or something else happens that neither adds nor takes one of its waiting runs. -/
def WaitingStep (env : Environment) (nodeName : String) (st : RunExecutionData) :
    Option ℕ → RunExecutionData → Prop
  | some k, st' => st.nodeExecutionStack = [] ∧ TakesRun env st st' ∧
      k ∈ (st.waitingOf nodeName).keys ∧ k ∉ (st'.waitingOf nodeName).keys
  | none, st' => ∀ k, k ∈ (st'.waitingOf nodeName).keys ↔ k ∈ (st.waitingOf nodeName).keys

/-- The steps of an execution, as seen by one node. -/
abbrev WaitingRun (env : Environment) (nodeName : String) :
    RunExecutionData → List (Option ℕ) → RunExecutionData → Prop :=
  Lts.Run (WaitingStep env nodeName)

section WaitingRun

variable {env : Environment} {nodeName : String} {st st' : RunExecutionData} {l : List (Option ℕ)}

theorem waitingStep_some {k : ℕ} (h : WaitingStep env nodeName st (some k) st') :
    TookFirst nodeName k st st' := by
  obtain ⟨-, htakes, hk, hgone⟩ := h
  obtain ⟨nodeName', k', htook⟩ := takesRun_cases htakes
  by_cases hname : nodeName = nodeName'
  · subst hname
    rw [htook.runs, mem_keys_erase, not_and, not_not] at hgone
    exact hgone hk ▸ htook
  · exact absurd (htook.others nodeName hname ▸ hk) hgone

/-- The runs that are taken are, one after the other, the earliest as texts. -/
theorem waitingRun_picks (h : WaitingRun env nodeName st l st') :
    Picks (fun k k' : ℕ => toString k ≤ toString k') (st.waitingOf nodeName).keys l.reduceOption ∧
      ∀ k, k ∈ (st'.waitingOf nodeName).keys ↔
        k ∈ (st.waitingOf nodeName).keys ∧ k ∉ l.reduceOption := by
  induction h with
  | nil => exact ⟨Picks.nil _ _, fun k => by simp [List.reduceOption]⟩
  | @snoc st₁ st₂ l a h ha ih =>
    obtain ⟨hpicks, hkeys⟩ := ih
    cases a with
    | none =>
      rw [List.reduceOption_append, List.reduceOption_singleton, Option.toList_none, List.append_nil]
      exact ⟨hpicks, fun k => (ha k).trans (hkeys k)⟩
    | some k =>
      rw [List.reduceOption_append, List.reduceOption_singleton, Option.toList_some]
      have htook := waitingStep_some ha
      obtain ⟨hk, hleast⟩ := firstRunIndex_eq_some htook.first
      obtain ⟨hk, hnot⟩ := (hkeys k).1 hk
      refine ⟨Picks.concat_iff.2 ⟨hpicks, hk, hnot, fun k' hk' hnot' => ?_⟩, fun k' => ?_⟩
      · exact hleast k' ((hkeys k').2 ⟨hk', hnot'⟩)
      · rw [htook.runs, mem_keys_erase, hkeys, List.mem_append, List.mem_singleton, not_or, and_assoc]

/-- **The waiting runs of a node are taken by ascending index** exactly when the index of each of the
first of them, as many as are taken, comes before all higher ones as a text, too. -/
theorem waitingRun_ascending_iff (h : WaitingRun env nodeName st l st') :
    Picks (· ≤ ·) (st.waitingOf nodeName).keys l.reduceOption ↔
      ∀ k ∈ (st.waitingOf nodeName).keys,
        (st.waitingOf nodeName).keys.countP (· < k) < l.reduceOption.length →
          ∀ k' ∈ (st.waitingOf nodeName).keys, k < k' → toString k ≤ toString k' :=
  (waitingRun_picks h).1.ascending_iff (IndexMap.keys_nodup _)
    fun _ _ h h' => toString_injective (String.le_antisymm h h')

/-- One-digit indexes are ordered as texts as they are as numbers. -/
theorem waitingRun_ascending_of_lt_ten (h : WaitingRun env nodeName st l st')
    (hten : ∀ k ∈ (st.waitingOf nodeName).keys, k < 10) :
    Picks (· ≤ ·) (st.waitingOf nodeName).keys l.reduceOption := by
  have hdigits : ∀ k < 10, ∀ k' < 10, k < k' → toString k ≤ toString k' := by decide
  refine ((waitingRun_picks h).1.ascending_iff (IndexMap.keys_nodup _) fun _ _ h h' =>
    toString_injective (String.le_antisymm h h')).2 ?_
  exact fun k hk _ k' hk' hlt => hdigits k (hten k hk) k' (hten k' hk') hlt

theorem waitingStep_of_takesRun (nodeName : String) (hstack : st.nodeExecutionStack = [])
    (h : TakesRun env st st') : ∃ a, WaitingStep env nodeName st a st' := by
  obtain ⟨nodeName', k, htook⟩ := takesRun_cases h
  by_cases hname : nodeName = nodeName'
  · subst hname
    refine ⟨some k, hstack, h, (firstRunIndex_eq_some htook.first).1, fun hk => ?_⟩
    rw [htook.runs, mem_keys_erase] at hk
    exact hk.2 rfl
  · exact ⟨none, fun k => by rw [htook.others nodeName hname]⟩

theorem stack_of_remove (h : drainScan env st.waitingExecution.ownKeys st
    st.waitingExecution.ownKeys = .ok (.remove st')) :
    st'.nodeExecutionStack = st.nodeExecutionStack := by
  cases (drainScan_cases h).resolve_left fun h => by cases h.1
  exact (removeWaiting_frame _ _ _).2

/-- **The searches of the loop are such steps.** -/
theorem waitingRun_of_drain (nodeName : String) (h : drain env st = .ok st') :
    ∃ l, WaitingRun env nodeName st l st' := by
  have hwaiting : ∀ (n : ℕ) (st₁ : RunExecutionData) (l : List (Option ℕ)),
      WaitingRun env nodeName st l st₁ → st₁.nodeExecutionStack = [] →
      drainWaiting env n st₁ = .ok st' → ∃ l, WaitingRun env nodeName st l st' := by
    intro n
    induction n with
    | zero =>
      intro st₁ l _ _ h
      cases h
    | succ n ih =>
      intro st₁ l hrun hstack h
      rw [drainWaiting, Except.bind_eq_ok_iff] at h
      obtain ⟨step, hstep, h⟩ := h
      cases step with
      | skip =>
        cases h
        exact ⟨l, hrun⟩
      | push st₂ =>
        cases h
        obtain ⟨a, ha⟩ := waitingStep_of_takesRun nodeName hstack (Or.inl hstep)
        exact ⟨_, hrun.snoc ha⟩
      | remove st₂ =>
        obtain ⟨a, ha⟩ := waitingStep_of_takesRun nodeName hstack (Or.inr hstep)
        exact ih st₂ _ (hrun.snoc ha) ((stack_of_remove hstep).trans hstack) h
  rw [drain] at h
  split_ifs at h with hstack
  · exact hwaiting _ st [] (Lts.Run.nil st) hstack h
  · cases h
    exact ⟨[], Lts.Run.nil st⟩

/-- A delivery while fewer than ten runs of the node wait leaves no index above nine. -/
theorem keys_lt_ten_of_delivery {w : Workflow} {d : Delivery}
    (h : addNodeToBeExecuted w nodeName d st = .ok st')
    (hten : ∀ k ∈ (st.waitingOf nodeName).keys, k < 10) (hsize : (st.waitingOf nodeName).size < 10) :
    ∀ k ∈ (st'.waitingOf nodeName).keys, k < 10 := by
  rw [addNodeToBeExecuted] at h
  split_ifs at h with hinputs
  · cases (addToWaiting_cases h).1 with
    | moved hrec hdata hstack hruns =>
      intro k hk
      rw [hruns, mem_keys_erase] at hk
      exact hten k hk.1
    | kept hrec hdata hlegacy hforced hstack hruns =>
      intro k hk
      rw [hruns, IndexMap.mem_keys_iff, IndexMap.get?_set] at hk
      split_ifs at hk with hkey
      · cases hrec with
        | waiting he => exact hten k ((IndexMap.mem_keys_iff _ _).2 (hkey ▸ he ▸ rfl))
        | opened => exact hkey ▸ hsize
      · exact hten k ((IndexMap.mem_keys_iff _ _).2 hk)
  · cases h
    rw [addToStack]
    split
    · exact hten
    · exact hten

/-- While at most ten runs of the node wait, deliveries leave no index above nine. -/
theorem keys_lt_ten_of_deliveries {w : Workflow} {log : List Delivery}
    (h : DeliveryRun w nodeName st log st') (hten : ∀ k ∈ (st.waitingOf nodeName).keys, k < 10)
    (hfew : ∀ pre d st₁, pre ++ [d] <+: log → DeliveryRun w nodeName st pre st₁ →
      (st₁.waitingOf nodeName).size < 10) :
    ∀ k ∈ (st'.waitingOf nodeName).keys, k < 10 := by
  refine h.invariant (P := fun _ s => ∀ k ∈ (s.waitingOf nodeName).keys, k < 10) hten ?_
  exact fun pre d st₁ st₂ hp hrun hd hkeys => keys_lt_ten_of_delivery hd hkeys (hfew pre d st₁ hp hrun)

end WaitingRun

/-- The execution in which `A` delivered eleven times to the first input of `M`. -/
def elevenWaiting : RunExecutionData :=
  (((List.range 11).map (mergeDelivery "A" 0)).foldlM
    (fun st d => addNodeToBeExecuted mergeWorkflow "M" d st) {}).toOption.getD {}

/-- The execution after a search, and after the entry that it found. -/
def searched (st : RunExecutionData) : RunExecutionData :=
  (drain (plainEnvironment mergeWorkflow) st).toOption.getD {}

/-- The execution after its entries. -/
def emptied (st : RunExecutionData) : RunExecutionData := { st with nodeExecutionStack := [] }

theorem deliveryRun_elevenWaiting : DeliveryRun mergeWorkflow "M" {}
    ((List.range 11).map (mergeDelivery "A" 0)) elevenWaiting :=
  Lts.run_iff_foldlM.2 rfl

theorem waitingRun_elevenWaiting : WaitingRun (plainEnvironment mergeWorkflow) "M" elevenWaiting
    [some 0, none, some 1, none, some 10]
    (searched (emptied (searched (emptied (searched elevenWaiting))))) := by
  have hfirst : WaitingStep (plainEnvironment mergeWorkflow) "M" elevenWaiting (some 0)
      (searched elevenWaiting) := ⟨rfl, Or.inl rfl, by decide, by decide⟩
  have hsecond : WaitingStep (plainEnvironment mergeWorkflow) "M"
      (emptied (searched elevenWaiting)) (some 1)
      (searched (emptied (searched elevenWaiting))) := ⟨rfl, Or.inl rfl, by decide, by decide⟩
  have hthird : WaitingStep (plainEnvironment mergeWorkflow) "M"
      (emptied (searched (emptied (searched elevenWaiting)))) (some 10)
      (searched (emptied (searched (emptied (searched elevenWaiting))))) :=
    ⟨rfl, Or.inl rfl, by decide, by decide⟩
  have hother : ∀ st, WaitingStep (plainEnvironment mergeWorkflow) "M" st none (emptied st) :=
    fun st k => Iff.rfl
  exact (((((Lts.Run.nil _).snoc hfirst).snoc (hother _)).snoc hsecond).snoc (hother _)).snoc hthird

theorem waitingRun_ascending_iff_eleven :
    Picks (· ≤ ·) (elevenWaiting.waitingOf "M").keys
        ([some 0, none, some 1, none, some 10] : List (Option ℕ)).reduceOption ↔
      ∀ k ∈ (elevenWaiting.waitingOf "M").keys,
        (elevenWaiting.waitingOf "M").keys.countP (· < k) <
            ([some 0, none, some 1, none, some 10] : List (Option ℕ)).reduceOption.length →
          ∀ k' ∈ (elevenWaiting.waitingOf "M").keys, k < k' → toString k ≤ toString k' :=
  waitingRun_ascending_iff waitingRun_elevenWaiting

/-- The last of the eleven runs is taken before the third. -/
theorem eleventh_run_before_third :
    DeliveryRun mergeWorkflow "M" {} ((List.range 11).map (mergeDelivery "A" 0)) elevenWaiting ∧
      WaitingRun (plainEnvironment mergeWorkflow) "M" elevenWaiting
        [some 0, none, some 1, none, some 10]
        (searched (emptied (searched (emptied (searched elevenWaiting))))) ∧
      ¬Picks (· ≤ ·) (elevenWaiting.waitingOf "M").keys [0, 1, 10] := by
  refine ⟨deliveryRun_elevenWaiting, waitingRun_elevenWaiting, fun h => ?_⟩
  have hle := (h [0, 1] 10 (List.prefix_refl _)).2.2 2 (by decide) (by decide)
  omega

end N8n
