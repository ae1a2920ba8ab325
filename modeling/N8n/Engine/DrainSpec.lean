import N8n.Engine.AddNodeSpec
import N8n.Engine.Drain

/-!
# What the search among waiting nodes does

* `waitingWeight`: a sum over the waiting runs, each with the weight of its node, and how it changes
  when the runs of one node do;
* `Took`: the search takes one waiting run, and with it either fills the stack or starts again;
* `drain_cases`: the state in which the search ends;
* `drain_failsOnly`: it ends.
-/

namespace N8n

/-! ### Weights -/

/-- The weight of an entry of the stack is that of its node. -/
def entryWeight (W : String → ℕ) (e : IExecuteData) : ℕ := (e.node.map fun n => W n.name).getD 0

/-- The weight of the stack. -/
def stackWeight (W : String → ℕ) (st : RunExecutionData) : ℕ :=
  (st.nodeExecutionStack.map (entryWeight W)).sum

/-- The weight of the waiting runs. -/
def waitingWeight (W : String → ℕ) (st : RunExecutionData) : ℕ :=
  (st.waitingExecution.entries.map fun e => W e.1 * e.2.size).sum

theorem waitingRuns_eq (st : RunExecutionData) :
    waitingRuns st = waitingWeight (fun _ => 1) st := by
  simp [waitingRuns, waitingWeight, Dict.values, Function.comp_def]

variable {nodeName : String} {st st' : RunExecutionData} {env : Environment} {step : DrainStep}

variable {W : String → ℕ} {k n : ℕ} {data : ITaskDataConnections} {waitingNodes : List String}
  {P : RunExecutionData → Prop}

/-- When only the waiting runs of one node change, their number accounts for the difference. -/
theorem waitingWeight_add (h : ∀ nodeName' ≠ nodeName,
      st'.waitingExecution.get? nodeName' = st.waitingExecution.get? nodeName') :
    waitingWeight W st' + W nodeName * (st.waitingOf nodeName).size =
      waitingWeight W st + W nodeName * (st'.waitingOf nodeName).size := by
  have hsplit : ∀ st : RunExecutionData, waitingWeight W st = W nodeName * (st.waitingOf nodeName).size +
      ((st.waitingExecution.erase nodeName).entries.map fun e => W e.1 * e.2.size).sum := by
    intro st
    rw [waitingWeight, Dict.sum_entries_eq _ _ nodeName, RunExecutionData.waitingOf]
    cases st.waitingExecution.get? nodeName <;> simp
  have hothers : ∀ k, (st'.waitingExecution.erase nodeName).get? k =
      (st.waitingExecution.erase nodeName).get? k := by
    intro k
    rw [Dict.get?_erase, Dict.get?_erase]
    split_ifs with hk
    · rfl
    · exact h k hk
  have hsum := ((Dict.entries_perm_of_get?_eq hothers).map fun e => W e.1 * e.2.size).sum_nat
  rw [hsplit st, hsplit st', hsum]
  omega

/-- A node with at most `j` more waiting runs adds their weight at most. -/
theorem waitingWeight_le {j : ℕ} (h : ∀ nodeName' ≠ nodeName,
      st'.waitingExecution.get? nodeName' = st.waitingExecution.get? nodeName')
    (hsize : (st'.waitingOf nodeName).size ≤ (st.waitingOf nodeName).size + j) :
    waitingWeight W st' ≤ waitingWeight W st + W nodeName * j := by
  have hadd := waitingWeight_add (W := W) h
  have hmul := Nat.mul_le_mul_left (W nodeName) hsize
  rw [Nat.mul_add] at hmul
  omega

theorem waitingWeight_removeWaiting (W : String → ℕ)
    (h : (st.waitingOf nodeName).get? k = some data) :
    waitingWeight W (removeWaiting nodeName k st) + W nodeName = waitingWeight W st := by
  have hadd : waitingWeight W (removeWaiting nodeName k st) +
      W nodeName * (st.waitingOf nodeName).size = waitingWeight W st +
        W nodeName * ((removeWaiting nodeName k st).waitingOf nodeName).size :=
    waitingWeight_add fun _ => get?_removeWaiting nodeName k st
  rw [waitingOf_removeWaiting, ← IndexMap.size_erase _ h, Nat.mul_add] at hadd
  omega

/-! ### Taking a waiting run -/

/-- The search takes a waiting run of a node that the workflow has. -/
inductive Took (env : Environment) (st : RunExecutionData) : DrainStep → Prop
  | push {nodeName : String} {k : ℕ} {data : ITaskDataConnections} {e : IExecuteData}
    (hrun : (st.waitingOf nodeName).get? k = some data) (hnode : e.node = env.workflow.getNode nodeName)
    (hmain : (e.data.get? .main).isSome) (hindex : e.runIndex = none) (hmeta : e.metadata = none) :
    Took env st (.push (removeWaiting nodeName k
      { st with nodeExecutionStack := st.nodeExecutionStack ++ [e] }))
  | remove {nodeName : String} {k : ℕ} {data : ITaskDataConnections}
    (hrun : (st.waitingOf nodeName).get? k = some data) :
    Took env st (.remove (removeWaiting nodeName k st))

theorem takeWaitingRun_took {inputs : ℕ} {main : ItemLists}
    (hrun : (st.waitingOf nodeName).get? k = some data)
    (h : takeWaitingRun env.workflow nodeName k inputs main st = .ok step) : Took env st step := by
  simp only [takeWaitingRun, Except.bind_eq_ok_iff] at h
  obtain ⟨sources, -, any, -, h⟩ := h
  cases any with
  | true =>
    cases h
    exact .push hrun rfl (by simp) rfl rfl
  | false =>
    cases h
    exact .remove hrun

theorem drainNode_cases (h : drainNode env waitingNodes st nodeName = .ok step) :
    step = .skip ∨ Took env st step := by
  unfold drainNode at h
  cases hnode : env.workflow.getNode nodeName with
  | none =>
    rw [hnode] at h
    cases h
    exact Or.inl rfl
  | some checkNode =>
    simp only [hnode, Except.bind_eq_ok_iff] at h
    obtain ⟨nodeType, -, requiredInputs, -, h⟩ := h
    split_ifs at h
    · cases h
      exact Or.inl rfl
    · cases h
      exact Or.inl rfl
    · simp only [Except.bind_eq_ok_iff] at h
      obtain ⟨k, -, data, hdata, main, -, h⟩ := h
      split_ifs at h
      · exact Or.inr (takeWaitingRun_took (orTypeError_eq_ok hdata) h)
      · cases h
        exact Or.inl rfl

theorem drainScan_cases {l : List String} (h : drainScan env waitingNodes st l = .ok step) :
    (step = .skip ∧ ∀ nodeName ∈ l, drainNode env waitingNodes st nodeName = .ok .skip) ∨
      Took env st step := by
  induction l with
  | nil =>
    cases h
    exact Or.inl ⟨rfl, fun _ h => absurd h List.not_mem_nil⟩
  | cons nodeName l ih =>
    rw [drainScan, Except.bind_eq_ok_iff] at h
    obtain ⟨step', hstep', h⟩ := h
    cases step' with
    | skip =>
      refine (ih h).imp_left fun ⟨hskip, hl⟩ => ⟨hskip, fun nodeName' hmem => ?_⟩
      rcases List.mem_cons.1 hmem with rfl | hmem
      · exact hstep'
      · exact hl nodeName' hmem
    | push st' | remove st' =>
      cases h
      exact Or.inr ((drainNode_cases hstep').resolve_left (by simp))

/-- How the search ends: every waiting node is passed over, or an entry was put on the stack. -/
inductive Drained (env : Environment) (st' : RunExecutionData) : Prop
  | allSkipped (h : ∀ nodeName ∈ st'.waitingExecution.ownKeys,
      drainNode env st'.waitingExecution.ownKeys st' nodeName = .ok .skip)
  | filled (h : st'.nodeExecutionStack ≠ [])

/-- What every run taken keeps holds when the search ends. -/
theorem drainWaiting_cases
    (htook : ∀ st st', Took env st (.push st') ∨ Took env st (.remove st') → P st → P st')
    (hP : P st) (h : drainWaiting env n st = .ok st') : P st' ∧ Drained env st' := by
  induction n generalizing st with
  | zero => cases h
  | succ n ih =>
    rw [drainWaiting, Except.bind_eq_ok_iff] at h
    obtain ⟨step, hstep, h⟩ := h
    cases step with
    | skip =>
      cases h
      exact ⟨hP, .allSkipped ((drainScan_cases hstep).resolve_right fun h => by cases h).2⟩
    | push st₁ =>
      cases h
      have htaken := (drainScan_cases hstep).resolve_left fun h => by cases h.1
      refine ⟨htook _ _ (Or.inl htaken) hP, .filled ?_⟩
      cases htaken
      rw [(removeWaiting_frame _ _ _).2]
      exact List.append_ne_nil_of_right_ne_nil _ (List.cons_ne_nil _ _)
    | remove st₁ =>
      refine ih (htook _ _ (Or.inr ?_) hP) h
      exact (drainScan_cases hstep).resolve_left fun h => by cases h.1

theorem drain_cases
    (htook : ∀ st st', Took env st (.push st') ∨ Took env st (.remove st') → P st → P st')
    (hP : P st) (h : drain env st = .ok st') : P st' ∧ Drained env st' := by
  rw [drain] at h
  split_ifs at h with hstack
  · exact drainWaiting_cases htook hP h
  · cases h
    exact ⟨hP, .filled hstack⟩

/-! ### The search ends -/

/-- The errors that can stop the search: something that is missing, or a call that leaves the loop. -/
def JsError.EndsSearch (e : JsError) : Prop := e = .typeError ∨ ∃ message, e = .thrown message

theorem failsOnly_anyItems (main : ItemLists) : (anyItems main).FailsOnly (· = .typeError) := by
  induction main with
  | nil => exact Except.failsOnly_ok false
  | cons c main ih =>
    match c with
    | none => exact ih
    | some (.items l) =>
      rw [anyItems]
      exact ih.bind fun r _ => Except.failsOnly_ok _
    | some .null | some .undefined => exact Except.failsOnly_error rfl

theorem failsOnly_fromOutside {α : Type} (x : Except String α) :
    (fromOutside x).FailsOnly JsError.EndsSearch := by
  cases x with
  | error message => exact Except.failsOnly_error (Or.inr ⟨message, rfl⟩)
  | ok a => exact Except.failsOnly_ok a

theorem failsOnly_requiredInputsOf (env : Environment) (checkNode : INode)
    (nodeType : NodeTypeDescription) :
    (requiredInputsOf env checkNode nodeType).FailsOnly JsError.EndsSearch := by
  rw [requiredInputsOf]
  split_ifs
  · exact Except.failsOnly_ok none
  · split
    · exact Except.failsOnly_ok none
    · exact Except.failsOnly_ok _
    · exact failsOnly_fromOutside _

theorem failsOnly_takeWaitingRun (w : Workflow) (nodeName : String) (k inputs : ℕ)
    (main : ItemLists) (st : RunExecutionData) :
    (takeWaitingRun w nodeName k inputs main st).FailsOnly (· = .typeError) := by
  rw [takeWaitingRun]
  refine (failsOnly_orTypeError (P := (· = .typeError)) rfl _).bind fun sources _ => ?_
  refine (failsOnly_anyItems _).bind fun any _ => ?_
  split_ifs <;> exact Except.failsOnly_ok _

theorem failsOnly_drainNode (env : Environment) (waitingNodes : List String)
    (st : RunExecutionData) (nodeName : String) :
    (drainNode env waitingNodes st nodeName).FailsOnly JsError.EndsSearch := by
  have htype : JsError.EndsSearch .typeError := Or.inl rfl
  rw [drainNode]
  split
  · exact Except.failsOnly_ok _
  · refine (failsOnly_fromOutside _).bind fun nodeType _ => ?_
    refine (failsOnly_requiredInputsOf env _ _).bind fun requiredInputs _ => ?_
    split_ifs
    · exact Except.failsOnly_ok _
    · exact Except.failsOnly_ok _
    · refine (failsOnly_orTypeError htype _).bind fun k _ => ?_
      refine (failsOnly_orTypeError htype _).bind fun data _ => ?_
      refine (failsOnly_orTypeError htype _).bind fun main _ => ?_
      split_ifs
      · exact (failsOnly_takeWaitingRun _ _ _ _ _ _).imp fun e he => Or.inl he
      · exact Except.failsOnly_ok _

theorem failsOnly_drainScan (env : Environment) (waitingNodes : List String)
    (st : RunExecutionData) (l : List String) :
    (drainScan env waitingNodes st l).FailsOnly JsError.EndsSearch := by
  induction l with
  | nil => exact Except.failsOnly_ok _
  | cons nodeName l ih =>
    rw [drainScan]
    refine (failsOnly_drainNode env waitingNodes st nodeName).bind fun step _ => ?_
    cases step with
    | skip => exact ih
    | push st' | remove st' => exact Except.failsOnly_ok _

/-- Every time the search starts again there is one waiting run less. -/
theorem failsOnly_drainWaiting (hn : waitingRuns st < n) :
    (drainWaiting env n st).FailsOnly JsError.EndsSearch := by
  induction n generalizing st with
  | zero => exact absurd hn (Nat.not_lt_zero _)
  | succ n ih =>
    rw [drainWaiting]
    refine (failsOnly_drainScan env _ st _).bind fun step hstep => ?_
    cases step with
    | skip | push st' => exact Except.failsOnly_ok _
    | remove st' =>
      have htook := (drainScan_cases hstep).resolve_left fun h => by cases h.1
      cases htook with
      | remove hrun =>
        have hweight := waitingWeight_removeWaiting (fun _ => 1) hrun
        rw [← waitingRuns_eq, ← waitingRuns_eq] at hweight
        exact ih (by omega)

theorem drain_failsOnly (env : Environment) (st : RunExecutionData) :
    (drain env st).FailsOnly JsError.EndsSearch := by
  rw [drain]
  split_ifs
  · exact failsOnly_drainWaiting (Nat.lt_succ_self _)
  · exact Except.failsOnly_ok _

end N8n
