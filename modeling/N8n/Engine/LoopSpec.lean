import N8n.Engine.DrainSpec
import N8n.Engine.Loop

/-!
# What one turn of the loop does

* `RunExecutionData.TriesOnly`: the frame of running a node;
* `runTries_cases`: the tries of a node change nothing else, requests apart;
* `Concluded`, `concludeRun_cases`: the end of a turn after which the loop goes on;
* `Turned`, `turn_cases`: the turns after which the loop goes on;
* `iterate_eq_endlessLoop`: when the loop stops as endless.
-/

namespace N8n

/-! ### The tries -/

/-- Only the last node executed and whether the execution waits differ. -/
def RunExecutionData.TriesOnly (run run' : RunExecutionData) : Prop :=
  run' = { run with lastNodeExecuted := run'.lastNodeExecuted, waitTill := run'.waitTill }

theorem RunExecutionData.TriesOnly.trans {run₁ run₂ run₃ : RunExecutionData}
    (h₁ : run₁.TriesOnly run₂) (h₂ : run₂.TriesOnly run₃) : run₁.TriesOnly run₃ := by
  rw [TriesOnly] at h₁ h₂ ⊢
  rw [h₂, h₁]

/-- Some call of `runNode` comes to the outcome. -/
def Behaviour.May (b : Behaviour) (outcome : RunNodeOutcome) : Prop :=
  ∃ i call, (b.runNode i call).outcome = outcome

/-- The node may end its branch: it may return `null`, and no item is put in its place. -/
def Behaviour.MayReturnNull (b : Behaviour) (node : INode) : Prop :=
  node.alwaysOutputData ≠ some true ∧ ∃ data, b.May (.data data) ∧ b.processOutput data = .ok none

variable {b : Behaviour} {executionData : IExecuteData} {runIndex tryIndex : ℕ} {s s' : TryState}
  {outcome : RunNodeOutcome} {node : INode} {k : TryEnd} {env : Environment} {st : LoopState}

theorem callNode_triesOnly {response : Option EngineResponse}
    (h : callNode b executionData runIndex response s = (s', outcome)) :
    s.run.TriesOnly s'.run ∧ s'.rewireOutputLogTo = s.rewireOutputLogTo ∧ b.May outcome := by
  cases h
  exact ⟨rfl, rfl, _, _, rfl⟩

variable {tries j : ℕ} {nodeSuccessData : Option ItemLists} {e : IExecuteData} {st' : LoopState}

theorem retryFailed_triesOnly {outcome' : RunNodeOutcome}
    (h : retryFailed b executionData runIndex tries tryIndex s outcome = (s', j, outcome'))
    (hmay : b.May outcome) :
    s.run.TriesOnly s'.run ∧ s'.rewireOutputLogTo = s.rewireOutputLogTo ∧ b.May outcome' := by
  induction tries generalizing tryIndex s outcome with
  | zero =>
    cases h
    exact ⟨rfl, rfl, hmay⟩
  | succ tries ih =>
    rw [retryFailed] at h
    split_ifs at h
    · cases hcall : callNode b executionData runIndex none s with
      | mk s₁ outcome₁ =>
        obtain ⟨hrun, hrewire, hmay₁⟩ := callNode_triesOnly hcall
        rw [hcall] at h
        cases outcome₁ with
        | throws e =>
          cases h
          exact ⟨hrun, hrewire, hmay₁⟩
        | data data | request request =>
          obtain ⟨hrun', hrewire', hmay'⟩ := ih h hmay₁
          exact ⟨hrun.trans hrun', hrewire'.trans hrewire, hmay'⟩
    · cases h
      exact ⟨rfl, rfl, hmay⟩

theorem assignPairedItems_eq_none
    (h : assignPairedItems nodeSuccessData executionData = .ok none) : nodeSuccessData = none := by
  unfold assignPairedItems at h
  split at h
  · rfl
  · cases h
  · simp only [Except.bind_eq_ok_iff] at h
    obtain ⟨main, -, same, -, h⟩ := h
    obtain ⟨lists, -, h⟩ := Except.map_eq_ok_iff.1 h
    cases h

theorem addOutputData_eq_none (h : addOutputData node executionData nodeSuccessData = .ok none) :
    nodeSuccessData = none ∧ node.alwaysOutputData ≠ some true := by
  rw [addOutputData] at h
  split_ifs at h with hempty
  · obtain ⟨main, -, h⟩ := Except.bind_eq_ok_iff.1 h
    cases h
  · cases h
    exact ⟨rfl, fun halways => hempty (by simp [hasFirstItem, halways])⟩

theorem finishTry_triesOnly (h : finishTry node executionData s = (s', k)) :
    s.run.TriesOnly s'.run ∧ s'.rewireOutputLogTo = s.rewireOutputLogTo ∧
      ∀ j, k = .leave j → j = .noData ∧ s.nodeSuccessData = none ∧ node.alwaysOutputData ≠ some true := by
  rw [finishTry] at h
  cases hpaired : assignPairedItems s.nodeSuccessData executionData with
  | error e =>
    rw [hpaired] at h
    cases h
    exact ⟨rfl, rfl, fun j hj => by cases hj⟩
  | ok data =>
    simp only [hpaired] at h
    cases houtput : addOutputData node executionData data with
    | error e =>
      rw [houtput] at h
      cases h
      exact ⟨rfl, rfl, fun j hj => by cases hj⟩
    | ok data' =>
      rw [houtput] at h
      cases h
      refine ⟨rfl, rfl, fun j hj => ?_⟩
      split_ifs at hj with hnull
      cases hj
      rw [Bool.and_eq_true, Option.isNone_iff_eq_none] at hnull
      obtain ⟨hdata, halways⟩ := addOutputData_eq_none (hnull.1 ▸ houtput)
      exact ⟨rfl, assignPairedItems_eq_none (hdata ▸ hpaired), halways⟩

/-- What a try does: the node is run, or its request is handled. -/
inductive Tried (env : Environment) (b : Behaviour) (node : INode) (runIndex : ℕ)
    (executionData : IExecuteData) (s s' : TryState) : TryEnd → Prop
  | ran {k : TryEnd} (hrun : s.run.TriesOnly s'.run)
    (hrewire : s'.rewireOutputLogTo = s.rewireOutputLogTo)
    (hk : ∀ j, k = .leave j → j = .noData ∧ b.MayReturnNull node) :
    Tried env b node runIndex executionData s s' k
  | requested {run : RunExecutionData} {request : EngineRequest} (hrun : s.run.TriesOnly run)
    (hrequest : b.May (.request request)) (h : handleEngineRequest env.workflow node request runIndex
      executionData run s.rewireOutputLogTo = (s'.run, s'.rewireOutputLogTo, none)) :
    Tried env b node runIndex executionData s s' (.leave .requested)
  | refused {run : RunExecutionData} {request : EngineRequest} {e : JsError}
    (hrun : s.run.TriesOnly run) (hrequest : b.May (.request request))
    (h : handleEngineRequest env.workflow node request runIndex executionData run
      s.rewireOutputLogTo = (s'.run, s'.rewireOutputLogTo, some e)) :
    Tried env b node runIndex executionData s s' (.threw e)

theorem handleOutcome_cases {s₀ : TryState}
    (h : handleOutcome env b node runIndex executionData s outcome = (s', k))
    (hrun : s₀.run.TriesOnly s.run) (hrewire : s.rewireOutputLogTo = s₀.rewireOutputLogTo)
    (hmay : b.May outcome) : Tried env b node runIndex executionData s₀ s' k := by
  cases outcome with
  | throws e =>
    cases h
    exact .ran hrun hrewire fun j hj => by cases hj
  | request request =>
    rw [handleOutcome] at h
    cases hhandle : handleEngineRequest env.workflow node request runIndex executionData s.run
        s.rewireOutputLogTo with
    | mk run p =>
      obtain ⟨rewire, error⟩ := p
      rw [hhandle] at h
      rw [hrewire] at hhandle
      cases error with
      | none =>
        cases h
        exact .requested hrun hmay hhandle
      | some e =>
        cases h
        exact .refused hrun hmay hhandle
  | data data =>
    rw [handleOutcome] at h
    cases houtput : b.processOutput data with
    | error e =>
      rw [houtput] at h
      cases h
      exact .ran hrun hrewire fun j hj => by cases hj
    | ok data' =>
      rw [houtput] at h
      obtain ⟨hrun', hrewire', hk⟩ := finishTry_triesOnly h
      refine .ran (hrun.trans hrun') (hrewire'.trans hrewire) fun j hj => ?_
      obtain ⟨hj, hnull, halways⟩ := hk j hj
      exact ⟨hj, halways, data, hmay, houtput.trans (congrArg _ hnull)⟩

theorem tryNode_cases (h : tryNode env b node runIndex tryIndex executionData s = (s', j, k)) :
    Tried env b node runIndex executionData s s' k := by
  rw [tryNode] at h
  cases hpinned : pinnedData node s.run with
  | some items =>
    simp only [hpinned, Prod.mk.injEq] at h
    obtain ⟨rfl, -, rfl⟩ := h
    obtain ⟨hrun, hrewire, hk⟩ := finishTry_triesOnly (Prod.mk.eta).symm
    refine .ran hrun hrewire fun j hj => ?_
    cases (hk j hj).2.1
  | none =>
    simp only [hpinned, Prod.mk.injEq] at h
    obtain ⟨rfl, -, rfl⟩ := h
    obtain ⟨hrun₁, hrewire₁, hmay₁⟩ := callNode_triesOnly (Prod.mk.eta).symm
    obtain ⟨hrun₂, hrewire₂, hmay₂⟩ := retryFailed_triesOnly (Prod.mk.eta).symm hmay₁
    exact handleOutcome_cases (Prod.mk.eta).symm (hrun₁.trans hrun₂) (hrewire₂.trans hrewire₁) hmay₂

theorem TryState.run_startTry (s : TryState) (tryIndex : ℕ) :
    (s.startTry tryIndex).run = s.run := by
  rw [startTry]
  split_ifs <;> rfl

/-- **What running the node keeps, and what its requests that throw keep, holds when the tries end; or a
request that was handled ends them.** -/
theorem runTries_cases {P : RunExecutionData → Prop}
    (htries : ∀ run run' : RunExecutionData, run.TriesOnly run' → P run → P run')
    (hrefused : ∀ request run rewire run' rewire' e, b.May (.request request) →
      handleEngineRequest env.workflow node request runIndex executionData run rewire =
        (run', rewire', some e) → P run → P run') {k : Option IterationEnd}
    (h : runTries env b node runIndex executionData tries tryIndex s = (s', k)) (hs : P s.run) :
    (P s'.run ∧ (k = none ∨ k = some .noData ∧ b.MayReturnNull node)) ∨
      k = some .requested ∧ ∃ request run rewire, b.May (.request request) ∧ P run ∧
        handleEngineRequest env.workflow node request runIndex executionData run rewire =
          (s'.run, s'.rewireOutputLogTo, none) := by
  induction tries generalizing tryIndex s with
  | zero =>
    cases h
    exact Or.inl ⟨hs, Or.inl rfl⟩
  | succ tries ih =>
    rw [runTries] at h
    split_ifs at h with hmax
    · cases h
      exact Or.inl ⟨hs, Or.inl rfl⟩
    · cases htry : tryNode env b node runIndex tryIndex executionData (s.startTry tryIndex) with
      | mk s₁ p =>
        obtain ⟨i, end₁⟩ := p
        rw [htry] at h
        rw [← s.run_startTry tryIndex] at hs
        have htried := tryNode_cases htry
        cases end₁ with
        | success =>
          cases h
          cases htried with
          | ran hrun hrewire hk => exact Or.inl ⟨htries _ _ hrun hs, Or.inl rfl⟩
        | leave j =>
          cases h
          cases htried with
          | ran hrun hrewire hk =>
            exact Or.inl ⟨htries _ _ hrun hs, Or.inr ((hk j rfl).imp_left (congrArg some))⟩
          | requested hrun hmay hrequest =>
            exact Or.inr ⟨rfl, _, _, _, hmay, htries _ _ hrun hs, hrequest⟩
        | threw e =>
          refine ih h (htries s₁.run _ rfl ?_)
          cases htried with
          | ran hrun hrewire hk => exact htries _ _ hrun hs
          | refused hrun hmay hrequest =>
            exact hrefused _ _ _ _ _ _ hmay hrequest (htries _ _ hrun hs)

/-! ### The end of a turn -/

/-- How a turn ends after the tries when the loop goes on: the record of the run is made, and unless
the destination is reached the children are added and, if need be, a waiting node. -/
inductive Concluded (env : Environment) (node : INode) (runIndex : ℕ) (s : TryState)
    (run : RunExecutionData) : IterationEnd → Prop
  | destinationReached {lists : ItemLists} {taskData : ITaskData}
    (hstatus : taskData.executionStatus.isSome = true)
    (h : run = recordSuccess node runIndex lists taskData s.rewireOutputLogTo s.run) :
    Concluded env node runIndex s run .destinationReached
  | completed {lists : ItemLists} {taskData : ITaskData} {run' : RunExecutionData}
    (hstatus : taskData.executionStatus.isSome = true)
    (hchildren : addChildren env.workflow node.name runIndex lists
      (recordSuccess node runIndex lists taskData s.rewireOutputLogTo s.run) = .ok run')
    (hdrain : drain env run' = .ok run) : Concluded env node runIndex s run .completed

theorem concludeRun_cases {executionIndex : ℕ} {run : RunExecutionData} {k : IterationEnd}
    (h : concludeRun env node runIndex executionIndex executionData s = .ok (run, k))
    (hk : k.continues = true) : Concluded env node runIndex s run k := by
  unfold concludeRun at h
  simp only at h
  split at h
  · cases h
    cases hk
  · rw [Except.bind_eq_ok_iff] at h
    obtain ⟨lists, -, h⟩ := h
    split_ifs at h
    · cases h
      cases hk
    · cases h
      refine .destinationReached ?_ rfl
      cases s.executionError <;> rfl
    · simp only [Except.bind_eq_ok_iff] at h
      obtain ⟨run', hchildren, run'', hdrain, h⟩ := h
      cases h
      refine .completed ?_ hchildren hdrain
      cases s.executionError <;> rfl

/-! ### One turn -/

/-- The execution with its first entry taken off the stack. -/
def LoopState.popped (st : LoopState) (rest : List IExecuteData) : RunExecutionData :=
  { st.run with nodeExecutionStack := rest }

/-- A turn that starts the entry `e` for `node`, the other entries being `rest`, after which the loop
goes on. -/
inductive Turned (env : Environment) (b : Behaviour) (st : LoopState) (e : IExecuteData)
    (node : INode) (rest : List IExecuteData) (st' : LoopState) : IterationEnd → Prop
  | skipped (hfilter : (st.run.runNodeFilter.map (!·.contains node.name)).getD false = true)
    (hrun : st'.run = st.popped rest) (htry : st'.lastExecutionTry = st.lastExecutionTry) :
    Turned env b st e node rest st' .skipped
  | deferred
    (hinput : ensureInputData env.workflow node e (env.workflow.numberOfInputs node.name) 0 = .ok false)
    (hrun : st'.run = st.popped (rest ++ [e])) : Turned env b st e node rest st' .deferred
  | left {s : TryState} {k : IterationEnd}
    (htries : runTries env b node (runIndexOf e node st.run.runData) e (maxTriesOf node) 0
      { run := st.popped rest, rewireOutputLogTo := st.rewireOutputLogTo } = (s, some k))
    (hrun : st'.run = s.run) (htry : st'.lastExecutionTry = st.lastExecutionTry) :
    Turned env b st e node rest st' k
  | concluded {s : TryState} {k : IterationEnd}
    (htries : runTries env b node (runIndexOf e node st.run.runData) e (maxTriesOf node) 0
      { run := st.popped rest, rewireOutputLogTo := st.rewireOutputLogTo } = (s, none))
    (hend : Concluded env node (runIndexOf e node st.run.runData) s st'.run k)
    (htry : st'.lastExecutionTry = st.lastExecutionTry) : Turned env b st e node rest st' k

theorem updatePairedItems_eq_ok {e' : IExecuteData} (h : updatePairedItems e = .ok e') :
    ∃ data, e' = { e with data := data } := by
  rw [updatePairedItems, Except.bind_eq_ok_iff] at h
  obtain ⟨data, -, h⟩ := h
  cases h
  exact ⟨data, rfl⟩

theorem executeEntry_cases {rest : List IExecuteData} {k : IterationEnd}
    (h : executeEntry env b e { st with run := st.popped rest } = .ok (st', k))
    (hk : k.continues = true) :
    ∃ e' node, updatePairedItems e = .ok e' ∧ e'.node = some node ∧
      Turned env b st e' node rest st' k := by
  rw [executeEntry, Except.bind_eq_ok_iff] at h
  obtain ⟨e', he', h⟩ := h
  rw [Except.bind_eq_ok_iff] at h
  obtain ⟨node, hnode, h⟩ := h
  refine ⟨e', node, he', orTypeError_eq_ok hnode, ?_⟩
  simp only at h
  split_ifs at h with htry hfilter
  · cases h
    exact .skipped hfilter rfl rfl
  · rw [Except.bind_eq_ok_iff] at h
    obtain ⟨hasInputData, hinput, h⟩ := h
    cases hasInputData with
    | false =>
      cases h
      exact .deferred hinput rfl
    | true =>
      simp only [Bool.not_true, Bool.false_eq_true, if_false] at h
      generalize htries : runTries env b node _ e' (maxTriesOf node) 0 _ = tries at h
      obtain ⟨s, j⟩ := tries
      cases j with
      | some j =>
        cases h
        exact .left htries rfl rfl
      | none =>
        simp only [Except.bind_eq_ok_iff] at h
        obtain ⟨⟨run, j⟩, hend, h⟩ := h
        cases h
        exact .concluded htries (concludeRun_cases hend hk) rfl

/-- **A turn after which the loop goes on starts the first entry of the stack.** -/
theorem turn_cases {k : IterationEnd} (h : Turn env st (b, k) st') :
    ∃ e rest e' node, st.run.nodeExecutionStack = e :: rest ∧ updatePairedItems e = .ok e' ∧
      e'.node = some node ∧ Turned env b st e' node rest st' k := by
  obtain ⟨h, hk⟩ := h
  simp only at h hk
  rw [iterate] at h
  cases hstack : st.run.nodeExecutionStack with
  | nil =>
    rw [hstack] at h
    cases h
    cases hk
  | cons e rest =>
    simp only [hstack] at h
    split_ifs at h
    · cases h
      cases hk
    · obtain ⟨e', node, he', hnode, hturned⟩ := executeEntry_cases h hk
      exact ⟨e, rest, e', node, rfl, he', hnode, hturned⟩

/-! ### The errors of a turn -/

section Errors

variable {P : JsError → Prop} (hP : P .typeError)

include hP

theorem failsOnly_updatePairedItems (e : IExecuteData) : (updatePairedItems e).FailsOnly P := by
  have hinputs : ∀ (lists : ItemLists) (i : ℕ), (updateInputs e i lists).FailsOnly P := by
    intro lists
    induction lists with
    | nil => exact fun i => Except.failsOnly_ok _
    | cons c lists ih =>
      intro i
      match c with
      | none | some .null | some (.items l) => exact (ih (i + 1)).map _
      | some .undefined => exact Except.failsOnly_error hP
  rw [updatePairedItems]
  refine Except.FailsOnly.bind ?_ fun _ _ => Except.failsOnly_ok _
  refine Except.FailsOnly.foldlM (fun data p => ?_) _ _
  exact (hinputs p.2 0).bind fun _ _ => Except.failsOnly_ok _

theorem failsOnly_getHighestNodeFuel (w : Workflow) (n : ℕ) (nodeName : String) (i : Option ℕ)
    (checkedNodes : List String) :
    (w.getHighestNodeFuel n nodeName i checkedNodes).FailsOnly P := by
  induction n generalizing nodeName i checkedNodes with
  | zero => exact Except.failsOnly_ok _
  | succ n ih =>
    rw [Workflow.getHighestNodeFuel]
    refine (failsOnly_orTypeError hP _).bind fun disabled _ => ?_
    by_cases howner : w.connectionsByDestinationNode.has "hasOwnProperty"
    · rw [if_pos howner]
      exact Except.failsOnly_error hP
    rw [if_neg howner]
    simp only
    split
    · exact Except.failsOnly_ok _
    · by_cases hchecked : nodeName ∈ checkedNodes
      · rw [if_pos hchecked]
        exact Except.failsOnly_ok _
      · rw [if_neg hchecked]
        refine Except.FailsOnly.foldlM (fun acc connection => ?_) _ _
        split_ifs
        · exact Except.failsOnly_ok _
        · split
          · exact Except.failsOnly_ok _
          · exact (ih _ _ _).bind fun _ _ => Except.failsOnly_ok _

theorem failsOnly_ensureInputData (w : Workflow) (node : INode) (e : IExecuteData) (n i : ℕ) :
    (ensureInputData w node e n i).FailsOnly P := by
  induction n generalizing i with
  | zero => exact Except.failsOnly_ok _
  | succ n ih =>
    rw [ensureInputData]
    refine ((failsOnly_getHighestNodeFuel hP w _ _ _ _).map _).bind fun highestNodes _ => ?_
    split_ifs
    · exact Except.failsOnly_ok _
    · split
      · exact Except.failsOnly_ok _
      · split_ifs
        · exact Except.failsOnly_ok _
        · exact ih (i + 1)

theorem failsOnly_message (error : JsValue) : error.message.FailsOnly P := by
  cases error with
  | null | undefined => exact Except.failsOnly_error hP
  | bool | num | str | arr | obj => exact Except.failsOnly_ok _

theorem failsOnly_mergeErrors (nodeSuccessData : Option ItemLists) :
    (mergeErrors nodeSuccessData).FailsOnly P := by
  have herror : ∀ item, (mergeError item).FailsOnly P := by
    intro item
    rw [mergeError]
    split_ifs
    · exact (failsOnly_message hP _).bind fun _ _ => Except.failsOnly_ok _
    · split
      · exact Except.failsOnly_ok _
      · exact Except.failsOnly_ok _
      · exact (failsOnly_message hP _).bind fun _ _ => Except.failsOnly_ok _
  rw [mergeErrors]
  refine (failsOnly_orTypeError hP _).bind fun lists _ => Except.FailsOnly.mapM (fun execution => ?_) _
  refine (failsOnly_orTypeError hP _).bind fun l _ => ?_
  exact (Except.FailsOnly.mapM herror l).bind fun _ _ => Except.failsOnly_ok _

end Errors

theorem failsOnly_addChildren (w : Workflow) (nodeName : String) (runIndex : ℕ) (lists : ItemLists)
    (st : RunExecutionData) :
    (addChildren w nodeName runIndex lists st).FailsOnly (· ≠ endlessLoop) := by
  rw [addChildren]
  split_ifs
  · exact Except.failsOnly_error (by decide)
  · refine Except.FailsOnly.foldlM (fun run c => ?_) _ _
    exact failsOnly_addNodeToBeExecuted (by decide) w c.2.node _ run

theorem failsOnly_concludeRun (env : Environment) (node : INode) (runIndex executionIndex : ℕ)
    (executionData : IExecuteData) (s : TryState) :
    (concludeRun env node runIndex executionIndex executionData s).FailsOnly (· ≠ endlessLoop) := by
  unfold concludeRun
  simp only
  split
  · exact Except.failsOnly_ok _
  · refine (failsOnly_mergeErrors (by decide) _).bind fun lists _ => ?_
    split_ifs
    · exact Except.failsOnly_ok _
    · exact Except.failsOnly_ok _
    · refine (failsOnly_addChildren env.workflow _ _ _ _).bind fun run _ => ?_
      refine ((drain_failsOnly env run).imp fun e he => ?_).bind fun _ _ => Except.failsOnly_ok _
      rcases he with rfl | ⟨message, rfl⟩
      · decide
      · simp [endlessLoop]

/-- The loop stops as endless only at an entry that it tried in the turn before. -/
theorem iterate_eq_endlessLoop (h : iterate env b st = .error endlessLoop) :
    ∃ (node : INode) (runIndex : ℕ), currentExecutionTry node runIndex = st.lastExecutionTry := by
  rw [iterate] at h
  cases hstack : st.run.nodeExecutionStack with
  | nil =>
    rw [hstack] at h
    cases h
  | cons e rest =>
    simp only [hstack] at h
    split_ifs at h
    rw [executeEntry, Except.bind_eq_error_iff] at h
    rcases h with h | ⟨e', he', h⟩
    · exact absurd rfl (failsOnly_updatePairedItems (P := (· ≠ endlessLoop)) (by decide) e _ h)
    rw [Except.bind_eq_error_iff] at h
    rcases h with h | ⟨node, hnode, h⟩
    · exact absurd rfl (failsOnly_orTypeError (P := (· ≠ endlessLoop)) (by decide) _ _ h)
    simp only at h
    split_ifs at h with htry
    · exact ⟨node, _, htry⟩
    · cases h
    · refine absurd rfl (Except.FailsOnly.bind (P := (· ≠ endlessLoop))
        (failsOnly_ensureInputData (by decide) _ _ _ _ _) (fun hasInputData _ => ?_) _ h)
      split_ifs
      · exact Except.failsOnly_ok _
      · split
        · exact Except.failsOnly_ok _
        · exact (failsOnly_concludeRun env _ _ _ _ _).bind fun _ _ => Except.failsOnly_ok _

end N8n
