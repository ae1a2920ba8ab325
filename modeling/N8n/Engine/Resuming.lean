import N8n.Engine.RequestsSpec
import N8n.Engine.Termination
import N8n.Lib.Supported

/-!
# Requesting nodes are resumed after the nodes they requested

* `ToolsFirst`: every action of a resumed entry of the stack was executed, or an entry above it awaits
  its execution, in a run that is reserved for it;
* `TurnMeets`: the conditions under which a turn keeps this;
* `turn_toolsFirst`: it does;
* `resumed_after_tools`: then every resumed entry that is taken off the stack finds its actions executed;
* `legacy_resumes_first`: in the legacy order it does not.
-/

namespace N8n

/-! ### Recording a run -/

/-- The record of run `runIndex` of a node is there after a turn of the node, with a status; no other one
is lost. -/
theorem recordTaskData_grows (nodeName : String) (runIndex : ℕ) {taskData : ITaskData}
    (runData : IRunData) (hstatus : taskData.executionStatus.isSome = true) :
    RunDataGrows runData (recordTaskData nodeName runIndex taskData runData) ∧
      ((recordAt runData nodeName runIndex).isSome = true → ∃ taskData',
        recordAt (recordTaskData nodeName runIndex taskData runData) nodeName runIndex =
          some taskData' ∧ taskData'.executionStatus.isSome = true) := by
  rw [recordTaskData, recordAt_eq_getElem?]
  cases hcurrent : ((runData.get? nodeName).getD [])[runIndex]? with
  | none => exact ⟨runDataGrows_append runData nodeName taskData, fun h => by cases h⟩
  | some current =>
    have hlt := (List.getElem?_eq_some_iff.1 hcurrent).1
    refine ⟨fun nodeName' i old hold => ?_, fun _ => ?_⟩
    · rw [recordAt_set]
      split_ifs with hname
      · rw [hname, recordAt_eq_getElem?] at hold
        rw [List.getElem?_set]
        split_ifs with hi
        · exact ⟨_, rfl, fun _ => hstatus⟩
        · exact ⟨old, hold, id⟩
      · exact ⟨old, hold, id⟩
    · rw [recordAt_set, if_pos rfl, List.getElem?_set, if_pos rfl, if_pos hlt]
      exact ⟨_, rfl, hstatus⟩

theorem executionStatus_rewireOutput (rewire : RewireOutputLogTo) (nodeName : String) (runIndex : ℕ)
    (runData : IRunData) (lists : ItemLists) (taskData : ITaskData) :
    (rewireOutput rewire nodeName runIndex runData lists taskData).executionStatus =
      taskData.executionStatus := by
  rw [rewireOutput]
  split <;> rfl

/-- A successful turn executes the run that an action asked for. -/
theorem recordSuccess_grown (node : INode) (runIndex : ℕ) {taskData : ITaskData} (lists : ItemLists)
    (rewire : RewireOutputLogTo) (run : RunExecutionData)
    (hstatus : taskData.executionStatus.isSome = true) :
    Grown run (recordSuccess node runIndex lists taskData rewire run) ∧
      ∀ a, a.nodeName = node.name → a.runIndex = runIndex → Reserved run.runData a →
        Executed (recordSuccess node runIndex lists taskData rewire run).runData a := by
  have hstatus' := executionStatus_rewireOutput rewire node.name runIndex run.runData lists
    { taskData with data := some (mainOnly lists) }
  obtain ⟨hgrows, hexecuted⟩ :=
    recordTaskData_grows node.name runIndex run.runData (hstatus' ▸ hstatus)
  refine ⟨.of_stack_eq rfl hgrows, ?_⟩
  rintro a hname rfl hreserved
  rw [Reserved, hname] at hreserved
  rw [Executed, hname]
  exact hexecuted hreserved

/-! ### The frame of a turn -/

variable {run run' st st' : RunExecutionData} {env : Environment} {e : IExecuteData}

theorem RunExecutionData.TriesOnly.grown (h : run.TriesOnly run') : Grown run run' := by
  rw [TriesOnly] at h
  rw [h]
  exact .of_stack_eq rfl (.refl _)

theorem addChildren_grown {w : Workflow} {nodeName : String} {runIndex : ℕ} {lists : ItemLists}
    (h : addChildren w nodeName runIndex lists st = .ok st') : Grown st st' := by
  rw [addChildren] at h
  split_ifs at h
  exact Except.foldlM_rel Grown.refl (fun _ _ _ => .trans)
    (fun _ _ _ _ h => addNodeToBeExecuted_grown h rfl) h

theorem runData_removeWaiting (nodeName : String) (k : ℕ) (st : RunExecutionData) :
    (removeWaiting nodeName k st).runData = st.runData :=
  (removeWaiting_frame nodeName k st).1.runData_eq

theorem drain_grown (h : drain env st = .ok st') : Grown st st' := by
  refine (drain_cases (P := Grown st) (fun run run' htook hrun => hrun.trans ?_) (.refl st) h).1
  rcases htook with htook | htook
  · cases htook with
    | @push nodeName k data e hrun' hnode hmain hindex hmeta =>
      refine ⟨⟨[], [e], by simp, ?_, ?_⟩, ?_⟩
      · simpa using resumedActions_of_metadata hmeta
      · rw [(removeWaiting_frame _ _ _).2]
        simp
      · rw [runData_removeWaiting]
        exact .refl _
  · cases htook with
    | @remove nodeName k data hrun' =>
      refine .of_stack_eq (removeWaiting_frame _ _ _).2 ?_
      rw [runData_removeWaiting]
      exact .refl _

/-! ### The invariant -/

/-- After the entries `before`, every action of a resumed entry of the stack was executed, or an entry
above it is for the run that the action asks for; that run is reserved. -/
structure ToolsFirst (before : List IExecuteData) (run : RunExecutionData) : Prop where
  supported : Supported IExecuteData.resumedActions Awaits (Executed run.runData) before
    run.nodeExecutionStack
  reserved : ∀ r ∈ run.nodeExecutionStack, ∀ a ∈ r.resumedActions, Reserved run.runData a

/-- Some entry of the stack is to use the run that `e` is for. -/
def Awaited (stack : List IExecuteData) (e : IExecuteData) : Prop :=
  ∃ r ∈ stack, ∃ a ∈ r.resumedActions, Awaits e a

theorem Grown.mem_of_resumed (h : Grown st st') {r : IExecuteData}
    (hr : r ∈ st'.nodeExecutionStack) {a : SubNodeExecutionDataAction} (ha : a ∈ r.resumedActions) :
    r ∈ st.nodeExecutionStack := by
  obtain ⟨⟨front, back, hfront, hback, hstack⟩, -⟩ := h
  rw [hstack, List.mem_append, List.mem_append] at hr
  rcases hr with (hr | hr) | hr
  · rw [hfront r hr] at ha
    cases ha
  · exact hr
  · rw [hback r hr] at ha
    cases ha

theorem ToolsFirst.grown {before : List IExecuteData} (h : ToolsFirst before run)
    (hgrown : Grown run run') : ToolsFirst before run' := by
  refine ⟨?_, fun r hr a ha =>
    hgrown.runData.reserved (h.reserved r (hgrown.mem_of_resumed hr ha) a ha)⟩
  obtain ⟨⟨front, back, hfront, hback, hstack⟩, hdata⟩ := hgrown
  rw [hstack]
  refine Supported.insert (h.supported.mono (fun a => hdata.executed) ?_) hfront hback
  exact fun _ _ _ _ t ht hta => Or.inr ⟨t, ht, hta⟩

/-- An entry that was taken off the stack is not needed any more when its run was executed. -/
theorem ToolsFirst.drop {e : IExecuteData} {run : RunExecutionData} (h : ToolsFirst [e] run)
    (hdone : ∀ r ∈ run.nodeExecutionStack, ∀ a ∈ r.resumedActions, Awaits e a →
      Executed run.runData a) : ToolsFirst [] run := by
  refine ⟨h.supported.mono (fun _ h => h) fun r hr a ha t ht hta => ?_, h.reserved⟩
  rw [List.mem_singleton.1 ht] at hta
  exact Or.inl (hdone r hr a ha hta)

theorem ToolsFirst.drop_of_not_awaited (h : ToolsFirst [e] run)
    (he : ¬Awaited run.nodeExecutionStack e) : ToolsFirst [] run :=
  h.drop fun r hr a ha hea => absurd ⟨r, hr, a, ha, hea⟩ he

theorem Grown.not_awaited (h : Grown st st') (he : ¬Awaited st.nodeExecutionStack e) :
    ¬Awaited st'.nodeExecutionStack e := by
  rintro ⟨r, hr, a, ha, hea⟩
  exact he ⟨r, h.mem_of_resumed hr ha, a, ha, hea⟩

/-- A requesting node whose run is awaited is awaited again when it was scheduled together with the nodes
it requested, and they come first in the order `v1`. -/
theorem Scheduled.toolsFirst {w : Workflow} {node : INode} {runIndex : ℕ}
    {request : EngineRequest} (h : Scheduled w node runIndex request run run')
    (hrun : ToolsFirst [e] run) (hnode : e.node = some node)
    (hindex : ∀ i, e.runIndex = some i → runIndex = i) (horder : w.isLegacyExecutionOrder = false ∨
      request.actions = [] ∧ ¬Awaited run.nodeExecutionStack e) : ToolsFirst [] run' := by
  obtain ⟨hnode', hindex', hstack, hrequested, hactions, hnone, hdata⟩ := h
  rename_i e' requested
  have hreserved : ∀ r ∈ run'.nodeExecutionStack, ∀ a ∈ r.resumedActions, Reserved run'.runData a := by
    intro r hr a ha
    rw [hstack, stackWith] at hr
    have hr : r = e' ∨ r ∈ requested ∨ r ∈ run.nodeExecutionStack := by
      split_ifs at hr
      · simpa [or_comm, or_assoc, or_left_comm] using hr
      · simpa [or_comm, or_assoc, or_left_comm] using hr
    rcases hr with rfl | hr | hr
    · exact (hactions a ha).1
    · rw [hrequested r hr] at ha
      cases ha
    · exact hdata.reserved (hrun.reserved r hr a ha)
  refine ⟨?_, hreserved⟩
  rw [hstack, stackWith]
  rcases horder with hv1 | ⟨hempty, hawaited⟩
  · rw [hv1, if_neg Bool.false_ne_true, List.reverse_cons]
    refine supported_append.2 ⟨supported_append.2 ⟨?_, fun a ha => ?_, trivial⟩, ?_⟩
    · exact supported_of_no_needs fun t ht => hrequested t (List.mem_reverse.1 ht)
    · obtain ⟨-, t, ht, hta⟩ := hactions a ha
      exact Or.inr ⟨t, by simpa using ht, hta⟩
    · refine hrun.supported.mono (fun a => hdata.executed) fun r hr a ha t ht hta => ?_
      rw [List.mem_singleton.1 ht] at hta
      refine Or.inr ⟨e', by simp, ?_, ?_⟩
      · rw [hnode', ← hta.1, hnode]
        rfl
      · rw [hindex', hindex _ hta.2]
  · have hactions' : e'.resumedActions = [] := by
      refine List.eq_nil_iff_forall_not_mem.2 fun a ha => ?_
      obtain ⟨-, t, ht, -⟩ := hactions a ha
      rw [hnone hempty] at ht
      cases ht
    have hadded : ∀ t ∈ e' :: requested, t.resumedActions = [] := by
      intro t ht
      rcases List.mem_cons.1 ht with rfl | ht
      · exact hactions'
      · exact hrequested t ht
    have hdropped : Supported IExecuteData.resumedActions Awaits (Executed run'.runData) []
        run.nodeExecutionStack :=
      (hrun.drop_of_not_awaited hawaited).supported.mono (fun a => hdata.executed)
        fun _ _ _ _ t ht => absurd ht List.not_mem_nil
    split_ifs
    · have hend := hdropped.insert (fun t ht => absurd ht List.not_mem_nil) hadded
      simpa using hend
    · have hfront := hdropped.insert (fun t ht => hadded t (List.mem_reverse.1 ht))
        fun t ht => absurd ht List.not_mem_nil
      simpa using hfront

/-! ### One turn -/

/-- Under which conditions a turn executes what is awaited of its entry: requested nodes have at most one
main input and, unless there are none and nobody awaits the entry, the order is `v1`; an awaited entry
passes the filter and the check of its input data, does not end its branch with `null`, and can be put on
the stack again if it makes a request. -/
structure MeetsAwaited (env : Environment) (b : Behaviour) (st : LoopState) (e : IExecuteData)
    (rest : List IExecuteData) (node : INode) : Prop where
  requests : ∀ request, b.May (.request request) → (requestParentNode e).isSome = true →
    (env.workflow.isLegacyExecutionOrder = false ∨ request.actions = [] ∧ ¬Awaited rest e) ∧
      ∀ action ∈ request.actions, env.workflow.numberOfInputs action.nodeName ≤ 1
  filter : Awaited rest e → (st.run.runNodeFilter.map (!·.contains node.name)).getD false = false
  input : Awaited rest e → ∀ e', updatePairedItems e = .ok e' →
    ensureInputData env.workflow node e' (env.workflow.numberOfInputs node.name) 0 ≠ .ok false
  data : Awaited rest e → ¬b.MayReturnNull node
  resumable : Awaited rest e → ∀ request, b.May (.request request) → Resumable env.workflow node e

/-- The conditions on the entry that a turn starts. -/
def TurnMeets (env : Environment) (st : LoopState) (b : Behaviour) : Prop :=
  ∀ e rest node, st.run.nodeExecutionStack = e :: rest → e.node = some node →
    MeetsAwaited env b st e rest node

/-- A turn that meets the conditions keeps the invariant. -/
theorem turn_toolsFirst {b : Behaviour} {k : IterationEnd} {st st' : LoopState}
    (h : Turn env st (b, k) st') (hmeets : TurnMeets env st b) (hst : ToolsFirst [] st.run) :
    ToolsFirst [] st'.run := by
  obtain ⟨e, rest, e', node, hstack, hpaired, hnode, hturned⟩ := turn_cases h
  obtain ⟨data, rfl⟩ := updatePairedItems_eq_ok hpaired
  have hmeet := hmeets e rest node hstack hnode
  obtain ⟨hsupported, hreserved⟩ := hst
  rw [hstack] at hsupported hreserved
  obtain ⟨hhead, hrest⟩ := hsupported
  have hbelow : ToolsFirst [e] (st.popped rest) :=
    ⟨hrest, fun r hr => hreserved r (List.mem_cons_of_mem _ hr)⟩
  have hindex : ∀ i, e.runIndex = some i → runIndexOf { e with data := data } node st.run.runData = i := by
    intro i hi
    rw [runIndexOf]
    simp [hi]
  have htried : ∀ s j, runTries env b node (runIndexOf { e with data := data } node st.run.runData)
      { e with data := data } (maxTriesOf node) 0
      { run := st.popped rest, rewireOutputLogTo := st.rewireOutputLogTo } = (s, j) →
      (Grown (st.popped rest) s.run ∧ (j = none ∨ ¬Awaited rest e)) ∨
        j = some .requested ∧ ToolsFirst [] s.run := by
    intro s j htries
    have hinputs : ∀ request, b.May (.request request) → (requestParentNode e).isSome = true →
        ∀ action ∈ request.actions, env.workflow.numberOfInputs action.nodeName ≤ 1 :=
      fun request hmay hparent => (hmeet.requests request hmay hparent).2
    have hrefused : ∀ request run rewire run' rewire' error, b.May (.request request) →
        handleEngineRequest env.workflow node request (runIndexOf { e with data := data } node
          st.run.runData) { e with data := data } run rewire = (run', rewire', some error) →
        Grown (st.popped rest) run → Grown (st.popped rest) run' := by
      intro request run rewire run' rewire' error hmay hrequest hrun
      rcases handleEngineRequest_cases hrequest (hinputs request hmay) with ⟨hgrown, -⟩ | ⟨hnone, -⟩
      · exact hrun.trans hgrown
      · cases hnone
    rcases runTries_cases (fun _ _ h hP => Grown.trans hP h.grown) hrefused htries (.refl _) with
      ⟨hs, hj⟩ | ⟨hj, request, run, rewire, hmay, hrun, hrequest⟩
    · refine Or.inl ⟨hs, hj.imp_right ?_⟩
      rintro ⟨-, hnull⟩ hawaited
      exact hmeet.data hawaited hnull
    · rcases handleEngineRequest_cases hrequest (hinputs request hmay) with
        ⟨hgrown, hlost⟩ | ⟨-, hparent, hscheduled⟩
      · refine Or.inl ⟨hrun.trans hgrown, Or.inr fun hawaited => hlost rfl ?_⟩
        obtain ⟨hp, hi, hn⟩ := hmeet.resumable hawaited request hmay
        exact ⟨hp, hi, hn⟩
      · refine Or.inr ⟨hj, hscheduled.toolsFirst (hbelow.grown hrun) hnode hindex ?_⟩
        exact (hmeet.requests request hmay hparent).1.imp_right
          fun h => ⟨h.1, hrun.not_awaited h.2⟩
  cases hturned with
  | skipped hfilter hrun =>
    rw [hrun]
    refine hbelow.drop_of_not_awaited fun hawaited => ?_
    rw [hmeet.filter hawaited] at hfilter
    cases hfilter
  | deferred hinput hrun =>
    have hdropped := hbelow.drop_of_not_awaited fun hawaited =>
      hmeet.input hawaited _ hpaired hinput
    rw [hrun]
    refine ⟨supported_append.2 ⟨hdropped.supported, fun a ha => Or.inl ?_, trivial⟩, ?_⟩
    · exact (hhead a ha).resolve_right (by simp)
    · intro r hr
      rcases List.mem_append.1 hr with hr | hr
      · exact hdropped.reserved r hr
      · rw [List.mem_singleton.1 hr]
        exact hreserved e List.mem_cons_self
  | left htries hrun =>
    rw [hrun]
    rcases htried _ _ htries with ⟨hgrown, hj⟩ | ⟨-, hs⟩
    · have hawaited := hj.resolve_left (by simp)
      exact (hbelow.drop_of_not_awaited hawaited).grown hgrown
    · exact hs
  | @concluded s k htries hend =>
    obtain ⟨hgrown, -⟩ := (htried _ _ htries).resolve_right (by simp)
    have hrecorded : ∀ lists taskData, taskData.executionStatus.isSome = true →
        ToolsFirst [] (recordSuccess node (runIndexOf { e with data := data } node st.run.runData) lists
          taskData s.rewireOutputLogTo s.run) := by
      intro lists taskData hstatus
      obtain ⟨hrecord, hexecuted⟩ := recordSuccess_grown node
        (runIndexOf { e with data := data } node st.run.runData) lists s.rewireOutputLogTo s.run hstatus
      have hs := hbelow.grown hgrown
      refine (hs.grown hrecord).drop fun r hr a ha hea => ?_
      refine hexecuted a ?_ (hindex _ hea.2).symm (hs.reserved r (hrecord.mem_of_resumed hr ha) a ha)
      have hname := hea.1
      rw [show e.node = some node from hnode] at hname
      exact (Option.some.inj hname).symm
    cases hend with
    | destinationReached hstatus hrun =>
      rw [hrun]
      exact hrecorded _ _ hstatus
    | completed hstatus hchildren hdrain =>
      exact ((hrecorded _ _ hstatus).grown (addChildren_grown hchildren)).grown (drain_grown hdrain)

/-! ### Whole runs -/

/-- **In a run whose turns all meet the conditions, a resumed entry comes to the top of the stack only
after all its actions were executed.** -/
theorem resumed_after_tools {env : Environment} {start st : LoopState}
    {turns : List (Behaviour × IterationEnd)} (hstart : ToolsFirst [] start.run)
    (hrun : LoopRun env start turns st)
    (hmeets : ∀ pre a st₁ st₂, pre ++ [a] <+: turns → LoopRun env start pre st₁ →
      Turn env st₁ a st₂ → TurnMeets env st₁ a.1) {e : IExecuteData} {rest : List IExecuteData}
    (hstack : st.run.nodeExecutionStack = e :: rest) (a : SubNodeExecutionDataAction)
    (ha : a ∈ e.resumedActions) : Executed st.run.runData a := by
  have hst : ToolsFirst [] st.run := by
    refine Lts.Run.invariant (P := fun _ st => ToolsFirst [] st.run) hrun hstart ?_
    intro pre a st₁ st₂ hpre hrun₁ hturn hst₁
    exact turn_toolsFirst hturn (hmeets pre a st₁ st₂ hpre hrun₁ hturn) hst₁
  have hsupported := hst.supported
  rw [hstack] at hsupported
  exact (hsupported.1 a ha).resolve_right (by simp)

/-- `T` feeds `Agent`, which has the tool `Tool`. -/
def toolWorkflow (executionOrder : Option ExecutionOrder) : Workflow :=
  ((Workflow.blank executionOrder).setNodes
    [{ name := "T" }, { name := "Agent" }, { name := "Tool" }]).setConnections
      ((Dict.empty.set "T" (mainOnly [some [⟨"Agent", .main, 0⟩]])).set "Tool"
        (Dict.empty.set .aiTool [some [⟨"Agent", .aiTool, 0⟩]]))

/-- The start of an execution of `Agent` with the data of `T`. -/
def agentStart : LoopState where
  run := { nodeExecutionStack := [{ startEntry "Agent" with source := some (mainOnly [some (some ⟨"T", some 0, some 0⟩)]) }] }

/-- A request for one run of `Tool`. -/
def toolRequest : EngineRequest where
  actions := [{ nodeName := "Tool" }]

/-- Every node returns the request. -/
def requestsTool : Behaviour where
  runNode := fun _ _ => { outcome := .request toolRequest }

theorem not_awaited_nil (e : IExecuteData) : ¬Awaited [] e := by
  rintro ⟨r, hr, -⟩
  cases hr

theorem requestsTool_meets : TurnMeets (plainEnvironment (toolWorkflow (some .v1))) agentStart
    requestsTool := by
  intro e rest node hstack hnode
  cases hstack
  refine ⟨?_, fun h => absurd h (not_awaited_nil _), fun h => absurd h (not_awaited_nil _),
    fun h => absurd h (not_awaited_nil _), fun h => absurd h (not_awaited_nil _)⟩
  rintro request ⟨i, call, hmay⟩ -
  cases hmay
  exact ⟨Or.inl rfl, by decide⟩

theorem returnsItem_meets (hv1 : env.workflow.executionOrder = some .v1) {st : LoopState}
    (hfilter : st.run.runNodeFilter = none)
    (hmain : ∀ e ∈ st.run.nodeExecutionStack, (e.data.get? .main).isSome = true) :
    TurnMeets env st returnsItem := by
  intro e rest node hstack hnode
  have hmay : ∀ outcome, returnsItem.May outcome →
      outcome = .data (some [some (.items [emptyItem])]) := by
    rintro outcome ⟨i, call, h⟩
    exact h.symm
  refine ⟨fun request h => ?_, fun _ => ?_, fun _ e' he' => ?_, ?_, fun _ request h => ?_⟩
  · cases hmay _ h
  · rw [hfilter]
    rfl
  · refine ensureInputData_of_main hv1 node ?_ _ _
    rw [get?_updatePairedItems_isSome he']
    exact hmain e (hstack ▸ List.mem_cons_self)
  · rintro - ⟨-, data, hdata, hnull⟩
    cases hmay _ hdata
    cases hnull
  · cases hmay _ h

theorem resumed_after_tools_agent :
    ∃ st e rest, LoopRun (plainEnvironment (toolWorkflow (some .v1))) agentStart
        [(requestsTool, .requested), (returnsItem, .completed)] st ∧
      st.run.nodeExecutionStack = e :: rest ∧ e.resumedActions ≠ [] ∧
      ∀ a ∈ e.resumedActions, Executed st.run.runData a := by
  obtain ⟨st₁, st, e, rest, hturn₁, hfilter, hmain, hturn₂, hstack, hne⟩ : ∃ st₁ st e rest,
      Turn (plainEnvironment (toolWorkflow (some .v1))) agentStart (requestsTool, .requested) st₁ ∧
      st₁.run.runNodeFilter = none ∧
      (∀ e ∈ st₁.run.nodeExecutionStack, (e.data.get? .main).isSome = true) ∧
      Turn (plainEnvironment (toolWorkflow (some .v1))) st₁ (returnsItem, .completed) st ∧
      st.run.nodeExecutionStack = e :: rest ∧ e.resumedActions ≠ [] := by
    refine ⟨_, _, _, _, ⟨rfl, rfl⟩, rfl, by decide, ⟨rfl, rfl⟩, rfl, ?_⟩
    exact List.cons_ne_nil _ _
  have hrun : LoopRun (plainEnvironment (toolWorkflow (some .v1))) agentStart
      [(requestsTool, .requested), (returnsItem, .completed)] st :=
    ((Lts.Run.nil agentStart).snoc hturn₁).snoc hturn₂
  refine ⟨st, e, rest, hrun, hstack, hne, resumed_after_tools ?_ hrun ?_ hstack⟩
  · refine ⟨supported_of_no_needs fun r hr => ?_, fun r hr a ha => ?_⟩
    · rw [List.mem_singleton.1 hr]
      rfl
    · rw [List.mem_singleton.1 hr] at ha
      cases ha
  · intro pre a s s' hpre hrun₁ hturn
    cases pre with
    | nil =>
      obtain ⟨rfl, -⟩ := List.cons_prefix_cons.1 hpre
      rw [hrun₁.eq_of_nil]
      exact requestsTool_meets
    | cons p pre =>
      obtain ⟨rfl, hrest⟩ := List.cons_prefix_cons.1 hpre
      cases pre with
      | nil =>
        obtain ⟨rfl, -⟩ := List.cons_prefix_cons.1 hrest
        obtain ⟨s₀, hrun₀, hturn₀⟩ := Lts.Run.last (l := []) hrun₁
        rw [hrun₀.eq_of_nil] at hturn₀
        cases hturn₁.1.symm.trans hturn₀.1
        exact returnsItem_meets rfl hfilter hmain
      | cons p' pre =>
        have hlength := hrest.length_le
        simp at hlength

/-- In the legacy order `Agent` is on the stack above `Tool` when it is to use its result. -/
theorem legacy_resumes_first :
    ∃ st e rest, LoopRun (plainEnvironment (toolWorkflow none)) agentStart [(requestsTool, .requested)] st ∧
      st.run.nodeExecutionStack = e :: rest ∧ (e.metadata.map (·.nodeWasResumed)) = some true ∧
      ∃ a ∈ e.resumedActions, ¬Executed st.run.runData a := by
  refine ⟨_, _, _, (Lts.Run.nil _).snoc ⟨rfl, rfl⟩, rfl, rfl, _, List.mem_cons_self, ?_⟩
  rintro ⟨taskData, htask, hstatus⟩
  cases htask
  cases hstatus

end N8n
