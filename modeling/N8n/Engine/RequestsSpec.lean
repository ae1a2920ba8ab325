import N8n.Engine.AddNodeSpec
import N8n.Engine.Requests

/-!
# What a request schedules

* `RunDataGrows`: no run is lost, and none that was executed becomes unexecuted;
* `Reserved`, `Executed`: the state of the run that an action of a request asks for;
* `Grown`: the frame of an execution between two requests;
* `RequestedNodes.Sound`: what a request has collected;
* `handleEngineRequest_cases`: a request either only makes the execution grow, or puts the
  requesting node and the nodes it requested on the stack.
-/

namespace N8n

/-! ### Run data -/

/-- The record of a run of a node. -/
def recordAt (runData : IRunData) (nodeName : String) (i : ℕ) : Option ITaskData :=
  (runData.get? nodeName).bind (·[i]?)

/-- Every run is kept, and an executed one stays executed. -/
def RunDataGrows (runData runData' : IRunData) : Prop :=
  ∀ nodeName i taskData, recordAt runData nodeName i = some taskData →
    ∃ taskData', recordAt runData' nodeName i = some taskData' ∧
      (taskData.executionStatus.isSome = true → taskData'.executionStatus.isSome = true)

variable (runData : IRunData)

theorem RunDataGrows.refl : RunDataGrows runData runData :=
  fun _ _ taskData h => ⟨taskData, h, id⟩

theorem RunDataGrows.trans {r₁ r₂ r₃ : IRunData} (h₁ : RunDataGrows r₁ r₂)
    (h₂ : RunDataGrows r₂ r₃) : RunDataGrows r₁ r₃ := by
  intro nodeName i taskData h
  obtain ⟨taskData', h', hstatus⟩ := h₁ nodeName i taskData h
  obtain ⟨taskData'', h'', hstatus'⟩ := h₂ nodeName i taskData' h'
  exact ⟨taskData'', h'', hstatus' ∘ hstatus⟩

theorem recordAt_set (nodeName nodeName' : String) (runs : List ITaskData) (i : ℕ) :
    recordAt (runData.set nodeName runs) nodeName' i =
      if nodeName' = nodeName then runs[i]? else recordAt runData nodeName' i := by
  rw [recordAt, Dict.get?_set]
  split_ifs <;> rfl

theorem recordAt_eq_getElem? (nodeName : String) (i : ℕ) :
    recordAt runData nodeName i = ((runData.get? nodeName).getD [])[i]? := by
  rw [recordAt]
  cases runData.get? nodeName <;> simp

/-- A further run of a node. -/
theorem runDataGrows_append (nodeName : String) (taskData : ITaskData) :
    RunDataGrows runData
      (runData.set nodeName ((runData.get? nodeName).getD [] ++ [taskData])) := by
  intro nodeName' i old hold
  refine ⟨old, ?_, id⟩
  rw [recordAt_set]
  split_ifs with hname
  · rw [hname, recordAt_eq_getElem?] at hold
    rw [List.getElem?_append_left (List.getElem?_eq_some_iff.1 hold).1, hold]
  · exact hold

/-- The run that an action asks for is reserved. -/
def Reserved (runData : IRunData) (a : SubNodeExecutionDataAction) : Prop :=
  (recordAt runData a.nodeName a.runIndex).isSome = true

/-- The run that an action asks for was executed: its record is not the placeholder any more. -/
def Executed (runData : IRunData) (a : SubNodeExecutionDataAction) : Prop :=
  ∃ taskData, recordAt runData a.nodeName a.runIndex = some taskData ∧
    taskData.executionStatus.isSome = true

variable {r r' : IRunData} {a : SubNodeExecutionDataAction} {d : Delivery} {names : List String}
  {runIndex : ℕ} {executionData : IExecuteData}

theorem RunDataGrows.reserved (h : RunDataGrows r r') (ha : Reserved r a) : Reserved r' a := by
  obtain ⟨taskData, htask⟩ := Option.isSome_iff_exists.1 ha
  obtain ⟨taskData', htask', -⟩ := h _ _ _ htask
  exact Option.isSome_iff_exists.2 ⟨taskData', htask'⟩

theorem RunDataGrows.executed (h : RunDataGrows r r') (ha : Executed r a) : Executed r' a := by
  obtain ⟨taskData, htask, hstatus⟩ := ha
  obtain ⟨taskData', htask', hstatus'⟩ := h _ _ _ htask
  exact ⟨taskData', htask', hstatus' hstatus⟩

/-! ### Entries -/

/-- The actions whose results a resumed entry is to use. -/
def IExecuteData.resumedActions (e : IExecuteData) : List SubNodeExecutionDataAction :=
  match e.metadata with
  | none => []
  | some metadata =>
    if metadata.nodeWasResumed then (metadata.subNodeExecutionData.map (·.actions)).getD [] else []

/-- The entry is for the run that an action asks for. -/
def Awaits (e : IExecuteData) (a : SubNodeExecutionDataAction) : Prop :=
  e.node.map (·.name) = some a.nodeName ∧ e.runIndex = some a.runIndex

variable {e : IExecuteData} {st st' : RunExecutionData} {w : Workflow} {nodeName : String}
  {error : Option JsError} {n : NodeToBeExecuted}

theorem resumedActions_of_metadata (h : e.metadata = none) : e.resumedActions = [] := by
  rw [IExecuteData.resumedActions, h]

/-- Entries that resume nothing were put in front of the stack and behind it, and no run was lost. -/
structure Grown (st st' : RunExecutionData) : Prop where
  stack : ∃ front back, (∀ e ∈ front, IExecuteData.resumedActions e = []) ∧
    (∀ e ∈ back, IExecuteData.resumedActions e = []) ∧
    st'.nodeExecutionStack = front ++ st.nodeExecutionStack ++ back
  runData : RunDataGrows st.runData st'.runData

theorem Grown.of_stack_eq (hstack : st'.nodeExecutionStack = st.nodeExecutionStack)
    (hdata : RunDataGrows st.runData st'.runData) : Grown st st' :=
  ⟨⟨[], [], by simp, by simp, by simpa using hstack⟩, hdata⟩

theorem Grown.refl (st : RunExecutionData) : Grown st st := .of_stack_eq rfl (.refl _)

theorem Grown.trans {st₁ st₂ st₃ : RunExecutionData} (h₁ : Grown st₁ st₂) (h₂ : Grown st₂ st₃) :
    Grown st₁ st₃ := by
  obtain ⟨⟨front, back, hfront, hback, hstack⟩, hdata⟩ := h₁
  obtain ⟨⟨front', back', hfront', hback', hstack'⟩, hdata'⟩ := h₂
  refine ⟨⟨front' ++ front, back ++ back', fun e he => ?_, fun e he => ?_, ?_⟩, hdata.trans hdata'⟩
  · exact (List.mem_append.1 he).elim (hfront' e) (hfront e)
  · exact (List.mem_append.1 he).elim (hback e) (hback' e)
  · rw [hstack', hstack]
    simp

theorem grown_enqueue (st : RunExecutionData) (w : Workflow) (he : e.resumedActions = []) :
    Grown st (st.enqueue w e) := by
  refine ⟨?_, .refl _⟩
  rw [RunExecutionData.enqueue]
  split_ifs
  · exact ⟨[], [e], by simp, by simpa using he, by simp⟩
  · exact ⟨[e], [], by simpa using he, by simp, by simp⟩

theorem ForcesOnly.grown (h : ForcesOnly w st st') : Grown st st' := by
  obtain ⟨forced, -, hforced, rfl⟩ := h
  refine ⟨⟨[], forced, by simp, fun e he => ?_, by simp⟩, .refl _⟩
  exact resumedActions_of_metadata (hforced e he).2.2

theorem addToWaiting_grown (h : addToWaiting w nodeName d st = .ok st') : Grown st st' := by
  obtain ⟨hadded, hframe, -⟩ := addToWaiting_cases h
  have hdata : RunDataGrows st.runData st'.runData := hframe.runData_eq ▸ .refl _
  cases hadded with
  | @moved k e main source hrec hdata' hstack hruns =>
    obtain ⟨hgrown, -⟩ := grown_enqueue st w (resumedActions_of_metadata
      (e := { node := w.getNode nodeName
              data := e.set .main (d.writeTo main)
              source := some source }) rfl)
    exact ⟨hstack ▸ hgrown, hdata⟩
  | @kept k e main forced hrec hdata' hlegacy hforced hstack hruns =>
    refine ⟨⟨[], forced, by simp, fun e he => ?_, by simpa using hstack⟩, hdata⟩
    exact resumedActions_of_metadata (hforced e he).2.2

theorem addNodeToBeExecuted_grown (h : addNodeToBeExecuted w nodeName d st = .ok st')
    (hd : d.metadata = none) : Grown st st' := by
  rw [addNodeToBeExecuted] at h
  split_ifs at h
  · exact addToWaiting_grown h
  · cases h
    rw [addToStack]
    split
    · exact .refl st
    · exact grown_enqueue st w (resumedActions_of_metadata hd)

/-! ### Calls that throw -/

/-- What a loop that stops at the first call that throws does, step by step. -/
theorem foldReached_rel {σ α : Type} {f : σ → α → Except JsError σ} {R : σ → σ → Prop}
    (hrefl : ∀ s, R s s) (htrans : ∀ s₁ s₂ s₃, R s₁ s₂ → R s₂ s₃ → R s₁ s₃)
    (hstep : ∀ s a s', f s a = .ok s' → R s s') (s : σ) (l : List α) : R s (foldReached f s l) := by
  induction l generalizing s with
  | nil => exact hrefl s
  | cons a l ih =>
    rw [foldReached]
    split
    · rename_i s' hs'
      exact htrans _ _ _ (hstep s a s' hs') (ih s')
    · exact hrefl s

theorem openWaiting_grown (nodeName : String) (st : RunExecutionData) :
    Grown st (openWaiting nodeName st) := by
  rw [openWaiting]
  split_ifs
  · exact .of_stack_eq rfl (.refl _)
  · exact .refl st

theorem Selected.grown {k : ℕ} {e : ITaskDataConnections} (h : Selected nodeName st st' k e) :
    Grown st st' :=
  .of_stack_eq h.stack (h.frame.runData_eq ▸ .refl _)

theorem addToWaitingReached_grown (w : Workflow) (nodeName : String) (d : Delivery)
    (st : RunExecutionData) : Grown st (addToWaitingReached w nodeName d st) := by
  rw [addToWaitingReached]
  cases hsel : selectWaitingEntry nodeName (w.numberOfInputs nodeName) d st with
  | error e => exact openWaiting_grown nodeName st
  | ok p =>
    obtain ⟨st₁, k⟩ := p
    obtain ⟨e, main, -, hs⟩ := selectWaitingEntry_cases hsel
    refine hs.grown.trans ?_
    simp only
    cases writeDelivery nodeName k d st₁ with
    | error e =>
      simp only
      split
      · exact .refl st₁
      · exact .of_stack_eq rfl (.refl _)
    | ok q =>
      simp only
      have hset : Grown st₁ (st₁.setWaiting nodeName
          ((st₁.waitingOf nodeName).set k (mainOnly ((q.1.get? .main).getD [])))
          ((st₁.waitingSourceOf nodeName).set k (mainOnly ((q.2.get? .main).getD [])))) :=
        .of_stack_eq rfl (.refl _)
      refine hset.trans ?_
      split
      · exact .refl _
      · refine ForcesOnly.grown (foldReached_rel (ForcesOnly.refl w) (fun _ _ _ => .trans) ?_ _ _)
        exact fun _ _ _ h => followInputConnection_forcesOnly h

/-! ### What a request collects -/

/-- Every action has its run reserved and a node listed for it; the listed nodes are among those
named, are in the workflow, receive data and resume nothing. -/
structure RequestedNodes.Sound (w : Workflow) (names : List String) (r : RequestedNodes) : Prop where
  actions : ∀ a ∈ r.actions, Reserved r.runData a ∧ ∃ n ∈ r.nodesToBeExecuted,
    n.inputConnectionData.node = a.nodeName ∧ n.nodeRunIndex = a.runIndex
  nodes : ∀ n ∈ r.nodesToBeExecuted, n.inputConnectionData.node ∈ names ∧
    (w.getNode n.inputConnectionData.node).isSome = true ∧ n.parentOutputData.isSome = true ∧
    n.metadata.nodeWasResumed = false

theorem prepareAction_sound (currentNode : INode) (runIndex : ℕ) (executionData : IExecuteData)
    {r : RequestedNodes} {action : EngineAction} (hname : action.nodeName ∈ names)
    (hnode : (w.getNode action.nodeName).isSome = true) (h : r.Sound w names) :
    (prepareAction currentNode runIndex executionData r action).Sound w names ∧
      RunDataGrows r.runData (prepareAction currentNode runIndex executionData r action).runData := by
  have hgrows : RunDataGrows r.runData
      (prepareAction currentNode runIndex executionData r action).runData :=
    runDataGrows_append r.runData action.nodeName _
  refine ⟨⟨fun a ha => ?_, fun n hn => ?_⟩, hgrows⟩
  · rcases List.mem_append.1 ha with ha | ha
    · obtain ⟨hreserved, n, hn, hn'⟩ := h.actions a ha
      exact ⟨hgrows.reserved hreserved, n, List.mem_append_left _ hn, hn'⟩
    · rw [List.mem_singleton.1 ha]
      refine ⟨?_, _, List.mem_append_right _ List.mem_cons_self, rfl, rfl⟩
      show (recordAt (r.runData.set _ _) _ _).isSome = true
      rw [recordAt_set, if_pos rfl]
      simp
  · rcases List.mem_append.1 hn with hn | hn
    · exact h.nodes n hn
    · rw [List.mem_singleton.1 hn]
      exact ⟨hname, hnode, rfl, rfl⟩

/-- A request collects what its actions ask for, and loses no run, even when it throws. -/
theorem prepareRequestedNodesForExecution_sound {currentNode : INode}
    {actions : List EngineAction} (hnames : ∀ action ∈ actions, action.nodeName ∈ names)
    {r r' : RequestedNodes} (hr : r.Sound w names)
    (h : prepareRequestedNodesForExecution w currentNode runIndex executionData r actions =
      (r', error)) : r'.Sound w names ∧ RunDataGrows r.runData r'.runData := by
  induction actions generalizing r with
  | nil =>
    cases h
    exact ⟨hr, .refl _⟩
  | cons action actions ih =>
    rw [prepareRequestedNodesForExecution] at h
    split_ifs at h with hnode
    · cases h
      exact ⟨hr, .refl _⟩
    · have hsome : (w.getNode action.nodeName).isSome = true := by
        simpa [Option.isSome_iff_ne_none] using hnode
      obtain ⟨hsound, hgrows⟩ := prepareAction_sound currentNode runIndex executionData
        (hnames action List.mem_cons_self) hsome hr
      obtain ⟨hsound', hgrows'⟩ := ih (fun a ha => hnames a (List.mem_cons_of_mem _ ha)) hsound h
      exact ⟨hsound', hgrows.trans hgrows'⟩

/-! ### Scheduling -/

/-- The stack with entries added one after the other: in front in the order `v1`, the last one first. -/
def stackWith (w : Workflow) (added stack : List IExecuteData) : List IExecuteData :=
  if w.isLegacyExecutionOrder then stack ++ added else added.reverse ++ stack

theorem stackWith_append (w : Workflow) (added added' stack : List IExecuteData) :
    stackWith w (added ++ added') stack = stackWith w added' (stackWith w added stack) := by
  rw [stackWith, stackWith, stackWith]
  split_ifs <;> simp

theorem enqueue_eq_stackWith (st : RunExecutionData) (w : Workflow) (e : IExecuteData) :
    st.enqueue w e = { st with nodeExecutionStack := stackWith w [e] st.nodeExecutionStack } := by
  rw [RunExecutionData.enqueue, stackWith]
  split_ifs <;> rfl

/-- The entry of a node to be executed. -/
structure EntryOf (w : Workflow) (n : NodeToBeExecuted) (e : IExecuteData) : Prop where
  node : e.node.map (·.name) = some n.inputConnectionData.node
  runIndex : e.runIndex = some n.nodeRunIndex
  metadata : e.metadata = some n.metadata

/-- A node with at most one main input that is in the workflow and receives data is put on the stack. -/
theorem addRequestedNode_eq (st : RunExecutionData)
    (hinputs : w.numberOfInputs n.inputConnectionData.node ≤ 1)
    (hnode : (w.getNode n.inputConnectionData.node).isSome = true)
    (hdata : n.parentOutputData.isSome = true) :
    ∃ e, EntryOf w n e ∧ addRequestedNode w n st =
      ({ st with nodeExecutionStack := stackWith w [e] st.nodeExecutionStack }, none) := by
  obtain ⟨node, hnode⟩ := Option.isSome_iff_exists.1 hnode
  obtain ⟨lists, hdata⟩ := Option.isSome_iff_exists.1 hdata
  refine ⟨(n.delivery lists).entry node, ⟨?_, rfl, rfl⟩, ?_⟩
  · exact congrArg some (w.nodes_name _ node hnode)
  · simp only [addRequestedNode, hdata, addNodeToBeExecuted, if_neg (not_lt.2 hinputs), addToStack,
      hnode, enqueue_eq_stackWith]

theorem EntryOf.resumedActions_eq_nil (h : EntryOf w n e) (hn : n.metadata.nodeWasResumed = false) :
    e.resumedActions = [] := by
  rw [IExecuteData.resumedActions, h.metadata]
  simp [hn]

theorem addRequestedNodes_eq {nodes : List NodeToBeExecuted} (st : RunExecutionData)
    (h : ∀ n ∈ nodes, w.numberOfInputs n.inputConnectionData.node ≤ 1 ∧
      (w.getNode n.inputConnectionData.node).isSome = true ∧ n.parentOutputData.isSome = true) :
    ∃ added, (∀ e ∈ added, ∃ n ∈ nodes, EntryOf w n e) ∧ (∀ n ∈ nodes, ∃ e ∈ added, EntryOf w n e) ∧
      addRequestedNodes w st nodes =
        ({ st with nodeExecutionStack := stackWith w added st.nodeExecutionStack }, none) := by
  induction nodes generalizing st with
  | nil => exact ⟨[], by simp, by simp, by simp [addRequestedNodes, stackWith]⟩
  | cons n nodes ih =>
    obtain ⟨hinputs, hnode, hdata⟩ := h n List.mem_cons_self
    obtain ⟨e, hentry, he⟩ := addRequestedNode_eq st hinputs hnode hdata
    obtain ⟨added, hadded, hall, heq⟩ :=
      ih { st with nodeExecutionStack := stackWith w [e] st.nodeExecutionStack }
        fun n hn => h n (List.mem_cons_of_mem _ hn)
    refine ⟨e :: added, fun e' he' => ?_, fun n' hn' => ?_, ?_⟩
    · rcases List.mem_cons.1 he' with rfl | he'
      · exact ⟨n, List.mem_cons_self, hentry⟩
      · obtain ⟨n', hn', hentry'⟩ := hadded e' he'
        exact ⟨n', List.mem_cons_of_mem _ hn', hentry'⟩
    · rcases List.mem_cons.1 hn' with rfl | hn'
      · exact ⟨e, List.mem_cons_self, hentry⟩
      · obtain ⟨e', he', hentry'⟩ := hall n' hn'
        exact ⟨e', List.mem_cons_of_mem _ he', hentry'⟩
    · rw [addRequestedNodes, he]
      simp only
      rw [heq, ← stackWith_append, List.singleton_append]

/-- Entries that resume nothing only make the execution grow. -/
theorem grown_stackWith (st : RunExecutionData) (w : Workflow) {added : List IExecuteData}
    (h : ∀ e ∈ added, e.resumedActions = []) :
    Grown st { st with nodeExecutionStack := stackWith w added st.nodeExecutionStack } := by
  refine ⟨?_, .refl _⟩
  rw [stackWith]
  split_ifs
  · exact ⟨[], added, by simp, h, by simp⟩
  · exact ⟨added.reverse, [], fun e he => h e (List.mem_reverse.1 he), by simp, by simp⟩

/-- A node that is not put on the stack at once leaves nothing on it that resumes. -/
theorem addRequestedNode_grown (h : addRequestedNode w n st = (st', error))
    (hn : error ≠ none ∨ 1 < w.numberOfInputs n.inputConnectionData.node ∨
      w.getNode n.inputConnectionData.node = none) : Grown st st' := by
  rw [addRequestedNode] at h
  cases hdata : n.parentOutputData with
  | none =>
    simp only [hdata] at h
    split_ifs at h
    · cases hsel : selectWaitingEntry n.inputConnectionData.node
          (w.numberOfInputs n.inputConnectionData.node) (n.delivery []) st with
      | error e =>
        rw [hsel] at h
        cases h
        exact openWaiting_grown _ st
      | ok p =>
        rw [hsel] at h
        cases h
        obtain ⟨e, main, -, hs⟩ := selectWaitingEntry_cases hsel
        exact hs.grown
    · cases h
      exact .refl st
  | some lists =>
    simp only [hdata] at h
    cases hadd : addNodeToBeExecuted w n.inputConnectionData.node (n.delivery lists) st with
    | error e =>
      rw [hadd] at h
      cases h
      exact addToWaitingReached_grown w _ _ st
    | ok st₁ =>
      rw [hadd] at h
      cases h
      rw [addNodeToBeExecuted] at hadd
      split_ifs at hadd with hinputs
      · exact addToWaiting_grown hadd
      · cases hadd
        have hnone := (hn.resolve_left (not_not.2 rfl)).resolve_left hinputs
        rw [addToStack, hnone]
        exact .refl st

/-- A node with at most one main input that is added without an error receives data. -/
theorem addRequestedNode_data (h : addRequestedNode w n st = (st', none))
    (hinputs : w.numberOfInputs n.inputConnectionData.node ≤ 1) :
    n.parentOutputData.isSome = true := by
  cases hdata : n.parentOutputData with
  | some lists => rfl
  | none =>
    rw [addRequestedNode, hdata] at h
    simp only [if_neg (not_lt.2 hinputs)] at h
    cases h

/-! ### Requests -/

/-- The requesting node can be put on the stack again: its entry names the node it came from, and the
workflow has the node, with at most one main input. -/
structure Resumable (w : Workflow) (node : INode) (executionData : IExecuteData) : Prop where
  parent : (requestParentNode executionData).isSome = true
  inputs : w.numberOfInputs node.name ≤ 1
  node : (w.getNode node.name).isSome = true

/-- The requesting node was put on the stack again, together with the nodes that it requested. -/
inductive Scheduled (w : Workflow) (node : INode) (runIndex : ℕ) (request : EngineRequest)
    (run run' : RunExecutionData) : Prop
  | mk {e : IExecuteData} {requested : List IExecuteData}
    (hnode : e.node.map (·.name) = some node.name) (hindex : e.runIndex = some runIndex)
    (hstack : run'.nodeExecutionStack = stackWith w (e :: requested) run.nodeExecutionStack)
    (hrequested : ∀ t ∈ requested, t.resumedActions = [])
    (hactions : ∀ a ∈ e.resumedActions, Reserved run'.runData a ∧ ∃ t ∈ requested, Awaits t a)
    (hnone : request.actions = [] → requested = [])
    (hdata : RunDataGrows run.runData run'.runData) : Scheduled w node runIndex request run run'

/-- **A request puts the requesting node and the nodes it requested on the stack, or puts nothing there
that resumes; the latter only if it throws or the requesting node is not resumable.** -/
theorem handleEngineRequest_cases {node : INode} {request : EngineRequest}
    {run run' : RunExecutionData} {rewire rewire' : RewireOutputLogTo}
    (h : handleEngineRequest w node request runIndex executionData run rewire =
      (run', rewire', error)) (hinputs : (requestParentNode executionData).isSome = true →
      ∀ action ∈ request.actions, w.numberOfInputs action.nodeName ≤ 1) :
    (Grown run run' ∧ (error = none → ¬Resumable w node executionData)) ∨
      error = none ∧ (requestParentNode executionData).isSome = true ∧
        Scheduled w node runIndex request run run' := by
  rw [handleEngineRequest, handleRequest] at h
  cases hprepare : prepareRequestedNodesForExecution w node runIndex executionData
      { runData := run.runData, rewireOutputLogTo := rewire } request.actions with
  | mk r e =>
    obtain ⟨hsound, hgrows⟩ := prepareRequestedNodesForExecution_sound
      (fun action ha => List.mem_map_of_mem (f := (·.nodeName)) ha) ⟨by simp, by simp⟩ hprepare
    have hdata : Grown run { run with runData := r.runData } := .of_stack_eq rfl hgrows
    rw [hprepare] at h
    cases e with
    | some e =>
      cases h
      exact Or.inl ⟨hdata, fun h => by cases h⟩
    | none =>
      rw [prepareRequestingNodeForResuming] at h
      cases hparent : requestParentNode executionData with
      | none =>
        rw [hparent] at h
        cases h
        refine Or.inl ⟨hdata, fun _ hresumable => ?_⟩
        have := hresumable.parent
        rw [hparent] at this
        cases this
      | some parentNode =>
        simp only [hparent, Option.map_some, addRequestedNodes] at h hinputs
        have hnodes : ∀ n ∈ r.nodesToBeExecuted, w.numberOfInputs n.inputConnectionData.node ≤ 1 ∧
            (w.getNode n.inputConnectionData.node).isSome = true ∧
            n.parentOutputData.isSome = true := by
          intro n hn
          obtain ⟨hname, hnode, hsome, -⟩ := hsound.nodes n hn
          obtain ⟨action, haction, hname⟩ := List.mem_map.1 hname
          exact ⟨hname ▸ hinputs rfl action haction, hnode, hsome⟩
        generalize hagent : resumingNode _ _ _ _ _ _ _ = agent at h
        cases hadd : addRequestedNode w agent { run with runData := r.runData } with
        | mk st₁ e₁ =>
          rw [hadd] at h
          cases e₁ with
          | some e₁ =>
            cases h
            have hgrown := addRequestedNode_grown hadd (Or.inl (by simp))
            exact Or.inl ⟨hdata.trans hgrown, fun h => by cases h⟩
          | none =>
            simp only at h
            obtain ⟨requested, hof, hall, heq⟩ := addRequestedNodes_eq st₁ hnodes
            rw [heq] at h
            cases h
            have hrequested : ∀ t ∈ requested, t.resumedActions = [] := by
              intro t ht
              obtain ⟨n, hn, hentry⟩ := hof t ht
              exact hentry.resumedActions_eq_nil (hsound.nodes n hn).2.2.2
            by_cases hlost : 1 < w.numberOfInputs node.name ∨ w.getNode node.name = none
            · left
              have hgrown := addRequestedNode_grown hadd (Or.inr (hagent ▸ hlost))
              refine ⟨(hdata.trans hgrown).trans (grown_stackWith st₁ w hrequested), ?_⟩
              rintro - ⟨-, hle, hsome⟩
              rcases hlost with hlt | hnone
              · omega
              · rw [hnone] at hsome
                cases hsome
            · right
              rw [not_or, not_lt] at hlost
              have hagentName : agent.inputConnectionData.node = node.name := by
                rw [← hagent]
                rfl
              obtain ⟨e, hentry, he⟩ := addRequestedNode_eq { run with runData := r.runData }
                (hagentName ▸ hlost.1)
                (by rw [hagentName]; exact Option.isSome_iff_ne_none.2 hlost.2)
                (addRequestedNode_data hadd (hagentName ▸ hlost.1))
              rw [hadd] at he
              cases he
              have hresumed : e.resumedActions = r.actions := by
                rw [IExecuteData.resumedActions, hentry.metadata, ← hagent]
                rfl
              refine ⟨rfl, rfl, @Scheduled.mk _ _ _ _ _ _ e requested ?_ ?_ ?_ hrequested ?_ ?_ hgrows⟩
              · rw [hentry.node, hagentName]
              · rw [hentry.runIndex, ← hagent]
                rfl
              · show stackWith w requested (stackWith w [e] run.nodeExecutionStack) = _
                rw [← stackWith_append, List.singleton_append]
              · intro a ha
                rw [hresumed] at ha
                obtain ⟨hreserved, n, hn, hname, hindex⟩ := hsound.actions a ha
                obtain ⟨t, ht, htn⟩ := hall n hn
                exact ⟨hreserved, t, ht, htn.node.trans (congrArg some hname),
                  htn.runIndex.trans (congrArg some hindex)⟩
              · intro hempty
                refine List.eq_nil_iff_forall_not_mem.2 fun t ht => ?_
                obtain ⟨n, hn, -⟩ := hof t ht
                have hname := (hsound.nodes n hn).1
                rw [hempty] at hname
                cases hname

end N8n
