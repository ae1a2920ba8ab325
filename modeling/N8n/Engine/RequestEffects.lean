import N8n.Engine.Requests

/-!
# What a refused request leaves behind

* `runsOf`, `reservedBy`: the runs of a node, and how many a list of actions reserves;
* `prepareRequestedNodesForExecution_cases`: the actions that a request gets through, and what they
  reserve;
* `Refused`, `LeavesNoTrace`: a request that throws or is ignored changes nothing;
* `handleRequest_leavesNoTrace_iff`: when that is so.
-/

namespace N8n

/-! ### What the actions reserve -/

/-- The runs of a node. -/
def runsOf (runData : IRunData) (nodeName : String) : List ITaskData :=
  (runData.get? nodeName).getD []

/-- How many runs of a node the actions reserve. -/
def reservedBy (actions : List EngineAction) (nodeName : String) : ℕ :=
  actions.countP fun action => action.nodeName = nodeName

section Prepare

variable {w : Workflow} {currentNode : INode} {runIndex : ℕ} {executionData : IExecuteData}

theorem length_runsOf_prepareAction (r : RequestedNodes) (action : EngineAction)
    (nodeName : String) :
    (runsOf (prepareAction currentNode runIndex executionData r action).runData nodeName).length =
      (runsOf r.runData nodeName).length + if action.nodeName = nodeName then 1 else 0 := by
  show (((r.runData.set action.nodeName (_ ++ [_])).get? nodeName).getD []).length = _
  rw [Dict.get?_set]
  by_cases hname : action.nodeName = nodeName
  · rw [if_pos hname.symm, if_pos hname, Option.getD_some, List.length_append, hname]
    rfl
  · rw [if_neg (Ne.symm hname), if_neg hname]
    rfl

theorem length_runsOf_foldl (r : RequestedNodes) (actions : List EngineAction) (nodeName : String) :
    (runsOf (actions.foldl (prepareAction currentNode runIndex executionData) r).runData
        nodeName).length =
      (runsOf r.runData nodeName).length + reservedBy actions nodeName := by
  induction actions generalizing r with
  | nil => rfl
  | cons action actions ih =>
    rw [List.foldl_cons, ih, length_runsOf_prepareAction, reservedBy, reservedBy, List.countP_cons]
    simp only [decide_eq_true_eq]
    omega

/-- **A request gets through its actions up to the first one for a node that the workflow does not
have.** -/
theorem prepareRequestedNodesForExecution_cases {r r' : RequestedNodes}
    {actions : List EngineAction} {error : Option JsError}
    (h : prepareRequestedNodesForExecution w currentNode runIndex executionData r actions =
      (r', error)) :
    ∃ done rest, actions = done ++ rest ∧
      (∀ action ∈ done, (w.getNode action.nodeName).isSome = true) ∧
      r' = done.foldl (prepareAction currentNode runIndex executionData) r ∧
      (error = none ∧ rest = [] ∨
        error.isSome = true ∧ ∃ action ∈ rest.head?, w.getNode action.nodeName = none) := by
  induction actions generalizing r with
  | nil =>
    cases h
    exact ⟨[], [], rfl, by simp, rfl, Or.inl ⟨rfl, rfl⟩⟩
  | cons action actions ih =>
    rw [prepareRequestedNodesForExecution] at h
    split_ifs at h with hnode
    · cases h
      refine ⟨[], action :: actions, rfl, by simp, rfl, Or.inr ⟨rfl, action, rfl, ?_⟩⟩
      exact Option.isNone_iff_eq_none.1 hnode
    · obtain ⟨done, rest, rfl, hdone, hr', hend⟩ := ih h
      refine ⟨action :: done, rest, rfl, List.forall_mem_cons.2 ⟨?_, hdone⟩, hr', hend⟩
      exact Option.isSome_iff_ne_none.2 fun hnone => hnode (Option.isNone_iff_eq_none.2 hnone)

end Prepare

/-! ### Refused requests -/

/-- A request is refused when it throws or is ignored. -/
def RefusesRequest : Except JsError (List NodeToBeExecuted) → Prop
  | .error _ => True
  | .ok nodesToBeExecuted => nodesToBeExecuted = []

section Refused

variable {w : Workflow} {currentNode : INode} {request : EngineRequest} {runIndex : ℕ}
  {executionData : IExecuteData} {runData : IRunData} {rewireOutputLogTo : RewireOutputLogTo}

/-- What a request has done at its end, and whether it is refused. -/
theorem handleRequest_cases {r : RequestedNodes} {result : Except JsError (List NodeToBeExecuted)}
    (h : handleRequest w currentNode request runIndex executionData runData rewireOutputLogTo =
      (r, result)) :
    ∃ done rest, request.actions = done ++ rest ∧
      (∀ action ∈ done, (w.getNode action.nodeName).isSome = true) ∧
      (rest ≠ [] → ∃ action ∈ rest.head?, w.getNode action.nodeName = none) ∧
      r = done.foldl (prepareAction currentNode runIndex executionData)
        { runData := runData, rewireOutputLogTo := rewireOutputLogTo } ∧
      (RefusesRequest result ↔ rest ≠ [] ∨ requestParentNode executionData = none) := by
  rw [handleRequest, prepareRequestingNodeForResuming] at h
  cases hprepare : prepareRequestedNodesForExecution w currentNode runIndex executionData
      { runData := runData, rewireOutputLogTo := rewireOutputLogTo } request.actions with
  | mk r₁ error =>
    rw [hprepare] at h
    obtain ⟨done, rest, hactions, hdone, rfl, hend⟩ :=
      prepareRequestedNodesForExecution_cases hprepare
    refine ⟨done, rest, hactions, hdone, ?_⟩
    rcases hend with ⟨rfl, rfl⟩ | ⟨herror, action, haction, hnone⟩
    · refine ⟨fun hne => absurd rfl hne, ?_⟩
      cases hparent : requestParentNode executionData with
      | none =>
        rw [hparent] at h
        cases h
        exact ⟨rfl, iff_of_true rfl (Or.inr rfl)⟩
      | some parentNode =>
        rw [hparent] at h
        cases h
        exact ⟨rfl, iff_of_false (List.cons_ne_nil _ _) (by simp)⟩
    · obtain ⟨e, rfl⟩ := Option.isSome_iff_exists.1 herror
      cases h
      refine ⟨fun _ => ⟨action, haction, hnone⟩, rfl, iff_of_true trivial (Or.inl ?_)⟩
      rintro rfl
      cases haction

/-- Actions that a request gets through leave a reserved run. -/
theorem foldl_prepareAction_ne (r : RequestedNodes) {action : EngineAction}
    {actions : List EngineAction} :
    ((action :: actions).foldl (prepareAction currentNode runIndex executionData) r).runData ≠
      r.runData := by
  intro h
  have hlength : (runsOf r.runData action.nodeName).length =
      (runsOf r.runData action.nodeName).length + reservedBy (action :: actions) action.nodeName :=
    (congrArg (fun runData => (runsOf runData action.nodeName).length) h.symm).trans
      (length_runsOf_foldl r (action :: actions) action.nodeName)
  rw [reservedBy, List.countP_cons_of_pos (by simp)] at hlength
  omega

variable (w currentNode request runIndex executionData runData rewireOutputLogTo)

/-- If the request is refused, the run data are the same as before, and so is what the nodes have as
`rewireOutputLogTo`. -/
def LeavesNoTrace : Prop :=
  ∀ r result, handleRequest w currentNode request runIndex executionData runData
      rewireOutputLogTo = (r, result) → RefusesRequest result →
    r.runData = runData ∧
      ∀ nodeName, r.rewireOutputLogTo.get? nodeName = rewireOutputLogTo.get? nodeName

/-- **A refused request leaves no trace** exactly when it has no actions or its first one already
names a node that the workflow does not have, or when it is not refused: all of them name nodes of
the workflow, and the requesting node has a parent. -/
theorem handleRequest_leavesNoTrace_iff :
    LeavesNoTrace w currentNode request runIndex executionData runData rewireOutputLogTo ↔
      (∀ action ∈ request.actions.head?, w.getNode action.nodeName = none) ∨
        (∀ action ∈ request.actions, (w.getNode action.nodeName).isSome = true) ∧
          (requestParentNode executionData).isSome = true := by
  obtain ⟨r, result, hresult⟩ : ∃ r result, handleRequest w currentNode request runIndex
      executionData runData rewireOutputLogTo = (r, result) := ⟨_, _, rfl⟩
  obtain ⟨done, rest, hactions, hdone, hrest, rfl, hrefused⟩ := handleRequest_cases hresult
  have htrace : LeavesNoTrace w currentNode request runIndex executionData runData
      rewireOutputLogTo ↔ (rest ≠ [] ∨ requestParentNode executionData = none → done = []) := by
    constructor
    · intro h hrefuses
      cases done with
      | nil => rfl
      | cons action done =>
        exact absurd (h _ _ hresult (hrefused.2 hrefuses)).1 (foldl_prepareAction_ne _)
    · intro h r' result' hresult' hrefuses
      cases hresult.symm.trans hresult'
      rw [h (hrefused.1 hrefuses)]
      exact ⟨rfl, fun _ => rfl⟩
  rw [htrace, hactions]
  cases done with
  | nil =>
    refine iff_of_true (fun _ => rfl) (Or.inl fun action haction => ?_)
    rw [List.nil_append] at haction
    obtain ⟨action', haction', hnone⟩ := hrest fun hnil => by simp [hnil] at haction
    exact Option.some_inj.1 (haction'.symm.trans haction) ▸ hnone
  | cons action done =>
    have hsome := hdone action List.mem_cons_self
    have hleft : ¬∀ a ∈ (action :: done ++ rest).head?, w.getNode a.nodeName = none := fun h => by
      rw [h action rfl] at hsome
      cases hsome
    have hall : (∀ a ∈ action :: done ++ rest, (w.getNode a.nodeName).isSome = true) ↔
        rest = [] := by
      constructor
      · intro h
        by_contra hne
        obtain ⟨a, ha, hnone⟩ := hrest hne
        have := h a (List.mem_append_right _ (List.mem_of_mem_head? ha))
        rw [hnone] at this
        cases this
      · rintro rfl
        rwa [List.append_nil]
    rw [or_iff_right hleft, hall, Option.isSome_iff_ne_none]
    simp only [List.cons_ne_nil, imp_false, not_or, not_not, ne_eq]

end Refused

/-! ### Two requests -/

/-- The workflow has the requesting node and one tool. -/
def agentWorkflow : Workflow :=
  (Workflow.blank (some .v1)).setNodes [{ name := "Agent" }, { name := "Tool" }]

/-- A request for a run of the tool, and then for one of a node that is not there. -/
def requestForMissing : EngineRequest where
  actions := ["Tool", "Missing"].map fun nodeName => { nodeName := nodeName, id := nodeName }

/-- A request for a run of the tool. -/
def requestForTool : EngineRequest where
  actions := [{ nodeName := "Tool", id := "1" }]

/-- The first request throws, and the second one is ignored for want of a parent; both leave a run
of the tool behind. -/
theorem refused_requests_reserve_runs :
    ¬LeavesNoTrace agentWorkflow { name := "Agent" } requestForMissing 0
        { node := some { name := "Agent" }, data := mainOnly [], source := some (mainOnly [
          some (some { previousNode := "T" })]) } Dict.empty Dict.empty ∧
      ¬LeavesNoTrace agentWorkflow { name := "Agent" } requestForTool 0
        { node := some { name := "Agent" }, data := mainOnly [] } Dict.empty Dict.empty := by
  refine ⟨fun h => ?_, fun h => ?_⟩
  · exact absurd (h _ _ rfl trivial).1 (by decide)
  · exact absurd (h _ _ rfl rfl).1 (by decide)

end N8n
