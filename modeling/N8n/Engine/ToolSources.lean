import N8n.Engine.KeptInPlace
import N8n.Engine.LoopEnd
import N8n.Engine.RequestEffects

/-!
# The source that a tool run points at

The items of a requested node are paired with the input of the node that requested it, by a source
that the entry of the requested node carries.

* `ownSource`, `readSource`: the source of the requesting entry, and the one that is read;
* `tools_pointAt`: every tool without a parent of its own points at the source that is read;
* `handleRequest_pointsAtOwnSource_iff`: whether that is the source of the requesting entry.
-/

namespace N8n

/-- A source with the values that stand for a missing output and run. -/
def ISourceData.withDefaults (s : ISourceData) : ISourceData where
  previousNode := s.previousNode
  previousNodeOutput := some (s.previousNodeOutput.getD 0)
  previousNodeRun := some (s.previousNodeRun.getD 0)

/-- The source of an entry: that of its first main input. -/
def ownSource (executionData : IExecuteData) : Option ISourceData :=
  (executionData.sourceAt 0).map ISourceData.withDefaults

/-- The source that a request reads: the main input is counted by the run of the node. -/
def readSource (currentNode : INode) (runIndex : ℕ) (executionData : IExecuteData) : ISourceData :=
  ((executionData.sourceAt runIndex).getD { previousNode := currentNode.name }).withDefaults

/-- The source that an item carries. -/
def INodeExecutionData.pairedSource (item : INodeExecutionData) : Option ISourceData :=
  match item.pairedItem with
  | some (.data p) => p.sourceOverwrite
  | _ => none

/-- The source that the item of a requested node carries. -/
def NodeToBeExecuted.pairedSource (n : NodeToBeExecuted) : Option ISourceData :=
  match n.parentOutputData.bind (ItemLists.items? · 0) with
  | some (item :: _) => item.pairedSource
  | _ => none

/-- A requested node points at a source: in its metadata and in its item. -/
def PointsAt (s : Option ISourceData) (n : NodeToBeExecuted) : Prop :=
  n.metadata.preservedSourceOverwrite = s ∧ n.pairedSource = s

/-- The parent that an action names for its run, if any. -/
def EngineAction.customParent (action : EngineAction) : Option String :=
  truthyText (action.metadata.bind (·.parentNodeName))

/-- The source that an entry has to pass on. -/
def inheritedSource (executionData : IExecuteData) : Option ISourceData :=
  executionData.metadata.bind (·.preservedSourceOverwrite)

section Request

variable {w : Workflow} {currentNode : INode} {request : EngineRequest} {runIndex : ℕ}
  {executionData : IExecuteData} {runData : IRunData} {rewireOutputLogTo : RewireOutputLogTo}

variable (currentNode runIndex) in
theorem prepareAction_pointsAt (hnone : inheritedSource executionData = none) (r : RequestedNodes)
    (action : EngineAction) :
    ∃ n, (prepareAction currentNode runIndex executionData r action).nodesToBeExecuted =
        r.nodesToBeExecuted ++ [n] ∧
      (action.customParent = none →
        PointsAt (some (readSource currentNode runIndex executionData)) n) := by
  refine ⟨_, rfl, fun hcustom => ?_⟩
  rw [inheritedSource] at hnone
  rw [EngineAction.customParent] at hcustom
  have hread : readSource currentNode runIndex executionData =
      { previousNode := ((executionData.sourceAt runIndex).map (·.previousNode)).getD
          currentNode.name
        previousNodeOutput :=
          some (((executionData.sourceAt runIndex).bind (·.previousNodeOutput)).getD 0)
        previousNodeRun :=
          some (((executionData.sourceAt runIndex).bind (·.previousNodeRun)).getD 0) } := by
    rw [readSource]
    cases executionData.sourceAt runIndex <;> rfl
  rw [hread]
  refine ⟨?_, ?_⟩
  · simp only [hnone, hcustom, Option.orElse_none]
    rfl
  · simp only [hcustom]
    rfl

variable (currentNode runIndex) in
/-- **The tools of a request**: one for each action, and all that have no parent of their own point at
the source that is read. -/
theorem tools_pointAt (hnone : inheritedSource executionData = none) (r : RequestedNodes)
    (actions : List EngineAction) :
    ∃ tools, (actions.foldl (prepareAction currentNode runIndex executionData) r).nodesToBeExecuted =
        r.nodesToBeExecuted ++ tools ∧
      List.Forall₂ (fun action n => EngineAction.customParent action = none →
        PointsAt (some (readSource currentNode runIndex executionData)) n) actions tools := by
  induction actions generalizing r with
  | nil => exact ⟨[], (List.append_nil _).symm, .nil⟩
  | cons action actions ih =>
    obtain ⟨n, hn, hpoints⟩ := prepareAction_pointsAt currentNode runIndex hnone r action
    obtain ⟨tools, htools, hall⟩ := ih (prepareAction currentNode runIndex executionData r action)
    refine ⟨n :: tools, ?_, .cons hpoints hall⟩
    rw [List.foldl_cons, htools, hn, List.append_assoc, List.singleton_append]

/-- What an accepted request schedules: the requesting node, and the nodes that were collected. -/
theorem handleRequest_eq_ok {r : RequestedNodes} {agent : NodeToBeExecuted}
    {tools : List NodeToBeExecuted}
    (h : handleRequest w currentNode request runIndex executionData runData rewireOutputLogTo =
      (r, .ok (agent :: tools))) :
    (∀ action ∈ request.actions, (w.getNode action.nodeName).isSome = true) ∧
      (requestParentNode executionData).isSome = true ∧
      tools = (request.actions.foldl (prepareAction currentNode runIndex executionData)
        { runData := runData, rewireOutputLogTo := rewireOutputLogTo }).nodesToBeExecuted := by
  obtain ⟨done, rest, hactions, hdone, -, hr, hrefused⟩ := handleRequest_cases h
  have haccepted : ¬(rest ≠ [] ∨ requestParentNode executionData = none) :=
    fun hrefuses => List.cons_ne_nil _ _ (hrefused.2 hrefuses)
  rw [not_or, not_not] at haccepted
  obtain ⟨rfl, hparent⟩ := haccepted
  rw [List.append_nil] at hactions
  refine ⟨hactions ▸ hdone, Option.isSome_iff_ne_none.2 hparent, ?_⟩
  rw [hactions, ← hr]
  rw [handleRequest, prepareRequestingNodeForResuming] at h
  obtain ⟨parentNode, hparent⟩ := Option.ne_none_iff_exists'.1 hparent
  rw [hparent] at h
  split at h
  · cases h
  · cases h
    rfl

variable (currentNode runIndex runData rewireOutputLogTo) in
theorem exists_handleRequest_eq_ok
    (hnodes : ∀ action ∈ request.actions, (w.getNode action.nodeName).isSome = true)
    (hparent : (requestParentNode executionData).isSome = true) :
    ∃ r agent tools, handleRequest w currentNode request runIndex executionData runData
      rewireOutputLogTo = (r, .ok (agent :: tools)) := by
  obtain ⟨r, result, hresult⟩ : ∃ r result, handleRequest w currentNode request runIndex
      executionData runData rewireOutputLogTo = (r, result) := ⟨_, _, rfl⟩
  obtain ⟨done, rest, hactions, -, hrest, -, hrefused⟩ := handleRequest_cases hresult
  have haccepted : ¬RefusesRequest result := by
    rintro hrefuses
    rcases hrefused.1 hrefuses with hne | hnone
    · obtain ⟨action, haction, hunknown⟩ := hrest hne
      have hmem : action ∈ request.actions :=
        hactions ▸ List.mem_append_right _ (List.mem_of_mem_head? haction)
      exact Option.isSome_iff_ne_none.1 (hnodes action hmem) hunknown
    · rw [hnone] at hparent
      cases hparent
  match result with
  | .error e => exact absurd trivial haccepted
  | .ok [] => exact absurd rfl haccepted
  | .ok (agent :: tools) => exact ⟨r, agent, tools, hresult⟩

/-- For the first run the source that is read is that of the entry. -/
theorem readSource_zero (hparent : (requestParentNode executionData).isSome = true) :
    some (readSource currentNode 0 executionData) = ownSource executionData := by
  rw [readSource, ownSource]
  cases hsource : executionData.sourceAt 0 with
  | none =>
    have hjoin : ((executionData.source.bind (·.get? .main)).bind (SparseArray.getAt · 0)).bind id =
        none := hsource
    rw [requestParentNode, hjoin] at hparent
    cases hparent
  | some s => rfl

variable (w currentNode request runIndex executionData runData rewireOutputLogTo)

/-- All scheduled tools without a parent of their own, when there is no source to pass on, point at
the source of the requesting entry. -/
def ToolsPointAtOwnSource : Prop :=
  ∀ r agent tools, handleRequest w currentNode request runIndex executionData runData
      rewireOutputLogTo = (r, .ok (agent :: tools)) → inheritedSource executionData = none →
    List.Forall₂ (fun action n => EngineAction.customParent action = none →
      PointsAt (ownSource executionData) n) request.actions tools

/-- **The scheduled tools point at the source of the requesting entry** exactly when it is the first
run of the requesting node or the source that is read is the same, or when there are no such tools:
the request is refused, there is a source to pass on, or all actions name parents of their own. -/
theorem handleRequest_pointsAtOwnSource_iff :
    ToolsPointAtOwnSource w currentNode request runIndex executionData runData rewireOutputLogTo ↔
      ((∀ action ∈ request.actions, (w.getNode action.nodeName).isSome = true) →
        (requestParentNode executionData).isSome = true → inheritedSource executionData = none →
        (∃ action ∈ request.actions, action.customParent = none) →
        runIndex = 0 ∨
          some (readSource currentNode runIndex executionData) = ownSource executionData) := by
  constructor
  · rintro h hnodes hparent hnone ⟨action, haction, hcustom⟩
    obtain ⟨r, agent, tools, hresult⟩ := exists_handleRequest_eq_ok currentNode runIndex
      runData rewireOutputLogTo hnodes hparent
    obtain ⟨-, -, htools⟩ := handleRequest_eq_ok hresult
    obtain ⟨tools', htools', hread⟩ := tools_pointAt currentNode runIndex hnone
      { runData := runData, rewireOutputLogTo := rewireOutputLogTo } request.actions
    rw [← htools, List.nil_append] at htools'
    subst htools'
    obtain ⟨n, hn⟩ := hread.exists_mem_zip haction
    have hown := (List.forall₂_iff_zip.1 (h _ _ _ hresult hnone)).2 hn hcustom
    have hread := (List.forall₂_iff_zip.1 hread).2 hn hcustom
    exact Or.inr (hread.1.symm.trans hown.1)
  · intro h r agent tools hresult hnone
    obtain ⟨hnodes, hparent, htools⟩ := handleRequest_eq_ok hresult
    obtain ⟨tools', htools', hread⟩ := tools_pointAt currentNode runIndex hnone
      { runData := runData, rewireOutputLogTo := rewireOutputLogTo } request.actions
    rw [← htools, List.nil_append] at htools'
    subst htools'
    refine List.forall₂_iff_zip.2 ⟨hread.length_eq, fun {action n} hn hcustom => ?_⟩
    have hpoints := (List.forall₂_iff_zip.1 hread).2 hn hcustom
    rcases h hnodes hparent hnone ⟨action, (List.of_mem_zip hn).1, hcustom⟩ with rfl | heq
    · exact readSource_zero hparent ▸ hpoints
    · exact heq ▸ hpoints

end Request

/-! ### The second run of an agent -/

/-- `T` feeds the agent, which has a tool. -/
def fedAgentWorkflow : Workflow := mainWorkflow ["T", "Agent", "Tool"] [("T", [("Agent", 0)])]

/-- The entry of the agent for the second run of `T`. -/
def secondEntry : IExecuteData where
  node := some { name := "Agent" }
  data := mainOnly [some (.items [emptyItem])]
  source := some (mainOnly [some (some { previousNode := "T", previousNodeRun := some 1 })])

/-- In the second run of the agent its tool points at the agent itself. -/
theorem second_run_points_at_agent : fedAgentWorkflow.numberOfInputs "Agent" = 1 ∧
    ¬ToolsPointAtOwnSource fedAgentWorkflow { name := "Agent" } requestForTool 1 secondEntry
      Dict.empty Dict.empty := by
  refine ⟨by decide, fun h => ?_⟩
  cases h _ _ _ rfl rfl with
  | cons hpoints _ => exact absurd (hpoints rfl).1 (by decide)

end N8n
