import N8n.Engine.AddNode

/-!
# What a call of `addNodeToBeExecuted` does

* `RunExecutionData.SchedulesOnly`: the frame of all scheduling: only the stack and the waiting runs
  change;
* `Receives`: which waiting run takes a delivery;
* `addToWaiting_cases`: a delivery to a node with several main inputs either completes a waiting
  run, which moves to the stack, or is kept in it;
* `failsOnly_addNodeToBeExecuted`: the errors of a delivery.
-/

namespace N8n

/-! ### The frame -/

namespace RunExecutionData

/-- Only the stack and the waiting runs differ. -/
def SchedulesOnly (st st' : RunExecutionData) : Prop :=
  st' = { st with
    nodeExecutionStack := st'.nodeExecutionStack
    waitingExecution := st'.waitingExecution
    waitingExecutionSource := st'.waitingExecutionSource }

theorem SchedulesOnly.refl (st : RunExecutionData) : st.SchedulesOnly st := rfl

theorem SchedulesOnly.trans {st₁ st₂ st₃ : RunExecutionData} (h₁ : st₁.SchedulesOnly st₂)
    (h₂ : st₂.SchedulesOnly st₃) : st₁.SchedulesOnly st₃ := by
  rw [SchedulesOnly] at h₁ h₂ ⊢
  rw [h₂, h₁]

theorem schedulesOnly_setWaiting (st : RunExecutionData) (nodeName : String)
    (data : IndexMap ITaskDataConnections) (source : IndexMap ITaskDataConnectionsSource) :
    st.SchedulesOnly (st.setWaiting nodeName data source) := rfl

theorem SchedulesOnly.runData_eq {st st' : RunExecutionData} (h : st.SchedulesOnly st') :
    st'.runData = st.runData := by
  rw [SchedulesOnly] at h
  rw [h]

/-! ### Waiting runs -/

@[simp] theorem waitingOf_setWaiting (st : RunExecutionData) (nodeName : String)
    (data : IndexMap ITaskDataConnections) (source : IndexMap ITaskDataConnectionsSource) :
    (st.setWaiting nodeName data source).waitingOf nodeName = data := by
  simp [waitingOf, setWaiting]

@[simp] theorem waitingOf_enqueue (st : RunExecutionData) (w : Workflow) (e : IExecuteData)
    (nodeName : String) : (st.enqueue w e).waitingOf nodeName = st.waitingOf nodeName := rfl

@[simp] theorem get?_setWaiting (st : RunExecutionData) (nodeName nodeName' : String)
    (data : IndexMap ITaskDataConnections) (source : IndexMap ITaskDataConnectionsSource) :
    (st.setWaiting nodeName data source).waitingExecution.get? nodeName' =
      if nodeName' = nodeName then some data else st.waitingExecution.get? nodeName' :=
  Dict.get?_set _ _ _ _

@[simp] theorem get?_eraseWaiting (st : RunExecutionData) (nodeName nodeName' : String) :
    (st.eraseWaiting nodeName).waitingExecution.get? nodeName' =
      if nodeName' = nodeName then none else st.waitingExecution.get? nodeName' :=
  Dict.get?_erase _ _ _

@[simp] theorem nodeExecutionStack_setWaiting (st : RunExecutionData) (nodeName : String)
    (data : IndexMap ITaskDataConnections) (source : IndexMap ITaskDataConnectionsSource) :
    (st.setWaiting nodeName data source).nodeExecutionStack = st.nodeExecutionStack := rfl

@[simp] theorem nodeExecutionStack_eraseWaiting (st : RunExecutionData) (nodeName : String) :
    (st.eraseWaiting nodeName).nodeExecutionStack = st.nodeExecutionStack := rfl

theorem nodeExecutionStack_enqueue_perm (st : RunExecutionData) (w : Workflow) (e : IExecuteData) :
    (st.enqueue w e).nodeExecutionStack.Perm (e :: st.nodeExecutionStack) := by
  rw [enqueue]
  split_ifs
  · exact List.perm_append_singleton _ _
  · exact List.Perm.refl _

end RunExecutionData

/-! ### The waiting run that takes a delivery -/

theorem Cell.truthy_iff (c : Cell) : c.truthy = true ↔ ∃ l, c.items? = some l := by
  cases c <;> simp [truthy, items?]

theorem Cell.items?_of_not_truthy {c : Cell} (h : c.truthy = false) : c.items? = none := by
  cases c with
  | items l => cases h
  | undefined => rfl
  | null => rfl

/-- A waiting run has data at input `i`. -/
def FilledAt (e : ITaskDataConnections) (i : ℕ) : Prop :=
  ∃ main, e.get? .main = some main ∧ (ItemLists.read main i).truthy = true

/-- Every waiting run has data at input `i`. -/
def AllFilled (waiting : IndexMap ITaskDataConnections) (i : ℕ) : Prop :=
  ∀ k e, waiting.get? k = some e → FilledAt e i

/-- Among the waiting runs of a node with `n` inputs, run `k` takes a delivery to input `i`: it
holds `e`, with the main lists `main`, and is the first one that is free there, or a new one. -/
inductive Receives (waiting : IndexMap ITaskDataConnections) (n i : ℕ) :
    ℕ → ITaskDataConnections → ItemLists → Prop
  | waiting {k : ℕ} {e : ITaskDataConnections} {main : ItemLists} (he : waiting.get? k = some e)
    (hmain : e.get? .main = some main) (hfree : (ItemLists.read main i).truthy = false)
    (hfirst : ∀ k' < k, ∀ e', waiting.get? k' = some e' → FilledAt e' i) :
    Receives waiting n i k e main
  | opened (hfull : AllFilled waiting i) :
    Receives waiting n i waiting.size (mainOnly (ItemLists.nulls n)) (ItemLists.nulls n)

variable {i k : ℕ} {e : ITaskDataConnections} {nodeName : String} {d : Delivery}
  {st : RunExecutionData} {w : Workflow}

theorem Receives.get?_main {waiting : IndexMap ITaskDataConnections} {n : ℕ} {main : ItemLists}
    (h : Receives waiting n i k e main) : e.get? .main = some main := by
  cases h with
  | waiting he hmain hfree hfirst => exact hmain
  | opened hfull => simp

/-- The search stops at the first waiting run that is free. -/
theorem findWaitingNodeIndex_eq_some {l : List (ℕ × ITaskDataConnections)}
    (hl : l.Pairwise fun e e' => e.1 < e'.1) (h : findWaitingNodeIndex i l = .ok (some k)) :
    ∃ e main, (k, e) ∈ l ∧ e.get? .main = some main ∧ (ItemLists.read main i).truthy = false ∧
      ∀ k' < k, ∀ e', (k', e') ∈ l → FilledAt e' i := by
  induction l with
  | nil => cases h
  | cons p l ih =>
    obtain ⟨k₁, e₁⟩ := p
    obtain ⟨hlt, hl⟩ := List.pairwise_cons.1 hl
    rw [findWaitingNodeIndex, Except.bind_eq_ok_iff] at h
    obtain ⟨main, hmain, h⟩ := h
    split_ifs at h with ht
    · obtain ⟨e, main', hmem, hmain', hfree, hfirst⟩ := ih hl h
      refine ⟨e, main', List.mem_cons_of_mem _ hmem, hmain', hfree, fun k' hk' e' he' => ?_⟩
      rcases List.mem_cons.1 he' with he' | he'
      · cases he'
        exact ⟨main, orTypeError_eq_ok hmain, ht⟩
      · exact hfirst k' hk' e' he'
    · cases h
      refine ⟨e₁, main, List.mem_cons_self, orTypeError_eq_ok hmain, by simpa using ht,
        fun k' hk' e' he' => ?_⟩
      rcases List.mem_cons.1 he' with he' | he'
      · cases he'
        exact absurd hk' (lt_irrefl _)
      · exact absurd hk' (hlt _ he').not_gt

theorem findWaitingNodeIndex_eq_none {l : List (ℕ × ITaskDataConnections)}
    (h : findWaitingNodeIndex i l = .ok none) (he : (k, e) ∈ l) : FilledAt e i := by
  induction l with
  | nil => cases he
  | cons p l ih =>
    obtain ⟨k', e'⟩ := p
    rw [findWaitingNodeIndex, Except.bind_eq_ok_iff] at h
    obtain ⟨main, hmain, h⟩ := h
    split_ifs at h with ht
    · rcases List.mem_cons.1 he with he | he
      · cases he
        exact ⟨main, orTypeError_eq_ok hmain, ht⟩
      · exact ih h he
    · cases h

/-- What choosing the waiting run for a delivery leaves unchanged, and what it makes sure of. -/
structure Selected (nodeName : String) (st st' : RunExecutionData) (k : ℕ)
    (e : ITaskDataConnections) : Prop where
  frame : st.SchedulesOnly st'
  stack : st'.nodeExecutionStack = st.nodeExecutionStack
  run : (st'.waitingOf nodeName).get? k = some e
  runs : ∀ k' ≠ k, (st'.waitingOf nodeName).get? k' = (st.waitingOf nodeName).get? k'
  nodes : ∀ nodeName' ≠ nodeName,
    st'.waitingExecution.get? nodeName' = st.waitingExecution.get? nodeName'

theorem selectWaitingEntry_cases {n : ℕ} {st' : RunExecutionData}
    (h : selectWaitingEntry nodeName n d st = .ok (st', k)) :
    ∃ e main, Receives (st.waitingOf nodeName) n d.index k e main ∧
      Selected nodeName st st' k e := by
  obtain ⟨st₁, hst₁⟩ : ∃ st₁, (if (st.waitingExecution.get? nodeName).isNone then
      st.setWaiting nodeName IndexMap.empty IndexMap.empty else st) = st₁ := ⟨_, rfl⟩
  have hframe : st.SchedulesOnly st₁ ∧ st₁.nodeExecutionStack = st.nodeExecutionStack ∧
      st₁.waitingOf nodeName = st.waitingOf nodeName ∧ ∀ nodeName' ≠ nodeName,
        st₁.waitingExecution.get? nodeName' = st.waitingExecution.get? nodeName' := by
    split_ifs at hst₁ with hnone
    · subst hst₁
      rw [Option.isNone_iff_eq_none] at hnone
      refine ⟨st.schedulesOnly_setWaiting _ _ _, rfl, ?_, fun nodeName' hne => by simp [hne]⟩
      rw [RunExecutionData.waitingOf_setWaiting, RunExecutionData.waitingOf, hnone, Option.getD_none]
    · subst hst₁
      exact ⟨.refl st, rfl, rfl, fun _ _ => rfl⟩
  obtain ⟨hsched, hstack, hwaiting, hnodes⟩ := hframe
  rw [selectWaitingEntry, hst₁, Except.bind_eq_ok_iff, hwaiting] at h
  obtain ⟨found, hfound, h⟩ := h
  cases found with
  | some k' =>
    cases h
    obtain ⟨e, main, hmem, hmain, hfree, hfirst⟩ :=
      findWaitingNodeIndex_eq_some (IndexMap.sorted _) hfound
    simp only [IndexMap.mem_entries_iff] at hmem hfirst
    exact ⟨e, main, .waiting hmem hmain hfree hfirst, hsched, hstack, hwaiting ▸ hmem,
      fun k' _ => by rw [hwaiting], hnodes⟩
  | none =>
    cases h
    refine ⟨_, _, .opened fun k e he => ?_, ?_⟩
    · exact findWaitingNodeIndex_eq_none hfound ((IndexMap.mem_entries_iff _ _ _).2 he)
    · refine ⟨hsched.trans (st₁.schedulesOnly_setWaiting _ _ _), hstack, ?_, fun k' hk' => ?_,
        fun nodeName' hne => ?_⟩
      · rw [prepareWaitingToExecution, RunExecutionData.waitingOf_setWaiting, hwaiting,
          IndexMap.get?_set_self]
      · rw [prepareWaitingToExecution, RunExecutionData.waitingOf_setWaiting, hwaiting,
          IndexMap.get?_set_ne _ _ hk']
      · rw [prepareWaitingToExecution, RunExecutionData.get?_setWaiting, if_neg hne,
          hnodes nodeName' hne]

theorem Selected.erase_eq {st' : RunExecutionData} (h : Selected nodeName st st' k e) :
    (st'.waitingOf nodeName).erase k = (st.waitingOf nodeName).erase k := by
  refine IndexMap.ext_get? fun k' => ?_
  rw [IndexMap.get?_erase, IndexMap.get?_erase]
  split_ifs with hk
  · rfl
  · exact h.runs k' hk

theorem Selected.set_eq {st' : RunExecutionData} (h : Selected nodeName st st' k e)
    (a : ITaskDataConnections) :
    (st'.waitingOf nodeName).set k a = (st.waitingOf nodeName).set k a := by
  refine IndexMap.ext_get? fun k' => ?_
  rw [IndexMap.get?_set, IndexMap.get?_set]
  split_ifs with hk
  · rfl
  · exact h.runs k' hk

theorem writeDelivery_eq_ok {data : ITaskDataConnections} {main : ItemLists}
    {source : ITaskDataConnectionsSource} (he : (st.waitingOf nodeName).get? k = some e)
    (hmain : e.get? .main = some main) (h : writeDelivery nodeName k d st = .ok (data, source)) :
    data = e.set .main (d.writeTo main) := by
  simp only [writeDelivery, he, orTypeError_some, Except.bind_eq_ok_iff, Except.ok.injEq] at h
  obtain ⟨_, rfl, main', hmain', _, -, _, -, h⟩ := h
  cases hmain.symm.trans (orTypeError_eq_ok hmain')
  cases h
  rfl

/-! ### Nodes that the legacy order forces to run -/

/-- The entry that forces a node to run has one empty item as its data. -/
def IExecuteData.isForced (e : IExecuteData) : Bool :=
  e.data = mainOnly [some (.items [emptyItem])]

/-- Only forced entries were added, at the end of the stack, and only in the legacy order. -/
def ForcesOnly (w : Workflow) (st st' : RunExecutionData) : Prop :=
  ∃ forced, (forced ≠ [] → w.isLegacyExecutionOrder = true) ∧
    (∀ e ∈ forced, e.isForced = true ∧ e.runIndex = none ∧ e.metadata = none) ∧
    st' = { st with nodeExecutionStack := st.nodeExecutionStack ++ forced }

theorem ForcesOnly.refl (w : Workflow) (st : RunExecutionData) : ForcesOnly w st st :=
  ⟨[], fun h => absurd rfl h, fun _ h => absurd h List.not_mem_nil, by simp⟩

theorem ForcesOnly.trans {st₁ st₂ st₃ : RunExecutionData} (h₁ : ForcesOnly w st₁ st₂)
    (h₂ : ForcesOnly w st₂ st₃) : ForcesOnly w st₁ st₃ := by
  obtain ⟨f₁, hl₁, hf₁, rfl⟩ := h₁
  obtain ⟨f₂, hl₂, hf₂, rfl⟩ := h₂
  refine ⟨f₁ ++ f₂, fun h => ?_, fun e he => ?_, by simp⟩
  · by_cases hf : f₁ = []
    · exact hl₂ fun hf' => h (by rw [hf, hf', List.append_nil])
    · exact hl₁ hf
  · exact (List.mem_append.1 he).elim (hf₁ e) (hf₂ e)

theorem addEmptyRun_forcesOnly {st' : RunExecutionData} {nodeToAdd : String}
    (hw : w.isLegacyExecutionOrder = true) (h : addEmptyRun w d st nodeToAdd = .ok st') :
    ForcesOnly w st st' := by
  rw [addEmptyRun, Except.bind_eq_ok_iff] at h
  obtain ⟨addEmptyItem, -, h⟩ := h
  rw [Except.pure_eq_ok_iff] at h
  subst h
  cases addEmptyItem with
  | false => exact .refl w st
  | true =>
    refine ⟨[_], fun _ => hw, ?_, by rw [if_pos rfl, RunExecutionData.enqueue, if_pos hw]⟩
    intro e he
    rw [List.mem_singleton.1 he]
    exact ⟨decide_eq_true rfl, rfl, rfl⟩

theorem followInputConnection_forcesOnly {checkOutputNodes : List String} {st' : RunExecutionData}
    {inputData : IConnection}
    (h : followInputConnection w d checkOutputNodes st inputData = .ok st') :
    ForcesOnly w st st' := by
  rw [followInputConnection] at h
  split_ifs at h
  · cases h
    exact .refl w st
  · simp only [Except.bind_eq_ok_iff] at h
    obtain ⟨stackNodes, -, runs, -, h⟩ := h
    split_ifs at h with hruns
    · cases h
      exact .refl w st
    · rw [Except.bind_eq_ok_iff] at h
      obtain ⟨nodeToAdd, -, h⟩ := h
      cases nodeToAdd with
      | none =>
        cases h
        exact .refl w st
      | some nodeToAdd =>
        refine addEmptyRun_forcesOnly ?_ h
        simp only [Bool.or_eq_true, Bool.not_eq_true', not_or, Bool.not_eq_false] at hruns
        exact hruns.2

theorem followInputConnections_forcesOnly {st' : RunExecutionData}
    (h : followInputConnections w nodeName d st = .ok st') : ForcesOnly w st st' := by
  rw [followInputConnections, Except.bind_eq_ok_iff] at h
  obtain ⟨outputs, -, h⟩ := h
  exact Except.foldlM_rel (ForcesOnly.refl w) (fun _ _ _ => .trans)
    (fun _ _ _ _ h => followInputConnection_forcesOnly h) h

/-! ### Deliveries -/

/-- A delivery to a node with several main inputs: the waiting run `k` that takes it is complete
and moves to the stack, or is kept. -/
inductive AddedToWaiting (w : Workflow) (nodeName : String) (d : Delivery)
    (st st' : RunExecutionData) : Prop
  | moved {k : ℕ} {e : ITaskDataConnections} {main : ItemLists}
    {source : ITaskDataConnectionsSource}
    (hrec : Receives (st.waitingOf nodeName) (w.numberOfInputs nodeName) d.index k e main)
    (hdata : allDataFound (e.set .main (d.writeTo main)) = true)
    (hstack : st'.nodeExecutionStack = (st.enqueue w
      { node := w.getNode nodeName, data := e.set .main (d.writeTo main),
        source := some source }).nodeExecutionStack)
    (hruns : st'.waitingOf nodeName = (st.waitingOf nodeName).erase k)
  | kept {k : ℕ} {e : ITaskDataConnections} {main : ItemLists} {forced : List IExecuteData}
    (hrec : Receives (st.waitingOf nodeName) (w.numberOfInputs nodeName) d.index k e main)
    (hdata : allDataFound (e.set .main (d.writeTo main)) = false)
    (hlegacy : forced ≠ [] → w.isLegacyExecutionOrder = true)
    (hforced : ∀ e ∈ forced, e.isForced = true ∧ e.runIndex = none ∧ e.metadata = none)
    (hstack : st'.nodeExecutionStack = st.nodeExecutionStack ++ forced)
    (hruns : st'.waitingOf nodeName =
      (st.waitingOf nodeName).set k (mainOnly (d.writeTo main)))

theorem removeWaiting_frame (nodeName : String) (k : ℕ) (st : RunExecutionData) :
    st.SchedulesOnly (removeWaiting nodeName k st) ∧
      (removeWaiting nodeName k st).nodeExecutionStack = st.nodeExecutionStack := by
  rw [removeWaiting]
  split_ifs <;> exact ⟨rfl, rfl⟩

theorem waitingOf_removeWaiting (nodeName : String) (k : ℕ) (st : RunExecutionData) :
    (removeWaiting nodeName k st).waitingOf nodeName = (st.waitingOf nodeName).erase k := by
  rw [removeWaiting]
  split_ifs with hsize
  · rw [IndexMap.eq_empty_of_size_eq_zero hsize, RunExecutionData.waitingOf,
      RunExecutionData.get?_eraseWaiting, if_pos rfl, Option.getD_none]
  · rw [RunExecutionData.waitingOf_setWaiting]

theorem get?_removeWaiting (nodeName : String) (k : ℕ) (st : RunExecutionData)
    {nodeName' : String} (hne : nodeName' ≠ nodeName) :
    (removeWaiting nodeName k st).waitingExecution.get? nodeName' =
      st.waitingExecution.get? nodeName' := by
  rw [removeWaiting]
  split_ifs with hsize
  · rw [RunExecutionData.get?_eraseWaiting, if_neg hne]
  · rw [RunExecutionData.get?_setWaiting, if_neg hne]

/-- What a delivery to a node with several main inputs does. -/
theorem addToWaiting_cases {st' : RunExecutionData} (h : addToWaiting w nodeName d st = .ok st') :
    AddedToWaiting w nodeName d st st' ∧ st.SchedulesOnly st' ∧ ∀ nodeName' ≠ nodeName,
      st'.waitingExecution.get? nodeName' = st.waitingExecution.get? nodeName' := by
  rw [addToWaiting, Except.bind_eq_ok_iff] at h
  obtain ⟨⟨st₁, k⟩, hsel, h⟩ := h
  obtain ⟨e, main, hrec, hs⟩ := selectWaitingEntry_cases hsel
  rw [Except.bind_eq_ok_iff] at h
  obtain ⟨⟨data, source⟩, hwrite, h⟩ := h
  cases writeDelivery_eq_ok hs.run hrec.get?_main hwrite
  simp only at h
  split_ifs at h with hall hwas
  · cases h
    obtain ⟨hframe, hstack⟩ := removeWaiting_frame nodeName k (st₁.enqueue w
      { node := w.getNode nodeName, data := e.set .main (d.writeTo main), source := some source })
    have hst : (moveToStack w nodeName k (e.set .main (d.writeTo main)) source
        st₁).nodeExecutionStack = (st.enqueue w
          { node := w.getNode nodeName
            data := e.set .main (d.writeTo main)
            source := some source }).nodeExecutionStack := by
      rw [moveToStack, hstack, RunExecutionData.enqueue, RunExecutionData.enqueue, hs.stack]
    refine ⟨.moved hrec hall hst ?_, hs.frame.trans hframe,
      fun nodeName' hne => (get?_removeWaiting _ _ _ hne).trans (hs.nodes _ hne)⟩
    rw [moveToStack, waitingOf_removeWaiting]
    exact hs.erase_eq
  all_goals
    obtain ⟨forced, hlegacy, hforced, rfl⟩ : ForcesOnly w _ st' := by
      first
        | (cases h; exact .refl w _)
        | exact followInputConnections_forcesOnly h
    refine ⟨.kept hrec (by simpa using hall) hlegacy hforced ?_ ?_, ?_, fun nodeName' hne => ?_⟩
    · rw [← hs.stack]
      rfl
    · simp only [RunExecutionData.waitingOf, RunExecutionData.get?_setWaiting, if_pos,
        Option.getD_some, Dict.get?_set_self]
      exact hs.set_eq _
    · exact hs.frame.trans rfl
    · simp only [RunExecutionData.get?_setWaiting, if_neg hne]
      exact hs.nodes _ hne

/-! ### The errors of a delivery -/

theorem failsOnly_orTypeError {α : Type} {P : JsError → Prop} (hP : P .typeError) (o : Option α) :
    (orTypeError o).FailsOnly P := by
  cases o with
  | none => exact Except.failsOnly_error hP
  | some a => exact Except.failsOnly_ok a

section Errors

variable {P : JsError → Prop} (hP : P .typeError)

include hP

theorem failsOnly_incomingConnectionIsEmpty (runData : IRunData) (l : List IConnection)
    (runIndex : ℕ) : (incomingConnectionIsEmpty runData l runIndex).FailsOnly P := by
  induction l with
  | nil => exact Except.failsOnly_ok _
  | cons c l ih =>
    rw [incomingConnectionIsEmpty]
    split
    · exact ih
    · exact ih
    · exact Except.failsOnly_error hP
    · split_ifs
      · exact Except.failsOnly_ok _
      · exact ih

theorem failsOnly_firstMainInput (w : Workflow) (nodeName : String) :
    (firstMainInput w nodeName).FailsOnly P :=
  (failsOnly_orTypeError hP _).bind fun _ _ => Except.failsOnly_ok _

theorem failsOnly_runsAnyway (w : Workflow) (d : Delivery) (checkOutputNodes stackNodes : List String)
    (runData : IRunData) (inputNode : String) :
    (runsAnyway w d checkOutputNodes stackNodes runData inputNode).FailsOnly P := by
  have hrest : (pure (decide (inputNode ∈ stackNodes) || runData.has inputNode) :
      Except JsError Bool).FailsOnly P := Except.failsOnly_ok _
  rw [runsAnyway]
  split_ifs
  · refine (failsOnly_firstMainInput hP w inputNode).bind fun l _ => ?_
    refine (failsOnly_incomingConnectionIsEmpty hP runData l d.runIndex).bind fun empty _ => ?_
    split_ifs
    · exact Except.failsOnly_ok _
    · exact hrest
  · exact hrest

theorem failsOnly_findNodeToAdd (w : Workflow) (d : Delivery)
    (checkOutputNodes stackNodes : List String) (runData : IRunData) (inputNode : String) :
    (findNodeToAdd w d checkOutputNodes stackNodes runData inputNode).FailsOnly P := by
  rw [findNodeToAdd]
  split_ifs
  · exact (failsOnly_orTypeError hP _).bind fun _ _ => Except.failsOnly_ok _
  · exact Except.failsOnly_ok _

theorem failsOnly_addEmptyRun (w : Workflow) (d : Delivery) (st : RunExecutionData)
    (nodeToAdd : String) : (addEmptyRun w d st nodeToAdd).FailsOnly P := by
  rw [addEmptyRun, needsEmptyItem]
  refine Except.FailsOnly.bind ?_ fun _ _ => Except.failsOnly_ok _
  split_ifs
  · refine (failsOnly_firstMainInput hP w nodeToAdd).bind fun l _ => ?_
    exact failsOnly_incomingConnectionIsEmpty hP st.runData l d.runIndex
  · exact Except.failsOnly_ok _

theorem failsOnly_followInputConnection (w : Workflow) (d : Delivery)
    (checkOutputNodes : List String) (st : RunExecutionData) (inputData : IConnection) :
    (followInputConnection w d checkOutputNodes st inputData).FailsOnly P := by
  rw [followInputConnection]
  split_ifs
  · exact Except.failsOnly_ok _
  · refine Except.FailsOnly.bind ?_ fun stackNodes _ => ?_
    · exact Except.FailsOnly.mapM (fun stackData => (failsOnly_orTypeError hP _).map _) _
    · refine (failsOnly_runsAnyway hP w d checkOutputNodes stackNodes _ _).bind fun runs _ => ?_
      split_ifs
      · exact Except.failsOnly_ok _
      · refine (failsOnly_findNodeToAdd hP w d _ stackNodes _ _).bind fun nodeToAdd _ => ?_
        cases nodeToAdd with
        | none => exact Except.failsOnly_ok _
        | some nodeToAdd => exact failsOnly_addEmptyRun hP w d st nodeToAdd

theorem failsOnly_findWaitingNodeIndex (i : ℕ) (l : List (ℕ × ITaskDataConnections)) :
    (findWaitingNodeIndex i l).FailsOnly P := by
  induction l with
  | nil => exact Except.failsOnly_ok _
  | cons e l ih =>
    rw [findWaitingNodeIndex]
    refine (failsOnly_orTypeError hP _).bind fun main _ => ?_
    split_ifs
    · exact ih
    · exact Except.failsOnly_ok _

theorem failsOnly_addToWaiting (w : Workflow) (nodeName : String) (d : Delivery)
    (st : RunExecutionData) : (addToWaiting w nodeName d st).FailsOnly P := by
  rw [addToWaiting]
  refine Except.FailsOnly.bind ?_ fun p _ => Except.FailsOnly.bind ?_ fun q _ => ?_
  · refine (failsOnly_findWaitingNodeIndex hP _ _).bind fun found _ => ?_
    cases found <;> exact Except.failsOnly_ok _
  · refine (failsOnly_orTypeError hP _).bind fun _ _ => ?_
    refine (failsOnly_orTypeError hP _).bind fun _ _ => ?_
    refine (failsOnly_orTypeError hP _).bind fun _ _ => ?_
    exact (failsOnly_orTypeError hP _).bind fun _ _ => Except.failsOnly_ok _
  · simp only
    split_ifs
    · exact Except.failsOnly_ok _
    · exact Except.failsOnly_ok _
    · refine (failsOnly_orTypeError hP _).bind fun outputs _ => ?_
      exact Except.FailsOnly.foldlM (failsOnly_followInputConnection hP w d _) _ _

/-- A delivery fails only when something that it reads is missing. -/
theorem failsOnly_addNodeToBeExecuted (w : Workflow) (nodeName : String) (d : Delivery)
    (st : RunExecutionData) : (addNodeToBeExecuted w nodeName d st).FailsOnly P := by
  rw [addNodeToBeExecuted]
  split_ifs
  · exact failsOnly_addToWaiting hP w nodeName d st
  · exact Except.failsOnly_ok _

end Errors

end N8n
