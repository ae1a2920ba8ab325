import N8n.Engine.LoopEnd
import N8n.Lib.Walks
import Mathlib.Algebra.Order.BigOperators.Group.List

/-!
# The loop terminates

In the order `v1`, for a workflow whose main connections are acyclic and nodes that make no requests.

* `pending`: the work that is left, a weight of the stack and of the waiting runs;
* `turn_pending_lt`: every turn lowers it;
* `Provided`: an entry that is not sent back for want of input data;
* `loop_terminates`: the loop makes a bounded number of turns and never stops as endless;
* `entry_without_main_is_endless`: without `Provided` it may.
-/

namespace N8n

/-! ### The work that is left -/

/-- The nodes that the main outputs of a node lead to. -/
def mainChildren (w : Workflow) (nodeName : String) : List String :=
  (mainOutputs w nodeName).map fun c => c.2.node

/-- The weight of the stack and of the waiting runs together. -/
def pending (W : String → ℕ) (run : RunExecutionData) : ℕ := stackWeight W run + waitingWeight W run

variable {w : Workflow} {nodeName : String} {env : Environment} {e e' : IExecuteData}
  {st st' : RunExecutionData}

theorem entryWeight_getNode_le (W : String → ℕ) (e : IExecuteData)
    (h : e.node = w.getNode nodeName) : entryWeight W e ≤ W nodeName := by
  rw [entryWeight, h]
  cases hnode : w.getNode nodeName with
  | none => exact Nat.zero_le _
  | some n => rw [Option.map_some, Option.getD_some, w.nodes_name nodeName n hnode]

theorem stackWeight_enqueue (W : String → ℕ) (st : RunExecutionData) (w : Workflow)
    (e : IExecuteData) : stackWeight W (st.enqueue w e) = entryWeight W e + stackWeight W st := by
  rw [stackWeight, stackWeight]
  simpa using ((st.nodeExecutionStack_enqueue_perm w e).map (entryWeight W)).sum_nat

section Scheduling

variable {w : Workflow} {W : String → ℕ}

theorem addToStack_pending_le (nodeName : String) (d : Delivery) (st : RunExecutionData) :
    pending W (addToStack w nodeName d st) ≤ pending W st + W nodeName := by
  rw [addToStack]
  split
  · exact Nat.le_add_right _ _
  · rename_i n hn
    have hle := entryWeight_getNode_le W (d.entry n) hn.symm
    rw [pending, pending, stackWeight_enqueue]
    show _ + stackWeight W st + waitingWeight W st ≤ _
    omega

variable {nodeName : String} {st st' : RunExecutionData}

theorem addToWaiting_pending_le (hv1 : w.executionOrder = some .v1) {d : Delivery}
    (h : addToWaiting w nodeName d st = .ok st') : pending W st' ≤ pending W st + W nodeName := by
  obtain ⟨hadded, -, hothers⟩ := addToWaiting_cases h
  cases hadded with
  | @moved k e main source hrec hdata hstack hruns =>
    have hwaiting := waitingWeight_le (W := W) (j := 0) hothers
      (by rw [hruns]; exact List.length_filter_le _ _)
    have hentry := stackWeight_enqueue W st w
      { node := w.getNode nodeName, data := e.set .main (d.writeTo main), source := some source }
    rw [stackWeight, ← hstack, ← stackWeight] at hentry
    have hle := entryWeight_getNode_le W
      { node := w.getNode nodeName, data := e.set .main (d.writeTo main), source := some source }
      (rfl : _ = w.getNode nodeName)
    rw [pending, pending]
    omega
  | @kept k e main forced hrec hdata hlegacy hforced hstack hruns =>
    have hnil : forced = [] := by
      by_contra hne
      have hlegacy := hlegacy hne
      simp [Workflow.isLegacyExecutionOrder, hv1] at hlegacy
    have hwaiting := waitingWeight_le (W := W) (j := 1) hothers
      (by rw [hruns]; exact IndexMap.size_set_le _ _ _)
    rw [hnil, List.append_nil] at hstack
    rw [pending, pending, stackWeight, hstack, ← stackWeight]
    omega

theorem addNodeToBeExecuted_pending_le (hv1 : w.executionOrder = some .v1) {d : Delivery}
    (h : addNodeToBeExecuted w nodeName d st = .ok st') :
    pending W st' ≤ pending W st + W nodeName := by
  rw [addNodeToBeExecuted] at h
  split_ifs at h
  · exact addToWaiting_pending_le hv1 h
  · cases h
    exact addToStack_pending_le nodeName d st

/-- The connections taken are among those that leave the node. -/
theorem nodesToAdd_perm_filter (w : Workflow) (nodeName : String) (lists : ItemLists) :
    (nodesToAdd w nodeName lists).Perm
      ((mainOutputs w nodeName).filter fun c => hasOutput w lists c.1 c.2) := by
  rw [nodesToAdd]
  simp only
  split_ifs
  · exact List.perm_insertionSort _ _
  · exact List.Perm.refl _

theorem sum_filter_le {α : Type} (f : α → ℕ) (p : α → Bool) (l : List α) :
    ((l.filter p).map f).sum ≤ (l.map f).sum :=
  List.Sublist.sum_le_sum (List.filter_sublist.map f) fun _ _ => Nat.zero_le _

/-- The children of a node weigh no more than all nodes it leads to. -/
theorem addChildren_pending_le (hv1 : w.executionOrder = some .v1) {runIndex : ℕ}
    {lists : ItemLists} (h : addChildren w nodeName runIndex lists st = .ok st') :
    pending W st' ≤ pending W st + ((mainChildren w nodeName).map W).sum := by
  rw [addChildren] at h
  split_ifs at h
  have hadded : pending W st' ≤
      pending W st + ((nodesToAdd w nodeName lists).map fun c => W c.2.node).sum :=
    Except.foldlM_le_add_sum (fun _ _ _ h => addNodeToBeExecuted_pending_le hv1 h) h
  have hperm := ((nodesToAdd_perm_filter w nodeName lists).map fun c => W c.2.node).sum_nat
  have hfilter := sum_filter_le (fun c : ℕ × IConnection => W c.2.node)
    (fun c => hasOutput w lists c.1 c.2) (mainOutputs w nodeName)
  rw [mainChildren, List.map_map]
  exact hadded.trans (Nat.add_le_add_left (hperm.le.trans hfilter) _)

theorem took_pending_le {env : Environment}
    (h : Took env st (.push st') ∨ Took env st (.remove st')) : pending W st' ≤ pending W st := by
  rcases h with h | h
  · cases h with
    | @push nodeName k data e hrun hnode hmain hindex hmeta =>
      have hwaiting : waitingWeight W (removeWaiting nodeName k
          { st with nodeExecutionStack := st.nodeExecutionStack ++ [e] }) + W nodeName =
          waitingWeight W st := waitingWeight_removeWaiting W hrun
      have hle := entryWeight_getNode_le W e hnode
      rw [pending, pending, stackWeight, (removeWaiting_frame _ _ _).2, List.map_append,
        List.sum_append, ← stackWeight, List.map_singleton, List.sum_singleton]
      omega
  · cases h with
    | @remove nodeName k data hrun =>
      have hwaiting := waitingWeight_removeWaiting W hrun
      rw [pending, pending, stackWeight, (removeWaiting_frame _ _ _).2, ← stackWeight]
      omega

theorem drain_pending_le {env : Environment} (h : drain env st = .ok st') :
    pending W st' ≤ pending W st :=
  (drain_cases (P := fun run => pending W run ≤ pending W st)
    (fun _ _ htook hle => (took_pending_le htook).trans hle) le_rfl h).1

end Scheduling

/-! ### One turn -/

/-- No call of `runNode` returns a request. -/
def Behaviour.NeverRequests (b : Behaviour) : Prop := ∀ request, ¬b.May (.request request)

theorem RunExecutionData.TriesOnly.pending_eq {run run' : RunExecutionData} (W : String → ℕ)
    (h : run.TriesOnly run') : pending W run' = pending W run := by
  rw [TriesOnly] at h
  rw [h]
  rfl

/-- A turn that does not send its entry back lowers the work that is left. -/
theorem turn_pending_lt (hv1 : env.workflow.executionOrder = some .v1) {W : String → ℕ}
    (hW : ∀ a, W a = 1 + ((mainChildren env.workflow a).map W).sum) {b : Behaviour}
    (hb : b.NeverRequests) {st st' : LoopState} {rest : List IExecuteData} {node : INode}
    {k : IterationEnd} (hstack : st.run.nodeExecutionStack = e :: rest)
    (hpaired : updatePairedItems e = .ok e') (hnode : e'.node = some node)
    (h : Turned env b st e' node rest st' k) (hk : k ≠ .deferred) :
    pending W st'.run < pending W st.run := by
  have hpopped : pending W (st.popped rest) + W node.name = pending W st.run := by
    obtain ⟨data, rfl⟩ := updatePairedItems_eq_ok hpaired
    have hentry : entryWeight W e = W node.name := by
      rw [entryWeight, show e.node = some node from hnode]
      rfl
    rw [pending, pending, stackWeight, stackWeight, hstack, List.map_cons, List.sum_cons, hentry]
    show (rest.map (entryWeight W)).sum + waitingWeight W st.run + _ = _
    omega
  have htried : ∀ s j, runTries env b node (runIndexOf e' node st.run.runData) e' (maxTriesOf node) 0
      { run := st.popped rest, rewireOutputLogTo := st.rewireOutputLogTo } = (s, j) →
      pending W s.run = pending W (st.popped rest) := by
    intro s j htries
    have hcases := runTries_cases (P := fun run => pending W run = pending W (st.popped rest))
      (fun run run' htries h => (htries.pending_eq W).trans h)
      (fun request _ _ _ _ _ hmay => absurd hmay (hb request)) htries rfl
    rcases hcases with ⟨hs, -⟩ | ⟨-, request, _, _, hmay, -⟩
    · exact hs
    · exact absurd hmay (hb request)
  have hnodeW := hW node.name
  cases h with
  | skipped hfilter hrun =>
    rw [hrun]
    omega
  | deferred => exact absurd rfl hk
  | left htries hrun =>
    rw [hrun, htried _ _ htries]
    omega
  | @concluded s k htries hend =>
    have hs := htried _ _ htries
    have hrecord : ∀ lists taskData, pending W (recordSuccess node
        (runIndexOf e' node st.run.runData) lists taskData s.rewireOutputLogTo s.run) =
        pending W s.run := fun _ _ => rfl
    cases hend with
    | destinationReached hstatus hrun =>
      rw [hrun, hrecord]
      omega
    | completed hstatus hchildren hdrain =>
      have hadded := addChildren_pending_le (W := W) hv1 hchildren
      have hdrained := drain_pending_le (W := W) hdrain
      rw [hrecord] at hadded
      omega

/-! ### Entries with input data -/

/-- The check of its input data does not send the entry back to the stack. -/
def Provided (w : Workflow) (e : IExecuteData) : Prop :=
  ∀ node, e.node = some node → ensureInputData w node e (w.numberOfInputs node.name) 0 ≠ .ok false

/-- In the order `v1` an entry with main lists is not sent back. -/
theorem ensureInputData_of_main (hv1 : w.executionOrder = some .v1) (node : INode)
    (hmain : (e.data.get? .main).isSome = true) (n i : ℕ) :
    ensureInputData w node e n i ≠ .ok false := by
  obtain ⟨main, hmain⟩ := Option.isSome_iff_exists.1 hmain
  induction n generalizing i with
  | zero => simp [ensureInputData]
  | succ n ih =>
    rw [ensureInputData]
    intro h
    obtain ⟨highestNodes, -, h⟩ := Except.bind_eq_ok_iff.1 h
    simp only [hmain, Workflow.isLegacyExecutionOrder, hv1] at h
    split_ifs at h with hnone hlegacy
    · cases h
    · simp at hlegacy
    · exact ih (i + 1) h

theorem Provided.of_main (hv1 : w.executionOrder = some .v1)
    (hmain : (e.data.get? .main).isSome = true) : Provided w e :=
  fun node _ => ensureInputData_of_main hv1 node hmain _ _

/-- Without main lists the check does not look at the data. -/
theorem ensureInputData_congr (node : INode) (h : e.data.get? .main = none)
    (h' : e'.data.get? .main = none) (n i : ℕ) :
    ensureInputData w node e n i = ensureInputData w node e' n i := by
  cases n with
  | zero => rfl
  | succ n => simp only [ensureInputData, h, h']

/-- Rewriting the origins of the items keeps the connection types. -/
theorem get?_updatePairedItems_isSome (h : updatePairedItems e = .ok e') (t : NodeConnectionType) :
    (e'.data.get? t).isSome = (e.data.get? t).isSome := by
  have hfold : ∀ (l : List (NodeConnectionType × ItemLists)) (data data' : ITaskDataConnections),
      l.foldlM (fun data p => do return data.set p.1 (← updateInputs e 0 p.2)) data = .ok data' →
      ((data'.get? t).isSome ↔ (data.get? t).isSome ∨ t ∈ l.map Prod.fst) := by
    intro l
    induction l with
    | nil =>
      intro data data' h
      cases h
      simp
    | cons p l ih =>
      intro data data' h
      rw [List.foldlM_cons, Except.bind_eq_ok_iff] at h
      obtain ⟨data₁, h₁, h₂⟩ := h
      obtain ⟨lists, -, h₁⟩ := Except.bind_eq_ok_iff.1 h₁
      cases h₁
      rw [ih _ _ h₂, Dict.get?_set, List.map_cons, List.mem_cons]
      split_ifs with ht
      · simp [ht]
      · simp [ht]
  rw [updatePairedItems, Except.bind_eq_ok_iff] at h
  obtain ⟨data, hdata, h⟩ := h
  cases h
  have := hfold e.data.entries Dict.empty data hdata
  rw [← Dict.keys, Dict.mem_keys_iff] at this
  rw [Bool.eq_iff_iff, this]
  simp

theorem Provided.updatePairedItems (hv1 : w.executionOrder = some .v1) (hprovided : Provided w e)
    (h : updatePairedItems e = .ok e') : Provided w e' := by
  have hkeep := get?_updatePairedItems_isSome h .main
  cases hmain : e.data.get? .main with
  | some main =>
    refine .of_main hv1 ?_
    rw [hkeep, hmain]
    rfl
  | none =>
    intro node hnode
    rw [hmain, Option.isSome_none, Option.isSome_eq_false_iff, Option.isNone_iff_eq_none] at hkeep
    obtain ⟨data, rfl⟩ := updatePairedItems_eq_ok h
    rw [← ensureInputData_congr node hmain hkeep]
    exact hprovided node hnode

/-- Every entry of the stack is provided. -/
def AllProvided (w : Workflow) (run : RunExecutionData) : Prop :=
  ∀ e ∈ run.nodeExecutionStack, Provided w e

theorem AllProvided.enqueue (hv1 : w.executionOrder = some .v1) {run : RunExecutionData}
    (h : AllProvided w run) (hmain : (e.data.get? .main).isSome = true) :
    AllProvided w (run.enqueue w e) := by
  intro e' he'
  rcases List.mem_cons.1 ((run.nodeExecutionStack_enqueue_perm w e).mem_iff.1 he') with rfl | he'
  · exact .of_main hv1 hmain
  · exact h e' he'

theorem addNodeToBeExecuted_allProvided (hv1 : w.executionOrder = some .v1) {d : Delivery}
    (h : addNodeToBeExecuted w nodeName d st = .ok st') (hst : AllProvided w st) :
    AllProvided w st' := by
  rw [addNodeToBeExecuted] at h
  split_ifs at h
  · cases (addToWaiting_cases h).1 with
    | moved hrec hdata hstack hruns =>
      intro e he
      rw [hstack] at he
      exact hst.enqueue hv1 (by simp) e he
    | kept hrec hdata hlegacy hforced hstack hruns =>
      intro e he
      rw [hstack] at he
      rcases List.mem_append.1 he with he | he
      · exact hst e he
      · refine .of_main hv1 ?_
        rw [of_decide_eq_true (hforced e he).1]
        simp
  · cases h
    rw [addToStack]
    split
    · exact hst
    · exact hst.enqueue hv1 (by simp [Delivery.entry])

theorem addChildren_allProvided (hv1 : w.executionOrder = some .v1) {runIndex : ℕ}
    {lists : ItemLists} (h : addChildren w nodeName runIndex lists st = .ok st')
    (hst : AllProvided w st) : AllProvided w st' := by
  rw [addChildren] at h
  split_ifs at h
  exact Except.foldlM_rel (R := fun st st' => AllProvided w st → AllProvided w st') (fun _ h => h)
    (fun _ _ _ h₁ h₂ h => h₂ (h₁ h)) (fun _ _ _ _ h => addNodeToBeExecuted_allProvided hv1 h) h hst

theorem drain_allProvided (hv1 : env.workflow.executionOrder = some .v1)
    (h : drain env st = .ok st') (hst : AllProvided env.workflow st) :
    AllProvided env.workflow st' := by
  refine (drain_cases (P := AllProvided env.workflow) (fun run run' htook hrun => ?_) hst h).1
  rcases htook with htook | htook
  · cases htook with
    | push hrun' hnode hmain =>
      intro e he
      rw [(removeWaiting_frame _ _ _).2] at he
      rcases List.mem_append.1 he with he | he
      · exact hrun e he
      · rw [List.mem_singleton.1 he]
        exact .of_main hv1 hmain
  · cases htook with
    | remove hrun' =>
      intro e he
      rw [(removeWaiting_frame _ _ _).2] at he
      exact hrun e he

/-! ### Whole runs -/

/-- The loop remembers no try, and no entry of the stack will be sent back. -/
structure Progressing (w : Workflow) (st : LoopState) : Prop where
  provided : AllProvided w st.run
  lastExecutionTry : st.lastExecutionTry = ""

/-- A turn of a progressing loop does not send its entry back, and the loop is progressing after it. -/
theorem turn_progressing (hv1 : env.workflow.executionOrder = some .v1) {b : Behaviour}
    (hb : b.NeverRequests) {st st' : LoopState} {k : IterationEnd} (h : Turn env st (b, k) st')
    (hst : Progressing env.workflow st) : k ≠ .deferred ∧ Progressing env.workflow st' := by
  obtain ⟨e, rest, e', node, hstack, hpaired, hnode, hturned⟩ := turn_cases h
  have hpopped : AllProvided env.workflow (st.popped rest) := fun e he =>
    hst.provided e (hstack ▸ List.mem_cons_of_mem _ he)
  have hprovided := (hst.provided e (hstack ▸ List.mem_cons_self)).updatePairedItems hv1 hpaired
  have htried : ∀ s j, runTries env b node (runIndexOf e' node st.run.runData) e' (maxTriesOf node) 0
      { run := st.popped rest, rewireOutputLogTo := st.rewireOutputLogTo } = (s, j) →
      AllProvided env.workflow s.run ∧ (j = none ∨ j = some .noData) := by
    intro s j htries
    have hcases := runTries_cases (P := AllProvided env.workflow)
      (fun run run' htries h => ?_) (fun request _ _ _ _ _ hmay => absurd hmay (hb request)) htries
      hpopped
    · rcases hcases with hs | ⟨-, request, _, _, hmay, -⟩
      · exact hs.imp_right fun hj => hj.imp_right And.left
      · exact absurd hmay (hb request)
    · rw [RunExecutionData.TriesOnly] at htries
      rw [htries]
      exact h
  cases hturned with
  | skipped hfilter hrun htry => exact ⟨by decide, hrun ▸ hpopped, htry.trans hst.lastExecutionTry⟩
  | deferred hinput => exact absurd hinput (hprovided node hnode)
  | left htries hrun htry =>
    obtain ⟨hs, hk⟩ := htried _ _ htries
    refine ⟨?_, hrun ▸ hs, htry.trans hst.lastExecutionTry⟩
    rintro rfl
    simp at hk
  | concluded htries hend htry =>
    obtain ⟨hs, -⟩ := htried _ _ htries
    cases hend with
    | destinationReached hstatus hrun => exact ⟨by decide, hrun ▸ hs, htry.trans hst.lastExecutionTry⟩
    | completed hstatus hchildren hdrain =>
      refine ⟨by decide, ?_, htry.trans hst.lastExecutionTry⟩
      exact drain_allProvided hv1 hdrain (addChildren_allProvided hv1 hchildren hs)

theorem finite_mainChildren (w : Workflow) : {a | mainChildren w a ≠ []}.Finite := by
  refine (List.finite_toSet w.connectionsBySourceNode.keys).subset fun a ha => ?_
  rw [Set.mem_ofPred_eq, Dict.mem_keys_iff]
  by_contra hnone
  rw [Bool.not_eq_true, Option.isSome_eq_false_iff, Option.isNone_iff_eq_none] at hnone
  exact ha (by simp [mainChildren, mainOutputs, hnone])

theorem currentExecutionTry_ne_empty (node : INode) (runIndex : ℕ) :
    currentExecutionTry node runIndex ≠ "" := by
  intro h
  have := congrArg String.length h
  simp [currentExecutionTry] at this

/-- **In the order `v1`, with acyclic main connections, nodes that make no requests and a stack whose
entries have their input data, the loop makes a bounded number of turns and never stops as endless.** -/
theorem loop_terminates {env : Environment} (hv1 : env.workflow.executionOrder = some .v1)
    (hacyclic : Acyclic (mainChildren env.workflow)) {start : LoopState}
    (hlast : start.lastExecutionTry = "")
    (hprovided : ∀ e ∈ start.run.nodeExecutionStack, Provided env.workflow e) :
    ∃ N, ∀ turns st, LoopRun env start turns st → (∀ a ∈ turns, a.1.NeverRequests) →
      turns.length ≤ N ∧ ∀ b, iterate env b st ≠ .error endlessLoop := by
  obtain ⟨W, hW⟩ := hacyclic.exists_weight (finite_mainChildren env.workflow)
  refine ⟨pending W start.run, fun turns st hrun hturns => ?_⟩
  have hprogress : ∀ pre st₁, pre <+: turns → LoopRun env start pre st₁ →
      Progressing env.workflow st₁ := by
    intro pre st₁ hpre hrun₁
    refine Lts.Run.invariant (P := fun _ st => Progressing env.workflow st) hrun₁
      ⟨hprovided, hlast⟩ fun pre' a s₁ s₂ hp _ hturn hs₁ => ?_
    have ha : a ∈ turns := (hp.trans hpre).subset (List.mem_append_right _ List.mem_cons_self)
    exact (turn_progressing hv1 (hturns a ha) hturn hs₁).2
  constructor
  · refine le_trans (Nat.le_add_right _ _) (hrun.length_le (m := fun st => pending W st.run) ?_)
    intro pre a s₁ s₂ hp hrun₁ hturn
    have ha : a ∈ turns := hp.subset (List.mem_append_right _ List.mem_cons_self)
    have hs₁ := hprogress pre s₁ ((List.prefix_append _ _).trans hp) hrun₁
    obtain ⟨e, rest, e', node, hstack, hpaired, hnode, hturned⟩ := turn_cases hturn
    exact turn_pending_lt hv1 hW (hturns a ha) hstack hpaired hnode hturned
      (turn_progressing hv1 (hturns a ha) hturn hs₁).1
  · intro b hendless
    obtain ⟨node, runIndex, htry⟩ := iterate_eq_endlessLoop hendless
    rw [(hprogress turns st (List.prefix_refl _) hrun).lastExecutionTry] at htry
    exact currentExecutionTry_ne_empty node runIndex htry

theorem returnsItem_neverRequests : returnsItem.NeverRequests := by
  rintro request ⟨i, call, h⟩
  cases h

theorem acyclic_of_keys (rank : String → ℕ)
    (h : ∀ a ∈ w.connectionsBySourceNode.keys, ∀ b ∈ mainChildren w a, rank a < rank b) :
    Acyclic (mainChildren w) := by
  refine Acyclic.of_rank rank fun a b hb => h a ?_ b hb
  by_contra hkey
  rw [Dict.mem_keys_iff, Bool.not_eq_true, Option.isSome_eq_false_iff,
    Option.isNone_iff_eq_none] at hkey
  simp [mainChildren, mainOutputs, hkey] at hb

theorem loop_terminates_destination : ∃ N st,
    LoopRun (plainEnvironment destinationWorkflow) destinationStart
      [(returnsItem, .completed), (returnsItem, .completed), (returnsItem, .destinationReached)] st ∧
    3 ≤ N ∧ iterate (plainEnvironment destinationWorkflow) returnsItem st ≠ .error endlessLoop := by
  have hprovided : ∀ e ∈ destinationStart.run.nodeExecutionStack,
      Provided (plainEnvironment destinationWorkflow).workflow e := by
    intro e he
    rw [List.mem_singleton.1 he]
    exact .of_main rfl rfl
  obtain ⟨N, hN⟩ := @loop_terminates (plainEnvironment destinationWorkflow) rfl
    (acyclic_of_keys (fun n => ["T", "A", "X", "M", "D"].idxOf n) (by decide)) destinationStart rfl
    hprovided
  obtain ⟨st, hrun⟩ : ∃ st, LoopRun (plainEnvironment destinationWorkflow) destinationStart
      [(returnsItem, .completed), (returnsItem, .completed), (returnsItem, .destinationReached)] st :=
    ⟨_, (((Lts.Run.nil _).snoc ⟨rfl, rfl⟩).snoc ⟨rfl, rfl⟩).snoc ⟨rfl, rfl⟩⟩
  have hbehaviours : ∀ a ∈ [(returnsItem, IterationEnd.completed), (returnsItem, .completed),
      (returnsItem, .destinationReached)], a.1.NeverRequests := by
    intro a ha
    simp only [List.mem_cons, List.not_mem_nil, or_false] at ha
    rcases ha with rfl | rfl | rfl <;> exact returnsItem_neverRequests
  obtain ⟨hlength, hendless⟩ := hN _ st hrun hbehaviours
  exact ⟨N, st, hrun, hlength, hendless returnsItem⟩

/-- `A` feeds `B`. -/
def chainWorkflow : Workflow := mainWorkflow ["A", "B"] [("A", [("B", 0)])]

/-- The start of an execution whose only entry, for `B`, has no main lists. -/
def mainlessStart : LoopState where
  run := { nodeExecutionStack := [{ node := some { name := "B" }, data := Dict.empty }] }

/-- The entry is sent back in the first turn, and the second one stops as endless. -/
theorem entry_without_main_is_endless :
    chainWorkflow.executionOrder = some .v1 ∧ Acyclic (mainChildren chainWorkflow) ∧
      returnsItem.NeverRequests ∧ (∀ i call, (returnsItem.runNode i call).waitTill = false) ∧
      ∃ st, LoopRun (plainEnvironment chainWorkflow) mainlessStart [(returnsItem, .deferred)] st ∧
        iterate (plainEnvironment chainWorkflow) returnsItem st = .error endlessLoop := by
  refine ⟨rfl, ?_, returnsItem_neverRequests, fun _ _ => rfl, _, (Lts.Run.nil _).snoc ⟨rfl, rfl⟩, rfl⟩
  exact acyclic_of_keys (fun n => ["A", "B"].idxOf n) (by decide)

end N8n
