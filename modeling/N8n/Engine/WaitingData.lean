import N8n.Engine.AddNodeSpec
import N8n.Lib.Lts

/-!
# The data of waiting nodes

Deliveries to one node with several main inputs, in any order.

* `Held`: every item list delivered is at its input in one waiting run or in one entry of the stack;
* `FreshIndex`: a delivery that opens a new waiting run finds its index unused;
* `held_iff`: nothing is lost exactly as long as every delivery meets `FreshIndex`;
* `delivery_overwrites`: four deliveries to a node with two inputs, of which one is lost.
-/

namespace N8n

/-- The item list that the data of a run has at main input `i`. -/
def mainListAt (data : ITaskDataConnections) (i : ℕ) : Option (List INodeExecutionData) :=
  (data.get? .main).bind (ItemLists.items? · i)

/-- The item lists brought to input `i`. -/
def deliveredAt (i : ℕ) (log : List Delivery) : List (List INodeExecutionData) :=
  log.filterMap fun d => if d.index = i then d.list? else none

/-- The item lists at input `i` of the waiting runs of a node. -/
def waitingListsAt (nodeName : String) (i : ℕ) (st : RunExecutionData) :
    List (List INodeExecutionData) :=
  (st.waitingOf nodeName).entries.filterMap fun e => mainListAt e.2 i

/-- The item lists at input `i` of the entries of a list that are for a node and not forced. -/
def entryListsAt (w : Workflow) (nodeName : String) (i : ℕ) (entries : List IExecuteData) :
    List (List INodeExecutionData) :=
  entries.filterMap fun e =>
    if e.node = w.getNode nodeName ∧ e.isForced = false then mainListAt e.data i else none

/-- The item lists at input `i` of a node that the engine holds. -/
def heldAt (w : Workflow) (nodeName : String) (i : ℕ) (st : RunExecutionData) :
    List (List INodeExecutionData) :=
  waitingListsAt nodeName i st ++ entryListsAt w nodeName i st.nodeExecutionStack

/-- The engine holds at each input of the node what it held at the start and, once each, the item
lists delivered since. -/
def Held (w : Workflow) (nodeName : String) (start : RunExecutionData) (log : List Delivery)
    (st : RunExecutionData) : Prop :=
  ∀ i, (heldAt w nodeName i st).Perm (heldAt w nodeName i start ++ deliveredAt i log)

/-- The delivery goes to a waiting run whose slot is free, or no waiting run has the index of the
one that it opens. -/
def FreshIndex (nodeName : String) (st : RunExecutionData) (d : Delivery) : Prop :=
  AllFilled (st.waitingOf nodeName) d.index →
    (st.waitingOf nodeName).get? (st.waitingOf nodeName).size = none

/-- The deliveries to a node as steps of the engine. -/
abbrev DeliveryRun (w : Workflow) (nodeName : String) :
    RunExecutionData → List Delivery → RunExecutionData → Prop :=
  Lts.Run fun st d st' => addNodeToBeExecuted w nodeName d st = .ok st'

/-! ### The main lists of waiting runs -/

/-- Every waiting run has at least `n` main slots. -/
def Wide (waiting : IndexMap ITaskDataConnections) (n : ℕ) : Prop :=
  ∀ k e, waiting.get? k = some e → ∃ main, e.get? .main = some main ∧ n ≤ main.length

variable {main : ItemLists} {w : Workflow} {nodeName : String} {d : Delivery}
  {st st' : RunExecutionData}

variable {waiting : IndexMap ITaskDataConnections} {n k : ℕ} {e : ITaskDataConnections}

theorem Receives.length_le {i : ℕ} (h : Receives waiting n i k e main) (hwide : Wide waiting n) :
    n ≤ main.length := by
  cases h with
  | waiting he hmain hfree hfirst =>
    obtain ⟨main', hmain', hle⟩ := hwide _ _ he
    cases hmain.symm.trans hmain'
    exact hle
  | opened hfull => simp [ItemLists.nulls]

theorem Delivery.length_le_writeTo (d : Delivery) (main : ItemLists) :
    main.length ≤ (d.writeTo main).length := by
  rw [Delivery.writeTo, SparseArray.length_setAt]
  exact le_max_left _ _

theorem addToWaiting_wide (h : addToWaiting w nodeName d st = .ok st')
    (hwide : Wide (st.waitingOf nodeName) (w.numberOfInputs nodeName)) :
    Wide (st'.waitingOf nodeName) (w.numberOfInputs nodeName) := by
  intro k' e' he'
  cases (addToWaiting_cases h).1 with
  | moved hrec hdata hstack hruns =>
    rw [hruns, IndexMap.get?_erase] at he'
    split_ifs at he'
    exact hwide k' e' he'
  | kept hrec hdata hlegacy hforced hstack hruns =>
    rw [hruns, IndexMap.get?_set] at he'
    split_ifs at he' with hk
    · cases he'
      exact ⟨_, by simp, (hrec.length_le hwide).trans (d.length_le_writeTo _)⟩
    · exact hwide k' e' he'

/-- An entry with more than one main slot is not a forced one. -/
theorem isForced_eq_false {e : IExecuteData} (hmain : e.data.get? .main = some main)
    (hlen : 1 < main.length) : e.isForced = false := by
  refine decide_eq_false fun hforced => ?_
  rw [hforced, get?_mainOnly, if_pos rfl, Option.some.injEq] at hmain
  rw [← hmain] at hlen
  exact absurd hlen (lt_irrefl 1)

/-! ### One delivery -/

theorem mainListAt_of_main {data : ITaskDataConnections} (h : data.get? .main = some main) (i : ℕ) :
    mainListAt data i = ItemLists.items? main i := by
  rw [mainListAt, h, Option.bind_some]

theorem items?_writeTo (d : Delivery) (main : ItemLists) (i : ℕ) :
    ItemLists.items? (d.writeTo main) i =
      if i = d.index then d.list? else ItemLists.items? main i := by
  rw [Delivery.writeTo, ItemLists.items?, ItemLists.read, SparseArray.getAt_setAt]
  split_ifs <;> rfl

theorem items?_nulls (n i : ℕ) : ItemLists.items? (ItemLists.nulls n) i = none := by
  rw [ItemLists.items?, ItemLists.read, ItemLists.nulls, SparseArray.getAt_replicate]
  split_ifs <;> rfl

theorem deliveredAt_singleton (i : ℕ) (d : Delivery) :
    deliveredAt i [d] = (if i = d.index then d.list? else none).toList := by
  simp only [deliveredAt, List.filterMap_cons, List.filterMap_nil, eq_comm (a := i)]
  split_ifs <;> cases d.list? <;> rfl

/-- The slot that takes the delivery holds no list, so writing to it adds one. -/
theorem Receives.toList_writeTo (h : Receives waiting n d.index k e main) (i : ℕ) :
    (ItemLists.items? (d.writeTo main) i).toList =
      (ItemLists.items? main i).toList ++ deliveredAt i [d] := by
  have hfree : ItemLists.items? main d.index = none := by
    cases h with
    | waiting he hmain hfree hfirst => exact Cell.items?_of_not_truthy hfree
    | opened hfull => exact items?_nulls n d.index
  rw [items?_writeTo, deliveredAt_singleton]
  split_ifs with hi
  · rw [hi, hfree]
    rfl
  · simp

/-- The lists at input `i` of the waiting runs other than `k`. -/
def otherListsAt (waiting : IndexMap ITaskDataConnections) (k i : ℕ) :
    List (List INodeExecutionData) :=
  (waiting.erase k).entries.filterMap fun e => mainListAt e.2 i

/-- The lists at input `i` of the waiting runs, those of run `k` first. -/
theorem waitingListsAt_perm (nodeName : String) (i k : ℕ) (st : RunExecutionData) :
    (waitingListsAt nodeName i st).Perm
      ((((st.waitingOf nodeName).get? k).bind (mainListAt · i)).toList ++
        otherListsAt (st.waitingOf nodeName) k i) := by
  rw [waitingListsAt, otherListsAt]
  cases hk : (st.waitingOf nodeName).get? k with
  | none =>
    rw [IndexMap.entries_erase_of_none _ hk]
    exact List.Perm.refl _
  | some e =>
    refine ((IndexMap.entries_erase_perm _ hk).filterMap _).trans (List.Perm.of_eq ?_)
    rw [List.filterMap_cons, Option.bind_some]
    cases mainListAt e i <;> rfl

theorem entryListsAt_cons (w : Workflow) (nodeName : String) (i : ℕ) {e : IExecuteData}
    (hnode : e.node = w.getNode nodeName) (hmain : e.data.get? .main = some main)
    (hlen : 1 < main.length) (entries : List IExecuteData) :
    entryListsAt w nodeName i (e :: entries) =
      (ItemLists.items? main i).toList ++ entryListsAt w nodeName i entries := by
  rw [entryListsAt, List.filterMap_cons, if_pos ⟨hnode, isForced_eq_false hmain hlen⟩,
    mainListAt_of_main hmain]
  cases ItemLists.items? main i <;> rfl

theorem entryListsAt_append_forced (w : Workflow) (nodeName : String) (i : ℕ)
    {entries forced : List IExecuteData} (hforced : ∀ e ∈ forced, e.isForced = true) :
    entryListsAt w nodeName i (entries ++ forced) = entryListsAt w nodeName i entries := by
  have hnil : entryListsAt w nodeName i forced = [] :=
    List.filterMap_eq_nil_iff.2 fun e he => if_neg (by simp [hforced e he])
  rw [entryListsAt, List.filterMap_append, ← entryListsAt, ← entryListsAt, hnil, List.append_nil]

/-- What the engine holds after a delivery: the lists of the waiting run that took it, the list
delivered, and the lists of all other waiting runs and of the stack. -/
theorem addToWaiting_heldAt (hn : 1 < w.numberOfInputs nodeName)
    (hwide : Wide (st.waitingOf nodeName) (w.numberOfInputs nodeName))
    (h : addToWaiting w nodeName d st = .ok st') :
    ∃ k e main, Receives (st.waitingOf nodeName) (w.numberOfInputs nodeName) d.index k e main ∧
      ∀ i, (heldAt w nodeName i st').Perm
        ((ItemLists.items? main i).toList ++ deliveredAt i [d] ++
          (otherListsAt (st.waitingOf nodeName) k i ++
            entryListsAt w nodeName i st.nodeExecutionStack)) := by
  cases (addToWaiting_cases h).1 with
  | @moved k e main source hrec hdata hstack hruns =>
    refine ⟨k, e, main, hrec, fun i => ?_⟩
    have hlen := (hn.trans_le (hrec.length_le hwide)).trans_le (d.length_le_writeTo main)
    rw [heldAt, waitingListsAt, hruns, hstack, ← hrec.toList_writeTo]
    refine (List.Perm.append_left _ ((st.nodeExecutionStack_enqueue_perm w _).filterMap _)).trans ?_
    rw [← entryListsAt, entryListsAt_cons w nodeName i rfl (Dict.get?_set_self _ _ _) hlen,
      ← List.append_assoc, ← List.append_assoc]
    exact List.perm_append_comm.append_right _
  | @kept k e main forced hrec hdata hlegacy hforced hstack hruns =>
    refine ⟨k, e, main, hrec, fun i => ?_⟩
    have hwaiting := waitingListsAt_perm nodeName i k st'
    rw [hruns, IndexMap.get?_set_self, Option.bind_some, mainListAt_of_main (get?_mainOnly _ _),
      hrec.toList_writeTo, otherListsAt, IndexMap.erase_set, ← otherListsAt] at hwaiting
    rw [heldAt, hstack, entryListsAt_append_forced _ _ _ fun e he => (hforced e he).1,
      ← List.append_assoc]
    exact hwaiting.append_right _

/-- A delivery loses nothing exactly when it opens no waiting run at an index in use. -/
theorem addToWaiting_keeps_iff (hn : 1 < w.numberOfInputs nodeName)
    (hwide : Wide (st.waitingOf nodeName) (w.numberOfInputs nodeName))
    (h : addToWaiting w nodeName d st = .ok st') :
    (∀ i, (heldAt w nodeName i st').Perm (heldAt w nodeName i st ++ deliveredAt i [d])) ↔
      FreshIndex nodeName st d := by
  obtain ⟨k, e, main, hrec, hheld⟩ := addToWaiting_heldAt hn hwide h
  have hbefore : ∀ i, (heldAt w nodeName i st).Perm _ := fun i =>
    (waitingListsAt_perm nodeName i k st).append_right _
  cases hrec with
  | waiting he hmain hfree hfirst =>
    refine iff_of_true (fun i => (hheld i).trans ?_) fun hfull => ?_
    · refine List.Perm.trans ?_ ((hbefore i).append_right _).symm
      rw [he, Option.bind_some, mainListAt_of_main hmain, List.append_assoc, List.append_assoc,
        List.append_assoc]
      exact (List.perm_append_comm.trans (List.Perm.of_eq (List.append_assoc _ _ _))).append_left _
    · obtain ⟨main', hmain', htruthy⟩ := hfull _ _ he
      cases hmain.symm.trans hmain'
      exact absurd hfree (by simp [htruthy])
  | opened hfull =>
    simp only [items?_nulls, Option.toList_none, List.nil_append] at hheld
    constructor
    · intro hkeeps _
      -- at the input of the delivery the waiting run with the new index has a list, if it exists
      have hlen := ((hheld d.index).symm.trans (hkeeps d.index)).length_eq
      have hlen' := (hbefore d.index).length_eq
      cases hlive : (st.waitingOf nodeName).get? (st.waitingOf nodeName).size with
      | none => rfl
      | some e =>
        obtain ⟨main, hmain, htruthy⟩ := hfull _ _ hlive
        obtain ⟨items, hitems⟩ := (Cell.truthy_iff _).1 htruthy
        rw [hlive, Option.bind_some, mainListAt_of_main hmain, ItemLists.items?, hitems] at hlen'
        simp only [List.length_append, Option.length_toList, Option.isSome_some] at hlen hlen'
        simp at hlen'
        omega
    · intro hfresh i
      have hbefore := hbefore i
      rw [hfresh hfull, Option.bind_none, Option.toList_none, List.nil_append] at hbefore
      exact (hheld i).trans (List.perm_append_comm.trans (hbefore.symm.append_right _))

/-! ### Sequences of deliveries -/

theorem addNodeToBeExecuted_eq_ok (hn : 1 < w.numberOfInputs nodeName)
    (h : addNodeToBeExecuted w nodeName d st = .ok st') :
    addToWaiting w nodeName d st = .ok st' := by
  rwa [addNodeToBeExecuted, if_pos hn] at h

theorem DeliveryRun.wide {start : RunExecutionData} {log : List Delivery}
    (hn : 1 < w.numberOfInputs nodeName) (hstart : start.waitingExecution.get? nodeName = none)
    (h : DeliveryRun w nodeName start log st) :
    Wide (st.waitingOf nodeName) (w.numberOfInputs nodeName) := by
  refine Lts.Run.invariant (P := fun _ st => Wide (st.waitingOf nodeName) _) h ?_ ?_
  · intro k e he
    rw [RunExecutionData.waitingOf, hstart] at he
    cases he
  · intro pre d st₁ st₂ _ _ hstep hwide
    exact addToWaiting_wide (addNodeToBeExecuted_eq_ok hn hstep) hwide

theorem deliveredAt_append (i : ℕ) (log log' : List Delivery) :
    deliveredAt i (log ++ log') = deliveredAt i log ++ deliveredAt i log' :=
  List.filterMap_append

/-- **Every list delivered stays held, once, throughout a sequence of deliveries exactly when no
delivery of the sequence opens a waiting run at an index in use.** -/
theorem held_iff (w : Workflow) (nodeName : String) (hn : 1 < w.numberOfInputs nodeName)
    (start : RunExecutionData) (hstart : start.waitingExecution.get? nodeName = none)
    (deliveries : List Delivery) :
    (∀ log st, log <+: deliveries → DeliveryRun w nodeName start log st →
        Held w nodeName start log st) ↔
      ∀ log d st st', log ++ [d] <+: deliveries → DeliveryRun w nodeName start log st →
        addNodeToBeExecuted w nodeName d st = .ok st' → FreshIndex nodeName st d := by
  refine Lts.forall_prefix_iff deliveries (fun i => ?_) ?_
  · simp [deliveredAt]
  · intro log d st st' hrun hstep hheld
    rw [← addToWaiting_keeps_iff hn (DeliveryRun.wide hn hstart hrun)
      (addNodeToBeExecuted_eq_ok hn hstep)]
    refine forall_congr' fun i => ?_
    rw [deliveredAt_append, ← List.append_assoc]
    have := (hheld i).symm.append_right (deliveredAt i [d])
    exact ⟨fun h => h.trans this, fun h => h.trans this.symm⟩

/-- The workflow in which `A` and `B` feed the two inputs of `M`. -/
def mergeWorkflow : Workflow :=
  ((Workflow.blank (some .v1)).setNodes [{ name := "A" }, { name := "B" }, { name := "M" }]).setConnections
    ((Dict.empty.set "A" (mainOnly [some [⟨"M", .main, 0⟩]])).set "B"
      (mainOnly [some [⟨"M", .main, 1⟩]]))

/-- A delivery of one item to an input of `M`. -/
def mergeDelivery (parentNodeName : String) (index runIndex : ℕ) : Delivery where
  index := index
  outputIndex := 0
  parentNodeName := parentNodeName
  nodeSuccessData := some [some (.items [{ json := [("run", .num runIndex)] }])]
  runIndex := runIndex

theorem held_iff_merge :
    (∀ log st, log <+: [mergeDelivery "A" 0 0, mergeDelivery "B" 1 0] →
        DeliveryRun mergeWorkflow "M" {} log st → Held mergeWorkflow "M" {} log st) ↔
      ∀ log d st st', log ++ [d] <+: [mergeDelivery "A" 0 0, mergeDelivery "B" 1 0] →
        DeliveryRun mergeWorkflow "M" {} log st →
        addNodeToBeExecuted mergeWorkflow "M" d st = .ok st' → FreshIndex "M" st d :=
  held_iff mergeWorkflow "M" (by decide) {} rfl _

/-- `A` delivers twice, `B` completes the first waiting run, and the next delivery of `A` overwrites
the second one. -/
theorem delivery_overwrites :
    1 < mergeWorkflow.numberOfInputs "M" ∧ ∃ st, DeliveryRun mergeWorkflow "M" {}
      [mergeDelivery "A" 0 0, mergeDelivery "A" 0 1, mergeDelivery "B" 1 0, mergeDelivery "A" 0 2]
        st ∧
      ¬Held mergeWorkflow "M" {} [mergeDelivery "A" 0 0, mergeDelivery "A" 0 1,
        mergeDelivery "B" 1 0, mergeDelivery "A" 0 2] st := by
  refine ⟨by decide, _, Lts.run_iff_foldlM.2 rfl, fun h => ?_⟩
  exact absurd (h 0).length_eq (by decide)

end N8n
