import N8n.Engine.RecreateStackSpec
import N8n.Engine.WaitingData

/-!
# Waiting runs that were rebuilt

A waiting run of a full execution has a `null` for every input without data; one that
`recreateNodeExecutionStack` makes has holes there, and ends at its last input with data.

* `WaitsForAll`: a waiting run moves to the stack only when all inputs of its node have data;
* `waitsForAll_iff`: a rebuilt one does so exactly when at most one input is missing, or when no
  delivery gets to it;
* `rebuilt_run_moves_early`: a node with three inputs that runs with two of them.
-/

namespace N8n

/-- The call delivers an item list to one of the main inputs of the node. -/
def Delivery.Brings (w : Workflow) (nodeName : String) (d : Delivery) : Prop :=
  d.index < w.numberOfInputs nodeName ∧ ∃ l, d.cell = .items l

/-- Waiting run `k` of the node leaves to the stack with the given data. -/
structure MovesRun (w : Workflow) (nodeName : String) (k : ℕ) (st st' : RunExecutionData)
    (data : ITaskDataConnections) : Prop where
  waiting : ((st.waitingOf nodeName).get? k).isSome
  gone : (st'.waitingOf nodeName).get? k = none
  stack : ∃ source, st'.nodeExecutionStack = (st.enqueue w
    { node := w.getNode nodeName, data := data, source := source }).nodeExecutionStack

/-- In every sequence of deliveries waiting run `k` of the node moves to the stack only with data at
all main inputs. -/
def WaitsForAll (w : Workflow) (nodeName : String) (k : ℕ) (start : RunExecutionData) : Prop :=
  ∀ log d st st' data, (∀ d' ∈ log ++ [d], d'.Brings w nodeName) →
    DeliveryRun w nodeName start log st → addNodeToBeExecuted w nodeName d st = .ok st' →
    MovesRun w nodeName k st st' data →
    ∀ i < w.numberOfInputs nodeName, ∃ l, mainListAt data i = some l

/-! ### Slots -/

theorem read_writeTo (d : Delivery) (main : ItemLists) (i : ℕ) :
    ItemLists.read (d.writeTo main) i = if i = d.index then d.cell else ItemLists.read main i :=
  read_setAt main d.index i d.cell

theorem read_nulls (n i : ℕ) :
    ItemLists.read (ItemLists.nulls n) i = if i < n then .null else .undefined := by
  rw [ItemLists.read, ItemLists.nulls, SparseArray.getAt_replicate]
  split_ifs <;> rfl

variable {data e : ITaskDataConnections} {main : ItemLists} {n i k k' : ℕ} {d : Delivery}
  {w : Workflow} {nodeName : String} {st start : RunExecutionData}

theorem allDataFound_iff (h : data.get? .main = some main) :
    allDataFound data = true ↔ ∀ i, ItemLists.read main i ≠ .null := by
  rw [allDataFound, h, Option.getD_some, List.all_eq_true]
  constructor
  · intro hall i hi
    cases hcell : SparseArray.getAt main i with
    | none =>
      rw [ItemLists.read, hcell] at hi
      cases hi
    | some c =>
      rw [ItemLists.read, hcell, Option.getD_some] at hi
      subst hi
      have hmem := List.mem_filterMap.1 ((SparseArray.mem_present_iff main _).2 ⟨i, hcell⟩)
      obtain ⟨x, hx, rfl⟩ := hmem
      exact of_decide_eq_true (hall _ hx) rfl
  · intro hread x hx
    refine decide_eq_true fun hnull => ?_
    subst hnull
    obtain ⟨i, hi⟩ := (SparseArray.mem_present_iff main _).1 (List.mem_filterMap.2 ⟨_, hx, rfl⟩)
    exact hread i (by rw [ItemLists.read, hi, Option.getD_some])

theorem mainListAt_iff (h : data.get? .main = some main) (i : ℕ) :
    (∃ l, mainListAt data i = some l) ↔ (ItemLists.read main i).truthy = true := by
  rw [mainListAt_of_main h, Cell.truthy_iff]
  rfl

/-- A slot that is neither `undefined` nor `null` has data. -/
theorem Cell.truthy_of_ne {c : Cell} (h : c ≠ .undefined) (h' : c ≠ .null) : c.truthy = true := by
  cases c with
  | undefined => exact absurd rfl h
  | null => exact absurd rfl h'
  | items l => rfl

/-- A waiting run with a written slot for each of `n` inputs. -/
def Awaiting (n : ℕ) (e : ITaskDataConnections) : Prop :=
  ∃ main, e.get? .main = some main ∧ ∀ i < n, ItemLists.read main i ≠ .undefined

/-- A waiting run without `null`. -/
def NullFree (e : ITaskDataConnections) : Prop :=
  ∀ main, e.get? .main = some main → ∀ i, ItemLists.read main i ≠ .null

theorem awaiting_nulls (n : ℕ) : Awaiting n (mainOnly (ItemLists.nulls n)) :=
  ⟨ItemLists.nulls n, get?_mainOnly _ _, fun i hi => by simp [read_nulls, hi]⟩

theorem Awaiting.writeTo (h : Awaiting n e) (hmain : e.get? .main = some main)
    (hd : ∃ l, d.cell = .items l) : ∀ i < n, ItemLists.read (d.writeTo main) i ≠ .undefined := by
  obtain ⟨main', hmain', hread⟩ := h
  cases hmain.symm.trans hmain'
  obtain ⟨l, hl⟩ := hd
  intro i hi
  rw [read_writeTo]
  split_ifs
  · simp [hl]
  · exact hread i hi

/-- A delivery of items completes a waiting run without `null`. -/
theorem NullFree.complete (h : NullFree e) (hmain : e.get? .main = some main)
    (hd : ∃ l, d.cell = .items l) : allDataFound (e.set .main (d.writeTo main)) = true := by
  obtain ⟨l, hl⟩ := hd
  refine (allDataFound_iff (Dict.get?_set_self _ _ _)).2 fun i => ?_
  rw [read_writeTo]
  split_ifs
  · simp [hl]
  · exact h main hmain i

/-! ### When it waits -/

/-- Every waiting run is as at the start or has a slot for each input. -/
def OldOrAwaiting (n : ℕ) (start waiting : IndexMap ITaskDataConnections) : Prop :=
  ∀ k e, waiting.get? k = some e → start.get? k = some e ∨ Awaiting n e

theorem Receives.oldOrAwaiting {start waiting : IndexMap ITaskDataConnections}
    (h : Receives waiting n i k e main) (hold : OldOrAwaiting n start waiting) :
    start.get? k = some e ∨ Awaiting n e := by
  cases h with
  | waiting he hmain hfree hfirst => exact hold k e he
  | opened hfull => exact Or.inr (awaiting_nulls n)

theorem addToWaiting_oldOrAwaiting {st' : RunExecutionData}
    {start : IndexMap ITaskDataConnections} (hfree : ∀ k e, start.get? k = some e → NullFree e)
    (hd : ∃ l, d.cell = .items l) (h : addToWaiting w nodeName d st = .ok st')
    (hold : OldOrAwaiting (w.numberOfInputs nodeName) start (st.waitingOf nodeName)) :
    OldOrAwaiting (w.numberOfInputs nodeName) start (st'.waitingOf nodeName) := by
  intro k' e' he'
  cases (addToWaiting_cases h).1 with
  | moved hrec hdata hstack hruns =>
    rw [hruns, IndexMap.get?_erase] at he'
    split_ifs at he'
    exact hold k' e' he'
  | @kept k e main forced hrec hdata hlegacy hforced hstack hruns =>
    rw [hruns, IndexMap.get?_set] at he'
    split_ifs at he' with hk
    · cases he'
      rcases hrec.oldOrAwaiting hold with hstart | hawait
      · rw [(hfree k e hstart).complete hrec.get?_main hd] at hdata
        cases hdata
      · exact Or.inr ⟨_, by simp, hawait.writeTo hrec.get?_main hd⟩
    · exact hold k' e' he'

/-- The entry that a run moves to the stack is the waiting run with the delivery. -/
theorem MovesRun.receives {st' : RunExecutionData} (hmoves : MovesRun w nodeName k st st' data)
    (h : addToWaiting w nodeName d st = .ok st') :
    ∃ e main, Receives (st.waitingOf nodeName) (w.numberOfInputs nodeName) d.index k e main ∧
      data = e.set .main (d.writeTo main) ∧ allDataFound data = true := by
  obtain ⟨e₀, he₀⟩ := Option.isSome_iff_exists.1 hmoves.waiting
  have hgone := hmoves.gone
  cases (addToWaiting_cases h).1 with
  | @moved k₁ e main source hrec hdata hstack hruns =>
    obtain rfl : k = k₁ := by
      by_contra hk
      rw [hruns, IndexMap.get?_erase, if_neg hk, he₀] at hgone
      cases hgone
    obtain ⟨source', hstack'⟩ := hmoves.stack
    rw [hstack, RunExecutionData.enqueue, RunExecutionData.enqueue] at hstack'
    have hdata' : data = e.set .main (d.writeTo main) := by
      simp only at hstack'
      split_ifs at hstack' with hlegacy
      · have := List.append_cancel_left hstack'
        simp only [List.cons.injEq, IExecuteData.mk.injEq] at this
        exact this.1.2.1.symm
      · simp only [List.cons.injEq, IExecuteData.mk.injEq] at hstack'
        exact hstack'.1.2.1.symm
    exact ⟨e, main, hrec, hdata', hdata' ▸ hdata⟩
  | @kept k₁ e main forced hrec hdata hlegacy hforced hstack hruns =>
    rw [hruns, IndexMap.get?_set, he₀] at hgone
    split_ifs at hgone

/-- At most one of `n` inputs has no data. -/
def OneMissing (n : ℕ) (hasData : ℕ → Prop) : Prop :=
  ∀ i j, i < n → j < n → ¬hasData i → ¬hasData j → i = j

theorem waitsForAll_of_oneMissing (hn : 1 < w.numberOfInputs nodeName)
    (hfree : ∀ k e, (start.waitingOf nodeName).get? k = some e → NullFree e)
    (hone : ∀ e main, (start.waitingOf nodeName).get? k = some e → e.get? .main = some main →
      OneMissing (w.numberOfInputs nodeName) fun i => (ItemLists.read main i).truthy = true) :
    WaitsForAll w nodeName k start := by
  intro log d st st' data hbrings hrun hstep hmoves i hi
  have hold : OldOrAwaiting (w.numberOfInputs nodeName) (start.waitingOf nodeName)
      (st.waitingOf nodeName) := by
    refine Lts.Run.invariant (P := fun _ st => OldOrAwaiting (w.numberOfInputs nodeName)
      (start.waitingOf nodeName) (st.waitingOf nodeName)) hrun (fun _ _ he => Or.inl he)
      fun pre d' st₁ st₂ hpre _ hstep hold => ?_
    have hd' := (hbrings d' (List.mem_append_left _ (hpre.subset (by simp)))).2
    exact addToWaiting_oldOrAwaiting hfree hd' (addNodeToBeExecuted_eq_ok hn hstep) hold
  obtain ⟨hindex, l, hl⟩ := hbrings d (by simp)
  obtain ⟨e, main, hrec, rfl, hall⟩ := hmoves.receives (addNodeToBeExecuted_eq_ok hn hstep)
  have hset : (e.set .main (d.writeTo main)).get? .main = some (d.writeTo main) :=
    Dict.get?_set_self _ _ _
  rw [mainListAt_iff hset]
  rcases hrec.oldOrAwaiting hold with hstart | hawait
  · rw [read_writeTo]
    split_ifs with hi'
    · rw [hl]
      rfl
    · cases hrec with
      | waiting he hmain hfree' hfirst =>
        by_contra hmissing
        exact hi' (hone e main hstart hmain i d.index hi hindex hmissing (by simp [hfree']))
      | opened hfull =>
        refine absurd (hfree _ _ hstart _ (get?_mainOnly _ _) 0) (not_not.2 ?_)
        rw [read_nulls, if_pos (by omega)]
  · exact Cell.truthy_of_ne (hawait.writeTo hrec.get?_main ⟨l, hl⟩ i hi)
      ((allDataFound_iff hset).1 hall i)

/-- A waiting run without main lists is never passed by the search for a free one. -/
theorem Receives.lt_of_no_main {waiting : IndexMap ITaskDataConnections}
    {e' : ITaskDataConnections} (h : Receives waiting n i k e main)
    (he' : waiting.get? k' = some e') (hmain' : e'.get? .main = none) : k < k' := by
  have hnot : ¬FilledAt e' i := by
    rintro ⟨main', hmain, -⟩
    rw [hmain'] at hmain
    cases hmain
  cases h with
  | waiting he hmain hfree hfirst =>
    rcases Nat.lt_trichotomy k k' with hlt | rfl | hgt
    · exact hlt
    · cases he.symm.trans he'
      rw [hmain'] at hmain
      cases hmain
    · exact absurd (hfirst k' hgt e' he') hnot
  | opened hfull => exact absurd (hfull k' e' he') hnot

theorem waitsForAll_of_no_main (hk : k' ≤ k) (hn : 1 < w.numberOfInputs nodeName)
    {e' : ITaskDataConnections} (he' : (start.waitingOf nodeName).get? k' = some e')
    (hmain' : e'.get? .main = none) : WaitsForAll w nodeName k start := by
  intro log d st st' data _ hrun hstep hmoves
  have hstays : (st.waitingOf nodeName).get? k' = some e' := by
    refine Lts.Run.invariant (P := fun _ st => (st.waitingOf nodeName).get? k' = some e') hrun he'
      fun pre d' st₁ st₂ _ _ hstep hst₁ => ?_
    cases (addToWaiting_cases (addNodeToBeExecuted_eq_ok hn hstep)).1 with
    | moved hrec hdata hstack hruns =>
      rw [hruns, IndexMap.get?_erase, if_neg (hrec.lt_of_no_main hst₁ hmain').ne', hst₁]
    | kept hrec hdata hlegacy hforced hstack hruns =>
      rw [hruns, IndexMap.get?_set, if_neg (hrec.lt_of_no_main hst₁ hmain').ne', hst₁]
  obtain ⟨e, main, hrec, -⟩ := hmoves.receives (addNodeToBeExecuted_eq_ok hn hstep)
  exact absurd (hrec.lt_of_no_main hstays hmain') hk.not_gt

/-! ### When it does not wait -/

theorem exists_findWaitingNodeIndex {l : List (ℕ × ITaskDataConnections)}
    (hl : l.Pairwise fun e e' => e.1 < e'.1) (he : (k, e) ∈ l) (hmain : e.get? .main = some main)
    (hfree : (ItemLists.read main i).truthy = false)
    (hmains : ∀ k' < k, ∀ e', (k', e') ∈ l → (e'.get? .main).isSome) :
    ∃ k' ≤ k, findWaitingNodeIndex i l = .ok (some k') := by
  induction l with
  | nil => cases he
  | cons p l ih =>
    obtain ⟨k₁, e₁⟩ := p
    obtain ⟨hlt, hl⟩ := List.pairwise_cons.1 hl
    rcases List.mem_cons.1 he with heq | he
    · cases heq
      refine ⟨k, le_rfl, ?_⟩
      rw [findWaitingNodeIndex, hmain]
      exact Except.bind_eq_ok_iff.2 ⟨main, rfl, by rw [if_neg (by simp [hfree])]; rfl⟩
    · have hk₁ : k₁ < k := hlt _ he
      obtain ⟨main₁, hmain₁⟩ := Option.isSome_iff_exists.1 (hmains k₁ hk₁ e₁ List.mem_cons_self)
      rw [findWaitingNodeIndex, hmain₁]
      by_cases ht : (ItemLists.read main₁ i).truthy = true
      · obtain ⟨k', hk', hfind⟩ := ih hl he fun k' hk' e' he' =>
          hmains k' hk' e' (List.mem_cons_of_mem _ he')
        exact ⟨k', hk', Except.bind_eq_ok_iff.2 ⟨main₁, rfl, by rw [if_pos ht]; exact hfind⟩⟩
      · exact ⟨k₁, hk₁.le, Except.bind_eq_ok_iff.2 ⟨main₁, rfl, by rw [if_neg ht]; rfl⟩⟩

/-- A delivery that completes the waiting run it goes to. -/
theorem addToWaiting_eq_moveToStack {s : ITaskDataConnectionsSource}
    {sourceMain : SparseArray (Option ISourceData)}
    (hfind : findWaitingNodeIndex d.index (st.waitingOf nodeName).entries = .ok (some k))
    (he : (st.waitingOf nodeName).get? k = some e) (hmain : e.get? .main = some main)
    (hs : (st.waitingSourceOf nodeName).get? k = some s) (hsource : s.get? .main = some sourceMain)
    (hall : allDataFound (e.set .main (d.writeTo main)) = true) :
    addToWaiting w nodeName d st = .ok (moveToStack w nodeName k (e.set .main (d.writeTo main))
      (s.set .main (SparseArray.setAt sourceMain d.index d.source)) st) := by
  have hsome : (st.waitingExecution.get? nodeName).isNone = false := by
    rw [Option.isNone_eq_false_iff]
    by_contra hnone
    rw [Option.not_isSome_iff_eq_none] at hnone
    rw [RunExecutionData.waitingOf, hnone] at he
    cases he
  have hsel : selectWaitingEntry nodeName (w.numberOfInputs nodeName) d st = .ok (st, k) := by
    rw [selectWaitingEntry, hsome]
    exact Except.bind_eq_ok_iff.2 ⟨some k, hfind, rfl⟩
  have hwrite : writeDelivery nodeName k d st = .ok (e.set .main (d.writeTo main),
      s.set .main (SparseArray.setAt sourceMain d.index d.source)) := by
    rw [writeDelivery, he, hs, orTypeError_some]
    exact Except.bind_eq_ok_iff.2 ⟨e, rfl, Except.bind_eq_ok_iff.2 ⟨main, by rw [hmain]; rfl,
      Except.bind_eq_ok_iff.2 ⟨s, rfl, Except.bind_eq_ok_iff.2 ⟨sourceMain, by rw [hsource]; rfl,
        rfl⟩⟩⟩⟩
  rw [addToWaiting]
  refine Except.bind_eq_ok_iff.2 ⟨(st, k), hsel, Except.bind_eq_ok_iff.2 ⟨_, hwrite, ?_⟩⟩
  simp only [hall, if_true]
  rfl

/-- The waiting runs up to `k` have main lists without `null`, and their sources. -/
structure Rebuilt (nodeName : String) (k : ℕ) (st : RunExecutionData) : Prop where
  main : ∀ k' ≤ k, ∀ e, (st.waitingOf nodeName).get? k' = some e →
    NullFree e ∧ (e.get? .main).isSome
  source : ∀ k' ≤ k, ((st.waitingOf nodeName).get? k').isSome →
    ∃ s, (st.waitingSourceOf nodeName).get? k' = some s ∧ (s.get? .main).isSome

theorem get?_waitingSourceOf_removeWaiting (hk : k' ≠ k)
    (h : ((st.waitingOf nodeName).get? k').isSome) :
    ((removeWaiting nodeName k st).waitingSourceOf nodeName).get? k' =
      (st.waitingSourceOf nodeName).get? k' := by
  have hsize : ((st.waitingOf nodeName).erase k).size ≠ 0 := fun hsize => by
    have hnone := congrArg (·.get? k') (IndexMap.eq_empty_of_size_eq_zero hsize)
    simp only [IndexMap.get?_erase, if_neg hk, IndexMap.get?_empty] at hnone
    rw [hnone] at h
    cases h
  rw [removeWaiting]
  simp only [if_neg hsize]
  rw [RunExecutionData.waitingSourceOf, RunExecutionData.setWaiting, Option.getD_some,
    Dict.get?_set_self, Option.getD_some, IndexMap.get?_erase, if_neg hk]

theorem waitingOf_moveToStack (w : Workflow) (nodeName : String) (k : ℕ)
    (data : ITaskDataConnections) (source : ITaskDataConnectionsSource) (st : RunExecutionData) :
    (moveToStack w nodeName k data source st).waitingOf nodeName =
      (st.waitingOf nodeName).erase k :=
  waitingOf_removeWaiting nodeName k _

theorem movesRun_moveToStack (w : Workflow) (nodeName : String) (data : ITaskDataConnections)
    (source : ITaskDataConnectionsSource) (he : (st.waitingOf nodeName).get? k = some e) :
    MovesRun w nodeName k st (moveToStack w nodeName k data source st) data where
  waiting := by rw [he]; rfl
  gone := by rw [waitingOf_moveToStack, IndexMap.get?_erase, if_pos rfl]
  stack := ⟨some source, (removeWaiting_frame nodeName k _).2⟩

/-- Waiting runs that moved before `k` leave the others rebuilt. -/
theorem Rebuilt.moveToStack {k₁ : ℕ} {source : ITaskDataConnectionsSource}
    (h : Rebuilt nodeName k st) :
    Rebuilt nodeName k (N8n.moveToStack w nodeName k₁ data source st) := by
  have hget : ∀ k' e, ((N8n.moveToStack w nodeName k₁ data source st).waitingOf nodeName).get? k' =
      some e → k' ≠ k₁ ∧ (st.waitingOf nodeName).get? k' = some e := by
    intro k' e he
    rw [waitingOf_moveToStack, IndexMap.get?_erase] at he
    split_ifs at he with hk'
    exact ⟨hk', he⟩
  refine ⟨fun k' hk' e he => h.main k' hk' e (hget k' e he).2, fun k' hk' hsome => ?_⟩
  obtain ⟨e, he⟩ := Option.isSome_iff_exists.1 hsome
  obtain ⟨hne, he⟩ := hget k' e he
  obtain ⟨s, hs, hmain⟩ := h.source k' hk' (by rw [he]; rfl)
  refine ⟨s, ?_, hmain⟩
  rw [N8n.moveToStack, get?_waitingSourceOf_removeWaiting hne
    (by rw [RunExecutionData.waitingOf_enqueue, he]; rfl)]
  exact hs

/-- A delivery of an empty item list. -/
def emptyDelivery (i : ℕ) : Delivery where
  index := i
  outputIndex := 0
  parentNodeName := ""
  nodeSuccessData := some [some (.items [])]
  runIndex := 0

theorem emptyDelivery_brings (h : i < w.numberOfInputs nodeName) :
    (emptyDelivery i).Brings w nodeName := ⟨h, [], rfl⟩

/-- From a rebuilt waiting run with two missing inputs a delivery to one of them, sooner or later,
moves it to the stack without the other. -/
theorem not_waitsForAll {j : ℕ} (hn : 1 < w.numberOfInputs nodeName)
    (hi : i < w.numberOfInputs nodeName) (hj : j < w.numberOfInputs nodeName) (hij : i ≠ j)
    (hmain : e.get? .main = some main) (hfree : (ItemLists.read main i).truthy = false)
    (hmissing : (ItemLists.read main j).truthy = false) (hstart : Rebuilt nodeName k start)
    (he : (start.waitingOf nodeName).get? k = some e) : ¬WaitsForAll w nodeName k start := by
  intro hwaits
  have hbrings := emptyDelivery_brings hi
  -- the waiting runs before `k` that are free at `i` leave one after the other
  suffices h : ∀ n log st, (st.waitingOf nodeName).size = n →
      (∀ d ∈ log, d.Brings w nodeName) → DeliveryRun w nodeName start log st →
      Rebuilt nodeName k st → (st.waitingOf nodeName).get? k = some e → False from
    h _ [] start rfl (fun _ h => absurd h List.not_mem_nil) (.nil start) hstart he
  intro n
  induction n using Nat.strongRecOn with
  | _ n ih =>
    intro log st hsize hlog hrun hst he
    obtain ⟨k₁, hk₁, hfind⟩ := exists_findWaitingNodeIndex (st.waitingOf nodeName).sorted
      ((IndexMap.mem_entries_iff _ _ _).2 he) hmain hfree fun k' hk' e' he' =>
        (hst.main k' hk'.le e' ((IndexMap.mem_entries_iff _ _ _).1 he')).2
    obtain ⟨e₁, main₁, hmem, hmain₁, -, -⟩ :=
      findWaitingNodeIndex_eq_some (st.waitingOf nodeName).sorted hfind
    rw [IndexMap.mem_entries_iff] at hmem
    obtain ⟨s, hs, hsource⟩ := hst.source k₁ hk₁ (by rw [hmem]; rfl)
    obtain ⟨sourceMain, hsource⟩ := Option.isSome_iff_exists.1 hsource
    have hstep := addToWaiting_eq_moveToStack (w := w) (d := emptyDelivery i) hfind hmem hmain₁ hs
      hsource ((hst.main k₁ hk₁ e₁ hmem).1.complete hmain₁ ⟨[], rfl⟩)
    have hadd : addNodeToBeExecuted w nodeName (emptyDelivery i) st = .ok _ :=
      (if_pos hn).trans hstep
    rcases Nat.lt_or_eq_of_le hk₁ with hlt | rfl
    · refine ih _ ?_ _ _ rfl (List.forall_mem_append.2 ⟨hlog, ?_⟩) (hrun.snoc hadd) hst.moveToStack
        ?_
      · rw [waitingOf_moveToStack, ← hsize, ← IndexMap.size_erase _ hmem]
        exact Nat.lt_succ_self _
      · exact List.forall_mem_singleton.2 hbrings
      · rw [waitingOf_moveToStack, IndexMap.get?_erase, if_neg hlt.ne', he]
    · cases he.symm.trans hmem
      cases hmain.symm.trans hmain₁
      have hmoves := movesRun_moveToStack w nodeName (e.set .main ((emptyDelivery i).writeTo main))
        (s.set .main (SparseArray.setAt sourceMain i (emptyDelivery i).source)) hmem
      have hlist := hwaits log _ st _ _
        (List.forall_mem_append.2 ⟨hlog, List.forall_mem_singleton.2 hbrings⟩) hrun hadd hmoves j hj
      rw [mainListAt_iff (Dict.get?_set_self _ _ _), read_writeTo,
        if_neg (show j ≠ (emptyDelivery i).index from Ne.symm hij), hmissing] at hlist
      cases hlist

/-! ### The exact condition -/

/-- **A rebuilt waiting run** moves to the stack only with data at all `n` main inputs of its node
exactly when the group it was made from lacks data for at most one of them, or when this group or an
earlier one of the node has data for connections of other types only: a delivery that gets to such a
waiting run fails. -/
theorem waitsForAll_iff {localeCompare : String → String → ℤ} {graph : DirectedGraph}
    {startNodes : List INode} {runData : IRunData} {pinData : IPinData} {r : RecreatedStack}
    (hnodup : startNodes.Nodup)
    (hr : recreateNodeExecutionStack localeCompare graph startNodes runData pinData = .ok r)
    {startNode : INode} (hstart : startNode ∈ startNodes) (w : Workflow)
    (hn : 1 < w.numberOfInputs startNode.name) (st : RunExecutionData) (k : ℕ)
    (hk : (((r.resume st).waitingOf startNode.name).get? k).isSome) :
    ∃ groups g, sourceGroupsOf localeCompare graph runData pinData startNode = .ok groups ∧
      (waitingGroups runData groups)[k]? = some g ∧
      (WaitsForAll w startNode.name k (r.resume st) ↔
        OneMissing (w.numberOfInputs startNode.name) (InputHasData runData g.connections) ∨
          ∃ k' ≤ k, ∃ g', (waitingGroups runData groups)[k']? = some g' ∧
            ∀ i, ¬InputHasData runData g'.connections i) := by
  obtain ⟨groups, hgroups, hrebuilt⟩ := recreateNodeExecutionStack_rebuilt hnodup hr hstart
  have hlt : k < (waitingGroups runData groups).length := by
    by_contra hle
    have hnone := (hrebuilt.none k (not_lt.1 hle)).1
    rw [show ((r.resume st).waitingOf startNode.name).get? k = none from hnone] at hk
    cases hk
  obtain ⟨e, s, he, hs, hentry⟩ := hrebuilt.run k _ (List.getElem?_eq_getElem hlt)
  refine ⟨groups, _, hgroups, List.getElem?_eq_getElem hlt, ?_⟩
  -- the waiting runs of the node are those of the groups
  have hruns : ∀ k' e', ((r.resume st).waitingOf startNode.name).get? k' = some e' →
      ∃ g' s', (waitingGroups runData groups)[k']? = some g' ∧
        ((r.resume st).waitingSourceOf startNode.name).get? k' = some s' ∧
        RebuiltEntry runData g'.connections e' s' := by
    intro k' e' he'
    have hlt' : k' < (waitingGroups runData groups).length := by
      by_contra hle
      cases he'.symm.trans (hrebuilt.none k' (not_lt.1 hle)).1
    obtain ⟨e₁, s₁, he₁, hs₁, hentry₁⟩ := hrebuilt.run k' _ (List.getElem?_eq_getElem hlt')
    cases he'.symm.trans he₁
    exact ⟨_, s₁, List.getElem?_eq_getElem hlt', hs₁, hentry₁⟩
  have hfree : ∀ k' e', ((r.resume st).waitingOf startNode.name).get? k' = some e' → NullFree e' :=
    fun k' e' he' => (hruns k' e' he').elim fun _ h => h.elim fun _ h => h.2.2.notNull
  constructor
  · intro hwaits
    by_contra hnot
    rw [not_or] at hnot
    obtain ⟨hmissing, hmains⟩ := hnot
    simp only [OneMissing, not_forall] at hmissing
    obtain ⟨i, j, hi, hj, hmi, hmj, hij⟩ := hmissing
    have hmain : ∀ k' ≤ k, ∀ e', ((r.resume st).waitingOf startNode.name).get? k' = some e' →
        (e'.get? .main).isSome := by
      intro k' hk' e' he'
      obtain ⟨g', s', hg', -, hentry'⟩ := hruns k' e' he'
      rw [hentry'.main_iff]
      by_contra hnone
      exact hmains ⟨k', hk', g', hg', fun i hi => hnone ⟨i, hi⟩⟩
    have hsources : Rebuilt startNode.name k (r.resume st) := by
      refine ⟨fun k' hk' e' he' => ⟨hfree k' e' he', hmain k' hk' e' he'⟩, fun k' hk' hsome => ?_⟩
      obtain ⟨e', he'⟩ := Option.isSome_iff_exists.1 hsome
      obtain ⟨g', s', -, hs', hentry'⟩ := hruns k' e' he'
      exact ⟨s', hs', hentry'.source (hmain k' hk' e' he')⟩
    obtain ⟨main, hmaine⟩ := Option.isSome_iff_exists.1 (hmain k le_rfl e he)
    refine not_waitsForAll hn hi hj hij hmaine ?_ ?_ hsources he hwaits
    · rw [← Bool.not_eq_true, hentry.filled main hmaine]
      exact hmi
    · rw [← Bool.not_eq_true, hentry.filled main hmaine]
      exact hmj
  · rintro (hone | ⟨k', hk', g', hg', hnone⟩)
    · refine waitsForAll_of_oneMissing hn hfree fun e' main he' hmain' => ?_
      cases he'.symm.trans he
      intro i j hi hj hmi hmj
      refine hone i j hi hj ?_ ?_
      · rwa [← hentry.filled main hmain']
      · rwa [← hentry.filled main hmain']
    · obtain ⟨e', s', he', -, hentry'⟩ := hrebuilt.run k' g' hg'
      refine waitsForAll_of_no_main hk' hn he' ?_
      rw [← Option.not_isSome_iff_eq_none, hentry'.main_iff]
      exact fun ⟨i, hi⟩ => hnone i hi

/-- The order of the texts themselves, which agrees with any collation on equal texts. -/
def compareText (a b : String) : ℤ := if a = b then 0 else if a < b then -1 else 1

/-- The connections that bring the given nodes, one after the other, to the inputs of `M`. -/
def inputsOfM (names : List String) : List GraphConnection :=
  names.zipIdx.map fun (name, i) => ⟨{ name := name }, { name := "M" }, .main, 0, i⟩

/-- The graph in which the given nodes feed the inputs of `M`. -/
def graphOfM (names : List String) : Except JsError DirectedGraph :=
  (DirectedGraph.empty.addNodes (({ name := "M" } : INode) :: names.map fun name =>
    { name := name })).addConnections (inputsOfM names)

/-- The workflow in which the given nodes feed the inputs of `M`. -/
def workflowOfM (names : List String) : Workflow :=
  ((Workflow.blank (some .v1)).setNodes (({ name := "M" } : INode) :: names.map fun name =>
    { name := name })).setConnections (names.zipIdx.foldl (fun connections (name, i) =>
      connections.set name (mainOnly [some [⟨"M", .main, i⟩]])) Dict.empty)

/-- The run data in which `A` ran and returned an item. -/
def runDataOfA : IRunData :=
  Dict.empty.set "A" [{ data := some (mainOnly [some (.items [emptyItem])]) }]

theorem waitsForAll_iff_merge : ∃ graph r, graphOfM ["A", "B"] = .ok graph ∧
    recreateNodeExecutionStack compareText graph [{ name := "M" }] runDataOfA Dict.empty = .ok r ∧
    ∃ groups g,
      sourceGroupsOf compareText graph runDataOfA Dict.empty { name := "M" } = .ok groups ∧
      (waitingGroups runDataOfA groups)[0]? = some g ∧
      (WaitsForAll (workflowOfM ["A", "B"]) "M" 0 (r.resume {}) ↔
        OneMissing ((workflowOfM ["A", "B"]).numberOfInputs "M")
            (InputHasData runDataOfA g.connections) ∨
          ∃ k' ≤ 0, ∃ g', (waitingGroups runDataOfA groups)[k']? = some g' ∧
            ∀ i, ¬InputHasData runDataOfA g'.connections i) :=
  ⟨_, _, rfl, rfl, waitsForAll_iff (List.nodup_singleton { name := "M" }) rfl
    (List.mem_singleton_self _) (workflowOfM ["A", "B"]) (by decide) {} 0 (by decide)⟩

/-- `M` has three inputs and `A` ran: when `B` delivers, `M` is moved to the stack although `C`
did not. -/
theorem rebuilt_run_moves_early : ∃ graph r, graphOfM ["A", "B", "C"] = .ok graph ∧
    recreateNodeExecutionStack compareText graph [{ name := "M" }] runDataOfA Dict.empty = .ok r ∧
    (((r.resume {}).waitingOf "M").get? 0).isSome ∧
    ¬WaitsForAll (workflowOfM ["A", "B", "C"]) "M" 0 (r.resume {}) := by
  refine ⟨_, _, rfl, rfl, by decide, fun hwaits => ?_⟩
  have hbrings : ∀ d ∈ [] ++ [emptyDelivery 1], d.Brings (workflowOfM ["A", "B", "C"]) "M" :=
    List.forall_mem_singleton.2 (emptyDelivery_brings (by decide))
  have hlist := hwaits [] (emptyDelivery 1) _ _ _ hbrings (.nil _) rfl
    (movesRun_moveToStack _ "M" _ _ rfl) 2 (by decide)
  exact absurd (Option.isSome_iff_exists.2 hlist) (by decide)

end N8n
