import N8n.Redaction.FullItemRedaction

/-!
# What redaction hides

* `items_apply`: every item is redacted as often as the run data refers to it;
* `DifferOnlyInPayload`: two executions with other json, binary data, error texts or remaining
  fields on the same items and errors;
* `AgreeOnKept`, `view_apply_eq_iff`: when a reader of the results cannot tell the two apart.
-/

namespace N8n

namespace Redaction

/-! ### The items after a redaction -/

/-- Redact the items of a list in place, one after the other. -/
def redactAll (reason : String) (items : List ℕ) (m : Memory) : Memory :=
  { m with item := items.foldl (redactAt reason) m.item }

variable (reason : String)

theorem redactAll_append (items items' : List ℕ) (m : Memory) :
    redactAll reason (items ++ items') m = redactAll reason items' (redactAll reason items m) := by
  simp [redactAll, List.foldl_append]

/-- A loop whose turns redact lists of items redacts the items of all turns. -/
theorem foldl_redactAll {A : Type} {reason : String} {turn : Memory → A → Memory}
    {items : A → List ℕ} (h : ∀ m x, turn m x = redactAll reason (items x) m) (l : List A)
    (m : Memory) : l.foldl turn m = redactAll reason (l.flatMap items) m := by
  induction l generalizing m with
  | nil => rfl
  | cons x l ih => rw [List.foldl_cons, ih, h, List.flatMap_cons, redactAll_append]

theorem redactConnections_eq (connections : ITaskDataConnections ℕ) (reason : String) (m : Memory) :
    redactConnections connections reason m =
      redactAll reason (ITaskDataConnections.items connections) m := by
  refine foldl_redactAll (fun m outputs => foldl_redactAll (fun m items => ?_) outputs m) _ m
  cases items with
  | none => rfl
  | some items => simp [redactAll]

theorem redactTaskItems_eq (m : Memory) (t : ITaskData ℕ ℕ) :
    redactTaskItems reason m t = redactAll reason t.items m := by
  rw [ITaskData.items, redactAll_append, redactTaskItems]
  cases t.data <;> cases t.inputOverride <;> simp [redactConnections_eq] <;> rfl

variable {runData : IRunData ℕ ℕ}

/-- Every item is redacted as often as the run data refers to it. -/
theorem items_apply {execution : RedactableExecution}
    (h : execution.data.resultData.runData = some runData) (context : RedactionContext) (r : ℕ) :
    (apply execution context).memory.item r =
      (redactItem context.reason)^[(IRunData.items runData).count r]
        (execution.memory.item r) := by
  have hm : (apply execution context).memory =
      redactAll context.reason (IRunData.items runData) execution.memory := by
    simp only [apply, h]
    exact foldl_redactAll (fun m tasks => foldl_redactAll (redactTaskItems_eq _) tasks m) _ _
  rw [hm]
  exact foldl_update_apply _ _ _ r

/-- The rest of an item stands as it was however often the item is redacted. -/
theorem rest_iterate_redactItem (item : INodeExecutionData) (n : ℕ) :
    ((redactItem reason)^[n] item).rest = item.rest := by
  induction n generalizing item with
  | zero => rfl
  | succ n ih => rw [Function.iterate_succ_apply, ih]; rfl

/-! ### What redaction keeps -/

/-- Two errors of one class, and of one status code where the class is that of API errors. -/
structure ExecutionError.Alike (e e' : ExecutionError) : Prop where
  name : e.name = e'.name
  httpCode : e.name = "NodeApiError" → e.httpCode.join = e'.httpCode.join

theorem redactError_eq {e e' : ExecutionError} (h : e.Alike e') :
    redactError e = redactError e' := by
  by_cases hapi : e.name = "NodeApiError"
  · simp [redactError, ← h.name, hapi, h.httpCode hapi]
  · simp [redactError, ← h.name, hapi]

theorem map_redactError_eq {o o' : Option ExecutionError}
    (h : Option.Rel ExecutionError.Alike o o') : o.map redactError = o'.map redactError := by
  cases h with
  | none => rfl
  | some h => exact congrArg some (redactError_eq h)

/-- Two items that differ at most in payload: their json, their binary data, the text of their
errors and their remaining fields. -/
structure INodeExecutionData.Alike (x y : INodeExecutionData) : Prop where
  pairedItem : x.pairedItem = y.pairedItem
  metadata : x.metadata = y.metadata
  redaction : x.redaction = y.redaction
  error : Option.Rel ExecutionError.Alike x.error y.error

/-- Items that differ in payload are told apart after redaction by their remaining fields only. -/
theorem iterate_redactItem_eq_iff {x y : INodeExecutionData} (h : x.Alike y) (reason : String)
    {n : ℕ} (hn : n ≠ 0) :
    (redactItem reason)^[n] x = (redactItem reason)^[n] y ↔ x.rest = y.rest := by
  constructor
  · intro heq
    rw [← rest_iterate_redactItem reason x n, heq, rest_iterate_redactItem]
  · intro hrest
    have herror := map_redactError_eq h.error
    have honce : redactItem reason x = redactItem reason y := by
      simp [redactItem, herror, hrest, h.pairedItem, h.metadata]
    obtain ⟨n, rfl⟩ := Nat.exists_eq_succ_of_ne_zero hn
    rw [Function.iterate_succ_apply, Function.iterate_succ_apply, honce]

/-- Two memories hold at a location objects that differ at most in payload. -/
def Location.Alike : Location → Memory → Memory → Prop
  | item r, m, m' => (m.item r).Alike (m'.item r)
  | error r, m, m' => (m.error r).Alike (m'.error r)

/-- Two executions that differ at most in the payload of their items and errors. -/
structure DifferOnlyInPayload (x y : RedactableExecution) : Prop where
  data : y.data = x.data
  alike : ∀ l ∈ x.data.locations, l.Alike x.memory y.memory

/-- Items outside the run data: pinned, in a node's context, on the stack or waiting. -/
def IRunExecutionData.elsewhere (d : IRunExecutionData ℕ ℕ) : List ℕ :=
  d.resultData.pinned ++ d.executionData.toList.flatMap IExecutionData.items

/-- Two executions agree on the remaining fields of the items in their run data and on the whole of
the other items they hold; without run data, on every item and error. -/
def AgreeOnKept (x y : RedactableExecution) : Prop :=
  match x.data.resultData.runData with
  | none => ∀ l ∈ x.data.locations, l.Same x.memory y.memory
  | some runData =>
    (∀ r ∈ IRunData.items runData, (x.memory.item r).rest = (y.memory.item r).rest) ∧
      ∀ r ∈ x.data.elsewhere, r ∉ IRunData.items runData → x.memory.item r = y.memory.item r

/-! ### The data after a redaction -/

theorem redactTaskError_congr {m m' : Memory} {t : ITaskData ℕ ℕ}
    (h : ∀ l ∈ t.locations, l.Alike m m') : redactTaskError m t = redactTaskError m' t := by
  cases he : t.error with
  | none => simp [redactTaskError, he]
  | some e =>
    have halike : (m.error e).Alike (m'.error e) :=
      h (.error e) (List.mem_append_right _ (by simp [he]))
    simp [redactTaskError, he, redactError_eq halike]

theorem locations_redactTaskError (m : Memory) (t : ITaskData ℕ ℕ) :
    (redactTaskError m t).locations = t.items.map .item := by
  cases he : t.error with
  | none => simp [redactTaskError, he, ITaskData.locations]
  | some e => simp [redactTaskError, he, ITaskData.locations, ITaskData.items]

theorem locations_redactTaskErrors (m : Memory) (runData : IRunData ℕ ℕ) :
    IRunData.locations (runData.mapValues (List.map (redactTaskError m))) =
      (IRunData.items runData).map .item := by
  simp [IRunData.locations, IRunData.items, List.map_flatMap, List.flatMap_map,
    locations_redactTaskError]

theorem redactTaskErrors_congr {m m' : Memory}
    (h : ∀ l ∈ IRunData.locations runData, l.Alike m m') :
    runData.mapValues (List.map (redactTaskError m)) =
      runData.mapValues (List.map (redactTaskError m')) := by
  have hvalues : ∀ e ∈ runData.entries,
      e.2.map (redactTaskError m) = e.2.map (redactTaskError m') := by
    intro e he
    refine List.map_congr_left fun t ht => redactTaskError_congr fun l hl => h l ?_
    exact List.mem_flatMap.2 ⟨e.2, List.mem_map_of_mem he, List.mem_flatMap.2 ⟨t, ht, hl⟩⟩
  simp only [Dict.mapValues, Dict.mk.injEq]
  exact List.map_congr_left fun e he => by rw [hvalues e he]

/-- What redaction makes of the data of an execution does not depend on payload. -/
theorem data_apply_congr {x y : RedactableExecution} (h : DifferOnlyInPayload x y)
    (context : RedactionContext) : (apply y context).data = (apply x context).data := by
  cases hrun : x.data.resultData.runData with
  | none => simp [apply, h.data, hrun]
  | some runData =>
    have htasks : runData.mapValues (List.map (redactTaskError y.memory)) =
        runData.mapValues (List.map (redactTaskError x.memory)) := by
      refine (redactTaskErrors_congr fun l hl => h.alike l ?_).symm
      simp [IRunExecutionData.locations, IResultData.locations, hrun, hl]
    cases he : x.data.resultData.error with
    | none => simp [apply, h.data, hrun, he, htasks]
    | some e =>
      have halike : (x.memory.error e).Alike (y.memory.error e) :=
        h.alike (.error e) (by simp [IRunExecutionData.locations, IResultData.locations, he])
      simp [apply, h.data, hrun, he, htasks, redactError_eq halike]

/-- A redacted execution refers to its items, and to no error. -/
theorem mem_locations_apply_iff {execution : RedactableExecution}
    (h : execution.data.resultData.runData = some runData) (context : RedactionContext)
    (l : Location) :
    l ∈ (apply execution context).data.locations ↔
      ∃ r, (r ∈ IRunData.items runData ∨ r ∈ execution.data.elsewhere) ∧ Location.item r = l := by
  cases he : execution.data.resultData.error <;>
    simp [apply, h, he, IRunExecutionData.locations, IResultData.locations,
      locations_redactTaskErrors, IRunExecutionData.elsewhere, IResultData.pinned] <;> grind

theorem mem_locations_of_item {d : IRunExecutionData ℕ ℕ}
    (h : d.resultData.runData = some runData) {r : ℕ}
    (hr : r ∈ IRunData.items runData ∨ r ∈ d.elsewhere) : .item r ∈ d.locations := by
  rcases hr with hr | hr
  · obtain ⟨tasks, htasks, t, ht, hr⟩ : ∃ tasks ∈ runData.values, ∃ t ∈ tasks, r ∈ t.items := by
      simpa [IRunData.items] using hr
    have hmem : Location.item r ∈ IRunData.locations runData :=
      List.mem_flatMap.2 ⟨tasks, htasks,
        List.mem_flatMap.2 ⟨t, ht, List.mem_append_left _ (List.mem_map_of_mem hr)⟩⟩
    simp [IRunExecutionData.locations, IResultData.locations, h, hmem]
  · have hmem := List.mem_append.1 hr
    simp only [IRunExecutionData.locations, IResultData.locations, List.mem_append,
      List.mem_map_of_injective (fun _ _ => Location.item.inj)]
    tauto

/-- **What a reader of a redacted execution can tell**: of two executions that differ only in
payload the results are the same exactly when they agree on the remaining fields of the items in
the run data and on the whole of the items that only stand elsewhere. -/
theorem view_apply_eq_iff {x y : RedactableExecution} (h : DifferOnlyInPayload x y)
    (context : RedactionContext) :
    (apply x context).view = (apply y context).view ↔ AgreeOnKept x y := by
  have hdata := data_apply_congr h context
  rw [RedactableExecution.view, RedactableExecution.view, hdata, covers_data]
  cases hrun : x.data.resultData.runData with
  | none =>
    have hrun' : y.data.resultData.runData = none := by rw [h.data, hrun]
    simp [apply, hrun, hrun', AgreeOnKept]
  | some runData =>
    have hrun' : y.data.resultData.runData = some runData := by rw [h.data, hrun]
    have halike : ∀ r, r ∈ IRunData.items runData ∨ r ∈ x.data.elsewhere →
        (x.memory.item r).Alike (y.memory.item r) :=
      fun r hr => h.alike (.item r) (mem_locations_of_item hrun hr)
    have hsame : ∀ r, r ∈ IRunData.items runData ∨ r ∈ x.data.elsewhere →
        ((Location.item r).Same (apply x context).memory (apply y context).memory ↔
          if r ∈ IRunData.items runData then (x.memory.item r).rest = (y.memory.item r).rest
          else x.memory.item r = y.memory.item r) := by
      intro r hr
      rw [Location.Same, items_apply hrun, items_apply hrun']
      split
      case isTrue hmem =>
        exact iterate_redactItem_eq_iff (halike r hr) _ (List.count_pos_iff.2 hmem).ne'
      case isFalse hmem => simp [List.count_eq_zero_of_not_mem hmem]
    simp only [mem_locations_apply_iff hrun, forall_exists_index, and_imp, AgreeOnKept, hrun]
    constructor
    · intro hall
      refine ⟨fun r hr => ?_, fun r hr hnot => ?_⟩
      · simpa [hr] using (hsame r (.inl hr)).1 (hall _ r (.inl hr) rfl)
      · simpa [hnot] using (hsame r (.inr hr)).1 (hall _ r (.inr hr) rfl)
    · rintro ⟨hrest, helse⟩ _ r hr rfl
      refine (hsame r hr).2 ?_
      split
      case isTrue hmem => exact hrest r hmem
      case isFalse hmem => exact helse r (hr.resolve_left hmem) hmem

/-- A request to redact, by a user who may not reveal. -/
def redactRequest : RedactionContext :=
  { redactExecutionData := some true, userCanReveal := false, hasDynamicCredentials := false }

/-- A run of one node with pinned data, on an item that names a patient. -/
def pinnedRun (patient : String) : RedactableExecution :=
  { memory :=
      { item := fun _ => { json := [("patient", .str patient)] }
        error := fun _ => { name := "Error" } }
    data :=
      { resultData :=
          { runData := some (Dict.empty.set "Webhook"
              [{ data := some (Dict.empty.set "main" [some [0]]) }])
            pinData := some (Dict.empty.set "Webhook" [1]) } } }

theorem pinnedRun_differ (patient patient' : String) :
    DifferOnlyInPayload (pinnedRun patient) (pinnedRun patient') := by
  refine ⟨rfl, fun l _ => ?_⟩
  cases l with
  | item r => exact ⟨rfl, rfl, rfl, .none⟩
  | error r => exact ⟨rfl, fun _ => rfl⟩

/-- Two runs on pinned data that name two patients. -/
theorem view_apply_eq_iff_pinnedRun :
    (apply (pinnedRun "Ada") redactRequest).view = (apply (pinnedRun "Eve") redactRequest).view ↔
      AgreeOnKept (pinnedRun "Ada") (pinnedRun "Eve") :=
  view_apply_eq_iff (pinnedRun_differ "Ada" "Eve") redactRequest

/-- Redaction leaves the name of the patient in the pinned data. -/
theorem pinned_item_is_shown :
    ¬ ∀ (x y : RedactableExecution) (context : RedactionContext), DifferOnlyInPayload x y →
      (apply x context).view = (apply y context).view := by
  intro h
  have heq := h _ _ redactRequest (pinnedRun_differ "Ada" "Eve")
  have hpin : ((apply (pinnedRun "Ada") redactRequest).view.resultData.pinData =
      (apply (pinnedRun "Eve") redactRequest).view.resultData.pinData) := by rw [heq]
  exact absurd hpin (by decide)

end Redaction

end N8n
