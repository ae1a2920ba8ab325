import N8n.Lib.Dict
import N8n.Lib.Walks

/-!
# Paired items

`getPairedItem` of `workflow-data-proxy.ts` follows an item back to the item of an earlier node that it
was made from.

* `ISourceData` to `RunContext`: the runs, over references to items;
* `normalizeInputs` to `getPairedItem`: the function, with a depth of calls that it may not exceed;
* `Place`, `links`, `Reaches`, `OnlyMatch`: the ways back, and the only item that they lead to;
* `Followed`: a place where the function goes the way that it ought to go;
* `getPairedItem_followed_iff`: when it answers for the only match.
-/

namespace N8n

namespace WorkflowDataProxy

/-! ### Runs -/

/-- `l[i]`. -/
def elementAt {α : Type} (l : List α) (i : ℤ) : Option α := if 0 ≤ i then l[i.toNat]? else none

structure ISourceData where
  previousNode : String
  previousNodeOutput : Option ℤ := none
  previousNodeRun : Option ℤ := none
  deriving DecidableEq

structure IPairedItemData where
  item : ℤ
  input : Option ℤ := none
  sourceOverwrite : Option ISourceData := none
  deriving DecidableEq

/-- The two forms of one entry of `pairedItem`. -/
inductive PairedEntry
  | number (n : ℤ)
  | data (p : IPairedItemData)
  deriving DecidableEq

/-- `pairedItem` is one entry or an array of them. -/
inductive PairedItem
  | one (p : PairedEntry)
  | array (ps : List PairedEntry)
  deriving DecidableEq

/-- One run of a node, over references to its items. -/
structure ITaskData where
  source : Option (List (Option ISourceData)) := none
  main : Option (List (Option (List ℕ))) := none
  deriving DecidableEq

/-- What the function reads: the runs of the nodes, the pinned items, and what items are paired with. -/
structure RunContext where
  runData : Option (Dict String (List ITaskData)) := none
  pinData : Option (Dict String (List ℕ)) := none
  mode : String := "manual"
  pairedItem : ℕ → Option PairedItem := fun _ => none

/-! ### The function -/

/-- The errors, by the functions that create them. -/
inductive PairedItemError
  | pairedItemNotFound (destNode : String) (cause : Option String)
  | missingOutput (outputIndex : ℤ) (previousNode : String) (nodeCause : Option String)
  | missingPairedItem (nodeCause : String) (usedMethodName : String)
  | noConnection (nodeCause : String)
  | branchNotFound (node : String) (item : ℤ) (cause : Option String)
  | multipleItemsFound (destNode : String) (itemIndex : ℤ)
  | typeError
  | rangeError
  deriving DecidableEq

/-- The error is an `ExpressionError`. -/
def PairedItemError.isExpressionError : PairedItemError → Bool
  | typeError | rangeError => false
  | _ => true

def normalizeInputs (pairedItem : PairedEntry) (sourceData : Option ISourceData) :
    IPairedItemData × Option ISourceData :=
  let pairedItem := match pairedItem with
    | .number n => { item := n }
    | .data p => p
  (pairedItem, pairedItem.sourceOverwrite.or sourceData)

def normalizePairedItem (paired : Option PairedItem) : List IPairedItemData :=
  let pairedItems := match paired with
    | none => []
    | some (.one p) => [p]
    | some (.array ps) => ps
  pairedItems.map fun p => match p with
    | .number n => { item := n }
    | .data p => p

namespace RunContext

variable (ctx : RunContext)

def getPinDataIfManualExecution (nodeName : String) : Option (List ℕ) :=
  if ctx.mode = "manual" then ctx.pinData.bind fun pinData => pinData.get? nodeName else none

def pinDataToTask (pinData : Option (List ℕ)) : Option ITaskData :=
  pinData.map fun pinData => { main := some [some pinData], source := some [] }

def getTaskData (source : ISourceData) : Option ITaskData :=
  ((ctx.runData.bind fun runData => runData.get? source.previousNode).bind fun runs =>
    elementAt runs (source.previousNodeRun.getD 0)).or
  (pinDataToTask (ctx.getPinDataIfManualExecution source.previousNode))

end RunContext

/-- `taskData?.data?.main?.[outputIndex]`. -/
def outputsOf (taskData : Option ITaskData) (source : ISourceData) : Option (List ℕ) :=
  (taskData.bind ITaskData.main).bind fun main =>
    (elementAt main (source.previousNodeOutput.getD 0)).join

def getNodeOutput (taskData : Option ITaskData) (source : ISourceData) (nodeCause : Option String) :
    Except PairedItemError (List ℕ) :=
  match outputsOf taskData source with
  | some outputs => .ok outputs
  | none =>
    .error (.missingOutput (source.previousNodeOutput.getD 0) source.previousNode nodeCause)

/-- What the results of the branches are together. -/
def mergeResults (results : List (Except PairedItemError (Option ℕ)))
    (sourceArray : List (Option ISourceData)) (destinationNodeName : String) (sourceData : ISourceData) (pairedItem : IPairedItemData)
    (nodeBeforeLast : Option String) : Except PairedItemError (Option ℕ) :=
  if results.all fun result => !result.isOk then
    -- `throw results[0].error`, also when there are no results
    match results with
    | .error e :: _ => .error e
    | _ => .error .typeError
  else
    match results.filterMap Except.toOption with
    | [] =>
      if sourceArray.length = 0 then .error (.noConnection destinationNodeName)
      else .error (.branchNotFound sourceData.previousNode pairedItem.item nodeBeforeLast)
    | first :: rest =>
      if rest.any fun r => r ≠ first then
        .error (.multipleItemsFound destinationNodeName pairedItem.item)
      else .ok first

/-- The function, in a call that may have so many calls inside one another; `.ok none` is `undefined`. -/
def getPairedItem (ctx : RunContext) : ℕ → String → Option ISourceData → PairedEntry → String →
    Option String → Except PairedItemError (Option ℕ)
  | 0, _, _, _, _, _ => .error .rangeError
  | depth + 1, destinationNodeName, incomingSourceData, initialPairedItem, usedMethodName,
      nodeBeforeLast =>
    let (pairedItem, sourceData) := normalizeInputs initialPairedItem incomingSourceData
    match sourceData with
    | none => .error (.pairedItemNotFound destinationNodeName nodeBeforeLast)
    | some sourceData =>
      let taskData := ctx.getTaskData sourceData
      match getNodeOutput taskData sourceData nodeBeforeLast with
      | .error e => .error e
      | .ok outputData =>
        let item := elementAt outputData pairedItem.item
        let sourceArray := (taskData.bind ITaskData.source).getD []
        if sourceData.previousNode = destinationNodeName then
          if outputData.length ≤ pairedItem.item then
            .error (.missingPairedItem sourceData.previousNode usedMethodName)
          else .ok item
        else
          match item with
          | none => .error .typeError
          | some item =>
            let nextPairedItems := normalizePairedItem (ctx.pairedItem item)
            if nextPairedItems = [] then
              .error (.missingPairedItem sourceData.previousNode usedMethodName)
            else
              let results := nextPairedItems.flatMap fun nextPairedItem =>
                let inputIndex := nextPairedItem.input.getD 0
                if (sourceArray.length : ℤ) ≤ inputIndex then []
                else
                  let nextSource :=
                    nextPairedItem.sourceOverwrite.or (elementAt sourceArray inputIndex).join
                  [getPairedItem ctx depth destinationNodeName nextSource
                    (.data { nextPairedItem with input := some inputIndex }) usedMethodName
                    (some sourceData.previousNode)]
              mergeResults results sourceArray destinationNodeName sourceData pairedItem nodeBeforeLast

/-! ### The ways back -/

/-- An item of a source, or what would be one. -/
structure Place where
  source : Option ISourceData
  item : ℤ
  deriving DecidableEq

/-- Where a call starts. -/
def placeOf (incomingSourceData : Option ISourceData) (initialPairedItem : PairedEntry) : Place :=
  let (pairedItem, sourceData) := normalizeInputs initialPairedItem incomingSourceData
  ⟨sourceData, pairedItem.item⟩

namespace RunContext

variable (ctx : RunContext)

/-- The items of the source. -/
def outputs (place : Place) : Option (List ℕ) :=
  place.source.bind fun s => outputsOf (ctx.getTaskData s) s

def itemAt (place : Place) : Option ℕ :=
  (ctx.outputs place).bind fun outputs => elementAt outputs place.item

/-- The sources of the run that made the item. -/
def sources (place : Place) : List (Option ISourceData) :=
  (((place.source.bind ctx.getTaskData).bind ITaskData.source)).getD []

/-- The entries of `pairedItem`. -/
def entries (place : Place) : List IPairedItemData :=
  match ctx.itemAt place with
  | some item => normalizePairedItem (ctx.pairedItem item)
  | none => []

/-- The entry has an input that the run has. -/
def InRange (place : Place) (p : IPairedItemData) : Prop :=
  p.input.getD 0 < (ctx.sources place).length

instance (place : Place) (p : IPairedItemData) : Decidable (ctx.InRange place p) :=
  inferInstanceAs (Decidable (_ < _))

/-- Where an entry leads: through its own source, or else through that of its input. -/
def next (place : Place) (p : IPairedItemData) : Place :=
  ⟨p.sourceOverwrite.or (elementAt (ctx.sources place) (p.input.getD 0)).join, p.item⟩

/-- Where the entries lead. -/
def links (place : Place) : List Place := (ctx.entries place).map (ctx.next place)

end RunContext

/-- The source is the destination node. -/
def AtDestination (dest : String) (place : Place) : Prop :=
  place.source.map ISourceData.previousNode = some dest

instance (dest : String) (place : Place) : Decidable (AtDestination dest place) :=
  inferInstanceAs (Decidable (_ = _))

/-- A way back from a place reaches an item of the destination, and stops there. -/
inductive Reaches (ctx : RunContext) (dest : String) : Place → ℕ → Prop
  | here {place : Place} {x : ℕ} (hdest : AtDestination dest place)
    (hitem : ctx.itemAt place = some x) : Reaches ctx dest place x
  | step {place : Place} {p : IPairedItemData} {x : ℕ} (hdest : ¬ AtDestination dest place)
    (hp : p ∈ ctx.entries place) (hrest : Reaches ctx dest (ctx.next place p) x) :
    Reaches ctx dest place x

/-- The ways that reach the destination reach this item. -/
def OnlyMatch (ctx : RunContext) (dest : String) (place : Place) (x : ℕ) : Prop :=
  Reaches ctx dest place x ∧ ∀ y, Reaches ctx dest place y → y = x

/-- The answer is the only match, and otherwise an `ExpressionError`. -/
def RightAnswer (ctx : RunContext) (dest : String) (place : Place)
    (result : Except PairedItemError (Option ℕ)) : Prop :=
  (∀ x, result = .ok (some x) ↔ OnlyMatch ctx dest place x) ∧
    ((∀ x, ¬ OnlyMatch ctx dest place x) → ∃ e, result = .error e ∧ e.isExpressionError = true)

/-- A place where the function finds what it reads and goes every way back.  It does not: at a negative
index of the destination (1); where the item is missing (2) or all its entries have inputs that the run
does not have (3); where the only match is behind such an entry (4); and where the entries that have one
match each agree, but others do not (5). -/
structure Followed (ctx : RunContext) (dest : String) (place : Place) : Prop where
  index : AtDestination dest place → ctx.outputs place ≠ none → 0 ≤ place.item
  item : ¬ AtDestination dest place → ctx.outputs place ≠ none → ctx.itemAt place ≠ none
  inRange : ¬ AtDestination dest place → ctx.entries place ≠ [] →
    ∃ p ∈ ctx.entries place, ctx.InRange place p
  complete : ¬ AtDestination dest place → ∀ x, OnlyMatch ctx dest place x →
    ∃ p ∈ ctx.entries place, ctx.InRange place p ∧ OnlyMatch ctx dest (ctx.next place p) x
  sound : ¬ AtDestination dest place → ∀ x,
    (∃ p ∈ ctx.entries place, ctx.InRange place p ∧ OnlyMatch ctx dest (ctx.next place p) x) →
    (∀ p ∈ ctx.entries place, ctx.InRange place p → ∀ y,
      OnlyMatch ctx dest (ctx.next place p) y → y = x) →
    OnlyMatch ctx dest place x

/-- The function calls itself for the next place. -/
def Calls (ctx : RunContext) (dest : String) (place place' : Place) : Prop :=
  ¬ AtDestination dest place ∧
    ∃ p ∈ ctx.entries place, ctx.InRange place p ∧ place' = ctx.next place p

/-- All calls for the place that may be `N` deep return the same at each depth. -/
def ReturnsWithin (ctx : RunContext) (dest : String) (place : Place) (N : ℕ) : Prop :=
  ∀ incoming pairedItem usedMethodName nodeBeforeLast, placeOf incoming pairedItem = place →
    ∃ result, ∀ depth ≥ N,
      getPairedItem ctx depth dest incoming pairedItem usedMethodName nodeBeforeLast = result

/-- All calls for the place that may be `N` deep have the right answer, the same at each depth. -/
def AnswersWithin (ctx : RunContext) (dest : String) (place : Place) (N : ℕ) : Prop :=
  ∀ incoming pairedItem usedMethodName nodeBeforeLast, placeOf incoming pairedItem = place →
    ∃ result, RightAnswer ctx dest place result ∧
      ∀ depth ≥ N, getPairedItem ctx depth dest incoming pairedItem usedMethodName nodeBeforeLast =
        result

/-- Calls that may be deep enough have the right answer. -/
def Answers (ctx : RunContext) (dest : String) (place : Place) : Prop :=
  ∃ N, AnswersWithin ctx dest place N

/-! ### The results of the branches -/

section Merge

variable {results : List (Except PairedItemError (Option ℕ))}
  (sourceArray : List (Option ISourceData)) (dest : String) (sourceData : ISourceData)
  (pairedItem : IPairedItemData) (nodeBeforeLast : Option String)

/-- A result that is an item, or an `ExpressionError`. -/
def IsMatchOrExpressionError (result : Except PairedItemError (Option ℕ)) : Prop :=
  (∃ x, result = .ok (some x)) ∨ ∃ e, result = .error e ∧ e.isExpressionError = true

theorem mem_matched_iff {o : Option ℕ} :
    o ∈ results.filterMap Except.toOption ↔ .ok o ∈ results := by
  rw [List.mem_filterMap]
  constructor
  · rintro ⟨r, hr, hro⟩
    cases r with
    | error e => cases hro
    | ok o' => rwa [← Option.some_inj.1 hro]
  · exact fun h => ⟨.ok o, h, rfl⟩

theorem mergeResults_nil :
    mergeResults [] sourceArray dest sourceData pairedItem nodeBeforeLast = .error .typeError := rfl

/-- Without any match, the first error is thrown. -/
theorem mergeResults_of_errors (h : ∀ r ∈ results, r.isOk = false) (hne : results ≠ []) :
    ∃ e, mergeResults results sourceArray dest sourceData pairedItem nodeBeforeLast = .error e ∧
      .error e ∈ results := by
  unfold mergeResults
  rw [if_pos (by simpa using h)]
  rcases results with _ | ⟨r, rest⟩
  · exact absurd rfl hne
  · cases r with
    | error e => exact ⟨e, rfl, List.mem_cons_self⟩
    | ok o => exact absurd (h _ List.mem_cons_self) (by simp [Except.isOk, Except.toBool])

/-- With a match, the matches are compared with the first one. -/
theorem mergeResults_of_match {o : Option ℕ} (h : .ok o ∈ results) :
    ∃ first, .ok first ∈ results ∧
      ((∀ r, .ok r ∈ results → r = first) ∧
          mergeResults results sourceArray dest sourceData pairedItem nodeBeforeLast = .ok first ∨
        (¬ ∀ r, .ok r ∈ results → r = first) ∧
          mergeResults results sourceArray dest sourceData pairedItem nodeBeforeLast =
            .error (.multipleItemsFound dest pairedItem.item)) := by
  unfold mergeResults
  have hok : ¬ (results.all fun result => !result.isOk) = true := by
    rw [List.all_eq_true]
    exact fun hall => by simpa [Except.isOk, Except.toBool] using hall _ h
  rw [if_neg hok]
  have hmem : ∀ {o}, o ∈ results.filterMap Except.toOption ↔ .ok o ∈ results := mem_matched_iff
  have hfound := hmem.2 h
  rcases hmatched : results.filterMap Except.toOption with _ | ⟨first, rest⟩
  · rw [hmatched] at hfound
    cases hfound
  · rw [hmatched] at hmem
    refine ⟨first, hmem.1 List.mem_cons_self, ?_⟩
    by_cases hall : ∀ r, .ok r ∈ results → r = first
    · have hrest : (rest.any fun r => r ≠ first) = false := by
        rw [List.any_eq_false]
        exact fun r hr => by simpa using hall r (hmem.1 (List.mem_cons_of_mem _ hr))
      exact .inl ⟨hall, by simp only [hrest, Bool.false_eq_true, if_false]⟩
    · have hrest : (rest.any fun r => r ≠ first) = true := by
        push Not at hall
        obtain ⟨r, hr, hne⟩ := hall
        rcases List.mem_cons.1 (hmem.2 hr) with rfl | hr
        · exact absurd rfl hne
        · exact List.any_eq_true.2 ⟨r, hr, by simpa using hne⟩
      exact .inr ⟨hall, by simp only [hrest, if_true]⟩

/-- The results are merged to the item on which all matches agree, and otherwise to an error. -/
theorem mergeResults_spec (h : ∀ r ∈ results, IsMatchOrExpressionError r) (hne : results ≠ []) :
    (∀ x, mergeResults results sourceArray dest sourceData pairedItem nodeBeforeLast = .ok (some x) ↔
      .ok (some x) ∈ results ∧ ∀ y, .ok (some y) ∈ results → y = x) ∧
    IsMatchOrExpressionError
      (mergeResults results sourceArray dest sourceData pairedItem nodeBeforeLast) := by
  by_cases hmatch : ∃ o, .ok o ∈ results
  · obtain ⟨o, ho⟩ := hmatch
    obtain ⟨first, hfirst, hcases⟩ :=
      mergeResults_of_match sourceArray dest sourceData pairedItem nodeBeforeLast ho
    have hsome : ∀ r, .ok r ∈ results → ∃ x, r = some x := by
      intro r hr
      rcases h _ hr with ⟨x, hx⟩ | ⟨e, he, -⟩
      · exact ⟨x, Except.ok.inj hx⟩
      · cases he
    obtain ⟨f, rfl⟩ := hsome _ hfirst
    rcases hcases with ⟨hall, heq⟩ | ⟨hall, heq⟩ <;> rw [heq]
    · refine ⟨fun x => ?_, .inl ⟨f, rfl⟩⟩
      constructor
      · intro hx
        obtain rfl := Option.some_inj.1 (Except.ok.inj hx)
        exact ⟨hfirst, fun y hy => Option.some_inj.1 (hall _ hy)⟩
      · rintro ⟨hx, -⟩
        rw [hall _ hx]
    · refine ⟨fun x => iff_of_false (by simp) ?_, .inr ⟨_, rfl, rfl⟩⟩
      rintro ⟨hx, hagree⟩
      refine hall fun r hr => ?_
      obtain ⟨y, rfl⟩ := hsome r hr
      rw [hagree y hr, hagree f hfirst]
  · have herrors : ∀ r ∈ results, r.isOk = false := by
      intro r hr
      cases r with
      | error e => rfl
      | ok o => exact absurd ⟨o, hr⟩ hmatch
    obtain ⟨e, heq, he⟩ :=
      mergeResults_of_errors sourceArray dest sourceData pairedItem nodeBeforeLast herrors hne
    rw [heq]
    refine ⟨fun x => iff_of_false (by simp) fun hx => hmatch ⟨_, hx.1⟩, ?_⟩
    exact h _ he

end Merge

/-! ### One call -/

section Call

variable {ctx : RunContext} {dest : String} {place : Place} {incoming : Option ISourceData}
  {pairedItem : PairedEntry} (hplace : placeOf incoming pairedItem = place)
  (usedMethodName : String) (nodeBeforeLast : Option String)

include hplace

variable (dest) in
/-- Without a source or its outputs, an `ExpressionError` is thrown. -/
theorem getPairedItem_of_no_outputs (h : ctx.outputs place = none) :
    ∃ e : PairedItemError, e.isExpressionError = true ∧ ∀ depth,
      getPairedItem ctx (depth + 1) dest incoming pairedItem usedMethodName nodeBeforeLast =
        .error e := by
  subst hplace
  unfold getPairedItem
  unfold RunContext.outputs placeOf at h
  rcases hinputs : normalizeInputs pairedItem incoming with ⟨p, _ | source⟩
  · exact ⟨_, rfl, fun _ => rfl⟩
  · rw [hinputs] at h
    change outputsOf (ctx.getTaskData source) source = none at h
    dsimp only
    rw [getNodeOutput, h]
    exact ⟨_, rfl, fun _ => rfl⟩

theorem getPairedItem_at_destination (hdest : AtDestination dest place) {outputs : List ℕ}
    (h : ctx.outputs place = some outputs) :
    ∃ e : PairedItemError, e.isExpressionError = true ∧ ∀ depth,
      getPairedItem ctx (depth + 1) dest incoming pairedItem usedMethodName nodeBeforeLast =
        if outputs.length ≤ place.item then .error e else .ok (ctx.itemAt place) := by
  subst hplace
  unfold getPairedItem RunContext.itemAt
  rw [h]
  unfold RunContext.outputs placeOf at h
  unfold AtDestination placeOf at hdest
  rcases hinputs : normalizeInputs pairedItem incoming with ⟨p, _ | source⟩
  · rw [hinputs] at hdest
    cases hdest
  · rw [hinputs] at h hdest
    change outputsOf (ctx.getTaskData source) source = some outputs at h
    have hsource : source.previousNode = dest := Option.some_inj.1 hdest
    dsimp only
    rw [getNodeOutput, h]
    refine ⟨.missingPairedItem source.previousNode usedMethodName, rfl, fun depth => ?_⟩
    dsimp only
    rw [if_pos hsource, placeOf, hinputs]
    rfl

omit hplace in
/-- The calls for the entries with an input that the run has. -/
def branchCalls (ctx : RunContext) (dest : String) (place : Place) (depth : ℕ)
    (usedMethodName : String) (source : ISourceData) : List (Except PairedItemError (Option ℕ)) :=
  ((ctx.entries place).filter fun p => ctx.InRange place p).map fun p =>
    getPairedItem ctx depth dest
      (p.sourceOverwrite.or (elementAt (ctx.sources place) (p.input.getD 0)).join)
      (.data { p with input := some (p.input.getD 0) }) usedMethodName (some source.previousNode)

omit hplace in
theorem flatMap_inRange {β : Type} (f : IPairedItemData → β) (l : List IPairedItemData) :
    (l.flatMap fun p =>
        if ((ctx.sources place).length : ℤ) ≤ p.input.getD 0 then [] else [f p]) =
      (l.filter fun p => ctx.InRange place p).map f := by
  induction l with
  | nil => rfl
  | cons p l ih =>
    rw [List.flatMap_cons, ih, List.filter_cons]
    by_cases h : ctx.InRange place p
    · rw [if_neg (not_le.2 h), if_pos (by simpa using h)]
      rfl
    · rw [if_pos (not_lt.1 h), if_neg (by simpa using h)]
      rfl

/-- A call for an item of another node. -/
theorem getPairedItem_elsewhere (hdest : ¬ AtDestination dest place) (h : ctx.outputs place ≠ none) :
    ∃ (source : ISourceData) (p : IPairedItemData) (e : PairedItemError),
      e.isExpressionError = true ∧ ∀ depth,
      getPairedItem ctx (depth + 1) dest incoming pairedItem usedMethodName nodeBeforeLast =
        if ctx.itemAt place = none then .error .typeError
        else if ctx.entries place = [] then .error e
        else mergeResults (branchCalls ctx dest place depth usedMethodName source)
          (ctx.sources place) dest source p nodeBeforeLast := by
  obtain ⟨outputs, h⟩ := Option.ne_none_iff_exists'.1 h
  have hitem : ctx.itemAt place = elementAt outputs place.item := by
    rw [RunContext.itemAt, h, Option.bind_some]
  unfold getPairedItem
  rcases hinputs : normalizeInputs pairedItem incoming with ⟨p, _ | source⟩
  · rw [← hplace, RunContext.outputs, placeOf, hinputs] at h
    cases h
  · have heq : place = ⟨some source, p.item⟩ := by rw [← hplace, placeOf, hinputs]
    have hout : outputsOf (ctx.getTaskData source) source = some outputs := by
      rwa [heq] at h
    have hsources :
    ((ctx.getTaskData source).bind ITaskData.source).getD [] = ctx.sources place := by
      rw [heq]
      rfl
    have hsource : source.previousNode ≠ dest := fun h => hdest (by rw [heq]; exact congrArg some h)
    refine ⟨source, p, .missingPairedItem source.previousNode usedMethodName, rfl, fun depth => ?_⟩
    dsimp only
    rw [getNodeOutput, hout]
    dsimp only
    rw [if_neg hsource, hsources, hitem, show place.item = p.item by rw [heq]]
    cases hfound : elementAt outputs p.item with
    | none => rfl
    | some item =>
      have hentries : ctx.entries place = normalizePairedItem (ctx.pairedItem item) := by
        rw [RunContext.entries, hitem, show place.item = p.item by rw [heq], hfound]
      dsimp only
      rw [branchCalls, hentries, ← flatMap_inRange, if_neg (Option.some_ne_none item)]

end Call

/-! ### Places and answers -/

section Answers

variable {ctx : RunContext} {dest : String} {place : Place} {N : ℕ}

variable {M x : ℕ} {result : Except PairedItemError (Option ℕ)}

theorem AnswersWithin.mono (h : AnswersWithin ctx dest place N) (hle : N ≤ M) :
    AnswersWithin ctx dest place M := by
  intro incoming pairedItem usedMethodName nodeBeforeLast hplace
  obtain ⟨result, hright, heq⟩ := h incoming pairedItem usedMethodName nodeBeforeLast hplace
  exact ⟨result, hright, fun depth hdepth => heq depth (hle.trans hdepth)⟩

theorem AnswersWithin.returnsWithin (h : AnswersWithin ctx dest place N) :
    ReturnsWithin ctx dest place N := by
  intro incoming pairedItem usedMethodName nodeBeforeLast hplace
  obtain ⟨result, -, heq⟩ := h incoming pairedItem usedMethodName nodeBeforeLast hplace
  exact ⟨result, heq⟩

theorem ReturnsWithin.mono (h : ReturnsWithin ctx dest place N) (hle : N ≤ M) :
    ReturnsWithin ctx dest place M := by
  intro incoming pairedItem usedMethodName nodeBeforeLast hplace
  obtain ⟨result, heq⟩ := h incoming pairedItem usedMethodName nodeBeforeLast hplace
  exact ⟨result, fun depth hdepth => heq depth (hle.trans hdepth)⟩

/-- One depth is enough for the calls for all the entries that are followed. -/
theorem exists_forall_entries {P : Place → ℕ → Prop}
    (hmono : ∀ place N M, N ≤ M → P place N → P place M)
    (h : ∀ p ∈ ctx.entries place, ctx.InRange place p → ∃ N, P (ctx.next place p) N) :
    ∃ N, ∀ p ∈ ctx.entries place, ctx.InRange place p → P (ctx.next place p) N := by
  generalize ctx.entries place = l at h ⊢
  induction l with
  | nil => exact ⟨0, by simp⟩
  | cons p l ih =>
    rw [List.forall_mem_cons] at h
    obtain ⟨M, hM⟩ := ih h.2
    by_cases hinput : ctx.InRange place p
    · obtain ⟨N, hN⟩ := h.1 hinput
      refine ⟨max N M, List.forall_mem_cons.2 ⟨fun _ => hmono _ _ _ (le_max_left _ _) hN, ?_⟩⟩
      exact fun q hq hinput => hmono _ _ _ (le_max_right _ _) (hM q hq hinput)
    · exact ⟨M, List.forall_mem_cons.2 ⟨fun h => absurd h hinput, hM⟩⟩

/-- Some call is for the place. -/
theorem placeOf_self (place : Place) :
    placeOf place.source (.data { item := place.item }) = place := by
  simp [placeOf, normalizeInputs]

theorem RightAnswer.isMatchOrExpressionError
    (h : RightAnswer ctx dest place result) : IsMatchOrExpressionError result := by
  by_cases hmatch : ∃ x, OnlyMatch ctx dest place x
  · obtain ⟨x, hx⟩ := hmatch
    exact .inl ⟨x, (h.1 x).2 hx⟩
  · exact .inr (h.2 fun x hx => hmatch ⟨x, hx⟩)

theorem not_rightAnswer_typeError : ¬ RightAnswer ctx dest place (.error .typeError) := by
  rintro ⟨hmatch, herror⟩
  obtain ⟨e, he, hexpr⟩ := herror fun x hx => by simpa using (hmatch x).2 hx
  cases he
  cases hexpr

theorem rightAnswer_of_no_match (h : ∀ x, ¬ Reaches ctx dest place x) {e : PairedItemError}
    (he : e.isExpressionError = true) : RightAnswer ctx dest place (.error e) :=
  ⟨fun x => iff_of_false (by simp) fun hx => h x hx.1, fun _ => ⟨e, rfl, he⟩⟩

/-! ### What is reached -/

theorem entries_of_no_item (h : ctx.itemAt place = none) : ctx.entries place = [] := by
  rw [RunContext.entries, h]

theorem itemAt_of_no_outputs (h : ctx.outputs place = none) : ctx.itemAt place = none := by
  rw [RunContext.itemAt, h, Option.bind_none]

theorem reaches_at_destination_iff (hdest : AtDestination dest place) :
    Reaches ctx dest place x ↔ ctx.itemAt place = some x := by
  constructor
  · intro h
    cases h with
    | here _ hitem => exact hitem
    | step hnot _ _ => exact absurd hdest hnot
  · exact fun hitem => .here hdest hitem

theorem reaches_elsewhere_iff (hdest : ¬ AtDestination dest place) :
    Reaches ctx dest place x ↔ ∃ p ∈ ctx.entries place, Reaches ctx dest (ctx.next place p) x := by
  constructor
  · intro h
    cases h with
    | here h _ => exact absurd h hdest
    | step _ hp hrest => exact ⟨_, hp, hrest⟩
  · rintro ⟨p, hp, hrest⟩
    exact .step hdest hp hrest

/-- Nothing is reached from where no item is. -/
theorem not_reaches_of_no_item (h : ctx.itemAt place = none) (x : ℕ) :
    ¬ Reaches ctx dest place x := by
  by_cases hdest : AtDestination dest place
  · rw [reaches_at_destination_iff hdest, h]
    simp
  · rw [reaches_elsewhere_iff hdest, entries_of_no_item h]
    simp

/-- The entries with an input that the run has agree on one match. -/
def Agreed (ctx : RunContext) (dest : String) (place : Place) (x : ℕ) : Prop :=
  (∃ p ∈ ctx.entries place, ctx.InRange place p ∧ OnlyMatch ctx dest (ctx.next place p) x) ∧
    ∀ p ∈ ctx.entries place, ctx.InRange place p → ∀ y, OnlyMatch ctx dest (ctx.next place p) y → y = x

theorem agreed_of_onlyMatch (hdest : ¬ AtDestination dest place)
    (hmatch : OnlyMatch ctx dest place x)
    (h : ∃ p ∈ ctx.entries place, ctx.InRange place p ∧ OnlyMatch ctx dest (ctx.next place p) x) :
    Agreed ctx dest place x :=
  ⟨h, fun _ hp _ y hy => hmatch.2 y ((reaches_elsewhere_iff hdest).2 ⟨_, hp, hy.1⟩)⟩

/-! ### One place after the places that it leads to -/

/-- Where an answer is known at each depth, it has to be right. -/
theorem Answers.right (h : Answers ctx dest place) (M : ℕ)
    (heq : ∀ depth ≥ M, getPairedItem ctx (depth + 1) dest place.source
      (.data { item := place.item }) "" none = result) : RightAnswer ctx dest place result := by
  obtain ⟨N, hN⟩ := h
  obtain ⟨result', hright, heq'⟩ := hN _ _ "" none (placeOf_self place)
  rwa [← heq (max N M) (le_max_right _ _), heq' _ (le_max_left N M |>.trans (Nat.le_succ _))]

/-- What is returned at each depth from one on. -/
theorem returnsWithin_succ (h : ∀ incoming pairedItem usedMethodName nodeBeforeLast,
    placeOf incoming pairedItem = place → ∃ result, ∀ depth ≥ M,
      getPairedItem ctx (depth + 1) dest incoming pairedItem usedMethodName nodeBeforeLast = result) :
    ReturnsWithin ctx dest place (M + 1) := by
  intro incoming pairedItem usedMethodName nodeBeforeLast hplace
  obtain ⟨result, heq⟩ := h incoming pairedItem usedMethodName nodeBeforeLast hplace
  refine ⟨result, fun depth hdepth => ?_⟩
  obtain ⟨depth, rfl⟩ := Nat.exists_eq_add_of_le' (Nat.one_le_of_lt hdepth)
  exact heq depth (by omega)

theorem answersWithin_succ (h : ∀ incoming pairedItem usedMethodName nodeBeforeLast,
    placeOf incoming pairedItem = place → ∃ result, RightAnswer ctx dest place result ∧
      ∀ depth ≥ M, getPairedItem ctx (depth + 1) dest incoming pairedItem usedMethodName
        nodeBeforeLast = result) : AnswersWithin ctx dest place (M + 1) := by
  intro incoming pairedItem usedMethodName nodeBeforeLast hplace
  obtain ⟨result, hright, heq⟩ := h incoming pairedItem usedMethodName nodeBeforeLast hplace
  refine ⟨result, hright, fun depth hdepth => ?_⟩
  obtain ⟨depth, rfl⟩ := Nat.exists_eq_add_of_le' (Nat.one_le_of_lt hdepth)
  exact heq depth (by omega)

theorem answers_of_no_outputs (h : ctx.outputs place = none) : Answers ctx dest place := by
  refine ⟨0 + 1, answersWithin_succ fun incoming pairedItem usedMethodName nodeBeforeLast hplace => ?_⟩
  obtain ⟨e, hexpr, heq⟩ :=
    getPairedItem_of_no_outputs dest hplace usedMethodName nodeBeforeLast h
  exact ⟨.error e, rightAnswer_of_no_match (not_reaches_of_no_item (itemAt_of_no_outputs h)) hexpr,
    fun depth _ => heq depth⟩

/-- At the destination an item is read from its index on. -/
theorem answers_at_destination_iff (hdest : AtDestination dest place) {outputs : List ℕ}
    (h : ctx.outputs place = some outputs) : Answers ctx dest place ↔ 0 ≤ place.item := by
  have hitem : ctx.itemAt place = elementAt outputs place.item := by
    rw [RunContext.itemAt, h, Option.bind_some]
  constructor
  · intro hanswers
    obtain ⟨e, -, heq⟩ := getPairedItem_at_destination (placeOf_self place) "" none hdest h
    have hright := hanswers.right 0 fun depth _ => heq depth
    by_contra hneg
    rw [if_neg (by omega), hitem, elementAt, if_neg hneg] at hright
    rcases hright.isMatchOrExpressionError with ⟨x, hx⟩ | ⟨e, he, -⟩
    · cases hx
    · cases he
  · intro hpos
    refine ⟨0 + 1, answersWithin_succ fun incoming pairedItem usedMethodName nodeBeforeLast hplace => ?_⟩
    obtain ⟨e, hexpr, heq⟩ := getPairedItem_at_destination hplace usedMethodName nodeBeforeLast hdest h
    refine ⟨_, ?_, fun depth _ => heq depth⟩
    rw [elementAt, if_pos hpos] at hitem
    split_ifs with hlen
    · refine rightAnswer_of_no_match (not_reaches_of_no_item ?_) hexpr
      rw [hitem, List.getElem?_eq_none_iff]
      omega
    · have hlt : place.item.toNat < outputs.length := by omega
      rw [List.getElem?_eq_getElem hlt] at hitem
      have hreaches : ∀ x, Reaches ctx dest place x ↔ outputs[place.item.toNat] = x := by
        intro x
        rw [reaches_at_destination_iff hdest, hitem, Option.some_inj]
      refine ⟨fun x => ?_, fun hnone => absurd ⟨(hreaches _).2 rfl, fun y hy => ?_⟩ (hnone _)⟩
      · rw [hitem, Except.ok.injEq, Option.some_inj]
        refine ⟨fun hx => ⟨(hreaches x).2 hx, fun y hy => ?_⟩, fun hx => (hreaches x).1 hx.1⟩
        rw [← hx, (hreaches y).1 hy]
      · exact ((hreaches y).1 hy).symm

/-- Elsewhere the item has to be there. -/
theorem answers_of_no_item (hdest : ¬ AtDestination dest place) (h : ctx.outputs place ≠ none)
    (hitem : ctx.itemAt place = none) : ¬ Answers ctx dest place := by
  intro hanswers
  obtain ⟨source, p, e, -, heq⟩ := getPairedItem_elsewhere (placeOf_self place) "" none hdest h
  simp only [hitem, if_true] at heq
  exact not_rightAnswer_typeError (hanswers.right 0 fun depth _ => heq depth)

theorem answers_of_no_entries (hdest : ¬ AtDestination dest place) (hitem : ctx.itemAt place ≠ none)
    (hentries : ctx.entries place = []) : Answers ctx dest place := by
  have h : ctx.outputs place ≠ none := fun h => hitem (itemAt_of_no_outputs h)
  refine ⟨0 + 1, answersWithin_succ fun incoming pairedItem usedMethodName nodeBeforeLast hplace => ?_⟩
  obtain ⟨source, p, e, hexpr, heq⟩ :=
    getPairedItem_elsewhere hplace usedMethodName nodeBeforeLast hdest h
  simp only [if_neg hitem, if_pos hentries] at heq
  refine ⟨.error e, rightAnswer_of_no_match (fun x => ?_) hexpr, fun depth _ => heq depth⟩
  rw [reaches_elsewhere_iff hdest, hentries]
  simp

theorem placeOf_next (p : IPairedItemData) :
    placeOf (p.sourceOverwrite.or (elementAt (ctx.sources place) (p.input.getD 0)).join)
      (.data { p with input := some (p.input.getD 0) }) = ctx.next place p := by
  rw [placeOf, RunContext.next, normalizeInputs]
  dsimp only
  rw [← Option.or_assoc, Option.or_self]

/-- At a depth that is enough, the calls for the entries return the same. -/
theorem branchCalls_eq (hN : ∀ p ∈ ctx.entries place, ctx.InRange place p →
    ReturnsWithin ctx dest (ctx.next place p) N) (usedMethodName : String) (source : ISourceData)
    {depth : ℕ} (hdepth : N ≤ depth) :
    branchCalls ctx dest place depth usedMethodName source =
      branchCalls ctx dest place N usedMethodName source := by
  refine List.map_congr_left fun p hp => ?_
  obtain ⟨hp, hinput⟩ := List.mem_filter.1 hp
  obtain ⟨result, heq⟩ := hN p hp (by simpa using hinput) _ _ usedMethodName
    (some source.previousNode) (placeOf_next p)
  rw [heq depth hdepth, heq N le_rfl]

section Branches

variable (hN : ∀ p ∈ ctx.entries place, ctx.InRange place p →
  AnswersWithin ctx dest (ctx.next place p) N) (usedMethodName : String) (source : ISourceData)

include hN

/-- Each call for an entry has the right answer, at any depth. -/
theorem rightAnswer_of_mem_branchCalls {p : IPairedItemData} (hp : p ∈ ctx.entries place)
    (hinput : ctx.InRange place p) : ∃ result, RightAnswer ctx dest (ctx.next place p) result ∧
      ∀ depth ≥ N, getPairedItem ctx depth dest
        (p.sourceOverwrite.or (elementAt (ctx.sources place) (p.input.getD 0)).join)
        (.data { p with input := some (p.input.getD 0) }) usedMethodName (some source.previousNode) =
          result :=
  hN p hp hinput _ _ _ _ (placeOf_next p)

theorem isMatchOrExpressionError_of_mem_branchCalls {r : Except PairedItemError (Option ℕ)}
    (hr : r ∈ branchCalls ctx dest place N usedMethodName source) : IsMatchOrExpressionError r := by
  obtain ⟨p, hp, rfl⟩ := List.mem_map.1 hr
  obtain ⟨hp, hinput⟩ := List.mem_filter.1 hp
  obtain ⟨result, hright, heq⟩ := rightAnswer_of_mem_branchCalls hN usedMethodName source hp
    (by simpa using hinput)
  rw [heq N le_rfl]
  exact hright.isMatchOrExpressionError

theorem ok_mem_branchCalls_iff (x : ℕ) :
    .ok (some x) ∈ branchCalls ctx dest place N usedMethodName source ↔
      ∃ p ∈ ctx.entries place, ctx.InRange place p ∧ OnlyMatch ctx dest (ctx.next place p) x := by
  simp only [branchCalls, List.mem_map, List.mem_filter, decide_eq_true_eq, and_assoc]
  constructor
  · rintro ⟨p, hp, hinput, hx⟩
    obtain ⟨result, hright, heq⟩ := rightAnswer_of_mem_branchCalls hN usedMethodName source hp hinput
    rw [heq N le_rfl] at hx
    exact ⟨p, hp, hinput, (hright.1 x).1 hx⟩
  · rintro ⟨p, hp, hinput, hmatch⟩
    obtain ⟨result, hright, heq⟩ := rightAnswer_of_mem_branchCalls hN usedMethodName source hp hinput
    refine ⟨p, hp, hinput, ?_⟩
    rw [heq N le_rfl]
    exact (hright.1 x).2 hmatch

/-- The answers for the entries are merged to the match on which they agree. -/
theorem mergeResults_branchCalls (hinput : ∃ p ∈ ctx.entries place, ctx.InRange place p)
    (p : IPairedItemData) (nodeBeforeLast : Option String) :
    RightAnswer ctx dest place
        (mergeResults (branchCalls ctx dest place N usedMethodName source) (ctx.sources place) dest
          source p nodeBeforeLast) ↔
      ∀ x, Agreed ctx dest place x ↔ OnlyMatch ctx dest place x := by
  have hne : branchCalls ctx dest place N usedMethodName source ≠ [] := by
    obtain ⟨q, hq, hinput⟩ := hinput
    rw [branchCalls, Ne, List.map_eq_nil_iff]
    exact List.ne_nil_of_mem (List.mem_filter.2 ⟨hq, by simpa using hinput⟩)
  obtain ⟨hok, hexpr⟩ := mergeResults_spec (ctx.sources place) dest source p nodeBeforeLast
    (fun r hr => isMatchOrExpressionError_of_mem_branchCalls hN usedMethodName source hr) hne
  have hagreed : ∀ x, mergeResults (branchCalls ctx dest place N usedMethodName source)
      (ctx.sources place) dest source p nodeBeforeLast = .ok (some x) ↔ Agreed ctx dest place x := by
    intro x
    rw [hok, Agreed, ok_mem_branchCalls_iff hN]
    refine and_congr_right fun _ => ⟨fun h q hq hinput y hy => ?_, fun h y hy => ?_⟩
    · exact h y ((ok_mem_branchCalls_iff hN usedMethodName source y).2 ⟨q, hq, hinput, hy⟩)
    · obtain ⟨q, hq, hinput, hy⟩ := (ok_mem_branchCalls_iff hN usedMethodName source y).1 hy
      exact h q hq hinput y hy
  constructor
  · exact fun h x => (hagreed x).symm.trans (h.1 x)
  · refine fun h => ⟨fun x => (hagreed x).trans (h x), fun hnone => hexpr.resolve_left ?_⟩
    rintro ⟨x, hx⟩
    exact hnone x ((h x).1 ((hagreed x).1 hx))

end Branches

/-- **A place with entries**: with right answers behind the entries that are followed, the answer is right
exactly when there are such entries and they agree on the only match. -/
theorem answers_of_entries_iff (hdest : ¬ AtDestination dest place) (hentries : ctx.entries place ≠ [])
    (hbehind : ∀ p ∈ ctx.entries place, ctx.InRange place p → Answers ctx dest (ctx.next place p)) :
    Answers ctx dest place ↔ (∃ p ∈ ctx.entries place, ctx.InRange place p) ∧
      ∀ x, Agreed ctx dest place x ↔ OnlyMatch ctx dest place x := by
  have hitem : ctx.itemAt place ≠ none := fun h => hentries (entries_of_no_item h)
  have hout : ctx.outputs place ≠ none := fun h => hitem (itemAt_of_no_outputs h)
  obtain ⟨N, hN⟩ := exists_forall_entries (P := AnswersWithin ctx dest)
    (fun _ _ _ hle h => h.mono hle) hbehind
  have hcall : ∀ {incoming pairedItem}, placeOf incoming pairedItem = place →
      ∀ usedMethodName nodeBeforeLast, ∃ source p, ∀ depth ≥ N,
        getPairedItem ctx (depth + 1) dest incoming pairedItem usedMethodName nodeBeforeLast =
          mergeResults (branchCalls ctx dest place N usedMethodName source) (ctx.sources place) dest
            source p nodeBeforeLast := by
    intro incoming pairedItem hplace usedMethodName nodeBeforeLast
    obtain ⟨source, p, e, -, heq⟩ :=
      getPairedItem_elsewhere hplace usedMethodName nodeBeforeLast hdest hout
    refine ⟨source, p, fun depth hdepth => ?_⟩
    rw [heq, if_neg hitem, if_neg hentries, branchCalls_eq
      (fun p hp hinput => (hN p hp hinput).returnsWithin) usedMethodName source hdepth]
  constructor
  · intro hanswers
    obtain ⟨source, p, heq⟩ := hcall (placeOf_self place) "" none
    have hright := hanswers.right N heq
    by_cases hinput : ∃ p ∈ ctx.entries place, ctx.InRange place p
    · exact ⟨hinput, (mergeResults_branchCalls hN "" source hinput p none).1 hright⟩
    · have hnil : branchCalls ctx dest place N "" source = [] := by
        rw [branchCalls, List.map_eq_nil_iff, List.filter_eq_nil_iff]
        exact fun p hp hinput' => hinput ⟨p, hp, by simpa using hinput'⟩
      rw [hnil, mergeResults_nil] at hright
      exact absurd hright not_rightAnswer_typeError
  · rintro ⟨hinput, hagree⟩
    refine ⟨N + 1, answersWithin_succ fun incoming pairedItem usedMethodName nodeBeforeLast hplace => ?_⟩
    obtain ⟨source, p, heq⟩ := hcall hplace usedMethodName nodeBeforeLast
    exact ⟨_, (mergeResults_branchCalls hN usedMethodName source hinput p nodeBeforeLast).2 hagree, heq⟩

/-- **One place**: when the calls that it makes return, so does a call for it. -/
theorem returns_of_calls
    (hbehind : ∀ place', Calls ctx dest place place' → ∃ N, ReturnsWithin ctx dest place' N) :
    ∃ N, ReturnsWithin ctx dest place N := by
  by_cases hout : ctx.outputs place = none
  · obtain ⟨N, hN⟩ : Answers ctx dest place := answers_of_no_outputs hout
    exact ⟨N, hN.returnsWithin⟩
  · by_cases hdest : AtDestination dest place
    · obtain ⟨outputs, houtputs⟩ := Option.ne_none_iff_exists'.1 hout
      refine ⟨0 + 1, returnsWithin_succ fun incoming pairedItem usedMethodName nodeBeforeLast hplace => ?_⟩
      obtain ⟨e, -, heq⟩ :=
        getPairedItem_at_destination hplace usedMethodName nodeBeforeLast hdest houtputs
      exact ⟨_, fun depth _ => heq depth⟩
    · obtain ⟨N, hN⟩ := exists_forall_entries (P := ReturnsWithin ctx dest)
        (fun _ _ _ hle h => h.mono hle) fun p hp hinput => hbehind _ ⟨hdest, p, hp, hinput, rfl⟩
      refine ⟨N + 1, returnsWithin_succ fun incoming pairedItem usedMethodName nodeBeforeLast hplace => ?_⟩
      obtain ⟨source, p, e, -, heq⟩ :=
        getPairedItem_elsewhere hplace usedMethodName nodeBeforeLast hdest hout
      refine ⟨getPairedItem ctx (N + 1) dest incoming pairedItem usedMethodName nodeBeforeLast,
        fun depth hdepth => ?_⟩
      rw [heq, heq, branchCalls_eq hN usedMethodName source hdepth]

/-- **One place**: with right answers for the places that it calls for, its answer is right exactly when
it is followed. -/
theorem answers_iff_followed
    (hbehind : ∀ place', Calls ctx dest place place' → Answers ctx dest place') :
    Answers ctx dest place ↔ Followed ctx dest place := by
  by_cases hout : ctx.outputs place = none
  · have hitem := itemAt_of_no_outputs hout
    refine iff_of_true (answers_of_no_outputs hout) ⟨fun _ h => absurd hout h, fun _ h => absurd hout h,
      fun _ h => absurd (entries_of_no_item hitem) h,
      fun _ x h => absurd h.1 (not_reaches_of_no_item hitem x), fun _ x h => ?_⟩
    rw [entries_of_no_item hitem] at h
    simp at h
  · by_cases hdest : AtDestination dest place
    · obtain ⟨outputs, houtputs⟩ := Option.ne_none_iff_exists'.1 hout
      rw [answers_at_destination_iff hdest houtputs]
      exact ⟨fun h => ⟨fun _ _ => h, fun hn => absurd hdest hn, fun hn => absurd hdest hn,
        fun hn => absurd hdest hn, fun hn => absurd hdest hn⟩, fun h => h.index hdest hout⟩
    · by_cases hitem : ctx.itemAt place = none
      · exact iff_of_false (answers_of_no_item hdest hout hitem) fun h => h.item hdest hout hitem
      · by_cases hentries : ctx.entries place = []
        · refine iff_of_true (answers_of_no_entries hdest hitem hentries)
            ⟨fun h => absurd h hdest, fun _ _ => hitem, fun _ h => absurd hentries h,
              fun _ x h => ?_, fun _ x h => ?_⟩
          · have hreaches := (reaches_elsewhere_iff hdest).1 h.1
            rw [hentries] at hreaches
            simp at hreaches
          · rw [hentries] at h
            simp at h
        · rw [answers_of_entries_iff hdest hentries fun p hp hinput =>
            hbehind _ ⟨hdest, p, hp, hinput, rfl⟩]
          constructor
          · rintro ⟨hinput, hagree⟩
            exact ⟨fun h => absurd h hdest, fun _ _ => hitem, fun _ _ => hinput,
              fun _ x hx => ((hagree x).2 hx).1, fun _ x hx hall => (hagree x).1 ⟨hx, hall⟩⟩
          · intro h
            refine ⟨h.inRange hdest hentries, fun x => ⟨fun hx => h.sound hdest x hx.1 hx.2, fun hx => ?_⟩⟩
            exact agreed_of_onlyMatch hdest hx (h.complete hdest x hx)

end Answers

/-! ### Finitely many links -/

namespace RunContext

variable (ctx : RunContext)

/-- The runs of the nodes and those that stand for pinned items. -/
def tasks : List ITaskData :=
  (ctx.runData.toList.flatMap fun runData => runData.values.flatten) ++
    ctx.pinData.toList.flatMap fun pinData =>
      pinData.values.flatMap fun items => (pinDataToTask (some items)).toList

/-- The entries of all items. -/
def allEntries : List IPairedItemData :=
  ctx.tasks.flatMap fun task => task.main.toList.flatMap fun main =>
    main.flatMap fun items => items.toList.flatMap fun items =>
      items.flatMap fun item => normalizePairedItem (ctx.pairedItem item)

/-- Where the entries can lead. -/
def allPlaces : List Place :=
  ctx.allEntries.flatMap fun p =>
    (p.sourceOverwrite :: none :: ctx.tasks.flatMap fun task => task.source.getD []).map fun source =>
      ⟨source, p.item⟩

variable {ctx}

theorem mem_of_elementAt {α : Type} {l : List α} {i : ℤ} {a : α} (h : elementAt l i = some a) :
    a ∈ l := by
  unfold elementAt at h
  split_ifs at h
  exact List.mem_of_getElem? h

theorem mem_tasks {source : ISourceData} {task : ITaskData} (h : ctx.getTaskData source = some task) :
    task ∈ ctx.tasks := by
  unfold getTaskData at h
  rcases Option.or_eq_some_iff.1 h with h | ⟨-, h⟩
  · obtain ⟨runs, hruns, htask⟩ := Option.bind_eq_some_iff.1 h
    obtain ⟨runData, hrunData, hget⟩ := Option.bind_eq_some_iff.1 hruns
    refine List.mem_append_left _ ?_
    rw [hrunData, Option.toList_some, List.flatMap_singleton]
    exact List.mem_flatten.2 ⟨runs, (Dict.mem_values_iff _ _).2 ⟨_, hget⟩, mem_of_elementAt htask⟩
  · obtain ⟨items, hitems, rfl⟩ := Option.map_eq_some_iff.1 h
    unfold getPinDataIfManualExecution at hitems
    split_ifs at hitems
    obtain ⟨pinData, hpinData, hget⟩ := Option.bind_eq_some_iff.1 hitems
    refine List.mem_append_right _ ?_
    rw [hpinData, Option.toList_some, List.flatMap_singleton]
    exact List.mem_flatMap.2 ⟨items, (Dict.mem_values_iff _ _).2 ⟨_, hget⟩, List.mem_singleton_self _⟩

theorem mem_allEntries {place : Place} {p : IPairedItemData} (hp : p ∈ ctx.entries place) :
    p ∈ ctx.allEntries := by
  unfold entries at hp
  cases hitem : ctx.itemAt place with
  | none =>
    rw [hitem] at hp
    cases hp
  | some item =>
    rw [hitem] at hp
    obtain ⟨outputs, houtputs, hitem⟩ := Option.bind_eq_some_iff.1 hitem
    obtain ⟨source, -, houtputs⟩ := Option.bind_eq_some_iff.1 houtputs
    obtain ⟨main, hmain, houtputs⟩ := Option.bind_eq_some_iff.1 houtputs
    obtain ⟨task, htask, hmain⟩ := Option.bind_eq_some_iff.1 hmain
    refine List.mem_flatMap.2 ⟨task, mem_tasks htask, ?_⟩
    rw [hmain, Option.toList_some, List.flatMap_singleton]
    refine List.mem_flatMap.2 ⟨some outputs, mem_of_elementAt (Option.join_eq_some_iff.1 houtputs), ?_⟩
    rw [Option.toList_some, List.flatMap_singleton]
    exact List.mem_flatMap.2 ⟨item, mem_of_elementAt hitem, hp⟩

theorem mem_allPlaces {place place' : Place} (h : place' ∈ ctx.links place) :
    place' ∈ ctx.allPlaces := by
  obtain ⟨p, hp, rfl⟩ := List.mem_map.1 h
  refine List.mem_flatMap.2 ⟨p, mem_allEntries hp, List.mem_map.2 ⟨_, ?_, rfl⟩⟩
  cases p.sourceOverwrite with
  | some source => exact List.mem_cons_self
  | none =>
    refine List.mem_cons_of_mem _ ?_
    rw [Option.none_or]
    cases hjoin : (elementAt (ctx.sources place) (p.input.getD 0)).join with
    | none => exact List.mem_cons_self
    | some source =>
      refine List.mem_cons_of_mem _ ?_
      have hmem := mem_of_elementAt (Option.join_eq_some_iff.1 hjoin)
      unfold sources at hmem
      cases htask : place.source.bind ctx.getTaskData with
      | none =>
        rw [htask] at hmem
        cases hmem
      | some task =>
        rw [htask] at hmem
        obtain ⟨source', -, htask⟩ := Option.bind_eq_some_iff.1 htask
        exact List.mem_flatMap.2 ⟨task, mem_tasks htask, hmem⟩

/-- Following acyclic links ends. -/
theorem wellFounded_links (hacyclic : Acyclic ctx.links) :
    WellFounded fun place' place => place' ∈ ctx.links place := by
  refine hacyclic.wellFounded_of_finite_children (ctx.allPlaces.finite_toSet.subset ?_)
  rintro place' ⟨place, h⟩
  exact mem_allPlaces h

end RunContext

/-! ### All calls -/

/-- **Every call returns**, when it may be deep enough. -/
theorem getPairedItem_returns {ctx : RunContext} (hacyclic : Acyclic ctx.links) (dest : String)
    (place : Place) : ∃ N, ReturnsWithin ctx dest place N := by
  induction place using (RunContext.wellFounded_links hacyclic).induction with
  | _ place ih =>
    refine returns_of_calls fun place' hcall => ?_
    obtain ⟨-, p, hp, -, rfl⟩ := hcall
    exact ih _ (List.mem_map.2 ⟨p, hp, rfl⟩)

/-- A node after another one, with an item that is paired with a sixth input. -/
def noSuchInput : RunContext where
  runData := some (.ofList
    [("A", [{ source := some [], main := some [some [0]] }]),
      ("B", [{ source := some [some { previousNode := "A" }], main := some [some [1]] }])])
  pairedItem := fun item => if item = 1 then some (.one (.data { item := 0, input := some 5 })) else none

theorem acyclic_noSuchInput : Acyclic noSuchInput.links := by
  -- no link leads to a source
  refine .of_rank (fun place => if place.source = none then 1 else 0) fun place place' h => ?_
  obtain ⟨p, hp, rfl⟩ := List.mem_map.1 h
  have hsource : place.source ≠ none := by
    intro hnone
    rw [entries_of_no_item (itemAt_of_no_outputs (by rw [RunContext.outputs, hnone]; rfl))] at hp
    cases hp
  have hentry : p = { item := 0, input := some 5 } := by
    have hall : ∀ p ∈ noSuchInput.allEntries, p = { item := 0, input := some 5 } := by
      decide +kernel
    exact hall p (RunContext.mem_allEntries hp)
  have hlength : (noSuchInput.sources place).length ≤ 1 := by
    have hall : ∀ task ∈ noSuchInput.tasks, (task.source.getD []).length ≤ 1 := by decide +kernel
    unfold RunContext.sources
    cases htask : place.source.bind noSuchInput.getTaskData with
    | none => simp
    | some task =>
      obtain ⟨source, -, htask⟩ := Option.bind_eq_some_iff.1 htask
      exact hall task (RunContext.mem_tasks htask)
  have hnext : (noSuchInput.next place p).source = none := by
    have hfive : (5 : ℤ).toNat = 5 := rfl
    rw [hentry, RunContext.next]
    simp [elementAt, hfive, List.getElem?_eq_none (show (noSuchInput.sources place).length ≤ 5 by omega)]
  simp [hsource, hnext]

/-- Two nodes, of which one has two items that are merged, and a third item that is paired with both. -/
def twoMatches : RunContext where
  runData := some (.ofList
    [("A", [{ source := some [], main := some [some [0, 1]] }]),
      ("B", [{ source := some [some { previousNode := "A" }], main := some [some [2, 3]] }]),
      ("C", [{ source := some [some { previousNode := "B" }], main := some [some [4]] }])])
  pairedItem := fun item =>
    if item = 2 then some (.array [.number 0, .number 1])
    else if item = 3 then some (.one (.number 0))
    else if item = 4 then some (.array [.number 0, .number 1]) else none

/-- One branch has two matches and the other one of them: that one is returned. -/
example : getPairedItem twoMatches 3 "A" (some { previousNode := "C" }) (.number 0) "" none =
    .ok (some 0) := by decide +kernel

end WorkflowDataProxy

end N8n
