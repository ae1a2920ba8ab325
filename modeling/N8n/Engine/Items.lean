import N8n.Data.Interfaces

/-!
# What the execution loop does to items

The passages of `processRunExecutionData` that read or rewrite the items of a node run
(`packages/core/src/execution-engine/workflow-execute.ts`).

* `resolveSourceOverwrite`, `updatePairedItems`: the items a node receives name their origin;
* `assignPairedItems`, `addOutputData`: the items a node returns;
* `mergeErrors`: items with an error carry only its message.

Iterating over a list that is missing, or reading its length, throws a `TypeError`.
-/

namespace N8n

/-! ### The items a node receives -/

/-- `resolveSourceOverwrite`. -/
def resolveSourceOverwrite (item : INodeExecutionData) (executionData : IExecuteData) :
    Option ISourceData :=
  match executionData.metadata with
  | none => none
  | some metadata =>
    if !metadata.preserveSourceOverwrite then none
    else if metadata.preservedSourceOverwrite.isSome then metadata.preservedSourceOverwrite
    else
      match item.pairedItem with
      | some (.data p) => p.sourceOverwrite
      | _ => none

/-- An item with its index and the index of its input as its origin. -/
def updatePairedItem (executionData : IExecuteData) (inputIndex itemIndex : ℕ)
    (item : INodeExecutionData) : INodeExecutionData :=
  { item with pairedItem := some (.data
      { item := itemIndex
        input := if inputIndex = 0 then none else some inputIndex
        sourceOverwrite := resolveSourceOverwrite item executionData }) }

/-- The lists of one connection type, from input `inputIndex` on. -/
def updateInputs (executionData : IExecuteData) : ℕ → ItemLists → Except JsError ItemLists
  | _, [] => .ok []
  | inputIndex, none :: rest => (none :: ·) <$> updateInputs executionData (inputIndex + 1) rest
  | inputIndex, some .null :: rest =>
    (some .null :: ·) <$> updateInputs executionData (inputIndex + 1) rest
  | _, some .undefined :: _ => .error .typeError
  | inputIndex, some (.items l) :: rest =>
    (some (.items (l.mapIdx (updatePairedItem executionData inputIndex))) :: ·) <$>
      updateInputs executionData (inputIndex + 1) rest

/-- The entry with the origins of its items updated. -/
def updatePairedItems (executionData : IExecuteData) : Except JsError IExecuteData := do
  let newTaskDataConnections ← executionData.data.entries.foldlM (fun data (type, lists) => do
    return data.set type (← updateInputs executionData 0 lists)) Dict.empty
  return { executionData with data := newTaskDataConnections }

/-! ### The items a node returns -/

/-- The number of items of a slot; none when it has no list. -/
def Cell.length? (c : Cell) : Option ℕ := c.items?.map List.length

/-- Give items without an origin the one that `origin` names; `none` when it names none for an item
that needs it. -/
def pairItems (origin : ℕ → Option ℕ) :
    ℕ → List INodeExecutionData → List INodeExecutionData × Bool
  | _, [] => ([], true)
  | index, item :: rest =>
    if item.pairedItem.isSome then
      let (rest, fixed) := pairItems origin (index + 1) rest
      (item :: rest, fixed)
    else
      match origin index with
      | none => (item :: rest, false)
      | some i =>
        let (rest, fixed) := pairItems origin (index + 1) rest
        ({ item with pairedItem := some (.data { item := i }) } :: rest, fixed)

/-- The loop of `assignPairedItems`, which ends at the first item that cannot be paired. -/
def pairLists (origin : ℕ → Option ℕ) : ItemLists → Except JsError ItemLists
  | [] => .ok []
  | some .null :: rest => (some .null :: ·) <$> pairLists origin rest
  | some (.items l) :: rest =>
    let (l, fixed) := pairItems origin 0 l
    if fixed then (some (.items l) :: ·) <$> pairLists origin rest else .ok (some (.items l) :: rest)
  | none :: _ | some .undefined :: _ => .error .typeError

/-- Whether the only output has as many items as the only input. -/
def sameNumberOfItems (lists main : ItemLists) : Except JsError Bool :=
  if lists.length = 1 ∧ main.length = 1 then do
    let outputLength ← orTypeError (ItemLists.read lists 0).length?
    return decide ((ItemLists.read main 0).length? = some outputLength)
  else .ok false

/-- `assignPairedItems`. -/
def assignPairedItems (nodeSuccessData : Option ItemLists) (executionData : IExecuteData) :
    Except JsError (Option ItemLists) :=
  match nodeSuccessData with
  | none => .ok none
  | some [] => .ok (some [])
  | some lists => do
    let main ← orTypeError (executionData.data.get? .main)
    let inputLength := (ItemLists.read main 0).length?
    let isSingleInputAndOutput := main.length = 1 ∧ inputLength = some 1
    let isSameNumberOfItems ← sameNumberOfItems lists main
    let isSingleOutput := lists.length = 1 ∧ (ItemLists.read lists 0).length? = some 1 ∧
      main.length = 1 ∧ 1 < inputLength.getD 0
    some <$> pairLists (fun index =>
      if isSingleInputAndOutput then some 0
      else if isSameNumberOfItems then some index
      else if isSingleOutput then some 0
      else none) lists

/-- The origins of all input items. -/
def inputOrigins : ℕ → ItemLists → List IPairedItemData
  | _, [] => []
  | inputIndex, some (.items l) :: rest =>
    l.mapIdx (fun itemIndex _ => { item := itemIndex, input := some inputIndex }) ++
      inputOrigins (inputIndex + 1) rest
  | inputIndex, _ :: rest => inputOrigins (inputIndex + 1) rest

/-- Whether the first item of the first list is there. -/
def hasFirstItem (nodeSuccessData : Option ItemLists) : Bool :=
  match (nodeSuccessData.map (ItemLists.read · 0)).bind Cell.items? with
  | some (_ :: _) => true
  | _ => false

/-- The `alwaysOutputData` setting: a node that returned no first item returns an empty one. -/
def addOutputData (node : INode) (executionData : IExecuteData) (nodeSuccessData : Option ItemLists) :
    Except JsError (Option ItemLists) :=
  if !hasFirstItem nodeSuccessData && node.alwaysOutputData = some true then do
    let main ← orTypeError (executionData.data.get? .main)
    let item := { emptyItem with pairedItem := some (.list (inputOrigins 0 main)) }
    return some (SparseArray.setAt (nodeSuccessData.getD []) 0 (.items [item]))
  else .ok nodeSuccessData

/-- The `message` of a value. -/
def JsValue.message : JsValue → Except JsError JsValue
  | .null | .undefined => .error .typeError
  | .obj props => .ok (JsObject.get props "message")
  | _ => .ok .undefined

/-- An item with an error carries its message only. -/
def mergeError (lineResult : INodeExecutionData) : Except JsError INodeExecutionData :=
  let error := JsObject.get lineResult.json "$error"
  if error ≠ .undefined ∧ JsObject.get lineResult.json "$json" ≠ .undefined then do
    let message ← error.message
    return { lineResult with error := some error, json := [("error", message)] }
  else
    match lineResult.error with
    | none | some .undefined => .ok lineResult
    | some error => do
      let message ← error.message
      return { lineResult with json := [("error", message)] }

/-- The lists of a finished run with the errors merged; all of them have to be there. -/
def mergeErrors (nodeSuccessData : Option ItemLists) : Except JsError ItemLists := do
  let lists ← orTypeError nodeSuccessData
  lists.mapM fun execution => do
    let l ← orTypeError ((execution.getD .undefined).items?)
    return some (.items (← l.mapM mergeError))

end N8n
