import N8n.Data.JsNumber
import N8n.Graph.DirectedGraph
import N8n.NodeParameters.GetNodeParameters

/-!
# The names of outputs and inputs

`packages/@n8n/workflow-sdk/src/codegen/semantic-registry.ts`: the outputs and inputs of a node are
named after its type and its parameters.

* `NodeJSON`: a node as a workflow file holds it, with the fields that names and declarations
  depend on;
* `nodeSemantics`: the table of the types with names of their own, which also answers the names of
  the members of `Object.prototype`;
* `getOutputName`, `getInputName`.
-/

namespace N8n

namespace Codegen

structure NodeJSON where
  id : String := ""
  name : Option String := none
  type : String
  parameters : Option JsObject := none
  onError : Option OnError := none
  position : Option (JsNumber × JsNumber) := none
  deriving DecidableEq

/-! ### Lengths -/

mutual

/-- The conversion to a text throws: an object has a property in place of the method `toString`. -/
def throwsAsText : JsValue → Bool
  | .obj props => props.any fun e => e.1 = "toString"
  | .arr xs => throwsAsTexts xs
  | _ => false

def throwsAsTexts : List JsValue → Bool
  | [] => false
  | x :: xs => throwsAsText x || throwsAsTexts xs

end

mutual

/-- The number of the text of an element of an array. -/
def elementNumber : JsValue → JsNumber
  | .undefined | .null => .finite 0
  | .bool _ | .obj _ => .nan
  | .num q => .finite q
  | .str s => .ofText (JsString.ofString s)
  | .arr xs => elementsNumber xs

/-- The number of the text of an array, which has a comma between two elements. -/
def elementsNumber : List JsValue → JsNumber
  | [] => .finite 0
  | x :: xs => if xs = [] then elementNumber x else .nan

end

/-- `Number`. -/
def toNumber (value : JsValue) : Except JsError JsNumber :=
  if throwsAsText value then .error .typeError
  else
    match value with
    | .undefined => .ok .nan
    | .bool b => .ok (.finite (if b then 1 else 0))
    | value => .ok (elementNumber value)

/-- The length of `Array.from({ length })`. -/
def arrayLength (length : JsValue) : Except JsError ℕ := do
  match ← toNumber length with
  | .finite q =>
    let n := if 0 ≤ q then ⌊q⌋.toNat else 0
    if n ≤ arrayLimit then return n else .error .rangeError
  | .infinity false => .error .rangeError
  | .infinity true | .nan => return 0

/-- `value?.length`. -/
def lengthOf : JsValue → JsValue
  | .arr xs => .num xs.length
  | .str s => .num (JsString.ofString s).length
  | .obj props => JsObject.get props "length"
  | _ => .undefined

/-! ### The registry -/

inductive CompositeType
  | ifElse
  | switchCase
  | merge
  | splitInBatches
  deriving DecidableEq

structure NodeSemantics where
  outputs : NodeJSON → Except JsError (List String)
  inputs : NodeJSON → Except JsError (List String)
  cycleOutput : Option String := none
  composite : Option CompositeType := none

def NodeJSON.param (node : NodeJSON) (key : String) : JsValue :=
  node.parameters.elim .undefined fun params => JsObject.get params key

/-- The number of rules of a switch, four if it has none. -/
def numCases (node : NodeJSON) : JsValue :=
  match node.param "rules" with
  -- an array has no property `rules`, but a method `values`, which takes no arguments
  | .arr _ => .num 0
  | rules => nullish (lengthOf (nullish (rules.prop "rules") (rules.prop "values"))) (.num 4)

def switchOutputs (node : NodeJSON) : Except JsError (List String) := do
  let n ← arrayLength (numCases node)
  return (List.range n).map (fun i => "case" ++ toString i) ++ ["fallback"]

def mergeInputs (node : NodeJSON) : Except JsError (List String) := do
  let n ← arrayLength (nullish (node.param "numberInputs") (.num 2))
  return (List.range n).map fun i => "branch" ++ toString i

/-- `NODE_SEMANTICS[type]`.  A member of `Object.prototype` has neither outputs nor inputs. -/
def nodeSemantics (type : String) : Option NodeSemantics :=
  if type = "n8n-nodes-base.if" then
    some {
      outputs := fun _ => .ok ["trueBranch", "falseBranch"]
      inputs := fun _ => .ok ["input"]
      composite := some .ifElse }
  else if type = "n8n-nodes-base.switch" then
    some {
      outputs := switchOutputs
      inputs := fun _ => .ok ["input"]
      composite := some .switchCase }
  else if type = "n8n-nodes-base.merge" then
    some {
      outputs := fun _ => .ok ["output"]
      inputs := mergeInputs
      composite := some .merge }
  else if type = "n8n-nodes-base.splitInBatches" then
    some {
      outputs := fun _ => .ok ["done", "loop"]
      inputs := fun _ => .ok ["input"]
      cycleOutput := some "loop"
      composite := some .splitInBatches }
  else if type ∈ objectPrototypeKeys then
    some { outputs := fun _ => .error .typeError, inputs := fun _ => .error .typeError }
  else none

def hasErrorOutput (node : NodeJSON) : Bool := node.onError = some .continueErrorOutput

def getErrorOutputIndex (type : String) (node : NodeJSON) : Except JsError ℕ :=
  match nodeSemantics type with
  | some semantics => (semantics.outputs node).map List.length
  | none => .ok 1

/-- The outputs or inputs that the registry names come first, then those named by their index. -/
def indexedName (names : List String) (other : String) (index : ℕ) : String :=
  names[index]?.getD (other ++ toString index)

def getOutputName (type : String) (index : ℕ) (node : NodeJSON) : Except JsError String := do
  let isError ← if hasErrorOutput node then (getErrorOutputIndex type node).map (· == index)
    else pure false
  if isError then return "error"
  else
    match nodeSemantics type with
    | none => return "output" ++ toString index
    | some semantics => return indexedName (← semantics.outputs node) "output" index

def getInputName (type : String) (index : ℕ) (node : NodeJSON) : Except JsError String :=
  match nodeSemantics type with
  | none => .ok ("input" ++ toString index)
  | some semantics => (semantics.inputs node).map fun names => indexedName names "input" index

end Codegen

end N8n
