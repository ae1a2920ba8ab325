import N8n.Workflow.Connections

/-!
# The `Workflow` class

The state of a workflow and the operations of `packages/workflow/src/workflow.ts` that build and
change it.

* `Workflow.setNodes`, `Workflow.setConnections`, `Workflow.create`: construction;
* `renameNodeInParameterValue`, `Workflow.renameNode`: renaming a node;
* `Workflow.getHighestNode`: the top-most enabled ancestors of a node.

Node parameters are rewritten by `applyAccessPatterns`, a text replacement that the functions here
take as an argument.
-/

namespace N8n

/-- The values of the `executionOrder` setting. -/
inductive ExecutionOrder
  | v0
  | v1
  deriving DecidableEq

/-- A workflow; its nodes are stored under their names. -/
structure Workflow where
  nodes : Dict String INode
  connectionsBySourceNode : IConnections
  connectionsByDestinationNode : IConnections
  executionOrder : Option ExecutionOrder := none
  nodes_name : ∀ k n, nodes.get? k = some n → n.name = k

namespace Workflow

/-- `getNode`. -/
def getNode (w : Workflow) (nodeName : String) : Option INode := w.nodes.get? nodeName

/-- The nodes as an object keyed by name. -/
def nodesByName (nodes : List INode) : Dict String INode :=
  nodes.foldl (fun d n => d.set n.name n) Dict.empty

theorem nodesByName_name (nodes : List INode) (k : String) (n : INode)
    (h : (nodesByName nodes).get? k = some n) : n.name = k := by
  suffices ∀ d : Dict String INode, (∀ k n, d.get? k = some n → n.name = k) →
      ∀ k n, (nodes.foldl (fun d n => d.set n.name n) d).get? k = some n → n.name = k from
    this Dict.empty (fun _ _ h => by cases h) k n h
  clear h k n
  induction nodes with
  | nil => exact fun d hd => hd
  | cons m nodes ih =>
    refine fun d hd => ih _ fun k n hk => ?_
    rw [Dict.get?_set] at hk
    split_ifs at hk with hkm
    · cases hk; exact hkm.symm
    · exact hd k n hk

/-- `setNodes`. -/
def setNodes (w : Workflow) (nodes : List INode) : Workflow :=
  { w with nodes := nodesByName nodes, nodes_name := nodesByName_name nodes }

/-- `setConnections`. -/
def setConnections (w : Workflow) (connections : IConnections) : Workflow :=
  { w with
    connectionsBySourceNode := connections
    connectionsByDestinationNode := mapConnectionsByDestination connections }

/-- A workflow without nodes and connections. -/
def blank (executionOrder : Option ExecutionOrder) : Workflow where
  nodes := Dict.empty
  connectionsBySourceNode := Dict.empty
  connectionsByDestinationNode := Dict.empty
  executionOrder := executionOrder
  nodes_name := fun _ _ h => by cases h

/-- The constructor, over the step that adds the default values to the parameters of a node. -/
def create (addDefaultValues : INode → Except JsError INode) (nodes : List INode)
    (connections : IConnections) (executionOrder : Option ExecutionOrder) :
    Except JsError Workflow := do
  let nodes ← nodes.mapM addDefaultValues
  return ((blank executionOrder).setNodes nodes).setConnections connections

/-- `isLegacyExecutionOrder`. -/
def isLegacyExecutionOrder (w : Workflow) : Bool := w.executionOrder ≠ some .v1

/-- The input lists of a node by type `main`, as the destination index has them. -/
def mainInputs (w : Workflow) (nodeName : String) : Option NodeInputConnections :=
  (w.connectionsByDestinationNode.get? nodeName).bind (·.get? .main)

/-! ### `renameNode` -/

/-- The names that `renameNode` refuses. -/
def restrictedKeys : List String :=
  ["hasOwnProperty", "isPrototypeOf", "propertyIsEnumerable", "toLocaleString", "toString",
    "valueOf", "constructor", "prototype", "__proto__", "__defineGetter__", "__defineSetter__",
    "__lookupGetter__", "__lookupSetter__"]

/-- `toLowerCase` on a text. -/
def toLowerCase (s : String) : String := String.ofList (s.toList.map Char.toLower)

/-- Whether `renameNode` refuses a new name. -/
def isRestricted (newName : String) : Bool :=
  (restrictedKeys.map toLowerCase).contains (toLowerCase newName)

section Parameters

variable (applyAccessPatterns : String → String → String → String)

mutual

/-- `renameNodeInParameterValue`; a `null` comes out as an empty object. -/
def renameNodeInParameterValue (currentName newName : String) (hasRenamableContent : Bool) :
    JsValue → JsValue
  | .str s =>
    if s.toList.head? = some '=' ∨ hasRenamableContent then
      .str (applyAccessPatterns s currentName newName)
    else .str s
  | .arr xs => .arr (renameElements currentName newName xs)
  | .null => .obj []
  | .obj props => .obj (renameProperties currentName newName hasRenamableContent props)
  | .undefined => .undefined
  | .bool b => .bool b
  | .num q => .num q

/-- The elements of an array; the flag is not handed down to them. -/
def renameElements (currentName newName : String) : List JsValue → List JsValue
  | [] => []
  | x :: xs =>
    renameNodeInParameterValue currentName newName false x :: renameElements currentName newName xs

/-- The properties of an object. -/
def renameProperties (currentName newName : String) (hasRenamableContent : Bool) :
    List (String × JsValue) → List (String × JsValue)
  | [] => []
  | (k, v) :: props =>
    (k, renameNodeInParameterValue currentName newName hasRenamableContent v) ::
      renameProperties currentName newName hasRenamableContent props

end

/-- The node types whose code, top-level HTML and form HTML are renamed as well. -/
def NODES_WITH_RENAMABLE_CONTENT : List String :=
  ["n8n-nodes-base.code", "n8n-nodes-base.function", "n8n-nodes-base.functionItem",
    "n8n-nodes-base.aiTransform"]

/-- The node types whose `html` parameter is renamed as well. -/
def NODES_WITH_RENAMEABLE_TOPLEVEL_HTML_CONTENT : List String :=
  ["n8n-nodes-base.mailgun", "n8n-nodes-base.html"]

/-- The node types whose form fields are renamed as well. -/
def NODES_WITH_RENAMABLE_FORM_HTML_CONTENT : List String := ["n8n-nodes-base.form"]

/-- Rewrite one property of an object; a missing property is written as `undefined`. -/
def updateProperty (key : String) (f : JsValue → JsValue) (o : JsObject) : JsObject :=
  EntryList.write key (f (o.get key)) o

/-- The HTML of one form field. -/
def renameFormField (renameField : JsValue → JsValue) : JsValue → JsValue
  | .obj props =>
    if JsObject.get props "fieldType" = .str "html" ∧ (EntryList.lookup "html" props).isSome then
      .obj (updateProperty "html" renameField props)
    else .obj props
  | v => v

/-- `renameFormFields`. -/
def renameFormFields (renameField : JsValue → JsValue) (parameters : JsObject) : JsObject :=
  match parameters.get "formFields" with
  | .obj formFields =>
    match JsObject.get formFields "values" with
    | .arr values =>
      EntryList.write "formFields"
        (.obj (EntryList.write "values" (.arr (values.map (renameFormField renameField))) formFields))
        parameters
    | _ => parameters
  | _ => parameters

/-- The parameters of a node after a renaming. -/
def renameParameters (currentName newName : String) (n : INode) : INode :=
  let rename := renameNodeInParameterValue applyAccessPatterns currentName newName
  let parameters : JsObject :=
    renameProperties applyAccessPatterns currentName newName false n.parameters
  let parameters := if n.type ∈ NODES_WITH_RENAMABLE_CONTENT then
    updateProperty "jsCode" (rename true) parameters else parameters
  let parameters := if n.type ∈ NODES_WITH_RENAMEABLE_TOPLEVEL_HTML_CONTENT then
    updateProperty "html" (rename true) parameters else parameters
  let parameters := if n.type ∈ NODES_WITH_RENAMABLE_FORM_HTML_CONTENT then
    renameFormFields (rename true) parameters else parameters
  { n with parameters := parameters }

end Parameters

/-- Move the node `currentName` to the name `newName`. -/
def renameKey (currentName newName : String) (nodes : Dict String INode) : Dict String INode :=
  match nodes.get? currentName with
  | none => nodes
  | some n => (nodes.set newName { n with name := newName }).erase currentName

/-- Give the connections that leave `currentName` the source `newName`. -/
def renameSource (currentName newName : String) (c : IConnections) : IConnections :=
  match c.get? currentName with
  | none => c
  | some ofNode => (c.set newName ofNode).erase currentName

/-- Give a connection to `currentName` the target `newName`. -/
def renameConnection (currentName newName : String) (c : IConnection) : IConnection :=
  if c.node = currentName then { c with node := newName } else c

/-- Give the connections that enter `currentName` the target `newName`. -/
def renameTargets (currentName newName : String) (c : IConnections) : IConnections :=
  c.mapValues fun ofNode => ofNode.mapValues fun lists =>
    lists.map (Option.map (List.map (renameConnection currentName newName)))

theorem renameKey_name {currentName newName : String} {nodes : Dict String INode}
    (h : ∀ k n, nodes.get? k = some n → n.name = k) (k : String) (n : INode)
    (hk : (renameKey currentName newName nodes).get? k = some n) : n.name = k := by
  unfold renameKey at hk
  split at hk
  · exact h k n hk
  · rw [Dict.get?_erase] at hk
    split_ifs at hk with h1
    rw [Dict.get?_set] at hk
    split_ifs at hk with h2
    · cases hk; exact h2.symm
    · exact h k n hk

/-- `renameNode`; the destination index is not touched. -/
def renameNode (applyAccessPatterns : String → String → String → String) (w : Workflow)
    (currentName newName : String) : Except JsError Workflow :=
  if isRestricted newName then
    .error (.applicationError s!"Node name \"{newName}\" is a restricted name.")
  else
    .ok { w with
      nodes := (renameKey currentName newName w.nodes).mapValues
        (renameParameters applyAccessPatterns currentName newName)
      connectionsBySourceNode :=
        renameTargets currentName newName (renameSource currentName newName w.connectionsBySourceNode)
      nodes_name := fun k n hk => by
        rw [Dict.get?_mapValues, Option.map_eq_some_iff] at hk
        obtain ⟨m, hm, rfl⟩ := hk
        exact renameKey_name w.nodes_name k m hm }

/-! ### `getHighestNode` -/

/-- What the object `nodes` answers of the flag `disabled` of a node.  The members of
`Object.prototype` are in every object and have no flags. -/
def disabledFlag (w : Workflow) (nodeName : String) : Option (Option Bool) :=
  match w.getNode nodeName with
  | some node => some node.disabled
  | none => if nodeName ∈ objectPrototypeKeys then some none else none

/-- `getHighestNode`, threading the list of checked nodes that its recursive calls share.  Every
recursive call that goes on checks one more key of the destination index, whose method a key
`hasOwnProperty` hides. -/
def getHighestNodeFuel (w : Workflow) :
    ℕ → String → Option ℕ → List String → Except JsError (List String × List String)
  | 0, _, _, checkedNodes => .ok ([], checkedNodes)
  | fuel + 1, nodeName, nodeConnectionIndex, checkedNodes => do
    let disabled ← orTypeError (w.disabledFlag nodeName)
    if w.connectionsByDestinationNode.has "hasOwnProperty" then .error .typeError else
    let currentHighest := if disabled = some false then [nodeName] else []
    match w.mainInputs nodeName with
    | none => return (currentHighest, checkedNodes)
    | some lists =>
      if nodeName ∈ checkedNodes then return (currentHighest, checkedNodes) else
        let lists := match nodeConnectionIndex with
          | none => lists
          | some i => [(lists[i]?).bind id]
        (lists.flatMap (·.getD [])).foldlM (fun (acc : List String × List String) connection =>
          if connection.node ∈ acc.2 then return acc else
            match w.disabledFlag connection.node with
            | none => return acc
            | some disabled => do
              let (addNodes, checkedNodes) ← getHighestNodeFuel w fuel connection.node none acc.2
              let addNodes := if addNodes = [] ∧ disabled ≠ some true then [connection.node]
                else addNodes
              return (addNodes.foldl (fun r a => if a ∈ r then r else r ++ [a]) acc.1, checkedNodes))
          ([], checkedNodes ++ [nodeName])

/-- `getHighestNode`. -/
def getHighestNode (w : Workflow) (nodeName : String) (nodeConnectionIndex : Option ℕ) :
    Except JsError (List String) :=
  (·.1) <$> getHighestNodeFuel w (w.connectionsByDestinationNode.keys.length + 1) nodeName
    nodeConnectionIndex []

/-- `getParentNodes`. -/
def getParentNodes (w : Workflow) (nodeName : String) : List String :=
  N8n.getParentNodes w.connectionsByDestinationNode nodeName

end Workflow

end N8n
