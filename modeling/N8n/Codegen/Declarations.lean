import N8n.Codegen.SemanticGraph
import N8n.Codegen.VariableNames
import N8n.Lib.PostOrder

/-!
# The declarations of generated code

`packages/@n8n/workflow-sdk/src/codegen/code-generator.ts`: each node of a workflow, and each of its
sub-nodes, is declared as a constant.  An initial value is kept as far as variables can occur in it;
what a call is given besides (parameters, credentials, positions and so on) are literals.

* `Codegen.WorkflowGraph`, `CompositeVariables`: the graph, and the nodes that a composite tree wants
  declared;
* `Codegen.collectSubnodesAsVariables`: the sub-nodes, in the order of their declarations;
* `Codegen.generateSubnodesConfigWithVarRefs`, `generateSubnodesConfig`: the sub-nodes of a node, by
  their variables or as calls;
* `Codegen.generateNodeCall`, `generateCode`.
-/

namespace N8n

namespace Codegen

/-! ### Graphs -/

/-- A semantic graph: nodes have the names they are stored under, and sub-nodes exist. -/
structure WorkflowGraph extends SemanticGraph where
  name_eq : ∀ name node, nodes.get? name = some node → node.name = name
  subnodes_exist : ∀ name node, nodes.get? name = some node → ∀ sub ∈ node.subnodes,
    nodes.has sub.subnodeName = true

/-- The variables of a composite tree: nodes of the graph, in the order of their declarations. -/
structure CompositeVariables (graph : WorkflowGraph) where
  entries : Dict String SemanticNode := Dict.empty
  of_graph : ∀ name node, entries.get? name = some node → graph.nodes.get? name = some node

/-! ### Sub-nodes -/

/-- `AI_CONNECTION_TO_CONFIG_KEY`. -/
def aiConnectionToConfigKey : String → String
  | "ai_languageModel" => "model"
  | "ai_memory" => "memory"
  | "ai_tool" => "tools"
  | "ai_outputParser" => "outputParser"
  | "ai_embedding" => "embedding"
  | "ai_vectorStore" => "vectorStore"
  | "ai_retriever" => "retriever"
  | "ai_document" => "documentLoader"
  | "ai_textSplitter" => "textSplitter"
  | "ai_reranker" => "reranker"
  | _ => "undefined"

/-- `AI_CONNECTION_TO_BUILDER`. -/
def aiConnectionToBuilder : String → String
  | "ai_languageModel" => "languageModel"
  | "ai_memory" => "memory"
  | "ai_tool" => "tool"
  | "ai_outputParser" => "outputParser"
  | "ai_embedding" => "embedding"
  | "ai_vectorStore" => "vectorStore"
  | "ai_retriever" => "retriever"
  | "ai_document" => "documentLoader"
  | "ai_textSplitter" => "textSplitter"
  | "ai_reranker" => "reranker"
  | _ => "undefined"

/-- `AI_ALWAYS_ARRAY_TYPES`. -/
def aiAlwaysArrayTypes : List String := ["ai_tool"]

/-- `AI_OPTIONAL_ARRAY_TYPES`. -/
def aiOptionalArrayTypes : List String :=
  ["ai_languageModel", "ai_document", "ai_embedding", "ai_reranker"]

/-- What a key of a sub-node configuration is given. -/
inductive ConfigValue (α : Type)
  | single (a : α)
  | array (l : List α)
  | nested (l : List α)

def ConfigValue.values {α : Type} : ConfigValue α → List α
  | single a => [a]
  | array l | nested l => l

/-- A configuration of sub-nodes; without entries it is left out. -/
abbrev SubnodesConfig (α : Type) := List (String × ConfigValue α)

section Config

variable {α : Type}

/-- The sub-nodes of a node by connection type, without the node itself. -/
def groupSubnodes (value : SubnodeConnection → Option α) (node : SemanticNode) :
    Dict String (List (α × ℕ)) :=
  node.subnodes.foldl (fun grouped sub =>
    if sub.subnodeName = node.name then grouped
    else
      match value sub with
      | none => grouped
      | some a => grouped.set sub.connectionType
        ((grouped.get? sub.connectionType).getD [] ++ [(a, sub.index)])) Dict.empty

/-- The value for the sub-nodes of one type. -/
def configValue? (connType : String) : List (α × ℕ) → Option (ConfigValue α)
  | [] => none
  | first :: rest =>
    let names := first.1 :: rest.map Prod.fst
    if connType ∈ aiAlwaysArrayTypes then some (.array names)
    else if connType ∈ aiOptionalArrayTypes then
      if rest = [] then some (.single first.1)
      else if connType = "ai_languageModel" ∧ rest.all fun e => e.2 = first.2 then
        some (.nested names)
      else some (.array names)
    else some (.single first.1)

def configEntries (grouped : List (String × List (α × ℕ))) : SubnodesConfig α :=
  grouped.filterMap fun e =>
    (configValue? e.1 e.2).map fun value => (aiConnectionToConfigKey e.1, value)

end Config

/-- The sub-nodes of a node, by their variables. -/
def generateSubnodesConfigWithVarRefs (node : SemanticNode) (names : VarNameContext) :
    SubnodesConfig String :=
  configEntries (groupSubnodes (fun sub => some (getVarName sub.subnodeName names)) node).entries

/-- A call that makes a sub-node, with the calls for its own sub-nodes inside. -/
inductive SubnodeCall
  | call (builderName type : String) (subnodes : List (String × ConfigValue SubnodeCall))

/-- The sub-nodes of a node, as calls. -/
def generateSubnodesConfigForNode (graph : WorkflowGraph)
    (call : SemanticNode → String → Except JsError SubnodeCall) (node : SemanticNode) :
    Except JsError (SubnodesConfig SubnodeCall) := do
  let grouped := (groupSubnodes (fun sub => graph.nodes.get? sub.subnodeName) node).entries
  let calls ← grouped.mapM fun e => do
    let made ← e.2.mapM fun n => do
      let c ← call n.1 (aiConnectionToBuilder e.1)
      pure (c, n.2)
    pure (e.1, made)
  pure (configEntries calls)

/-- A call that makes a sub-node; a call stack has room for so many. -/
def generateSubnodeCall (graph : WorkflowGraph) :
    ℕ → SemanticNode → String → Except JsError SubnodeCall
  | 0, _, _ => .error .rangeError
  | stack + 1, subnodeNode, builderName => do
    let nested ← generateSubnodesConfigForNode graph (generateSubnodeCall graph stack) subnodeNode
    pure (.call builderName subnodeNode.type nested)

/-! ### Declarations -/

/-- The initial value of a constant. -/
inductive Initializer
  /-- `languageModel({ type, config: { subnodes } })` and so on. -/
  | subnode (builderName type : String) (subnodes : SubnodesConfig String)
  /-- `sticky(content, [nodes])`. -/
  | sticky (nodesInside : List String)
  /-- `merge({ config })`. -/
  | merge
  /-- `node({ type, config: { subnodes } })` or `trigger(…)`, with variables for sub-nodes. -/
  | node (factory type : String) (subnodes : SubnodesConfig String)
  /-- The same with calls for sub-nodes. -/
  | inlineNode (factory type : String) (subnodes : SubnodesConfig SubnodeCall)
  /-- `workflow(id, name)`. -/
  | workflow

/-- The variables that occur in an initial value. -/
def Initializer.variableNames : Initializer → List String
  | subnode _ _ subnodes | node _ _ subnodes => subnodes.flatMap fun e => e.2.values
  | sticky nodesInside => nodesInside
  | merge | inlineNode _ _ _ | workflow => []

/-- `const varName = initializer;` -/
structure Declaration where
  varName : String
  initializer : Initializer

def isStickyNote (type : String) : Bool := type = "n8n-nodes-base.stickyNote"

def isMergeType (type : String) : Bool := type = "n8n-nodes-base.merge"

def isTriggerType (type : String) : Bool :=
  "trigger".toList <:+: type.toLower.toList || type = "n8n-nodes-base.webhook"

section Generate

variable (graph : WorkflowGraph) (variableNodes : Dict String SemanticNode)

/-- The sub-nodes that are declared as variables, with the functions that make them: those of all
nodes and of their sub-nodes, each after its own sub-nodes.  A node of the main flow is left out. -/
def collectSubnodesAsVariables : Dict String (SemanticNode × String) :=
  PostOrder.collectAll (fun name => (graph.nodes.get? name).elim [] (·.subnodes))
    SubnodeConnection.subnodeName
    (fun name => !graph.nodes.has name || variableNodes.has name)
    (fun sub subnodeVariables =>
      match graph.nodes.get? sub.subnodeName with
      | none => subnodeVariables
      | some node => subnodeVariables.set sub.subnodeName
        (node, aiConnectionToBuilder sub.connectionType))
    (graph.nodes.keys.length + 1) graph.nodes.keys Dict.empty

/-- `Number(value) || 0`. -/
def numberOrZero (value : JsValue) : Except JsError JsNumber := do
  let x ← toNumber value
  pure (if x = .nan then .finite 0 else x)

def NodeJSON.positionOrOrigin (node : NodeJSON) : JsNumber × JsNumber :=
  node.position.getD (.finite 0, .finite 0)

/-- Whether a position is inside the bounds of a sticky note. -/
def insideBounds (pos : JsNumber × JsNumber) (width height : JsNumber)
    (nodePos : JsNumber × JsNumber) : Bool :=
  pos.1.le nodePos.1 && nodePos.1.le (pos.1.add width) && pos.2.le nodePos.2 &&
    nodePos.2.le (pos.2.add height)

/-- The nodes whose corner is inside the bounds of a sticky note, other sticky notes left out. -/
def nodesInsideSticky (stickyNode : SemanticNode) : Except JsError (List String) := do
  let width ← numberOrZero (stickyNode.json.param "width")
  let height ← numberOrZero (stickyNode.json.param "height")
  if width = .finite 0 ∨ height = .finite 0 then pure []
  else pure ((graph.nodes.entries.filter fun e => !isStickyNote e.2.type &&
    insideBounds stickyNode.json.positionOrOrigin width height e.2.json.positionOrOrigin).map
      Prod.fst)

/-- The variables of these nodes. -/
def getNodesInsideSticky (stickyNode : SemanticNode) (names : VarNameContext) :
    Except JsError (List String) := do
  let nodesInside ← nodesInsideSticky graph stickyNode
  pure (nodesInside.filterMap fun nodeName =>
    (names.nodeNameToVarName.get? nodeName).filter fun varName => varName ≠ "")

/-- The content of a sticky note is a text, if it has one. -/
def contentCheck (node : SemanticNode) : Except JsError Unit :=
  match node.json.param "content" with
  | .undefined | .null | .str _ => .ok ()
  | _ => .error .typeError

def generateStickyCall (node : SemanticNode) (names : VarNameContext) :
    Except JsError Initializer := do
  contentCheck node
  let nodesInside ← getNodesInsideSticky graph node names
  pure (.sticky nodesInside)

/-- A node, with variables for its sub-nodes when there are such variables. -/
def generateNodeConfig (stack : ℕ) (node : SemanticNode)
    (subnodeVariables : Dict String (SemanticNode × String)) (names : VarNameContext)
    (factory : String) : Except JsError Initializer :=
  if 0 < subnodeVariables.entries.length then
    pure (.node factory node.type (generateSubnodesConfigWithVarRefs node names))
  else do
    let subnodes ← generateSubnodesConfigForNode graph (generateSubnodeCall graph stack) node
    pure (.inlineNode factory node.type subnodes)

def generateNodeCall (stack : ℕ) (subnodeVariables : Dict String (SemanticNode × String))
    (node : SemanticNode) (names : VarNameContext) : Except JsError Initializer :=
  if isStickyNote node.type then generateStickyCall graph node names
  else if isMergeType node.type then pure .merge
  else
    generateNodeConfig graph stack node subnodeVariables names
      (if isTriggerType node.type then "trigger" else "node")

/-- The declarations of sub-nodes; a name is given to a node that has none. -/
def generateSubnodeVariableDeclarations : List (String × SemanticNode × String) →
    VarNameContext → List Declaration × VarNameContext
  | [], names => ([], names)
  | (nodeName, node, builderName) :: rest, names =>
    let (varName, names) := getUniqueVarName nodeName names
    let call := Initializer.subnode builderName node.type
      (generateSubnodesConfigWithVarRefs node names)
    let (declarations, names) := generateSubnodeVariableDeclarations rest names
    (⟨varName, call⟩ :: declarations, names)

/-- The declarations of nodes. -/
def generateVariableDeclarations (stack : ℕ)
    (subnodeVariables : Dict String (SemanticNode × String)) :
    List (String × SemanticNode) → VarNameContext → Except JsError (List Declaration)
  | [], _ => pure []
  | (nodeName, node) :: rest, names => do
    let (varName, names) := getUniqueVarName nodeName names
    let nodeCall ← generateNodeCall graph stack subnodeVariables node names
    let declarations ← generateVariableDeclarations stack subnodeVariables rest names
    pure (⟨varName, nodeCall⟩ :: declarations)

end Generate

/-- The declarations of `generateCode`, in order: sub-nodes, nodes, and the workflow. -/
def generateCode (graph : WorkflowGraph) (tree : CompositeVariables graph) (stack : ℕ) :
    Except JsError (List Declaration) := do
  let names := registerAll graph.nodes.keys {}
  let subnodeVariables := collectSubnodesAsVariables graph tree.entries
  let (subnodes, names) := generateSubnodeVariableDeclarations subnodeVariables.entries names
  let nodes ← generateVariableDeclarations graph stack subnodeVariables tree.entries.entries names
  pure (subnodes ++ nodes ++ [⟨"wf", .workflow⟩])

end Codegen

end N8n
