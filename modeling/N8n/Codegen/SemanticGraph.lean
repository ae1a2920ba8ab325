import N8n.Codegen.SemanticRegistry
import N8n.Lib.Fresh

/-!
# The semantic graph of a workflow

`packages/@n8n/workflow-sdk/src/codegen/semantic-graph.ts`, `types.ts` and `normalizeConnections` of
`types/base.ts`: the connections of a workflow file are stored with its nodes, under the names of the
outputs and inputs.

* `WorkflowJSON`: the nodes and the connections of a workflow file;
* `SemanticNode`, `SemanticGraph`;
* `createNodes`, `parseMainConnections`, `parseErrorConnections`, `parseAiConnections`;
* `buildSemanticGraph`.

The annotations, which are computed from the connections afterwards, are left out, and so is the
version of a node, which is converted to a number.
-/

namespace N8n

namespace Codegen

/-! ### Workflow files -/

/-- The end of a connection in a file; a missing index stands for `0`. -/
structure ConnectionTarget where
  node : String
  type : String := "main"
  index : Option ℕ := none
  deriving DecidableEq

/-- The connections of one output: `null`, a list of ends, or a tuple in place of a list. -/
inductive Slot
  | null
  | targets (list : List ConnectionTarget)
  | tuple (node : String) (type : Option String) (index : Option ℕ)
  deriving DecidableEq

abbrev Connections := Dict String (Dict String (List Slot))

structure WorkflowJSON where
  nodes : List NodeJSON
  connections : Connections

/-- An end with its index. -/
structure Target where
  node : String
  type : String
  index : ℕ
  deriving DecidableEq

/-- `normalizeConnections`, for one output. -/
def Slot.normalize : Slot → Option (List Target)
  | .null => none
  | .targets list => some (list.map fun t => ⟨t.node, t.type, t.index.getD 0⟩)
  | .tuple node type index => some [⟨node, type.getD "main", index.getD 0⟩]

/-! ### Graphs -/

structure SemanticConnection where
  target : String
  targetInputSlot : String
  deriving DecidableEq

structure SourceInfo where
  source : String
  outputSlot : String
  deriving DecidableEq

structure SubnodeConnection where
  connectionType : String
  subnodeName : String
  index : ℕ
  deriving DecidableEq

structure SemanticNode where
  name : String
  type : String
  json : NodeJSON
  outputs : Dict String (List SemanticConnection) := .empty
  inputSources : Dict String (List SourceInfo) := .empty
  subnodes : List SubnodeConnection := []

structure SemanticGraph where
  nodes : Dict String SemanticNode := .empty

def createSemanticNode (nodeJson : NodeJSON) : SemanticNode where
  name := nodeJson.name.getD nodeJson.id
  type := nodeJson.type
  json := nodeJson

/-- `AI_CONNECTION_TYPES`. -/
def aiConnectionTypes : List String :=
  ["ai_languageModel", "ai_memory", "ai_tool", "ai_outputParser", "ai_embedding", "ai_vectorStore",
    "ai_retriever", "ai_document", "ai_textSplitter", "ai_reranker"]

def isAiConnectionType (connType : String) : Bool := connType ∈ aiConnectionTypes

/-! ### Nodes -/

/-- The part of a type behind its last dot. -/
def typeSuffix (type : String) : String :=
  String.ofList (type.toList.reverse.takeWhile (· ≠ '.')).reverse

/-- `generateUniqueName` for the names that are taken in a map. -/
def generateUniqueName (baseName : String) (nodes : Dict String SemanticNode) : String :=
  let uniqueName (counter : ℕ) := baseName ++ " " ++ toString counter
  uniqueName (whileDo (fun counter => nodes.has (uniqueName counter)) (· + 1) nodes.keys.length 2)

/-- One node is added: under its name, or under a name made for it when it has none or its name is
taken. -/
def createNode (s : Dict String SemanticNode × Dict String ℕ) (nodeJson : NodeJSON) :
    Dict String SemanticNode × Dict String ℕ :=
  let (nodes, unnamedCounters) := s
  if nodeJson.name = none ∨ nodeJson.name = some "" then
    let suffix := typeSuffix nodeJson.type
    let counter := (unnamedCounters.get? suffix).getD 0 + 1
    let nodeName := "__unnamed_" ++ suffix ++ "_" ++ toString counter ++ "__"
    (nodes.set nodeName { createSemanticNode nodeJson with name := nodeName },
      unnamedCounters.set suffix counter)
  else
    let name := nodeJson.name.getD ""
    let nodeName := if nodes.has name then generateUniqueName name nodes else name
    (nodes.set nodeName { createSemanticNode nodeJson with name := nodeName }, unnamedCounters)

/-- The first phase. -/
def createNodes (nodes : List NodeJSON) : Dict String SemanticNode :=
  (nodes.foldl createNode (.empty, .empty)).1

/-! ### Connections -/

namespace SemanticGraph

/-- The node of this name is changed. -/
def modify (graph : SemanticGraph) (name : String) (f : SemanticNode → SemanticNode) :
    SemanticGraph :=
  match graph.nodes.get? name with
  | none => graph
  | some node => { graph with nodes := graph.nodes.set name (f node) }

/-- `sources.push(…)` for an input of a node. -/
def addSource (graph : SemanticGraph) (target inputSlot : String) (source : SourceInfo) :
    SemanticGraph :=
  graph.modify target fun node => { node with
    inputSources := node.inputSources.set inputSlot
      ((node.inputSources.get? inputSlot).getD [] ++ [source]) }

def setOutput (graph : SemanticGraph) (source outputName : String)
    (connections : List SemanticConnection) : SemanticGraph :=
  graph.modify source fun node =>
    { node with outputs := node.outputs.set outputName connections }

/-- One end is visited: the source is recorded with the target and the connection collected. -/
def visitTarget (source outputSlot : String) (s : SemanticGraph × List SemanticConnection)
    (target : Target) : Except JsError (SemanticGraph × List SemanticConnection) :=
  match s.1.nodes.get? target.node with
  | none => .ok s
  | some targetNode =>
    (getInputName targetNode.type target.index targetNode.json).map fun inputSlot =>
      (s.1.addSource target.node inputSlot ⟨source, outputSlot⟩, s.2 ++ [⟨target.node, inputSlot⟩])

/-- The ends that an output has are visited and then stored with the source. -/
def visitTargets (graph : SemanticGraph) (source outputSlot : String) (targets : List Target) :
    Except JsError SemanticGraph :=
  (targets.foldlM (visitTarget source outputSlot) (graph, [])).map fun s =>
    if s.2 = [] then s.1 else s.1.setOutput source outputSlot s.2

/-- One output of `parseMainConnections`. -/
def parseMainOutput (sourceNode : SemanticNode) (sourceName : String) (graph : SemanticGraph)
    (output : Option (List Target) × ℕ) : Except JsError SemanticGraph :=
  match output.1 with
  | none => .ok graph
  | some targets => do
    let outputName ← getOutputName sourceNode.type output.2 sourceNode.json
    graph.visitTargets sourceName outputName targets

def parseMainConnections (sourceName : String) (outputs : List (Option (List Target)))
    (graph : SemanticGraph) : Except JsError SemanticGraph :=
  match graph.nodes.get? sourceName with
  | none => .ok graph
  | some sourceNode => outputs.zipIdx.foldlM (parseMainOutput sourceNode sourceName) graph

def parseErrorConnections (sourceName : String) (outputs : List (Option (List Target)))
    (graph : SemanticGraph) : Except JsError SemanticGraph :=
  match graph.nodes.get? sourceName with
  | none => .ok graph
  | some _ => graph.visitTargets sourceName "error" (outputs.filterMap id).flatten

def parseAiConnections (sourceName connectionType : String) (outputs : List (Option (List Target)))
    (graph : SemanticGraph) : SemanticGraph :=
  match graph.nodes.get? sourceName with
  | none => graph
  | some _ => (outputs.filterMap id).flatten.foldl (fun graph target =>
      graph.modify target.node fun parentNode => { parentNode with
        subnodes := parentNode.subnodes ++ [⟨connectionType, sourceName, target.index⟩] }) graph

/-- The connections of one type of one source. -/
def parseConnections (graph : SemanticGraph) (e : String × String × List Slot) :
    Except JsError SemanticGraph :=
  let outputs := e.2.2.map Slot.normalize
  if e.2.1 = "main" then parseMainConnections e.1 outputs graph
  else if e.2.1 = "error" then parseErrorConnections e.1 outputs graph
  else if isAiConnectionType e.2.1 then .ok (parseAiConnections e.1 e.2.1 outputs graph)
  else .ok graph

/-- `node.subnodes.sort((a, b) => a.index - b.index)`. -/
def sortSubnodes (graph : SemanticGraph) : SemanticGraph where
  nodes := graph.nodes.mapValues fun node =>
    { node with subnodes := node.subnodes.insertionSort fun a b => a.index ≤ b.index }

end SemanticGraph

/-- The sources with their types of connections, in the order of `Object.entries`. -/
def connectionEntries (connections : Connections) : List (String × String × List Slot) :=
  (EntryList.enumerate connections.entries).flatMap fun e =>
    (EntryList.enumerate e.2.entries).map fun e' => (e.1, e'.1, e'.2)

def buildSemanticGraph (json : WorkflowJSON) : Except JsError SemanticGraph :=
  ((connectionEntries json.connections).foldlM SemanticGraph.parseConnections
    { nodes := createNodes json.nodes }).map SemanticGraph.sortSubnodes

end Codegen

end N8n
