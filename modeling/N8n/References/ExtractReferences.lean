import N8n.Data.Interfaces
import N8n.References.NodeReferenceParser

/-!
# Extracting a sub-workflow

`extractReferencesInNodeExpressions` (`packages/workflow/src/node-reference-parser-utils.ts`): the
references of the nodes of a sub-graph to nodes outside it become variables of a sub-workflow.

* `applyParameterMapping`: the references in the parameters of a node, as a tree;
* `resolveDuplicates`: the variable of each reference;
* `applyMapping`: the parameters of a node with the references replaced;
* `planExtraction`, `ExtractionPlan.apply`: the steps before any node is rewritten, and the rest.
-/

namespace N8n

/-! ### Parameters and their references -/

/-- `ParameterExtractMapping`: the references in a parameter value, under the keys of the value; the
keys of an array are its indices. -/
inductive ParameterMapping where
  | undefined
  | list (mappings : List ExpressionMapping)
  | obj (props : List (String × ParameterMapping))

/-- `mapping[key]`. -/
def ParameterMapping.at (props : List (String × ParameterMapping)) (key : String) :
    ParameterMapping :=
  (EntryList.lookup key props).getD .undefined

section Parameters

variable (mapper : List Char → List ExpressionMapping)

mutual

/-- The references in a value: as a tree, and all of them in the order they are met. -/
def applyParameterMapping (keyOfValue : Option String) :
    JsValue → ParameterMapping × List ExpressionMapping
  | .str s =>
    if s.toList.head? = some '=' ∨ keyOfValue = some "jsCode" then
      (.list (mapper s.toList), mapper s.toList)
    else (.undefined, [])
  | .arr xs =>
    let entries := mapElements 0 xs
    (.obj (entries.map fun e => (e.1, e.2.1)), entries.flatMap fun e => e.2.2)
  | .obj props =>
    let entries := EntryList.enumerate (mapProperties props)
    (.obj (entries.map fun e => (e.1, e.2.1)), entries.flatMap fun e => e.2.2)
  | .undefined | .null | .bool _ | .num _ => (.undefined, [])

def mapElements (i : ℕ) : List JsValue → List (String × ParameterMapping × List ExpressionMapping)
  | [] => []
  | x :: xs =>
    (toString i, applyParameterMapping (some (toString i)) x) :: mapElements (i + 1) xs

def mapProperties :
    List (String × JsValue) → List (String × ParameterMapping × List ExpressionMapping)
  | [] => []
  | (key, value) :: props => (key, applyParameterMapping (some key) value) :: mapProperties props

end

end Parameters

/-! ### Variables -/

/-- `` `${replacementPrefix}.${replacementName}` ``. -/
def ExpressionMapping.key (mapping : ExpressionMapping) : List Char :=
  mapping.replacementPrefix ++ '.' :: mapping.replacementName

/-- The maps that `resolveDuplicates` fills. -/
structure ResolvedDuplicates where
  triggerArgumentMap : Dict (List Char) ExpressionMapping
  originalExpressionMap : Dict (List Char) (List Char)

namespace ResolvedDuplicates

def empty : ResolvedDuplicates := ⟨Dict.empty, Dict.empty⟩

/-- `hasKeyAndCollides(key)`. -/
def hasKeyAndCollides (r : ResolvedDuplicates) (mapping : ExpressionMapping) (key : List Char) :
    Bool :=
  match r.triggerArgumentMap.get? key with
  | none => false
  | some value => value ≠ mapping

/-- Whether the mapping collides under the name `replacementName`. -/
def collides (r : ResolvedDuplicates) (mapping : ExpressionMapping) (replacementName : List Char) :
    Bool :=
  r.hasKeyAndCollides mapping { mapping with replacementName := replacementName }.key

/-- The name under which a mapping does not collide. -/
def uniqueName (r : ResolvedDuplicates) (mapping : ExpressionMapping)
    (allNodeNames : List (List Char)) : List Char :=
  let named :=
    match mapping.nodeNameInExpression with
    | some (c :: name) =>
      if r.collides mapping mapping.replacementName then
        convertToUniqueJsDotName (c :: name) allNodeNames ++ '_' :: mapping.replacementName
      else mapping.replacementName
    | _ => mapping.replacementName
  whileDo (r.collides mapping) (fun replacementName => replacementName ++ "_1".toList)
    r.triggerArgumentMap.keys.length named

/-- The variable of one more mapping. -/
def add (allNodeNames : List (List Char)) (r : ResolvedDuplicates) (mapping : ExpressionMapping) :
    ResolvedDuplicates :=
  let resolved := { mapping with replacementName := r.uniqueName mapping allNodeNames }
  { triggerArgumentMap := r.triggerArgumentMap.set resolved.key resolved
    originalExpressionMap := r.originalExpressionMap.set mapping.originalExpression resolved.key }

/-- `getCanonicalData`; no key is empty. -/
def getCanonicalData (r : ResolvedDuplicates) (originalExpression : List Char) :
    Option ExpressionMapping :=
  (r.originalExpressionMap.get? originalExpression).bind r.triggerArgumentMap.get?

end ResolvedDuplicates

def resolveDuplicates (data : List ExpressionMapping) (allNodeNames : List (List Char)) :
    ResolvedDuplicates :=
  data.foldl (ResolvedDuplicates.add allNodeNames) ResolvedDuplicates.empty

/-! ### Rewriting -/

/-- The length of a string in code units. -/
def utf16Length (s : List Char) : ℕ := (s.map fun c => if c.toNat < 65536 then 1 else 2).sum

/-- The text that a replacement string stands for: `$$`, `$&`, `` $` `` and `$'` are special. -/
def getSubstitution (matched before after : List Char) : List Char → List Char
  | '$' :: '$' :: s => '$' :: getSubstitution matched before after s
  | '$' :: '&' :: s => matched ++ getSubstitution matched before after s
  | '$' :: '\x60' :: s => before ++ getSubstitution matched before after s
  | '$' :: '\'' :: s => after ++ getSubstitution matched before after s
  | c :: s => c :: getSubstitution matched before after s
  | [] => []

/-- `parameters.replaceAll(mapper.originalExpression, key)`; no original expression is empty. -/
def replaceOriginal (mapper : ExpressionMapping) (parameters : List Char) : List Char :=
  replaceAllWith mapper.originalExpression
    (fun before after => getSubstitution mapper.originalExpression before after mapper.key)
    parameters

/-- The loop of `applyMapping` over the mappings of a string: the string, and the mappings used. -/
def replaceOriginals : List ExpressionMapping → List Char → List Char × List ExpressionMapping
  | [], parameters => (parameters, [])
  | mapper :: mapping, parameters =>
    if includes mapper.originalExpression parameters then
      let r := replaceOriginals mapping (replaceOriginal mapper parameters)
      (r.1, mapper :: r.2)
    else replaceOriginals mapping parameters

mutual

/-- The value with its references replaced, and the mappings used. -/
def applyMapping : JsValue → ParameterMapping → JsValue × List ExpressionMapping
  | .str s, .list mapping =>
    let r := replaceOriginals mapping s.toList
    (.str (String.ofList r.1), r.2)
  | .arr xs, .obj mapping =>
    let entries := applyToElements mapping 0 xs
    (.arr (entries.map Prod.fst), entries.flatMap Prod.snd)
  | .obj props, .obj mapping =>
    let entries := applyToProperties mapping props
    (.obj (entries.map fun e => (e.1, e.2.1)),
      (EntryList.enumerate entries).flatMap fun e => e.2.2)
  | parameters, _ => (parameters, [])

def applyToElements (mapping : List (String × ParameterMapping)) (i : ℕ) :
    List JsValue → List (JsValue × List ExpressionMapping)
  | [] => []
  | x :: xs =>
    applyMapping x (.at mapping (toString i)) :: applyToElements mapping (i + 1) xs

def applyToProperties (mapping : List (String × ParameterMapping)) :
    List (String × JsValue) → List (String × JsValue × List ExpressionMapping)
  | [] => []
  | (key, value) :: props =>
    (key, applyMapping value (.at mapping key)) :: applyToProperties mapping props

end

/-- The node with its references replaced, and the mappings used. -/
def applyExtractMappingToNode (node : INode) (mapping : ParameterMapping) :
    INode × List ExpressionMapping :=
  match applyMapping (.obj node.parameters) mapping with
  | (.obj parameters, usedMappings) => ({ node with parameters := parameters }, usedMappings)
  | (_, usedMappings) => (node, usedMappings)

section Canonical

variable (getCanonicalData : List Char → Option ExpressionMapping)

mutual

/-- The mappings replaced by their final form, the longest expressions first. -/
def applyCanonicalMapping : ParameterMapping → ParameterMapping
  | .undefined => .undefined
  | .list mapping =>
    .list ((mapping.filterMap fun m => getCanonicalData m.originalExpression).insertionSort
      fun a b => utf16Length b.originalExpression ≤ utf16Length a.originalExpression)
  | .obj props => .obj (applyCanonicalProperties props)

def applyCanonicalProperties :
    List (String × ParameterMapping) → List (String × ParameterMapping)
  | [] => []
  | (key, mapping) :: props =>
    (key, applyCanonicalMapping mapping) :: applyCanonicalProperties props

end

end Canonical

/-! ### The extraction -/

/-- `JSON.stringify` on a text. -/
def stringifyText (s : List Char) : List Char :=
  '"' :: s.flatMap (fun c =>
    if c = '"' then ['\\', '"']
    else if c = '\\' then ['\\', '\\']
    else if c = '\x08' then ['\\', 'b']
    else if c = '\x0c' then ['\\', 'f']
    else if c = '\n' then ['\\', 'n']
    else if c = '\r' then ['\\', 'r']
    else if c = '\t' then ['\\', 't']
    else if c.toNat < 16 then "\\u000".toList ++ Nat.toDigits 16 c.toNat
    else if c.toNat < 32 then "\\u00".toList ++ Nat.toDigits 16 c.toNat
    else [c]) ++ ['"']

/-- `JSON.stringify` on an array of texts. -/
def stringifyNames (names : List String) : String :=
  String.ofList ('[' :: joinParts ',' (names.map fun n => stringifyText n.toList) ++ [']'])

def SPLIT_OUT_NODE_TYPE : String := "n8n-nodes-base.splitOut"

/-- The expressions that the field list of a Split Out node stands for; a list that is an expression
is refused. -/
def splitOutFields (node : INode) : Except JsError (List (List Char)) :=
  match node.parameters.get "fieldToSplitOut" with
  | .str raw =>
    let trimmed := trim raw.toList
    if trimmed = [] then .ok []
    else if trimmed.head? = some '=' then
      .error (.thrown ("Extracting sub-workflow from Split Out node with 'fieldToSplitOut' " ++
        "parameter having expression \"" ++ String.ofList trimmed ++ "\" is not supported."))
    else
      .ok ((trimmed.splitOn ',').map fun field =>
        "=\x7b\x7b$json.".toList ++ trim field ++ "\x7d\x7d".toList)
  | _ => .ok []

/-- What is known before any node is rewritten: the final mappings of the parameters of each node, the
references of the Split Out fields, and the variables. -/
structure ExtractionPlan where
  parameterTreeMappingByNode : Dict String ParameterMapping
  extraVariableCandidates : List ExpressionMapping
  resolved : ResolvedDuplicates

section Extraction

variable (subGraph : List INode) (nodeNames : List String) (insertedStartName : String)
  (graphInputNodeNames : Option (List String))

/-- The references of an expression of `node`. -/
def referencesOf (node : INode) : List Char → List ExpressionMapping :=
  parseReferencingExpressions (nodeNames.map String.toList) insertedStartName.toList
    (decide (node.name ∈ graphInputNodeNames.getD []))

/-- The references of the parameters of `node`. -/
def parameterMappingOf (node : INode) : ParameterMapping × List ExpressionMapping :=
  applyParameterMapping (referencesOf nodeNames insertedStartName graphInputNodeNames node) none
    (.obj node.parameters)

/-- The references of the Split Out fields of `node`, if it is the start of the selection. -/
def extraCandidatesOf (node : INode) : Except JsError (List ExpressionMapping) :=
  if some node.name = (graphInputNodeNames.getD []).head? ∧ node.type = SPLIT_OUT_NODE_TYPE then
    (fun fields => fields.flatMap
      (referencesOf nodeNames insertedStartName graphInputNodeNames node)) <$> splitOutFields node
  else .ok []

/-- Step 4 of `extractReferencesInNodeExpressions`, and the first loop of step 5. -/
def resolveMappings (extraVariableCandidates : List ExpressionMapping) : ExtractionPlan :=
  let mappings := subGraph.map fun node =>
    (node.name, parameterMappingOf nodeNames insertedStartName graphInputNodeNames node)
  let allData := mappings.flatMap (fun e => e.2.2) ++ extraVariableCandidates
  let dataFromOutsideSubgraph := allData.filter fun x =>
    match x.nodeNameInExpression with
    | some (c :: name) => String.ofList (c :: name) ∉ subGraph.map INode.name
    | _ => true
  let resolved := resolveDuplicates dataFromOutsideSubgraph (nodeNames.map String.toList)
  { parameterTreeMappingByNode := Dict.ofList
      (mappings.map fun e => (e.1, applyCanonicalMapping resolved.getCanonicalData e.2.1))
    extraVariableCandidates := extraVariableCandidates
    resolved := resolved }

/-- `extractReferencesInNodeExpressions` up to the loop of step 5 that rewrites the nodes. -/
def planExtraction : Except JsError ExtractionPlan :=
  let subGraphNames := subGraph.map INode.name
  if insertedStartName ∈ subGraphNames then
    .error (.thrown ("StartNodeName " ++ insertedStartName ++ " already exists in nodeNames: " ++
      stringifyNames subGraphNames))
  else if subGraphNames.any fun x => x ∉ nodeNames then
    .error (.thrown ("extractReferencesInNodeExpressions called with node in subGraph " ++
      stringifyNames subGraphNames ++ " whose name is not in provided 'nodeNames' list " ++
      stringifyNames nodeNames ++ "."))
  else do
    let extraVariableCandidates ←
      subGraph.mapM (extraCandidatesOf nodeNames insertedStartName graphInputNodeNames)
    return resolveMappings subGraph nodeNames insertedStartName graphInputNodeNames
      extraVariableCandidates.flatten

end Extraction

/-- What `extractReferencesInNodeExpressions` returns. -/
structure ExtractedReferences where
  nodes : List INode
  variableMap : Dict (List Char) (List Char)

namespace ExtractionPlan

/-- The final mappings of the parameters of `node`. -/
def mappingOf (plan : ExtractionPlan) (node : INode) : ParameterMapping :=
  (plan.parameterTreeMappingByNode.get? node.name).getD .undefined

/-- The mappings that some parameter uses. -/
def parameterMappings (plan : ExtractionPlan) (subGraph : List INode) : List ExpressionMapping :=
  subGraph.flatMap fun node => (applyExtractMappingToNode node (plan.mappingOf node)).2

/-- `allUsedMappings`: the mappings of the Split Out fields are added unless their name is used. -/
def allUsedMappings (plan : ExtractionPlan) (subGraph : List INode) : List ExpressionMapping :=
  plan.extraVariableCandidates.foldl (fun used candidate =>
    match plan.resolved.getCanonicalData candidate.originalExpression with
    | none => used
    | some canonical =>
      if used.any fun u => u.replacementName = canonical.replacementName then used
      else used ++ [canonical])
    (plan.parameterMappings subGraph)

/-- The rest of step 5. -/
def apply (plan : ExtractionPlan) (subGraph : List INode) : ExtractedReferences where
  nodes := subGraph.map fun node => (applyExtractMappingToNode node (plan.mappingOf node)).1
  variableMap := Dict.ofList
    ((plan.allUsedMappings subGraph).map fun m => (m.replacementName, m.originalExpression))

end ExtractionPlan

def extractReferencesInNodeExpressions (subGraph : List INode) (nodeNames : List String)
    (insertedStartName : String) (graphInputNodeNames : Option (List String)) :
    Except JsError ExtractedReferences := do
  let plan ← planExtraction subGraph nodeNames insertedStartName graphInputNodeNames
  return plan.apply subGraph

end N8n
