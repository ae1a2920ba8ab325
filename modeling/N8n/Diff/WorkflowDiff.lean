import N8n.Diff.ConnectionsDiff
import N8n.Lib.Compaction

/-!
# Comparing and compacting versions

`packages/workflow/src/workflow-diff.ts`: the difference between two versions of a workflow, and the
compaction of its history.

* `compareWorkflowsNodes`, `WorkflowChangeSet`: which nodes and connections changed;
* `parametersAreSuperset`, `nodeIsSuperset`, `mergeAdditiveChanges`: the rule that merges versions
  which only add something;
* `groupWorkflows`: the versions that remain and the versions that are removed.
-/

namespace N8n

/-- A node of a version, with the fields that versions are compared by. -/
structure DiffableNode extends INode where
  webhookId : Option String := none
  credentials : Option JsObject := none
  deriving DecidableEq

/-- A version of a workflow. -/
structure DiffableWorkflow where
  nodes : List DiffableNode
  connections : IConnections
  createdAt : ℤ
  authors : Option String := none
  deriving DecidableEq

inductive NodeDiffStatus
  | equal
  | modified
  | added
  | deleted
  deriving DecidableEq

structure NodeDiff where
  status : NodeDiffStatus
  node : DiffableNode
  deriving DecidableEq

abbrev WorkflowDiff := Dict String NodeDiff

/-- The properties that `compareNodes` compares, other than the parameters, are the same. -/
def sameBesidesParameters (base target : DiffableNode) : Bool :=
  base.name = target.name && base.type = target.type && base.typeVersion = target.typeVersion &&
    base.webhookId = target.webhookId &&
    match base.credentials, target.credentials with
    | none, none => true
    | some base, some target => isEqual (.obj base) (.obj target)
    | _, _ => false

def compareNodes (base target : DiffableNode) : Bool :=
  sameBesidesParameters base target && isEqual (.obj base.parameters) (.obj target.parameters)

/-- The nodes of a version by their ids; of several nodes with one id, the last. -/
def nodesById (nodes : List DiffableNode) : Dict String DiffableNode :=
  .ofList (nodes.map fun node => (node.id, node))

/-- The difference that a node of the base makes. -/
def nodeDiffOf (targetNodes : Dict String DiffableNode) (id : String) (node : DiffableNode) :
    NodeDiff :=
  match targetNodes.get? id with
  | none => ⟨.deleted, node⟩
  | some targetNode =>
    if compareNodes node targetNode then ⟨.equal, node⟩ else ⟨.modified, node⟩

def compareWorkflowsNodes (base target : List DiffableNode) : WorkflowDiff :=
  let baseNodes := nodesById base
  let targetNodes := nodesById target
  let diff := baseNodes.entries.foldl
    (fun diff e => diff.set e.1 (nodeDiffOf targetNodes e.1 e.2)) Dict.empty
  targetNodes.entries.foldl
    (fun diff e => if baseNodes.has e.1 then diff else diff.set e.1 ⟨.added, e.2⟩) diff

structure WorkflowChangeSet where
  nodes : WorkflowDiff
  connections : ConnectionsDiff
  deriving DecidableEq

/-- The constructor of the change set.  For one and the same object the source skips the comparison
and writes down what it would answer. -/
def WorkflowChangeSet.between (prev next : DiffableWorkflow) : WorkflowChangeSet where
  nodes := compareWorkflowsNodes prev.nodes next.nodes
  connections := compareConnections prev.connections next.connections

/-! ### Supersets -/

/-- The code units of a string. -/
def codeUnits (s : String) : List ℕ :=
  s.toList.flatMap fun c =>
    if c.toNat < 0x10000 then [c.toNat]
    else [0xd800 + (c.toNat - 0x10000) / 0x400, 0xdc00 + (c.toNat - 0x10000) % 0x400]

/-- The loop of `stringContainsParts` from index `i` on. -/
def containsPartsLoop (substr : List ℕ) (diffSize : ℕ) : (i marker : ℕ) → List ℕ → Bool
  | _, marker, [] => substr.length ≤ marker
  | i, marker, c :: s =>
    let marker := if substr[marker]? = some c then marker + 1 else marker
    if diffSize + marker < i then false
    else containsPartsLoop substr diffSize (i + 1) marker s

/-- Whether `s` contains all code units of `substr` in order. -/
def stringContainsParts (s substr : List ℕ) : Bool :=
  if s.length < substr.length then false
  else containsPartsLoop substr (s.length - substr.length) 0 0 s

/-- The properties that an array answers as its own. -/
def arrayProps (xs : List JsValue) : JsObject :=
  xs.zipIdx.map (fun e => (toString e.2, e.1)) ++ [("length", .num xs.length)]

mutual

/-- Nothing of `prev` is lost in `next`: strings may gain parts, other values stay. -/
def parametersAreSuperset : (prev next : JsValue) → Bool
  | .arr prev, .arr next => elementsAreSuperset prev next
  | .obj prev, .obj next => prev.length = next.length && propsAreSuperset prev next
  | .obj prev, .arr next => prev.length = next.length && propsAreSuperset prev (arrayProps next)
  | .str prev, .str next => stringContainsParts (codeUnits next) (codeUnits prev)
  | .undefined, .undefined => true
  | .null, .null => true
  | .bool prev, .bool next => prev = next
  | .num prev, .num next => prev = next
  | _, _ => false

/-- The arrays have the same length, and no element loses anything. -/
def elementsAreSuperset : (prev next : List JsValue) → Bool
  | [], [] => true
  | x :: prev, y :: next => parametersAreSuperset x y && elementsAreSuperset prev next
  | _, _ => false

/-- Every property is there still, and loses nothing. -/
def propsAreSuperset : (prev next : JsObject) → Bool
  | [], _ => true
  | (k, x) :: prev, next =>
    ((EntryList.lookup k next).any fun y => parametersAreSuperset x y) &&
      propsAreSuperset prev next

end

def nodeIsSuperset (prevNode nextNode : DiffableNode) : Bool :=
  sameBesidesParameters prevNode nextNode &&
    parametersAreSuperset (.obj prevNode.parameters) (.obj nextNode.parameters)

/-! ### Rules -/

structure DiffMetaData where
  workflowSizeScore : Option ℕ := none
  deriving DecidableEq

/-- A merge rule or a skip rule. -/
abbrev DiffRule :=
  DiffableWorkflow → DiffableWorkflow → WorkflowChangeSet → DiffMetaData → Except String Bool

/-- The nodes of a difference in turn: `false` at the first one that loses something. -/
def nodesOnlyAdd (next : DiffableWorkflow) : List NodeDiff → Except String Bool
  | [] => .ok true
  | d :: ds =>
    match d.status with
    | .deleted => .ok false
    | .added => nodesOnlyAdd next ds
    | status =>
      match next.nodes.find? (·.id = d.node.id) with
      | none => .error "invariant broken - no next node"
      | some nextNode =>
        if status = .modified ∧ ¬ nodeIsSuperset d.node nextNode then .ok false
        else nodesOnlyAdd next ds

def mergeAdditiveChanges : DiffRule := fun _prev next diff _ => do
  if ← nodesOnlyAdd next diff.nodes.values then return diff.connections.removed.keys = []
  return false

/-! ### Compaction -/

mutual

/-- `determineNodeSize`. -/
def determineNodeSize : JsValue → ℕ
  | .str s => if s = "" then 1 else (codeUnits s).length
  | .arr xs => elementsSize xs + 1
  | .obj props => propsSize props + 1
  | _ => 1

def elementsSize : List JsValue → ℕ
  | [] => 0
  | x :: xs => determineNodeSize x + elementsSize xs

def propsSize : JsObject → ℕ
  | [] => 0
  | (_, x) :: props => determineNodeSize x + propsSize props

end

def determineNodeParametersSize (workflow : DiffableWorkflow) : ℕ :=
  (workflow.nodes.map fun x => determineNodeSize (.obj x.parameters)).sum

/-- Whether the left one of two versions is merged into the right one: no skip rule speaks against
it, and some merge rule for it. -/
def mergesInto (rules skipRules : List DiffRule) (metaData : DiffMetaData)
    (left right : DiffableWorkflow) : Except String Bool := do
  let wcs := WorkflowChangeSet.between left right
  if ← skipRules.anyM fun shouldSkip => shouldSkip left right wcs metaData then return false
  rules.anyM fun rule => rule left right wcs metaData

/-- The loop of `groupWorkflows` from `i` down to 1. -/
def groupLoop (merges : DiffableWorkflow → DiffableWorkflow → Except String Bool) :
    (i : ℕ) → (remaining removed : List DiffableWorkflow) →
      Except String (List DiffableWorkflow × List DiffableWorkflow)
  | 0, remaining, removed => .ok (remaining, removed)
  | i + 1, remaining, removed =>
    match remaining[i]?, remaining[i + 1]? with
    | some left, some right => do
      if ← merges left right then groupLoop merges i (remaining.eraseIdx i) (removed ++ [left])
      else groupLoop merges i remaining removed
    | _, _ => .error "TypeError"

/-- The meta data of a history: if it is asked for, the size of the latest and of an average
version, whichever is larger. -/
def metaDataOf (workflows : List DiffableWorkflow) (sizeScoreRequested : Bool) : DiffMetaData where
  workflowSizeScore :=
    if sizeScoreRequested then
      some (max (((workflows[workflows.length / 2]?).map determineNodeParametersSize).getD 0)
        ((workflows.getLast?.map determineNodeParametersSize).getD 0))
    else none

/-- The versions that remain and the versions that are removed. -/
def groupWorkflows (workflows : List DiffableWorkflow) (rules skipRules : List DiffRule)
    (sizeScoreRequested : Bool) : Except String (List DiffableWorkflow × List DiffableWorkflow) :=
  if workflows.length = 0 then .ok ([], [])
  else if workflows.length = 1 then .ok (workflows, [])
  else
    groupLoop (mergesInto rules skipRules (metaDataOf workflows sizeScoreRequested))
      (workflows.length - 1) workflows []

end N8n
