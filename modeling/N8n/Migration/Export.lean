import N8n.Lib.OrderedSet
import N8n.Lib.Gather
import N8n.Migration.Database
import N8n.Expressions.FromAi

/-!
# The export of a workflow

`packages/U_CustomizeModule/api/migration/migration-export.service.ts`: the workflow, the workflows
that it leads to, and the credentials, data tables, variables and tags that they use.  What it writes
and an import reads is a bundle (`packages/U_CustomizeModule/api/migration/types.ts`).

* `MigrationBundle` and the records of its parts;
* `trimText`, `splitText`, `pathToRoot`: texts and folder paths;
* `getReferencedWorkflowIds`, `extractCredentialIdsFromNodes`, `extractDataTableIdsFromNodes`: what
  nodes refer to;
* `collectAllWorkflowIds`: the workflow with all that it leads to;
* `exportMigrationBundle`: the bundle.
-/

namespace N8n

/-! ### Texts -/

/-- `text.trim()`. -/
def trimText (text : String) : String := String.ofList (trim text.toList)

/-- `text.split(separator)`. -/
def splitText (separator : Char) (text : String) : List String :=
  (text.toList.splitOn separator).map String.ofList

/-- `a || b`. -/
def orText (a b : String) : String := if a = "" then b else a

/-! ### Bundles -/

/-- Where a workflow or a data table is. -/
structure MigrationPath where
  projectId : String
  projectName : String
  folderId : Option String := none
  folderPath : Option String := none
  deriving DecidableEq

structure MigrationWorkflowItem where
  id : String
  name : String
  description : Option String := none
  path : MigrationPath
  nodes : List JsObject := []
  connections : JsValue := .obj []
  settings : JsValue := .undefined
  versionId : Option String := none
  triggerCount : ℕ := 0
  isArchived : Bool := false
  «meta» : JsValue := .undefined
  deriving DecidableEq

structure MigrationCredentialItem where
  id : String
  name : String
  type : String
  data : String := ""
  deriving DecidableEq

structure MigrationDataTableItem where
  id : String
  name : String
  path : MigrationPath
  columns : List DataTableColumn := []
  rows : List JsObject := []
  createdAt : String := ""
  updatedAt : String := ""
  deriving DecidableEq

structure MigrationVariableItem where
  id : String
  key : String
  type : String
  value : String
  projectId : Option String := none
  projectName : Option String := none
  deriving DecidableEq

structure MigrationTagItem where
  id : String
  name : String
  deriving DecidableEq

structure MigrationTagMappingItem where
  workflowId : String
  tagId : String
  deriving DecidableEq

structure MigrationBundle where
  version : String := "1.0"
  exportedAt : String := ""
  sourceWorkflowId : String := ""
  workflows : List MigrationWorkflowItem := []
  credentials : List MigrationCredentialItem := []
  dataTables : List MigrationDataTableItem := []
  «variables» : List MigrationVariableItem := []
  tags : List MigrationTagItem := []
  tagMappings : List MigrationTagMappingItem := []
  deriving DecidableEq

/-! ### Folders -/

/-- The names of the folders from the root to a folder; there are none when the parents of the folder
do not lead to the root. -/
def pathToRoot (folders : Dict String Folder) : ℕ → String → Option (List String)
  | 0, _ => none
  | depth + 1, id =>
    match folders.get? id with
    | none => none
    | some folder =>
      match folder.parentFolderId with
      | none => some [folder.name]
      | some parentFolderId =>
        (pathToRoot folders depth parentFolderId).map fun names => names ++ [folder.name]

/-- `getFolderPathsToRoot`, for one folder; a path leads through each folder once at most. -/
def ProjectDatabase.getFolderPathToRoot (db : ProjectDatabase) (folderId : String) :
    Option (List String) :=
  (pathToRoot db.folders db.folders.keys.length folderId).map fun names =>
    splitText '/' ("/".intercalate names)

/-! ### Ids in nodes -/

def EXECUTE_WORKFLOW_NODE_TYPES : List String :=
  ["n8n-nodes-base.executeWorkflow", "n8n-nodes-base.executeWorkflowTrigger",
    "@n8n/n8n-nodes-langchain.toolWorkflow"]

def ROWS_PAGE_SIZE : ℕ := 10000

/-- `/^[0-9a-f-]{36}$/i`. -/
def UUID_REGEX (s : List Char) : Bool :=
  s.length = 36 && s.all fun c =>
    c.isDigit || ('a' ≤ c && c ≤ 'f') || ('A' ≤ c && c ≤ 'F') || c = '-'

/-- `/^[a-zA-Z0-9_-]{5,50}$/`. -/
def STRING_ID_REGEX (s : List Char) : Bool :=
  (5 ≤ s.length && s.length ≤ 50) && s.all fun c => c.isAlphanum || c = '_' || c = '-'

/-- `pushId`. -/
def pushId (id : String) : List String :=
  let s := trimText id
  if s ≠ "" && (UUID_REGEX s.toList || STRING_ID_REGEX s.toList) then [s] else []

/-- The id in a parameter, which is a text or a locator with a value. -/
def extractId (param : JsValue) : List String :=
  match param with
  | .str s => pushId s
  | .obj _ =>
    match param.prop "value" with
    | .str v => pushId v
    | _ => []
  | _ => []

/-- `node.parameters?.[name]`. -/
def nodeParameter (node : JsObject) (name : String) : JsValue :=
  (JsObject.get node "parameters").prop name

def extractWorkflowIdFromNode (node : JsObject) : List String :=
  extractId (nodeParameter node "workflowId")

/-- `Object.values(value)`. -/
def objectValues : JsValue → List JsValue
  | .obj props => props.map Prod.snd
  | .arr xs => xs
  | _ => []

def extractCredentialIdsFromNodes (nodes : List JsObject) : OrderedSet String :=
  .ofList <| nodes.flatMap fun node =>
    (objectValues (JsObject.get node "credentials")).flatMap fun entry =>
      match entry.prop "id" with
      | .str id => if id = "" then [] else [id]
      | _ => []

def extractDataTableIdsFromNodes (nodes : List JsObject) : OrderedSet String :=
  .ofList <| nodes.flatMap fun node => extractId (nodeParameter node "dataTableId")

def getReferencedWorkflowIds (nodes : List JsObject) : List String :=
  nodes.flatMap fun node =>
    match JsObject.get node "type" with
    | .str type => if type ∈ EXECUTE_WORKFLOW_NODE_TYPES then extractWorkflowIdFromNode node else []
    | _ => []

/-- The id of the error workflow. -/
def errorWorkflowId (settings : JsValue) : List String :=
  match settings.prop "errorWorkflow" with
  | .str errorWf => if errorWf = "DEFAULT" then [] else pushId errorWf
  | _ => []

/-- The workflows that a workflow leads to. -/
def WorkflowEntity.leadsTo (w : WorkflowEntity) : List String :=
  getReferencedWorkflowIds w.nodes ++ errorWorkflowId w.settings

/-! ### The bundle -/

namespace ProjectDatabase

variable (db : ProjectDatabase) (user : User)

/-- What the workflow with this id leads to, if the user may read it. -/
def nextWorkflowIds (id : String) : List String :=
  match db.findWorkflowForUser user id ["workflow:read"] with
  | none => []
  | some w => w.leadsTo

def collectAllWorkflowIds (workflowId : String) : List String :=
  Worklist.collect (db.nextWorkflowIds user) db.workflows.keys workflowId

/-- `find({ where: { id: In(ids) } })`. -/
def findIn {α : Type} (table : Dict String α) (ids : List String) : List (String × α) :=
  table.entries.filter fun e => e.1 ∈ ids

/-- `getWorkflowOwningProject`. -/
def getWorkflowOwningProject (w : WorkflowEntity) : Option (String × Project) := do
  let sharing ← w.shared.find? fun s => s.role = "workflow:owner"
  let project ← db.projects.get? sharing.projectId
  pure (sharing.projectId, project)

def getWorkflowPath (workflowId : String) (w : WorkflowEntity) : Except String MigrationPath :=
  match db.getWorkflowOwningProject w with
  | none => .error s!"Workflow {workflowId} has no owning project"
  | some (projectId, project) =>
    let projectName := orText (orText (trimText project.name) projectId) "Personal"
    match w.parentFolder with
    | none => .ok { projectId, projectName, folderPath := some projectName }
    | some parentFolderId =>
      let segments := ((db.getFolderPathToRoot parentFolderId).getD []).filter fun n =>
        trimText n ≠ ""
      .ok {
        projectId, projectName
        folderId := some parentFolderId
        folderPath :=
          if segments = [] then none else some ("/".intercalate (projectName :: segments)) }

def getDataTablePath (projectId : String) : MigrationPath :=
  match db.projects.get? projectId with
  | none => { projectId, projectName := "" }
  | some project => { projectId, projectName := orText (trimText project.name) projectId }

def exportWorkflow (e : String × WorkflowEntity) : Except String MigrationWorkflowItem := do
  let path ← db.getWorkflowPath e.1 e.2
  pure {
    id := e.1
    name := e.2.name
    description := e.2.description
    path
    nodes := e.2.nodes
    connections := e.2.connections
    settings := e.2.settings
    versionId := e.2.versionId
    triggerCount := e.2.triggerCount.getD 0
    isArchived := e.2.isArchived.getD false
    «meta» := match e.2.«meta» with
      | .obj props => .obj props
      | _ => .obj [] }

/-- The rows that `getManyAndCount` gives. -/
def rowsPage (rows : List JsObject) (skip : ℕ) : List JsObject :=
  (rows.drop skip).take ROWS_PAGE_SIZE

/-- The rows from `skip` on, a page at a time. -/
def readRows (rows : List JsObject) (skip : ℕ) : List JsObject :=
  if _h : skip + (rowsPage rows skip).length < rows.length ∧ rowsPage rows skip ≠ [] then
    rowsPage rows skip ++ readRows rows (skip + (rowsPage rows skip).length)
  else rowsPage rows skip
termination_by rows.length - skip
decreasing_by
  have hpos := List.length_pos_iff.2 _h.2
  have _ := _h.1
  omega

def exportDataTable (id : String) : Option MigrationDataTableItem :=
  (db.dataTables.get? id).map fun dt => {
    id
    name := dt.name
    path := db.getDataTablePath dt.projectId
    columns := dt.columns.mergeSort fun a b => a.index ≤ b.index
    rows := readRows dt.rows 0
    createdAt := dt.createdAt
    updatedAt := dt.updatedAt }

def exportCredential (e : String × CredentialsEntity) : MigrationCredentialItem :=
  { id := e.1, name := e.2.name, type := e.2.type, data := e.2.data }

/-- The variables of the projects, and then the global ones. -/
def exportVariables (projectIds : OrderedSet String) : List MigrationVariableItem :=
  let varsInProjects := db.«variables».entries.filter fun e =>
    e.2.project.any fun projectId => projectId ∈ projectIds
  let globalVars := db.«variables».entries.filter fun e => e.2.project.isNone
  (varsInProjects ++ globalVars).map fun e => {
    id := e.1
    key := e.2.key
    type := e.2.type
    value := e.2.value
    projectId := e.2.project
    projectName := e.2.project.bind fun projectId => (db.projects.get? projectId).map Project.name }

def exportTagMappings (workflowIds : List String) : List MigrationTagMappingItem :=
  (db.tagMappings.filter fun m => m.workflowId ∈ workflowIds).map fun m =>
    { workflowId := m.workflowId, tagId := m.tagId }

/-- The credentials that workflows use. -/
def credentialIdsOf (rows : List (String × WorkflowEntity)) : List String :=
  rows.flatMap fun e => (extractCredentialIdsFromNodes e.2.nodes).elems

/-- The data tables that workflows use. -/
def dataTableIdsOf (rows : List (String × WorkflowEntity)) : OrderedSet String :=
  .ofList <| rows.flatMap fun e => (extractDataTableIdsFromNodes e.2.nodes).elems

/-- `exportMigrationBundle`, at a time; the error is the message of a `NotFoundError`. -/
def exportMigrationBundle (now workflowId : String) : Except String MigrationBundle := do
  if (db.findWorkflowForUser user workflowId ["workflow:read"]).isNone then
    throw s!"Workflow \"{workflowId}\" not found or access denied"
  let allWorkflowIds := db.collectAllWorkflowIds user workflowId
  let workflowsWithNodes := findIn db.workflows allWorkflowIds
  let workflowItems ← workflowsWithNodes.mapM db.exportWorkflow
  let tagMappings := db.exportTagMappings allWorkflowIds
  pure {
    exportedAt := now
    sourceWorkflowId := workflowId
    workflows := workflowItems
    credentials :=
      (findIn db.credentials (credentialIdsOf workflowsWithNodes)).map exportCredential
    dataTables := (dataTableIdsOf workflowsWithNodes).elems.filterMap db.exportDataTable
    «variables» := db.exportVariables (.ofList (workflowItems.map fun w => w.path.projectId))
    tags := (findIn db.tags (tagMappings.map MigrationTagMappingItem.tagId)).map fun e =>
      { id := e.1, name := e.2 }
    tagMappings }

end ProjectDatabase

end N8n
