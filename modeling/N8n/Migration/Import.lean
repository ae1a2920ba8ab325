import N8n.Migration.ImportNodes

/-!
# The import of a bundle

`packages/U_CustomizeModule/api/migration/migration-import.service.ts`: what the bundle names is
looked up in the target, and created where it is not found.  Nothing is taken back when the import
fails.

* `ImportEnvironment`: what the import gets from elsewhere, `ImportState`: the database and the maps
  from the bundle to it;
* `importProject`, `importVariable`, `importCredential`, `importDataTable`, `importTag`,
  `importWorkflow`, `updateReferences`, `importTagMapping`: the loops, a turn at a time;
* `importMigrationBundle`: the import.
-/

namespace N8n

/-! ### Paths -/

/-- `path.replace(new RegExp('^' + escapeRe(projectName) + '/?'), '')`. -/
def removeProject (projectName path : List Char) : List Char :=
  if projectName <+: path then
    match path.drop projectName.length with
    | '/' :: rest => rest
    | rest => rest
  else path

def folderPathToSegments (folderPath : Option String) (projectName : String) : List String :=
  let path := trim (folderPath.getD "").toList
  let withoutProject :=
    if projectName = "" then path else removeProject projectName.toList path
  ((withoutProject.splitOn '/').filter fun segment => segment ≠ []).map String.ofList

/-! ### State -/

structure MigrationImportResult where
  workflowsCreated : ℕ := 0
  workflowsUpdated : ℕ := 0
  credentialsCreated : ℕ := 0
  credentialsUpdated : ℕ := 0
  dataTablesCreated : ℕ := 0
  dataTablesUpdated : ℕ := 0
  variablesCreated : ℕ := 0
  variablesUpdated : ℕ := 0
  tagsCreated : ℕ := 0
  sourceWorkflowId : String := ""
  deriving DecidableEq

/-- What the import gets from elsewhere. -/
structure ImportEnvironment where
  /-- The ids that `uuid()` and `generateNanoId()` give. -/
  newId : ProjectDatabase → ℕ → String
  /-- `getMaxTeamProjects`, without a value when there is no limit. -/
  maxTeamProjects : Option ℕ := none
  /-- The data of `createEncryptedData`, without secrets, by id, name and type. -/
  createEncryptedData : String → String → String → String := fun _ _ _ => ""
  /-- The time of the import. -/
  now : String := ""
  /-- The table of a data table can be created. -/
  createsTable : DataTable → Bool := fun _ => true
  /-- The rows as the database stores them, if it takes them. -/
  insertRows : DataTable → List JsObject → Option (List JsObject) := fun _ rows => some rows

/-- Why an import fails. -/
inductive ImportError
  /-- `Hedef proje bulunamadı veya yetkiniz yok.` -/
  | targetProjectNotFound
  /-- The user has no personal project. -/
  | personalProjectNotFound
  /-- `Only alphabetical characters and non-leading numbers and underscores are allowed for column
  names, and the maximum length is 63 characters.` -/
  | invalidColumnName
  | tableNotCreated
  | rowsNotInserted
  /-- `Could not find the folder: …` -/
  | folderNotFound (folderId : String)
  /-- `You do not have permission to create workflows in this project.` -/
  | forbidden
  deriving DecidableEq

/-- A failure, and the database that it leaves. -/
structure ImportFailure where
  db : ProjectDatabase
  error : ImportError

structure ImportState where
  db : ProjectDatabase
  result : MigrationImportResult := {}
  projectNameToId : Dict String String := .empty
  credentialIdMap : Dict String String := .empty
  dataTableIdMap : Dict String String := .empty
  tagNameToId : Dict String String := .empty
  workflowIdMap : Dict String String := .empty
  /-- The workflows of the bundle that have been imported, with what the import has changed in
  them. -/
  workflows : List MigrationWorkflowItem := []

variable (env : ImportEnvironment) (user : User)

namespace ProjectDatabase

variable (db : ProjectDatabase)

/-! ### Projects -/

def getPersonalProjectForUser (userId : String) : Option String :=
  (db.projects.entries.find? fun e => e.2.type = .personal && e.2.creatorId = some userId).map
    Prod.fst

def getAccessibleProjects (userId : String) : List (String × Project) :=
  db.projects.entries.filter fun e =>
    db.projectRelations.any fun r => r.projectId = e.1 && r.userId = userId

/-- The limit on team projects is reached. -/
def teamProjectsOverQuota : Bool :=
  env.maxTeamProjects.any fun limit =>
    limit ≤ (db.projects.values.filter fun p => p.type = .team).length

/-- `createTeamProject`, which throws when the limit is reached. -/
def createTeamProject (name : String) : Option (ProjectDatabase × String) :=
  if db.teamProjectsOverQuota env then none
  else
    let id := env.newId db 0
    some ({ db with
      projects := db.projects.set id { name, type := .team, creatorId := some user.id }
      projectRelations := db.projectRelations ++
        [{ projectId := id, userId := user.id, role := "project:admin" }] }, id)

/-- The project with this name that the user has access to, if workflows may be created there. -/
def findProjectByName (projectName : String) : Option String :=
  match (db.getAccessibleProjects user.id).find? fun e => e.2.name = projectName with
  | none => none
  | some (id, _) => (db.getProjectWithScope user id ["workflow:create"]).map fun _ => id

def getOrCreateProjectByName (projectName : String) : Option (ProjectDatabase × String) :=
  match db.findProjectByName user projectName with
  | some id => some (db, id)
  | none => db.createTeamProject env user projectName

/-! ### Folders -/

def findFolder (name projectId : String) (parentFolderId : Option String) : Option String :=
  (db.folders.entries.find? fun e =>
    e.2.name = name && e.2.homeProject = projectId && e.2.parentFolderId = parentFolderId).map
      Prod.fst

/-- `findFolderInProjectOrFail`. -/
def folderInProject (folderId projectId : String) : Bool :=
  (db.folders.get? folderId).any fun folder => folder.homeProject = projectId

def createFolder (name projectId : String) (parentFolderId : Option String) :
    Except ImportFailure (ProjectDatabase × String) :=
  match parentFolderId.filter fun parent => !db.folderInProject parent projectId with
  | some parent => .error ⟨db, .folderNotFound parent⟩
  | none =>
    let id := env.newId db 0
    .ok ({ db with
      folders := db.folders.set id { name, parentFolderId, homeProject := projectId } }, id)

/-- The rest of a path, under a folder. -/
def getOrCreateFolderUnder (projectId : String) : ProjectDatabase → Option String → List String →
    Except ImportFailure (ProjectDatabase × Option String)
  | db, parentFolderId, [] => .ok (db, parentFolderId)
  | db, parentFolderId, segment :: segments =>
    match db.findFolder segment projectId parentFolderId with
    | some id => getOrCreateFolderUnder projectId db (some id) segments
    | none => do
      let (db, id) ← db.createFolder env segment projectId parentFolderId
      getOrCreateFolderUnder projectId db (some id) segments

def getOrCreateFolderByPath (projectId : String) (pathSegments : List String) :
    Except ImportFailure (ProjectDatabase × Option String) :=
  getOrCreateFolderUnder env projectId db none pathSegments

/-! ### Workflows -/

/-- The first workflow that the project owns with this folder and name. -/
def findWorkflowByNameInFolder (projectId : String) (folderId : Option String) (name : String) :
    Option String :=
  (db.workflows.entries.find? fun e =>
    (e.2.shared.any fun s => s.projectId = projectId && s.role = "workflow:owner") &&
      e.2.name = name && e.2.parentFolder = folderId).map Prod.fst

/-- A column of an update, which leaves out what is undefined. -/
def orUndefined (value old : JsValue) : JsValue := if value = .undefined then old else value

/-- `update(id, …)`. -/
def updateWorkflow (id : String) (f : WorkflowEntity → WorkflowEntity) : ProjectDatabase :=
  match db.workflows.get? id with
  | none => db
  | some w => { db with workflows := db.workflows.set id (f w) }

def createWorkflowInProjectAndFolder (workflow : WorkflowEntity) (projectId : String)
    (folderId : Option String) : Except ImportFailure (ProjectDatabase × String) :=
  if (db.getProjectWithScope user projectId ["workflow:create"]).isNone then
    .error ⟨db, .forbidden⟩
  else
    match folderId.filter fun folder => !db.folderInProject folder projectId with
    | some folder => .error ⟨db, .folderNotFound folder⟩
    | none =>
      let id := env.newId db 0
      let workflow := { workflow with
        parentFolder := folderId, shared := [{ projectId, role := "workflow:owner" }] }
      .ok ({ db with workflows := db.workflows.set id workflow }, id)

/-! ### Variables, credentials and tags -/

def findGlobalVariable (key : String) : Option (String × VariablesRow) :=
  db.«variables».entries.find? fun e => e.2.key = key && e.2.project = none

def findCredentialByNameAndType (name type : String) : Option (String × CredentialsEntity) :=
  db.credentials.entries.find? fun e => e.2.name = name && e.2.type = type

def findTagByName (name : String) : Option (String × String) :=
  db.tags.entries.find? fun e => e.2 = name

/-! ### Data tables -/

def findDataTable (name projectId : String) : Option (String × DataTable) :=
  db.dataTables.entries.find? fun e => e.2.name = name && e.2.projectId = projectId

def isValidColumnName (name : String) : Bool :=
  match trim name.toList with
  | [] => false
  | c :: cs => c.isAlpha && (cs.all fun c => c.isAlphanum || c = '_') && cs.length < 63

def createDataTable (projectId name : String) (columns : List DataTableColumn) :
    Except ImportFailure (ProjectDatabase × String) :=
  if columns.any fun c => !isValidColumnName c.name then .error ⟨db, .invalidColumnName⟩
  else
    let id := env.newId db 0
    let table : DataTable := {
      name, projectId
      columns := columns.mapIdx fun i c => { c with id := env.newId db (i + 1) }
      createdAt := env.now, updatedAt := env.now }
    if env.createsTable table then .ok ({ db with dataTables := db.dataTables.set id table }, id)
    else .error ⟨db, .tableNotCreated⟩

/-- The rows of a new data table. -/
def insertRows (id : String) (rows : List JsObject) : Except ImportFailure ProjectDatabase :=
  match db.dataTables.get? id with
  | none => .ok db
  | some table =>
    if rows = [] then .ok db
    else
      match env.insertRows table rows with
      | none => .error ⟨db, .rowsNotInserted⟩
      | some rows => .ok { db with dataTables := db.dataTables.set id { table with rows } }

end ProjectDatabase

/-! ### The loops -/

def CredentialsEntity.sharedToImport (c : CredentialsEntity) (importProjectIds : List String) :
    Bool := c.shared.any fun sharing => sharing.projectId ∈ importProjectIds

namespace ImportState

variable (s : ImportState) (defaultProjectId : String)

/-- The target project of a workflow or data table. -/
def projectOf (path : MigrationPath) : String :=
  (s.projectNameToId.get? path.projectName).getD defaultProjectId

/-- The project of a name; when it cannot be created, the default project. -/
def importProject (name : String) : ImportState :=
  match s.db.getOrCreateProjectByName env user name with
  | some (db, id) => { s with db, projectNameToId := s.projectNameToId.set name id }
  | none => { s with projectNameToId := s.projectNameToId.set name defaultProjectId }

def importVariable (v : MigrationVariableItem) : ImportState :=
  match s.db.findGlobalVariable v.key with
  | some _ => s
  | none =>
    let row := { key := v.key, type := v.type, value := v.value }
    { s with
      db := { s.db with «variables» := s.db.«variables».set (env.newId s.db 0) row }
      result := { s.result with variablesCreated := s.result.variablesCreated + 1 } }

/-- Sharing an existing credential with the default project. -/
def shareCredential (id : String) (c : CredentialsEntity) : ImportState :=
  let role := if c.shared.any fun sharing => sharing.role = "credential:owner" then
    "credential:user" else "credential:owner"
  let c := { c with shared := c.shared ++ [{ projectId := defaultProjectId, role }] }
  { s with db := { s.db with credentials := s.db.credentials.set id c } }

def importCredential (importProjectIds : List String) (c : MigrationCredentialItem) : ImportState :=
  match s.db.findCredentialByNameAndType c.name c.type with
  | some (id, existing) =>
    let s := { s with credentialIdMap := s.credentialIdMap.set c.id id }
    if existing.sharedToImport importProjectIds then s
    else s.shareCredential defaultProjectId id existing
  | none =>
    let newId := env.newId s.db 0
    let entity := {
      name := c.name
      type := c.type
      data := env.createEncryptedData newId c.name c.type
      isGlobal := true
      shared := [{ projectId := defaultProjectId, role := "credential:owner" }] }
    { s with
      db := { s.db with credentials := s.db.credentials.set newId entity }
      credentialIdMap := s.credentialIdMap.set c.id newId
      result := { s.result with credentialsCreated := s.result.credentialsCreated + 1 } }

def importDataTable (dt : MigrationDataTableItem) : Except ImportFailure ImportState :=
  let dtProjectId := s.projectOf defaultProjectId dt.path
  match s.db.findDataTable dt.name dtProjectId with
  | some (id, _) => .ok { s with
      dataTableIdMap := s.dataTableIdMap.set dt.id id
      result := { s.result with dataTablesUpdated := s.result.dataTablesUpdated + 1 } }
  | none => do
    let (db, id) ← s.db.createDataTable env dtProjectId dt.name dt.columns
    let db ← db.insertRows env id dt.rows
    pure { s with
      db
      dataTableIdMap := s.dataTableIdMap.set dt.id id
      result := { s.result with dataTablesCreated := s.result.dataTablesCreated + 1 } }

def importTag (t : MigrationTagItem) : ImportState :=
  match s.db.findTagByName t.name with
  | some (id, _) => { s with tagNameToId := s.tagNameToId.set t.name id }
  | none =>
    let id := env.newId s.db 0
    { s with
      db := { s.db with tags := s.db.tags.set id t.name }
      tagNameToId := s.tagNameToId.set t.name id
      result := { s.result with tagsCreated := s.result.tagsCreated + 1 } }

/-- `meta` of a workflow of a bundle. -/
def metaOf (w : MigrationWorkflowItem) : JsValue :=
  match w.«meta» with
  | .obj props => .obj props
  | _ => .obj []

/-- The columns that the first pass writes. -/
def updateColumns (w : MigrationWorkflowItem) (old : WorkflowEntity) : WorkflowEntity :=
  { old with
    nodes := w.nodes
    connections := ProjectDatabase.orUndefined w.connections old.connections
    settings := ProjectDatabase.orUndefined w.settings old.settings
    description := w.description
    «meta» := metaOf w
    isArchived := some w.isArchived
    triggerCount := some w.triggerCount }

/-- The ids of credentials and data tables in the nodes are replaced. -/
def replaceIds (w : MigrationWorkflowItem) : MigrationWorkflowItem :=
  let nodes := replaceCredentialIdsInNodes w.nodes s.credentialIdMap
  { w with nodes := replaceDataTableIdsInNodes nodes s.dataTableIdMap }

/-- A workflow is created, with ids in its nodes and credentials looked up. -/
def createWorkflow (w : MigrationWorkflowItem) (projectId : String) (folderId : Option String) :
    Except ImportFailure ImportState := do
  let nodes := addNodeIds (fun i => env.newId s.db (i + 1)) w.nodes
  let w := { w with nodes := s.db.replaceInvalidCredentials projectId nodes }
  let (db, id) ← s.db.createWorkflowInProjectAndFolder env user {
    name := w.name
    description := w.description
    nodes := w.nodes
    connections := w.connections
    settings := w.settings
    «meta» := metaOf w
    isArchived := some w.isArchived
    triggerCount := some w.triggerCount
    versionId := some (env.newId s.db 0) } projectId folderId
  pure { s with
    db
    workflowIdMap := s.workflowIdMap.set w.id id
    result := { s.result with workflowsCreated := s.result.workflowsCreated + 1 }
    workflows := s.workflows ++ [w] }

/-- The first pass: a workflow is looked up by project, folder and name. -/
def importWorkflow (w : MigrationWorkflowItem) : Except ImportFailure ImportState := do
  let wProjectId := s.projectOf defaultProjectId w.path
  let (db, folderId) ← s.db.getOrCreateFolderByPath env wProjectId
    (folderPathToSegments w.path.folderPath w.path.projectName)
  let w := s.replaceIds w
  match db.findWorkflowByNameInFolder wProjectId folderId w.name with
  | some existing => pure { s with
      db := db.updateWorkflow existing (updateColumns w)
      workflowIdMap := s.workflowIdMap.set w.id existing
      result := { s.result with workflowsUpdated := s.result.workflowsUpdated + 1 }
      workflows := s.workflows ++ [w] }
  | none => createWorkflow env user { s with db } w wProjectId folderId

/-- What the second pass writes of a workflow of the bundle. -/
def withReferences (w : MigrationWorkflowItem) : MigrationWorkflowItem :=
  { w with
    nodes := replaceWorkflowIdsInNodes w.nodes s.workflowIdMap
    settings := replaceErrorWorkflowInSettings w.settings s.workflowIdMap }

/-- The second pass: the ids of workflows are replaced. -/
def updateReferences (w : MigrationWorkflowItem) : ImportState :=
  match s.workflowIdMap.get? w.id with
  | none => s
  | some newId =>
    let w := s.withReferences w
    { s with db := s.db.updateWorkflow newId fun old => { old with
      nodes := w.nodes
      connections := ProjectDatabase.orUndefined w.connections old.connections
      settings := ProjectDatabase.orUndefined w.settings old.settings } }

def importTagMapping (tags : List MigrationTagItem) (m : MigrationTagMappingItem) : ImportState :=
  let newTagId := (tags.find? fun t => t.id = m.tagId).bind fun t => s.tagNameToId.get? t.name
  match s.workflowIdMap.get? m.workflowId, newTagId with
  | some workflowId, some tagId =>
    if { workflowId, tagId } ∈ s.db.tagMappings then s
    else { s with db := { s.db with tagMappings := s.db.tagMappings ++ [{ workflowId, tagId }] } }
  | _, _ => s

end ImportState

/-! ### The import -/

/-- `uniqueProjectNames`. -/
def uniqueProjectNames (bundle : MigrationBundle) : List String :=
  (OrderedSet.ofList
    (((bundle.workflows.map fun w => w.path.projectName) ++
      bundle.dataTables.map fun dt => dt.path.projectName).filterMap fun n =>
        if trimText n = "" then none else some (trimText n))).elems

/-- The default project: the one that is asked for, or the personal project of the user. -/
def findTargetProject (db : ProjectDatabase) (targetProjectId : Option String) :
    Except ImportError String :=
  match targetProjectId.filter fun id => id ≠ "" with
  | some id =>
    match db.getProjectWithScope user id ["workflow:create"] with
    | none => .error .targetProjectNotFound
    | some _ => .ok id
  | none =>
    match db.getPersonalProjectForUser user.id with
    | none => .error .personalProjectNotFound
    | some id => .ok id

/-- The project of each name, and the default project for none. -/
def importProjects (db : ProjectDatabase) (bundle : MigrationBundle)
    (targetProjectId : Option String) (projectId : String) : ImportState :=
  let names := uniqueProjectNames bundle
  let s : ImportState :=
    if (targetProjectId.filter fun id => id ≠ "").isSome then
      { db, projectNameToId := names.foldl (fun ids name => ids.set name projectId) .empty }
    else names.foldl (fun s name => s.importProject env user projectId name) { db }
  { s with projectNameToId := s.projectNameToId.set "" projectId }

/-- The state after the variables and the credentials. -/
def importCredentials (s : ImportState) (bundle : MigrationBundle) (defaultProjectId : String) :
    ImportState :=
  let s := bundle.«variables».foldl (fun s v => s.importVariable env v) s
  let importProjectIds := s.projectNameToId.values ++ [defaultProjectId]
  bundle.credentials.foldl
    (fun s c => s.importCredential env defaultProjectId importProjectIds c) s

/-- The state after the first pass over the workflows. -/
def importWorkflows (s : ImportState) (bundle : MigrationBundle) (defaultProjectId : String) :
    Except ImportFailure ImportState := do
  let s ← bundle.dataTables.foldlM (fun s dt => s.importDataTable env defaultProjectId dt) s
  let s := bundle.tags.foldl (fun s t => s.importTag env t) s
  bundle.workflows.foldlM (fun s w => s.importWorkflow env user defaultProjectId w) s

/-- The state at the end. -/
def importReferences (s : ImportState) (bundle : MigrationBundle) : ImportState :=
  let s := s.workflows.foldl ImportState.updateReferences s
  let s := bundle.tagMappings.foldl (fun s m => s.importTagMapping bundle.tags m) s
  { s with result := { s.result with
    sourceWorkflowId := (s.workflowIdMap.get? bundle.sourceWorkflowId).getD "" } }

/-- `importMigrationBundle`, with the state that it ends in. -/
def importMigrationBundle (db : ProjectDatabase) (bundle : MigrationBundle)
    (targetProjectId : Option String) : Except ImportFailure ImportState :=
  match findTargetProject user db targetProjectId with
  | .error e => .error ⟨db, e⟩
  | .ok projectId => do
    let s := importCredentials env (importProjects env user db bundle targetProjectId projectId)
      bundle projectId
    let s ← importWorkflows env user s bundle projectId
    pure (importReferences s bundle)

end N8n
