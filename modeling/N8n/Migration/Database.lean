import N8n.NodeParameters.DisplayOptions

/-!
# The database of projects and workflows

The tables that the export and the import of projects read and write
(`packages/@n8n/db/src/entities`, `packages/cli/src/modules/data-table`), and who may read what is in
them (`workflow-finder.service.ts`, `credentials-finder.service.ts`, `project.service.ee.ts`).

* `ProjectDatabase`: the tables, by id and in the order of insertion;
* `findWorkflowForUser`, `findCredentialForUser`, `getProjectWithScope`: the look-ups of what a user
  has access to.
-/

namespace N8n

/-! ### Tables -/

/-- A sharing of a workflow or of a credential with a project. -/
structure Sharing where
  projectId : String
  role : String
  deriving DecidableEq

structure WorkflowEntity where
  name : String
  description : Option String := none
  parentFolder : Option String := none
  nodes : List JsObject := []
  connections : JsValue := .obj []
  settings : JsValue := .undefined
  «meta» : JsValue := .null
  versionId : Option String := none
  triggerCount : Option ℕ := none
  isArchived : Option Bool := none
  shared : List Sharing := []
  deriving DecidableEq

structure CredentialsEntity where
  name : String
  type : String
  data : String := ""
  isGlobal : Bool := false
  shared : List Sharing := []
  deriving DecidableEq

structure DataTableColumn where
  id : String
  name : String
  type : String
  index : ℕ
  deriving DecidableEq

/-- A data table, with its times as `toISOString` writes them. -/
structure DataTable where
  name : String
  projectId : String
  columns : List DataTableColumn := []
  rows : List JsObject := []
  createdAt : String := ""
  updatedAt : String := ""
  deriving DecidableEq

inductive ProjectType
  | personal
  | team
  deriving DecidableEq

structure Project where
  name : String
  type : ProjectType := .team
  creatorId : Option String := none
  deriving DecidableEq

structure ProjectRelation where
  projectId : String
  userId : String
  role : String
  deriving DecidableEq

structure Folder where
  name : String
  parentFolderId : Option String := none
  homeProject : String
  deriving DecidableEq

/-- A row of the table `variables`; a global variable has no project. -/
structure VariablesRow where
  key : String
  type : String
  value : String
  project : Option String := none
  deriving DecidableEq

structure WorkflowTagMapping where
  workflowId : String
  tagId : String
  deriving DecidableEq

inductive RoleNamespace
  | project
  | workflow
  | credential
  deriving DecidableEq

structure Role where
  slug : String
  roleType : RoleNamespace
  scopes : List String := []
  deriving DecidableEq

/-- A user, with the scopes of its role. -/
structure User where
  id : String
  scopes : List String := []
  deriving DecidableEq

structure ProjectDatabase where
  projects : Dict String Project := .empty
  projectRelations : List ProjectRelation := []
  roles : List Role := []
  folders : Dict String Folder := .empty
  workflows : Dict String WorkflowEntity := .empty
  credentials : Dict String CredentialsEntity := .empty
  dataTables : Dict String DataTable := .empty
  «variables» : Dict String VariablesRow := .empty
  tags : Dict String String := .empty
  tagMappings : List WorkflowTagMapping := []

/-! ### Access -/

/-- `hasGlobalScope(user, scopes, { mode: 'allOf' })`. -/
def User.hasGlobalScope (user : User) (scopes : List String) : Bool :=
  !scopes.isEmpty && scopes.all fun scope => scope ∈ user.scopes

namespace ProjectDatabase

variable (db : ProjectDatabase) (user : User)

/-- `roleService.rolesWithScope`. -/
def rolesWithScope (ns : RoleNamespace) (scopes : List String) : List String :=
  (db.roles.filter fun r => r.roleType = ns && scopes.all fun scope => scope ∈ r.scopes).map
    Role.slug

/-- The user has a role in the project that has the scopes. -/
def relatesWithScope (projectId : String) (scopes : List String) : Bool :=
  db.projectRelations.any fun r => r.projectId = projectId && r.userId = user.id &&
    r.role ∈ db.rolesWithScope .project scopes

/-- The condition of the finders on a sharing. -/
def sharingGives (ns : RoleNamespace) (scopes : List String) (s : Sharing) : Bool :=
  user.hasGlobalScope scopes ||
    (s.role ∈ db.rolesWithScope ns scopes && db.relatesWithScope user s.projectId scopes)

def findWorkflowForUser (workflowId : String) (scopes : List String) : Option WorkflowEntity :=
  (db.workflows.get? workflowId).filter fun w => w.shared.any (db.sharingGives user .workflow scopes)

/-- `credential:read` alone gives access to global credentials. -/
def hasGlobalReadOnlyAccess (scopes : List String) : Bool := scopes = ["credential:read"]

def findCredentialForUser (credentialsId : String) (scopes : List String) :
    Option CredentialsEntity :=
  (db.credentials.get? credentialsId).filter fun c =>
    c.shared.any (db.sharingGives user .credential scopes) ||
      (hasGlobalReadOnlyAccess scopes && c.isGlobal)

def getProjectWithScope (projectId : String) (scopes : List String) : Option Project :=
  (db.projects.get? projectId).filter fun _ =>
    user.hasGlobalScope scopes || db.relatesWithScope user projectId scopes

end ProjectDatabase

end N8n
