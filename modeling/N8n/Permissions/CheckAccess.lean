import N8n.Lib.OrderedSet
import N8n.Migration.Database

/-!
# Scopes that are shown and scopes that are checked

`userHasScopes` (`check-access.ts`) decides about a request, `RoleService.addScopes`
(`role.service.ts`) lists what a user may do with a workflow or a credential.  The roles that have
scopes are read from the cached role map (`role-cache.service.ts`), which is that of the database.

* `CREDENTIALS_SHARING_SCOPE_MAP`, `WORKFLOW_SHARING_SCOPE_MAP`, `getRoleScopes`: the static roles
  of sharings;
* `combineScopes`, `combineResourceScopes`, `addScopes`: what is shown;
* `buildRoleScopeMap`, `getRolesWithAllScopes`: the cached role map;
* `userHasScopes`: what is checked.
-/

namespace N8n

namespace Permissions

/-! ### Scopes -/

/-- `scope.split(':')[0]`. -/
def resourceOf (scope : String) : String := String.ofList (scope.toList.takeWhile (· ≠ ':'))

def CREDENTIALS_SHARING_OWNER_SCOPES : List String :=
  ["credential:read", "credential:update", "credential:delete", "credential:share",
    "credential:unshare", "credential:move"]

def CREDENTIALS_SHARING_USER_SCOPES : List String := ["credential:read"]

def WORKFLOW_SHARING_OWNER_SCOPES : List String :=
  ["workflow:read", "workflow:update", "workflow:publish", "workflow:unpublish", "workflow:delete",
    "workflow:execute", "workflow:share", "workflow:unshare", "workflow:move",
    "workflow:execute-chat"]

def WORKFLOW_SHARING_EDITOR_SCOPES : List String :=
  ["workflow:read", "workflow:update", "workflow:publish", "workflow:unpublish", "workflow:execute",
    "workflow:execute-chat"]

def CREDENTIALS_SHARING_SCOPE_MAP : Dict String (List String) :=
  .ofList [("credential:owner", CREDENTIALS_SHARING_OWNER_SCOPES),
    ("credential:user", CREDENTIALS_SHARING_USER_SCOPES)]

def WORKFLOW_SHARING_SCOPE_MAP : Dict String (List String) :=
  .ofList [("workflow:owner", WORKFLOW_SHARING_OWNER_SCOPES),
    ("workflow:editor", WORKFLOW_SHARING_EDITOR_SCOPES)]

/-- The entries of the sharing roles in `COMBINED_ROLE_MAP`. -/
def COMBINED_ROLE_MAP : Dict String (List String) :=
  .ofList (CREDENTIALS_SHARING_SCOPE_MAP.entries ++ WORKFLOW_SHARING_SCOPE_MAP.entries)

/-- `getRoleScopes` for the role of a sharing. -/
def getRoleScopes (role : String) : Option (List String) := COMBINED_ROLE_MAP.get? role

def getAuthPrincipalScopes (user : User) (filters : List String) : List String :=
  user.scopes.filter fun s => resourceOf s ∈ filters

structure ScopeLevels where
  global : List String
  project : Option (List String) := none
  resource : Option (List String) := none

/-- `combineScopes`; `sharing` is the mask for the scopes that are not global. -/
def combineScopes (userScopes : ScopeLevels) (sharing : Option (List String)) : OrderedSet String :=
  let maskedScopes : ScopeLevels :=
    match sharing with
    | none => userScopes
    | some sharing =>
      { userScopes with
        project := userScopes.project.map (·.filter (· ∈ sharing))
        resource := userScopes.resource.map (·.filter (· ∈ sharing)) }
  .ofList (maskedScopes.global ++ maskedScopes.project.getD [] ++ maskedScopes.resource.getD [])

/-! ### What is shown -/

/-- A sharing that is loaded with an entity: with the id of its project, or with the project. -/
structure SharedEntity where
  role : String
  projectId : Option String := none
  project : String
  deriving DecidableEq

/-- `sharedEntity.projectId ?? sharedEntity.project.id`. -/
def SharedEntity.ownProjectId (sharedEntity : SharedEntity) : String :=
  sharedEntity.projectId.getD sharedEntity.project

/-- What `addScopes` reads of an entity: which properties it has, and two of their values. -/
structure RawEntity where
  hasVersionId : Bool := false
  hasActiveVersionId : Bool := false
  hasTriggerCount : Bool := false
  hasType : Bool := false
  isGlobal : Option Bool := none
  shared : Option (List SharedEntity)

/-- A relation of a user with its role loaded. -/
structure LoadedRelation where
  projectId : String
  role : Role
  deriving DecidableEq

inductive AccessError where
  | notFoundError (message : String)
  | unexpectedError (message : String)
  deriving DecidableEq

def combineResourceScopes (type : String) (user : User) (shared : List SharedEntity)
    (userProjectRelations : List LoadedRelation) : List String :=
  let globalScopes := getAuthPrincipalScopes user [type]
  let scopesSet := shared.foldl (fun scopesSet sharedEntity =>
    let pr := userProjectRelations.find? fun p => p.projectId = sharedEntity.ownProjectId
    let projectScopes := (pr.map fun pr => pr.role.scopes).getD []
    let resourceMask := getRoleScopes sharedEntity.role
    let mergedScopes :=
      combineScopes { global := globalScopes, project := projectScopes } resourceMask
    scopesSet.union mergedScopes) (OrderedSet.ofList globalScopes)
  scopesSet.elems.mergeSort fun a b => decide (a ≤ b)

/-- `addScopes`: the scopes that the entity is given. -/
def addScopes (rawEntity : RawEntity) (user : User) (userProjectRelations : List LoadedRelation) :
    Except AccessError (List String) :=
  match rawEntity.shared with
  | none => .ok []
  | some shared =>
    let isWorkflow :=
      rawEntity.hasVersionId || rawEntity.hasActiveVersionId || rawEntity.hasTriggerCount
    let isCredential := rawEntity.hasType
    if !isWorkflow && !isCredential then
      .error (.unexpectedError "Cannot detect if entity is a workflow or credential.")
    else
      let entityType := if isWorkflow then "workflow" else "credential"
      let scopes := combineResourceScopes entityType user shared userProjectRelations
      if entityType = "credential" && rawEntity.isGlobal.getD false &&
          "credential:read" ∉ scopes then
        .ok (scopes ++ ["credential:read"])
      else .ok scopes

end Permissions

/-! ### The cached role map -/

namespace Permissions

/-- For each namespace the scopes of its roles. -/
abbrev RoleScopeMap := Dict RoleNamespace (Dict String (List String))

/-- The roles of a namespace. -/
def RoleScopeMap.rolesOf (roleScopeMap : RoleScopeMap) (ns : RoleNamespace) :
    Dict String (List String) :=
  (roleScopeMap.get? ns).getD .empty

def buildRoleScopeMap (roles : List Role) : RoleScopeMap :=
  roles.foldl (fun roleScopeMap role => roleScopeMap.set role.roleType
    ((RoleScopeMap.rolesOf roleScopeMap role.roleType).set role.slug role.scopes)) .empty

def getRolesWithAllScopes (roleScopeMap : RoleScopeMap) (ns : RoleNamespace)
    (requiredScopes : List String) : List String :=
  if requiredScopes.isEmpty then []
  else ((RoleScopeMap.rolesOf roleScopeMap ns).entries.filter fun e =>
    requiredScopes.all fun scope => scope ∈ e.2).map Prod.fst

theorem rolesOf_set (roleScopeMap : RoleScopeMap) (ns ns' : RoleNamespace)
    (roles : Dict String (List String)) :
    RoleScopeMap.rolesOf (roleScopeMap.set ns roles) ns' =
      if ns' = ns then roles else RoleScopeMap.rolesOf roleScopeMap ns' := by
  rw [RoleScopeMap.rolesOf, Dict.get?_set]
  split <;> rfl

/-- The map has the roles of the database. -/
theorem get?_rolesOf_buildRoleScopeMap {roles : List Role} (h : (roles.map Role.slug).Nodup)
    (ns : RoleNamespace) (slug : String) (scopes : List String) :
    (RoleScopeMap.rolesOf (buildRoleScopeMap roles) ns).get? slug = some scopes ↔
      ⟨slug, ns, scopes⟩ ∈ roles := by
  induction roles using List.reverseRecOn with
  | nil => simp [buildRoleScopeMap, RoleScopeMap.rolesOf]
  | append_singleton roles role ih =>
    rw [List.map_append, List.map_singleton, List.nodup_append] at h
    have hnew : ∀ role' ∈ roles, role'.slug ≠ role.slug := fun role' hrole' =>
      h.2.2 _ (List.mem_map_of_mem hrole') _ (List.mem_singleton_self _)
    have hstep : buildRoleScopeMap (roles ++ [role]) = (buildRoleScopeMap roles).set role.roleType
        ((RoleScopeMap.rolesOf (buildRoleScopeMap roles) role.roleType).set role.slug
          role.scopes) := by
      rw [buildRoleScopeMap, List.foldl_concat]
      rfl
    rw [hstep, rolesOf_set, List.mem_append, List.mem_singleton]
    split
    · rename_i hns
      subst hns
      rw [Dict.get?_set]
      split
      · rename_i hslug
        subst hslug
        have hnot : ⟨role.slug, role.roleType, scopes⟩ ∉ roles := fun hmem => hnew _ hmem rfl
        obtain ⟨slug, ns, scopes'⟩ := role
        simp [hnot, eq_comm]
      · rename_i hslug
        rw [ih h.1]
        obtain ⟨slug', ns, scopes'⟩ := role
        simp only [Role.mk.injEq]
        exact (or_iff_left fun heq => hslug heq.1).symm
    · rename_i hns
      rw [ih h.1]
      obtain ⟨slug', ns', scopes'⟩ := role
      simp only [Role.mk.injEq]
      exact (or_iff_left fun heq => hns heq.2.1).symm

/-- What is read from the map, if it is that of the database. -/
theorem mem_getRolesWithAllScopes {db : ProjectDatabase} (h : (db.roles.map Role.slug).Nodup)
    (ns : RoleNamespace) {scopes : List String} (hscopes : scopes ≠ []) (slug : String) :
    slug ∈ getRolesWithAllScopes (buildRoleScopeMap db.roles) ns scopes ↔
      slug ∈ db.rolesWithScope ns scopes := by
  rw [getRolesWithAllScopes, if_neg (by simpa using hscopes), ProjectDatabase.rolesWithScope]
  simp only [List.mem_map, List.mem_filter, Bool.and_eq_true, decide_eq_true_eq]
  constructor
  · rintro ⟨⟨slug, roleScopes⟩, ⟨hmem, hall⟩, rfl⟩
    rw [Dict.mem_entries_iff, get?_rolesOf_buildRoleScopeMap h] at hmem
    exact ⟨_, ⟨hmem, rfl, hall⟩, rfl⟩
  · rintro ⟨⟨slug, ns, roleScopes⟩, ⟨hmem, rfl, hall⟩, rfl⟩
    refine ⟨(slug, roleScopes), ⟨?_, hall⟩, rfl⟩
    rwa [Dict.mem_entries_iff, get?_rolesOf_buildRoleScopeMap h]

end Permissions

/-! ### What is checked -/

namespace ProjectDatabase

open Permissions

variable (db : ProjectDatabase) (user : User)

def getProjectRelationsForUser : List LoadedRelation :=
  (db.projectRelations.filter fun r => r.userId = user.id).filterMap fun r =>
    (db.roles.find? fun role => role.slug = r.role).map fun role => ⟨r.projectId, role⟩

/-- The query of the projects where the user has a role with all scopes: the relations joined with
the scopes of their roles, grouped by project, and the scopes of each group counted. -/
def userProjectIds (scopes : List String) : List String :=
  let rows := (db.getProjectRelationsForUser user).flatMap fun relation =>
    (relation.role.scopes.filter (· ∈ scopes)).map fun slug => (relation.projectId, slug)
  (rows.map Prod.fst).dedup.filter fun id =>
    ((rows.filter fun row => row.1 = id).map Prod.snd).dedup.length = scopes.length

def findGlobalCredentialById (credentialId : String) : Option CredentialsEntity :=
  (db.credentials.get? credentialId).filter (·.isGlobal)

end ProjectDatabase

namespace Permissions

/-- What is checked; an id that is not given or empty is passed over. -/
structure ResourceIds where
  credentialId : String := ""
  workflowId : String := ""
  projectId : String := ""
  dataTableId : String := ""

end Permissions

open Permissions in
def ProjectDatabase.userHasScopes (db : ProjectDatabase) (roleScopeMap : RoleScopeMap)
    (dataTableIsActive : Bool) (user : User) (scopes : List String) (globalOnly : Bool)
    (ids : ResourceIds) : Except AccessError Bool :=
  if user.hasGlobalScope scopes then .ok true
  else if globalOnly then .ok false
  else
    let userProjectIds := db.userProjectIds user scopes
    if ids.credentialId ≠ "" then
      let credentials := ((db.credentials.get? ids.credentialId).map (·.shared)).getD []
      if credentials.isEmpty then
        .error (.notFoundError ("Credential with ID \"" ++ ids.credentialId ++ "\" not found."))
      else
        let validRoles := getRolesWithAllScopes roleScopeMap .credential scopes
        let hasValidRoles :=
          credentials.any fun c => c.projectId ∈ userProjectIds && c.role ∈ validRoles
        .ok (hasValidRoles ||
          (hasGlobalReadOnlyAccess scopes && (db.findGlobalCredentialById ids.credentialId).isSome))
    else if ids.workflowId ≠ "" then
      let workflows := ((db.workflows.get? ids.workflowId).map (·.shared)).getD []
      if workflows.isEmpty then
        .error (.notFoundError ("Workflow with ID \"" ++ ids.workflowId ++ "\" not found."))
      else
        let validRoles := getRolesWithAllScopes roleScopeMap .workflow scopes
        .ok (workflows.any fun w => w.projectId ∈ userProjectIds && w.role ∈ validRoles)
    else if ids.dataTableId ≠ "" then
      match (db.dataTables.get? ids.dataTableId).filter fun _ => dataTableIsActive with
      | none =>
        .error (.notFoundError ("Data table with ID \"" ++ ids.dataTableId ++ "\" not found."))
      | some dataTable => .ok (decide (dataTable.projectId ∈ userProjectIds))
    else if ids.projectId ≠ "" then .ok (decide (ids.projectId ∈ userProjectIds))
    else
      .error (.unexpectedError
        ("`@ProjectScope` decorator was used but does not have a `credentialId`, `workflowId`, " ++
          "`dataTableId`, or `projectId` in its URL parameters. This is likely an " ++
          "implementation error. If you're a developer, please check your URL is correct or " ++
          "that this should be using `@GlobalScope`."))

end N8n
