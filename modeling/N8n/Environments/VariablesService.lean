import N8n.Lib.Process
import Mathlib.Data.Int.Order.Basic

/-!
# Variables

`VariablesService`: requests that write variables, and the list of them that is kept in a cache.

* `Variables`, `VariablesState`: the table, the cache and the access that users have to projects;
* `VariablesOp`: the accesses, one step each;
* `VariablesService.create`, `update`, `deleteForUser`, …: the requests.
-/

namespace N8n

/-- A variable; without a project it is a global one. -/
structure Variables where
  id : String
  key : String
  type : String := "string"
  value : String
  project : Option String := none
  deriving DecidableEq

namespace VariablesService

/-- What a user can do to variables. -/
inductive Scope
  | list
  | read
  | create
  | update
  | delete
  deriving DecidableEq

/-- A user, with the scopes of its global role. -/
structure User where
  id : String
  globalScopes : List Scope := []
  deriving DecidableEq

/-- What a request throws. -/
inductive VariablesError
  | forbidden (message : String)
  | notFound (message : String)
  | countLimitReached (message : String)
  | validation (message : String)
  | updateValuesMissing
  | unavailable
  deriving DecidableEq

/-- What the update of a row sets; what is absent stays. -/
structure VariablePatch where
  key : Option String := none
  value : Option String := none
  project : Option (Option String) := none
  deriving DecidableEq

/-- A write of the repository. -/
inductive RowWrite
  | save (row : Variables)
  | update (id : String) (patch : VariablePatch)
  | delete (id : String)
  | deleteByIds (ids : List String)
  deriving DecidableEq

def VariablePatch.apply (patch : VariablePatch) (v : Variables) : Variables :=
  { v with
    key := patch.key.getD v.key
    value := patch.value.getD v.value
    project := patch.project.getD v.project }

def RowWrite.apply (rows : List Variables) : RowWrite → List Variables
  | .save row => rows ++ [row]
  | .update id patch => rows.map fun v => if v.id = id then patch.apply v else v
  | .delete id => rows.filter fun v => v.id ≠ id
  | .deleteByIds ids => rows.filter fun v => v.id ∉ ids

/-- The accesses of a request to what it shares with others. -/
inductive VariablesOp
  | cacheGet
  | findAll
  | cacheSet (list : List Variables)
  | write (w : RowWrite)
  | findProjectWithAccess (user : User) (projectId : String) (scope : Scope)

abbrev variablesOperations : Operations where
  Op := VariablesOp
  Reply
    | .cacheGet => Option (List Variables)
    | .findAll => List Variables
    | .cacheSet _ => Unit
    | .write _ => Unit
    | .findProjectWithAccess _ _ _ => Bool

/-- The table, the cached list of variables, and which users have which access to which projects. -/
structure VariablesState where
  rows : List Variables := []
  cache : Option (List Variables) := none
  access : User → String → Scope → Bool := fun _ _ _ => false

/-- One access. -/
def handle (s : VariablesState) : (op : VariablesOp) → variablesOperations.Reply op × VariablesState
  | .cacheGet => (s.cache, s)
  | .findAll => (s.rows, s)
  | .cacheSet list => ((), { s with cache := some list })
  | .write w => ((), { s with rows := w.apply s.rows })
  | .findProjectWithAccess user projectId scope => (s.access user projectId scope, s)

/-- A program of the service. -/
abbrev Service := Process variablesOperations VariablesError

def cacheGet : Service (Option (List Variables)) :=
  Process.perform (I := variablesOperations) VariablesOp.cacheGet

def findAll : Service (List Variables) :=
  Process.perform (I := variablesOperations) VariablesOp.findAll

def cacheSet (list : List Variables) : Service Unit :=
  Process.perform (I := variablesOperations) (VariablesOp.cacheSet list)

def write (w : RowWrite) : Service Unit :=
  Process.perform (I := variablesOperations) (VariablesOp.write w)

def findProjectWithAccess (user : User) (projectId : String) (scope : Scope) : Service Bool :=
  Process.perform (I := variablesOperations)
    (VariablesOp.findProjectWithAccess user projectId scope)

/-- The text stands for `undefined` too. -/
def truthy (text : Option String) : Option String := text.filter fun t => t ≠ ""

/-! ### The cache -/

/-- `cacheService.get`, with `findAll` to refresh the cache. -/
def getOrRefresh : Service (List Variables) := do
  match ← cacheGet with
  | some cached => pure cached
  | none => do
    let refreshed ← findAll
    cacheSet refreshed
    pure refreshed

def getAllCached (globalOnly : Bool := false) : Service (List Variables) := do
  let list ← getOrRefresh
  pure (if globalOnly then list.filter fun v => v.project.isNone else list)

def getCached (id : String) : Service (Option Variables) := do
  let list ← getAllCached
  pure (list.find? fun v => v.id = id)

def updateCache : Service Unit := do
  let list ← findAll
  cacheSet list

/-! ### Checks -/

def isAuthorizedForVariable (user : User) (scope : Scope) (projectId : Option String) :
    Service Bool :=
  match truthy projectId with
  | none => pure (scope ∈ user.globalScopes)
  | some projectId => findProjectWithAccess user projectId scope

def canCreateNewVariable (maxVariables : ℤ) : Service Unit :=
  if maxVariables = -1 then pure ()
  else do
    let list ← getAllCached
    if maxVariables ≤ list.length then .throw (.countLimitReached "Variables limit reached")
    else pure ()

def validateUniqueVariable (key : String) (projectId : Option String) (id : Option String) :
    Service Unit := do
  let list ← getAllCached
  let existing := list.filter fun v => v.key = key ∧ some v.id ≠ truthy id
  match truthy projectId with
  | none =>
    if existing.any fun v => v.project.isNone then
      .throw (.countLimitReached ("A global variable with key \"" ++ key ++ "\" already exists"))
    else pure ()
  | some projectId =>
    if existing.any fun v => v.project = some projectId then
      .throw (.countLimitReached
        ("A variable with key \"" ++ key ++ "\" already exists in the specified project"))
    else pure ()

/-- `NEW_VARIABLE_KEY_REGEX`: letters, digits and underscores, not with a digit first. -/
def isNewVariableKey (key : String) : Bool :=
  match key.toList with
  | [] => false
  | c :: rest =>
    let isWord := fun c : Char => ('A' ≤ c ∧ c ≤ 'Z') ∨ ('a' ≤ c ∧ c ≤ 'z') ∨ c = '_'
    isWord c && rest.all fun c => isWord c ∨ ('0' ≤ c ∧ c ≤ '9')

/-! ### Requests -/

/-- The body of a request to create a variable. -/
structure CreateVariable where
  key : String
  value : String
  type : String := "string"
  projectId : Option String := none

/-- The body of a request to update a variable; `projectId` can be absent, `null` or a text. -/
structure UpdateVariable where
  key : Option String := none
  value : Option String := none
  projectId : Option (Option String) := none

def delete (id : String) : Service Unit := do
  write (.delete id)
  updateCache

def deleteByIds (ids : List String) : Service Unit := do
  write (.deleteByIds ids)
  updateCache

def deleteForUser (user : User) (id : String) : Service Unit := do
  let existingVariable ← getCached id
  let userHasRight ←
    isAuthorizedForVariable user .delete (existingVariable.bind Variables.project)
  if userHasRight then delete id
  else .throw (.forbidden "You are not allowed to delete this variable")

def getForUser (user : User) (variableId : String) (scope : Scope) :
    Service (Option Variables) := do
  match ← getCached variableId with
  | none => pure none
  | some found => do
    let userHasAccess ← isAuthorizedForVariable user scope found.project
    if userHasAccess then pure (some found)
    else .throw (.forbidden "You are not allowed to access this variable")

/-- A variable is created with the key that is generated for it. -/
def create (maxVariables : ℤ) (user : User) (dto : CreateVariable) (id : String) :
    Service Variables := do
  let userHasRight ← isAuthorizedForVariable user .create dto.projectId
  if userHasRight then do
    canCreateNewVariable maxVariables
    validateUniqueVariable dto.key dto.projectId none
    let saved : Variables := {
      id := id
      key := dto.key
      type := dto.type
      value := dto.value
      project := truthy dto.projectId }
    write (.save saved)
    updateCache
    pure saved
  else
    .throw (.forbidden ("You are not allowed to create a variable" ++
      (if (truthy dto.projectId).isSome then " in this project" else "")))

/-- What an update checks of the key it is given. -/
def validateUpdatedKey (key : Option String) (existing : Variables)
    (newProjectId : Option String) : Service Unit :=
  match truthy key with
  | none => pure ()
  | some key => validateUniqueVariable key newProjectId (some existing.id)

/-- The row that an update writes, and the refresh. -/
def saveUpdate (id : String) (dto : UpdateVariable) : Service (Option Variables) :=
  if dto.key.isNone ∧ dto.value.isNone ∧ dto.projectId.isNone then .throw .updateValuesMissing
  else do
    write (.update id {
      key := dto.key
      value := dto.value
      project := dto.projectId.map truthy })
    updateCache
    getCached id

/-- Whether the user may move a variable to the project. -/
def canMoveVariable (user : User) (project newProjectId : Option String) : Service Bool :=
  if project = newProjectId then pure true else isAuthorizedForVariable user .update newProjectId

def update (user : User) (id : String) (dto : UpdateVariable) : Service (Option Variables) := do
  match ← getCached id with
  | none => .throw (.notFound ("Variable with id " ++ id ++ " not found"))
  | some existing => do
    let userHasRightOnExistingVariable ← isAuthorizedForVariable user .update existing.project
    if userHasRightOnExistingVariable then
      if (truthy dto.key).isSome ∧ dto.key ≠ some existing.key ∧
          isNewVariableKey (dto.key.getD "") = false then
        .throw (.validation ("When changing the variable key, it can only contain letters, " ++
          "numbers, and underscores (A-Za-z0-9_). Existing keys that don't follow this rule can " ++
          "be kept as-is for backwards-compatibility"))
      else do
        let newProjectId := dto.projectId.getD existing.project
        let userHasRightOnNewProject ← canMoveVariable user existing.project newProjectId
        if userHasRightOnNewProject then do
          validateUpdatedKey dto.key existing newProjectId
          saveUpdate id dto
        else
          .throw (.forbidden ("You are not allowed to move this variable to " ++
            (if (truthy (dto.projectId.getD none)).isSome then "the specified project"
              else "the global scope")))
    else .throw (.forbidden "You are not allowed to update this variable")

/-- A request to the service. -/
inductive Request
  | getAll (globalOnly : Bool)
  | get (user : User) (id : String) (scope : Scope)
  | create (maxVariables : ℤ) (user : User) (dto : CreateVariable) (id : String)
  | update (user : User) (id : String) (dto : UpdateVariable)
  | deleteForUser (user : User) (id : String)
  | deleteByIds (ids : List String)

/-- The answer of a request. -/
def Request.process : Request → Service (List Variables)
  | .getAll globalOnly => getAllCached globalOnly
  | .get user id scope => do
    let found ← getForUser user id scope
    pure found.toList
  | .create maxVariables user dto id => do
    let saved ← VariablesService.create maxVariables user dto id
    pure [saved]
  | .update user id dto => do
    let updated ← VariablesService.update user id dto
    pure updated.toList
  | .deleteForUser user id => do
    VariablesService.deleteForUser user id
    pure []
  | .deleteByIds ids => do
    VariablesService.deleteByIds ids
    pure []

end VariablesService

end N8n
