import N8n.Lib.Writes
import N8n.Migration.Export

/-!
# Nodes of an import

What `migration-import.service.ts` changes in the nodes of a bundle, and what
`packages/cli/src/workflow-helpers.ts` changes in those of a new workflow.

* `replaceCredentialIdsInNodes`, `replaceDataTableIdsInNodes`, `replaceWorkflowIdsInNodes`,
  `replaceErrorWorkflowInSettings`: ids of the bundle become ids of the target;
* `addNodeIds`, `replaceInvalidCredentials`: nodes get ids, and credentials are looked up.
-/

namespace N8n

/-- `object[key] = value`. -/
def JsObject.put (o : JsObject) (key : String) (value : JsValue) : JsObject :=
  EntryList.write key value o

/-! ### Ids of the bundle -/

/-- The id that an id is mapped to, unless it stays. -/
def mappedId (ids : Dict String String) (value : JsValue) : Option String :=
  match value with
  | .str id => ids.get? id
  | _ => none

def replaceEntryId (ids : Dict String String) (entry : JsValue) : JsValue :=
  match entry with
  | .obj props =>
    match if (JsObject.get props "id").truthy then mappedId ids (JsObject.get props "id") else none with
    | some id => .obj (JsObject.put props "id" (.str id))
    | none => entry
  | _ => entry

def replaceCredentialIdsInNode (ids : Dict String String) (node : JsObject) : JsObject :=
  match JsObject.get node "credentials" with
  | .obj props =>
    node.put "credentials" (.obj (props.map fun p => (p.1, replaceEntryId ids p.2)))
  | .arr xs => node.put "credentials" (.arr (xs.map (replaceEntryId ids)))
  | _ => node

def replaceCredentialIdsInNodes (nodes : List JsObject) (ids : Dict String String) :
    List JsObject := nodes.map (replaceCredentialIdsInNode ids)

/-- A parameter that is a text or a locator, with the id mapped. -/
def replaceIdInParameter (ids : Dict String String) (param : JsValue) : JsValue :=
  match param with
  | .str _ =>
    match mappedId ids param with
    | some id => .str id
    | none => param
  | .obj props =>
    match mappedId ids (JsObject.get props "value") with
    | some id => .obj (JsObject.put props "value" (.str id))
    | none => param
  | _ => param

/-- `node.parameters[name]`, with the id mapped. -/
def replaceIdInNode (name : String) (ids : Dict String String) (node : JsObject) : JsObject :=
  match JsObject.get node "parameters" with
  | .obj parameters =>
    match JsObject.get parameters name with
    | .undefined => node
    | param =>
      node.put "parameters" (.obj (JsObject.put parameters name (replaceIdInParameter ids param)))
  | _ => node

def replaceDataTableIdsInNodes (nodes : List JsObject) (ids : Dict String String) :
    List JsObject := nodes.map (replaceIdInNode "dataTableId" ids)

def replaceWorkflowIdsInNodes (nodes : List JsObject) (ids : Dict String String) : List JsObject :=
  nodes.map fun node =>
    match JsObject.get node "type" with
    | .str type =>
      if type ∈ EXECUTE_WORKFLOW_NODE_TYPES then replaceIdInNode "workflowId" ids node else node
    | _ => node

def replaceErrorWorkflowInSettings (settings : JsValue) (ids : Dict String String) : JsValue :=
  match settings with
  | .obj props =>
    let errorWorkflow := JsObject.get props "errorWorkflow"
    if errorWorkflow = .str "DEFAULT" ∨ errorWorkflow = .str "" then settings
    else
      match mappedId ids errorWorkflow with
      | some id => .obj (JsObject.put props "errorWorkflow" (.str id))
      | none => settings
  | _ => settings

/-! ### New workflows -/

/-- Gives an id to each node without one, from a source of new ids. -/
def addNodeIds (newId : ℕ → String) (nodes : List JsObject) : List JsObject :=
  nodes.mapIdx fun i node =>
    if (JsObject.get node "id").truthy then node else node.put "id" (.str (newId i))

/-- A text, of a value that is one. -/
def textOf : JsValue → String
  | .str s => s
  | _ => ""

namespace ProjectDatabase

variable (db : ProjectDatabase)

def findByNameAndTypeInProject (name type projectId : String) : List (String × CredentialsEntity) :=
  db.credentials.entries.filter fun e => e.2.name = name && e.2.type = type &&
    e.2.shared.any fun s => s.projectId = projectId

/-- `{ id, name }`. -/
def credentialDetails (e : String × CredentialsEntity) : JsValue :=
  .obj [("id", .str e.1), ("name", .str e.2.name)]

/-- The two caches of `replaceInvalidCredentials`, by type and name or id. -/
structure CredentialsCache where
  byName : Dict (String × String) JsValue := .empty
  byId : Dict (String × String) JsValue := .empty

/-- One turn of the inner loop: the credentials of a node of one type. -/
def replaceInvalidEntry (projectId : String) (cache : CredentialsCache) (type : String)
    (nodeCredentials : JsValue) : CredentialsCache × JsValue :=
  if nodeCredentials = .undefined ∨ nodeCredentials = .null ∨
      (nodeCredentials.prop "__aiGatewayManaged").truthy = true then (cache, nodeCredentials)
  else
    let name := match nodeCredentials with
      | .str s => s
      | _ => textOf (nodeCredentials.prop "name")
    let isOldStyle : Bool := match nodeCredentials with
      | .str _ => true
      | _ => nodeCredentials.prop "id" = JsValue.null
    if isOldStyle then
      match cache.byName.get? (type, name) with
      | some details => (cache, details)
      | none =>
        match db.findByNameAndTypeInProject name type projectId with
        | [e] =>
          ({ cache with byName := cache.byName.set (type, name) (credentialDetails e) },
            credentialDetails e)
        | _ =>
          ({ cache with
              byName := cache.byName.set (type, name) (.obj [("id", .null), ("name", .str name)]) },
            nodeCredentials)
    else
      let id := textOf (nodeCredentials.prop "id")
      match cache.byId.get? (type, id) with
      | some details => (cache, details)
      | none =>
        match (db.credentials.get? id).filter fun c : CredentialsEntity => c.type = type with
        | some c =>
          ({ cache with byId := cache.byId.set (type, id) (credentialDetails (id, c)) },
            credentialDetails (id, c))
        | none =>
          match db.findByNameAndTypeInProject name type projectId with
          | [e] =>
            ({ cache with byId := cache.byId.set (type, e.1) (credentialDetails e) },
              credentialDetails e)
          | _ =>
            ({ cache with byId := cache.byId.set (type, id) nodeCredentials }, nodeCredentials)

/-- The inner loop: the credentials of a node. -/
def replaceInvalidEntries (projectId : String) :
    CredentialsCache → List (String × JsValue) → CredentialsCache × List (String × JsValue)
  | cache, [] => (cache, [])
  | cache, (type, value) :: entries =>
    let (cache, value) := db.replaceInvalidEntry projectId cache type value
    let (cache, entries) := replaceInvalidEntries projectId cache entries
    (cache, (type, value) :: entries)

/-- The outer loop: nodes that are disabled or have no credentials are skipped. -/
def replaceInvalidNodes (projectId : String) : CredentialsCache → List JsObject → List JsObject
  | _, [] => []
  | cache, node :: nodes =>
    match JsObject.get node "credentials", (JsObject.get node "disabled").truthy with
    | .obj entries, false =>
      let (cache, entries) := db.replaceInvalidEntries projectId cache entries
      node.put "credentials" (.obj entries) :: replaceInvalidNodes projectId cache nodes
    | _, _ => node :: replaceInvalidNodes projectId cache nodes

def replaceInvalidCredentials (projectId : String) (nodes : List JsObject) : List JsObject :=
  db.replaceInvalidNodes projectId {} nodes

/-! ### Keys that stay -/

theorem get_put (o : JsObject) (key key' : String) (value : JsValue) :
    JsObject.get (o.put key value) key' = if key' = key then value else JsObject.get o key' := by
  rw [JsObject.get, JsObject.put, EntryList.lookup_write]
  by_cases h : key' = key
  · rw [if_pos h, if_pos h, Option.getD_some]
  · rw [if_neg h, if_neg h, JsObject.get]

theorem mem_keys_of_get {o : JsObject} {key : String} (h : JsObject.get o key ≠ .undefined) :
    key ∈ o.map Prod.fst := by
  rw [← EntryList.lookup_isSome_iff, Option.isSome_iff_ne_none]
  intro hnone
  exact h (by rw [JsObject.get, hnone, Option.getD_none])

theorem get_replaceCredentialIdsInNode (ids : Dict String String) (node : JsObject) {key : String}
    (h : key ≠ "credentials") :
    JsObject.get (replaceCredentialIdsInNode ids node) key = JsObject.get node key := by
  unfold replaceCredentialIdsInNode
  split
  · rw [get_put, if_neg h]
  · rw [get_put, if_neg h]
  · rfl

theorem get_replaceIdInNode (name : String) (ids : Dict String String) (node : JsObject)
    {key : String} (h : key ≠ "parameters") :
    JsObject.get (replaceIdInNode name ids node) key = JsObject.get node key := by
  unfold replaceIdInNode
  split
  · split
    · rfl
    · rw [get_put, if_neg h]
  · rfl

/-- The parameters and the credentials of a node are replaced in any order. -/
theorem replaceIdInNode_put_credentials (name : String) (ids : Dict String String)
    {node : JsObject} (h : JsObject.get node "credentials" ≠ .undefined) (value : JsValue) :
    replaceIdInNode name ids (node.put "credentials" value) =
      (replaceIdInNode name ids node).put "credentials" value := by
  have hget : JsObject.get (node.put "credentials" value) "parameters" =
      JsObject.get node "parameters" := by
    rw [get_put, if_neg (by decide)]
  unfold replaceIdInNode
  rw [hget]
  split
  · split
    · rfl
    · exact EntryList.write_comm (by decide) (mem_keys_of_get h) _ _
  · rfl

/-- The data tables of the nodes make no difference to their credentials. -/
theorem replaceInvalidNodes_map_replaceIdInNode (projectId name : String)
    (ids : Dict String String) (cache : CredentialsCache) (nodes : List JsObject) :
    db.replaceInvalidNodes projectId cache (nodes.map (replaceIdInNode name ids)) =
      (db.replaceInvalidNodes projectId cache nodes).map (replaceIdInNode name ids) := by
  induction nodes generalizing cache with
  | nil => rfl
  | cons node nodes ih =>
    rw [List.map_cons, replaceInvalidNodes, replaceInvalidNodes,
      get_replaceIdInNode name ids node (by decide), get_replaceIdInNode name ids node (by decide)]
    cases hcredentials : JsObject.get node "credentials" with
    | obj entries =>
      cases (JsObject.get node "disabled").truthy with
      | true => exact congrArg _ (ih cache)
      | false =>
        dsimp only
        rw [List.map_cons, ih, replaceIdInNode_put_credentials]
        rw [hcredentials]
        exact fun h => by cases h
    | _ => exact congrArg _ (ih cache)

/-! ### The credentials that are read -/

section Congr

variable {db} {db' : ProjectDatabase} (h : db.credentials = db'.credentials) {projectId : String}

include h

variable (cache : CredentialsCache)

theorem replaceInvalidEntry_congr (type : String) (value : JsValue) :
    db.replaceInvalidEntry projectId cache type value =
      db'.replaceInvalidEntry projectId cache type value := by
  simp only [replaceInvalidEntry, findByNameAndTypeInProject, h]

theorem replaceInvalidEntries_congr (entries : List (String × JsValue)) :
    db.replaceInvalidEntries projectId cache entries =
      db'.replaceInvalidEntries projectId cache entries := by
  induction entries generalizing cache with
  | nil => rfl
  | cons e entries ih =>
    rw [replaceInvalidEntries, replaceInvalidEntries, replaceInvalidEntry_congr h]
    simp only [ih]

theorem replaceInvalidNodes_congr (nodes : List JsObject) :
    db.replaceInvalidNodes projectId cache nodes =
      db'.replaceInvalidNodes projectId cache nodes := by
  induction nodes generalizing cache with
  | nil => rfl
  | cons node nodes ih =>
    rw [replaceInvalidNodes, replaceInvalidNodes]
    simp only [ih, replaceInvalidEntries_congr h]

/-- Nothing but the credentials of the database is read. -/
theorem replaceInvalidCredentials_congr (nodes : List JsObject) :
    db.replaceInvalidCredentials projectId nodes = db'.replaceInvalidCredentials projectId nodes :=
  replaceInvalidNodes_congr h {} nodes

end Congr

end ProjectDatabase

end N8n
