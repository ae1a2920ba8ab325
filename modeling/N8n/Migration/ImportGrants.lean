import N8n.Migration.ImportFrame
import N8n.Migration.ImportProjects

/-!
# What an import shares

The credentials that exist before an import and are shared with a project of the user, before and
after it.

* `ProjectDatabase.isSharedWithUser`: a credential is shared with a project of the user;
* `grantsCredential`: an import finds the credential, and shares it with a project of the user;
* `importCredentials_sharings`: the sharings after the loop over the credentials.
-/

namespace N8n

/-! ### Sharings -/

namespace ProjectDatabase

variable (db : ProjectDatabase) (user : User)

/-- The user has a role in the project. -/
def isMember (projectId : String) : Bool :=
  db.projectRelations.any fun r => r.projectId = projectId && r.userId = user.id

def isSharedWithUser (credentialsId : String) : Bool :=
  (db.credentials.get? credentialsId).any fun c =>
    c.shared.any fun sharing => db.isMember user sharing.projectId

/-- What credentials are looked up by. -/
def credentialIndex : List (String × String × String) := db.credentials.index fun c => (c.name, c.type)

/-- The credential is the one that some of the items find, and it is shared with none of the
projects. -/
def sharesCredential (projectIds : List String) (items : List MigrationCredentialItem)
    (id : String) : Bool :=
  items.any fun item =>
    (db.findCredentialByNameAndType item.name item.type).any fun e =>
      e.1 = id && !e.2.sharedToImport projectIds

end ProjectDatabase

/-- What a call leaves. -/
def databaseAfter : Except ImportFailure ImportState → ProjectDatabase
  | .error failure => failure.db
  | .ok s => s.db

section Grants

variable (env : ImportEnvironment) (user : User) (db : ProjectDatabase) (bundle : MigrationBundle)
  (targetProjectId : Option String)

/-- The projects of an import that exist before it. -/
def existingImportProjects (defaultProjectId : String) : List String :=
  defaultProjectId ::
    (importedNames bundle targetProjectId).filterMap fun name => db.findProjectByName user name

/-- The import shares the credential with its default project, which is one of the user. -/
def grantsCredential (id : String) : Bool :=
  match findTargetProject user db targetProjectId with
  | .error _ => false
  | .ok projectId =>
    db.isMember user projectId &&
      db.sharesCredential (existingImportProjects user db bundle targetProjectId projectId)
        bundle.credentials id

end Grants

theorem ProjectDatabase.findCredential_fst (db : ProjectDatabase) (name type : String) :
    (db.findCredentialByNameAndType name type).map Prod.fst =
      (db.credentialIndex.find? fun e => e.2.1 = name && e.2.2 = type).map Prod.fst :=
  Dict.map_fst_find?_entries db.credentials (fun c => (c.name, c.type))
    fun e => e.2.1 = name && e.2.2 = type

variable {db : ProjectDatabase} {id : String} {c : CredentialsEntity} {projectIds : List String}

theorem ProjectDatabase.get?_of_findCredential {name type : String}
    (h : db.findCredentialByNameAndType name type = some (id, c)) :
    db.credentials.get? id = some c :=
  (Dict.mem_entries_iff _ _ _).1 (List.mem_of_find?_eq_some h)

theorem CredentialsEntity.sharedToImport_of_map {c' : CredentialsEntity} {more : List String}
    (h : c'.shared.map Sharing.projectId = c.shared.map Sharing.projectId ++ more) :
    c'.sharedToImport projectIds =
      (c.sharedToImport projectIds || more.any fun id => id ∈ projectIds) := by
  have hmap : ∀ c : CredentialsEntity, c.sharedToImport projectIds =
      (c.shared.map Sharing.projectId).any fun id => id ∈ projectIds := by
    intro c
    rw [List.any_map]
    rfl
  rw [hmap, hmap, h, List.any_append]

theorem ProjectDatabase.sharesCredential_concat {items : List MigrationCredentialItem}
    {item : MigrationCredentialItem} (hc : db.credentials.get? id = some c) :
    db.sharesCredential projectIds (items ++ [item]) id =
      (db.sharesCredential projectIds items id ||
        ((db.findCredentialByNameAndType item.name item.type).map Prod.fst = some id &&
          !c.sharedToImport projectIds)) := by
  rw [sharesCredential, List.any_append, ← sharesCredential]
  congr 1
  cases hfind : db.findCredentialByNameAndType item.name item.type with
  | none => simp [hfind]
  | some e =>
    obtain ⟨id', c'⟩ := e
    by_cases heq : id' = id
    · subst heq
      have hc' : c' = c := Option.some.inj ((get?_of_findCredential hfind).symm.trans hc)
      simp [hfind, hc']
    · simp [hfind, heq]

/-! ### The loop over the credentials -/

namespace ImportState

variable {env : ImportEnvironment} {defaultProjectId : String} {db : ProjectDatabase}
  {projectIds : List String} {items : List MigrationCredentialItem}

/-- The credentials after some items: none has another name or type, and those that the items find
are shared with the default project. -/
structure SharesCredentials (db : ProjectDatabase) (defaultProjectId : String)
    (projectIds : List String) (items : List MigrationCredentialItem) (s : ImportState) : Prop where
  isPrefix : db.credentialIndex <+: s.db.credentialIndex
  sharings : ∀ id c, db.credentials.get? id = some c → ∃ c', s.db.credentials.get? id = some c' ∧
    c'.shared.map Sharing.projectId = c.shared.map Sharing.projectId ++
      if db.sharesCredential projectIds items id then [defaultProjectId] else []

/-- An item finds a credential that was there, and only that one, when it finds it before. -/
theorem SharesCredentials.findCredential_iff {s : ImportState}
    (h : SharesCredentials db defaultProjectId projectIds items s) {id : String}
    {c : CredentialsEntity} (hc : db.credentials.get? id = some c) (name type : String) :
    (s.db.findCredentialByNameAndType name type).map Prod.fst = some id ↔
      (db.findCredentialByNameAndType name type).map Prod.fst = some id := by
  rw [ProjectDatabase.findCredential_fst, ProjectDatabase.findCredential_fst]
  constructor
  · intro hs
    obtain ⟨row, hrow, rfl⟩ := Option.map_eq_some_iff.1 hs
    have hmem : row.1 ∈ db.credentialIndex.map Prod.fst := by
      rw [ProjectDatabase.credentialIndex, Dict.map_fst_index, Dict.mem_keys_iff, hc]
      rfl
    rw [h.isPrefix.find?_of_mem (Dict.nodup_index _ _) hrow hmem]
    rfl
  · intro hdb
    obtain ⟨row, hrow, rfl⟩ := Option.map_eq_some_iff.1 hdb
    rw [h.isPrefix.find?_eq_some hrow]
    rfl

theorem SharesCredentials.concat (henv : env.Fresh) (hdefault : defaultProjectId ∈ projectIds)
    {s : ImportState} (h : SharesCredentials db defaultProjectId projectIds items s)
    (item : MigrationCredentialItem) :
    SharesCredentials db defaultProjectId projectIds (items ++ [item])
      (s.importCredential env defaultProjectId projectIds item) := by
  unfold importCredential
  cases hfind : s.db.findCredentialByNameAndType item.name item.type with
  | none =>
    have hnew : s.db.credentials.get? (env.newId s.db 0) = none := by
      by_contra hne
      exact henv s.db 0 (ProjectDatabase.mem_ids_of_credential
        ((Dict.mem_keys_iff _ _).2 (Option.isSome_iff_ne_none.2 hne)))
    constructor
    · exact h.isPrefix.trans (by
        simp only [ProjectDatabase.credentialIndex]
        rw [Dict.index_set_of_get?_eq_none hnew]
        exact List.prefix_append _ _)
    · intro id c hc
      obtain ⟨c', hc', hshared⟩ := h.sharings id c hc
      have hne : id ≠ env.newId s.db 0 := fun heq => by rw [← heq, hc'] at hnew; cases hnew
      have hnot := (h.findCredential_iff hc item.name item.type).not.1 (by rw [hfind]; simp)
      refine ⟨c', (Dict.get?_set_ne _ _ hne).trans hc', ?_⟩
      rw [hshared, ProjectDatabase.sharesCredential_concat hc, decide_eq_false hnot,
        Bool.false_and, Bool.or_false]
  | some e =>
    obtain ⟨id', existing⟩ := e
    have hexisting := ProjectDatabase.get?_of_findCredential hfind
    have hiff : ∀ id c, db.credentials.get? id = some c →
        ((db.findCredentialByNameAndType item.name item.type).map Prod.fst = some id ↔ id' = id) := by
      intro id c hc
      rw [← h.findCredential_iff hc, hfind]
      simp
    -- the credential that is found is shared with the default project if an item before has found it
    have hto : ∀ c, db.credentials.get? id' = some c → existing.sharedToImport projectIds =
        (c.sharedToImport projectIds || db.sharesCredential projectIds items id') := by
      intro c hc
      obtain ⟨c', hc', hsharings⟩ := h.sharings id' c hc
      obtain rfl : existing = c' := Option.some.inj (hexisting.symm.trans hc')
      rw [CredentialsEntity.sharedToImport_of_map hsharings]
      cases db.sharesCredential projectIds items id' with
      | true => simp [hdefault]
      | false => simp
    cases hshared : existing.sharedToImport projectIds with
    | true =>
      simp only [hshared, if_true]
      refine ⟨h.isPrefix, fun id c hc => ?_⟩
      obtain ⟨c', hc', hsharings⟩ := h.sharings id c hc
      refine ⟨c', hc', ?_⟩
      rw [hsharings, ProjectDatabase.sharesCredential_concat hc]
      by_cases heq : id' = id
      · subst heq
        have hor := (hto c hc).symm.trans hshared
        cases hs : db.sharesCredential projectIds items id' with
        | true => rfl
        | false =>
          rw [hs, Bool.or_false] at hor
          rw [hor, Bool.not_true, Bool.and_false, Bool.or_self]
      · rw [decide_eq_false ((hiff id c hc).not.2 heq), Bool.false_and, Bool.or_false]
    | false =>
      simp only [hshared, Bool.false_eq_true, if_false]
      unfold shareCredential
      constructor
      · show db.credentialIndex <+: Dict.index (s.db.credentials.set id' _) _
        rw [Dict.index_set_of_eq hexisting]
        · exact h.isPrefix
        · rfl
      · intro id c hc
        obtain ⟨c', hc', hsharings⟩ := h.sharings id c hc
        rw [ProjectDatabase.sharesCredential_concat hc]
        by_cases heq : id' = id
        · subst heq
          obtain rfl : existing = c' := Option.some.inj (hexisting.symm.trans hc')
          have hor := (hto c hc).symm.trans hshared
          rw [Bool.or_eq_false_iff] at hor
          refine ⟨_, Dict.get?_set_self _ _ _, ?_⟩
          rw [List.map_append, hsharings, hor.1, hor.2, decide_eq_true ((hiff id' c hc).2 rfl)]
          simp
        · refine ⟨c', (Dict.get?_set_ne _ _ (Ne.symm heq)).trans hc', ?_⟩
          rw [hsharings, decide_eq_false ((hiff id c hc).not.2 heq), Bool.false_and, Bool.or_false]

theorem importCredentials_sharings (henv : env.Fresh) (hdefault : defaultProjectId ∈ projectIds)
    (s : ImportState) (items : List MigrationCredentialItem) :
    SharesCredentials s.db defaultProjectId projectIds items
      (items.foldl (fun s c => s.importCredential env defaultProjectId projectIds c) s) := by
  induction items using List.reverseRecOn with
  | nil =>
    refine ⟨List.prefix_refl _, fun id c hc => ⟨c, hc, ?_⟩⟩
    simp [ProjectDatabase.sharesCredential]
  | append_singleton items item ih =>
    rw [List.foldl_concat]
    exact ih.concat henv hdefault item

end ImportState

/-! ### The import -/

section Import

variable {env : ImportEnvironment} {user : User} {db : ProjectDatabase} {bundle : MigrationBundle}
  {targetProjectId : Option String} {defaultProjectId : String}

/-- A project that existing credentials are shared with is one of the import when it is found. -/
theorem mem_values_iff_of_mem_ids {newIds : String → String} {ids : Dict String String}
    (hnew : NewProjects db newIds
      (projectsToCreate env user db (importedNames bundle targetProjectId)))
    (hvalues : ∀ id, id ∈ ids.values ↔ id = defaultProjectId ∨
      ∃ name ∈ importedNames bundle targetProjectId, id =
        (projectRef env user db (importedNames bundle targetProjectId) defaultProjectId name).id
          newIds) {id : String} (hid : id ∈ db.ids) :
    id ∈ ids.values ++ [defaultProjectId] ↔
      id ∈ existingImportProjects user db bundle targetProjectId defaultProjectId := by
  rw [List.mem_append, hvalues, List.mem_singleton, existingImportProjects, List.mem_cons,
    List.mem_filterMap]
  constructor
  · rintro ((rfl | ⟨name, hname, rfl⟩) | rfl)
    · exact Or.inl rfl
    · unfold projectRef at hid ⊢
      split at hid
      · next id' hfound => exact Or.inr ⟨name, hname, hfound⟩
      · split at hid
        · next hcreated => exact absurd hid (hnew.fresh name hcreated)
        · next hcreated =>
          rw [if_neg hcreated]
          exact Or.inl rfl
    · exact Or.inl rfl
  · rintro (rfl | ⟨name, hname, hfound⟩)
    · exact Or.inr rfl
    · refine Or.inl (Or.inr ⟨name, hname, ?_⟩)
      rw [projectRef, hfound]
      rfl

/-- The credentials after the loop over them, and the projects of the user. -/
theorem importCredentials_spec (user : User) (db : ProjectDatabase) (bundle : MigrationBundle)
    (targetProjectId : Option String) (defaultProjectId : String) (henv : env.Fresh) :
    ∃ newIds, NewProjects db newIds
        (projectsToCreate env user db (importedNames bundle targetProjectId)) ∧
      let s := importCredentials env
        (importProjects env user db bundle targetProjectId defaultProjectId) bundle defaultProjectId
      s.db.projectRelations = (db.withProjects user newIds
        (projectsToCreate env user db (importedNames bundle targetProjectId))).projectRelations ∧
      ∀ id c, db.credentials.get? id = some c → ∃ c', s.db.credentials.get? id = some c' ∧
        c'.shared.map Sharing.projectId = c.shared.map Sharing.projectId ++
          if db.sharesCredential
            (existingImportProjects user db bundle targetProjectId defaultProjectId)
            bundle.credentials id then [defaultProjectId] else [] := by
  obtain ⟨newIds, hnew, ids, hs, -, hvalues⟩ := importProjects_spec user db bundle targetProjectId
    defaultProjectId henv
  refine ⟨newIds, hnew, ?_⟩
  obtain ⟨projects, projectRelations, hdb⟩ := ProjectDatabase.withProjects_eq db user newIds
    (projectsToCreate env user db (importedNames bundle targetProjectId))
  rw [hs, hdb, importCredentials]
  obtain ⟨rows, result, hvars⟩ := ImportState.importVariables_eq env
    { db := { db with projects, projectRelations }, projectNameToId := ids } bundle.«variables»
  dsimp only
  rw [hvars]
  let s : ImportState :=
    { db := { db with projects, projectRelations, «variables» := rows }
      projectNameToId := ids
      result }
  constructor
  · obtain ⟨_, _, _, hcreds⟩ := ImportState.importCredentials_eq env defaultProjectId s
      (ids.values ++ [defaultProjectId]) bundle.credentials
    rw [hcreds]
  · intro id c hc
    have hdefault : defaultProjectId ∈ ids.values ++ [defaultProjectId] := by simp
    have hshares := ImportState.importCredentials_sharings henv hdefault s bundle.credentials
    obtain ⟨c', hc', hsharings⟩ := hshares.sharings id c hc
    refine ⟨c', hc', hsharings.trans ?_⟩
    have hsame : db.sharesCredential (ids.values ++ [defaultProjectId]) bundle.credentials id =
        db.sharesCredential (existingImportProjects user db bundle targetProjectId
          defaultProjectId) bundle.credentials id := by
      unfold ProjectDatabase.sharesCredential
      congr 1
      funext item
      cases hfind : db.findCredentialByNameAndType item.name item.type with
      | none => rfl
      | some e =>
        have hto : e.2.sharedToImport (ids.values ++ [defaultProjectId]) =
            e.2.sharedToImport (existingImportProjects user db bundle targetProjectId
              defaultProjectId) := by
          have hfound := ProjectDatabase.get?_of_findCredential hfind
          rw [Bool.eq_iff_iff]
          simp only [CredentialsEntity.sharedToImport, List.any_eq_true, decide_eq_true_eq]
          exact exists_congr fun sharing => and_congr_right fun hmem =>
            mem_values_iff_of_mem_ids hnew hvalues (ProjectDatabase.mem_ids_of_sharing hfound hmem)
        rw [Option.any_some, Option.any_some, hto]
    rw [← hsame]
    rfl

/-- The projects of the user, after others have been created. -/
theorem isMember_withProjects (user : User) {newIds : String → String} {names : List String}
    (hnew : NewProjects db newIds names) {id : String} (hid : id ∈ db.ids) :
    (db.withProjects user newIds names).isMember user id = db.isMember user id := by
  rw [ProjectDatabase.isMember, ProjectDatabase.withProjects_projectRelations, List.any_append,
    ProjectDatabase.isMember, Bool.or_eq_left_iff_imp]
  intro hany
  simp only [List.any_map, List.any_eq_true, Function.comp, Bool.and_eq_true,
    decide_eq_true_eq] at hany
  obtain ⟨name, hname, heq, _⟩ := hany
  exact absurd (heq ▸ hid) (hnew.fresh name hname)

/-- What a call leaves has the projects and the credentials of the loop over the credentials. -/
theorem databaseAfter_eq (env : ImportEnvironment) (bundle : MigrationBundle) {projectId : String}
    (h : findTargetProject user db targetProjectId = .ok projectId) :
    let s := importCredentials env (importProjects env user db bundle targetProjectId projectId)
      bundle projectId
    ∃ dataTables tags folders workflows tagMappings,
      databaseAfter (importMigrationBundle env user db bundle targetProjectId) =
        { s.db with dataTables, tags, folders, workflows, tagMappings } := by
  have hends := importMigrationBundle_ends env bundle h
  revert hends
  cases importMigrationBundle env user db bundle targetProjectId with
  | error f => exact fun h => h
  | ok s' => exact fun h => h

end Import

/-! ### A credential of another project -/

/-- The user belongs to the first project only; the credential is of the second. -/
def otherCredential : ProjectDatabase where
  projects := .ofList [("p1", { name := "One" }), ("p2", { name := "Two" })]
  projectRelations := [⟨"p1", "u1", "project:admin"⟩, ⟨"p2", "u2", "project:admin"⟩]
  roles := [⟨"project:admin", .project, ["workflow:create"]⟩]
  credentials := .ofList [("c1",
    { name := "Payments", type := "httpApi", shared := [⟨"p2", "credential:owner"⟩] })]

def namesCredential : MigrationBundle where
  credentials := [{ id := "c", name := "Payments", type := "httpApi" }]

end N8n
