import N8n.Migration.ImportFrame
import N8n.Migration.ImportProjects

/-!
# Where an import puts the workflows

Which workflow of the target each workflow of a bundle is written to: the one that a look-up by
project, folders and name finds when the import is over.

* `ProjectDatabase.folderAt`, `ProjectDatabase.workflowAt`: the look-ups;
* `ProjectDatabase.Extends`: what has been found before is found again;
* `ImportState.importWorkflow_ok`, `ImportState.importWorkflows_ok`: a turn of the loop, and the
  loop.
-/

namespace N8n

/-! ### Look-ups -/

namespace ProjectDatabase

/-- What workflows are looked up by. -/
def workflowIndex (db : ProjectDatabase) : List (String × String × Option String × List Sharing) :=
  db.workflows.index fun w => (w.name, w.parentFolder, w.shared)

/-- The project owns the workflow, which has this folder and name. -/
def ownedBy (projectId : String) (folderId : Option String) (name : String)
    (row : String × String × Option String × List Sharing) : Bool :=
  (row.2.2.2.any fun s => s.projectId = projectId && s.role = "workflow:owner") &&
    row.2.1 = name && row.2.2.1 = folderId

/-- The folder at the end of a path. -/
def folderAt (db : ProjectDatabase) (projectId : String) :
    Option String → List String → Option (Option String)
  | parentFolderId, [] => some parentFolderId
  | parentFolderId, segment :: segments =>
    (db.findFolder segment projectId parentFolderId).bind fun id =>
      folderAt db projectId (some id) segments

/-- The workflow of a name in the folder at the end of a path. -/
def workflowAt (db : ProjectDatabase) (projectId : String) (segments : List String)
    (name : String) : Option String :=
  (db.folderAt projectId none segments).bind fun folderId =>
    db.findWorkflowByNameInFolder projectId folderId name

/-- Folders and workflows have been added. -/
structure Extends (db db' : ProjectDatabase) : Prop where
  folders : db.folders.entries <+: db'.folders.entries
  workflows : db.workflowIndex <+: db'.workflowIndex

variable {db db' : ProjectDatabase} {projectId projectId' : String} {segments segments' : List String}
  {name : String} {folderId : Option String}

theorem Extends.refl (db : ProjectDatabase) : Extends db db :=
  ⟨List.prefix_refl _, List.prefix_refl _⟩

theorem Extends.trans {db'' : ProjectDatabase} (h : Extends db db') (h' : Extends db' db'') :
    Extends db db'' :=
  ⟨h.folders.trans h'.folders, h.workflows.trans h'.workflows⟩

theorem findWorkflowByNameInFolder_eq (db : ProjectDatabase) (projectId : String)
    (folderId : Option String) (name : String) :
    db.findWorkflowByNameInFolder projectId folderId name =
      (db.workflowIndex.find? (ownedBy projectId folderId name)).map Prod.fst :=
  Dict.map_fst_find?_entries db.workflows (fun w => (w.name, w.parentFolder, w.shared))
    (ownedBy projectId folderId name)

theorem findFolder_of_extends (h : db.folders.entries <+: db'.folders.entries) {id : String}
    (hfind : db.findFolder name projectId folderId = some id) :
    db'.findFolder name projectId folderId = some id := by
  unfold findFolder at hfind ⊢
  obtain ⟨e, he, rfl⟩ := Option.map_eq_some_iff.1 hfind
  rw [h.find?_eq_some he, Option.map_some]

theorem findWorkflowByNameInFolder_of_prefix (h : db.workflowIndex <+: db'.workflowIndex)
    {id : String} (hfind : db.findWorkflowByNameInFolder projectId folderId name = some id) :
    db'.findWorkflowByNameInFolder projectId folderId name = some id := by
  rw [findWorkflowByNameInFolder_eq] at hfind ⊢
  obtain ⟨e, he, rfl⟩ := Option.map_eq_some_iff.1 hfind
  rw [h.find?_eq_some he, Option.map_some]

theorem folderAt_of_prefix (h : db.folders.entries <+: db'.folders.entries)
    {parentFolderId : Option String}
    (hfind : db.folderAt projectId parentFolderId segments = some folderId) :
    db'.folderAt projectId parentFolderId segments = some folderId := by
  induction segments generalizing parentFolderId with
  | nil => exact hfind
  | cons segment segments ih =>
    rw [folderAt] at hfind ⊢
    obtain ⟨id, hid, hrest⟩ := Option.bind_eq_some_iff.1 hfind
    rw [findFolder_of_extends h hid, Option.bind_some]
    exact ih hrest

/-- What is found is found again later. -/
theorem Extends.workflowAt (h : Extends db db') {id : String}
    (hfind : db.workflowAt projectId segments name = some id) :
    db'.workflowAt projectId segments name = some id := by
  obtain ⟨folderId, hfolder, hworkflow⟩ := Option.bind_eq_some_iff.1 hfind
  rw [ProjectDatabase.workflowAt, folderAt_of_prefix h.folders hfolder, Option.bind_some]
  exact findWorkflowByNameInFolder_of_prefix h.workflows hworkflow

theorem mem_workflowIndex_of_workflowAt {id : String}
    (h : db.workflowAt projectId segments name = some id) :
    ∃ parentFolder shared, (id, name, parentFolder, shared) ∈ db.workflowIndex := by
  obtain ⟨folderId, _, hfind⟩ := Option.bind_eq_some_iff.1 h
  rw [findWorkflowByNameInFolder_eq] at hfind
  obtain ⟨⟨id, name', parentFolder, shared⟩, hrow, rfl⟩ := Option.map_eq_some_iff.1 hfind
  have howned := List.find?_some hrow
  simp only [ownedBy, Bool.and_eq_true, decide_eq_true_eq] at howned
  obtain ⟨⟨_, rfl⟩, _⟩ := howned
  exact ⟨parentFolder, shared, List.mem_of_find?_eq_some hrow⟩

/-! ### Paths -/

theorem get?_of_findFolder {id : String} (h : db.findFolder name projectId folderId = some id) :
    db.folders.get? id = some ⟨name, folderId, projectId⟩ := by
  unfold findFolder at h
  obtain ⟨⟨id, folder⟩, he, rfl⟩ := Option.map_eq_some_iff.1 h
  have hget := (Dict.mem_entries_iff _ _ _).1 (List.mem_of_find?_eq_some he)
  have hp := List.find?_some he
  simp only [Bool.and_eq_true, decide_eq_true_eq] at hp
  obtain ⟨⟨hname, hproject⟩, hparent⟩ := hp
  rw [hget, ← hname, ← hproject, ← hparent]

theorem folderAt_concat (segment : String) (parentFolderId : Option String) :
    db.folderAt projectId parentFolderId (segments ++ [segment]) =
      (db.folderAt projectId parentFolderId segments).bind fun folderId =>
        (db.findFolder segment projectId folderId).map some := by
  induction segments generalizing parentFolderId with
  | nil =>
    rw [List.nil_append, folderAt, folderAt, Option.bind_some]
    cases db.findFolder segment projectId parentFolderId with
    | none => rfl
    | some id => rfl
  | cons segment' segments ih =>
    rw [List.cons_append, folderAt, folderAt]
    cases db.findFolder segment' projectId parentFolderId with
    | none => rfl
    | some id => exact ih (some id)

/-- A folder has one path: it leads through the parents of the folder. -/
theorem folderAt_injective (h : db.folderAt projectId none segments = some folderId)
    (h' : db.folderAt projectId' none segments' = some folderId) :
    segments = segments' ∧ (segments = [] ∨ projectId = projectId') := by
  induction segments using List.reverseRecOn generalizing segments' folderId with
  | nil =>
    cases segments' using List.reverseRecOn with
    | nil => exact ⟨rfl, Or.inl rfl⟩
    | append_singleton segments' segment' =>
      rw [folderAt_concat] at h'
      obtain ⟨_, _, hmap⟩ := Option.bind_eq_some_iff.1 h'
      obtain ⟨id, _, rfl⟩ := Option.map_eq_some_iff.1 hmap
      cases h
  | append_singleton segments segment ih =>
    rw [folderAt_concat] at h
    obtain ⟨parent, hparent, hmap⟩ := Option.bind_eq_some_iff.1 h
    obtain ⟨id, hid, rfl⟩ := Option.map_eq_some_iff.1 hmap
    cases segments' using List.reverseRecOn with
    | nil => cases h'
    | append_singleton segments' segment' =>
      rw [folderAt_concat] at h'
      obtain ⟨parent', hparent', hmap'⟩ := Option.bind_eq_some_iff.1 h'
      obtain ⟨id', hid', heq⟩ := Option.map_eq_some_iff.1 hmap'
      obtain rfl : id' = id := Option.some.inj heq
      have hrow := (get?_of_findFolder hid).symm.trans (get?_of_findFolder hid')
      simp only [Option.some.injEq, Folder.mk.injEq] at hrow
      obtain ⟨rfl, rfl, rfl⟩ := hrow
      exact ⟨by rw [(ih hparent hparent').1], Or.inr rfl⟩

/-! ### Folders that are created -/

section Folders

variable {env : ImportEnvironment}

theorem createFolder_ok (henv : env.Fresh) {id : String}
    (hnone : db.findFolder name projectId folderId = none)
    (h : db.createFolder env name projectId folderId = .ok (db', id)) :
    (∃ folders, db' = { db with folders }) ∧ db.folders.entries <+: db'.folders.entries ∧
      db'.findFolder name projectId folderId = some id := by
  unfold createFolder at h
  split at h
  · cases h
  · cases h
    have hnew : db.folders.get? (env.newId db 0) = none := by
      by_contra hne
      exact henv db 0 (mem_ids_of_folder
        ((Dict.mem_keys_iff _ _).2 (Option.isSome_iff_ne_none.2 hne)))
    refine ⟨⟨_, rfl⟩, ?_, ?_⟩
    · rw [Dict.entries_set_of_get?_eq_none hnew]
      exact List.prefix_append _ _
    · unfold findFolder at hnone ⊢
      rw [Option.map_eq_none_iff] at hnone
      rw [Dict.entries_set_of_get?_eq_none hnew, List.find?_append, hnone]
      simp

/-- A path that has been created is found. -/
theorem getOrCreateFolderUnder_ok (henv : env.Fresh) {parentFolderId : Option String}
    (h : getOrCreateFolderUnder env projectId db parentFolderId segments = .ok (db', folderId)) :
    (∃ folders, db' = { db with folders }) ∧ db.folders.entries <+: db'.folders.entries ∧
      db'.folderAt projectId parentFolderId segments = some folderId := by
  induction segments generalizing db parentFolderId with
  | nil =>
    cases h
    exact ⟨⟨_, rfl⟩, List.prefix_refl _, rfl⟩
  | cons segment segments ih =>
    rw [getOrCreateFolderUnder] at h
    cases hfind : db.findFolder segment projectId parentFolderId with
    | some id =>
      rw [hfind] at h
      obtain ⟨hdb, hgrown, hat⟩ := ih h
      refine ⟨hdb, hgrown, ?_⟩
      rw [folderAt, findFolder_of_extends hgrown hfind, Option.bind_some, hat]
    | none =>
      rw [hfind] at h
      obtain ⟨⟨db₁, id⟩, hcreate, hrest⟩ := Except.bind_eq_ok_iff.1 h
      obtain ⟨⟨_, rfl⟩, hgrown₁, hid⟩ := createFolder_ok henv hfind hcreate
      obtain ⟨⟨_, rfl⟩, hgrown, hat⟩ := ih hrest
      refine ⟨⟨_, rfl⟩, hgrown₁.trans hgrown, ?_⟩
      rw [folderAt, findFolder_of_extends hgrown hid, Option.bind_some, hat]

/-- A path that is there is found, and nothing is created. -/
theorem getOrCreateFolderUnder_of_folderAt {parentFolderId : Option String}
    (h : db.folderAt projectId parentFolderId segments = some folderId) :
    getOrCreateFolderUnder env projectId db parentFolderId segments = .ok (db, folderId) := by
  induction segments generalizing parentFolderId with
  | nil =>
    cases h
    rfl
  | cons segment segments ih =>
    rw [folderAt] at h
    obtain ⟨id, hid, hrest⟩ := Option.bind_eq_some_iff.1 h
    rw [getOrCreateFolderUnder, hid]
    exact ih hrest

end Folders

end ProjectDatabase

/-! ### Columns -/

/-- What an import writes of a workflow that is there. -/
structure WorkflowColumns where
  nodes : List JsObject := []
  connections : JsValue := .undefined
  settings : JsValue := .undefined

def WorkflowEntity.columns (w : WorkflowEntity) : WorkflowColumns :=
  ⟨w.nodes, w.connections, w.settings⟩

def WorkflowColumns.write (c : WorkflowColumns) (w : MigrationWorkflowItem) : WorkflowColumns where
  nodes := w.nodes
  connections := ProjectDatabase.orUndefined w.connections c.connections
  settings := ProjectDatabase.orUndefined w.settings c.settings

/-- The columns of the workflows, by id. -/
def ProjectDatabase.columns (db : ProjectDatabase) (id : String) : WorkflowColumns :=
  ((db.workflows.get? id).map WorkflowEntity.columns).getD {}

/-- The columns after a workflow has been written. -/
def writeColumns (columns : String → WorkflowColumns) (e : String × MigrationWorkflowItem) :
    String → WorkflowColumns := Function.update columns e.1 ((columns e.1).write e.2)

theorem orUndefined_undefined (value : JsValue) :
    ProjectDatabase.orUndefined value .undefined = value := by
  unfold ProjectDatabase.orUndefined
  split
  · next h => exact h.symm
  · rfl

theorem ProjectDatabase.columns_set (db : ProjectDatabase) (id : String) (entity : WorkflowEntity) :
    ProjectDatabase.columns { db with workflows := db.workflows.set id entity } =
      Function.update db.columns id entity.columns := by
  funext id'
  by_cases h : id' = id
  · subst h
    rw [Function.update_self, ProjectDatabase.columns, Dict.get?_set_self]
    rfl
  · rw [Function.update_of_ne h, ProjectDatabase.columns, Dict.get?_set_ne _ _ h]
    rfl

/-! ### A turn of the loop -/

namespace ImportState

variable {env : ImportEnvironment} {user : User} {defaultProjectId : String}
  {s s' : ImportState} {w : MigrationWorkflowItem}

/-- Where the loop looks for a workflow. -/
def targetOf (s : ImportState) (defaultProjectId : String) (db : ProjectDatabase)
    (w : MigrationWorkflowItem) : Option String :=
  db.workflowAt (s.projectOf defaultProjectId w.path)
    (folderPathToSegments w.path.folderPath w.path.projectName) w.name

/-- The nodes that the first pass writes for a workflow: with the ids of the target, and completed
when the workflow is new. -/
def IsImportOf (s : ImportState) (w : MigrationWorkflowItem) (nodes : List JsObject) : Prop :=
  nodes = (s.replaceIds w).nodes ∨
    ∃ (newId : ℕ → String) (db : ProjectDatabase) (projectId : String),
      nodes = db.replaceInvalidCredentials projectId (addNodeIds newId (s.replaceIds w).nodes)

/-- The nodes are those of the workflow, unless the workflow is new and has to be completed. -/
def CompletesNodes (s : ImportState) (defaultProjectId : String) (w : MigrationWorkflowItem)
    (nodes : List JsObject) : Prop :=
  nodes = (s.replaceIds w).nodes ∨ s.targetOf defaultProjectId s.db w = none ∧
    ∃ (newId : ℕ → String) (db : ProjectDatabase), db.credentials = s.db.credentials ∧
      nodes = db.replaceInvalidCredentials (s.projectOf defaultProjectId w.path)
        (addNodeIds newId (s.replaceIds w).nodes)

theorem CompletesNodes.isImportOf {nodes : List JsObject}
    (h : s.CompletesNodes defaultProjectId w nodes) : s.IsImportOf w nodes := by
  rcases h with h | ⟨-, newId, db, -, h⟩
  · exact Or.inl h
  · exact Or.inr ⟨newId, db, _, h⟩

variable {f : WorkflowEntity → WorkflowEntity}

variable (db : ProjectDatabase)

theorem workflowIndex_updateWorkflow (id : String)
    (hf : ∀ w, ((f w).name, (f w).parentFolder, (f w).shared) = (w.name, w.parentFolder, w.shared)) :
    (db.updateWorkflow id f).workflowIndex = db.workflowIndex := by
  unfold ProjectDatabase.updateWorkflow
  split
  · rfl
  · next w hw => exact Dict.index_set_of_eq hw (hf w)

theorem columns_updateWorkflow {db : ProjectDatabase} {id : String} {w : MigrationWorkflowItem}
    (hid : id ∈ db.workflows.keys) (hf : ∀ old, (f old).columns = old.columns.write w) :
    (db.updateWorkflow id f).columns = writeColumns db.columns (id, w) := by
  obtain ⟨old, hold⟩ := Option.isSome_iff_exists.1 ((Dict.mem_keys_iff _ _).1 hid)
  unfold ProjectDatabase.updateWorkflow
  rw [hold]
  dsimp only
  rw [ProjectDatabase.columns_set, hf, writeColumns, ProjectDatabase.columns, hold]
  rfl

theorem folders_updateWorkflow (id : String)
    (f : WorkflowEntity → WorkflowEntity) : (db.updateWorkflow id f).folders = db.folders := by
  unfold ProjectDatabase.updateWorkflow
  split
  · rfl
  · rfl

theorem extends_updateWorkflow (id : String)
    (hf : ∀ w, ((f w).name, (f w).parentFolder, (f w).shared) = (w.name, w.parentFolder, w.shared)) :
    db.Extends (db.updateWorkflow id f) := by
  constructor
  · rw [folders_updateWorkflow]
  · rw [workflowIndex_updateWorkflow db id hf]

/-- A workflow that is created is found in its folder. -/
theorem createWorkflowInProjectAndFolder_ok (henv : env.Fresh) {db db' : ProjectDatabase}
    {workflow : WorkflowEntity} {projectId id : String} {folderId : Option String}
    (hnone : db.findWorkflowByNameInFolder projectId folderId workflow.name = none)
    (h : db.createWorkflowInProjectAndFolder env user workflow projectId folderId = .ok (db', id)) :
    db.workflows.get? id = none ∧
      db' = { db with workflows := db.workflows.set id { workflow with
        parentFolder := folderId, shared := [⟨projectId, "workflow:owner"⟩] } } ∧
      db.Extends db' ∧ db'.findWorkflowByNameInFolder projectId folderId workflow.name = some id ∧
      ∀ row ∈ db'.workflowIndex, row ∈ db.workflowIndex ∨
        row.2.2.2 = [⟨projectId, "workflow:owner"⟩] := by
  unfold ProjectDatabase.createWorkflowInProjectAndFolder at h
  split at h
  · cases h
  · split at h
    · cases h
    · cases h
      have hnew : db.workflows.get? (env.newId db 0) = none := by
        by_contra hne
        exact henv db 0 (ProjectDatabase.mem_ids_of_workflow
          ((Dict.mem_keys_iff _ _).2 (Option.isSome_iff_ne_none.2 hne)))
      have hindex : ∀ entity : WorkflowEntity, ProjectDatabase.workflowIndex
          { db with workflows := db.workflows.set (env.newId db 0) entity } =
          db.workflowIndex ++
            [(env.newId db 0, entity.name, entity.parentFolder, entity.shared)] :=
        fun entity => Dict.index_set_of_get?_eq_none hnew entity
      refine ⟨hnew, rfl, ⟨List.prefix_refl _, ?_⟩, ?_, ?_⟩
      · rw [hindex]
        exact List.prefix_append _ _
      · rw [ProjectDatabase.findWorkflowByNameInFolder_eq, Option.map_eq_none_iff] at hnone
        rw [ProjectDatabase.findWorkflowByNameInFolder_eq, hindex, List.find?_append, hnone]
        simp [ProjectDatabase.ownedBy]
      · intro row hrow
        rw [hindex, List.mem_append, List.mem_singleton] at hrow
        rcases hrow with hrow | rfl
        · exact Or.inl hrow
        · exact Or.inr rfl

/-- **A turn of the loop**: the workflow that it writes is the one that is found afterwards. -/
theorem importWorkflow_ok (henv : env.Fresh)
    (h : s.importWorkflow env user defaultProjectId w = .ok s') :
    ∃ id nodes, s.db.Extends s'.db ∧ s.targetOf defaultProjectId s'.db w = some id ∧
      (∀ row ∈ s'.db.workflowIndex, row ∈ s.db.workflowIndex ∨
        ∃ projectId, row.2.2.2 = [⟨projectId, "workflow:owner"⟩]) ∧
      s'.workflowIdMap = s.workflowIdMap.set w.id id ∧
      s'.workflows = s.workflows ++ [{ w with nodes }] ∧
      s.CompletesNodes defaultProjectId w nodes ∧
      s'.db.columns = writeColumns s.db.columns (id, { w with nodes }) ∧
      (id ∈ s.db.workflows.keys → nodes = (s.replaceIds w).nodes) := by
  obtain ⟨⟨db, folderId⟩, hfolder, hrest⟩ := Except.bind_eq_ok_iff.1 h
  obtain ⟨⟨folders, rfl⟩, hgrown, hat⟩ :=
    ProjectDatabase.getOrCreateFolderUnder_ok henv hfolder
  dsimp only at hrest
  cases hfind : ProjectDatabase.findWorkflowByNameInFolder { s.db with folders }
      (s.projectOf defaultProjectId w.path) folderId (s.replaceIds w).name with
  | some id =>
    rw [hfind] at hrest
    cases hrest
    have hextends := extends_updateWorkflow { s.db with folders } id
      (f := updateColumns (s.replaceIds w)) fun _ => rfl
    refine ⟨id, _, ⟨hgrown.trans hextends.folders, hextends.workflows⟩, ?_, ?_, rfl, rfl,
      Or.inl rfl, ?_, fun _ => rfl⟩
    · refine hextends.workflowAt ?_
      rw [ProjectDatabase.workflowAt, hat, Option.bind_some]
      exact hfind
    · intro row hrow
      have hindex := workflowIndex_updateWorkflow { s.db with folders } id
        (f := updateColumns (s.replaceIds w)) fun _ => rfl
      exact Or.inl (hindex ▸ hrow)
    · refine columns_updateWorkflow ?_ fun old => rfl
      rw [ProjectDatabase.findWorkflowByNameInFolder_eq] at hfind
      obtain ⟨row, hrow, rfl⟩ := Option.map_eq_some_iff.1 hfind
      rw [← Dict.map_fst_index]
      exact List.mem_map_of_mem (List.mem_of_find?_eq_some hrow)
  | none =>
    rw [hfind] at hrest
    obtain ⟨⟨db', id⟩, hcreate, hpure⟩ := Except.bind_eq_ok_iff.1 hrest
    obtain ⟨hnew, hdb', hextends, hfound, hrows⟩ :=
      createWorkflowInProjectAndFolder_ok henv hfind hcreate
    cases hpure
    -- a workflow that was found before the folders were looked up would be found now
    have hnone : s.targetOf defaultProjectId s.db w = none := by
      by_contra hne
      obtain ⟨id', hid'⟩ := Option.ne_none_iff_exists'.1 hne
      obtain ⟨folderId', hfolder', hworkflow⟩ := Option.bind_eq_some_iff.1 hid'
      obtain rfl : folderId' = folderId := Option.some.inj
        ((ProjectDatabase.folderAt_of_prefix hgrown hfolder').symm.trans hat)
      have hfound' : ProjectDatabase.findWorkflowByNameInFolder { s.db with folders }
          (s.projectOf defaultProjectId w.path) folderId' w.name = some id' := hworkflow
      rw [show (s.replaceIds w).name = w.name from rfl, hfound'] at hfind
      cases hfind
    refine ⟨id, _, ⟨hgrown.trans hextends.folders, hextends.workflows⟩, ?_, ?_, rfl, rfl,
      Or.inr ⟨hnone, _, { s.db with folders }, rfl, rfl⟩, ?_, fun hid => ?_⟩
    · rw [targetOf, ProjectDatabase.workflowAt,
        ProjectDatabase.folderAt_of_prefix hextends.folders hat, Option.bind_some]
      exact hfound
    · intro row hrow
      exact (hrows row hrow).imp_right fun h => ⟨_, h⟩
    · have hold : s.db.columns id = {} := by
        have hnew : s.db.workflows.get? id = none := hnew
        rw [ProjectDatabase.columns, hnew]
        rfl
      dsimp only
      rw [hdb', ProjectDatabase.columns_set, writeColumns, hold, WorkflowColumns.write]
      rw [orUndefined_undefined, orUndefined_undefined]
      rfl
    · have hold := (Dict.mem_keys_iff _ _).1 hid
      rw [show s.db.workflows.get? id = none from hnew] at hold
      cases hold

/-! ### The loop -/

/-- What a turn does not write. -/
theorem importWorkflow_maps (h : s.importWorkflow env user defaultProjectId w = .ok s') :
    s'.projectNameToId = s.projectNameToId ∧ s'.credentialIdMap = s.credentialIdMap ∧
      s'.dataTableIdMap = s.dataTableIdMap := by
  obtain ⟨_, _, _, _, _, rfl⟩ := (importWorkflow_ends s w).of_ok h
  exact ⟨rfl, rfl, rfl⟩

/-- What the loop leaves: each workflow of the bundle is mapped to the one that its look-up finds. -/
structure ImportsWorkflows (defaultProjectId : String) (ws : List MigrationWorkflowItem)
    (s s' : ImportState) : Prop where
  projectNameToId : s'.projectNameToId = s.projectNameToId
  credentialIdMap : s'.credentialIdMap = s.credentialIdMap
  dataTableIdMap : s'.dataTableIdMap = s.dataTableIdMap
  isExtended : s.db.Extends s'.db
  targets : ∀ w ∈ ws, ∃ id, s.targetOf defaultProjectId s'.db w = some id ∧
    s'.workflowIdMap.get? w.id = some id
  rows : ∀ row ∈ s'.db.workflowIndex, row ∈ s.db.workflowIndex ∨
    ∃ projectId, row.2.2.2 = [⟨projectId, "workflow:owner"⟩]
  workflows : ∃ imported, s'.workflows = s.workflows ++ imported ∧
    imported.map MigrationWorkflowItem.id = ws.map MigrationWorkflowItem.id ∧
    ∀ w ∈ ws, ∃ nodes, { w with nodes } ∈ imported ∧ s.IsImportOf w nodes

/-- **The loop over the workflows.** -/
theorem importWorkflows_ok (henv : env.Fresh) {ws : List MigrationWorkflowItem}
    (hids : (ws.map MigrationWorkflowItem.id).Nodup)
    (h : ws.foldlM (fun (s : ImportState) w => s.importWorkflow env user defaultProjectId w) s =
      .ok s') : ImportsWorkflows defaultProjectId ws s s' := by
  induction ws using List.reverseRecOn generalizing s' with
  | nil =>
    cases h
    exact ⟨rfl, rfl, rfl, .refl _, by simp, fun _ h => Or.inl h, [], by simp, rfl, by simp⟩
  | append_singleton ws w ih =>
    obtain ⟨s₁, h₁, h₂⟩ := Except.foldlM_concat_eq_ok_iff.1 h
    rw [List.map_append, List.nodup_append] at hids
    have hs₁ := ih hids.1 h₁
    obtain ⟨hprojects, hcredentials, htables⟩ := importWorkflow_maps h₂
    obtain ⟨id, nodes, hextends, htarget, hrows, hmap, hworkflows, hcompletes, -⟩ :=
      importWorkflow_ok henv h₂
    have hnodes := hcompletes.isImportOf
    have htargetOf : ∀ db, s₁.targetOf defaultProjectId db = s.targetOf defaultProjectId db := by
      intro db
      funext w
      rw [targetOf, projectOf, hs₁.projectNameToId]
      rfl
    refine ⟨hprojects.trans hs₁.projectNameToId, hcredentials.trans hs₁.credentialIdMap,
      htables.trans hs₁.dataTableIdMap, hs₁.isExtended.trans hextends, ?_, ?_, ?_⟩
    · intro w' hw'
      rw [hmap]
      rcases List.mem_append.1 hw' with hw' | hw'
      · obtain ⟨id', hid', hget⟩ := hs₁.targets w' hw'
        have hne : w'.id ≠ w.id := hids.2.2 _ (List.mem_map_of_mem hw') _ (by simp)
        exact ⟨id', hextends.workflowAt hid', (Dict.get?_set_ne _ _ hne).trans hget⟩
      · obtain rfl := List.mem_singleton.1 hw'
        exact ⟨id, by rw [← htargetOf, htarget], Dict.get?_set_self _ _ _⟩
    · intro row hrow
      rcases hrows row hrow with hrow | hrow
      · exact hs₁.rows row hrow
      · exact Or.inr hrow
    · obtain ⟨imported, himported, hmapIds, hall⟩ := hs₁.workflows
      rw [IsImportOf, replaceIds, hs₁.credentialIdMap, hs₁.dataTableIdMap] at hnodes
      refine ⟨imported ++ [{ w with nodes }], by rw [hworkflows, himported, List.append_assoc],
        by simp [hmapIds], fun w' hw' => ?_⟩
      rcases List.mem_append.1 hw' with hw' | hw'
      · obtain ⟨nodes', hmem, himport⟩ := hall w' hw'
        exact ⟨nodes', List.mem_append_left _ hmem, himport⟩
      · obtain rfl := List.mem_singleton.1 hw'
        exact ⟨nodes, by simp, hnodes⟩

end ImportState

end N8n
