import N8n.Migration.Import

/-!
# What the loops of an import leave alone

Each loop writes one table, the one over the workflows two, whether the import goes on or fails.

* `importVariables_eq`, `importCredentials_eq`, `importTags_eq`, `updateReferences_eq`,
  `importTagMappings_eq`: the loops that cannot fail;
* `importDataTables_ends`, `ImportState.importWorkflows_ends`: the loops that can;
* `importMigrationBundle_ends`: the whole import.
-/

namespace N8n

namespace ImportState

variable {env : ImportEnvironment} {user : User} {defaultProjectId : String}

/-! ### Variables, credentials and tags -/

variable (env)

theorem importVariable_eq (s : ImportState) (v : MigrationVariableItem) :
    ∃ rows result, s.importVariable env v =
      { s with db := { s.db with «variables» := rows }, result } := by
  unfold importVariable
  split
  · exact ⟨_, _, rfl⟩
  · exact ⟨_, _, rfl⟩

theorem importVariables_eq (s : ImportState) (vs : List MigrationVariableItem) :
    ∃ rows result, vs.foldl (fun s v => s.importVariable env v) s =
      { s with db := { s.db with «variables» := rows }, result } := by
  induction vs using List.reverseRecOn with
  | nil => exact ⟨_, _, rfl⟩
  | append_singleton vs v ih =>
    obtain ⟨rows, result, ih⟩ := ih
    obtain ⟨rows', result', h⟩ := importVariable_eq env
      { s with db := { s.db with «variables» := rows }, result } v
    rw [List.foldl_concat, ih, h]
    exact ⟨_, _, rfl⟩

theorem importCredential_eq (defaultProjectId : String)
    (s : ImportState) (ids : List String) (c : MigrationCredentialItem) :
    ∃ credentials credentialIdMap result, s.importCredential env defaultProjectId ids c =
      { s with db := { s.db with credentials }, credentialIdMap, result } := by
  unfold importCredential
  split
  · dsimp only
    split
    · exact ⟨_, _, _, rfl⟩
    · exact ⟨_, _, _, rfl⟩
  · exact ⟨_, _, _, rfl⟩

theorem importCredentials_eq (defaultProjectId : String)
    (s : ImportState) (ids : List String) (cs : List MigrationCredentialItem) :
    ∃ credentials credentialIdMap result,
      cs.foldl (fun s c => s.importCredential env defaultProjectId ids c) s =
        { s with db := { s.db with credentials }, credentialIdMap, result } := by
  induction cs using List.reverseRecOn with
  | nil => exact ⟨_, _, _, rfl⟩
  | append_singleton cs c ih =>
    obtain ⟨credentials, credentialIdMap, result, ih⟩ := ih
    obtain ⟨_, _, _, h⟩ := importCredential_eq env defaultProjectId
      { s with db := { s.db with credentials }, credentialIdMap, result } ids c
    rw [List.foldl_concat, ih, h]
    exact ⟨_, _, _, rfl⟩

theorem importTag_eq (s : ImportState) (t : MigrationTagItem) :
    ∃ tags tagNameToId result, s.importTag env t =
      { s with db := { s.db with tags }, tagNameToId, result } := by
  unfold importTag
  split
  · exact ⟨_, _, _, rfl⟩
  · exact ⟨_, _, _, rfl⟩

theorem importTags_eq (s : ImportState) (ts : List MigrationTagItem) :
    ∃ tags tagNameToId result, ts.foldl (fun s t => s.importTag env t) s =
      { s with db := { s.db with tags }, tagNameToId, result } := by
  induction ts using List.reverseRecOn with
  | nil => exact ⟨_, _, _, rfl⟩
  | append_singleton ts t ih =>
    obtain ⟨tags, tagNameToId, result, ih⟩ := ih
    obtain ⟨_, _, _, h⟩ := importTag_eq env
      { s with db := { s.db with tags }, tagNameToId, result } t
    rw [List.foldl_concat, ih, h]
    exact ⟨_, _, _, rfl⟩

variable {env}

/-! ### References and tag mappings -/

variable (s : ImportState)

theorem updateReferences_eq (ws : List MigrationWorkflowItem) :
    ∃ workflows, ws.foldl updateReferences s = { s with db := { s.db with workflows } } := by
  induction ws using List.reverseRecOn with
  | nil => exact ⟨_, rfl⟩
  | append_singleton ws w ih =>
    obtain ⟨workflows, ih⟩ := ih
    rw [List.foldl_concat, ih]
    unfold updateReferences ProjectDatabase.updateWorkflow
    split
    · exact ⟨_, rfl⟩
    · dsimp only
      split
      · exact ⟨_, rfl⟩
      · exact ⟨_, rfl⟩

theorem importTagMappings_eq (tags : List MigrationTagItem)
    (ms : List MigrationTagMappingItem) : ∃ tagMappings,
      ms.foldl (fun s m => s.importTagMapping tags m) s =
        { s with db := { s.db with tagMappings } } := by
  induction ms using List.reverseRecOn with
  | nil => exact ⟨_, rfl⟩
  | append_singleton ms m ih =>
    obtain ⟨tagMappings, ih⟩ := ih
    rw [List.foldl_concat, ih]
    unfold importTagMapping
    dsimp only
    split
    · split
      · exact ⟨_, rfl⟩
      · exact ⟨_, rfl⟩
    · exact ⟨_, rfl⟩

/-! ### Data tables -/

theorem importDataTable_ends (dt : MigrationDataTableItem) :
    (s.importDataTable env defaultProjectId dt).Ends
      (fun f => ∃ dataTables, f.db = { s.db with dataTables })
      (fun s' => ∃ dataTables dataTableIdMap result,
        s' = { s with db := { s.db with dataTables }, dataTableIdMap, result }) := by
  unfold importDataTable
  dsimp only
  split
  · exact ⟨_, _, _, rfl⟩
  · refine Except.Ends.bind (Q := fun r => ∃ dataTables, r.1 = { s.db with dataTables }) ?_ ?_
    · unfold ProjectDatabase.createDataTable
      split
      · exact ⟨_, rfl⟩
      · dsimp only
        split
        · exact ⟨_, rfl⟩
        · exact ⟨_, rfl⟩
    · rintro ⟨db, id⟩ ⟨dataTables, rfl⟩
      refine Except.Ends.bind (Q := fun db => ∃ dataTables, db = { s.db with dataTables }) ?_ ?_
      · unfold ProjectDatabase.insertRows
        split
        · exact ⟨_, rfl⟩
        · split
          · exact ⟨_, rfl⟩
          · split
            · exact ⟨_, rfl⟩
            · exact ⟨_, rfl⟩
      · rintro _ ⟨dataTables, rfl⟩
        exact ⟨_, _, _, rfl⟩

theorem importDataTables_ends (dts : List MigrationDataTableItem) :
    (dts.foldlM (fun (s : ImportState) dt => s.importDataTable env defaultProjectId dt) s).Ends
      (fun f => ∃ dataTables, f.db = { s.db with dataTables })
      (fun s' => ∃ dataTables dataTableIdMap result,
        s' = { s with db := { s.db with dataTables }, dataTableIdMap, result }) := by
  refine Except.Ends.foldlM ?_ ⟨_, _, _, rfl⟩
  rintro _ dt - ⟨dataTables, dataTableIdMap, result, rfl⟩
  refine (importDataTable_ends _ dt).imp ?_ ?_
  · rintro f ⟨_, hf⟩
    exact ⟨_, hf⟩
  · rintro _ ⟨_, _, _, rfl⟩
    exact ⟨_, _, _, rfl⟩

/-! ### Workflows -/

theorem getOrCreateFolderUnder_ends (projectId : String) (segments : List String)
    (db : ProjectDatabase) (parentFolderId : Option String) :
    (ProjectDatabase.getOrCreateFolderUnder env projectId db parentFolderId segments).Ends
      (fun f => ∃ folders, f.db = { db with folders })
      (fun r => ∃ folders, r.1 = { db with folders }) := by
  induction segments generalizing db parentFolderId with
  | nil => exact ⟨_, rfl⟩
  | cons segment segments ih =>
    rw [ProjectDatabase.getOrCreateFolderUnder]
    split
    · exact ih db _
    · refine Except.Ends.bind (Q := fun r => ∃ folders, r.1 = { db with folders }) ?_ ?_
      · unfold ProjectDatabase.createFolder
        split
        · exact ⟨_, rfl⟩
        · exact ⟨_, rfl⟩
      · rintro ⟨_, id⟩ ⟨folders, rfl⟩
        exact (ih { db with folders } (some id)).imp (fun f ⟨_, hf⟩ => ⟨_, hf⟩)
          fun r ⟨_, hr⟩ => ⟨_, hr⟩

theorem importWorkflow_ends (w : MigrationWorkflowItem) :
    (s.importWorkflow env user defaultProjectId w).Ends
      (fun f => ∃ folders workflows, f.db = { s.db with folders, workflows })
      (fun s' => ∃ folders workflows workflowIdMap result ws,
        s' = { s with
          db := { s.db with folders, workflows }, workflowIdMap, result, workflows := ws }) := by
  unfold importWorkflow
  refine Except.Ends.bind (Q := fun r => ∃ folders, r.1 = { s.db with folders })
    ((getOrCreateFolderUnder_ends _ _ _ _).imp (fun f ⟨_, hf⟩ => ⟨_, _, hf⟩) fun _ hr => hr) ?_
  rintro ⟨_, folderId⟩ ⟨folders, rfl⟩
  dsimp only
  split
  · unfold ProjectDatabase.updateWorkflow
    split
    · exact ⟨_, _, _, _, _, rfl⟩
    · exact ⟨_, _, _, _, _, rfl⟩
  · unfold createWorkflow
    refine Except.Ends.bind
      (Q := fun r => ∃ folders workflows, r.1 = { s.db with folders, workflows }) ?_ ?_
    · unfold ProjectDatabase.createWorkflowInProjectAndFolder
      split
      · exact ⟨_, _, rfl⟩
      · split
        · exact ⟨_, _, rfl⟩
        · exact ⟨_, _, rfl⟩
    · rintro ⟨_, id⟩ ⟨folders, workflows, rfl⟩
      exact ⟨_, _, _, _, _, rfl⟩

theorem importWorkflows_ends (ws : List MigrationWorkflowItem) :
    (ws.foldlM (fun (s : ImportState) w => s.importWorkflow env user defaultProjectId w) s).Ends
      (fun f => ∃ folders workflows, f.db = { s.db with folders, workflows })
      (fun s' => ∃ folders workflows workflowIdMap result ws,
        s' = { s with
          db := { s.db with folders, workflows }, workflowIdMap, result, workflows := ws }) := by
  refine Except.Ends.foldlM ?_ ⟨_, _, _, _, _, rfl⟩
  rintro _ w - ⟨folders, workflows, workflowIdMap, result, ws', rfl⟩
  refine (importWorkflow_ends _ w).imp ?_ ?_
  · rintro f ⟨_, _, hf⟩
    exact ⟨_, _, hf⟩
  · rintro _ ⟨_, _, _, _, _, rfl⟩
    exact ⟨_, _, _, _, _, rfl⟩

end ImportState

/-! ### The import after the credentials -/

section Import

variable {env : ImportEnvironment} {user : User} {defaultProjectId : String}
  {bundle : MigrationBundle}

theorem importWorkflows_ends (s : ImportState) :
    (importWorkflows env user s bundle defaultProjectId).Ends
      (fun f => ∃ dataTables tags folders workflows,
        f.db = { s.db with dataTables, tags, folders, workflows })
      (fun s' => ∃ dataTables tags folders workflows,
        s'.db = { s.db with dataTables, tags, folders, workflows }) := by
  unfold importWorkflows
  refine Except.Ends.bind ((ImportState.importDataTables_ends s bundle.dataTables).imp
    (fun f ⟨_, hf⟩ => ⟨_, _, _, _, hf⟩) fun _ h => h) ?_
  rintro _ ⟨dataTables, dataTableIdMap, result, rfl⟩
  obtain ⟨tags, tagNameToId, result, htags⟩ := ImportState.importTags_eq env
    { s with db := { s.db with dataTables }, dataTableIdMap, result } bundle.tags
  dsimp only
  rw [htags]
  refine (ImportState.importWorkflows_ends _ bundle.workflows).imp ?_ ?_
  · rintro f ⟨_, _, hf⟩
    exact ⟨_, _, _, _, hf⟩
  · rintro _ ⟨_, _, _, _, _, rfl⟩
    exact ⟨_, _, _, _, rfl⟩

theorem importReferences_eq (bundle : MigrationBundle) (s : ImportState) :
    ∃ workflows tagMappings, (importReferences s bundle).db =
      { s.db with workflows, tagMappings } := by
  unfold importReferences
  obtain ⟨workflows, hw⟩ := ImportState.updateReferences_eq s s.workflows
  obtain ⟨tagMappings, hm⟩ := ImportState.importTagMappings_eq
    { s with db := { s.db with workflows } } bundle.tags bundle.tagMappings
  dsimp only
  rw [hw, hm]
  exact ⟨_, _, rfl⟩

/-- Neither the credentials nor the projects change after the loop over the credentials. -/
theorem importMigrationBundle_ends (env : ImportEnvironment) (bundle : MigrationBundle)
    {db : ProjectDatabase} {targetProjectId : Option String}
    (h : findTargetProject user db targetProjectId = .ok defaultProjectId) :
    let s := importCredentials env
      (importProjects env user db bundle targetProjectId defaultProjectId) bundle defaultProjectId
    (importMigrationBundle env user db bundle targetProjectId).Ends
      (fun f => ∃ dataTables tags folders workflows tagMappings,
        f.db = { s.db with dataTables, tags, folders, workflows, tagMappings })
      (fun s' => ∃ dataTables tags folders workflows tagMappings,
        s'.db = { s.db with dataTables, tags, folders, workflows, tagMappings }) := by
  dsimp only
  rw [importMigrationBundle, h]
  refine Except.Ends.bind ((importWorkflows_ends _).imp
    (fun f ⟨_, _, _, _, hf⟩ => ⟨_, _, _, _, _, hf⟩) fun _ h => h) ?_
  rintro s ⟨dataTables, tags, folders, workflows, hs⟩
  obtain ⟨workflows, tagMappings, hr⟩ := importReferences_eq bundle s
  rw [hs] at hr
  exact ⟨_, _, _, _, _, hr⟩

end Import

end N8n
