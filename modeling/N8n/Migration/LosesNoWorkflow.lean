import N8n.Migration.ImportTargets

/-!
# Whether an import loses workflows

Two workflows of a bundle that have the same name and lead to the same folder are written to one
workflow of the target.

* `LosesNoWorkflow`: each workflow of the bundle has its own workflow in the target;
* `sameTarget`: two workflows of a bundle for which the import finds one;
* `losesNoWorkflow_iff`: nothing is lost exactly when there are no such two.
-/

namespace N8n

/-! ### What is lost -/

/-- The nodes of a workflow of the bundle, with the ids of the target. -/
def ImportState.HasNodesOf (s : ImportState) (w : MigrationWorkflowItem) (nodes : List JsObject) :
    Prop :=
  ∃ imported, s.IsImportOf w imported ∧ nodes = replaceWorkflowIdsInNodes imported s.workflowIdMap

/-- Each workflow of the bundle has a workflow of its own in the target, with its name, its nodes
and its connections. -/
structure LosesNoWorkflow (bundle : MigrationBundle) (s : ImportState) : Prop where
  injective : ∀ w ∈ bundle.workflows, ∀ w' ∈ bundle.workflows,
    s.workflowIdMap.get? w.id = s.workflowIdMap.get? w'.id → w.id = w'.id
  exist : ∀ w ∈ bundle.workflows, ∃ id e, s.workflowIdMap.get? w.id = some id ∧
    s.db.workflows.get? id = some e ∧ e.name = w.name ∧ s.HasNodesOf w e.nodes ∧
    (w.connections ≠ .undefined → e.connections = w.connections)

section SameTarget

variable (env : ImportEnvironment) (user : User) (db : ProjectDatabase) (bundle : MigrationBundle)
  (targetProjectId : Option String)

def defaultProject : String :=
  match findTargetProject user db targetProjectId with
  | .error _ => ""
  | .ok projectId => projectId

/-- The project, the folders and the name of a workflow. -/
def workflowKey (w : MigrationWorkflowItem) : ProjectRef × List String × String :=
  (plannedProject env user db bundle targetProjectId (defaultProject user db targetProjectId) w.path,
    folderPathToSegments w.path.folderPath w.path.projectName, w.name)

/-- The workflow that a name finds outside the folders of a project. -/
def ProjectDatabase.rootWorkflow : ProjectRef → String → Option String
  | .existing projectId, name => db.findWorkflowByNameInFolder projectId none name
  | .created _, _ => none

/-- The workflows have the same key, or, where a workflow outside the folders has two owners, find
it both. -/
def sameTarget (w w' : MigrationWorkflowItem) : Prop :=
  let key := workflowKey env user db bundle targetProjectId w
  let key' := workflowKey env user db bundle targetProjectId w'
  key = key' ∨ (key.2 = key'.2 ∧ key.2.1 = [] ∧ (db.rootWorkflow key.1 key.2.2).isSome ∧
    db.rootWorkflow key.1 key.2.2 = db.rootWorkflow key'.1 key.2.2)

instance (w w' : MigrationWorkflowItem) :
    Decidable (sameTarget env user db bundle targetProjectId w w') :=
  inferInstanceAs (Decidable (_ ∨ _))

end SameTarget

/-! ### Keys and targets -/

section Targets

variable {env : ImportEnvironment} {user : User} {db : ProjectDatabase} {bundle : MigrationBundle}
  {targetProjectId : Option String}

theorem ProjectDatabase.mem_ids_of_workflowSharing {id : String} {w : WorkflowEntity}
    {sharing : Sharing} (h : db.workflows.get? id = some w) (hs : sharing ∈ w.shared) :
    sharing.projectId ∈ db.ids := by
  have hmem : sharing.projectId ∈ db.workflows.values.flatMap fun w =>
      w.parentFolder.toList ++ w.shared.map Sharing.projectId :=
    List.mem_flatMap.2 ⟨w, (Dict.mem_values_iff _ _).2 ⟨id, h⟩,
      List.mem_append_right _ (List.mem_map_of_mem hs)⟩
  simp only [ProjectDatabase.ids, List.mem_append, hmem, true_or, or_true]

variable {defaultProjectId : String} {newIds : String → String}

/-- The project of a path exists, or it is one of those that are created. -/
theorem plannedProject_cases (env : ImportEnvironment) (user : User) (bundle : MigrationBundle)
    (targetProjectId : Option String) (hdefault : defaultProjectId ∈ db.projects.keys)
    (path : MigrationPath) :
    (∃ id ∈ db.ids, plannedProject env user db bundle targetProjectId defaultProjectId path =
      .existing id) ∨
    ∃ name ∈ projectsToCreate env user db (importedNames bundle targetProjectId),
      plannedProject env user db bundle targetProjectId defaultProjectId path = .created name := by
  have hids := ProjectDatabase.mem_ids_of_project hdefault
  unfold plannedProject
  dsimp only
  split
  · unfold projectRef
    split
    · next id hfound =>
      exact Or.inl ⟨id, ProjectDatabase.mem_ids_of_project
        (mem_projects_of_findProjectByName hfound), rfl⟩
    · split
      · next hcreated => exact Or.inr ⟨_, hcreated, rfl⟩
      · exact Or.inl ⟨_, hids, rfl⟩
  · exact Or.inl ⟨_, hids, rfl⟩

/-- Different projects have different ids. -/
theorem plannedProject_injective (hnew : NewProjects db newIds
      (projectsToCreate env user db (importedNames bundle targetProjectId)))
    (hdefault : defaultProjectId ∈ db.projects.keys) {path path' : MigrationPath}
    (h : (plannedProject env user db bundle targetProjectId defaultProjectId path).id newIds =
      (plannedProject env user db bundle targetProjectId defaultProjectId path').id newIds) :
    plannedProject env user db bundle targetProjectId defaultProjectId path =
      plannedProject env user db bundle targetProjectId defaultProjectId path' := by
  rcases plannedProject_cases env user bundle targetProjectId hdefault path with ⟨id, hid, heq⟩ | ⟨name, hname, heq⟩
  · rcases plannedProject_cases env user bundle targetProjectId hdefault path' with ⟨id', hid', heq'⟩ | ⟨name', hname', heq'⟩
    · rw [heq, heq'] at h ⊢
      exact congrArg ProjectRef.existing h
    · rw [heq, heq'] at h
      have h : id = newIds name' := h
      exact absurd (h ▸ hid) (hnew.fresh name' hname')
  · rcases plannedProject_cases env user bundle targetProjectId hdefault path' with ⟨id', hid', heq'⟩ | ⟨name', hname', heq'⟩
    · rw [heq, heq'] at h
      have h : newIds name = id' := h
      exact absurd (h ▸ hid') (hnew.fresh name hname)
    · rw [heq, heq'] at h ⊢
      rw [List.inj_on_of_nodup_map hnew.nodup hname hname' h]

/-- A workflow that was there, outside the folders, was found before the import. -/
theorem rootWorkflow_eq {db' : ProjectDatabase}
    {row : String × String × Option String × List Sharing} {name : String} {path : MigrationPath}
    (hnew : NewProjects db newIds
      (projectsToCreate env user db (importedNames bundle targetProjectId)))
    (hdefault : defaultProjectId ∈ db.projects.keys)
    (hgrown : db.workflowIndex <+: db'.workflowIndex) (hold : row ∈ db.workflowIndex)
    (hfind : db'.workflowIndex.find? (ProjectDatabase.ownedBy ((plannedProject env user db bundle
      targetProjectId defaultProjectId path).id newIds) none name) = some row) :
    db.rootWorkflow (plannedProject env user db bundle targetProjectId defaultProjectId path) name =
      some row.1 := by
  rcases plannedProject_cases env user bundle targetProjectId hdefault path with ⟨id, hid, heq⟩ | ⟨name', hname, heq⟩
  · rw [heq] at hfind ⊢
    rw [ProjectDatabase.rootWorkflow, ProjectDatabase.findWorkflowByNameInFolder_eq]
    have hfound := hgrown.find?_of_mem (Dict.nodup_index _ _) hfind (List.mem_map_of_mem hold)
    exact congrArg (Option.map Prod.fst) hfound
  · rw [heq] at hfind
    have howned := List.find?_some hfind
    simp only [ProjectDatabase.ownedBy, Bool.and_eq_true, List.any_eq_true,
      decide_eq_true_eq] at howned
    obtain ⟨⟨⟨sharing, hsharing, howner, -⟩, -⟩, -⟩ := howned
    obtain ⟨id, _, _, shared⟩ := row
    obtain ⟨entity, hentity, hrow⟩ := Dict.mem_index_iff.1 hold
    simp only [Prod.mk.injEq] at hrow
    obtain ⟨-, -, rfl⟩ := hrow
    have hids := ProjectDatabase.mem_ids_of_workflowSharing hentity hsharing
    rw [howner] at hids
    exact absurd hids (hnew.fresh name' hname)

/-- What the loop over the workflows starts from. -/
structure BeforeWorkflows (db : ProjectDatabase) (s : ImportState) : Prop where
  folders : s.db.folders = db.folders
  workflows : s.db.workflows = db.workflows
  imported : s.workflows = []

/-- **Two workflows are written to one exactly when the look-ups before the import say so.** -/
theorem targetOf_eq_iff {s s' : ImportState} (hnew : NewProjects db newIds
      (projectsToCreate env user db (importedNames bundle targetProjectId)))
    (hdefault : defaultProject user db targetProjectId ∈ db.projects.keys)
    (hprojects : ∀ path, s.projectOf (defaultProject user db targetProjectId) path =
      (plannedProject env user db bundle targetProjectId (defaultProject user db targetProjectId)
        path).id newIds) (hbefore : BeforeWorkflows db s)
    (hs : ImportState.ImportsWorkflows (defaultProject user db targetProjectId) bundle.workflows s s')
    {w w' : MigrationWorkflowItem} (hw : w ∈ bundle.workflows) :
    s.targetOf (defaultProject user db targetProjectId) s'.db w =
        s.targetOf (defaultProject user db targetProjectId) s'.db w' ↔
      sameTarget env user db bundle targetProjectId w w' := by
  have hindex : s.db.workflowIndex = db.workflowIndex := by
    rw [ProjectDatabase.workflowIndex, hbefore.workflows]
    rfl
  have hgrown : db.workflowIndex <+: s'.db.workflowIndex := hindex ▸ hs.isExtended.workflows
  have hroot : ∀ (w : MigrationWorkflowItem) (id : String),
      folderPathToSegments w.path.folderPath w.path.projectName = [] →
      db.rootWorkflow (plannedProject env user db bundle targetProjectId
        (defaultProject user db targetProjectId) w.path) w.name = some id →
      s.targetOf (defaultProject user db targetProjectId) s'.db w = some id := by
    intro w id hsegments hid
    rw [ImportState.targetOf, hprojects, hsegments, ProjectDatabase.workflowAt,
      ProjectDatabase.folderAt, Option.bind_some]
    refine ProjectDatabase.findWorkflowByNameInFolder_of_prefix hgrown ?_
    revert hid
    cases plannedProject env user db bundle targetProjectId (defaultProject user db targetProjectId)
      w.path with
    | existing projectId => exact fun hid => hid
    | created name => exact fun hid => by cases hid
  simp only [sameTarget, workflowKey, Prod.mk.injEq]
  constructor
  · intro heq
    obtain ⟨id, hid, -⟩ := hs.targets w hw
    have hid' := heq.symm.trans hid
    obtain ⟨folderId, hfolder, hfind⟩ := Option.bind_eq_some_iff.1 hid
    obtain ⟨folderId', hfolder', hfind'⟩ := Option.bind_eq_some_iff.1 hid'
    rw [ProjectDatabase.findWorkflowByNameInFolder_eq] at hfind hfind'
    obtain ⟨row, hrow, rfl⟩ := Option.map_eq_some_iff.1 hfind
    obtain ⟨row', hrow', hsame⟩ := Option.map_eq_some_iff.1 hfind'
    have hmem := List.mem_of_find?_eq_some hrow
    obtain rfl : row' = row := List.inj_on_of_nodup_map (Dict.nodup_index _ _)
      (List.mem_of_find?_eq_some hrow') hmem hsame
    have howned := List.find?_some hrow
    have howned' := List.find?_some hrow'
    simp only [ProjectDatabase.ownedBy, Bool.and_eq_true, List.any_eq_true,
      decide_eq_true_eq] at howned howned'
    obtain ⟨⟨⟨sharing, hsharing, howner, hrole⟩, hname⟩, hparent⟩ := howned
    obtain ⟨⟨⟨sharing', hsharing', howner', hrole'⟩, hname'⟩, hparent'⟩ := howned'
    obtain rfl : folderId = folderId' := hparent.symm.trans hparent'
    obtain ⟨hsegments, hor⟩ := ProjectDatabase.folderAt_injective hfolder hfolder'
    have hnames : w.name = w'.name := hname.symm.trans hname'
    rw [hprojects, hprojects] at hor
    by_cases hproject : (plannedProject env user db bundle targetProjectId
        (defaultProject user db targetProjectId) w.path).id newIds =
      (plannedProject env user db bundle targetProjectId
        (defaultProject user db targetProjectId) w'.path).id newIds
    · exact Or.inl ⟨plannedProject_injective hnew hdefault hproject, hsegments, hnames⟩
    · -- a workflow outside the folders, of two projects, is not one that the import creates
      right
      have hnil := hor.resolve_right hproject
      have hold : row' ∈ db.workflowIndex := by
        rcases hs.rows row' hmem with hold | ⟨projectId, hshared⟩
        · exact hindex ▸ hold
        · rw [hshared, List.mem_singleton] at hsharing hsharing'
          rw [hsharing] at howner
          rw [hsharing'] at howner'
          rw [← hprojects, ← hprojects] at hproject
          exact absurd (howner.symm.trans howner') hproject
      obtain rfl : none = folderId := by
        rw [hnil] at hfolder
        exact Option.some.inj hfolder
      rw [hprojects] at hrow hrow'
      have hroot := rootWorkflow_eq hnew hdefault hgrown hold hrow
      have hroot' := rootWorkflow_eq hnew hdefault hgrown hold hrow'
      rw [← hnames] at hroot'
      exact ⟨⟨hsegments, hnames⟩, hnil, hroot ▸ rfl, hroot.trans hroot'.symm⟩
  · rintro (⟨hproject, hsegments, hname⟩ | ⟨⟨hsegments, hname⟩, hnil, hsome, heq⟩)
    · rw [ImportState.targetOf, ImportState.targetOf, hprojects, hprojects, hproject, hsegments,
        hname]
    · obtain ⟨id, hid⟩ := Option.isSome_iff_exists.1 hsome
      rw [hroot w id hnil hid, hroot w' id (hsegments ▸ hnil) (by rw [← hname, ← heq, hid])]

end Targets

/-! ### The second pass -/

namespace ImportState

variable {s : ImportState} {ws : List MigrationWorkflowItem}

theorem workflowIndex_updateReferences (s : ImportState) (w : MigrationWorkflowItem) :
    (s.updateReferences w).db.workflowIndex = s.db.workflowIndex := by
  unfold updateReferences
  split
  · rfl
  · exact workflowIndex_updateWorkflow _ _ fun _ => rfl

theorem workflowIndex_foldl_updateReferences (s : ImportState) (ws : List MigrationWorkflowItem) :
    (ws.foldl updateReferences s).db.workflowIndex = s.db.workflowIndex := by
  induction ws using List.reverseRecOn with
  | nil => rfl
  | append_singleton ws w ih => rw [List.foldl_concat, workflowIndex_updateReferences, ih]

/-- **The second pass**: workflows with different targets have their nodes and connections. -/
theorem foldl_updateReferences_ok
    (hmap : ∀ w ∈ ws, ∃ id ∈ s.db.workflows.keys, s.workflowIdMap.get? w.id = some id)
    (hinj : ws.Pairwise fun w w' => s.workflowIdMap.get? w.id ≠ s.workflowIdMap.get? w'.id) :
    ∀ w ∈ ws, ∀ id, s.workflowIdMap.get? w.id = some id →
      ∃ e, (ws.foldl updateReferences s).db.workflows.get? id = some e ∧
        e.nodes = (s.withReferences w).nodes ∧
        (w.connections ≠ .undefined → e.connections = w.connections) := by
  induction ws using List.reverseRecOn with
  | nil => simp
  | append_singleton ws w ih =>
    rw [List.pairwise_append] at hinj
    have ih := ih (fun w' hw' => hmap w' (List.mem_append_left _ hw')) hinj.1
    obtain ⟨id, hid, hget⟩ := hmap w (by simp)
    have hkeys : id ∈ (ws.foldl updateReferences s).db.workflows.keys := by
      rw [← Dict.map_fst_index _ fun w : WorkflowEntity => (w.name, w.parentFolder, w.shared)]
        at hid ⊢
      exact (congrArg (id ∈ List.map Prod.fst ·) (workflowIndex_foldl_updateReferences s ws)).mpr hid
    obtain ⟨old, hold⟩ := Option.isSome_iff_exists.1 ((Dict.mem_keys_iff _ _).1 hkeys)
    obtain ⟨workflows, hs⟩ := updateReferences_eq s ws
    rw [List.foldl_concat]
    rw [hs] at ih hold ⊢
    intro w' hw' id' hget'
    rw [updateReferences]
    dsimp only at ih hold ⊢
    rw [hget]
    dsimp only
    rw [ProjectDatabase.updateWorkflow]
    dsimp only
    rw [hold]
    rcases List.mem_append.1 hw' with hw' | hw'
    · have hne : id' ≠ id := by
        rintro rfl
        exact hinj.2.2 w' hw' w (by simp) (hget'.trans hget.symm)
      obtain ⟨e, he, hnodes, hconnections⟩ := ih w' hw' id' hget'
      exact ⟨e, (Dict.get?_set_ne _ _ hne).trans he, hnodes, hconnections⟩
    · obtain rfl := List.mem_singleton.1 hw'
      obtain rfl : id = id' := Option.some.inj (hget.symm.trans hget')
      refine ⟨_, Dict.get?_set_self _ _ _, rfl, fun hne => ?_⟩
      exact if_neg hne

end ImportState

/-! ### The import -/

section Import

variable {env : ImportEnvironment} {user : User} {db : ProjectDatabase} {bundle : MigrationBundle}
  {targetProjectId : Option String} {defaultProjectId : String}

theorem importReferences_workflows (s : ImportState) (bundle : MigrationBundle) :
    (importReferences s bundle).db.workflows =
        (s.workflows.foldl ImportState.updateReferences s).db.workflows ∧
      (importReferences s bundle).workflowIdMap = s.workflowIdMap ∧
      (importReferences s bundle).credentialIdMap = s.credentialIdMap ∧
      (importReferences s bundle).dataTableIdMap = s.dataTableIdMap := by
  unfold importReferences
  obtain ⟨workflows, hs⟩ := ImportState.updateReferences_eq s s.workflows
  obtain ⟨tagMappings, hm⟩ := ImportState.importTagMappings_eq
    (s.workflows.foldl ImportState.updateReferences s) bundle.tags bundle.tagMappings
  dsimp only
  rw [hm, hs]
  exact ⟨rfl, rfl, rfl, rfl⟩

/-- What comes before the loop over the workflows does not touch them. -/
theorem importWorkflows_split {s s' : ImportState}
    (h : importWorkflows env user s bundle defaultProjectId = .ok s') :
    ∃ s₁, s₁.projectNameToId = s.projectNameToId ∧ s₁.db.folders = s.db.folders ∧
      s₁.db.workflows = s.db.workflows ∧ s₁.workflows = s.workflows ∧
      bundle.workflows.foldlM
        (fun (s : ImportState) w => s.importWorkflow env user defaultProjectId w) s₁ = .ok s' := by
  obtain ⟨s₁, h₁, h₂⟩ := Except.bind_eq_ok_iff.1 h
  obtain ⟨_, _, _, rfl⟩ := (ImportState.importDataTables_ends s bundle.dataTables).of_ok h₁
  obtain ⟨_, _, _, htags⟩ := ImportState.importTags_eq env _ bundle.tags
  dsimp only at h₂
  rw [htags] at h₂
  refine ⟨_, ?_, ?_, ?_, ?_, h₂⟩
  all_goals rfl

theorem importCredentials_keeps (env : ImportEnvironment) (bundle : MigrationBundle)
    (defaultProjectId : String) (s : ImportState) :
    (importCredentials env s bundle defaultProjectId).projectNameToId = s.projectNameToId ∧
      (importCredentials env s bundle defaultProjectId).db.folders = s.db.folders ∧
      (importCredentials env s bundle defaultProjectId).db.workflows = s.db.workflows ∧
      (importCredentials env s bundle defaultProjectId).workflows = s.workflows := by
  unfold importCredentials
  obtain ⟨_, _, hvars⟩ := ImportState.importVariables_eq env s bundle.«variables»
  dsimp only
  rw [hvars]
  obtain ⟨_, _, _, hcreds⟩ := ImportState.importCredentials_eq env defaultProjectId _
    (s.projectNameToId.values ++ [defaultProjectId]) bundle.credentials
  rw [hcreds]
  exact ⟨rfl, rfl, rfl, rfl⟩

/-- The parts of an import that succeeds. -/
theorem importMigrationBundle_ok (henv : env.Fresh)
    (hids : (bundle.workflows.map MigrationWorkflowItem.id).Nodup) {s : ImportState}
    (h : importMigrationBundle env user db bundle targetProjectId = .ok s) :
    ∃ newIds s₁ s', NewProjects db newIds
        (projectsToCreate env user db (importedNames bundle targetProjectId)) ∧
      defaultProject user db targetProjectId ∈ db.projects.keys ∧
      (∀ path, s₁.projectOf (defaultProject user db targetProjectId) path =
        (plannedProject env user db bundle targetProjectId
          (defaultProject user db targetProjectId) path).id newIds) ∧
      BeforeWorkflows db s₁ ∧
      ImportState.ImportsWorkflows (defaultProject user db targetProjectId) bundle.workflows s₁ s' ∧
      s = importReferences s' bundle := by
  unfold importMigrationBundle at h
  unfold defaultProject
  cases htarget : findTargetProject user db targetProjectId with
  | error e => rw [htarget] at h; cases h
  | ok projectId =>
    rw [htarget] at h
    obtain ⟨s', h', hpure⟩ := Except.bind_eq_ok_iff.1 h
    cases hpure
    obtain ⟨newIds, hnew, ids, hs, hpaths, -⟩ := importProjects_spec user db bundle
      targetProjectId projectId henv
    obtain ⟨_, _, hdb⟩ := ProjectDatabase.withProjects_eq db user newIds
      (projectsToCreate env user db (importedNames bundle targetProjectId))
    rw [hs, hdb] at h'
    obtain ⟨s₁, hprojects, hfolders, hworkflows, himported, hloop⟩ := importWorkflows_split h'
    obtain ⟨hprojects', hfolders', hworkflows', himported'⟩ := importCredentials_keeps env
      bundle projectId _
    dsimp only
    refine ⟨newIds, s₁, s', hnew, mem_projects_of_findTargetProject htarget, fun path => ?_,
      ⟨hfolders.trans hfolders', hworkflows.trans hworkflows', himported.trans himported'⟩,
      ImportState.importWorkflows_ok henv hids hloop, rfl⟩
    rw [ImportState.projectOf, hprojects, hprojects', hpaths]

/-- **When nothing is lost**: an import that succeeds gives each workflow of the bundle a workflow of
its own exactly when no two of them lead to the same target. -/
theorem losesNoWorkflow_iff (henv : env.Fresh)
    (hids : (bundle.workflows.map MigrationWorkflowItem.id).Nodup) {s : ImportState}
    (h : importMigrationBundle env user db bundle targetProjectId = .ok s) :
    LosesNoWorkflow bundle s ↔
      bundle.workflows.Pairwise fun w w' => ¬ sameTarget env user db bundle targetProjectId w w' := by
  obtain ⟨newIds, s₁, s', hnew, hdefault, hprojects, hbefore, hs, rfl⟩ :=
    importMigrationBundle_ok henv hids h
  obtain ⟨htable, hmap, hcredentials, htables⟩ := importReferences_workflows s' bundle
  -- the map and the look-ups agree
  have hget : ∀ w ∈ bundle.workflows, s'.workflowIdMap.get? w.id =
      s₁.targetOf (defaultProject user db targetProjectId) s'.db w := by
    intro w hw
    obtain ⟨id, hid, hget⟩ := hs.targets w hw
    rw [hid, hget]
  have hsame : ∀ w ∈ bundle.workflows, ∀ w' ∈ bundle.workflows,
      s'.workflowIdMap.get? w.id = s'.workflowIdMap.get? w'.id ↔
        sameTarget env user db bundle targetProjectId w w' := by
    intro w hw w' hw'
    rw [hget w hw, hget w' hw']
    exact targetOf_eq_iff hnew hdefault hprojects hbefore hs hw
  rw [List.Nodup, List.pairwise_map] at hids
  constructor
  · rintro ⟨hinj, -⟩
    rw [hmap] at hinj
    refine hids.imp_of_mem fun {w w'} hw hw' hne hto => ?_
    exact hne (hinj w hw w' hw' ((hsame w hw w' hw').2 hto))
  · intro hpairwise
    have hne : bundle.workflows.Pairwise fun w w' =>
        s'.workflowIdMap.get? w.id ≠ s'.workflowIdMap.get? w'.id :=
      hpairwise.imp_of_mem fun {w w'} hw hw' hto => (hsame w hw w' hw').not.2 hto
    obtain ⟨imported, himported, hmapIds, hall⟩ := hs.workflows
    rw [hbefore.imported, List.nil_append] at himported
    have hne' : s'.workflows.Pairwise fun w w' =>
        s'.workflowIdMap.get? w.id ≠ s'.workflowIdMap.get? w'.id := by
      have hpair : (bundle.workflows.map MigrationWorkflowItem.id).Pairwise fun id id' =>
          s'.workflowIdMap.get? id ≠ s'.workflowIdMap.get? id' := List.pairwise_map.2 hne
      rw [← hmapIds, ← himported] at hpair
      exact (List.pairwise_map (f := MigrationWorkflowItem.id)
        (R := fun id id' => s'.workflowIdMap.get? id ≠ s'.workflowIdMap.get? id')).1 hpair
    have hkeys : ∀ w ∈ s'.workflows, ∃ id ∈ s'.db.workflows.keys,
        s'.workflowIdMap.get? w.id = some id := by
      intro w hw
      have hid : w.id ∈ bundle.workflows.map MigrationWorkflowItem.id := by
        rw [← hmapIds, ← himported]
        exact List.mem_map_of_mem hw
      obtain ⟨w', hw', heq⟩ := List.mem_map.1 hid
      obtain ⟨id, htarget, hgetid⟩ := hs.targets w' hw'
      obtain ⟨_, _, hrow⟩ := ProjectDatabase.mem_workflowIndex_of_workflowAt htarget
      refine ⟨id, ?_, heq ▸ hgetid⟩
      rw [← Dict.map_fst_index]
      exact List.mem_map_of_mem hrow
    have hpass := ImportState.foldl_updateReferences_ok hkeys hne'
    constructor
    · intro w hw w' hw' heq
      rw [hmap] at heq
      have hnodup : (bundle.workflows.map fun w => s'.workflowIdMap.get? w.id).Nodup :=
        List.pairwise_map.2 hne
      rw [List.inj_on_of_nodup_map hnodup hw hw' heq]
    · intro w hw
      obtain ⟨nodes, hmem, himport⟩ := hall w hw
      obtain ⟨id, htarget, hgetid⟩ := hs.targets w hw
      obtain ⟨e, he, hnodes, hconnections⟩ := hpass { w with nodes } (himported ▸ hmem) id hgetid
      obtain ⟨_, _, hrow⟩ := ProjectDatabase.mem_workflowIndex_of_workflowAt htarget
      rw [← ImportState.workflowIndex_foldl_updateReferences s' s'.workflows] at hrow
      obtain ⟨e', he', hindex⟩ := Dict.mem_index_iff.1 hrow
      obtain rfl : e = e' := Option.some.inj (he.symm.trans he')
      simp only [Prod.mk.injEq] at hindex
      refine ⟨id, e, by rw [hmap, hgetid], by rw [htable, he], hindex.1, ⟨nodes, ?_, ?_⟩,
        hconnections⟩
      · rw [ImportState.IsImportOf, ImportState.replaceIds, hcredentials, htables,
          hs.credentialIdMap, hs.dataTableIdMap]
        exact himport
      · rw [hnodes, hmap]
        rfl

end Import

/-! ### Two workflows of one name -/

/-- A project of the user. -/
def oneProject : ProjectDatabase where
  projects := .ofList [("p1", { name := "One" })]
  projectRelations := [⟨"p1", "u1", "project:admin"⟩]
  roles := [⟨"project:admin", .project, ["workflow:create"]⟩]

/-- A workflow of each of two projects. -/
def twoWorkflows (name name' : String) : MigrationBundle where
  workflows := [
    { id := "a", name := name, path := ⟨"x", "X", none, none⟩, nodes := [[("id", .str "1")]] },
    { id := "b", name := name', path := ⟨"y", "Y", none, none⟩, nodes := [[("id", .str "2")]] }]

theorem losesNoWorkflow_twoWorkflows :
    ∃ s, importMigrationBundle .longIds { id := "u1" } oneProject (twoWorkflows "Sync" "Clean")
        (some "p1") = .ok s ∧ LosesNoWorkflow (twoWorkflows "Sync" "Clean") s := by
  have hok : (importMigrationBundle .longIds { id := "u1" } oneProject
      (twoWorkflows "Sync" "Clean") (some "p1")).toOption.isSome := by decide
  cases h : importMigrationBundle .longIds { id := "u1" } oneProject (twoWorkflows "Sync" "Clean")
      (some "p1") with
  | error f => rw [h] at hok; cases hok
  | ok s =>
    exact ⟨s, rfl, (losesNoWorkflow_iff ImportEnvironment.longIds_fresh (by decide) h).2 (by decide)⟩

/-- Workflows of the same name, imported into one project, become one. -/
theorem import_merges_twoWorkflows :
    ¬ ∀ (env : ImportEnvironment) (user : User) (db : ProjectDatabase) (bundle : MigrationBundle)
        (targetProjectId : Option String) (s : ImportState), env.Fresh →
      (bundle.workflows.map MigrationWorkflowItem.id).Nodup →
      importMigrationBundle env user db bundle targetProjectId = .ok s → LosesNoWorkflow bundle s := by
  intro hall
  have hsame : (importMigrationBundle .longIds { id := "u1" } oneProject
      (twoWorkflows "Sync" "Sync") (some "p1")).toOption.any fun s =>
        s.workflowIdMap.get? "a" = s.workflowIdMap.get? "b" := by decide
  cases h : importMigrationBundle .longIds { id := "u1" } oneProject (twoWorkflows "Sync" "Sync")
      (some "p1") with
  | error f => rw [h] at hsame; cases hsame
  | ok s =>
    rw [h] at hsame
    have hloses := hall _ _ _ _ _ s ImportEnvironment.longIds_fresh (by decide) h
    have hids := hloses.injective _ (List.mem_cons_self ..) _
      (List.mem_cons_of_mem _ (List.mem_cons_self ..)) (of_decide_eq_true hsame)
    exact absurd hids (by decide)

end N8n
