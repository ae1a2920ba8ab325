import N8n.Lib.Pointwise
import N8n.Migration.ImportAgain
import N8n.Migration.LosesNoWorkflow

/-!
# Importing twice

A second import of the same bundle finds what the first one has created, when the projects that it
creates are found by their names, and the workflows that it creates have the nodes of the bundle.

* `SameObjects`: two databases have the same rows, and workflows with the same nodes, connections and
  settings;
* `ImportState.importWorkflows_again`: the loop over the workflows, a second time;
* `FindsProjectsAgain`, `KeepsNewNodes`: the two conditions;
* `importMigrationBundle_twice`: the second import.
-/

namespace N8n

/-! ### Writing the same columns twice -/

theorem writeColumns_field {α : Type*} (field : WorkflowColumns → α)
    (set : MigrationWorkflowItem → α → α) (hset : ∀ c w, field (c.write w) = set w (field c))
    (ws : List (String × MigrationWorkflowItem)) (columns : String → WorkflowColumns)
    (id : String) : field (ws.foldl writeColumns columns id) =
      ws.foldl (fun a e => if e.1 = id then set e.2 a else a) (field (columns id)) := by
  induction ws using List.reverseRecOn with
  | nil => rfl
  | append_singleton ws e ih =>
    rw [List.foldl_concat, List.foldl_concat, ← ih, writeColumns]
    by_cases h : e.1 = id
    · subst h
      rw [Function.update_self, if_pos rfl, hset]
    · rw [Function.update_of_ne (Ne.symm h), if_neg h]

/-- Writes that set a field or leave it do nothing a second time. -/
theorem writeColumns_field_twice {α : Type*} (field : WorkflowColumns → α)
    (set : MigrationWorkflowItem → α → α) (hset : ∀ c w, field (c.write w) = set w (field c))
    (hconst : ∀ w, (∀ a, set w a = a) ∨ ∃ a', ∀ a, set w a = a')
    (ws : List (String × MigrationWorkflowItem)) (columns : String → WorkflowColumns)
    (id : String) : field (ws.foldl writeColumns (ws.foldl writeColumns columns) id) =
      field (ws.foldl writeColumns columns id) := by
  rw [writeColumns_field field set hset, writeColumns_field field set hset]
  refine List.foldl_foldl (fun e _ => ?_) _
  by_cases h : e.1 = id
  · simpa only [if_pos h] using hconst e.2
  · exact Or.inl fun a => if_neg h

/-- **The same writes, a second time, change nothing.** -/
theorem foldl_writeColumns_twice (ws : List (String × MigrationWorkflowItem))
    (columns : String → WorkflowColumns) :
    ws.foldl writeColumns (ws.foldl writeColumns columns) = ws.foldl writeColumns columns := by
  have horUndefined : ∀ value : JsValue,
      (∀ a, ProjectDatabase.orUndefined value a = a) ∨
        ∃ a', ∀ a, ProjectDatabase.orUndefined value a = a' := by
    intro value
    by_cases h : value = .undefined
    · exact Or.inl fun a => if_pos h
    · exact Or.inr ⟨value, fun a => if_neg h⟩
  funext id
  have hnodes := writeColumns_field_twice WorkflowColumns.nodes (fun w _ => w.nodes)
    (fun _ _ => rfl) (fun w => Or.inr ⟨w.nodes, fun _ => rfl⟩) ws columns id
  have hconnections := writeColumns_field_twice WorkflowColumns.connections
    (fun w a => ProjectDatabase.orUndefined w.connections a) (fun _ _ => rfl)
    (fun w => horUndefined w.connections) ws columns id
  have hsettings := writeColumns_field_twice WorkflowColumns.settings
    (fun w a => ProjectDatabase.orUndefined w.settings a) (fun _ _ => rfl)
    (fun w => horUndefined w.settings) ws columns id
  cases h : ws.foldl writeColumns (ws.foldl writeColumns columns) id
  cases h' : ws.foldl writeColumns columns id
  rw [h, h'] at hnodes hconnections hsettings
  rw [WorkflowColumns.mk.injEq]
  exact ⟨hnodes, hconnections, hsettings⟩

namespace ImportState

variable {env : ImportEnvironment} {user : User} {defaultProjectId : String} {s s' t : ImportState}

/-! ### The loop over the workflows -/

/-- A workflow of the bundle in both runs: its id in the target, and what is written of it. -/
structure Turn where
  id : String
  first : MigrationWorkflowItem
  second : MigrationWorkflowItem

/-- The turns of a workflow: the second one writes it with the ids of the target. -/
structure IsTurnOf (s : ImportState) (defaultProjectId : String) (db : ProjectDatabase)
    (w : MigrationWorkflowItem) (turn : Turn) : Prop where
  target : s.targetOf defaultProjectId db w = some turn.id
  second : turn.second = s.replaceIds w
  first : turn.first = { turn.second with nodes := turn.first.nodes }
  completes : s.CompletesNodes defaultProjectId w turn.first.nodes

variable {db : ProjectDatabase} {w : MigrationWorkflowItem} {id : String}
  {ws : List MigrationWorkflowItem}

theorem IsTurnOf.mono {db' : ProjectDatabase} (h : db.Extends db') {turn : Turn}
    (hturn : IsTurnOf s defaultProjectId db w turn) : IsTurnOf s defaultProjectId db' w turn :=
  { hturn with target := h.workflowAt hturn.target }

/-- The two runs have the same maps, and have written the same workflows. -/
structure InStep (defaultProjectId : String) (columns columns' : String → WorkflowColumns)
    (turns : List Turn) (s t : ImportState) : Prop where
  projects : ∀ path, s.projectOf defaultProjectId path = t.projectOf defaultProjectId path
  credentialIdMap : s.credentialIdMap = t.credentialIdMap
  dataTableIdMap : s.dataTableIdMap = t.dataTableIdMap
  workflowIdMap : s.workflowIdMap = t.workflowIdMap
  keys : ∀ id target, s.workflowIdMap.get? id = some target → target ∈ s.db.workflows.keys
  first : s.workflows = turns.map Turn.first
  second : t.workflows = turns.map Turn.second
  writesFirst : s.db.columns = (turns.map fun e => (e.id, e.first)).foldl writeColumns columns
  writesSecond : t.db.columns = (turns.map fun e => (e.id, e.second)).foldl writeColumns columns'

theorem mem_keys_of_targetOf (h : s.targetOf defaultProjectId db w = some id) :
    id ∈ db.workflows.keys := by
  obtain ⟨_, _, hrow⟩ := ProjectDatabase.mem_workflowIndex_of_workflowAt h
  rw [← Dict.map_fst_index]
  exact List.mem_map_of_mem hrow

theorem mem_keys_of_extends {db' : ProjectDatabase} (h : db.Extends db')
    (hid : id ∈ db.workflows.keys) : id ∈ db'.workflows.keys := by
  rw [← Dict.map_fst_index _ fun w : WorkflowEntity => (w.name, w.parentFolder, w.shared)]
    at hid ⊢
  exact (h.workflows.map Prod.fst).subset hid

/-- A workflow that is found is updated. -/
theorem importWorkflow_of_targetOf (h : t.targetOf defaultProjectId t.db w = some id) :
    t.importWorkflow env user defaultProjectId w = .ok { t with
      db := t.db.updateWorkflow id (updateColumns (t.replaceIds w))
      workflowIdMap := t.workflowIdMap.set w.id id
      result := { t.result with workflowsUpdated := t.result.workflowsUpdated + 1 }
      workflows := t.workflows ++ [t.replaceIds w] } := by
  obtain ⟨folderId, hfolder, hfind⟩ := Option.bind_eq_some_iff.1 h
  unfold importWorkflow
  dsimp only
  rw [ProjectDatabase.getOrCreateFolderByPath,
    ProjectDatabase.getOrCreateFolderUnder_of_folderAt hfolder]
  have hname : (t.replaceIds w).name = w.name := rfl
  simp only [bind, Except.bind, hname, hfind]
  rfl

/-- A turn of the second run finds the workflow that the turn of the first run has written. -/
theorem InStep.importWorkflow (henv : env.Fresh) {columns columns' : String → WorkflowColumns}
    {turns : List Turn} (hin : InStep defaultProjectId columns columns' turns s t)
    (h : s.importWorkflow env user defaultProjectId w = .ok s') (hle : s'.db.Extends t.db) :
    ∃ t' turn, t.importWorkflow env user defaultProjectId w = .ok t' ∧
      IsTurnOf s defaultProjectId s'.db w turn ∧
      InStep defaultProjectId columns columns' (turns ++ [turn]) s' t' ∧
      t'.db.workflowIndex = t.db.workflowIndex ∧ ∃ workflows workflowIdMap result ws,
        t' = { t with db := { t.db with workflows }, workflowIdMap, result, workflows := ws } := by
  obtain ⟨id, nodes, hextends, htarget, -, hmap, hworkflows, hcompletes, hcolumns, -⟩ :=
    importWorkflow_ok henv h
  obtain ⟨hprojects, hcredentials, htables⟩ := importWorkflow_maps h
  have hreplace : t.replaceIds w = s.replaceIds w := by
    rw [replaceIds, replaceIds, hin.credentialIdMap, hin.dataTableIdMap]
  have hfound : t.targetOf defaultProjectId t.db w = some id := by
    rw [targetOf, ← hin.projects]
    exact hle.workflowAt htarget
  have hindex := workflowIndex_updateWorkflow t.db id (f := updateColumns (t.replaceIds w))
    fun _ => rfl
  have hwrite : (t.db.updateWorkflow id (updateColumns (t.replaceIds w))).columns =
      writeColumns t.db.columns (id, s.replaceIds w) := by
    rw [hreplace]
    exact columns_updateWorkflow (mem_keys_of_targetOf hfound) fun old => rfl
  refine ⟨_, ⟨id, { w with nodes }, s.replaceIds w⟩, importWorkflow_of_targetOf hfound,
    ⟨htarget, rfl, rfl, hcompletes⟩, ⟨fun path => ?_, ?_, ?_, ?_, ?_, ?_, ?_, ?_, ?_⟩, hindex, ?_⟩
  · rw [projectOf, hprojects]
    exact hin.projects path
  · rw [hcredentials, hin.credentialIdMap]
  · rw [htables, hin.dataTableIdMap]
  · rw [hmap, hin.workflowIdMap]
  · intro id' target htarget'
    rw [hmap, Dict.get?_set] at htarget'
    split at htarget'
    · obtain rfl := Option.some.inj htarget'
      exact mem_keys_of_targetOf htarget
    · exact mem_keys_of_extends hextends (hin.keys id' target htarget')
  · rw [hworkflows, hin.first, List.map_append, List.map_singleton]
  · rw [hin.second, hreplace, List.map_append, List.map_singleton]
  · rw [List.map_append, List.map_singleton, List.foldl_concat, ← hin.writesFirst, hcolumns]
  · rw [List.map_append, List.map_singleton, List.foldl_concat, ← hin.writesSecond]
    exact hwrite
  · unfold ProjectDatabase.updateWorkflow
    split
    · exact ⟨_, _, _, _, rfl⟩
    · exact ⟨_, _, _, _, rfl⟩

theorem extends_of_importWorkflows (henv : env.Fresh)
    (h : ws.foldlM (fun (s : ImportState) w => s.importWorkflow env user defaultProjectId w) s =
      .ok s') : s.db.Extends s'.db := by
  refine Except.foldlM_rel (R := fun s s' : ImportState => s.db.Extends s'.db) (fun s => .refl _)
    (fun _ _ _ => .trans) (fun s w s' _ h => ?_) h
  obtain ⟨_, _, hextends, -⟩ := importWorkflow_ok henv h
  exact hextends

/-- What a turn reads is there when the loop begins. -/
theorem IsTurnOf.of_loop (henv : env.Fresh) {turn : Turn}
    (h : ws.foldlM (fun (s : ImportState) w => s.importWorkflow env user defaultProjectId w) s =
      .ok s') (hturn : IsTurnOf s' defaultProjectId db w turn) :
    IsTurnOf s defaultProjectId db w turn := by
  have hextends := extends_of_importWorkflows henv h
  obtain ⟨_, _, _, _, _, rfl⟩ := (importWorkflows_ends s ws).of_ok h
  refine ⟨hturn.target, hturn.second, hturn.first, hturn.completes.imp id fun ⟨hnone, hrest⟩ => ?_⟩
  refine ⟨Option.eq_none_iff_forall_ne_some.2 fun id hid => ?_, hrest⟩
  have hid := hextends.workflowAt hid
  exact absurd (hnone.symm.trans hid) (by simp)

/-- **The loop over the workflows, a second time**: each turn finds the workflow that the first run
has written. -/
theorem importWorkflows_again (henv : env.Fresh)
    (h : ws.foldlM (fun (s : ImportState) w => s.importWorkflow env user defaultProjectId w) s =
      .ok s') (hin : InStep defaultProjectId s.db.columns t.db.columns [] s t)
    (hle : s'.db.Extends t.db) :
    ∃ t' turns, ws.foldlM (fun (s : ImportState) w => s.importWorkflow env user defaultProjectId w)
        t = .ok t' ∧
      List.Forall₂ (IsTurnOf s defaultProjectId s'.db) ws turns ∧
      InStep defaultProjectId s.db.columns t.db.columns turns s' t' ∧
      t'.db.workflowIndex = t.db.workflowIndex ∧ ∃ workflows workflowIdMap result ws,
        t' = { t with db := { t.db with workflows }, workflowIdMap, result, workflows := ws } := by
  induction ws using List.reverseRecOn generalizing s' with
  | nil =>
    cases h
    exact ⟨t, [], rfl, .nil, hin, rfl, _, _, _, _, rfl⟩
  | append_singleton ws w ih =>
    obtain ⟨s₁, h₁, h₂⟩ := Except.foldlM_concat_eq_ok_iff.1 h
    obtain ⟨_, _, hextends, -⟩ := importWorkflow_ok henv h₂
    obtain ⟨t₁, turns, ht₁, hturns, hin₁, hindex₁, _, _, _, _, hkeeps⟩ :=
      ih h₁ (hextends.trans hle)
    have hle₁ : s'.db.Extends t₁.db := by
      refine ⟨?_, hindex₁ ▸ hle.workflows⟩
      rw [hkeeps]
      exact hle.folders
    obtain ⟨t', turn, ht', hturn, hin', hindex, _, _, _, _, hkeeps'⟩ :=
      hin₁.importWorkflow henv h₂ hle₁
    refine ⟨t', turns ++ [turn], Except.foldlM_concat_eq_ok_iff.2 ⟨t₁, ht₁, ht'⟩, ?_, hin',
      hindex.trans hindex₁, ?_⟩
    · exact List.rel_append (hturns.imp fun w turn hturn => hturn.mono hextends)
        (.cons (hturn.of_loop henv h₁) .nil)
    · rw [hkeeps', hkeeps]
      exact ⟨_, _, _, _, rfl⟩

/-! ### The second pass -/

/-- What the second pass writes. -/
def references (s : ImportState) (ws : List MigrationWorkflowItem) :
    List (String × MigrationWorkflowItem) :=
  ws.filterMap fun w => (s.workflowIdMap.get? w.id).map fun id => (id, s.withReferences w)

theorem columns_foldl_updateReferences
    (hkeys : ∀ id target, s.workflowIdMap.get? id = some target → target ∈ s.db.workflows.keys)
    (ws : List MigrationWorkflowItem) : (ws.foldl updateReferences s).db.columns =
      (s.references ws).foldl writeColumns s.db.columns := by
  induction ws using List.reverseRecOn with
  | nil => rfl
  | append_singleton ws w ih =>
    obtain ⟨workflows, hs⟩ := updateReferences_eq s ws
    have hindex := workflowIndex_foldl_updateReferences s ws
    rw [List.foldl_concat, references, List.filterMap_append, List.foldl_append, ← references, ← ih]
    rw [hs] at hindex ⊢
    unfold updateReferences
    dsimp only
    cases hget : s.workflowIdMap.get? w.id with
    | none => simp [hget]
    | some id =>
      have hmem : id ∈ workflows.keys := by
        rw [← Dict.map_fst_index workflows fun w => (w.name, w.parentFolder, w.shared)]
        refine (congrArg (fun l => id ∈ List.map Prod.fst l) hindex).mpr ?_
        rw [ProjectDatabase.workflowIndex, Dict.map_fst_index]
        exact hkeys w.id id hget
      have hreferences : [w].filterMap (fun w => (s.workflowIdMap.get? w.id).map fun id =>
          (id, s.withReferences w)) = [(id, s.withReferences w)] := by simp [hget]
      rw [hreferences]
      exact columns_updateWorkflow hmem fun old => rfl

end ImportState

/-! ### Projects -/

section Conditions

variable (env : ImportEnvironment) (user : User) (db : ProjectDatabase) (bundle : MigrationBundle)
  (targetProjectId : Option String)

/-- The projects that an import creates are those that it finds the next time: the user has access
to no other project of the name, and may create workflows in the new one. -/
def FindsProjectsAgain : Prop :=
  ∀ name ∈ projectsToCreate env user db (importedNames bundle targetProjectId),
    (∀ e ∈ db.getAccessibleProjects user.id, e.2.name ≠ name) ∧
    (user.hasGlobalScope ["workflow:create"] ∨
      "project:admin" ∈ db.rolesWithScope .project ["workflow:create"])

/-- The workflow that a key finds. -/
def ProjectDatabase.plannedWorkflow : ProjectRef × List String × String → Option String
  | (.existing projectId, segments, name) => db.workflowAt projectId segments name
  | (.created _, _, _) => none

/-- The nodes have ids, and their credentials, with the ids of the target, are as the look-up of a
new workflow leaves them. -/
def keepsNodes (s : ImportState) (defaultProjectId : String) (w : MigrationWorkflowItem) : Prop :=
  let nodes := replaceCredentialIdsInNodes w.nodes s.credentialIdMap
  (∀ node ∈ w.nodes, (JsObject.get node "id").truthy) ∧
    s.db.replaceInvalidCredentials (s.projectOf defaultProjectId w.path) nodes = nodes

/-- No workflow that is not in the target has nodes that are completed when it is created. -/
def KeepsNewNodes : Prop :=
  let projectId := defaultProject user db targetProjectId
  ∀ w ∈ bundle.workflows,
    db.plannedWorkflow (workflowKey env user db bundle targetProjectId w) = none →
    keepsNodes (importCredentials env
      (importProjects env user db bundle targetProjectId projectId) bundle projectId) projectId w

end Conditions

section Projects

variable {env : ImportEnvironment} {user : User} {db : ProjectDatabase} {bundle : MigrationBundle}
  {targetProjectId : Option String} {newIds : String → String}

theorem findProjectByName_congr (user : User) {db' first : ProjectDatabase}
    (hprojects : db'.projects = first.projects)
    (hrelations : db'.projectRelations = first.projectRelations) (hroles : db'.roles = first.roles) :
    db'.findProjectByName user = first.findProjectByName user := by
  funext name
  simp only [ProjectDatabase.findProjectByName, ProjectDatabase.getAccessibleProjects,
    ProjectDatabase.getProjectWithScope, ProjectDatabase.relatesWithScope,
    ProjectDatabase.rolesWithScope, hprojects, hrelations, hroles]
  rfl

/-- The look-ups of the second import, of the projects that the first one leaves. -/
theorem findProjectByName_again
    (hnew : NewProjects db newIds
      (projectsToCreate env user db (importedNames bundle targetProjectId)))
    (hagain : FindsProjectsAgain env user db bundle targetProjectId) (name : String) :
    (db.withProjects user newIds
      (projectsToCreate env user db (importedNames bundle targetProjectId))).findProjectByName user
        name =
      if name ∈ projectsToCreate env user db (importedNames bundle targetProjectId) then
        some (newIds name) else db.findProjectByName user name := by
  by_cases hname : name ∈ projectsToCreate env user db (importedNames bundle targetProjectId)
  · obtain ⟨hnone, hscope⟩ := hagain name hname
    rw [if_pos hname, ProjectDatabase.findProjectByName_of_mem hnew hname hnone hscope]
  · rw [if_neg hname, ProjectDatabase.findProjectByName_withProjects user hnew hname]

/-- The second import creates no project. -/
theorem projectsToCreate_again
    (hnew : NewProjects db newIds
      (projectsToCreate env user db (importedNames bundle targetProjectId)))
    (hagain : FindsProjectsAgain env user db bundle targetProjectId) :
    projectsToCreate env user (db.withProjects user newIds
      (projectsToCreate env user db (importedNames bundle targetProjectId)))
        (importedNames bundle targetProjectId) = [] := by
  have hmissing : ∀ name, (db.withProjects user newIds (projectsToCreate env user db
      (importedNames bundle targetProjectId))).findProjectByName user name = none →
      name ∉ projectsToCreate env user db (importedNames bundle targetProjectId) ∧
        db.findProjectByName user name = none := by
    intro name hnone
    rw [findProjectByName_again hnew hagain] at hnone
    split at hnone
    · cases hnone
    · next hname => exact ⟨hname, hnone⟩
  have hcount := ProjectDatabase.length_teamProjects_withProjects user hnew
  rw [List.eq_nil_iff_forall_not_mem]
  intro name hname
  obtain ⟨hin, hnone⟩ := mem_of_mem_projectsToCreate hname
  obtain ⟨hnot, hnone⟩ := hmissing name hnone
  have hmem : name ∈ (importedNames bundle targetProjectId).filter fun name =>
      (db.findProjectByName user name).isNone := List.mem_filter.2 ⟨hin, by rw [hnone]; rfl⟩
  -- a name that is not found and not created is one too many
  cases hlimit : env.maxTeamProjects with
  | none =>
    rw [projectsToCreate, hlimit] at hnot
    exact hnot hmem
  | some limit =>
    have hfull : limit - (db.projects.values.filter fun p => p.type = .team).length ≤
        (projectsToCreate env user db (importedNames bundle targetProjectId)).length := by
      rw [projectsToCreate, hlimit] at hnot ⊢
      dsimp only at hnot ⊢
      rw [List.length_take]
      by_contra hlt
      rw [List.take_of_length_le (by omega)] at hnot
      exact hnot hmem
    rw [projectsToCreate, hlimit] at hname
    dsimp only at hname
    rw [hcount, Nat.sub_eq_zero_of_le (by omega), List.take_zero] at hname
    cases hname

/-- The second import leads each name to the project that the first one has led it to. -/
theorem projectRef_again (defaultProjectId : String)
    (hnew : NewProjects db newIds
      (projectsToCreate env user db (importedNames bundle targetProjectId)))
    (hagain : FindsProjectsAgain env user db bundle targetProjectId) (newIds' : String → String)
    (name : String) :
    (projectRef env user (db.withProjects user newIds
        (projectsToCreate env user db (importedNames bundle targetProjectId)))
        (importedNames bundle targetProjectId) defaultProjectId name).id newIds' =
      (projectRef env user db (importedNames bundle targetProjectId) defaultProjectId name).id
        newIds := by
  rw [projectRef, findProjectByName_again hnew hagain, projectsToCreate_again hnew hagain,
    projectRef]
  by_cases hname : name ∈ projectsToCreate env user db (importedNames bundle targetProjectId)
  · rw [if_pos hname, (mem_of_mem_projectsToCreate hname).2]
    dsimp only
    rw [if_pos hname]
    rfl
  · rw [if_neg hname]
    cases db.findProjectByName user name with
    | some id => rfl
    | none =>
      dsimp only
      rw [if_neg hname, if_neg (by simp)]
      rfl

/-- **The projects of the second import**: none is created, and every path leads where it has
led. -/
theorem importProjects_again (henv : env.Fresh) {db' : ProjectDatabase} {defaultProjectId : String}
    {ids : Dict String String}
    (hnew : NewProjects db newIds
      (projectsToCreate env user db (importedNames bundle targetProjectId)))
    (hpaths : ∀ path : MigrationPath, (ids.get? path.projectName).getD defaultProjectId =
      (plannedProject env user db bundle targetProjectId defaultProjectId path).id newIds)
    (hvalues : ∀ id, id ∈ ids.values ↔ id = defaultProjectId ∨
      ∃ name ∈ importedNames bundle targetProjectId, id =
        (projectRef env user db (importedNames bundle targetProjectId) defaultProjectId name).id
          newIds)
    (hprojects : db'.projects = (db.withProjects user newIds
      (projectsToCreate env user db (importedNames bundle targetProjectId))).projects)
    (hrelations : db'.projectRelations = (db.withProjects user newIds
      (projectsToCreate env user db (importedNames bundle targetProjectId))).projectRelations)
    (hroles : db'.roles = db.roles)
    (hagain : FindsProjectsAgain env user db bundle targetProjectId) :
    ∃ ids' : Dict String String,
      importProjects env user db' bundle targetProjectId defaultProjectId =
        { db := db', projectNameToId := ids' } ∧
      (∀ path : MigrationPath, (ids'.get? path.projectName).getD defaultProjectId =
        (ids.get? path.projectName).getD defaultProjectId) ∧
      ∀ id, id ∈ ids'.values ↔ id ∈ ids.values := by
  obtain ⟨newIds', -, ids', hs, hpaths', hvalues'⟩ := importProjects_spec user db' bundle
    targetProjectId defaultProjectId henv
  have hcreate := projectsToCreate_again hnew hagain
  have href := projectRef_again defaultProjectId hnew hagain newIds'
  have hroles' : (db.withProjects user newIds (projectsToCreate env user db
      (importedNames bundle targetProjectId))).roles = db.roles := by
    obtain ⟨_, _, heq⟩ := ProjectDatabase.withProjects_eq db user newIds
      (projectsToCreate env user db (importedNames bundle targetProjectId))
    rw [heq]
  revert hprojects hrelations hcreate href hroles'
  generalize db.withProjects user newIds
    (projectsToCreate env user db (importedNames bundle targetProjectId)) = first
  intro hprojects hrelations hcreate href hroles'
  have hfind := findProjectByName_congr user hprojects hrelations
    (hroles.trans hroles'.symm)
  have hcreate' : projectsToCreate env user db' (importedNames bundle targetProjectId) =
      projectsToCreate env user first (importedNames bundle targetProjectId) := by
    simp only [projectsToCreate, hfind, hprojects]
  have href' : ∀ name, projectRef env user db' (importedNames bundle targetProjectId)
      defaultProjectId name = projectRef env user first (importedNames bundle targetProjectId)
        defaultProjectId name := by
    intro name
    simp only [projectRef, hfind, hcreate']
  rw [hcreate', hcreate] at hs
  refine ⟨ids', hs, fun path => ?_, fun id => ?_⟩
  · rw [hpaths, hpaths', plannedProject, plannedProject]
    split
    · rw [href', href]
    · rfl
  · rw [hvalues, hvalues']
    simp only [href', href]

/-- The second import has the same default project. -/
theorem findTargetProject_again {db' : ProjectDatabase} {projectId : String}
    {names : List String} (hnew : NewProjects db newIds names)
    (hprojects : db'.projects = (db.withProjects user newIds names).projects)
    (hrelations : db'.projectRelations = (db.withProjects user newIds names).projectRelations)
    (hroles : db'.roles = db.roles)
    (h : findTargetProject user db targetProjectId = .ok projectId) :
    findTargetProject user db' targetProjectId = .ok projectId := by
  obtain ⟨_, _, heq⟩ := ProjectDatabase.withProjects_eq db user newIds names
  have hscope : ∀ id ∈ db.ids, db'.getProjectWithScope user id ["workflow:create"] =
      db.getProjectWithScope user id ["workflow:create"] := by
    intro id hid
    rw [← ProjectDatabase.getProjectWithScope_withProjects user hnew hid]
    have hroles' : (db.withProjects user newIds names).roles = db.roles := by rw [heq]
    simp only [ProjectDatabase.getProjectWithScope, ProjectDatabase.relatesWithScope,
      ProjectDatabase.rolesWithScope, hprojects, hrelations, hroles, hroles']
  have hids := ProjectDatabase.mem_ids_of_project (mem_projects_of_findTargetProject h)
  unfold findTargetProject at h ⊢
  cases htarget : targetProjectId.filter fun id => id ≠ "" with
  | some id =>
    rw [htarget] at h
    dsimp only at h ⊢
    split at h
    · cases h
    · next project hproject =>
      obtain rfl : id = projectId := Except.ok.inj h
      rw [hscope id hids, hproject]
  | none =>
    rw [htarget] at h
    dsimp only at h ⊢
    split at h
    · cases h
    · next id hid =>
      obtain rfl : id = projectId := Except.ok.inj h
      have hentries : db.projects.entries <+: db'.projects.entries := by
        rw [hprojects, ProjectDatabase.withProjects_entries hnew]
        exact List.prefix_append _ _
      obtain ⟨e, he, hfst⟩ := Option.map_eq_some_iff.1 hid
      rw [ProjectDatabase.getPersonalProjectForUser, hentries.find?_eq_some he, Option.map_some,
        hfst]

end Projects

/-! ### The parts of an import -/

/-- The loops of an import that succeeds, up to the one over the workflows. -/
structure ImportStages (env : ImportEnvironment) (user : User) (bundle : MigrationBundle)
    (projectId : String) (s₀ s₁ s₂ s₃ s₄ s₅ : ImportState) : Prop where
  «variables» : bundle.«variables».foldl (fun s v => s.importVariable env v) s₀ = s₁
  credentials : bundle.credentials.foldl (fun s c => s.importCredential env projectId
    (s₁.projectNameToId.values ++ [projectId]) c) s₁ = s₂
  dataTables : bundle.dataTables.foldlM
    (fun (s : ImportState) dt => s.importDataTable env projectId dt) s₂ = .ok s₃
  tags : bundle.tags.foldl (fun s t => s.importTag env t) s₃ = s₄
  workflows : bundle.workflows.foldlM
    (fun (s : ImportState) w => s.importWorkflow env user projectId w) s₄ = .ok s₅

section Stages

variable {env : ImportEnvironment} {user : User} {db : ProjectDatabase} {bundle : MigrationBundle}
  {targetProjectId : Option String} {projectId : String} {s₀ s₁ s₂ s₃ s₄ s₅ : ImportState}

theorem importMigrationBundle_eq_ok_iff {s : ImportState} :
    importMigrationBundle env user db bundle targetProjectId = .ok s ↔
      ∃ projectId s₁ s₂ s₃ s₄ s₅, findTargetProject user db targetProjectId = .ok projectId ∧
        ImportStages env user bundle projectId
          (importProjects env user db bundle targetProjectId projectId) s₁ s₂ s₃ s₄ s₅ ∧
        s = importReferences s₅ bundle := by
  unfold importMigrationBundle
  constructor
  · intro h
    cases htarget : findTargetProject user db targetProjectId with
    | error e => rw [htarget] at h; cases h
    | ok projectId =>
      rw [htarget] at h
      obtain ⟨s₅, h₅, hpure⟩ := Except.bind_eq_ok_iff.1 h
      obtain ⟨s₃, h₃, hloop⟩ := Except.bind_eq_ok_iff.1 h₅
      cases hpure
      exact ⟨projectId, _, _, s₃, _, s₅, rfl, ⟨rfl, rfl, h₃, rfl, hloop⟩, rfl⟩
  · rintro ⟨projectId, s₁, s₂, s₃, s₄, s₅, htarget, ⟨rfl, rfl, h₃, rfl, hloop⟩, rfl⟩
    rw [htarget]
    exact Except.bind_eq_ok_iff.2 ⟨s₅, Except.bind_eq_ok_iff.2 ⟨s₃, h₃, hloop⟩, rfl⟩

end Stages

/-! ### What an import leaves alone the second time -/

/-- The same rows, and workflows with the same nodes, connections and settings. -/
structure SameObjects (db db' : ProjectDatabase) : Prop where
  projects : db'.projects.keys = db.projects.keys
  folders : db'.folders.keys = db.folders.keys
  workflows : db'.workflows.keys = db.workflows.keys
  credentials : db'.credentials.keys = db.credentials.keys
  dataTables : db'.dataTables.keys = db.dataTables.keys
  «variables» : db'.«variables».keys = db.«variables».keys
  tags : db'.tags.keys = db.tags.keys
  tagMappings : db'.tagMappings = db.tagMappings
  columns : ∀ id, (db'.workflows.get? id).map WorkflowEntity.columns =
    (db.workflows.get? id).map WorkflowEntity.columns

theorem SameObjects.of_columns {db : ProjectDatabase} {workflows : Dict String WorkflowEntity}
    (hkeys : workflows.keys = db.workflows.keys)
    (hcolumns : ProjectDatabase.columns { db with workflows } = db.columns) :
    SameObjects db { db with workflows } := by
  refine ⟨rfl, rfl, hkeys, rfl, rfl, rfl, rfl, rfl, fun id => ?_⟩
  have hiff : (workflows.get? id).isSome = (db.workflows.get? id).isSome := by
    rw [Bool.eq_iff_iff, ← Dict.mem_keys_iff, ← Dict.mem_keys_iff, hkeys]
  have hid := congrFun hcolumns id
  unfold ProjectDatabase.columns at hid
  dsimp only at hid ⊢
  revert hiff hid
  cases workflows.get? id with
  | none =>
    cases db.workflows.get? id with
    | none => exact fun _ _ => rfl
    | some w => exact fun h => by cases h
  | some w =>
    cases db.workflows.get? id with
    | none => exact fun h => by cases h
    | some w' => exact fun _ h => congrArg some h

section Again

variable {env : ImportEnvironment} {user : User} {bundle : MigrationBundle} {projectId : String}
  {db : ProjectDatabase} {ids ids' : Dict String String} {s₁ s₂ s₃ s₄ s₅ : ImportState}

theorem importCredential_congr {projectIds projectIds' : List String}
    (h : ∀ id, id ∈ projectIds ↔ id ∈ projectIds') :
    (fun (s : ImportState) c => s.importCredential env projectId projectIds c) =
      fun s c => s.importCredential env projectId projectIds' c := by
  have hshared : ∀ c : CredentialsEntity,
      c.sharedToImport projectIds = c.sharedToImport projectIds' := by
    intro c
    simp only [CredentialsEntity.sharedToImport, h]
  funext s c
  simp only [ImportState.importCredential, hshared]

/-- What the stages leave alone. -/
structure StagesKeep (s₀ s₁ s₂ s₃ s₄ s₅ : ImportState) : Prop where
  «variables» : ∃ rows result, s₁ = { s₀ with db := { s₀.db with «variables» := rows }, result }
  credentials : ∃ credentials credentialIdMap result,
    s₂ = { s₁ with db := { s₁.db with credentials }, credentialIdMap, result }
  dataTables : ∃ dataTables dataTableIdMap result,
    s₃ = { s₂ with db := { s₂.db with dataTables }, dataTableIdMap, result }
  tags : ∃ tags tagNameToId result,
    s₄ = { s₃ with db := { s₃.db with tags }, tagNameToId, result }
  workflows : ∃ folders workflows workflowIdMap result ws, s₅ = { s₄ with
    db := { s₄.db with folders, workflows }, workflowIdMap, result, workflows := ws }

theorem StagesKeep.projects {s₀ : ImportState} (h : StagesKeep s₀ s₁ s₂ s₃ s₄ s₅)
    (bundle : MigrationBundle) :
    (importReferences s₅ bundle).db.projects = s₀.db.projects ∧
      (importReferences s₅ bundle).db.projectRelations = s₀.db.projectRelations ∧
      (importReferences s₅ bundle).db.roles = s₀.db.roles := by
  obtain ⟨_, _, hD⟩ := importReferences_eq bundle s₅
  obtain ⟨⟨_, _, rfl⟩, ⟨_, _, _, rfl⟩, ⟨_, _, _, rfl⟩, ⟨_, _, _, rfl⟩, ⟨_, _, _, _, _, rfl⟩⟩ := h
  rw [hD]
  exact ⟨rfl, rfl, rfl⟩

/-- What the loop over the workflows starts with. -/
theorem StagesKeep.maps {s₀ : ImportState} (h : StagesKeep s₀ s₁ s₂ s₃ s₄ s₅) :
    s₄.db.folders = s₀.db.folders ∧ s₄.db.workflows = s₀.db.workflows ∧
      s₄.projectNameToId = s₀.projectNameToId ∧ s₄.projectNameToId = s₂.projectNameToId ∧
      s₄.credentialIdMap = s₂.credentialIdMap ∧ s₄.db.credentials = s₂.db.credentials := by
  obtain ⟨⟨_, _, rfl⟩, ⟨_, _, _, rfl⟩, ⟨_, _, _, rfl⟩, ⟨_, _, _, rfl⟩, -⟩ := h
  exact ⟨rfl, rfl, rfl, rfl, rfl, rfl⟩

theorem ImportStages.keep {s₀ : ImportState}
    (h : ImportStages env user bundle projectId s₀ s₁ s₂ s₃ s₄ s₅) :
    StagesKeep s₀ s₁ s₂ s₃ s₄ s₅ := by
  obtain ⟨hvariables, hcredentials, htables, htags, hworkflows⟩ := h
  exact ⟨hvariables ▸ ImportState.importVariables_eq _ _ _,
    hcredentials ▸ ImportState.importCredentials_eq _ _ _ _ _,
    (ImportState.importDataTables_ends _ _).of_ok htables, htags ▸ ImportState.importTags_eq _ _ _,
    (ImportState.importWorkflows_ends _ _).of_ok hworkflows⟩

theorem workflowIndex_importReferences (bundle : MigrationBundle) (s : ImportState) :
    (importReferences s bundle).db.workflowIndex = s.db.workflowIndex := by
  rw [← ImportState.workflowIndex_foldl_updateReferences s s.workflows,
    ProjectDatabase.workflowIndex, (importReferences_workflows s bundle).1]
  rfl

theorem ImportState.CredentialsLe.of_eq {projectIds : List String} {db db' : ProjectDatabase}
    (h : db'.credentials = db.credentials) : CredentialsLe projectIds db db' := by
  constructor
  · rw [ProjectDatabase.credentialIndex, ProjectDatabase.credentialIndex, h]
  · exact fun id c hc => ⟨c, h ▸ hc, fun hshared => hshared⟩

/-- **The loops, a second time**, on the database that the first import leaves. -/
theorem ImportStages.again (henv : env.Fresh)
    (h : ImportStages env user bundle projectId { db, projectNameToId := ids } s₁ s₂ s₃ s₄ s₅)
    (hpaths : ∀ path : MigrationPath, (ids'.get? path.projectName).getD projectId =
      (ids.get? path.projectName).getD projectId)
    (hvalues : ∀ id, id ∈ ids'.values ↔ id ∈ ids.values) :
    ∃ t₁ t₂ t₃ t₄ t₅ turns,
      ImportStages env user bundle projectId
        { db := (importReferences s₅ bundle).db, projectNameToId := ids' } t₁ t₂ t₃ t₄ t₅ ∧
      List.Forall₂ (ImportState.IsTurnOf s₄ projectId s₅.db) bundle.workflows turns ∧
      ImportState.InStep projectId s₄.db.columns (importReferences s₅ bundle).db.columns turns
        s₅ t₅ ∧
      t₅.tagNameToId = s₅.tagNameToId ∧
      t₅.db.workflowIndex = s₅.db.workflowIndex ∧
      ∃ workflows, t₅.db = { (importReferences s₅ bundle).db with workflows } := by
  have hindex := workflowIndex_importReferences bundle s₅
  obtain ⟨_, _, hD⟩ := importReferences_eq bundle s₅
  obtain ⟨⟨rows, _, rfl⟩, ⟨creds, credIds, _, rfl⟩, ⟨tables, tableIds, _, rfl⟩,
    ⟨tags, tagIds, _, rfl⟩, ⟨folders, _, _, _, _, rfl⟩⟩ := h.keep
  obtain ⟨hvariables, hcredentials, htables, htags, hworkflows⟩ := h
  generalize (importReferences _ bundle).db = D at hD hindex ⊢
  have hfolders : D.folders = folders := by rw [hD]
  have hcreds : D.credentials = creds := by rw [hD]
  have hrows : D.«variables» = rows := by rw [hD]
  have hdts : D.dataTables = tables := by rw [hD]
  have htagRows : D.tags = tags := by rw [hD]
  let t : ImportState := { db := D, projectNameToId := ids' }
  have ht₁ := ImportState.importVariables_again (t := t) henv hvariables (by rw [← hrows])
  have ht₂ := ImportState.importCredentials_again (t := t) henv
    (List.mem_append_right _ (List.mem_singleton_self _)) hcredentials rfl (.of_eq hcreds)
  let t₂ : ImportState := { t with credentialIdMap := credIds }
  obtain ⟨result, ht₃⟩ := ImportState.importDataTables_again (t := t₂) henv htables
    (fun path => (hpaths path).symm) rfl (by
      rw [ImportState.dataTableIndex, ImportState.dataTableIndex, ← hdts])
  let t₃ : ImportState := { t₂ with dataTableIdMap := tableIds, result }
  have ht₄ := ImportState.importTags_again (t := t₃) henv htags rfl (by rw [← htagRows])
  let t₄ : ImportState := { t₃ with tagNameToId := tagIds }
  obtain ⟨t₅, turns, ht₅, hturns, hin, hsame, workflows, _, _, _, hkeeps⟩ :=
    ImportState.importWorkflows_again (t := t₄) henv hworkflows
      ⟨fun path => (hpaths path).symm, rfl, rfl, rfl, (fun _ _ h => by cases h), rfl, rfl, rfl, rfl⟩
      ⟨by rw [← hfolders], by rw [← hindex]⟩
  refine ⟨t, _, _, _, t₅, turns, ⟨ht₁, ?_, ht₃, ht₄, ht₅⟩, hturns, hin, ?_, hsame.trans hindex,
    workflows, ?_⟩
  · refine Eq.trans ?_ ht₂
    refine congrArg (fun f => bundle.credentials.foldl f t) (importCredential_congr fun id => ?_)
    rw [List.mem_append, List.mem_append]
    exact or_congr (hvalues id) Iff.rfl
  · rw [hkeeps]
  · rw [hkeeps]

end Again

/-! ### The second pass and the tag mappings, a second time -/

section References

variable {bundle : MigrationBundle} {projectId : String} {s t : ImportState}

theorem columns_importReferences
    (hkeys : ∀ id target, s.workflowIdMap.get? id = some target → target ∈ s.db.workflows.keys) :
    (importReferences s bundle).db.columns =
      (s.references s.workflows).foldl writeColumns s.db.columns := by
  rw [← ImportState.columns_foldl_updateReferences hkeys]
  funext id
  rw [ProjectDatabase.columns, (importReferences_workflows s bundle).1]
  rfl

/-- The second import maps no tag that the first one has not mapped. -/
theorem importReferences_db_again (bundle : MigrationBundle)
    (hworkflows : s.workflowIdMap = t.workflowIdMap) (htags : s.tagNameToId = t.tagNameToId)
    (hmappings : t.db.tagMappings = (importReferences s bundle).db.tagMappings) :
    ∃ workflows, (importReferences t bundle).db = { t.db with workflows } := by
  unfold importReferences at hmappings ⊢
  obtain ⟨workflows, hs⟩ := ImportState.updateReferences_eq s s.workflows
  obtain ⟨workflows', ht⟩ := ImportState.updateReferences_eq t t.workflows
  dsimp only at hmappings ⊢
  rw [hs] at hmappings
  rw [ht]
  have hagain := ImportState.importTagMappings_again
    (s := { s with db := { s.db with workflows } })
    (t := { t with db := { t.db with workflows := workflows' } }) rfl hworkflows htags
    (by rw [hmappings])
  exact ⟨workflows', congrArg ImportState.db hagain⟩

/-- When the two runs write the same workflows, the second one changes nothing. -/
theorem sameObjects_importReferences {columns : String → WorkflowColumns}
    {turns : List ImportState.Turn} {workflows : Dict String WorkflowEntity}
    (hin : ImportState.InStep projectId columns (importReferences s bundle).db.columns turns s t)
    (hturns : ∀ turn ∈ turns, turn.first = turn.second) (htags : t.tagNameToId = s.tagNameToId)
    (hindex : t.db.workflowIndex = s.db.workflowIndex)
    (hdb : t.db = { (importReferences s bundle).db with workflows }) :
    SameObjects (importReferences s bundle).db (importReferences t bundle).db := by
  obtain ⟨workflows', hafter⟩ := importReferences_db_again bundle hin.workflowIdMap
    htags.symm (by rw [hdb])
  have hkeys : ∀ db : ProjectDatabase, db.workflows.keys = db.workflowIndex.map Prod.fst :=
    fun db => (Dict.map_fst_index _ _).symm
  have hfirst : turns.map (fun e => (e.id, e.second)) = turns.map fun e => (e.id, e.first) :=
    List.map_congr_left fun turn hturn => by rw [hturns turn hturn]
  have hworkflows : t.workflows = s.workflows := by
    rw [hin.first, hin.second]
    exact List.map_congr_left fun turn hturn => (hturns turn hturn).symm
  have hreferences : t.references t.workflows = s.references s.workflows := by
    simp only [ImportState.references, ImportState.withReferences, hworkflows, hin.workflowIdMap]
  have hcolumns : (importReferences t bundle).db.columns =
      (importReferences s bundle).db.columns := by
    have htwice := foldl_writeColumns_twice
      ((turns.map fun e => (e.id, e.first)) ++ s.references s.workflows) columns
    rw [columns_importReferences (s := t), hreferences, hin.writesSecond, hfirst,
      columns_importReferences hin.keys, hin.writesFirst]
    · simpa only [List.foldl_append] using htwice
    · intro id target htarget
      rw [hkeys, hindex, ← hkeys]
      exact hin.keys id target (hin.workflowIdMap ▸ htarget)
  have hafter : (importReferences t bundle).db =
      { (importReferences s bundle).db with workflows := workflows' } := by
    rw [hafter, hdb]
  have hsame : workflows'.keys = (importReferences s bundle).db.workflows.keys := by
    have h := workflowIndex_importReferences bundle t
    rw [hindex, ← workflowIndex_importReferences bundle s, hafter] at h
    rw [hkeys, ← h]
    exact (Dict.map_fst_index _ _).symm
  rw [hafter] at hcolumns ⊢
  exact .of_columns hsame hcolumns

end References

/-! ### The second import -/

section Twice

variable {env : ImportEnvironment} {user : User} {db : ProjectDatabase} {bundle : MigrationBundle}
  {targetProjectId : Option String} {projectId : String} {s s₁ s₂ s₃ s₄ s₅ : ImportState}

theorem addNodeIds_of_truthy {newId : ℕ → String} {nodes : List JsObject}
    (h : ∀ node ∈ nodes, (JsObject.get node "id").truthy) : addNodeIds newId nodes = nodes := by
  refine List.ext_getElem? fun i => ?_
  rw [addNodeIds, List.getElem?_mapIdx]
  cases hi : nodes[i]? with
  | none => rfl
  | some node => rw [Option.map_some, if_pos (h node (List.mem_of_getElem? hi))]

/-- Nodes that are kept are those that the creation of the workflow leaves. -/
theorem keepsNodes.completes {w : MigrationWorkflowItem} (h : keepsNodes s projectId w)
    (hids : s₄.credentialIdMap = s.credentialIdMap) {db : ProjectDatabase}
    (hdb : db.credentials = s.db.credentials) (newId : ℕ → String) :
    db.replaceInvalidCredentials (s.projectOf projectId w.path)
      (addNodeIds newId (s₄.replaceIds w).nodes) = (s₄.replaceIds w).nodes := by
  obtain ⟨hnodes, hkeeps⟩ := h
  have hreplace : (s₄.replaceIds w).nodes = (replaceCredentialIdsInNodes w.nodes
      s.credentialIdMap).map (replaceIdInNode "dataTableId" s₄.dataTableIdMap) := by
    rw [← hids]
    rfl
  have htruthy : ∀ node ∈ (s₄.replaceIds w).nodes, (JsObject.get node "id").truthy := by
    intro node hnode
    rw [hreplace, replaceCredentialIdsInNodes, List.map_map] at hnode
    obtain ⟨node, hmem, rfl⟩ := List.mem_map.1 hnode
    rw [Function.comp, ProjectDatabase.get_replaceIdInNode _ _ _ (by decide),
      ProjectDatabase.get_replaceCredentialIdsInNode _ _ (by decide)]
    exact hnodes node hmem
  rw [addNodeIds_of_truthy htruthy, ProjectDatabase.replaceInvalidCredentials_congr hdb, hreplace,
    ProjectDatabase.replaceInvalidCredentials,
    ProjectDatabase.replaceInvalidNodes_map_replaceIdInNode]
  exact congrArg _ hkeeps

theorem workflowAt_congr {db db' : ProjectDatabase} (hfolders : db'.folders = db.folders)
    (hworkflows : db'.workflows = db.workflows) (projectId : String) (segments : List String)
    (name : String) :
    db'.workflowAt projectId segments name = db.workflowAt projectId segments name := by
  have hfolder : ∀ parent, db'.folderAt projectId parent segments =
      db.folderAt projectId parent segments := by
    induction segments with
    | nil => exact fun parent => rfl
    | cons segment segments ih =>
      intro parent
      simp only [ProjectDatabase.folderAt, ProjectDatabase.findFolder, hfolders, ih]
  simp only [ProjectDatabase.workflowAt, hfolder, ProjectDatabase.findWorkflowByNameInFolder,
    hworkflows]

/-- Before the loop over the workflows, a look-up finds what the plan finds. -/
theorem plannedWorkflow_eq_none {newIds : String → String} {w : MigrationWorkflowItem}
    (hfolders : s.db.folders = db.folders) (hworkflows : s.db.workflows = db.workflows)
    (hproject : s.projectOf (defaultProject user db targetProjectId) w.path =
      (plannedProject env user db bundle targetProjectId (defaultProject user db targetProjectId)
        w.path).id newIds)
    (hnone : s.targetOf (defaultProject user db targetProjectId) s.db w = none) :
    db.plannedWorkflow (workflowKey env user db bundle targetProjectId w) = none := by
  rw [ImportState.targetOf, hproject, workflowAt_congr hfolders hworkflows] at hnone
  revert hnone
  unfold workflowKey
  cases plannedProject env user db bundle targetProjectId (defaultProject user db targetProjectId)
    w.path with
  | existing id => exact fun hnone => hnone
  | created name => exact fun _ => rfl

theorem ImportState.IsTurnOf.first_eq_second {w : MigrationWorkflowItem} {turn : ImportState.Turn}
    (h : s₄.IsTurnOf projectId db w turn)
    (hkeeps : s₄.targetOf projectId s₄.db w = none → keepsNodes s projectId w)
    (hids : s₄.credentialIdMap = s.credentialIdMap)
    (hcredentials : s₄.db.credentials = s.db.credentials)
    (hprojects : s₄.projectNameToId = s.projectNameToId) : turn.first = turn.second := by
  have hfirst := h.first
  have hsecond := h.second
  suffices hsame : turn.first.nodes = turn.second.nodes by rw [hfirst, hsame]
  rw [hsecond]
  rcases h.completes with hsame | ⟨hnone, newId, db', hdb, hsame⟩
  · exact hsame
  · have hproject : s₄.projectOf projectId w.path = s.projectOf projectId w.path := by
      rw [ImportState.projectOf, hprojects]
      rfl
    rw [hsame, hproject]
    exact (hkeeps hnone).completes hids (hdb.trans hcredentials) newId

/-- The second import runs in step with the first one, and writes the same. -/
theorem sameObjects_of_findsProjectsAgain (henv : env.Fresh)
    (h : importMigrationBundle env user db bundle targetProjectId = .ok s)
    (hprojects : FindsProjectsAgain env user db bundle targetProjectId)
    (hnodes : KeepsNewNodes env user db bundle targetProjectId) :
    SameObjects s.db
      (databaseAfter (importMigrationBundle env user s.db bundle targetProjectId)) := by
  obtain ⟨projectId, s₁, s₂, s₃, s₄, s₅, htarget, hstages, rfl⟩ := importMigrationBundle_eq_ok_iff.1 h
  obtain rfl : defaultProject user db targetProjectId = projectId := by
    rw [defaultProject, htarget]
  obtain ⟨newIds, hnew, ids, hs₀, hpaths, hvalues⟩ := importProjects_spec user db bundle
    targetProjectId (defaultProject user db targetProjectId) henv
  have hcredentials : importCredentials env (importProjects env user db bundle targetProjectId
      (defaultProject user db targetProjectId)) bundle (defaultProject user db targetProjectId) =
        s₂ := by
    rw [← hstages.credentials, ← hstages.«variables»]
    rfl
  rw [hs₀] at hstages
  obtain ⟨_, _, hdb⟩ := ProjectDatabase.withProjects_eq db user newIds
    (projectsToCreate env user db (importedNames bundle targetProjectId))
  obtain ⟨hprojectRows, hrelations, hroles⟩ := hstages.keep.projects bundle
  replace hroles : (importReferences s₅ bundle).db.roles = db.roles := by rw [hroles, hdb]
  obtain ⟨hfolders, hworkflows, hnames, hmaps⟩ := hstages.keep.maps
  obtain ⟨ids', ht₀, hpaths', hvalues'⟩ := importProjects_again henv hnew hpaths hvalues hprojectRows
    hrelations hroles hprojects
  have htarget' := findTargetProject_again hnew hprojectRows hrelations hroles htarget
  obtain ⟨t₁, t₂, t₃, t₄, t₅, turns, hstages', hall, hin, htags, hindex, workflows, hafter⟩ :=
    hstages.again henv hpaths' hvalues'
  rw [importMigrationBundle_eq_ok_iff.2 ⟨_, t₁, t₂, t₃, t₄, t₅, htarget', ht₀ ▸ hstages', rfl⟩]
  refine sameObjects_importReferences hin (fun turn hturn => ?_) htags hindex hafter
  obtain ⟨w, hw, hturn⟩ := hall.exists_left turn hturn
  refine hturn.first_eq_second (fun hnone => hcredentials ▸ hnodes w hw ?_) hmaps.2.1 hmaps.2.2
    hmaps.1
  have hproject : s₄.projectOf (defaultProject user db targetProjectId) w.path =
      (plannedProject env user db bundle targetProjectId (defaultProject user db targetProjectId)
        w.path).id newIds := by
    rw [← hpaths, ImportState.projectOf, hnames]
  exact plannedWorkflow_eq_none (by rw [hfolders, hdb]) (by rw [hworkflows, hdb]) hproject hnone

theorem projects_importCredentials (s : ImportState) (bundle : MigrationBundle)
    (projectId : String) :
    (importCredentials env s bundle projectId).db.projects = s.db.projects := by
  unfold importCredentials
  obtain ⟨_, _, hvars⟩ := ImportState.importVariables_eq env s bundle.«variables»
  dsimp only
  rw [hvars]
  obtain ⟨_, _, _, hcreds⟩ := ImportState.importCredentials_eq env projectId _
    (s.projectNameToId.values ++ [projectId]) bundle.credentials
  rw [hcreds]

/-- **Without a quota, projects that are not found again are created again.** -/
theorem findsProjectsAgain_of_sameObjects (henv : env.Fresh) (hlimit : env.maxTeamProjects = none)
    (h : importMigrationBundle env user db bundle targetProjectId = .ok s)
    (hsame : SameObjects s.db
      (databaseAfter (importMigrationBundle env user s.db bundle targetProjectId))) :
    FindsProjectsAgain env user db bundle targetProjectId := by
  obtain ⟨projectId, s₁, s₂, s₃, s₄, s₅, htarget, hstages, rfl⟩ := importMigrationBundle_eq_ok_iff.1 h
  obtain ⟨newIds, hnew, ids, hs₀, -, -⟩ := importProjects_spec user db bundle targetProjectId
    projectId henv
  rw [hs₀] at hstages
  obtain ⟨hprojectRows, hrelations, hroles⟩ := hstages.keep.projects bundle
  obtain ⟨_, _, hdb⟩ := ProjectDatabase.withProjects_eq db user newIds
    (projectsToCreate env user db (importedNames bundle targetProjectId))
  have hfind := findProjectByName_congr user hprojectRows hrelations hroles
  have htarget' := findTargetProject_again hnew hprojectRows hrelations
    (by rw [hroles, hdb]) htarget
  -- the projects that the second import creates
  obtain ⟨newIds', hnew', _, hs₀', -, -⟩ := importProjects_spec user
    (importReferences s₅ bundle).db bundle targetProjectId projectId henv
  have hnone : projectsToCreate env user (importReferences s₅ bundle).db
      (importedNames bundle targetProjectId) = [] := by
    obtain ⟨_, _, _, _, _, hafter⟩ := databaseAfter_eq env bundle htarget'
    have hkeys := hsame.projects
    rw [hafter] at hkeys
    dsimp only at hkeys
    rw [projects_importCredentials, hs₀', Dict.keys,
      ProjectDatabase.withProjects_entries hnew', List.map_append] at hkeys
    exact List.map_eq_nil_iff.1 (List.map_eq_nil_iff.1 (List.append_right_eq_self.1 hkeys))
  intro name hname
  obtain ⟨hin, hmissing⟩ := mem_of_mem_projectsToCreate hname
  refine ProjectDatabase.of_findProjectByName_withProjects hnew hmissing fun hnotFound => ?_
  rw [projectsToCreate, hlimit, hfind] at hnone
  exact List.ne_nil_of_mem (List.mem_filter.2 ⟨hin, by rw [hnotFound]; rfl⟩) hnone

/-- **Importing twice**: when the projects that an import creates are those that it finds the next
time, and no workflow that it creates has nodes that the creation completes, a second import of the
bundle creates nothing, and leaves the workflows as they are.  Without a quota of projects, it
creates some when they are not found. -/
theorem importMigrationBundle_twice (henv : env.Fresh)
    (h : importMigrationBundle env user db bundle targetProjectId = .ok s) :
    (FindsProjectsAgain env user db bundle targetProjectId ∧
        KeepsNewNodes env user db bundle targetProjectId →
      SameObjects s.db
        (databaseAfter (importMigrationBundle env user s.db bundle targetProjectId))) ∧
    (env.maxTeamProjects = none →
      SameObjects s.db
        (databaseAfter (importMigrationBundle env user s.db bundle targetProjectId)) →
      FindsProjectsAgain env user db bundle targetProjectId) :=
  ⟨fun ⟨hprojects, hnodes⟩ => sameObjects_of_findsProjectsAgain henv h hprojects hnodes,
    fun hlimit hsame => findsProjectsAgain_of_sameObjects henv hlimit h hsame⟩

end Twice

/-! ### A project that is not found -/

/-- The personal project of a user, and a project in which the user is a member of some role. -/
def personalAndTeam (role : String) : ProjectDatabase where
  projects := .ofList [("p1", { name := "Personal", type := .personal, creatorId := some "u1" }),
    ("p2", { name := "Team" })]
  projectRelations := [⟨"p1", "u1", "project:personalOwner"⟩, ⟨"p2", "u1", role⟩]
  roles := [⟨"project:admin", .project, ["workflow:create"]⟩,
    ⟨"project:personalOwner", .project, ["workflow:create"]⟩, ⟨"project:viewer", .project, []⟩]

/-- A workflow of a project. -/
def oneWorkflow (projectName : String) : MigrationBundle where
  workflows := [
    { id := "a", name := "Sync", path := ⟨"x", projectName, none, none⟩,
      nodes := [[("id", .str "1")]] }]

theorem importMigrationBundle_twice_oneWorkflow :
    ∃ s, importMigrationBundle .longIds { id := "u1" } (personalAndTeam "project:viewer")
        (oneWorkflow "Sales") none = .ok s ∧
      SameObjects s.db (databaseAfter
        (importMigrationBundle .longIds { id := "u1" } s.db (oneWorkflow "Sales") none)) := by
  have hok : (importMigrationBundle .longIds { id := "u1" } (personalAndTeam "project:viewer")
      (oneWorkflow "Sales") none).toOption.isSome := by decide
  cases h : importMigrationBundle .longIds { id := "u1" } (personalAndTeam "project:viewer")
      (oneWorkflow "Sales") none with
  | error f => rw [h] at hok; cases hok
  | ok s =>
    refine ⟨s, rfl, (importMigrationBundle_twice ImportEnvironment.longIds_fresh h).1 ⟨?_, ?_⟩⟩
    · unfold FindsProjectsAgain
      decide
    · unfold KeepsNewNodes keepsNodes
      decide

/-- Each import creates a project of the name, when the user may not create workflows in the one that
is there. -/
theorem import_twice_creates_project :
    ¬ ∀ (env : ImportEnvironment) (user : User) (db : ProjectDatabase) (bundle : MigrationBundle)
        (targetProjectId : Option String) (s : ImportState), env.Fresh →
      importMigrationBundle env user db bundle targetProjectId = .ok s →
      SameObjects s.db
        (databaseAfter (importMigrationBundle env user s.db bundle targetProjectId)) := by
  intro hall
  have hmore : (importMigrationBundle .longIds { id := "u1" } (personalAndTeam "project:viewer")
      (oneWorkflow "Team") none).toOption.any fun s =>
        (databaseAfter (importMigrationBundle .longIds { id := "u1" } s.db (oneWorkflow "Team")
          none)).projects.keys ≠ s.db.projects.keys := by decide +kernel
  cases h : importMigrationBundle .longIds { id := "u1" } (personalAndTeam "project:viewer")
      (oneWorkflow "Team") none with
  | error f => rw [h] at hmore; cases hmore
  | ok s =>
    rw [h] at hmore
    have hsame := hall _ _ _ _ _ s ImportEnvironment.longIds_fresh h
    simp only [Except.toOption, Option.any_some, decide_eq_true_eq] at hmore
    exact hmore hsame.projects

end N8n
