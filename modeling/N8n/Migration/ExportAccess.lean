import N8n.Lib.Pointwise
import N8n.Migration.Export
import Mathlib.Data.Fintype.EquivFin

/-!
# What an export reveals

An export collects workflows by the references between them, and then everything that they use.

* `SameReadable`: two databases differ only in what a user may not read;
* `RevealsOnlyReadable`: what is claimed of an export;
* `revealsOnlyReadable_iff`: it holds if and only if all that the workflows refer to exists and may
  be read by the user;
* `exportMigrationBundle_closed`: what the bundle of an export has;
* `exports_unreadable`: an export that reveals a workflow that the user may not read.
-/

namespace N8n

namespace ProjectDatabase

variable {db db' : ProjectDatabase} {user : User} {now workflowId : String}
  {bundle : MigrationBundle}

/-! ### What is claimed -/

def canReadWorkflow (db : ProjectDatabase) (user : User) (w : WorkflowEntity) : Bool :=
  w.shared.any (db.sharingGives user .workflow ["workflow:read"])

def canReadCredential (db : ProjectDatabase) (user : User) (c : CredentialsEntity) : Bool :=
  c.shared.any (db.sharingGives user .credential ["credential:read"]) ||
    (hasGlobalReadOnlyAccess ["credential:read"] && c.isGlobal)

def canReadDataTable (db : ProjectDatabase) (user : User) (dt : DataTable) : Bool :=
  (db.getProjectWithScope user dt.projectId ["dataTable:read"]).isSome

/-- The entries of a table that may be read. -/
def readableEntries {α : Type} (canRead : α → Bool) (table : Dict String α) : List (String × α) :=
  table.entries.filter fun e => canRead e.2

/-- The databases differ only in workflows, credentials and data tables that the user may not
read. -/
structure SameReadable (user : User) (db db' : ProjectDatabase) : Prop where
  rest : db' = { db with
    workflows := db'.workflows, credentials := db'.credentials, dataTables := db'.dataTables }
  workflows : readableEntries (db.canReadWorkflow user) db'.workflows =
    readableEntries (db.canReadWorkflow user) db.workflows
  credentials : readableEntries (db.canReadCredential user) db'.credentials =
    readableEntries (db.canReadCredential user) db.credentials
  dataTables : readableEntries (db.canReadDataTable user) db'.dataTables =
    readableEntries (db.canReadDataTable user) db.dataTables

/-- The user may read each workflow of the bundle, and the bundle is the same for each database that
differs only in what the user may not read. -/
structure RevealsOnlyReadable (db : ProjectDatabase) (user : User) (now workflowId : String)
    (bundle : MigrationBundle) : Prop where
  workflows : ∀ w ∈ bundle.workflows,
    (db.findWorkflowForUser user w.id ["workflow:read"]).isSome = true
  bundle : ∀ db', SameReadable user db db' →
    db'.exportMigrationBundle user now workflowId = .ok bundle

/-! ### The condition -/

/-- A workflow refers to another one, whoever may read it. -/
def LeadsTo (db : ProjectDatabase) (id id' : String) : Prop :=
  ∃ w, db.workflows.get? id = some w ∧ id' ∈ w.leadsTo

/-- Each workflow that the workflow leads to, and each credential and data table that these use,
exists and may be read by the user. -/
def LeadsToReadable (db : ProjectDatabase) (user : User) (workflowId : String) : Prop :=
  ∀ id, Relation.ReflTransGen db.LeadsTo workflowId id →
    ∃ w, db.findWorkflowForUser user id ["workflow:read"] = some w ∧
      (∀ c ∈ extractCredentialIdsFromNodes w.nodes,
        (db.findCredentialForUser user c ["credential:read"]).isSome = true) ∧
      ∀ t ∈ extractDataTableIdsFromNodes w.nodes,
        ∃ dt, db.dataTables.get? t = some dt ∧ db.canReadDataTable user dt = true

/-! ### Tables -/

section Tables

variable {α : Type} {canRead : α → Bool} {table table' : Dict String α} {id : String} {a : α}

theorem mem_readableEntries :
    (id, a) ∈ readableEntries canRead table ↔ table.get? id = some a ∧ canRead a = true := by
  rw [readableEntries, List.mem_filter, Dict.mem_entries_iff]

theorem filter_get?_eq_some_iff :
    (table.get? id).filter canRead = some a ↔ (id, a) ∈ readableEntries canRead table := by
  rw [Option.filter_eq_some_iff, mem_readableEntries]

/-- Where the readable entries are the same, so are the look-ups of what may be read. -/
theorem filter_get?_eq (h : readableEntries canRead table' = readableEntries canRead table)
    (id : String) : (table'.get? id).filter canRead = (table.get? id).filter canRead := by
  ext a
  rw [filter_get?_eq_some_iff, filter_get?_eq_some_iff, h]

theorem mem_findIn {ids : List String} :
    (id, a) ∈ findIn table ids ↔ table.get? id = some a ∧ id ∈ ids := by
  rw [findIn, List.mem_filter, Dict.mem_entries_iff, decide_eq_true_eq]

theorem findIn_congr {ids ids' : List String} (h : ∀ id, id ∈ ids ↔ id ∈ ids') :
    findIn table ids = findIn table ids' := by
  unfold findIn
  simp only [h]

/-- A query for ids that may all be read finds readable entries only. -/
theorem findIn_eq_filter {ids : List String}
    (hids : ∀ id ∈ ids, ∃ a, table.get? id = some a ∧ canRead a = true) :
    findIn table ids = (readableEntries canRead table).filter fun e => e.1 ∈ ids := by
  rw [readableEntries, List.filter_filter, findIn]
  refine List.filter_congr fun e he => ?_
  by_cases hid : e.1 ∈ ids
  · obtain ⟨a, hget, hread⟩ := hids e.1 hid
    have hentry : table.get? e.1 = some e.2 := (Dict.mem_entries_iff table e.1 e.2).1 he
    obtain rfl := Option.some.inj (hget.symm.trans hentry)
    simp [hid, hread]
  · simp [hid]

theorem findIn_eq {ids : List String}
    (h : readableEntries canRead table' = readableEntries canRead table)
    (hids : ∀ id ∈ ids, ∃ a, table.get? id = some a ∧ canRead a = true) :
    findIn table' ids = findIn table ids := by
  have hids' : ∀ id ∈ ids, ∃ a, table'.get? id = some a ∧ canRead a = true := by
    intro id hid
    obtain ⟨a, ha⟩ := hids id hid
    exact ⟨a, mem_readableEntries.1 (h ▸ mem_readableEntries.2 ha)⟩
  rw [findIn_eq_filter hids, findIn_eq_filter hids', h]

/-- An entry that may not be read goes. -/
theorem readableEntries_erase (hget : table.get? id = some a) (hread : canRead a = false) :
    readableEntries canRead (table.erase id) = readableEntries canRead table := by
  show (EntryList.drop id table.entries).filter _ = _
  rw [EntryList.drop, List.filter_filter, readableEntries]
  refine List.filter_congr fun e he => ?_
  have hentry : table.get? e.1 = some e.2 := (Dict.mem_entries_iff table e.1 e.2).1 he
  by_cases hid : e.1 = id
  · subst hid
    obtain rfl := Option.some.inj (hget.symm.trans hentry)
    simp [hread]
  · simp [hid]

/-- An entry that may not be read comes. -/
theorem readableEntries_set (hget : table.get? id = none) (hread : canRead a = false) :
    readableEntries canRead (table.set id a) = readableEntries canRead table := by
  rw [readableEntries, Dict.entries_set_of_get?_eq_none hget, List.filter_append]
  simp [hread, readableEntries]

end Tables

/-! ### Collecting -/

variable {id : String} {w : WorkflowEntity}

theorem mem_keys_of_next (id : String) (h : db.nextWorkflowIds user id ≠ []) :
    id ∈ db.workflows.keys := by
  rw [Dict.mem_keys_iff]
  by_contra hnone
  have hget : db.workflows.get? id = none := by simpa using hnone
  exact h (by simp [nextWorkflowIds, findWorkflowForUser, hget])

theorem mem_collectAllWorkflowIds :
    id ∈ db.collectAllWorkflowIds user workflowId ↔
      Worklist.Reaches (db.nextWorkflowIds user) workflowId id :=
  Worklist.mem_collect_iff mem_keys_of_next

theorem nextWorkflowIds_eq (h : db.findWorkflowForUser user id ["workflow:read"] = some w) :
    db.nextWorkflowIds user id = w.leadsTo := by
  rw [nextWorkflowIds, h]

/-- What the user is led to is led to. -/
theorem leadsTo_of_mem_next {id' : String} (h : id' ∈ db.nextWorkflowIds user id) :
    db.LeadsTo id id' := by
  cases hfind : db.findWorkflowForUser user id ["workflow:read"] with
  | none => simp [nextWorkflowIds, hfind] at h
  | some w =>
    rw [nextWorkflowIds_eq hfind] at h
    exact ⟨w, (Option.filter_eq_some_iff.1 hfind).1, h⟩

theorem leadsTo_of_mem_collect (h : id ∈ db.collectAllWorkflowIds user workflowId) :
    Relation.ReflTransGen db.LeadsTo workflowId id :=
  Relation.ReflTransGen.mono
    (fun a b (hab : b ∈ db.nextWorkflowIds user a) => leadsTo_of_mem_next hab) _ _
    (mem_collectAllWorkflowIds.1 h)

/-! ### What a bundle says -/

/-- The workflows that are exported. -/
abbrev exportedRows (db : ProjectDatabase) (user : User) (workflowId : String) :
    List (String × WorkflowEntity) :=
  findIn db.workflows (db.collectAllWorkflowIds user workflowId)

/-- **The parts of a bundle.** -/
theorem exportMigrationBundle_ok (h : db.exportMigrationBundle user now workflowId = .ok bundle) :
    (db.findWorkflowForUser user workflowId ["workflow:read"]).isSome = true ∧
      (db.exportedRows user workflowId).mapM db.exportWorkflow = .ok bundle.workflows ∧
      bundle.credentials = (findIn db.credentials
        (credentialIdsOf (db.exportedRows user workflowId))).map exportCredential ∧
      bundle.dataTables =
        (dataTableIdsOf (db.exportedRows user workflowId)).elems.filterMap db.exportDataTable := by
  unfold exportMigrationBundle at h
  by_cases hroot : (db.findWorkflowForUser user workflowId ["workflow:read"]).isNone = true
  · simp [hroot] at h
  · simp only [hroot] at h
    obtain ⟨items, hitems, hbundle⟩ := Except.bind_eq_ok_iff.1 h
    obtain rfl := Except.pure_eq_ok_iff.1 hbundle
    exact ⟨by simpa [Option.isSome_iff_ne_none] using hroot, hitems, rfl, rfl⟩

theorem mem_exportedRows :
    (id, w) ∈ db.exportedRows user workflowId ↔
      db.workflows.get? id = some w ∧ id ∈ db.collectAllWorkflowIds user workflowId :=
  mem_findIn

/-- Each workflow that is collected and exists is in the bundle. -/
theorem mem_bundle_workflows (h : db.exportMigrationBundle user now workflowId = .ok bundle)
    (hrow : (id, w) ∈ db.exportedRows user workflowId) :
    ∃ item ∈ bundle.workflows, item.id = id ∧ db.exportWorkflow (id, w) = .ok item := by
  obtain ⟨item, hitem, hexport⟩ := (Except.mapM_eq_ok_iff.1 (exportMigrationBundle_ok h).2.1).exists_right _ hrow
  obtain ⟨path, -, heq⟩ := Except.bind_eq_ok_iff.1 hexport
  obtain rfl := Except.pure_eq_ok_iff.1 heq
  exact ⟨_, hitem, rfl, hexport⟩

/-- A credential is in the bundle if it exists and is used. -/
theorem mem_bundle_credentials (h : db.exportMigrationBundle user now workflowId = .ok bundle)
    (c : String) : c ∈ bundle.credentials.map MigrationCredentialItem.id ↔
      (db.credentials.get? c).isSome = true ∧
        c ∈ credentialIdsOf (db.exportedRows user workflowId) := by
  rw [(exportMigrationBundle_ok h).2.2.1, List.map_map]
  constructor
  · intro hmem
    obtain ⟨⟨id, cred⟩, he, rfl⟩ := List.mem_map.1 hmem
    exact ⟨Option.isSome_iff_exists.2 ⟨cred, (mem_findIn.1 he).1⟩, (mem_findIn.1 he).2⟩
  · rintro ⟨hsome, hc⟩
    obtain ⟨cred, hget⟩ := Option.isSome_iff_exists.1 hsome
    exact List.mem_map.2 ⟨(c, cred), mem_findIn.2 ⟨hget, hc⟩, rfl⟩

/-- A data table is in the bundle if it exists and is used. -/
theorem mem_bundle_dataTables (h : db.exportMigrationBundle user now workflowId = .ok bundle)
    (t : String) : t ∈ bundle.dataTables.map MigrationDataTableItem.id ↔
      (db.dataTables.get? t).isSome = true ∧
        t ∈ dataTableIdsOf (db.exportedRows user workflowId) := by
  rw [(exportMigrationBundle_ok h).2.2.2]
  constructor
  · intro hmem
    obtain ⟨item, hitem, rfl⟩ := List.mem_map.1 hmem
    obtain ⟨id, hid, hexport⟩ := List.mem_filterMap.1 hitem
    obtain ⟨dt, hget, rfl⟩ := Option.map_eq_some_iff.1 hexport
    exact ⟨Option.isSome_iff_exists.2 ⟨dt, hget⟩, hid⟩
  · rintro ⟨hsome, ht⟩
    obtain ⟨dt, hget⟩ := Option.isSome_iff_exists.1 hsome
    have hexport : ∃ item, db.exportDataTable t = some item ∧ item.id = t := by
      rw [exportDataTable, hget]
      exact ⟨_, rfl, rfl⟩
    obtain ⟨item, hitem, hid⟩ := hexport
    exact List.mem_map.2 ⟨item, List.mem_filterMap.2 ⟨t, ht, hitem⟩, hid⟩

/-! ### What an export takes along -/

/-- References lead from one workflow to another, through workflows that the user may read. -/
def LedTo (db : ProjectDatabase) (user : User) : String → String → Prop :=
  Relation.ReflTransGen fun id id' =>
    ∃ w, db.findWorkflowForUser user id ["workflow:read"] = some w ∧ id' ∈ w.leadsTo

theorem mem_collect_iff_ledTo :
    id ∈ db.collectAllWorkflowIds user workflowId ↔ db.LedTo user workflowId id := by
  have hstep : (fun id id' => id' ∈ db.nextWorkflowIds user id) = fun id id' =>
      ∃ w, db.findWorkflowForUser user id ["workflow:read"] = some w ∧ id' ∈ w.leadsTo := by
    funext id id'
    rw [nextWorkflowIds]
    cases db.findWorkflowForUser user id ["workflow:read"] <;> simp
  rw [mem_collectAllWorkflowIds, LedTo, Worklist.Reaches, hstep]

/-- Something of the workflows that are exported, which are those that references lead to. -/
theorem exists_mem_exportedRows (uses : WorkflowEntity → Prop) :
    (∃ e ∈ db.exportedRows user workflowId, uses e.2) ↔
      ∃ id w, db.workflows.get? id = some w ∧ db.LedTo user workflowId id ∧ uses w := by
  rw [Prod.exists]
  refine exists_congr fun id => exists_congr fun w => ?_
  rw [mem_exportedRows, mem_collect_iff_ledTo, and_assoc]

/-- **An export takes along what its workflows need**: the loop that collects them ends, on cycles,
too; the workflows of the bundle are those that exist of the ones that references lead to, and its
credentials and data tables are those that exist of the ones that these workflows use. -/
theorem exportMigrationBundle_closed
    (hok : db.exportMigrationBundle user now workflowId = .ok bundle) :
    (∃ turns, ∀ more, turns ≤ more → Worklist.run (db.nextWorkflowIds user) more [] [workflowId] =
      db.collectAllWorkflowIds user workflowId) ∧
    (∀ id, id ∈ bundle.workflows.map MigrationWorkflowItem.id ↔
      (db.workflows.get? id).isSome = true ∧ db.LedTo user workflowId id) ∧
    (∀ c, c ∈ bundle.credentials.map MigrationCredentialItem.id ↔
      (db.credentials.get? c).isSome = true ∧ ∃ id w, db.workflows.get? id = some w ∧
        db.LedTo user workflowId id ∧ c ∈ extractCredentialIdsFromNodes w.nodes) ∧
    ∀ t, t ∈ bundle.dataTables.map MigrationDataTableItem.id ↔
      (db.dataTables.get? t).isSome = true ∧ ∃ id w, db.workflows.get? id = some w ∧
        db.LedTo user workflowId id ∧ t ∈ extractDataTableIdsFromNodes w.nodes := by
  refine ⟨⟨Worklist.need (db.nextWorkflowIds user) db.workflows.keys [] [workflowId], ?_⟩,
    fun id => ?_, fun c => ?_, fun t => ?_⟩
  · intro more hmore
    rw [collectAllWorkflowIds, Worklist.collect, Worklist.run_eq_runWith, Worklist.run_eq_runWith]
    exact Worklist.runWith_eq (fun _ _ => List.perm_append_comm) mem_keys_of_next _ hmore
      (Nat.le_refl _)
  · rw [Option.isSome_iff_exists, ← mem_collect_iff_ledTo]
    constructor
    · intro h
      obtain ⟨item, hitem, rfl⟩ := List.mem_map.1 h
      obtain ⟨e, hrow, hexport⟩ :=
        (Except.mapM_eq_ok_iff.1 (exportMigrationBundle_ok hok).2.1).exists_left item hitem
      obtain ⟨path, -, heq⟩ := Except.bind_eq_ok_iff.1 hexport
      obtain rfl := Except.pure_eq_ok_iff.1 heq
      exact ⟨⟨e.2, (mem_exportedRows.1 hrow).1⟩, (mem_exportedRows.1 hrow).2⟩
    · rintro ⟨⟨w, hget⟩, hid⟩
      obtain ⟨item, hitem, hid, -⟩ := mem_bundle_workflows hok (mem_exportedRows.2 ⟨hget, hid⟩)
      exact List.mem_map.2 ⟨item, hitem, hid⟩
  · rw [mem_bundle_credentials hok, credentialIdsOf, List.mem_flatMap]
    exact and_congr_right fun _ =>
      exists_mem_exportedRows fun w => c ∈ extractCredentialIdsFromNodes w.nodes
  · rw [mem_bundle_dataTables hok, dataTableIdsOf, OrderedSet.mem_ofList, List.mem_flatMap]
    exact and_congr_right fun _ =>
      exists_mem_exportedRows fun w => t ∈ extractDataTableIdsFromNodes w.nodes

/-! ### Databases that differ in what may not be read -/

section SameReadable

variable (h : SameReadable user db db')
include h

theorem SameReadable.sharingGives : db'.sharingGives user = db.sharingGives user := by
  rw [h.rest]
  rfl

theorem SameReadable.findWorkflowForUser (id : String) :
    db'.findWorkflowForUser user id ["workflow:read"] =
      db.findWorkflowForUser user id ["workflow:read"] := by
  unfold ProjectDatabase.findWorkflowForUser
  rw [h.sharingGives]
  exact filter_get?_eq h.workflows id

theorem SameReadable.mem_collect {id : String} :
    id ∈ db'.collectAllWorkflowIds user workflowId ↔
      id ∈ db.collectAllWorkflowIds user workflowId := by
  have hnext : db'.nextWorkflowIds user = db.nextWorkflowIds user := by
    funext id
    rw [nextWorkflowIds, nextWorkflowIds, h.findWorkflowForUser]
  rw [mem_collectAllWorkflowIds, mem_collectAllWorkflowIds, hnext]

end SameReadable

/-! ### Only readable objects are revealed -/

/-- If all may be read, the bundle is the same. -/
theorem LeadsToReadable.exportMigrationBundle_eq (hread : db.LeadsToReadable user workflowId)
    (h : SameReadable user db db') : db'.exportMigrationBundle user now workflowId =
      db.exportMigrationBundle user now workflowId := by
  have hreadable : ∀ id ∈ db.collectAllWorkflowIds user workflowId,
      ∃ w, db.workflows.get? id = some w ∧ db.canReadWorkflow user w = true := by
    intro id hid
    obtain ⟨w, hfind, -⟩ := hread id (leadsTo_of_mem_collect hid)
    exact ⟨w, Option.filter_eq_some_iff.1 hfind⟩
  have hrows : db'.exportedRows user workflowId = db.exportedRows user workflowId :=
    (findIn_congr fun _ => h.mem_collect).trans (findIn_eq h.workflows hreadable)
  have hworkflow : ∀ id w, (id, w) ∈ db.exportedRows user workflowId →
      db.findWorkflowForUser user id ["workflow:read"] = some w ∧
        Relation.ReflTransGen db.LeadsTo workflowId id := by
    intro id w hrow
    obtain ⟨hget, hid⟩ := mem_exportedRows.1 hrow
    obtain ⟨w', hfind, -⟩ := hread id (leadsTo_of_mem_collect hid)
    obtain rfl := Option.some.inj (hget.symm.trans (Option.filter_eq_some_iff.1 hfind).1)
    exact ⟨hfind, leadsTo_of_mem_collect hid⟩
  have hcredentials : findIn db'.credentials (credentialIdsOf (db.exportedRows user workflowId)) =
      findIn db.credentials (credentialIdsOf (db.exportedRows user workflowId)) := by
    refine findIn_eq h.credentials fun c hc => ?_
    obtain ⟨⟨id, w⟩, hrow, hcw⟩ := List.mem_flatMap.1 hc
    obtain ⟨hfind, hreach⟩ := hworkflow id w hrow
    obtain ⟨w', hfind', hall, -⟩ := hread id hreach
    obtain rfl := Option.some.inj (hfind.symm.trans hfind')
    obtain ⟨cred, hcred⟩ := Option.isSome_iff_exists.1 (hall c hcw)
    exact ⟨cred, Option.filter_eq_some_iff.1 hcred⟩
  have htables : ∀ t ∈ (dataTableIdsOf (db.exportedRows user workflowId)).elems,
      db'.exportDataTable t = db.exportDataTable t := by
    intro t ht
    obtain ⟨⟨id, w⟩, hrow, htw⟩ := List.mem_flatMap.1 (OrderedSet.mem_ofList.1 ht)
    obtain ⟨hfind, hreach⟩ := hworkflow id w hrow
    obtain ⟨w', hfind', -, hall⟩ := hread id hreach
    obtain rfl := Option.some.inj (hfind.symm.trans hfind')
    obtain ⟨dt, hget, hdt⟩ := hall t htw
    have hget' : db'.dataTables.get? t = some dt := (mem_readableEntries.1
      (h.dataTables ▸ mem_readableEntries.2 ⟨hget, hdt⟩ :
        (t, dt) ∈ readableEntries (db.canReadDataTable user) db'.dataTables)).1
    rw [exportDataTable, exportDataTable, hget, hget', h.rest]
    rfl
  have htags : db'.exportTagMappings (db'.collectAllWorkflowIds user workflowId) =
      db.exportTagMappings (db.collectAllWorkflowIds user workflowId) := by
    rw [h.rest]
    unfold exportTagMappings
    simp only [← h.rest, h.mem_collect]
  have hexport : db'.exportWorkflow = db.exportWorkflow := by
    rw [h.rest]
    rfl
  have hvariables : db'.exportVariables = db.exportVariables := by
    rw [h.rest]
    rfl
  have htagTable : db'.tags = db.tags := by
    rw [h.rest]
  unfold ProjectDatabase.exportMigrationBundle
  simp only [h.findWorkflowForUser, hrows, hexport, hvariables, htags, htagTable, hcredentials,
    List.filterMap_congr htables]

/-- A workflow that a readable one leads to is in the bundle, or a hidden workflow with its id would
be. -/
theorem RevealsOnlyReadable.readable
    (hok : db.exportMigrationBundle user now workflowId = .ok bundle)
    (h : RevealsOnlyReadable db user now workflowId bundle)
    (hid : id ∈ db.collectAllWorkflowIds user workflowId) :
    (db.findWorkflowForUser user id ["workflow:read"]).isSome = true := by
  by_contra hnot
  cases hget : db.workflows.get? id with
  | some w =>
    obtain ⟨item, hitem, rfl, -⟩ := mem_bundle_workflows hok (mem_exportedRows.2 ⟨hget, hid⟩)
    exact hnot (h.workflows item hitem)
  | none =>
    -- the database with a workflow of this id that nobody may read
    have hsame : SameReadable user db { db with workflows := db.workflows.set id { name := "" } } :=
      ⟨rfl, readableEntries_set hget rfl, rfl, rfl⟩
    have hok' := h.bundle _ hsame
    obtain ⟨item, -, -, hexport⟩ := mem_bundle_workflows hok'
      (mem_exportedRows.2 ⟨Dict.get?_set_self _ _ _, hsame.mem_collect.2 hid⟩)
    obtain ⟨path, hpath, -⟩ := Except.bind_eq_ok_iff.1 hexport
    cases hpath

/-- A credential that is used may be read, or the bundle would change with it. -/
theorem RevealsOnlyReadable.credential
    (hok : db.exportMigrationBundle user now workflowId = .ok bundle)
    (h : RevealsOnlyReadable db user now workflowId bundle) {c : String}
    (hc : c ∈ credentialIdsOf (db.exportedRows user workflowId)) :
    (db.findCredentialForUser user c ["credential:read"]).isSome = true := by
  by_contra hnot
  -- whether the bundle has the credential tells whether it is there
  have htells : ∀ credentials, SameReadable user db { db with credentials } →
      ((credentials.get? c).isSome = true ↔ (db.credentials.get? c).isSome = true) := by
    intro credentials hsame
    have hc' : c ∈ credentialIdsOf
        (({ db with credentials } : ProjectDatabase).exportedRows user workflowId) := hc
    have hiff := (mem_bundle_credentials (h.bundle _ hsame) c).symm.trans
      (mem_bundle_credentials hok c)
    rwa [and_iff_left hc, and_iff_left hc'] at hiff
  cases hget : db.credentials.get? c with
  | some cred =>
    have hread : db.canReadCredential user cred = false := by
      by_contra hread
      have hread' : db.canReadCredential user cred = true := by simpa using hread
      have hfind : db.findCredentialForUser user c ["credential:read"] = some cred :=
        Option.filter_eq_some_iff.2 ⟨hget, hread'⟩
      exact hnot (by simp [hfind])
    have hiff := htells (db.credentials.erase c)
      ⟨rfl, rfl, readableEntries_erase hget hread, rfl⟩
    simp [hget] at hiff
  | none =>
    have hiff := htells (db.credentials.set c { name := "", type := "" })
      ⟨rfl, rfl, readableEntries_set hget rfl, rfl⟩
    simp [hget] at hiff

theorem exists_fresh {α : Type} (table : Dict String α) : ∃ id, table.get? id = none := by
  obtain ⟨id, hid⟩ := Infinite.exists_notMem_finset table.keys.toFinset
  refine ⟨id, ?_⟩
  rw [List.mem_toFinset, Dict.mem_keys_iff] at hid
  simpa using hid

/-- A data table that is used may be read, or the bundle would change with it. -/
theorem RevealsOnlyReadable.dataTable
    (hok : db.exportMigrationBundle user now workflowId = .ok bundle)
    (h : RevealsOnlyReadable db user now workflowId bundle) {t : String}
    (ht : t ∈ dataTableIdsOf (db.exportedRows user workflowId)) :
    ∃ dt, db.dataTables.get? t = some dt ∧ db.canReadDataTable user dt = true := by
  by_contra hnot
  have htells : ∀ dataTables, SameReadable user db { db with dataTables } →
      ((dataTables.get? t).isSome = true ↔ (db.dataTables.get? t).isSome = true) := by
    intro dataTables hsame
    have ht' : t ∈ dataTableIdsOf
        (({ db with dataTables } : ProjectDatabase).exportedRows user workflowId) := ht
    have hiff := (mem_bundle_dataTables (h.bundle _ hsame) t).symm.trans
      (mem_bundle_dataTables hok t)
    rwa [and_iff_left ht, and_iff_left ht'] at hiff
  cases hget : db.dataTables.get? t with
  | some dt =>
    have hread : db.canReadDataTable user dt = false := by
      by_contra hread
      exact hnot ⟨dt, hget, by simpa using hread⟩
    have hiff := htells (db.dataTables.erase t)
      ⟨rfl, rfl, rfl, readableEntries_erase hget hread⟩
    simp [hget] at hiff
  | none =>
    -- a data table of a project that does not exist
    obtain ⟨projectId, hproject⟩ := exists_fresh db.projects
    have hread : db.canReadDataTable user { name := "", projectId } = false := by
      simp [canReadDataTable, getProjectWithScope, hproject]
    have hiff := htells (db.dataTables.set t { name := "", projectId })
      ⟨rfl, rfl, rfl, readableEntries_set hget hread⟩
    simp [hget] at hiff

/-- **An export reveals only what the user may read** if and only if all that the workflows lead to
and use exists and may be read by the user. -/
theorem revealsOnlyReadable_iff (hok : db.exportMigrationBundle user now workflowId = .ok bundle) :
    RevealsOnlyReadable db user now workflowId bundle ↔ db.LeadsToReadable user workflowId := by
  constructor
  · intro h
    have hcollect : ∀ id, Relation.ReflTransGen db.LeadsTo workflowId id →
        id ∈ db.collectAllWorkflowIds user workflowId := by
      intro id hreach
      induction hreach with
      | refl => exact mem_collectAllWorkflowIds.2 .refl
      | tail _ hstep ih =>
        obtain ⟨w, hfind⟩ := Option.isSome_iff_exists.1 (h.readable hok ih)
        obtain ⟨w', hget, hmem⟩ := hstep
        obtain rfl := Option.some.inj (hget.symm.trans (Option.filter_eq_some_iff.1 hfind).1)
        refine mem_collectAllWorkflowIds.2 ((mem_collectAllWorkflowIds.1 ih).tail ?_)
        rwa [nextWorkflowIds_eq hfind]
    intro id hreach
    have hid := hcollect id hreach
    obtain ⟨w, hfind⟩ := Option.isSome_iff_exists.1 (h.readable hok hid)
    have hrow : (id, w) ∈ db.exportedRows user workflowId :=
      mem_exportedRows.2 ⟨(Option.filter_eq_some_iff.1 hfind).1, hid⟩
    refine ⟨w, hfind, fun c hc => h.credential hok ?_, fun t ht => h.dataTable hok ?_⟩
    · exact List.mem_flatMap.2 ⟨(id, w), hrow, hc⟩
    · exact OrderedSet.mem_ofList.2 (List.mem_flatMap.2 ⟨(id, w), hrow, ht⟩)
  · intro hread
    refine ⟨fun item hitem => ?_, fun db' hsame => (hread.exportMigrationBundle_eq hsame).trans hok⟩
    obtain ⟨⟨id, w⟩, hrow, hexport⟩ :=
      (Except.mapM_eq_ok_iff.1 (exportMigrationBundle_ok hok).2.1).exists_left item hitem
    obtain ⟨path, -, heq⟩ := Except.bind_eq_ok_iff.1 hexport
    obtain rfl := Except.pure_eq_ok_iff.1 heq
    obtain ⟨w', hfind, -⟩ := hread id (leadsTo_of_mem_collect (mem_exportedRows.1 hrow).2)
    exact Option.isSome_iff_exists.2 ⟨w', hfind⟩

/-- A user with a project of one workflow, which runs the workflow of another project. -/
def hiddenSubworkflow : ProjectDatabase where
  projects := .ofList [("mine", { name := "Mine" }), ("other", { name := "Other" })]
  projectRelations := [{ projectId := "mine", userId := "user", role := "project:viewer" }]
  roles := [{ slug := "project:viewer", roleType := .project, scopes := ["workflow:read"] },
    { slug := "workflow:owner", roleType := .workflow, scopes := ["workflow:read"] }]
  workflows := .ofList [
    ("main1", {
      name := "Main"
      nodes := [[("type", .str "n8n-nodes-base.executeWorkflow"),
        ("parameters", .obj [("workflowId", .str "hidden")])]]
      shared := [{ projectId := "mine", role := "workflow:owner" }] }),
    ("hidden", { name := "Hidden", shared := [{ projectId := "other", role := "workflow:owner" }] })]

theorem exportMigrationBundle_closed_hidden :
    ∃ bundle, hiddenSubworkflow.exportMigrationBundle { id := "user" } "" "main1" = .ok bundle ∧
      "hidden" ∈ bundle.workflows.map MigrationWorkflowItem.id := by
  have hok : hiddenSubworkflow.exportMigrationBundle { id := "user" } "" "main1" = .ok _ := rfl
  refine ⟨_, hok, ((exportMigrationBundle_closed hok).2.1 "hidden").2 ⟨rfl, .single ⟨_, rfl, ?_⟩⟩⟩
  decide

theorem revealsOnlyReadable_single :
    let db : ProjectDatabase := { hiddenSubworkflow with
      workflows := .ofList [("main1", {
        name := "Main"
        shared := [{ projectId := "mine", role := "workflow:owner" }] })] }
    ∃ bundle, db.exportMigrationBundle { id := "user" } "" "main1" = .ok bundle ∧
      RevealsOnlyReadable db { id := "user" } "" "main1" bundle := by
  intro db
  refine ⟨_, rfl, (revealsOnlyReadable_iff rfl).2 fun id hreach => ?_⟩
  have hid : id = "main1" := by
    induction hreach with
    | refl => rfl
    | tail _ hstep ih =>
      obtain ⟨w, hget, hmem⟩ := hstep
      subst ih
      obtain rfl := Option.some.inj hget
      cases hmem
  subst hid
  exact ⟨_, rfl, by decide, by decide⟩

/-- The condition is needed. -/
theorem exports_unreadable : ¬ ∀ (db : ProjectDatabase) (user : User) (now workflowId : String)
    (bundle : MigrationBundle), db.exportMigrationBundle user now workflowId = .ok bundle →
      RevealsOnlyReadable db user now workflowId bundle := by
  intro h
  have hread := (h hiddenSubworkflow { id := "user" } "" "main1" _ rfl).workflows _
    (List.mem_cons_of_mem _ List.mem_cons_self)
  revert hread
  decide

end ProjectDatabase

end N8n
