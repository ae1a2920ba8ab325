import N8n.Migration.ImportGrants
import N8n.Migration.ImportTargets

/-!
# The loops of an import, a second time

Run on what they have left, the loops over the variables, the credentials, the data tables, the tags
and the tag mappings find all that they look for: they fill the same maps and write nothing.

* `ImportState.importVariables_again`, `ImportState.importCredentials_again`,
  `ImportState.importDataTables_again`, `ImportState.importTags_again`,
  `ImportState.importTagMappings_again`.
-/

namespace N8n

/-- An id that is not in use has no row. -/
theorem ProjectDatabase.get?_eq_none_of_keys_subset {α : Type*} {db : ProjectDatabase}
    {table : Dict String α} {id : String} (hsub : table.keys ⊆ db.ids) (h : id ∉ db.ids) :
    table.get? id = none := by
  by_contra hne
  exact h (hsub ((Dict.mem_keys_iff _ _).2 (Option.isSome_iff_ne_none.2 hne)))

namespace ImportState

variable {env : ImportEnvironment} {user : User} {defaultProjectId : String} {s s' t : ImportState}

/-! ### Variables -/

variable {db db' : ProjectDatabase} {name id : String} {projectIds : List String}
  {tags : List MigrationTagItem}

theorem findGlobalVariable_of_prefix {key : String}
    (h : db.«variables».entries <+: db'.«variables».entries)
    (hfind : (db.findGlobalVariable key).isSome) : (db'.findGlobalVariable key).isSome := by
  obtain ⟨e, he⟩ := Option.isSome_iff_exists.1 hfind
  have hfound : db'.findGlobalVariable key = some e := h.find?_eq_some he
  rw [hfound]
  rfl

/-- A variable is there after its turn. -/
theorem importVariable_adds (henv : env.Fresh) (s : ImportState) (v : MigrationVariableItem) :
    s.db.«variables».entries <+: (s.importVariable env v).db.«variables».entries ∧
      ((s.importVariable env v).db.findGlobalVariable v.key).isSome := by
  unfold importVariable
  cases hfind : s.db.findGlobalVariable v.key with
  | some e => exact ⟨List.prefix_refl _, by rw [hfind]; rfl⟩
  | none =>
    have hnew : s.db.«variables».get? (env.newId s.db 0) = none :=
      ProjectDatabase.get?_eq_none_of_keys_subset
        (fun id hid => by simp [ProjectDatabase.ids, hid]) (henv s.db 0)
    have hentries := Dict.entries_set_of_get?_eq_none hnew
      { key := v.key, type := v.type, value := v.value }
    dsimp only
    constructor
    · rw [hentries]
      exact List.prefix_append _ _
    · unfold ProjectDatabase.findGlobalVariable at hfind ⊢
      rw [hentries, List.find?_append, hfind]
      simp

theorem importVariables_again (henv : env.Fresh) {vs : List MigrationVariableItem}
    (h : vs.foldl (fun s v => s.importVariable env v) s = s')
    (hle : s'.db.«variables».entries <+: t.db.«variables».entries) :
    vs.foldl (fun s v => s.importVariable env v) t = t := by
  subst h
  refine (Except.foldl_again
    (fun s t : ImportState => s.db.«variables».entries <+: t.db.«variables».entries)
    (fun _ _ => True) id
    (fun s => List.prefix_refl _) (fun _ _ _ => List.IsPrefix.trans)
    (fun s t t' h (ht : t' = t) => ht ▸ h) (fun s v => (importVariable_adds henv s v).1)
    (fun s v t _ hle => ⟨trivial, ?_⟩) (s := s) (t := t) trivial hle).2
  have hfound := findGlobalVariable_of_prefix hle (importVariable_adds henv s v).2
  obtain ⟨e, he⟩ := Option.isSome_iff_exists.1 hfound
  show t.importVariable env v = t
  unfold importVariable
  rw [he]

/-! ### Credentials -/

theorem findCredential_of_fst {type : String} {c : CredentialsEntity}
    (h : (db.findCredentialByNameAndType name type).map Prod.fst = some id)
    (hc : db.credentials.get? id = some c) :
    db.findCredentialByNameAndType name type = some (id, c) := by
  obtain ⟨⟨id', c'⟩, hfind, heq⟩ := Option.map_eq_some_iff.1 h
  obtain rfl : id' = id := heq
  have hc' := ProjectDatabase.get?_of_findCredential hfind
  rw [hfind, Option.some.inj (hc.symm.trans hc')]

/-- There are more credentials, and more of them are shared with the projects. -/
structure CredentialsLe (projectIds : List String) (db db' : ProjectDatabase) : Prop where
  isPrefix : db.credentialIndex <+: db'.credentialIndex
  shared : ∀ id c, db.credentials.get? id = some c → ∃ c', db'.credentials.get? id = some c' ∧
    (c.sharedToImport projectIds → c'.sharedToImport projectIds)

theorem CredentialsLe.refl (projectIds : List String) (db : ProjectDatabase) :
    CredentialsLe projectIds db db :=
  ⟨List.prefix_refl _, fun _ c hc => ⟨c, hc, fun h => h⟩⟩

theorem CredentialsLe.trans {db₁ db₂ db₃ : ProjectDatabase} (h : CredentialsLe projectIds db₁ db₂)
    (h' : CredentialsLe projectIds db₂ db₃) : CredentialsLe projectIds db₁ db₃ := by
  refine ⟨h.isPrefix.trans h'.isPrefix, fun id c hc => ?_⟩
  obtain ⟨c', hc', hshared⟩ := h.shared id c hc
  obtain ⟨c'', hc'', hshared'⟩ := h'.shared id c' hc'
  exact ⟨c'', hc'', hshared' ∘ hshared⟩

/-- A credential that is found in one of the projects is found there later. -/
theorem CredentialsLe.findCredential (h : CredentialsLe projectIds db db') {type : String}
    {e : String × CredentialsEntity} (hfind : db.findCredentialByNameAndType name type = some e)
    (hshared : e.2.sharedToImport projectIds) :
    ∃ c, db'.findCredentialByNameAndType name type = some (e.1, c) ∧
      c.sharedToImport projectIds := by
  obtain ⟨c, hc, hto⟩ := h.shared e.1 e.2 (ProjectDatabase.get?_of_findCredential hfind)
  refine ⟨c, findCredential_of_fst ?_ hc, hto hshared⟩
  have hfst := congrArg (Option.map Prod.fst) hfind
  rw [ProjectDatabase.findCredential_fst] at hfst ⊢
  obtain ⟨row, hrow, heq⟩ := Option.map_eq_some_iff.1 hfst
  rw [h.isPrefix.find?_eq_some hrow, Option.map_some, heq]

/-- A credential is there after its turn, and shared with a project of the import. -/
theorem importCredential_adds (henv : env.Fresh) (hdefault : defaultProjectId ∈ projectIds)
    (s : ImportState) (item : MigrationCredentialItem) :
    let s' := s.importCredential env defaultProjectId projectIds item
    CredentialsLe projectIds s.db s'.db ∧ ∃ e,
      s'.db.findCredentialByNameAndType item.name item.type = some e ∧
      e.2.sharedToImport projectIds ∧ s'.credentialIdMap = s.credentialIdMap.set item.id e.1 := by
  unfold importCredential
  dsimp only
  cases hfind : s.db.findCredentialByNameAndType item.name item.type with
  | none =>
    have hnew : s.db.credentials.get? (env.newId s.db 0) = none :=
      ProjectDatabase.get?_eq_none_of_keys_subset
        (fun id hid => ProjectDatabase.mem_ids_of_credential hid) (henv s.db 0)
    have hentries := Dict.entries_set_of_get?_eq_none hnew
    let entity : CredentialsEntity := {
      name := item.name
      type := item.type
      data := env.createEncryptedData (env.newId s.db 0) item.name item.type
      isGlobal := true
      shared := [{ projectId := defaultProjectId, role := "credential:owner" }] }
    dsimp only
    refine ⟨⟨?_, fun id c hc => ⟨c, ?_, fun h => h⟩⟩, (env.newId s.db 0, entity), ?_, ?_, rfl⟩
    · simp only [ProjectDatabase.credentialIndex]
      rw [Dict.index_set_of_get?_eq_none hnew]
      exact List.prefix_append _ _
    · refine (Dict.get?_set_ne _ _ ?_).trans hc
      rintro rfl
      rw [hnew] at hc
      cases hc
    · unfold ProjectDatabase.findCredentialByNameAndType at hfind ⊢
      rw [hentries, List.find?_append, hfind]
      simp [entity]
    · simp [CredentialsEntity.sharedToImport, hdefault, entity]
  | some e =>
    obtain ⟨id, existing⟩ := e
    have hexisting := ProjectDatabase.get?_of_findCredential hfind
    cases hshared : existing.sharedToImport projectIds with
    | true =>
      simp only [hshared, if_true]
      exact ⟨.refl _ _, (id, existing), hfind, hshared, rfl⟩
    | false =>
      simp only [hshared, Bool.false_eq_true, if_false]
      have hindex : ∀ shared, Dict.index (s.db.credentials.set id { existing with shared })
          (fun c => (c.name, c.type)) = s.db.credentialIndex :=
        fun shared => Dict.index_set_of_eq hexisting rfl
      unfold shareCredential
      dsimp only
      refine ⟨⟨?_, fun id' c hc => ?_⟩, (id, _), findCredential_of_fst ?_ (Dict.get?_set_self _ _ _),
        ?_, rfl⟩
      · simp only [ProjectDatabase.credentialIndex]
        rw [hindex]
        exact List.prefix_refl _
      · by_cases heq : id' = id
        · subst heq
          obtain rfl : existing = c := Option.some.inj (hexisting.symm.trans hc)
          exact ⟨_, Dict.get?_set_self _ _ _, fun h => by rw [hshared] at h; cases h⟩
        · exact ⟨c, (Dict.get?_set_ne _ _ heq).trans hc, fun h => h⟩
      · have hfst := congrArg (Option.map Prod.fst) hfind
        rw [ProjectDatabase.findCredential_fst] at hfst ⊢
        simp only [ProjectDatabase.credentialIndex]
        rw [hindex]
        exact hfst
      · simp [CredentialsEntity.sharedToImport, hdefault]

theorem importCredentials_again (henv : env.Fresh) {items : List MigrationCredentialItem}
    (hdefault : defaultProjectId ∈ projectIds)
    (h : items.foldl (fun s c => s.importCredential env defaultProjectId projectIds c) s = s')
    (hmap : s.credentialIdMap = t.credentialIdMap) (hle : CredentialsLe projectIds s'.db t.db) :
    items.foldl (fun s c => s.importCredential env defaultProjectId projectIds c) t =
      { t with credentialIdMap := s'.credentialIdMap } := by
  subst h
  have hagain := Except.foldl_again (fun s t => CredentialsLe projectIds s.db t.db)
    (fun s t => s.credentialIdMap = t.credentialIdMap)
    (fun t : ImportState => { t with credentialIdMap := .empty }) (l := items)
    (f := fun s c => s.importCredential env defaultProjectId projectIds c)
    (fun s => .refl _ _) (fun _ _ _ => .trans) ?_
    (fun s c => (importCredential_adds henv hdefault s c).1) ?_ hmap hle
  · obtain ⟨hsame, hview⟩ := hagain
    rw [hsame]
    exact congrArg (fun x : ImportState => { x with credentialIdMap := (items.foldl
      (fun (s : ImportState) c => s.importCredential env defaultProjectId projectIds c)
        t).credentialIdMap }) hview
  · intro s t t' h hview
    have hdb := congrArg ImportState.db hview
    exact (congrArg (CredentialsLe projectIds s.db) hdb).mpr h
  · intro s item t hmap hle
    obtain ⟨-, e, he, hshared, hset⟩ := importCredential_adds henv hdefault s item
    obtain ⟨c, hc, hto⟩ := hle.findCredential he hshared
    have hstep : t.importCredential env defaultProjectId projectIds item =
        { t with credentialIdMap := t.credentialIdMap.set item.id e.1 } := by
      unfold importCredential
      rw [hc]
      dsimp only
      rw [if_pos hto]
    rw [hstep, hset, hmap]
    exact ⟨rfl, rfl⟩

/-! ### Data tables -/

/-- What data tables are looked up by. -/
def dataTableIndex (db : ProjectDatabase) : List (String × String × String) :=
  db.dataTables.index fun table => (table.name, table.projectId)

theorem findDataTable_fst (db : ProjectDatabase) (name projectId : String) :
    (db.findDataTable name projectId).map Prod.fst =
      ((dataTableIndex db).find? fun e => e.2.1 = name && e.2.2 = projectId).map Prod.fst :=
  Dict.map_fst_find?_entries db.dataTables (fun table => (table.name, table.projectId))
    fun e => e.2.1 = name && e.2.2 = projectId

theorem dataTableIndex_insertRows {rows : List JsObject} (h : db.insertRows env id rows = .ok db') :
    dataTableIndex db' = dataTableIndex db := by
  unfold ProjectDatabase.insertRows at h
  split at h
  · cases h
    rfl
  · next table htable =>
    split at h
    · cases h
      rfl
    · split at h
      · cases h
      · cases h
        exact Dict.index_set_of_eq htable rfl

theorem dataTableIndex_createDataTable (henv : env.Fresh) {projectId : String}
    {columns : List DataTableColumn}
    (h : db.createDataTable env projectId name columns = .ok (db', id)) :
    dataTableIndex db' = dataTableIndex db ++ [(id, name, projectId)] := by
  have hnew : db.dataTables.get? (env.newId db 0) = none :=
    ProjectDatabase.get?_eq_none_of_keys_subset
      (fun id hid => by simp [ProjectDatabase.ids, hid]) (henv db 0)
  unfold ProjectDatabase.createDataTable at h
  dsimp only at h
  split at h
  · cases h
  · split at h
    · cases h
      exact Dict.index_set_of_get?_eq_none hnew _
    · cases h

/-- A data table is there after its turn. -/
theorem importDataTable_adds (henv : env.Fresh) {dt : MigrationDataTableItem}
    (h : s.importDataTable env defaultProjectId dt = .ok s') :
    dataTableIndex s.db <+: dataTableIndex s'.db ∧ ∃ id,
      (s'.db.findDataTable dt.name (s.projectOf defaultProjectId dt.path)).map Prod.fst = some id ∧
      s'.dataTableIdMap = s.dataTableIdMap.set dt.id id := by
  unfold importDataTable at h
  dsimp only at h
  cases hfind : s.db.findDataTable dt.name (s.projectOf defaultProjectId dt.path) with
  | some e =>
    rw [hfind] at h
    cases h
    exact ⟨List.prefix_refl _, e.1, by rw [hfind]; rfl, rfl⟩
  | none =>
    rw [hfind] at h
    obtain ⟨⟨db, id⟩, hcreate, hrest⟩ := Except.bind_eq_ok_iff.1 h
    obtain ⟨db', hinsert, hpure⟩ := Except.bind_eq_ok_iff.1 hrest
    cases hpure
    have hindex := (dataTableIndex_insertRows hinsert).trans
      (dataTableIndex_createDataTable henv hcreate)
    refine ⟨?_, id, ?_, rfl⟩
    · rw [hindex]
      exact List.prefix_append _ _
    · have hnone := congrArg (Option.map Prod.fst) hfind
      rw [findDataTable_fst] at hnone ⊢
      rw [hindex, List.find?_append, Option.map_eq_none_iff.1 hnone]
      simp

theorem importDataTables_again (henv : env.Fresh) {dts : List MigrationDataTableItem}
    (h : dts.foldlM (fun (s : ImportState) dt => s.importDataTable env defaultProjectId dt) s =
      .ok s')
    (hprojects : ∀ path, s.projectOf defaultProjectId path = t.projectOf defaultProjectId path)
    (hmap : s.dataTableIdMap = t.dataTableIdMap) (hle : dataTableIndex s'.db <+: dataTableIndex t.db) :
    ∃ result, dts.foldlM (fun (s : ImportState) dt => s.importDataTable env defaultProjectId dt) t =
      .ok { t with dataTableIdMap := s'.dataTableIdMap, result } := by
  have hagain := Except.foldlM_again (fun s t => dataTableIndex s.db <+: dataTableIndex t.db)
    (fun s t => s.dataTableIdMap = t.dataTableIdMap ∧
      ∀ path, s.projectOf defaultProjectId path = t.projectOf defaultProjectId path)
    (fun t : ImportState => { t with dataTableIdMap := .empty, result := {} })
    (fun s => List.prefix_refl _) (fun _ _ _ => List.IsPrefix.trans) ?_
    (fun s dt s' h => (importDataTable_adds henv h).1) ?_ h
    ⟨hmap, hprojects⟩ hle
  · obtain ⟨t', ht', ⟨hsame, -⟩, hview⟩ := hagain
    refine ⟨t'.result, ht'.trans (congrArg Except.ok ?_)⟩
    rw [hsame]
    exact congrArg (fun x : ImportState => { x with
      dataTableIdMap := t'.dataTableIdMap, result := t'.result }) hview
  · intro s t t' h hview
    have hdb := congrArg ImportState.db hview
    exact (congrArg (fun db => dataTableIndex s.db <+: dataTableIndex db) hdb).mpr h
  · rintro s dt s' t h ⟨hmap, hprojects⟩ hle
    obtain ⟨-, id, hid, hset⟩ := importDataTable_adds henv h
    obtain ⟨_, _, _, hs'⟩ := (importDataTable_ends s dt).of_ok h
    have hfst : (t.db.findDataTable dt.name (t.projectOf defaultProjectId dt.path)).map Prod.fst =
        some id := by
      rw [← hprojects]
      rw [findDataTable_fst] at hid ⊢
      obtain ⟨row, hrow, heq⟩ := Option.map_eq_some_iff.1 hid
      rw [hle.find?_eq_some hrow, Option.map_some, heq]
    obtain ⟨e, he, rfl⟩ := Option.map_eq_some_iff.1 hfst
    have hstep : t.importDataTable env defaultProjectId dt = .ok { t with
        dataTableIdMap := t.dataTableIdMap.set dt.id e.1
        result := { t.result with dataTablesUpdated := t.result.dataTablesUpdated + 1 } } := by
      unfold importDataTable
      dsimp only
      rw [he]
    refine ⟨_, hstep, ⟨by rw [hset, hmap], fun path => ?_⟩, rfl⟩
    rw [hs']
    exact hprojects path

/-! ### Tags -/

theorem importTag_adds (henv : env.Fresh) (s : ImportState) (tag : MigrationTagItem) :
    s.db.tags.entries <+: (s.importTag env tag).db.tags.entries ∧
      ∃ e, (s.importTag env tag).db.findTagByName tag.name = some e ∧
        (s.importTag env tag).tagNameToId = s.tagNameToId.set tag.name e.1 := by
  unfold importTag
  cases hfind : s.db.findTagByName tag.name with
  | some e => exact ⟨List.prefix_refl _, e, hfind, rfl⟩
  | none =>
    have hnew : s.db.tags.get? (env.newId s.db 0) = none :=
      ProjectDatabase.get?_eq_none_of_keys_subset
        (fun id hid => by simp [ProjectDatabase.ids, hid]) (henv s.db 0)
    have hentries := Dict.entries_set_of_get?_eq_none hnew tag.name
    dsimp only
    refine ⟨?_, (env.newId s.db 0, tag.name), ?_, rfl⟩
    · rw [hentries]
      exact List.prefix_append _ _
    · unfold ProjectDatabase.findTagByName at hfind ⊢
      rw [hentries, List.find?_append, hfind]
      simp

theorem importTags_again (henv : env.Fresh)
    (h : tags.foldl (fun s tag => s.importTag env tag) s = s')
    (hmap : s.tagNameToId = t.tagNameToId) (hle : s'.db.tags.entries <+: t.db.tags.entries) :
    tags.foldl (fun s tag => s.importTag env tag) t =
      { t with tagNameToId := s'.tagNameToId } := by
  subst h
  have hagain := Except.foldl_again (fun s t => s.db.tags.entries <+: t.db.tags.entries)
    (fun s t => s.tagNameToId = t.tagNameToId)
    (fun t : ImportState => { t with tagNameToId := .empty }) (l := tags)
    (f := fun s tag => s.importTag env tag)
    (fun s => List.prefix_refl _) (fun _ _ _ => List.IsPrefix.trans) ?_
    (fun s tag => (importTag_adds henv s tag).1) ?_ hmap hle
  · obtain ⟨hsame, hview⟩ := hagain
    rw [hsame]
    exact congrArg (fun x : ImportState => { x with
      tagNameToId := (tags.foldl (fun (s : ImportState) tag => s.importTag env tag) t).tagNameToId })
        hview
  · intro s t t' h hview
    have hdb := congrArg ImportState.db hview
    exact (congrArg (fun db : ProjectDatabase => s.db.tags.entries <+: db.tags.entries) hdb).mpr h
  · intro s tag t hmap hle
    obtain ⟨-, e, he, hset⟩ := importTag_adds henv s tag
    have hfound : t.db.findTagByName tag.name = some e := hle.find?_eq_some he
    have hstep :
    t.importTag env tag = { t with tagNameToId := t.tagNameToId.set tag.name e.1 } := by
      unfold importTag
      rw [hfound]
    rw [hstep, hset, hmap]
    exact ⟨rfl, rfl⟩

/-! ### Tag mappings -/

/-- The mapping of the target that a mapping of the bundle stands for. -/
def mappingOf (s : ImportState) (tags : List MigrationTagItem) (m : MigrationTagMappingItem) :
    Option WorkflowTagMapping :=
  match s.workflowIdMap.get? m.workflowId,
    (tags.find? fun t => t.id = m.tagId).bind fun t => s.tagNameToId.get? t.name with
  | some workflowId, some tagId => some { workflowId, tagId }
  | _, _ => none

theorem importTagMapping_eq (s : ImportState) (tags : List MigrationTagItem)
    (m : MigrationTagMappingItem) : s.importTagMapping tags m =
      match s.mappingOf tags m with
      | none => s
      | some mapping =>
        if mapping ∈ s.db.tagMappings then s
        else { s with db := { s.db with tagMappings := s.db.tagMappings ++ [mapping] } } := by
  unfold importTagMapping mappingOf
  dsimp only
  generalize (tags.find? fun t => t.id = m.tagId).bind (fun t => s.tagNameToId.get? t.name) = tagId
  cases s.workflowIdMap.get? m.workflowId with
  | none => rfl
  | some workflowId =>
    cases tagId with
    | none => rfl
    | some tagId => rfl

theorem importTagMapping_of_mem {m : MigrationTagMappingItem}
    (h : ∀ mapping, s.mappingOf tags m = some mapping → mapping ∈ s.db.tagMappings) :
    s.importTagMapping tags m = s := by
  rw [importTagMapping_eq]
  cases hmapping : s.mappingOf tags m with
  | none => rfl
  | some mapping => exact if_pos (h mapping hmapping)

theorem importTagMapping_adds (s : ImportState) (tags : List MigrationTagItem)
    (m : MigrationTagMappingItem) :
    s.db.tagMappings <+: (s.importTagMapping tags m).db.tagMappings ∧
      ∀ mapping, s.mappingOf tags m = some mapping →
        mapping ∈ (s.importTagMapping tags m).db.tagMappings := by
  rw [importTagMapping_eq]
  cases s.mappingOf tags m with
  | none => exact ⟨List.prefix_refl _, fun mapping h => by cases h⟩
  | some mapping =>
    dsimp only
    by_cases hmem : mapping ∈ s.db.tagMappings
    · rw [if_pos hmem]
      exact ⟨List.prefix_refl _, fun mapping' h => Option.some.inj h ▸ hmem⟩
    · rw [if_neg hmem]
      exact ⟨List.prefix_append _ _, fun mapping' h => by simp [Option.some.inj h]⟩

theorem importTagMappings_again {ms : List MigrationTagMappingItem}
    (h : ms.foldl (fun s m => s.importTagMapping tags m) s = s')
    (hworkflows : s.workflowIdMap = t.workflowIdMap) (htags : s.tagNameToId = t.tagNameToId)
    (hle : s'.db.tagMappings <+: t.db.tagMappings) :
    ms.foldl (fun s m => s.importTagMapping tags m) t = t := by
  subst h
  refine (Except.foldl_again (fun s t : ImportState => s.db.tagMappings <+: t.db.tagMappings)
    (fun s t => s.workflowIdMap = t.workflowIdMap ∧ s.tagNameToId = t.tagNameToId) id
    (fun s => List.prefix_refl _) (fun _ _ _ => List.IsPrefix.trans)
    (fun s t t' h (ht : t' = t) => ht ▸ h) (fun s m => (importTagMapping_adds s tags m).1)
    (fun s m t ⟨hworkflows, htags⟩ hle => ?_) (s := s) (t := t) ⟨hworkflows, htags⟩ hle).2
  have hsame : s.mappingOf tags m = t.mappingOf tags m := by
    rw [mappingOf, hworkflows, htags]
    rfl
  have hstep : t.importTagMapping tags m = t := importTagMapping_of_mem fun mapping h =>
    hle.subset ((importTagMapping_adds s tags m).2 mapping (hsame.trans h))
  obtain ⟨_, hs⟩ := importTagMappings_eq s tags [m]
  have hs : s.importTagMapping tags m = _ := hs
  rw [hstep, hs]
  exact ⟨⟨hworkflows, htags⟩, rfl⟩

end ImportState

end N8n
