import N8n.Migration.ImportTwice

/-!
# The references of an imported workflow

What becomes of the ids in the nodes and the settings of a workflow of a bundle.

* `ReferenceField`: a place in a workflow that refers to an object, with what the export follows
  there and what the place holds;
* `ProjectDatabase.CacheOk`: what the look-up of the credentials of a new workflow has cached;
* `FollowsReferences`: the ids that the export follows are re-pointed, and the others stay;
* `RepointsReferences`: the ids that are in the bundle are re-pointed, and the others stay, apart
  from credentials that are looked up;
* `importMigrationBundle_repoints`: an import does so.
-/

namespace N8n

/-! ### Fields -/

/-- A place in a workflow that refers to an object; nodes are given by their place in the list. -/
inductive ReferenceField
  | workflowId (node : ℕ)
  | dataTableId (node : ℕ)
  | credential (node : ℕ) (type : String)
  | errorWorkflow

/-- The node executes a workflow. -/
def executesWorkflow (node : JsObject) : Bool :=
  match JsObject.get node "type" with
  | .str type => type ∈ EXECUTE_WORKFLOW_NODE_TYPES
  | _ => false

/-- The entry of a node's credentials of a type. -/
def credentialEntry (node : JsObject) (type : String) : JsValue :=
  match JsObject.get node "credentials" with
  | .obj credentials => JsObject.get credentials type
  | _ => .undefined

/-- The text of a reference, which is a text or a locator with a value. -/
def referenceText (param : JsValue) : Option String :=
  match param with
  | .str text => some text
  | .obj props =>
    match JsObject.get props "value" with
    | .str text => some text
    | _ => none
  | _ => none

/-- A text that is not empty. -/
def nonEmptyText (value : JsValue) : Option String :=
  match value with
  | .str text => if text = "" then none else some text
  | _ => none

theorem nonEmptyText_eq_some {value : JsValue} {text : String} :
    nonEmptyText value = some text ↔ value = .str text ∧ text ≠ "" := by
  unfold nonEmptyText
  cases value with
  | str text' =>
    dsimp only
    split_ifs with hempty
    · exact iff_of_false (fun h => by cases h) fun ⟨h, hne⟩ => by
        cases h
        exact hne hempty
    · rw [Option.some.injEq, JsValue.str.injEq]
      exact ⟨fun h => ⟨h, h ▸ hempty⟩, And.left⟩
  | _ => exact iff_of_false (fun h => by cases h) fun ⟨h, _⟩ => by cases h

/-- The node at a place, without properties when there is none. -/
def nodeAt (nodes : List JsObject) (i : ℕ) : JsObject := (nodes[i]?).getD []

namespace ReferenceField

/-- The value at a place. -/
def value (nodes : List JsObject) (settings : JsValue) : ReferenceField → JsValue
  | workflowId i => nodeParameter (nodeAt nodes i) "workflowId"
  | dataTableId i => nodeParameter (nodeAt nodes i) "dataTableId"
  | credential i type => credentialEntry (nodeAt nodes i) type
  | errorWorkflow => settings.prop "errorWorkflow"

/-- The ids that the export follows at a place. -/
def followed (nodes : List JsObject) (settings : JsValue) : ReferenceField → List String
  | workflowId i =>
    if executesWorkflow (nodeAt nodes i) then extractWorkflowIdFromNode (nodeAt nodes i) else []
  | dataTableId i => extractId (nodeParameter (nodeAt nodes i) "dataTableId")
  | credential i type => (nonEmptyText ((credentialEntry (nodeAt nodes i) type).prop "id")).toList
  | errorWorkflow => errorWorkflowId settings

/-- The text that refers to an object, at a place where one is referred to. -/
def text (nodes : List JsObject) (settings : JsValue) : ReferenceField → Option String
  | workflowId i =>
    if executesWorkflow (nodeAt nodes i) then
      referenceText (nodeParameter (nodeAt nodes i) "workflowId")
    else none
  | dataTableId i => referenceText (nodeParameter (nodeAt nodes i) "dataTableId")
  | credential i type => nonEmptyText ((credentialEntry (nodeAt nodes i) type).prop "id")
  | errorWorkflow => (nonEmptyText (settings.prop "errorWorkflow")).filter fun id => id ≠ "DEFAULT"

/-- How the export reads a text: all but the ids of credentials are trimmed. -/
def read : ReferenceField → String → String
  | credential _ _ => id
  | _ => trimText

/-- The place holds an id. -/
def Holds (nodes : List JsObject) (settings : JsValue) (target : String) : ReferenceField → Prop
  | workflowId i => referenceText (nodeParameter (nodeAt nodes i) "workflowId") = some target
  | dataTableId i => referenceText (nodeParameter (nodeAt nodes i) "dataTableId") = some target
  | credential i type => (credentialEntry (nodeAt nodes i) type).prop "id" = .str target
  | errorWorkflow => settings.prop "errorWorkflow" = .str target

/-- The ids of the objects of a bundle that a place can refer to. -/
def bundleIds (bundle : MigrationBundle) : ReferenceField → List String
  | workflowId _ | errorWorkflow => bundle.workflows.map MigrationWorkflowItem.id
  | dataTableId _ => bundle.dataTables.map MigrationDataTableItem.id
  | credential _ _ => bundle.credentials.map MigrationCredentialItem.id

/-- What the ids of these objects are mapped to. -/
def targets (s : ImportState) : ReferenceField → Dict String String
  | workflowId _ | errorWorkflow => s.workflowIdMap
  | dataTableId _ => s.dataTableIdMap
  | credential _ _ => s.credentialIdMap

/-- The place is an entry of the credentials of an enabled node. -/
def LookedUp (nodes : List JsObject) : ReferenceField → Prop
  | credential i _ => (JsObject.get (nodeAt nodes i) "disabled").truthy = false
  | _ => False

/-- The credentials of the bundle with this id are of the type of the entry. -/
def OfType (bundle : MigrationBundle) (id : String) : ReferenceField → Prop
  | credential _ type => ∀ c ∈ bundle.credentials, c.id = id → c.type = type
  | _ => True

/-- What the export follows is the text that refers to an object, as it reads it. -/
theorem text_of_followed {nodes : List JsObject} {settings : JsValue} {field : ReferenceField}
    {id : String} (h : id ∈ field.followed nodes settings) :
    ∃ text, field.text nodes settings = some text ∧ field.read text = id := by
  have hpush : ∀ text, id ∈ pushId text → trimText text = id := by
    intro text hid
    unfold pushId at hid
    dsimp only at hid
    split_ifs at hid
    · exact (List.mem_singleton.1 hid).symm
    · cases hid
  have hextract : ∀ param, id ∈ extractId param →
      ∃ text, referenceText param = some text ∧ trimText text = id := by
    intro param hid
    unfold extractId at hid
    split at hid
    · exact ⟨_, rfl, hpush _ hid⟩
    · split at hid
      · next props text hvalue =>
        refine ⟨text, ?_, hpush _ hid⟩
        rw [JsValue.prop] at hvalue
        rw [referenceText, hvalue]
      · cases hid
    · cases hid
  cases field with
  | workflowId i =>
    rw [followed] at h
    split_ifs at h with hexecutes
    · obtain ⟨text, htext, hid⟩ := hextract _ h
      exact ⟨text, by rw [ReferenceField.text, if_pos hexecutes, htext], hid⟩
    · cases h
  | dataTableId i => exact hextract _ h
  | credential i type => exact ⟨id, Option.mem_toList.1 h, rfl⟩
  | errorWorkflow =>
    rw [followed, errorWorkflowId] at h
    split at h
    · next errorWf hsettings =>
      split_ifs at h with hdefault
      · cases h
      · refine ⟨errorWf, ?_, hpush _ h⟩
        have hne : errorWf ≠ "" := by
          rintro rfl
          rw [show pushId "" = [] by decide] at h
          cases h
        rw [ReferenceField.text, hsettings, nonEmptyText, if_neg hne, Option.filter_some,
          if_pos (by simpa using hdefault)]
    · cases h

end ReferenceField

/-! ### Ids that are replaced -/

variable {ids : Dict String String} {target id : String} {settings : JsValue}

variable {param entry : JsValue} {nodes : List JsObject}

/-- A text that is mapped becomes the id of the target. -/
theorem referenceText_replaceIdInParameter {text : String} (h : referenceText param = some text)
    (hget : ids.get? text = some target) :
    referenceText (replaceIdInParameter ids param) = some target := by
  unfold referenceText at h
  split at h
  · cases h
    rw [replaceIdInParameter, mappedId, hget]
    rfl
  · next props =>
    split at h
    · next hvalue =>
      cases h
      rw [replaceIdInParameter, hvalue, mappedId, hget]
      dsimp only
      rw [referenceText, ProjectDatabase.get_put, if_pos rfl]
    · cases h
  · cases h

theorem replaceIdInParameter_of_none
    (h : ∀ text, referenceText param = some text → ids.get? text = none) :
    replaceIdInParameter ids param = param := by
  unfold replaceIdInParameter
  split
  · next text =>
    rw [mappedId, h text rfl]
  · next props =>
    cases hvalue : JsObject.get props "value" with
    | str text =>
      have htext : referenceText (.obj props) = some text := by rw [referenceText, hvalue]
      rw [mappedId, h text htext]
    | _ => rfl
  · rfl

theorem replaceEntryId_prop (h : nonEmptyText (entry.prop "id") = some id)
    (hget : ids.get? id = some target) : (replaceEntryId ids entry).prop "id" = .str target := by
  obtain ⟨htext, hempty⟩ := nonEmptyText_eq_some.1 h
  unfold replaceEntryId
  split
  · next props =>
    rw [JsValue.prop] at htext
    rw [htext, mappedId, hget, JsValue.truthy, if_pos (by simpa using hempty)]
    rw [JsValue.prop, ProjectDatabase.get_put, if_pos rfl]
  · next hobject =>
    -- only objects have an id
    cases entry with
    | obj props => exact absurd rfl (hobject props)
    | arr xs =>
      rw [JsValue.prop, show numeral? "id" = none by decide] at htext
      cases htext
    | _ => cases htext

theorem replaceEntryId_of_none
    (h : ∀ id, nonEmptyText (entry.prop "id") = some id → ids.get? id = none) :
    replaceEntryId ids entry = entry := by
  unfold replaceEntryId
  split
  · next props =>
    cases hid : JsObject.get props "id" with
    | str id =>
      by_cases hempty : id = ""
      · rw [JsValue.truthy, if_neg (by simpa using hempty)]
      · have htext : nonEmptyText ((JsValue.obj props).prop "id") = some id := by
          rw [JsValue.prop, hid, nonEmptyText, if_neg hempty]
        rw [mappedId, h id htext, ite_self]
    | _ => simp only [mappedId, ite_self]
  · rfl

/-! ### What is read of a node -/

theorem nodeParameter_replaceIdInNode (ids : Dict String String) (node : JsObject)
    {name name' : String} (hnumeral : numeral? name = none) :
    nodeParameter (replaceIdInNode name ids node) name' =
      if name' = name then replaceIdInParameter ids (nodeParameter node name')
      else nodeParameter node name' := by
  unfold replaceIdInNode
  split
  · next parameters hparameters =>
    have hold : nodeParameter node name' = JsObject.get parameters name' := by
      rw [nodeParameter, hparameters, JsValue.prop]
    rw [hold]
    split
    · next hundefined =>
      rw [hold]
      split_ifs with hname
      · rw [hname, hundefined]
        rfl
      · rfl
    · rw [nodeParameter, ProjectDatabase.get_put, if_pos rfl, JsValue.prop, ProjectDatabase.get_put]
      split_ifs with hname
      · rw [hname]
      · rfl
  · next hparameters =>
    split_ifs with hname
    · subst hname
      have hundefined : nodeParameter node name' = .undefined := by
        rw [nodeParameter]
        cases hvalue : JsObject.get node "parameters" with
        | obj props => exact absurd hvalue (hparameters props)
        | arr xs => rw [JsValue.prop, hnumeral]; rfl
        | _ => rfl
      rw [hundefined]
      rfl
    · rfl

theorem credentialEntry_replaceIdInNode (name : String) (ids : Dict String String)
    (node : JsObject) (type : String) :
    credentialEntry (replaceIdInNode name ids node) type = credentialEntry node type := by
  rw [credentialEntry, ProjectDatabase.get_replaceIdInNode name ids node (by decide),
    credentialEntry]

theorem nodeParameter_replaceCredentialIdsInNode (ids : Dict String String) (node : JsObject)
    (name : String) :
    nodeParameter (replaceCredentialIdsInNode ids node) name = nodeParameter node name := by
  rw [nodeParameter, ProjectDatabase.get_replaceCredentialIdsInNode ids node (by decide),
    nodeParameter]

theorem credentialEntry_replaceCredentialIdsInNode (ids : Dict String String) (node : JsObject)
    (type : String) : credentialEntry (replaceCredentialIdsInNode ids node) type =
      replaceEntryId ids (credentialEntry node type) := by
  unfold replaceCredentialIdsInNode
  cases hcredentials : JsObject.get node "credentials" with
  | obj props =>
    rw [credentialEntry, ProjectDatabase.get_put, if_pos rfl, credentialEntry, hcredentials]
    dsimp only
    rw [JsObject.get, EntryList.lookup_map, JsObject.get]
    cases EntryList.lookup type props with
    | none => rfl
    | some entry => rfl
  | arr xs =>
    rw [credentialEntry, ProjectDatabase.get_put, if_pos rfl, credentialEntry, hcredentials]
    rfl
  | _ =>
    rw [credentialEntry, hcredentials]
    rfl

/-! ### Credentials that are looked up -/

namespace ProjectDatabase

variable {db : ProjectDatabase} {projectId : String}

/-- What is cached for a credential that exists has its id. -/
def CacheOk (db : ProjectDatabase) (cache : CredentialsCache) : Prop :=
  ∀ type id details c, cache.byId.get? (type, id) = some details →
    db.credentials.get? id = some c → c.type = type → details.prop "id" = .str id

variable {cache : CredentialsCache}

/-- Caching something for a type and an id. -/
theorem CacheOk.set (h : db.CacheOk cache) {type id : String} {details : JsValue}
    (hdetails : ∀ c, db.credentials.get? id = some c → c.type = type →
      details.prop "id" = .str id) :
    db.CacheOk { cache with byId := cache.byId.set (type, id) details } := by
  intro type' id' details' c hget hc htype
  rw [Dict.get?_set] at hget
  split_ifs at hget with heq
  · cases heq
    cases hget
    exact hdetails c hc htype
  · exact h type' id' details' c hget hc htype

theorem CacheOk.replaceInvalidEntry (h : db.CacheOk cache) (type : String) (entry : JsValue) :
    db.CacheOk (db.replaceInvalidEntry projectId cache type entry).1 := by
  cases entry with
  | str name =>
    unfold ProjectDatabase.replaceInvalidEntry
    split
    · exact h
    · dsimp only
      rw [if_pos rfl]
      -- only the names are cached
      split
      · exact h
      · split
        · exact h
        · exact h
  | _ =>
    unfold ProjectDatabase.replaceInvalidEntry
    split
    · exact h
    · dsimp only
      split
      · split
        · exact h
        · split
          · exact h
          · exact h
      · split
        · exact h
        · split
          · exact h.set fun c hc htype => rfl
          · next hnone =>
            split
            · exact h.set fun c hc htype => rfl
            · refine h.set fun c hc htype => ?_
              rw [hc, Option.filter_some, if_pos (by simpa using htype)] at hnone
              cases hnone

/-- The look-up leaves an id of a credential of the type. -/
theorem replaceInvalidEntry_prop (h : db.CacheOk cache) {type id : String} {entry : JsValue}
    {c : CredentialsEntity} (hid : entry.prop "id" = .str id)
    (hc : db.credentials.get? id = some c) (htype : c.type = type) :
    (db.replaceInvalidEntry projectId cache type entry).2.prop "id" = .str id := by
  cases entry with
  | str name => cases hid
  | _ =>
    unfold replaceInvalidEntry
    split
    · exact hid
    · dsimp only
      rw [hid, if_neg (by simp), textOf]
      cases hcached : cache.byId.get? (type, id) with
      | some details => exact h type id details c hcached hc htype
      | none =>
        rw [hc, Option.filter_some, if_pos (by simpa using htype)]
        rfl

theorem replaceInvalidEntry_undefined (cache : CredentialsCache) (type : String) :
    db.replaceInvalidEntry projectId cache type .undefined = (cache, .undefined) := by
  unfold replaceInvalidEntry
  exact if_pos (Or.inl rfl)

theorem CacheOk.replaceInvalidEntries (h : db.CacheOk cache) (entries : List (String × JsValue)) :
    db.CacheOk (db.replaceInvalidEntries projectId cache entries).1 := by
  induction entries generalizing cache with
  | nil => exact h
  | cons e entries ih => exact ih (h.replaceInvalidEntry e.1 e.2)

/-- Each entry is looked up with what is cached by then. -/
theorem get_replaceInvalidEntries (h : db.CacheOk cache) (entries : List (String × JsValue))
    (type : String) : ∃ cache', db.CacheOk cache' ∧
      JsObject.get (db.replaceInvalidEntries projectId cache entries).2 type =
        (db.replaceInvalidEntry projectId cache' type (JsObject.get entries type)).2 := by
  induction entries generalizing cache with
  | nil =>
    refine ⟨cache, h, ?_⟩
    rw [show JsObject.get [] type = .undefined from rfl, replaceInvalidEntry_undefined]
    rfl
  | cons e entries ih =>
    obtain ⟨type', value⟩ := e
    by_cases htype : type' = type
    · subst htype
      refine ⟨cache, h, ?_⟩
      rw [replaceInvalidEntries]
      simp [JsObject.get, EntryList.lookup]
    · obtain ⟨cache', hcache', hget⟩ := ih (h.replaceInvalidEntry type' value)
      refine ⟨cache', hcache', ?_⟩
      have hskip : ∀ (v : JsValue) l,
          JsObject.get ((type', v) :: l) type = JsObject.get l type := by
        intro v l
        simp [JsObject.get, EntryList.lookup, htype]
      rw [hskip, ← hget, replaceInvalidEntries]
      exact hskip _ _

/-- What the look-up of the credentials makes of a node. -/
structure LooksUp (db : ProjectDatabase) (projectId : String) (node node' : JsObject) : Prop where
  key : ∀ key, key ≠ "credentials" → JsObject.get node' key = JsObject.get node key
  disabled : (JsObject.get node "disabled").truthy = true →
    ∀ type, credentialEntry node' type = credentialEntry node type
  entry : ∀ type, credentialEntry node' type = credentialEntry node type ∨
    ∃ cache, db.CacheOk cache ∧ credentialEntry node' type =
      (db.replaceInvalidEntry projectId cache type (credentialEntry node type)).2

theorem LooksUp.refl (node : JsObject) : db.LooksUp projectId node node :=
  ⟨fun _ _ => rfl, fun _ _ => rfl, fun _ => Or.inl rfl⟩

theorem nodeAt_replaceInvalidNodes (h : db.CacheOk cache) (nodes : List JsObject) (i : ℕ) :
    db.LooksUp projectId (nodeAt nodes i)
      (nodeAt (db.replaceInvalidNodes projectId cache nodes) i) := by
  induction nodes generalizing cache i with
  | nil => exact .refl _
  | cons node nodes ih =>
    cases hcredentials : JsObject.get node "credentials" with
    | obj entries =>
      cases hdisabled : (JsObject.get node "disabled").truthy with
      | true =>
        rw [replaceInvalidNodes, hcredentials, hdisabled]
        cases i with
        | zero => exact .refl _
        | succ i => exact ih h i
      | false =>
        rw [replaceInvalidNodes, hcredentials, hdisabled]
        dsimp only
        cases i with
        | zero =>
          refine ⟨fun key hkey => ?_, fun htrue => ?_, fun type => Or.inr ?_⟩
          · exact (get_put node "credentials" key _).trans (if_neg hkey)
          · rw [show nodeAt (node :: nodes) 0 = node from rfl, hdisabled] at htrue
            cases htrue
          · obtain ⟨cache', hcache', hget⟩ := get_replaceInvalidEntries h entries type
            refine ⟨cache', hcache', ?_⟩
            have hold : credentialEntry (nodeAt (node :: nodes) 0) type =
                JsObject.get entries type := by
              rw [show nodeAt (node :: nodes) 0 = node from rfl, credentialEntry, hcredentials]
            rw [hold, ← hget, show ∀ (x : JsObject) l, nodeAt (x :: l) 0 = x from fun _ _ => rfl,
              credentialEntry, get_put, if_pos rfl]
        | succ i => exact ih (h.replaceInvalidEntries entries) i
    | _ =>
      rw [replaceInvalidNodes, hcredentials]
      cases i with
      | zero => exact .refl _
      | succ i => exact ih h i

end ProjectDatabase

/-! ### Nodes that are imported -/

theorem nodeAt_map {f : JsObject → JsObject} (hf : f [] = []) (nodes : List JsObject) (i : ℕ) :
    nodeAt (nodes.map f) i = f (nodeAt nodes i) := by
  rw [nodeAt, List.getElem?_map, nodeAt]
  cases nodes[i]? with
  | none => exact hf.symm
  | some node => rfl

theorem get_nodeAt_addNodeIds (newId : ℕ → String) (nodes : List JsObject) (i : ℕ) {key : String}
    (h : key ≠ "id") :
    JsObject.get (nodeAt (addNodeIds newId nodes) i) key = JsObject.get (nodeAt nodes i) key := by
  rw [nodeAt, addNodeIds, List.getElem?_mapIdx, nodeAt]
  cases nodes[i]? with
  | none => rfl
  | some node =>
    rw [Option.map_some, Option.getD_some, Option.getD_some]
    split_ifs
    · rfl
    · exact (ProjectDatabase.get_put node "id" key _).trans (if_neg h)

theorem nodeAt_replaceWorkflowIdsInNodes (nodes : List JsObject) (ids : Dict String String)
    (i : ℕ) : nodeAt (replaceWorkflowIdsInNodes nodes ids) i =
      if executesWorkflow (nodeAt nodes i) then replaceIdInNode "workflowId" ids (nodeAt nodes i)
      else nodeAt nodes i := by
  rw [replaceWorkflowIdsInNodes, nodeAt_map rfl, executesWorkflow]
  cases JsObject.get (nodeAt nodes i) "type" with
  | str type =>
    dsimp only
    by_cases htype : type ∈ EXECUTE_WORKFLOW_NODE_TYPES
    · rw [if_pos htype, if_pos (by simpa using htype)]
    · rw [if_neg htype, if_neg (by simpa using htype)]
  | _ => rfl

/-- What is read of a node after the ids of credentials and data tables have been replaced. -/
structure ReplacesIds (s : ImportState) (node node' : JsObject) : Prop where
  executes : executesWorkflow node' = executesWorkflow node
  disabled : JsObject.get node' "disabled" = JsObject.get node "disabled"
  workflowId : nodeParameter node' "workflowId" = nodeParameter node "workflowId"
  dataTableId : nodeParameter node' "dataTableId" =
    replaceIdInParameter s.dataTableIdMap (nodeParameter node "dataTableId")
  credential : ∀ type, credentialEntry node' type =
    replaceEntryId s.credentialIdMap (credentialEntry node type)

theorem nodeAt_replaceIds (s : ImportState) (w : MigrationWorkflowItem) (i : ℕ) :
    ReplacesIds s (nodeAt w.nodes i) (nodeAt (s.replaceIds w).nodes i) := by
  have hnode : nodeAt (s.replaceIds w).nodes i = replaceIdInNode "dataTableId" s.dataTableIdMap
      (replaceCredentialIdsInNode s.credentialIdMap (nodeAt w.nodes i)) := by
    rw [ImportState.replaceIds]
    dsimp only
    rw [replaceDataTableIdsInNodes, nodeAt_map rfl, replaceCredentialIdsInNodes, nodeAt_map rfl]
  have hget : ∀ key, key ≠ "parameters" → key ≠ "credentials" →
      JsObject.get (nodeAt (s.replaceIds w).nodes i) key = JsObject.get (nodeAt w.nodes i) key := by
    intro key hparameters hcredentials
    rw [hnode, ProjectDatabase.get_replaceIdInNode _ _ _ hparameters,
      ProjectDatabase.get_replaceCredentialIdsInNode _ _ hcredentials]
  refine ⟨?_, hget _ (by decide) (by decide), ?_, ?_, fun type => ?_⟩
  · rw [executesWorkflow, hget _ (by decide) (by decide), executesWorkflow]
  · rw [hnode, nodeParameter_replaceIdInNode _ _ (by decide), if_neg (by decide),
      nodeParameter_replaceCredentialIdsInNode]
  · rw [hnode, nodeParameter_replaceIdInNode _ _ (by decide), if_pos rfl,
      nodeParameter_replaceCredentialIdsInNode]
  · rw [hnode, credentialEntry_replaceIdInNode, credentialEntry_replaceCredentialIdsInNode]

/-! ### The maps of an import -/

section Maps

variable {σ ε ι : Type} {f : σ → ι → Except ε σ} (ids : σ → Dict String String) (key : ι → String)
  {l : List ι} {s s' : σ}

/-- A loop that maps the key of each item maps these keys, and leaves the others alone. -/
theorem get?_of_foldlM (hstep : ∀ s a s', f s a = .ok s' → ∃ v, ids s' = (ids s).set (key a) v)
    (h : l.foldlM f s = .ok s') (k : String) :
    (k ∈ l.map key → ((ids s').get? k).isSome = true) ∧
      (k ∉ l.map key → (ids s').get? k = (ids s).get? k) := by
  induction l using List.reverseRecOn generalizing s' with
  | nil =>
    cases h
    exact ⟨fun hk => absurd hk List.not_mem_nil, fun _ => rfl⟩
  | append_singleton l a ih =>
    obtain ⟨s₁, h₁, h₂⟩ := Except.foldlM_concat_eq_ok_iff.1 h
    obtain ⟨v, hv⟩ := hstep s₁ a s' h₂
    obtain ⟨hmem, hnot⟩ := ih h₁
    rw [hv, Dict.get?_set, List.map_append, List.map_singleton, List.mem_append, List.mem_singleton]
    by_cases hk : k = key a
    · rw [if_pos hk]
      exact ⟨fun _ => rfl, fun h => absurd (Or.inr hk) h⟩
    · rw [if_neg hk, or_iff_left hk]
      exact ⟨hmem, hnot⟩

end Maps

namespace ImportState

variable {env : ImportEnvironment} {user : User} {defaultProjectId : String} {s s' : ImportState}

/-- The type of the credential that an id of the bundle is mapped to is that of the bundle. -/
def CredentialsTyped (items : List MigrationCredentialItem) (s : ImportState) : Prop :=
  ∀ id target, s.credentialIdMap.get? id = some target →
    ∃ item ∈ items, item.id = id ∧
      ∃ c, s.db.credentials.get? target = some c ∧ c.type = item.type

theorem importCredentials_typed (henv : env.Fresh) {projectIds : List String}
    {items : List MigrationCredentialItem} (hdefault : defaultProjectId ∈ projectIds)
    (hempty : s.credentialIdMap = .empty) : CredentialsTyped items
      (items.foldl (fun s c => s.importCredential env defaultProjectId projectIds c) s) := by
  induction items using List.reverseRecOn with
  | nil =>
    intro id target h
    rw [List.foldl_nil, hempty] at h
    cases h
  | append_singleton items item ih =>
    rw [List.foldl_concat]
    obtain ⟨hle, e, he, -, hset⟩ := importCredential_adds henv hdefault (items.foldl
      (fun (s : ImportState) c => s.importCredential env defaultProjectId projectIds c) s) item
    intro id target hget
    rw [hset, Dict.get?_set] at hget
    split_ifs at hget with hid
    · cases hget
      refine ⟨item, by simp, hid.symm, e.2, ProjectDatabase.get?_of_findCredential he, ?_⟩
      have hfound := List.find?_some he
      simp only [Bool.and_eq_true, decide_eq_true_eq] at hfound
      exact hfound.2
    · obtain ⟨item', hmem, hid', c, hc, htype⟩ := ih id target hget
      -- the credentials that were there keep their types
      have hrow := hle.isPrefix.subset (Dict.mem_index_iff.2 ⟨c, hc, rfl⟩)
      obtain ⟨c', hc', heq⟩ := Dict.mem_index_iff.1 hrow
      refine ⟨item', List.mem_append_left _ hmem, hid', c', hc', ?_⟩
      rw [← htype]
      exact (Prod.mk.inj heq).2

/-- What the loop over workflows leaves of the bundle: the workflows that have been imported in its
order, and targets that exist. -/
structure LoopsOver (ws : List MigrationWorkflowItem) (s s' : ImportState) : Prop where
  imported : ∃ imported, s'.workflows = s.workflows ++ imported ∧
    imported.map MigrationWorkflowItem.id = ws.map MigrationWorkflowItem.id
  targets : (∀ id target, s.workflowIdMap.get? id = some target → target ∈ s.db.workflows.keys) →
    ∀ id target, s'.workflowIdMap.get? id = some target → target ∈ s'.db.workflows.keys

theorem loopsOver_of_foldlM (henv : env.Fresh) {ws : List MigrationWorkflowItem}
    (h : ws.foldlM (fun (s : ImportState) w => s.importWorkflow env user defaultProjectId w) s =
      .ok s') : LoopsOver ws s s' := by
  induction ws using List.reverseRecOn generalizing s' with
  | nil =>
    cases h
    exact ⟨⟨[], (List.append_nil _).symm, rfl⟩, id⟩
  | append_singleton ws w ih =>
    obtain ⟨s₁, h₁, h₂⟩ := Except.foldlM_concat_eq_ok_iff.1 h
    obtain ⟨⟨imported, himported, hids⟩, htargets⟩ := ih h₁
    obtain ⟨id, nodes, hextends, htarget, -, hmap, hworkflows, -, -⟩ := importWorkflow_ok henv h₂
    refine ⟨⟨imported ++ [{ w with nodes }], ?_, by simp [hids]⟩, fun hs id' target hget => ?_⟩
    · rw [hworkflows, himported, List.append_assoc]
    · rw [hmap, Dict.get?_set] at hget
      split_ifs at hget
      · cases hget
        exact mem_keys_of_targetOf htarget
      · exact mem_keys_of_extends hextends (htargets hs id' target hget)

end ImportState

theorem foldl_writeColumns_of_ne {ws : List (String × MigrationWorkflowItem)}
    (h : ∀ e ∈ ws, e.1 ≠ id) (columns : String → WorkflowColumns) :
    ws.foldl writeColumns columns id = columns id := by
  induction ws generalizing columns with
  | nil => rfl
  | cons e ws ih =>
    rw [List.forall_mem_cons] at h
    rw [List.foldl_cons, ih h.2, writeColumns, Function.update_of_ne (Ne.symm h.1)]

/-! ### The rows of an import -/

namespace ImportState

variable {env : ImportEnvironment} {user : User} {defaultProjectId : String} {s s' : ImportState}
  {w : MigrationWorkflowItem}

/-- The nodes that are written for a workflow, which are completed when it is new. -/
def WritesNodes (s : ImportState) (w : MigrationWorkflowItem) (isNew : Prop)
    (nodes : List JsObject) : Prop :=
  nodes = (s.replaceIds w).nodes ∨ isNew ∧
    ∃ (newId : ℕ → String) (db : ProjectDatabase) (projectId : String),
      db.credentials = s.db.credentials ∧
        nodes = db.replaceInvalidCredentials projectId (addNodeIds newId (s.replaceIds w).nodes)

theorem WritesNodes.congr {isNew : Prop} {nodes : List JsObject} (h : s.WritesNodes w isNew nodes)
    (hcredentialIds : s'.credentialIdMap = s.credentialIdMap)
    (htableIds : s'.dataTableIdMap = s.dataTableIdMap)
    (hcredentials : s'.db.credentials = s.db.credentials) : s'.WritesNodes w isNew nodes := by
  have hreplace : s'.replaceIds w = s.replaceIds w := by
    rw [replaceIds, hcredentialIds, htableIds, replaceIds]
  rw [WritesNodes, hreplace, hcredentials]
  exact h

/-- The last workflow of its id in the loop: what is written of it, and what comes after it. -/
theorem importWorkflows_last (henv : env.Fresh) {before after : List MigrationWorkflowItem}
    (h : (before ++ w :: after).foldlM
      (fun (s : ImportState) w => s.importWorkflow env user defaultProjectId w) s = .ok s')
    (hworkflows : s.workflows = [])
    (hlast : ∀ w' ∈ after, w'.id ≠ w.id) :
    ∃ id nodes done rest, s'.workflowIdMap.get? w.id = some id ∧
      s'.workflows = done ++ { w with nodes } :: rest ∧
      rest.map MigrationWorkflowItem.id = after.map MigrationWorkflowItem.id ∧
      s.WritesNodes w (id ∉ s.db.workflows.keys) nodes := by
  rw [List.foldlM_append, Except.bind_eq_ok_iff] at h
  obtain ⟨sA, hbefore, hrest⟩ := h
  rw [List.foldlM_cons, Except.bind_eq_ok_iff] at hrest
  obtain ⟨sB, hturn, hafter⟩ := hrest
  obtain ⟨id, nodes, hextends, htarget, -, hmap, hitem, hcompletes, -, hold⟩ :=
    importWorkflow_ok henv hturn
  obtain ⟨done, hdone, -⟩ := (loopsOver_of_foldlM henv hbefore).imported
  obtain ⟨rest, hrest, hids⟩ := (loopsOver_of_foldlM henv hafter).imported
  have hstay := (get?_of_foldlM workflowIdMap MigrationWorkflowItem.id
    (fun s w s' h => by
      obtain ⟨id, _, _, _, _, hmap, -⟩ := importWorkflow_ok henv h
      exact ⟨id, hmap⟩) hafter w.id).2
  refine ⟨id, nodes, done, rest, ?_, ?_, hids, ?_⟩
  · rw [hstay, hmap, Dict.get?_set_self]
    intro hmem
    obtain ⟨w', hw', hid⟩ := List.mem_map.1 hmem
    exact hlast w' hw' hid
  · rw [hrest, hitem, hdone, hworkflows, List.nil_append, List.append_assoc]
    rfl
  · have hgrown := extends_of_importWorkflows henv hbefore
    obtain ⟨_, _, _, _, _, hA⟩ := (importWorkflows_ends s before).of_ok hbefore
    have hwrites : sA.WritesNodes w (id ∉ s.db.workflows.keys) nodes := by
      by_cases hmem : id ∈ s.db.workflows.keys
      · exact Or.inl (hold (mem_keys_of_extends hgrown hmem))
      · refine hcompletes.imp_right fun ⟨_, newId, db, hdb, hnodes⟩ => ?_
        exact ⟨hmem, newId, db, _, hdb, hnodes⟩
    refine hwrites.congr ?_ ?_ ?_
    · rw [hA]
    · rw [hA]
    · rw [hA]

/-- The second pass writes a workflow last when none after it has the same target. -/
theorem updateReferences_last {done rest : List MigrationWorkflowItem} {id : String}
    (hs : s.workflows = done ++ w :: rest) (hid : s.workflowIdMap.get? w.id = some id)
    (hrest : ∀ w' ∈ rest, s.workflowIdMap.get? w'.id ≠ some id)
    (hkeys : ∀ id target, s.workflowIdMap.get? id = some target → target ∈ s.db.workflows.keys) :
    ∃ e old, (s.workflows.foldl updateReferences s).db.workflows.get? id = some e ∧
      e.columns = WorkflowColumns.write old (s.withReferences w) := by
  have hcolumns := congrFun (columns_foldl_updateReferences hkeys s.workflows) id
  have hsplit : s.references s.workflows =
      s.references done ++ (id, s.withReferences w) :: s.references rest := by
    rw [hs, references, List.filterMap_append, List.filterMap_cons, hid]
    rfl
  have hother : ∀ e ∈ s.references rest, e.1 ≠ id := by
    intro e he heq
    obtain ⟨w', hw', hmap⟩ := List.mem_filterMap.1 he
    obtain ⟨id', hid', rfl⟩ := Option.map_eq_some_iff.1 hmap
    exact hrest w' hw' (hid'.trans (congrArg some heq))
  rw [hsplit, List.foldl_append, List.foldl_cons, foldl_writeColumns_of_ne hother, writeColumns,
    Function.update_self] at hcolumns
  have hmem : id ∈ (s.workflows.foldl updateReferences s).db.workflows.keys := by
    rw [← Dict.map_fst_index _ fun w : WorkflowEntity => (w.name, w.parentFolder, w.shared)]
    refine (congrArg (fun l => id ∈ List.map Prod.fst l)
      (workflowIndex_foldl_updateReferences s s.workflows)).mpr ?_
    rw [ProjectDatabase.workflowIndex, Dict.map_fst_index]
    exact hkeys w.id id hid
  obtain ⟨e, he⟩ := Option.isSome_iff_exists.1 ((Dict.mem_keys_iff _ _).1 hmem)
  have hread : (s.workflows.foldl updateReferences s).db.columns id = e.columns := by
    rw [ProjectDatabase.columns, he]
    rfl
  exact ⟨e, _, he, hread.symm.trans hcolumns⟩

end ImportState

section Import

variable {env : ImportEnvironment} {user : User} {db : ProjectDatabase} {bundle : MigrationBundle}
  {targetProjectId : Option String} {s : ImportState} {w : MigrationWorkflowItem}

/-- The row of a workflow of the bundle. -/
structure ImportedRow (db : ProjectDatabase) (s : ImportState) (w : MigrationWorkflowItem)
    (id : String) (e : WorkflowEntity) (nodes : List JsObject) : Prop where
  mapped : s.workflowIdMap.get? w.id = some id
  row : s.db.workflows.get? id = some e
  written : e.nodes = replaceWorkflowIdsInNodes nodes s.workflowIdMap
  settings : ∃ old, e.settings = ProjectDatabase.orUndefined
    (replaceErrorWorkflowInSettings w.settings s.workflowIdMap) old
  completes : s.WritesNodes w (id ∉ db.workflows.keys) nodes

/-- A workflow of the bundle has a row of its own, unless a later one is imported into the same. -/
theorem exists_importedRow (henv : env.Fresh)
    (h : importMigrationBundle env user db bundle targetProjectId = .ok s)
    {before after : List MigrationWorkflowItem} (hw : bundle.workflows = before ++ w :: after)
    (hlast : ∀ w' ∈ after, s.workflowIdMap.get? w'.id ≠ s.workflowIdMap.get? w.id) :
    ∃ id e nodes, ImportedRow db s w id e nodes := by
  obtain ⟨projectId, s₁, s₂, s₃, s₄, s₅, -, hstages, rfl⟩ := importMigrationBundle_eq_ok_iff.1 h
  obtain ⟨newIds, -, ids, hs₀, -, -⟩ := importProjects_spec user db bundle targetProjectId
    projectId henv
  rw [hs₀] at hstages
  obtain ⟨_, _, hprojects⟩ := ProjectDatabase.withProjects_eq db user newIds
    (projectsToCreate env user db (importedNames bundle targetProjectId))
  rw [hprojects] at hstages
  have hkeep := hstages.keep
  obtain ⟨-, hworkflows, -, -, -, -⟩ := hkeep.maps
  obtain ⟨htable, hmap, hcredentialIds, htableIds⟩ := importReferences_workflows s₅ bundle
  obtain ⟨_, _, hdb⟩ := importReferences_eq bundle s₅
  rw [hmap] at hlast
  have hempty : s₄.workflows = [] ∧ s₄.workflowIdMap = .empty := by
    obtain ⟨⟨_, _, rfl⟩, ⟨_, _, _, rfl⟩, ⟨_, _, _, rfl⟩, ⟨_, _, _, rfl⟩, -⟩ := hkeep
    exact ⟨rfl, rfl⟩
  have hloop := hstages.workflows
  have htargets := (ImportState.loopsOver_of_foldlM henv hloop).targets fun id target hget => by
    rw [hempty.2] at hget
    cases hget
  rw [hw] at hloop
  obtain ⟨id, nodes, done, rest, hid, hitems, hids, hwrites⟩ :=
    ImportState.importWorkflows_last henv hloop hempty.1
      fun w' hw' heq => hlast w' hw' (congrArg _ heq)
  have hrest : ∀ w' ∈ rest, s₅.workflowIdMap.get? w'.id ≠ some id := by
    intro w' hw'
    obtain ⟨w₀, hw₀, heq⟩ := List.mem_map.1 (hids ▸ List.mem_map_of_mem hw')
    rw [← heq, ← hid]
    exact hlast w₀ hw₀
  obtain ⟨e, old, he, hcolumns⟩ := ImportState.updateReferences_last hitems hid hrest htargets
  refine ⟨id, e, nodes, by rw [hmap, hid], by rw [htable, he], ?_, ⟨old.settings, ?_⟩, ?_⟩
  · rw [hmap]
    exact congrArg WorkflowColumns.nodes hcolumns
  · rw [hmap]
    exact congrArg WorkflowColumns.settings hcolumns
  · obtain ⟨_, _, _, _, _, hs₅⟩ := hkeep.workflows
    rw [hworkflows] at hwrites
    refine hwrites.congr ?_ ?_ ?_
    · rw [hcredentialIds, hs₅]
    · rw [htableIds, hs₅]
    · rw [hdb, hs₅]

/-- The ids of the bundle are those that are mapped. -/
theorem targets_get? (henv : env.Fresh)
    (h : importMigrationBundle env user db bundle targetProjectId = .ok s) (field : ReferenceField)
    (id : String) :
    (id ∈ field.bundleIds bundle → ((field.targets s).get? id).isSome = true) ∧
      (id ∉ field.bundleIds bundle → (field.targets s).get? id = none) := by
  obtain ⟨projectId, s₁, s₂, s₃, s₄, s₅, -, hstages, rfl⟩ := importMigrationBundle_eq_ok_iff.1 h
  obtain ⟨newIds, -, ids, hs₀, -, -⟩ := importProjects_spec user db bundle targetProjectId
    projectId henv
  rw [hs₀] at hstages
  obtain ⟨-, hmap, hcredentialIds, htableIds⟩ := importReferences_workflows s₅ bundle
  obtain ⟨⟨_, _, hs₁⟩, ⟨_, _, _, hs₂⟩, ⟨_, _, _, hs₃⟩, ⟨_, _, _, hs₄⟩, ⟨_, _, _, _, _, hs₅⟩⟩ :=
    hstages.keep
  have hworkflows := get?_of_foldlM ImportState.workflowIdMap MigrationWorkflowItem.id
    (fun s w s' h => by
      obtain ⟨id, _, _, _, _, hset, -⟩ := ImportState.importWorkflow_ok henv h
      exact ⟨id, hset⟩) hstages.workflows id
  have htables := get?_of_foldlM ImportState.dataTableIdMap MigrationDataTableItem.id
    (fun s dt s' h => by
      obtain ⟨-, id, -, hset⟩ := ImportState.importDataTable_adds henv h
      exact ⟨id, hset⟩) hstages.dataTables id
  have hdefault : projectId ∈ s₁.projectNameToId.values ++ [projectId] := by simp
  have hloop : bundle.credentials.foldlM (fun (s : ImportState) c => (.ok (s.importCredential env
      projectId (s₁.projectNameToId.values ++ [projectId]) c) : Except ImportFailure ImportState))
        s₁ = .ok s₂ :=
    List.foldlM_pure.trans (congrArg Except.ok hstages.credentials)
  have hcredentials := get?_of_foldlM ImportState.credentialIdMap MigrationCredentialItem.id
    (fun s c s' h => by
      cases h
      obtain ⟨-, e, -, -, hset⟩ := ImportState.importCredential_adds henv hdefault s c
      exact ⟨e.1, hset⟩) hloop id
  have hworkflowIds : s₄.workflowIdMap = .empty := by
    rw [hs₄, hs₃, hs₂]
    exact congrArg ImportState.workflowIdMap hs₁
  have htableIds' : s₂.dataTableIdMap = .empty := by
    rw [hs₂]
    exact congrArg ImportState.dataTableIdMap hs₁
  have hcredentialIds' : s₁.credentialIdMap = .empty := congrArg ImportState.credentialIdMap hs₁
  rw [hworkflowIds] at hworkflows
  rw [htableIds'] at htables
  rw [hcredentialIds'] at hcredentials
  cases field with
  | workflowId i =>
    rw [ReferenceField.targets, hmap]
    exact hworkflows
  | errorWorkflow =>
    rw [ReferenceField.targets, hmap]
    exact hworkflows
  | dataTableId i =>
    rw [ReferenceField.targets, htableIds, hs₅, hs₄]
    exact htables
  | credential i type =>
    rw [ReferenceField.targets, hcredentialIds, hs₅, hs₄, hs₃]
    exact hcredentials

/-- The credentials that ids of the bundle are mapped to have the types of the bundle. -/
theorem credentialsTyped_of_import (henv : env.Fresh)
    (h : importMigrationBundle env user db bundle targetProjectId = .ok s) :
    s.CredentialsTyped bundle.credentials := by
  obtain ⟨projectId, s₁, s₂, s₃, s₄, s₅, -, hstages, rfl⟩ := importMigrationBundle_eq_ok_iff.1 h
  obtain ⟨newIds, -, ids, hs₀, -, -⟩ := importProjects_spec user db bundle targetProjectId
    projectId henv
  rw [hs₀] at hstages
  obtain ⟨-, -, hcredentialIds, -⟩ := importReferences_workflows s₅ bundle
  obtain ⟨_, _, hdb⟩ := importReferences_eq bundle s₅
  obtain ⟨⟨_, _, hs₁⟩, -, ⟨_, _, _, hs₃⟩, ⟨_, _, _, hs₄⟩, ⟨_, _, _, _, _, hs₅⟩⟩ := hstages.keep
  have hdefault : projectId ∈ s₁.projectNameToId.values ++ [projectId] := by simp
  have hempty : s₁.credentialIdMap = .empty := congrArg ImportState.credentialIdMap hs₁
  have htyped : ImportState.CredentialsTyped bundle.credentials s₂ := by
    rw [← hstages.credentials]
    exact ImportState.importCredentials_typed henv hdefault hempty
  have hids : (importReferences s₅ bundle).credentialIdMap = s₂.credentialIdMap := by
    rw [hcredentialIds, hs₅, hs₄, hs₃]
  have hrows : (importReferences s₅ bundle).db.credentials = s₂.db.credentials := by
    rw [hdb, hs₅, hs₄, hs₃]
  intro id target hget
  rw [hids] at hget
  rw [hrows]
  exact htyped id target hget

end Import

/-! ### References -/

/-- A property of the workflows of a bundle and their rows; of the workflows that are imported into
the same row, the last one has it. -/
def ForImported (bundle : MigrationBundle) (s : ImportState)
    (P : MigrationWorkflowItem → String → WorkflowEntity → Prop) : Prop :=
  ∀ before w after, bundle.workflows = before ++ w :: after →
    (∀ w' ∈ after, s.workflowIdMap.get? w'.id ≠ s.workflowIdMap.get? w.id) →
    ∃ id e, s.workflowIdMap.get? w.id = some id ∧ s.db.workflows.get? id = some e ∧ P w id e

/-- What the export follows is re-pointed when it is in the bundle, and what it does not follow
stays. -/
def FollowsReferences (bundle : MigrationBundle) (s : ImportState) : Prop :=
  ForImported bundle s fun w _ e => ∀ field : ReferenceField,
    (∀ id ∈ field.followed w.nodes w.settings, id ∈ field.bundleIds bundle →
      ∃ target, (field.targets s).get? id = some target ∧ field.Holds e.nodes e.settings target) ∧
    (field.followed w.nodes w.settings = [] → field.value w.nodes w.settings ≠ .undefined →
      field.value e.nodes e.settings = field.value w.nodes w.settings)

/-- What an import makes of a field: the workflow is new, or was there before. -/
structure ReferenceField.RepointedIn (bundle : MigrationBundle) (s : ImportState)
    (w : MigrationWorkflowItem) (isNew : Prop) (e : WorkflowEntity) (field : ReferenceField) :
    Prop where
  followed : ∀ id ∈ field.followed w.nodes w.settings, ∃ text,
    field.text w.nodes w.settings = some text ∧ field.read text = id
  repointed : ∀ id ∈ field.bundleIds bundle, field.text w.nodes w.settings = some id →
    field.read id = id → (isNew → field.LookedUp w.nodes → field.OfType bundle id) →
    ∃ target, (field.targets s).get? id = some target ∧ field.Holds e.nodes e.settings target
  stays : (∀ id, field.text w.nodes w.settings = some id →
      id ∉ field.bundleIds bundle ∧ field.read id ∉ field.bundleIds bundle) →
    ¬(isNew ∧ field.LookedUp w.nodes) → field.value w.nodes w.settings ≠ .undefined →
    field.value e.nodes e.settings = field.value w.nodes w.settings

/-- What is in the bundle is re-pointed, and what is not stays, apart from credentials of new
workflows, which are looked up. -/
def RepointsReferences (db : ProjectDatabase) (bundle : MigrationBundle) (s : ImportState) : Prop :=
  ForImported bundle s fun w id e => ∀ field : ReferenceField,
    field.RepointedIn bundle s w (id ∉ db.workflows.keys) e

/-- What is read of a node that is written: its credentials are looked up when the workflow is new
and the node enabled. -/
structure NodeWritten (s : ImportState) (isNew : Prop) (node node' : JsObject) : Prop where
  executes : executesWorkflow node' = executesWorkflow node
  workflowId : nodeParameter node' "workflowId" = nodeParameter node "workflowId"
  dataTableId : nodeParameter node' "dataTableId" =
    replaceIdInParameter s.dataTableIdMap (nodeParameter node "dataTableId")
  credential : ∀ type, credentialEntry node' type =
      replaceEntryId s.credentialIdMap (credentialEntry node type) ∨
    (isNew ∧ (JsObject.get node "disabled").truthy = false) ∧
      ∃ (db : ProjectDatabase) (projectId : String) (cache : ProjectDatabase.CredentialsCache),
        db.credentials = s.db.credentials ∧ db.CacheOk cache ∧
        credentialEntry node' type = (db.replaceInvalidEntry projectId cache type
          (replaceEntryId s.credentialIdMap (credentialEntry node type))).2

theorem nodeAt_of_writesNodes {s : ImportState} {w : MigrationWorkflowItem} {isNew : Prop}
    (h : s.WritesNodes w isNew nodes) (i : ℕ) :
    NodeWritten s isNew (nodeAt w.nodes i) (nodeAt nodes i) := by
  have hreplaced := nodeAt_replaceIds s w i
  rcases h with rfl | ⟨hnew, newId, db, projectId, hdb, rfl⟩
  · exact ⟨hreplaced.executes, hreplaced.workflowId, hreplaced.dataTableId,
      fun type => Or.inl (hreplaced.credential type)⟩
  · have hid : ∀ key, key ≠ "id" → JsObject.get
        (nodeAt (addNodeIds newId (s.replaceIds w).nodes) i) key =
          JsObject.get (nodeAt (s.replaceIds w).nodes i) key :=
      fun key => get_nodeAt_addNodeIds newId _ i
    have hempty : db.CacheOk {} := fun _ _ _ _ hget => by cases hget
    have hlooks : db.LooksUp projectId (nodeAt (addNodeIds newId (s.replaceIds w).nodes) i)
        (nodeAt (db.replaceInvalidCredentials projectId
          (addNodeIds newId (s.replaceIds w).nodes)) i) :=
      ProjectDatabase.nodeAt_replaceInvalidNodes hempty _ i
    have hkey : ∀ key, key ≠ "id" → key ≠ "credentials" → JsObject.get
        (nodeAt (db.replaceInvalidCredentials projectId
          (addNodeIds newId (s.replaceIds w).nodes)) i) key =
          JsObject.get (nodeAt (s.replaceIds w).nodes i) key :=
      fun key hne hne' => (hlooks.key key hne').trans (hid key hne)
    have hparameter : ∀ name, nodeParameter (nodeAt (db.replaceInvalidCredentials projectId
        (addNodeIds newId (s.replaceIds w).nodes)) i) name =
          nodeParameter (nodeAt (s.replaceIds w).nodes i) name := by
      intro name
      rw [nodeParameter, hkey "parameters" (by decide) (by decide), nodeParameter]
    have hentry : ∀ type,
        credentialEntry (nodeAt (addNodeIds newId (s.replaceIds w).nodes) i) type =
          replaceEntryId s.credentialIdMap (credentialEntry (nodeAt w.nodes i) type) := by
      intro type
      rw [credentialEntry, hid "credentials" (by decide), ← hreplaced.credential, credentialEntry]
    refine ⟨?_, ?_, ?_, fun type => ?_⟩
    · rw [← hreplaced.executes, executesWorkflow, hkey "type" (by decide) (by decide),
        executesWorkflow]
    · rw [hparameter, hreplaced.workflowId]
    · rw [hparameter, hreplaced.dataTableId]
    · rw [← hentry type]
      cases hdisabled : (JsObject.get (nodeAt w.nodes i) "disabled").truthy with
      | true =>
        refine Or.inl (hlooks.disabled ?_ type)
        rw [hid "disabled" (by decide), hreplaced.disabled, hdisabled]
      | false =>
        rcases hlooks.entry type with hsame | ⟨cache, hcache, hlooked⟩
        · exact Or.inl hsame
        · exact Or.inr ⟨⟨hnew, rfl⟩, db, projectId, cache, hdb, hcache, hlooked⟩

/-! ### Error workflows -/

/-- Settings with an error workflow are an object. -/
theorem exists_of_errorWorkflow (h : settings.prop "errorWorkflow" ≠ .undefined) :
    ∃ props, settings = .obj props := by
  cases settings with
  | obj props => exact ⟨props, rfl⟩
  | arr xs =>
    rw [JsValue.prop, show numeral? "errorWorkflow" = none by decide] at h
    exact absurd rfl h
  | _ => exact absurd rfl h

theorem errorWorkflow_text :
    ReferenceField.errorWorkflow.text nodes settings = some id ↔
      settings.prop "errorWorkflow" = .str id ∧ id ≠ "" ∧ id ≠ "DEFAULT" := by
  rw [ReferenceField.text, Option.filter_eq_some_iff, nonEmptyText_eq_some, and_assoc,
    decide_eq_true_eq]

/-- An error workflow that is mapped becomes the id of the target. -/
theorem replaceErrorWorkflowInSettings_of_some (h : settings.prop "errorWorkflow" = .str id)
    (hempty : id ≠ "") (hdefault : id ≠ "DEFAULT") (hget : ids.get? id = some target)
    (old : JsValue) :
    (ProjectDatabase.orUndefined (replaceErrorWorkflowInSettings settings ids) old).prop
      "errorWorkflow" = .str target := by
  obtain ⟨props, rfl⟩ := exists_of_errorWorkflow (by rw [h]; exact fun h => by cases h)
  rw [JsValue.prop] at h
  have hreplace : replaceErrorWorkflowInSettings (.obj props) ids =
      .obj (JsObject.put props "errorWorkflow" (.str target)) := by
    unfold replaceErrorWorkflowInSettings
    dsimp only
    rw [h, if_neg (by simp [hempty, hdefault]), mappedId, hget]
  rw [hreplace, ProjectDatabase.orUndefined, if_neg (fun h => by cases h), JsValue.prop,
    ProjectDatabase.get_put, if_pos rfl]

theorem replaceErrorWorkflowInSettings_of_none (h : settings.prop "errorWorkflow" ≠ .undefined)
    (hnone : ∀ id, settings.prop "errorWorkflow" = .str id → id ≠ "" → id ≠ "DEFAULT" →
      ids.get? id = none) (old : JsValue) :
    ProjectDatabase.orUndefined (replaceErrorWorkflowInSettings settings ids) old = settings := by
  obtain ⟨props, rfl⟩ := exists_of_errorWorkflow h
  have hreplace : replaceErrorWorkflowInSettings (.obj props) ids = .obj props := by
    unfold replaceErrorWorkflowInSettings
    dsimp only
    split_ifs with hskip
    · rfl
    · rw [not_or] at hskip
      cases hvalue : JsObject.get props "errorWorkflow" with
      | str id =>
        have hid := hnone id hvalue (fun hempty => hskip.2 (by rw [hvalue, hempty]))
          (fun hdefault => hskip.1 (by rw [hvalue, hdefault]))
        rw [mappedId, hid]
      | _ => rfl
  rw [hreplace, ProjectDatabase.orUndefined, if_neg (fun h => by cases h)]

/-! ### What an import makes of references -/

section Repoints

variable {env : ImportEnvironment} {user : User} {db : ProjectDatabase} {bundle : MigrationBundle}
  {targetProjectId : Option String} {s : ImportState} {w : MigrationWorkflowItem} {id : String}
  {e : WorkflowEntity} {nodes : List JsObject}

/-- What is read of a node in a row. -/
theorem ImportedRow.nodeAt (h : ImportedRow db s w id e nodes) (i : ℕ) :
    nodeParameter (nodeAt e.nodes i) "workflowId" =
        (if executesWorkflow (N8n.nodeAt w.nodes i) then
          replaceIdInParameter s.workflowIdMap (nodeParameter (N8n.nodeAt w.nodes i) "workflowId")
        else nodeParameter (N8n.nodeAt w.nodes i) "workflowId") ∧
      nodeParameter (N8n.nodeAt e.nodes i) "dataTableId" =
        replaceIdInParameter s.dataTableIdMap
          (nodeParameter (N8n.nodeAt w.nodes i) "dataTableId") ∧
      ∀ type, credentialEntry (N8n.nodeAt e.nodes i) type =
        credentialEntry (N8n.nodeAt nodes i) type := by
  have hwritten := nodeAt_of_writesNodes h.completes i
  rw [h.written, nodeAt_replaceWorkflowIdsInNodes, hwritten.executes, ← hwritten.workflowId,
    ← hwritten.dataTableId]
  split_ifs
  · refine ⟨?_, ?_, fun type => credentialEntry_replaceIdInNode _ _ _ _⟩
    · rw [nodeParameter_replaceIdInNode _ _ (by decide), if_pos rfl]
    · rw [nodeParameter_replaceIdInNode _ _ (by decide), if_neg (by decide)]
  · exact ⟨rfl, rfl, fun type => rfl⟩

/-- **What an import makes of a reference.** -/
theorem ImportedRow.repointedIn (h : ImportedRow db s w id e nodes)
    (hids : ∀ (field : ReferenceField) (id : String),
      (id ∈ field.bundleIds bundle → ((field.targets s).get? id).isSome = true) ∧
        (id ∉ field.bundleIds bundle → (field.targets s).get? id = none))
    (htyped : s.CredentialsTyped bundle.credentials) (field : ReferenceField) :
    field.RepointedIn bundle s w (id ∉ db.workflows.keys) e := by
  have htarget : ∀ id ∈ field.bundleIds bundle, ∃ target, (field.targets s).get? id = some target :=
    fun id hid => Option.isSome_iff_exists.1 ((hids field id).1 hid)
  refine ⟨fun id hid => ReferenceField.text_of_followed hid, fun id' hid' htext hread htype => ?_,
    fun hother hlooked hvalue => ?_⟩
  · obtain ⟨target, hget⟩ := htarget id' hid'
    refine ⟨target, hget, ?_⟩
    cases field with
    | workflowId i =>
      rw [ReferenceField.text] at htext
      split_ifs at htext with hexecutes
      rw [ReferenceField.Holds, (h.nodeAt i).1, if_pos hexecutes]
      exact referenceText_replaceIdInParameter htext hget
    | dataTableId i =>
      rw [ReferenceField.Holds, (h.nodeAt i).2.1]
      exact referenceText_replaceIdInParameter htext hget
    | credential i type =>
      have hreplaced : (replaceEntryId s.credentialIdMap
          (credentialEntry (N8n.nodeAt w.nodes i) type)).prop "id" = .str target :=
        replaceEntryId_prop htext hget
      rw [ReferenceField.Holds, (h.nodeAt i).2.2]
      rcases (nodeAt_of_writesNodes h.completes i).credential type with
        hsame | ⟨⟨hnew, hdisabled⟩, db', projectId, cache, hdb, hcache, hlooked⟩
      · rw [hsame, hreplaced]
      · -- the credential that the id is mapped to is of the type of the entry
        obtain ⟨item, hitem, hname, c, hc, hctype⟩ := htyped id' target hget
        rw [hlooked]
        exact ProjectDatabase.replaceInvalidEntry_prop hcache hreplaced (hdb ▸ hc)
          (hctype.trans (htype hnew hdisabled item hitem hname))
    | errorWorkflow =>
      obtain ⟨hsettings, hempty, hdefault⟩ := errorWorkflow_text.1 htext
      obtain ⟨old, hold⟩ := h.settings
      rw [ReferenceField.Holds, hold]
      exact replaceErrorWorkflowInSettings_of_some hsettings hempty hdefault hget old
  · have hnone : ∀ id, field.text w.nodes w.settings = some id → (field.targets s).get? id = none :=
      fun id hid => (hids field id).2 (hother id hid).1
    cases field with
    | workflowId i =>
      rw [ReferenceField.value, (h.nodeAt i).1, ReferenceField.value]
      split_ifs with hexecutes
      · refine replaceIdInParameter_of_none fun text htext => hnone text ?_
        rw [ReferenceField.text, if_pos hexecutes, htext]
      · rfl
    | dataTableId i =>
      rw [ReferenceField.value, (h.nodeAt i).2.1, ReferenceField.value]
      exact replaceIdInParameter_of_none hnone
    | credential i type =>
      rw [ReferenceField.value, (h.nodeAt i).2.2, ReferenceField.value]
      rcases (nodeAt_of_writesNodes h.completes i).credential type with hsame | ⟨hboth, -⟩
      · rw [hsame]
        exact replaceEntryId_of_none hnone
      · exact absurd hboth hlooked
    | errorWorkflow =>
      obtain ⟨old, hold⟩ := h.settings
      rw [ReferenceField.value, hold, replaceErrorWorkflowInSettings_of_none hvalue,
        ReferenceField.value]
      exact fun id hid hempty hdefault => hnone id (errorWorkflow_text.2 ⟨hid, hempty, hdefault⟩)

/-- **Re-pointed references**: an import that succeeds re-points the references to what is in the
bundle, and leaves the others. -/
theorem importMigrationBundle_repoints (henv : env.Fresh)
    (h : importMigrationBundle env user db bundle targetProjectId = .ok s) :
    RepointsReferences db bundle s := by
  intro before w after hw hlast
  obtain ⟨id, e, nodes, hrow⟩ := exists_importedRow henv h hw hlast
  exact ⟨id, e, hrow.mapped, hrow.row,
    hrow.repointedIn (targets_get? henv h) (credentialsTyped_of_import henv h)⟩

end Repoints

/-! ### A credential of the old style -/

/-- A project of the user with a credential. -/
def oneCredential : ProjectDatabase :=
  { oneProject with
    credentials := .ofList [("c1",
      { name := "Mail", type := "smtp", shared := [⟨"p1", "credential:owner"⟩] })] }

/-- A workflow with a node that has the id of its credential, or its name. -/
def mailWorkflow (entry : JsValue) : MigrationBundle where
  workflows := [
    { id := "a", name := "Sync", path := ⟨"x", "X", none, none⟩,
      nodes := [[("id", .str "1"), ("credentials", .obj [("smtp", entry)])]] }]
  credentials := [{ id := "c9", name := "Mail", type := "smtp" }]

theorem importMigrationBundle_repoints_mailWorkflow :
    ∃ s, importMigrationBundle .longIds { id := "u1" } oneCredential
        (mailWorkflow (.obj [("id", .str "c9")])) (some "p1") = .ok s ∧
      RepointsReferences oneCredential (mailWorkflow (.obj [("id", .str "c9")])) s := by
  have hok : (importMigrationBundle .longIds { id := "u1" } oneCredential
      (mailWorkflow (.obj [("id", .str "c9")])) (some "p1")).toOption.isSome := by decide
  cases h : importMigrationBundle .longIds { id := "u1" } oneCredential
      (mailWorkflow (.obj [("id", .str "c9")])) (some "p1") with
  | error f => rw [h] at hok; cases hok
  | ok s => exact ⟨s, rfl, importMigrationBundle_repoints ImportEnvironment.longIds_fresh h⟩

/-- The name of a credential, which the export does not follow, becomes a credential of the target
in a new workflow. -/
theorem import_replaces_credential_name :
    ¬ ∀ (env : ImportEnvironment) (user : User) (db : ProjectDatabase) (bundle : MigrationBundle)
        (targetProjectId : Option String) (s : ImportState), env.Fresh →
      importMigrationBundle env user db bundle targetProjectId = .ok s →
      FollowsReferences bundle s := by
  intro hall
  have hchanged : (importMigrationBundle .longIds { id := "u1" } oneCredential
      (mailWorkflow (.str "Mail")) (some "p1")).toOption.any fun s =>
        ((s.workflowIdMap.get? "a").bind s.db.workflows.get?).all fun e =>
          (ReferenceField.credential 0 "smtp").value e.nodes e.settings ≠ .str "Mail" := by decide
  cases h : importMigrationBundle .longIds { id := "u1" } oneCredential
      (mailWorkflow (.str "Mail")) (some "p1") with
  | error f => rw [h] at hchanged; cases hchanged
  | ok s =>
    rw [h] at hchanged
    obtain ⟨id, e, hid, he, hfields⟩ := hall _ _ _ _ _ s ImportEnvironment.longIds_fresh h [] _ []
      rfl fun w hw => absurd hw List.not_mem_nil
    have hsame := (hfields (.credential 0 "smtp")).2 (by decide) (by decide)
    rw [Except.toOption, Option.any_some] at hchanged
    rw [show s.workflowIdMap.get? "a" = some id from hid, Option.bind_some, he, Option.all_some,
      decide_eq_true_eq] at hchanged
    exact hchanged hsame

end N8n
