import Mathlib.Data.List.Dedup
import N8n.Permissions.CheckAccess

/-!
# Shown permissions are the enforced ones

* `KeysHold`: what the keys of the tables ensure; `HasStaticSharingRoles`: the sharing roles are
  those of the static maps;
* `RelatesWith`: the user has a role with a scope in a project, which the three look-ups read
  differently;
* `mem_combineResourceScopes_iff`, `userHasScopes_workflow_iff`, `userHasScopes_credential_iff`,
  `findCredentialForUser_isSome_iff`: what each of them says;
* `shownScopes_iff_enforced`.
-/

namespace N8n

open Permissions

/-! ### Assumptions -/

namespace ProjectDatabase

variable (db : ProjectDatabase)

/-- What the keys of the tables ensure. -/
structure KeysHold : Prop where
  roles : (db.roles.map Role.slug).Nodup
  relations : (db.projectRelations.map fun r => (r.userId, r.projectId)).Nodup
  /-- The role of a relation is a project role. -/
  relationRoles : ∀ r ∈ db.projectRelations, ∃ role ∈ db.roles,
    role.slug = r.role ∧ role.roleType = .project
  workflows : db.workflows.get? "" = none
  credentials : db.credentials.get? "" = none

/-- Every sharing has a static role, and these roles have their static scopes. -/
structure HasStaticSharingRoles : Prop where
  workflows : ∀ id w, db.workflows.get? id = some w → ∀ sharing ∈ w.shared,
    (WORKFLOW_SHARING_SCOPE_MAP.get? sharing.role).isSome
  credentials : ∀ id c, db.credentials.get? id = some c → ∀ sharing ∈ c.shared,
    (CREDENTIALS_SHARING_SCOPE_MAP.get? sharing.role).isSome
  workflowRoles : ∀ role scopes, WORKFLOW_SHARING_SCOPE_MAP.get? role = some scopes →
    ∀ s, role ∈ db.rolesWithScope .workflow [s] ↔ s ∈ scopes
  credentialRoles : ∀ role scopes, CREDENTIALS_SHARING_SCOPE_MAP.get? role = some scopes →
    ∀ s, role ∈ db.rolesWithScope .credential [s] ↔ s ∈ scopes

end ProjectDatabase

namespace Permissions

/-- An entity has a workflow with its sharings loaded. -/
structure RawEntity.IsWorkflow (raw : RawEntity) (w : WorkflowEntity) : Prop where
  properties : raw.hasVersionId = true ∨ raw.hasActiveVersionId = true ∨ raw.hasTriggerCount = true
  shared : ∃ shared, raw.shared = some shared ∧
    (shared.map fun x => Sharing.mk x.ownProjectId x.role).Perm w.shared

/-- An entity has a credential with its sharings loaded. -/
structure RawEntity.IsCredential (raw : RawEntity) (c : CredentialsEntity) : Prop where
  hasVersionId : raw.hasVersionId = false
  hasActiveVersionId : raw.hasActiveVersionId = false
  hasTriggerCount : raw.hasTriggerCount = false
  hasType : raw.hasType = true
  isGlobal : raw.isGlobal = some c.isGlobal
  shared : ∃ shared, raw.shared = some shared ∧
    (shared.map fun x => Sharing.mk x.ownProjectId x.role).Perm c.shared

/-- `addScopes` lists a scope. -/
def Shows (db : ProjectDatabase) (user : User) (raw : RawEntity) (s : String) : Prop :=
  ∃ scopes, addScopes raw user (db.getProjectRelationsForUser user) = .ok scopes ∧ s ∈ scopes

end Permissions

/-! ### Relations -/

namespace ProjectDatabase

variable {db : ProjectDatabase} {user : User} {projectId s : String}

/-- The user has a role in the project that has the scope. -/
def RelatesWith (db : ProjectDatabase) (user : User) (projectId s : String) : Prop :=
  ∃ r ∈ db.projectRelations, r.userId = user.id ∧ r.projectId = projectId ∧
    ∃ role ∈ db.roles, role.slug = r.role ∧ s ∈ role.scopes

theorem mem_rolesWithScope {ns : RoleNamespace} {slug : String} :
    slug ∈ db.rolesWithScope ns [s] ↔
      ∃ role ∈ db.roles, role.slug = slug ∧ role.roleType = ns ∧ s ∈ role.scopes := by
  simp only [rolesWithScope, List.mem_map, List.mem_filter, List.all_cons, List.all_nil,
    Bool.and_true, Bool.and_eq_true, decide_eq_true_eq]
  constructor
  · rintro ⟨role, ⟨hrole, hns, hs⟩, rfl⟩
    exact ⟨role, hrole, rfl, hns, hs⟩
  · rintro ⟨role, hrole, rfl, hns, hs⟩
    exact ⟨role, ⟨hrole, hns, hs⟩, rfl⟩

theorem KeysHold.role_unique (h : db.KeysHold) {role role' : Role} (hrole : role ∈ db.roles)
    (hrole' : role' ∈ db.roles) (hslug : role.slug = role'.slug) : role = role' :=
  List.inj_on_of_nodup_map h.roles hrole hrole' hslug

/-- The finders look for the roles by their names. -/
theorem relatesWithScope_iff (h : db.KeysHold) :
    db.relatesWithScope user projectId [s] = true ↔ db.RelatesWith user projectId s := by
  simp only [relatesWithScope, List.any_eq_true, Bool.and_eq_true, decide_eq_true_eq,
    mem_rolesWithScope, RelatesWith]
  constructor
  · rintro ⟨r, hr, ⟨hproject, huser⟩, role, hrole, hslug, -, hs⟩
    exact ⟨r, hr, huser, hproject, role, hrole, hslug, hs⟩
  · rintro ⟨r, hr, huser, hproject, role, hrole, hslug, hs⟩
    obtain ⟨role', hrole', hslug', htype⟩ := h.relationRoles r hr
    obtain rfl := h.role_unique hrole hrole' (hslug.trans hslug'.symm)
    exact ⟨r, hr, ⟨hproject, huser⟩, role, hrole, hslug, htype, hs⟩

theorem mem_getProjectRelationsForUser (h : db.KeysHold) {relation : LoadedRelation} :
    relation ∈ db.getProjectRelationsForUser user ↔ ∃ r ∈ db.projectRelations,
      r.userId = user.id ∧ r.projectId = relation.projectId ∧ relation.role ∈ db.roles ∧
        relation.role.slug = r.role := by
  simp only [getProjectRelationsForUser, List.mem_filterMap, List.mem_filter, decide_eq_true_eq,
    Option.map_eq_some_iff]
  constructor
  · rintro ⟨r, ⟨hr, huser⟩, role, hrole, rfl⟩
    have hslug := List.find?_some hrole
    exact ⟨r, hr, huser, rfl, List.mem_of_find?_eq_some hrole, by simpa using hslug⟩
  · rintro ⟨r, hr, huser, hproject, hrole, hslug⟩
    refine ⟨r, ⟨hr, huser⟩, relation.role, ?_, by rw [hproject]⟩
    cases hfind : db.roles.find? fun role => role.slug = r.role with
    | none =>
      have hnone := List.find?_eq_none.1 hfind relation.role hrole
      simp [hslug] at hnone
    | some role =>
      have hslug' := List.find?_some hfind
      have hmem := List.mem_of_find?_eq_some hfind
      rw [h.role_unique hmem hrole (by simpa [hslug] using hslug')]

theorem relatesWith_iff_exists (h : db.KeysHold) :
    db.RelatesWith user projectId s ↔ ∃ relation ∈ db.getProjectRelationsForUser user,
      relation.projectId = projectId ∧ s ∈ relation.role.scopes := by
  simp only [mem_getProjectRelationsForUser h]
  constructor
  · rintro ⟨r, hr, huser, hproject, role, hrole, hslug, hs⟩
    exact ⟨⟨projectId, role⟩, ⟨r, hr, huser, hproject, hrole, hslug⟩, rfl, hs⟩
  · rintro ⟨relation, ⟨r, hr, huser, hproject, hrole, hslug⟩, rfl, hs⟩
    exact ⟨r, hr, huser, hproject, relation.role, hrole, hslug, hs⟩

/-- There is one relation for each project, which the listing finds. -/
theorem relatesWith_iff_find? (h : db.KeysHold) :
    db.RelatesWith user projectId s ↔
      s ∈ (((db.getProjectRelationsForUser user).find? fun p => p.projectId = projectId).map
        fun pr => pr.role.scopes).getD [] := by
  rw [relatesWith_iff_exists h]
  cases hfind : (db.getProjectRelationsForUser user).find? fun p => p.projectId = projectId with
  | none =>
    simp only [Option.map_none, Option.getD_none, List.not_mem_nil, iff_false]
    rintro ⟨relation, hrelation, hproject, -⟩
    have hnone := List.find?_eq_none.1 hfind relation hrelation
    simp [hproject] at hnone
  | some pr =>
    have hproject : pr.projectId = projectId := by simpa using List.find?_some hfind
    have hpr := List.mem_of_find?_eq_some hfind
    simp only [Option.map_some, Option.getD_some]
    constructor
    · rintro ⟨relation, hrelation, hproject', hs⟩
      obtain ⟨r, hr, huser, hid, hrole, hslug⟩ := (mem_getProjectRelationsForUser h).1 hrelation
      obtain ⟨r', hr', huser', hid', hrole', hslug'⟩ := (mem_getProjectRelationsForUser h).1 hpr
      obtain rfl : r = r' := List.inj_on_of_nodup_map h.relations hr hr' (by
        rw [huser, huser', hid, hid', hproject, hproject'])
      rwa [h.role_unique hrole' hrole (hslug'.trans hslug.symm)]
    · exact fun hs => ⟨pr, hpr, hproject, hs⟩

/-- The query counts one scope. -/
theorem mem_userProjectIds_iff (h : db.KeysHold) :
    projectId ∈ db.userProjectIds user [s] ↔ db.RelatesWith user projectId s := by
  rw [relatesWith_iff_exists h]
  have hrow : ∀ id slug, (id, slug) ∈ (db.getProjectRelationsForUser user).flatMap (fun relation =>
      (relation.role.scopes.filter (· ∈ [s])).map fun slug => (relation.projectId, slug)) ↔
        slug = s ∧ ∃ relation ∈ db.getProjectRelationsForUser user,
          relation.projectId = id ∧ s ∈ relation.role.scopes := by
    intro id slug
    simp only [List.mem_flatMap, List.mem_map, List.mem_filter, List.mem_singleton,
      decide_eq_true_eq, Prod.mk.injEq]
    constructor
    · rintro ⟨relation, hrelation, slug', ⟨hslug', rfl⟩, hid, rfl⟩
      exact ⟨rfl, relation, hrelation, hid, hslug'⟩
    · rintro ⟨rfl, relation, hrelation, hid, hslug⟩
      exact ⟨relation, hrelation, slug, ⟨hslug, rfl⟩, hid, rfl⟩
  rw [userProjectIds, List.mem_filter, List.mem_dedup, List.mem_map]
  constructor
  · rintro ⟨⟨⟨id, slug⟩, hmem, rfl⟩, -⟩
    exact ((hrow id slug).1 hmem).2
  · intro hrelation
    have hmem := (hrow projectId s).2 ⟨rfl, hrelation⟩
    refine ⟨⟨_, hmem, rfl⟩, ?_⟩
    -- every row of the project has the scope
    have hall : ∀ slug ∈ ((List.flatMap (fun relation : LoadedRelation =>
        (relation.role.scopes.filter (· ∈ [s])).map fun slug => (relation.projectId, slug))
        (db.getProjectRelationsForUser user)).filter fun row => row.1 = projectId).map Prod.snd,
        slug = s := by
      intro slug hslug
      obtain ⟨⟨id, slug⟩, hmem, rfl⟩ := List.mem_map.1 hslug
      exact ((hrow id slug).1 (List.mem_filter.1 hmem).1).1
    rw [List.eq_replicate_of_mem hall, List.replicate_dedup]
    · simp
    · rw [List.length_map]
      exact (List.length_pos_of_mem (List.mem_filter.2 ⟨hmem, by simp⟩)).ne'

end ProjectDatabase

/-! ### What is shown -/

namespace Permissions

variable {db : ProjectDatabase} {user : User} {s : String}

variable {type role : String} {scopes : List String} {raw : RawEntity}

theorem mem_getAuthPrincipalScopes (hs : resourceOf s = type) :
    s ∈ getAuthPrincipalScopes user [type] ↔ s ∈ user.scopes := by
  simp [getAuthPrincipalScopes, hs]

theorem hasGlobalScope_singleton : user.hasGlobalScope [s] = true ↔ s ∈ user.scopes := by
  simp [User.hasGlobalScope]

theorem mem_combineScopes {globalScopes projectScopes mask : List String} :
    s ∈ combineScopes { global := globalScopes, project := some projectScopes } (some mask) ↔
      s ∈ globalScopes ∨ s ∈ projectScopes ∧ s ∈ mask := by
  simp [combineScopes]

theorem getRoleScopes_of_credential (h : CREDENTIALS_SHARING_SCOPE_MAP.get? role = some scopes) :
    getRoleScopes role = some scopes := by
  have hmem := Dict.mem_of_get?_ofList h
  simp only [List.mem_cons, Prod.mk.injEq, List.not_mem_nil, or_false] at hmem
  rcases hmem with ⟨rfl, rfl⟩ | ⟨rfl, rfl⟩ <;> rfl

theorem getRoleScopes_of_workflow (h : WORKFLOW_SHARING_SCOPE_MAP.get? role = some scopes) :
    getRoleScopes role = some scopes := by
  have hmem := Dict.mem_of_get?_ofList h
  simp only [List.mem_cons, Prod.mk.injEq, List.not_mem_nil, or_false] at hmem
  rcases hmem with ⟨rfl, rfl⟩ | ⟨rfl, rfl⟩ <;> rfl

theorem mem_foldl_union {ι : Type*} (f : ι → OrderedSet String) (l : List ι)
    (set : OrderedSet String) :
    s ∈ l.foldl (fun set x => set.union (f x)) set ↔ s ∈ set ∨ ∃ x ∈ l, s ∈ f x := by
  induction l generalizing set with
  | nil => simp
  | cons x l ih => simp [ih, or_assoc]

/-- What a sharing of a resource gives: the user has a role in its project that has the scope, and
so does the role of the sharing. -/
def Gives (db : ProjectDatabase) (user : User) (ns : RoleNamespace) (s : String)
    (sharing : Sharing) : Prop :=
  db.RelatesWith user sharing.projectId s ∧ sharing.role ∈ db.rolesWithScope ns [s]

/-- The mask of a sharing is what its role has in the database. -/
def MaskedAs (db : ProjectDatabase) (ns : RoleNamespace) (s : String) (sharing : Sharing) : Prop :=
  ∃ mask, getRoleScopes sharing.role = some mask ∧
    (sharing.role ∈ db.rolesWithScope ns [s] ↔ s ∈ mask)

variable {id : String} {w : WorkflowEntity} {c : CredentialsEntity}

theorem maskedAs_workflow (hstatic : db.HasStaticSharingRoles)
    (hw : db.workflows.get? id = some w) :
    ∀ sharing ∈ w.shared, MaskedAs db .workflow s sharing := by
  intro sharing hsharing
  obtain ⟨mask, hmask⟩ := Option.isSome_iff_exists.1 (hstatic.workflows id w hw sharing hsharing)
  exact ⟨mask, getRoleScopes_of_workflow hmask, hstatic.workflowRoles _ _ hmask s⟩

theorem maskedAs_credential (hstatic : db.HasStaticSharingRoles)
    (hc : db.credentials.get? id = some c) :
    ∀ sharing ∈ c.shared, MaskedAs db .credential s sharing := by
  intro sharing hsharing
  obtain ⟨mask, hmask⟩ := Option.isSome_iff_exists.1 (hstatic.credentials id c hc sharing hsharing)
  exact ⟨mask, getRoleScopes_of_credential hmask, hstatic.credentialRoles _ _ hmask s⟩

/-- The listing: a scope is global, or given by a sharing. -/
theorem mem_combineResourceScopes_iff (h : db.KeysHold) (hs : resourceOf s = type)
    {ns : RoleNamespace} {shared : List SharedEntity} {sharings : List Sharing}
    (hperm : (shared.map fun x => Sharing.mk x.ownProjectId x.role).Perm sharings)
    (hmasked : ∀ sharing ∈ sharings, MaskedAs db ns s sharing) :
    s ∈ combineResourceScopes type user shared (db.getProjectRelationsForUser user) ↔
      s ∈ user.scopes ∨ ∃ sharing ∈ sharings, Gives db user ns s sharing := by
  have hmem : ∀ x ∈ shared, ⟨x.ownProjectId, x.role⟩ ∈ sharings := fun x hx =>
    hperm.subset (List.mem_map_of_mem hx)
  rw [combineResourceScopes, List.mem_mergeSort, OrderedSet.mem_elems, mem_foldl_union,
    OrderedSet.mem_ofList, mem_getAuthPrincipalScopes hs]
  constructor
  · rintro (hglobal | ⟨x, hx, hscope⟩)
    · exact Or.inl hglobal
    · obtain ⟨mask, hmask, hrole⟩ := hmasked _ (hmem x hx)
      rw [hmask, mem_combineScopes, mem_getAuthPrincipalScopes hs,
        ← ProjectDatabase.relatesWith_iff_find? h] at hscope
      exact hscope.imp_right fun ⟨hrelates, hs⟩ => ⟨_, hmem x hx, hrelates, hrole.2 hs⟩
  · rintro (hglobal | ⟨sharing, hsharing, hrelates, hrole⟩)
    · exact Or.inl hglobal
    · obtain ⟨x, hx, rfl⟩ := List.mem_map.1 (hperm.symm.subset hsharing)
      obtain ⟨mask, hmask, hrole'⟩ := hmasked _ hsharing
      refine Or.inr ⟨x, hx, ?_⟩
      rw [hmask, mem_combineScopes, ← ProjectDatabase.relatesWith_iff_find? h]
      exact Or.inr ⟨hrelates, hrole'.1 hrole⟩

theorem shows_workflow_iff (h : db.KeysHold) (hstatic : db.HasStaticSharingRoles)
    (hw : db.workflows.get? id = some w) (hraw : raw.IsWorkflow w)
    (hs : resourceOf s = "workflow") :
    Shows db user raw s ↔
      s ∈ user.scopes ∨ ∃ sharing ∈ w.shared, Gives db user .workflow s sharing := by
  obtain ⟨shared, hshared, hperm⟩ := hraw.shared
  have hworkflow :
      (raw.hasVersionId || raw.hasActiveVersionId || raw.hasTriggerCount) = true := by
    simpa [or_assoc] using hraw.properties
  rw [← mem_combineResourceScopes_iff h hs hperm (maskedAs_workflow hstatic hw)]
  simp [Shows, addScopes, hshared, hworkflow]

/-- A global credential may be read. -/
theorem shows_credential_iff (h : db.KeysHold) (hstatic : db.HasStaticSharingRoles)
    (hc : db.credentials.get? id = some c) (hraw : raw.IsCredential c)
    (hs : resourceOf s = "credential") :
    Shows db user raw s ↔ (s ∈ user.scopes ∨ ∃ sharing ∈ c.shared,
      Gives db user .credential s sharing) ∨ s = "credential:read" ∧ c.isGlobal = true := by
  obtain ⟨shared, hshared, hperm⟩ := hraw.shared
  rw [← mem_combineResourceScopes_iff h hs hperm (maskedAs_credential hstatic hc)]
  have hadd : addScopes raw user (db.getProjectRelationsForUser user) = .ok
      (if c.isGlobal = true ∧ "credential:read" ∉ combineResourceScopes "credential" user shared
          (db.getProjectRelationsForUser user) then
        combineResourceScopes "credential" user shared (db.getProjectRelationsForUser user) ++
          ["credential:read"]
      else
        combineResourceScopes "credential" user shared (db.getProjectRelationsForUser user)) := by
    simp [addScopes, hshared, hraw.hasVersionId, hraw.hasActiveVersionId, hraw.hasTriggerCount,
      hraw.hasType, hraw.isGlobal, apply_ite]
  simp only [Shows, hadd, Except.ok.injEq, exists_eq_left']
  split_ifs with hread
  · simp [hread.1]
  · constructor
    · exact Or.inl
    · rintro (hmem | ⟨rfl, hglobal⟩)
      · exact hmem
      · exact not_not.1 fun hnot => hread ⟨hglobal, hnot⟩

/-! ### What is checked -/

theorem userHasScopes_workflow_iff (h : db.KeysHold) (hw : db.workflows.get? id = some w)
    (hshared : w.shared ≠ []) (dataTableIsActive : Bool) :
    db.userHasScopes (buildRoleScopeMap db.roles) dataTableIsActive user [s] false
        { workflowId := id } = .ok true ↔
      s ∈ user.scopes ∨ ∃ sharing ∈ w.shared, Gives db user .workflow s sharing := by
  have hid : id ≠ "" := by
    rintro rfl
    rw [h.workflows] at hw
    cases hw
  have hempty : w.shared.isEmpty = false := by simpa using hshared
  rw [ProjectDatabase.userHasScopes]
  by_cases hglobal : user.hasGlobalScope [s] = true
  · simp [hglobal, hasGlobalScope_singleton.1 hglobal]
  · have hglobal' := mt hasGlobalScope_singleton.2 hglobal
    simp [hglobal, hglobal', hid, hw, hempty, Gives, ProjectDatabase.mem_userProjectIds_iff h,
      mem_getRolesWithAllScopes h.roles]

theorem userHasScopes_credential_iff (h : db.KeysHold) (hc : db.credentials.get? id = some c)
    (hshared : c.shared ≠ []) (dataTableIsActive : Bool) :
    db.userHasScopes (buildRoleScopeMap db.roles) dataTableIsActive user [s] false
        { credentialId := id } = .ok true ↔
      (s ∈ user.scopes ∨ ∃ sharing ∈ c.shared, Gives db user .credential s sharing) ∨
        s = "credential:read" ∧ c.isGlobal = true := by
  have hid : id ≠ "" := by
    rintro rfl
    rw [h.credentials] at hc
    cases hc
  have hempty : c.shared.isEmpty = false := by simpa using hshared
  rw [ProjectDatabase.userHasScopes]
  by_cases hglobal : user.hasGlobalScope [s] = true
  · simp [hglobal, hasGlobalScope_singleton.1 hglobal]
  · have hglobal' := mt hasGlobalScope_singleton.2 hglobal
    simp [hglobal, hglobal', hid, hc, hempty, Gives, ProjectDatabase.mem_userProjectIds_iff h,
      mem_getRolesWithAllScopes h.roles, ProjectDatabase.hasGlobalReadOnlyAccess,
      ProjectDatabase.findGlobalCredentialById]

theorem findCredentialForUser_isSome_iff (h : db.KeysHold) (hc : db.credentials.get? id = some c)
    (hshared : c.shared ≠ []) :
    (db.findCredentialForUser user id [s]).isSome ↔
      (s ∈ user.scopes ∨ ∃ sharing ∈ c.shared, Gives db user .credential s sharing) ∨
        s = "credential:read" ∧ c.isGlobal = true := by
  obtain ⟨first, hfirst⟩ := List.exists_mem_of_ne_nil _ hshared
  rw [ProjectDatabase.findCredentialForUser, hc]
  by_cases hglobal : user.hasGlobalScope [s] = true
  · have hany : c.shared.any (db.sharingGives user .credential [s]) = true :=
      List.any_eq_true.2 ⟨first, hfirst, by simp [ProjectDatabase.sharingGives, hglobal]⟩
    simp [Option.filter, hany, hasGlobalScope_singleton.1 hglobal]
  · have hglobal' := mt hasGlobalScope_singleton.2 hglobal
    have hgives : ∀ sharing, db.sharingGives user .credential [s] sharing = true ↔
        Gives db user .credential s sharing := by
      intro sharing
      rw [ProjectDatabase.sharingGives, Bool.or_eq_true, Bool.and_eq_true, decide_eq_true_eq,
        ProjectDatabase.relatesWithScope_iff h, Gives, and_comm]
      exact or_iff_right hglobal
    rw [Option.filter, Option.isSome_ite]
    simp [hglobal', hgives, ProjectDatabase.hasGlobalReadOnlyAccess]

/-- **Shown permissions are the enforced ones.** -/
theorem shownScopes_iff_enforced (db : ProjectDatabase) (h : db.KeysHold)
    (hstatic : db.HasStaticSharingRoles) (user : User) (dataTableIsActive : Bool) (id s : String) :
    (∀ w raw, db.workflows.get? id = some w → w.shared ≠ [] → raw.IsWorkflow w →
      resourceOf s = "workflow" →
        (db.userHasScopes (buildRoleScopeMap db.roles) dataTableIsActive user [s] false
            { workflowId := id } = .ok true ↔
          Shows db user raw s)) ∧
      ∀ c raw, db.credentials.get? id = some c → c.shared ≠ [] → raw.IsCredential c →
        resourceOf s = "credential" →
          (db.userHasScopes (buildRoleScopeMap db.roles) dataTableIsActive user [s] false
              { credentialId := id } = .ok true ↔
            Shows db user raw s) ∧
          (Shows db user raw s ↔ (db.findCredentialForUser user id [s]).isSome) := by
  refine ⟨fun w raw hw hshared hraw hs => ?_, fun c raw hc hshared hraw hs => ⟨?_, ?_⟩⟩
  · rw [userHasScopes_workflow_iff h hw hshared, shows_workflow_iff h hstatic hw hraw hs]
  · rw [userHasScopes_credential_iff h hc hshared, shows_credential_iff h hstatic hc hraw hs]
  · rw [findCredentialForUser_isSome_iff h hc hshared, shows_credential_iff h hstatic hc hraw hs]

/-- A workflow and a credential in a project where the user has a custom role. -/
def customRoleDatabase : ProjectDatabase where
  roles := [⟨"project:custom", .project, ["workflow:read", "credential:read"]⟩,
    ⟨"workflow:owner", .workflow, WORKFLOW_SHARING_OWNER_SCOPES⟩,
    ⟨"workflow:editor", .workflow, WORKFLOW_SHARING_EDITOR_SCOPES⟩,
    ⟨"credential:owner", .credential, CREDENTIALS_SHARING_OWNER_SCOPES⟩,
    ⟨"credential:user", .credential, CREDENTIALS_SHARING_USER_SCOPES⟩]
  projectRelations := [⟨"p", "u", "project:custom"⟩]
  workflows := Dict.empty.set "w" { name := "w", shared := [⟨"p", "workflow:owner"⟩] }
  credentials :=
    Dict.empty.set "c" { name := "c", type := "t", shared := [⟨"p", "credential:user"⟩] }

theorem keysHold_customRoleDatabase : customRoleDatabase.KeysHold := by
  refine ⟨by decide, by decide, ?_, by decide, by decide⟩
  intro r hr
  obtain rfl := List.mem_singleton.1 hr
  exact ⟨_, List.mem_cons_self, rfl, rfl⟩

theorem hasStaticSharingRoles_customRoleDatabase : customRoleDatabase.HasStaticSharingRoles := by
  refine ⟨fun id w hw sharing hsharing => ?_, fun id c hc sharing hsharing => ?_,
    fun role scopes hrole s => ?_, fun role scopes hrole s => ?_⟩
  · rw [customRoleDatabase, Dict.get?_set] at hw
    split at hw <;> cases hw
    obtain rfl := List.mem_singleton.1 hsharing
    rfl
  · rw [customRoleDatabase, Dict.get?_set] at hc
    split at hc <;> cases hc
    obtain rfl := List.mem_singleton.1 hsharing
    rfl
  · have hmem := Dict.mem_of_get?_ofList hrole
    simp only [List.mem_cons, Prod.mk.injEq, List.not_mem_nil, or_false] at hmem
    rcases hmem with ⟨rfl, rfl⟩ | ⟨rfl, rfl⟩ <;>
      simp [ProjectDatabase.mem_rolesWithScope, customRoleDatabase]
  · have hmem := Dict.mem_of_get?_ofList hrole
    simp only [List.mem_cons, Prod.mk.injEq, List.not_mem_nil, or_false] at hmem
    rcases hmem with ⟨rfl, rfl⟩ | ⟨rfl, rfl⟩ <;>
      simp [ProjectDatabase.mem_rolesWithScope, customRoleDatabase]

/-- The workflow as it is listed. -/
def listedWorkflow : RawEntity where
  hasVersionId := true
  shared := some [{ role := "workflow:owner", project := "p" }]

/-- The credential as it is listed. -/
def listedCredential : RawEntity where
  hasType := true
  isGlobal := some false
  shared := some [{ role := "credential:user", projectId := some "p", project := "" }]

/-- The user may read both, and this is shown. -/
theorem shownScopes_iff_enforced_customRole :
    (customRoleDatabase.userHasScopes (buildRoleScopeMap customRoleDatabase.roles) false
          { id := "u" } ["workflow:read"] false { workflowId := "w" } = .ok true ↔
        Shows customRoleDatabase { id := "u" } listedWorkflow "workflow:read") ∧
      (customRoleDatabase.userHasScopes (buildRoleScopeMap customRoleDatabase.roles) false
          { id := "u" } ["credential:read"] false { credentialId := "c" } = .ok true ↔
        Shows customRoleDatabase { id := "u" } listedCredential "credential:read") := by
  have hkeys := keysHold_customRoleDatabase
  have hroles := hasStaticSharingRoles_customRoleDatabase
  constructor
  · refine (shownScopes_iff_enforced customRoleDatabase hkeys hroles { id := "u" } false "w"
      "workflow:read").1 { name := "w", shared := [⟨"p", "workflow:owner"⟩] } _ rfl (by simp) ?_
      (by decide)
    exact ⟨Or.inl rfl, _, rfl, List.Perm.refl _⟩
  · refine ((shownScopes_iff_enforced customRoleDatabase hkeys hroles { id := "u" } false "c"
      "credential:read").2 { name := "c", type := "t", shared := [⟨"p", "credential:user"⟩] } _ rfl
      (by simp) ?_ (by decide)).1
    exact ⟨rfl, rfl, rfl, rfl, rfl, _, rfl, List.Perm.refl _⟩

end Permissions

end N8n
