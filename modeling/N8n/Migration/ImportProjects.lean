import Mathlib.Algebra.Order.BigOperators.Group.List
import N8n.Migration.Import

/-!
# The projects of an import

What `importProjects` finds and creates, said of the database before the import.

* `ImportEnvironment.Fresh`: new ids are not in use;
* `ProjectRef`, `projectRef`: the project of a name, found or to be created;
* `projectsToCreate`: the names of the projects that are created;
* `importProjects_spec`: the database and the map that the first loop leaves.
-/

namespace N8n

/-- The project that an import uses for a name. -/
inductive ProjectRef
  | existing (id : String)
  | created (name : String)
  deriving DecidableEq

/-- The id of the project, when the created projects have the ids `newIds`. -/
def ProjectRef.id (newIds : String → String) : ProjectRef → String
  | .existing id => id
  | .created name => newIds name

/-! ### Ids -/

/-- The ids of the rows of a database, and those that the rows refer to. -/
def ProjectDatabase.ids (db : ProjectDatabase) : List String :=
  db.projects.keys ++ db.projectRelations.map ProjectRelation.projectId ++
    db.folders.keys ++
    (db.folders.values.flatMap fun f => f.homeProject :: f.parentFolderId.toList) ++
    db.workflows.keys ++
    (db.workflows.values.flatMap fun w => w.parentFolder.toList ++ w.shared.map Sharing.projectId) ++
    db.credentials.keys ++ (db.credentials.values.flatMap fun c => c.shared.map Sharing.projectId) ++
    db.dataTables.keys ++ db.dataTables.values.map DataTable.projectId ++
    db.«variables».keys ++ (db.«variables».values.flatMap fun v => v.project.toList) ++
    db.tags.keys ++ db.tagMappings.flatMap fun m => [m.workflowId, m.tagId]

/-- What `uuid()` and `generateNanoId()` give is not in use. -/
def ImportEnvironment.Fresh (env : ImportEnvironment) : Prop := ∀ db n, env.newId db n ∉ db.ids

/-- An environment whose new ids are longer than those in use. -/
def ImportEnvironment.longIds : ImportEnvironment where
  newId db n := String.ofList (List.replicate ((db.ids.map String.length).sum + n + 1) 'x')

theorem ImportEnvironment.longIds_fresh : longIds.Fresh := by
  intro db n hmem
  have hle := List.le_sum_of_mem (List.mem_map_of_mem (f := String.length) hmem)
  simp only [longIds, String.length_ofList, List.length_replicate] at hle
  omega

section Ids

variable {db : ProjectDatabase} {id : String}

theorem ProjectDatabase.mem_ids_of_project (h : id ∈ db.projects.keys) : id ∈ db.ids := by
  unfold ProjectDatabase.ids
  simp only [List.mem_append, h, true_or]

theorem ProjectDatabase.mem_ids_of_folder (h : id ∈ db.folders.keys) : id ∈ db.ids := by
  unfold ProjectDatabase.ids
  simp only [List.mem_append, h, true_or, or_true]

theorem ProjectDatabase.mem_ids_of_workflow (h : id ∈ db.workflows.keys) : id ∈ db.ids := by
  unfold ProjectDatabase.ids
  simp only [List.mem_append, h, true_or, or_true]

theorem ProjectDatabase.mem_ids_of_credential (h : id ∈ db.credentials.keys) : id ∈ db.ids := by
  unfold ProjectDatabase.ids
  simp only [List.mem_append, h, true_or, or_true]

theorem ProjectDatabase.mem_ids_of_relation {r : ProjectRelation} (h : r ∈ db.projectRelations) :
    r.projectId ∈ db.ids := by
  have h : r.projectId ∈ db.projectRelations.map ProjectRelation.projectId := List.mem_map_of_mem h
  unfold ProjectDatabase.ids
  simp only [List.mem_append, h, true_or, or_true]

theorem ProjectDatabase.mem_ids_of_sharing {c : CredentialsEntity} {sharing : Sharing}
    (h : db.credentials.get? id = some c) (hs : sharing ∈ c.shared) :
    sharing.projectId ∈ db.ids := by
  have hmem : sharing.projectId ∈
      db.credentials.values.flatMap fun c => c.shared.map Sharing.projectId :=
    List.mem_flatMap.2 ⟨c, (Dict.mem_values_iff _ _).2 ⟨id, h⟩, List.mem_map_of_mem hs⟩
  unfold ProjectDatabase.ids
  simp only [List.mem_append, hmem, true_or, or_true]

end Ids

/-! ### Planning -/

section Planning

variable (env : ImportEnvironment) (user : User) (db : ProjectDatabase)

/-- The names of the projects that are created: those that are not found, up to the quota. -/
def projectsToCreate (names : List String) : List String :=
  let missing := names.filter fun name => (db.findProjectByName user name).isNone
  match env.maxTeamProjects with
  | none => missing
  | some limit => missing.take (limit - (db.projects.values.filter fun p => p.type = .team).length)

/-- The project of a name that occurs in the bundle. -/
def projectRef (names : List String) (defaultProjectId name : String) : ProjectRef :=
  match db.findProjectByName user name with
  | some id => .existing id
  | none =>
    if name ∈ projectsToCreate env user db names then .created name else .existing defaultProjectId

/-- The names that are looked up. -/
def importedNames (bundle : MigrationBundle) (targetProjectId : Option String) : List String :=
  if (targetProjectId.filter fun id => id ≠ "").isSome then [] else uniqueProjectNames bundle

/-- The project of what has a path in the bundle. -/
def plannedProject (bundle : MigrationBundle) (targetProjectId : Option String)
    (defaultProjectId : String) (path : MigrationPath) : ProjectRef :=
  let names := importedNames bundle targetProjectId
  if path.projectName ∈ names then projectRef env user db names defaultProjectId path.projectName
  else .existing defaultProjectId

/-- The database with projects of the user. -/
def ProjectDatabase.withProjects (newIds : String → String) (names : List String) :
    ProjectDatabase :=
  names.foldl (fun db name => { db with
    projects := db.projects.set (newIds name) { name, type := .team, creatorId := some user.id }
    projectRelations := db.projectRelations ++
      [{ projectId := newIds name, userId := user.id, role := "project:admin" }] }) db

end Planning

/-! ### Databases with more projects -/

/-- New projects, with ids that are not in use. -/
structure NewProjects (db : ProjectDatabase) (newIds : String → String) (names : List String) :
    Prop where
  fresh : ∀ name ∈ names, newIds name ∉ db.ids
  nodup : (names.map newIds).Nodup

namespace ProjectDatabase

variable {db : ProjectDatabase} {user : User} {newIds : String → String} {names : List String}

theorem withProjects_concat (name : String) :
    db.withProjects user newIds (names ++ [name]) =
      { db.withProjects user newIds names with
        projects := (db.withProjects user newIds names).projects.set (newIds name)
          { name, type := .team, creatorId := some user.id }
        projectRelations := (db.withProjects user newIds names).projectRelations ++
          [{ projectId := newIds name, userId := user.id, role := "project:admin" }] } := by
  rw [withProjects, List.foldl_concat]
  rfl

/-- The other tables stay. -/
theorem withProjects_eq (db : ProjectDatabase) (user : User) (newIds : String → String)
    (names : List String) : ∃ projects projectRelations,
      db.withProjects user newIds names = { db with projects, projectRelations } := by
  induction names using List.reverseRecOn with
  | nil => exact ⟨_, _, rfl⟩
  | append_singleton names name ih =>
    obtain ⟨projects, projectRelations, ih⟩ := ih
    rw [withProjects_concat, ih]
    exact ⟨_, _, rfl⟩

theorem withProjects_projectRelations :
    (db.withProjects user newIds names).projectRelations = db.projectRelations ++
      names.map fun name => ⟨newIds name, user.id, "project:admin"⟩ := by
  induction names using List.reverseRecOn with
  | nil => simp [withProjects]
  | append_singleton names name ih => simp [withProjects_concat, ih]

/-- A list that is written with other ids is written with the same ids where they agree. -/
theorem withProjects_congr {newIds' : String → String}
    (h : ∀ name ∈ names, newIds name = newIds' name) :
    db.withProjects user newIds names = db.withProjects user newIds' names := by
  induction names using List.reverseRecOn with
  | nil => rfl
  | append_singleton names name ih =>
    rw [withProjects_concat, withProjects_concat, h name (by simp),
      ih fun name hname => h name (List.mem_append_left _ hname)]

variable {id name : String}

theorem get?_withProjects (hid : ∀ name ∈ names, id ≠ newIds name) :
    (db.withProjects user newIds names).projects.get? id = db.projects.get? id := by
  induction names using List.reverseRecOn with
  | nil => rfl
  | append_singleton names name ih =>
    rw [withProjects_concat, Dict.get?_set_ne _ _ (hid name (by simp)),
      ih fun name hname => hid name (List.mem_append_left _ hname)]

theorem withProjects_entries (h : NewProjects db newIds names) :
    (db.withProjects user newIds names).projects.entries = db.projects.entries ++
      names.map fun name => (newIds name, ⟨name, .team, some user.id⟩) := by
  induction names using List.reverseRecOn with
  | nil => simp [withProjects]
  | append_singleton names name ih =>
    have hnodup := h.nodup
    rw [List.map_append, List.nodup_append] at hnodup
    have hpre : NewProjects db newIds names :=
      ⟨fun name hname => h.fresh name (List.mem_append_left _ hname), hnodup.1⟩
    have hnone : (db.withProjects user newIds names).projects.get? (newIds name) = none := by
      rw [get?_withProjects fun name' hname' heq => hnodup.2.2 _ (List.mem_map_of_mem hname') _
        (by simp) heq.symm]
      by_contra hsome
      exact h.fresh name (by simp)
        (mem_ids_of_project ((Dict.mem_keys_iff _ _).2 (Option.isSome_iff_ne_none.2 hsome)))
    rw [withProjects_concat, Dict.entries_set_of_get?_eq_none hnone, ih hpre]
    simp

theorem relatesWithScope_withProjects (h : NewProjects db newIds names) (hid : id ∈ db.ids)
    (scopes : List String) :
    (db.withProjects user newIds names).relatesWithScope user id scopes =
      db.relatesWithScope user id scopes := by
  have hroles : (db.withProjects user newIds names).rolesWithScope =
      db.rolesWithScope := by
    obtain ⟨_, _, heq⟩ := withProjects_eq db user newIds names
    rw [heq]
    rfl
  rw [relatesWithScope, withProjects_projectRelations, hroles, List.any_append, relatesWithScope]
  rw [Bool.or_eq_left_iff_imp]
  intro hany
  simp only [List.any_map, List.any_eq_true, Function.comp, Bool.and_eq_true,
    decide_eq_true_eq] at hany
  obtain ⟨name, hname, ⟨heq, _⟩, _⟩ := hany
  exact absurd (heq ▸ hid) (h.fresh name hname)

theorem getProjectWithScope_withProjects (user : User) (h : NewProjects db newIds names)
    (hid : id ∈ db.ids) (scopes : List String) :
    (db.withProjects user newIds names).getProjectWithScope user id scopes =
      db.getProjectWithScope user id scopes := by
  have hne : ∀ name ∈ names, id ≠ newIds name :=
    fun name hname heq => h.fresh name hname (heq ▸ hid)
  rw [getProjectWithScope, getProjectWithScope, relatesWithScope_withProjects h hid,
    get?_withProjects hne]

/-- The user has access to the new projects, and to the same projects as before. -/
theorem getAccessibleProjects_withProjects (h : NewProjects db newIds names) :
    (db.withProjects user newIds names).getAccessibleProjects user.id =
      db.getAccessibleProjects user.id ++
        names.map fun name => (newIds name, ⟨name, .team, some user.id⟩) := by
  rw [getAccessibleProjects, withProjects_entries h, List.filter_append,
    withProjects_projectRelations]
  congr 1
  · refine List.filter_congr fun e he => ?_
    have hid : e.1 ∈ db.ids := mem_ids_of_project (List.mem_map_of_mem he)
    rw [List.any_append, Bool.or_eq_left_iff_imp]
    intro hany
    simp only [List.any_map, List.any_eq_true, Function.comp, Bool.and_eq_true,
      decide_eq_true_eq] at hany
    obtain ⟨name, hname, heq, _⟩ := hany
    exact absurd (heq ▸ hid) (h.fresh name hname)
  · rw [List.filter_eq_self]
    intro e he
    obtain ⟨name, hname, rfl⟩ := List.mem_map.1 he
    rw [List.any_append, Bool.or_eq_true]
    right
    rw [List.any_map, List.any_eq_true]
    exact ⟨name, hname, by simp⟩

/-- Projects of other names change nothing for a name. -/
theorem findProjectByName_withProjects (user : User) (h : NewProjects db newIds names)
    (hname : name ∉ names) :
    (db.withProjects user newIds names).findProjectByName user name =
      db.findProjectByName user name := by
  have hnew : (names.map fun name => (newIds name, (⟨name, .team, some user.id⟩ : Project))).find?
      (fun e => e.2.name = name) = none := by
    rw [List.find?_eq_none]
    intro e he
    obtain ⟨name', hname', rfl⟩ := List.mem_map.1 he
    simp only [decide_eq_true_eq]
    exact fun heq => hname (heq ▸ hname')
  rw [findProjectByName, findProjectByName, getAccessibleProjects_withProjects h,
    List.find?_append, hnew, Option.or_none]
  cases hfind : (db.getAccessibleProjects user.id).find? fun e => e.2.name = name with
  | none => rfl
  | some e =>
    have hmem : e ∈ db.projects.entries :=
      (List.mem_filter.1 (List.mem_of_find?_eq_some hfind)).1
    show ((db.withProjects user newIds names).getProjectWithScope user e.1 _).map _ = _
    rw [getProjectWithScope_withProjects _ h (mem_ids_of_project (List.mem_map_of_mem hmem))]

/-- A new project is found by its name, when the user had access to none of this name and may create
workflows in it. -/
theorem findProjectByName_of_mem (h : NewProjects db newIds names) (hname : name ∈ names)
    (hnone : ∀ e ∈ db.getAccessibleProjects user.id, e.2.name ≠ name)
    (hscope : user.hasGlobalScope ["workflow:create"] ∨
      "project:admin" ∈ db.rolesWithScope .project ["workflow:create"]) :
    (db.withProjects user newIds names).findProjectByName user name = some (newIds name) := by
  have hold : (db.getAccessibleProjects user.id).find? (fun e => e.2.name = name) = none := by
    rw [List.find?_eq_none]
    exact fun e he => by simpa using hnone e he
  have hnew : (names.map fun name => (newIds name, (⟨name, .team, some user.id⟩ : Project))).find?
      (fun e => e.2.name = name) = some (newIds name, ⟨name, .team, some user.id⟩) := by
    cases hfind : (names.map fun name =>
        (newIds name, (⟨name, .team, some user.id⟩ : Project))).find? fun e => e.2.name = name with
    | none =>
      rw [List.find?_eq_none] at hfind
      exact absurd (decide_eq_true rfl) (hfind _ (List.mem_map.2 ⟨name, hname, rfl⟩))
    | some e =>
      obtain ⟨name', -, rfl⟩ := List.mem_map.1 (List.mem_of_find?_eq_some hfind)
      have heq : name' = name := by simpa using List.find?_some hfind
      rw [heq]
  have hget : ((db.withProjects user newIds names).projects.get? (newIds name)).isSome := by
    rw [← Dict.mem_keys_iff, Dict.keys, withProjects_entries h]
    exact List.mem_map.2 ⟨(newIds name, ⟨name, .team, some user.id⟩),
      List.mem_append_right _ (List.mem_map.2 ⟨name, hname, rfl⟩), rfl⟩
  obtain ⟨project, hproject⟩ := Option.isSome_iff_exists.1 hget
  have hmay : (user.hasGlobalScope ["workflow:create"] ||
      (db.withProjects user newIds names).relatesWithScope user (newIds name)
        ["workflow:create"]) = true := by
    rw [Bool.or_eq_true]
    refine hscope.imp_right fun hrole => ?_
    obtain ⟨_, _, heq⟩ := withProjects_eq db user newIds names
    have hroles : (db.withProjects user newIds names).rolesWithScope = db.rolesWithScope := by
      rw [heq]
      rfl
    rw [relatesWithScope, hroles, withProjects_projectRelations, List.any_append, Bool.or_eq_true]
    right
    rw [List.any_map, List.any_eq_true]
    exact ⟨name, hname, by simp [hrole]⟩
  rw [findProjectByName, getAccessibleProjects_withProjects h, List.find?_append, hold, hnew]
  show ((db.withProjects user newIds names).getProjectWithScope user (newIds name) _).map _ = _
  rw [getProjectWithScope, hproject, Option.filter_some]
  rw [if_pos hmay]
  rfl

/-- A new project is found by its name only when the user had access to none of this name, and may
create workflows in it. -/
theorem of_findProjectByName_withProjects (h : NewProjects db newIds names)
    (hmissing : db.findProjectByName user name = none)
    (hfound : (db.withProjects user newIds names).findProjectByName user name ≠ none) :
    (∀ e ∈ db.getAccessibleProjects user.id, e.2.name ≠ name) ∧
      (user.hasGlobalScope ["workflow:create"] ∨
        "project:admin" ∈ db.rolesWithScope .project ["workflow:create"]) := by
  have hold : (db.getAccessibleProjects user.id).find? (fun e => e.2.name = name) = none := by
    cases hfind : (db.getAccessibleProjects user.id).find? fun e => e.2.name = name with
    | none => rfl
    | some e =>
      -- the project that was found first is still the first one
      have hmem : e ∈ db.projects.entries :=
        (List.mem_filter.1 (List.mem_of_find?_eq_some hfind)).1
      rw [findProjectByName, hfind] at hmissing
      rw [findProjectByName, getAccessibleProjects_withProjects h, List.find?_append, hfind] at hfound
      refine absurd ?_ hfound
      show ((db.withProjects user newIds names).getProjectWithScope user e.1 _).map _ = _
      rw [getProjectWithScope_withProjects _ h (mem_ids_of_project (List.mem_map_of_mem hmem))]
      exact hmissing
  constructor
  · rw [List.find?_eq_none] at hold
    exact fun e he => by simpa using hold e he
  · rw [findProjectByName, getAccessibleProjects_withProjects h, List.find?_append, hold,
      Option.none_or] at hfound
    cases hnew : (names.map fun name =>
        (newIds name, (⟨name, .team, some user.id⟩ : Project))).find? fun e => e.2.name = name with
    | none => rw [hnew] at hfound; exact absurd rfl hfound
    | some e =>
      rw [hnew] at hfound
      obtain ⟨name', hname', rfl⟩ := List.mem_map.1 (List.mem_of_find?_eq_some hnew)
      have hscope : ((db.withProjects user newIds names).getProjectWithScope user (newIds name')
          ["workflow:create"]) ≠ none := fun hnone => hfound (by
        show Option.map _ _ = none
        rw [hnone]
        rfl)
      obtain ⟨project, hproject⟩ := Option.ne_none_iff_exists'.1 hscope
      have hmay := (Option.filter_eq_some_iff.1 hproject).2
      rw [Bool.or_eq_true] at hmay
      refine hmay.imp_right fun hrelates => ?_
      obtain ⟨_, _, heq⟩ := withProjects_eq db user newIds names
      have hroles : (db.withProjects user newIds names).rolesWithScope = db.rolesWithScope := by
        rw [heq]
        rfl
      rw [relatesWithScope, hroles, withProjects_projectRelations, List.any_append,
        Bool.or_eq_true] at hrelates
      rcases hrelates with hrelates | hrelates
      · obtain ⟨r, hr, hrole⟩ := List.any_eq_true.1 hrelates
        simp only [Bool.and_eq_true, decide_eq_true_eq] at hrole
        exact absurd (hrole.1.1 ▸ mem_ids_of_relation hr) (h.fresh name' hname')
      · rw [List.any_map, List.any_eq_true] at hrelates
        obtain ⟨_, _, hrole⟩ := hrelates
        simp only [Function.comp, Bool.and_eq_true, decide_eq_true_eq] at hrole
        exact hrole.2

theorem ids_subset_withProjects (db : ProjectDatabase) (user : User) (newIds : String → String)
    (names : List String) : db.ids ⊆ (db.withProjects user newIds names).ids := by
  induction names using List.reverseRecOn with
  | nil => exact List.Subset.refl _
  | append_singleton names name ih =>
    intro id hid
    have hid := ih hid
    rw [withProjects_concat]
    simp only [ids, List.mem_append, List.map_append, Dict.mem_keys_set] at hid ⊢
    grind

theorem newIds_mem_ids (h : name ∈ names) :
    newIds name ∈ (db.withProjects user newIds names).ids := by
  have hmem : (⟨newIds name, user.id, "project:admin"⟩ : ProjectRelation) ∈
      (db.withProjects user newIds names).projectRelations := by
    rw [withProjects_projectRelations]
    exact List.mem_append_right _ (List.mem_map.2 ⟨name, h, rfl⟩)
  exact mem_ids_of_relation hmem

/-- The number of team projects. -/
theorem length_teamProjects_withProjects (user : User) (h : NewProjects db newIds names) :
    ((db.withProjects user newIds names).projects.values.filter fun p => p.type = .team).length =
      (db.projects.values.filter fun p => p.type = .team).length + names.length := by
  have hall : (names.map fun name => (⟨name, .team, some user.id⟩ : Project)).filter
      (fun p => p.type = .team) = names.map fun name => ⟨name, .team, some user.id⟩ := by
    rw [List.filter_eq_self]
    intro p hp
    obtain ⟨name, _, rfl⟩ := List.mem_map.1 hp
    rfl
  rw [Dict.values, withProjects_entries h, List.map_append, List.filter_append, List.map_map,
    List.length_append]
  congr 1
  show (List.filter _ (names.map fun name => (⟨name, .team, some user.id⟩ : Project))).length = _
  rw [hall, List.length_map]

theorem teamProjectsOverQuota_withProjects (env : ImportEnvironment) (user : User)
    (h : NewProjects db newIds names) :
    (db.withProjects user newIds names).teamProjectsOverQuota env =
      env.maxTeamProjects.any fun limit =>
        limit ≤ (db.projects.values.filter fun p => p.type = .team).length + names.length := by
  rw [teamProjectsOverQuota, length_teamProjects_withProjects user h]

end ProjectDatabase

/-! ### The first loop -/

section Loop

variable {env : ImportEnvironment} {user : User} {db : ProjectDatabase} {names : List String}
  {name defaultProjectId : String}

theorem projectsToCreate_sublist (env : ImportEnvironment) (user : User) (db : ProjectDatabase)
    (names : List String) :
    (projectsToCreate env user db names).Sublist
      (names.filter fun name => (db.findProjectByName user name).isNone) := by
  unfold projectsToCreate
  split
  · exact List.Sublist.refl _
  · exact List.take_sublist _ _

theorem mem_of_mem_projectsToCreate (h : name ∈ projectsToCreate env user db names) :
    name ∈ names ∧ db.findProjectByName user name = none := by
  simpa using (projectsToCreate_sublist env user db names).subset h

/-- One more name: its project is found, is created, or is more than the quota allows. -/
theorem projectsToCreate_concat (env : ImportEnvironment) (user : User) (db : ProjectDatabase)
    (names : List String) (name : String) :
    projectsToCreate env user db (names ++ [name]) = projectsToCreate env user db names ++
      if (db.findProjectByName user name).isNone &&
          !(env.maxTeamProjects.any fun limit =>
            limit ≤ (db.projects.values.filter fun p => p.type = .team).length +
              (projectsToCreate env user db names).length)
      then [name] else [] := by
  unfold projectsToCreate
  rw [List.filter_append]
  cases hfind : (db.findProjectByName user name).isNone with
  | false => simp [hfind]
  | true =>
    cases hlimit : env.maxTeamProjects with
    | none => simp [hfind]
    | some limit =>
      simp only [hfind, List.filter_cons_of_pos, List.filter_nil, List.take_append,
        List.append_cancel_left_eq, Option.any_some, Bool.true_and, List.length_take]
      generalize (names.filter fun name => (db.findProjectByName user name).isNone).length = n
      generalize (db.projects.values.filter fun p => p.type = .team).length = count
      by_cases hn : limit - count ≤ n
      · have hover : limit ≤ count + min (limit - count) n := by omega
        simp [hover, Nat.sub_eq_zero_of_le hn]
      · have hover : ¬ limit ≤ count + min (limit - count) n := by omega
        obtain ⟨k, hk⟩ : ∃ k, limit - count - n = k + 1 := ⟨limit - count - n - 1, by omega⟩
        simp [hover, hk]

theorem projectRef_concat {name' : String} (hname : name ∉ names) (hname' : name' ∈ names) :
    projectRef env user db (names ++ [name]) defaultProjectId name' =
      projectRef env user db names defaultProjectId name' := by
  have hne : name' ≠ name := fun heq => hname (heq ▸ hname')
  have hiff : name' ∈ projectsToCreate env user db (names ++ [name]) ↔
      name' ∈ projectsToCreate env user db names := by
    rw [projectsToCreate_concat, List.mem_append]
    constructor
    · rintro (hmem | hmem)
      · exact hmem
      · split at hmem
        · exact absurd (List.mem_singleton.1 hmem) hne
        · cases hmem
    · exact Or.inl
  simp only [projectRef, hiff]

/-- **The first loop**: it creates the projects of `projectsToCreate`, and maps each name to its
`projectRef`. -/
theorem importProject_foldl (user : User) (db : ProjectDatabase) (defaultProjectId : String)
    (henv : env.Fresh) (hnames : names.Nodup) :
    ∃ newIds, NewProjects db newIds (projectsToCreate env user db names) ∧
      ∃ ids : Dict String String,
        names.foldl (fun s name => s.importProject env user defaultProjectId name)
            ({ db } : ImportState) =
          { db := db.withProjects user newIds (projectsToCreate env user db names)
            projectNameToId := ids } ∧
        ∀ name, ids.get? name = if name ∈ names then
          some ((projectRef env user db names defaultProjectId name).id newIds) else none := by
  induction names using List.reverseRecOn with
  | nil =>
    have hnil : projectsToCreate env user db [] = [] := by
      simpa using projectsToCreate_sublist env user db []
    rw [hnil]
    exact ⟨id, ⟨by simp, by simp⟩, .empty, rfl, by simp⟩
  | append_singleton names name ih =>
    rw [List.nodup_append] at hnames
    have hname : name ∉ names := fun hmem => hnames.2.2 name hmem name (by simp) rfl
    obtain ⟨newIds, hnew, ids, hs, hids⟩ := ih hnames.1
    have hcreated : name ∉ projectsToCreate env user db names :=
      fun hmem => hname (mem_of_mem_projectsToCreate hmem).1
    have hfind := ProjectDatabase.findProjectByName_withProjects user hnew hcreated
    have hquota := ProjectDatabase.teamProjectsOverQuota_withProjects env user hnew
    have hconcat := projectsToCreate_concat env user db names name
    -- the map, when the new name has the right value and the ids of the old ones stay
    have hmap : ∀ (f : String → String) (value : String),
        (∀ name' ∈ projectsToCreate env user db names, f name' = newIds name') →
        value = (projectRef env user db (names ++ [name]) defaultProjectId name).id f →
        ∀ name', (ids.set name value).get? name' = if name' ∈ names ++ [name] then
          some ((projectRef env user db (names ++ [name]) defaultProjectId name').id f) else none := by
      intro f value hf hvalue name'
      rw [Dict.get?_set, hids]
      by_cases heq : name' = name
      · subst heq
        simp [hvalue]
      · by_cases hmem : name' ∈ names
        · rw [if_neg heq, if_pos hmem, if_pos (List.mem_append_left _ hmem),
            projectRef_concat hname hmem]
          unfold projectRef
          split
          · rfl
          · split
            · next hin => rw [ProjectRef.id, ProjectRef.id, hf name' hin]
            · rfl
        · simp [heq, hmem]
    rw [List.foldl_concat, hs, ImportState.importProject, ProjectDatabase.getOrCreateProjectByName,
      hfind]
    cases hfound : db.findProjectByName user name with
    | some id =>
      have hcreate : projectsToCreate env user db (names ++ [name]) =
          projectsToCreate env user db names := by simp [hconcat, hfound]
      rw [hcreate]
      refine ⟨newIds, hnew, ids.set name id, rfl, hmap newIds id (fun _ _ => rfl) ?_⟩
      simp [projectRef, hfound, ProjectRef.id]
    | none =>
      rw [hfound, ← hquota] at hconcat
      cases hover : (db.withProjects user newIds
          (projectsToCreate env user db names)).teamProjectsOverQuota env with
      | true =>
        have hcreate : projectsToCreate env user db (names ++ [name]) =
            projectsToCreate env user db names := by simp [hconcat, hover]
        simp only [ProjectDatabase.createTeamProject, hover, if_true]
        rw [hcreate]
        refine ⟨newIds, hnew, ids.set name defaultProjectId, rfl,
          hmap newIds defaultProjectId (fun _ _ => rfl) ?_⟩
        simp [projectRef, hfound, hcreate, hcreated, ProjectRef.id]
      | false =>
        have hcreate : projectsToCreate env user db (names ++ [name]) =
            projectsToCreate env user db names ++ [name] := by simp [hconcat, hover]
        generalize hdb' : db.withProjects user newIds (projectsToCreate env user db names) = db'
          at hover ⊢
        have hid := henv db' 0
        have hsub : db.ids ⊆ db'.ids := hdb' ▸ ProjectDatabase.ids_subset_withProjects _ _ _ _
        let newIds' := Function.update newIds name (env.newId db' 0)
        have hsame : ∀ name' ∈ projectsToCreate env user db names,
            newIds' name' = newIds name' := by
          intro name' hmem
          have hne : name' ≠ name := fun heq => hcreated (heq ▸ hmem)
          exact Function.update_of_ne hne _ _
        have hself : newIds' name = env.newId db' 0 := Function.update_self ..
        have hnew' : NewProjects db newIds' (projectsToCreate env user db names ++ [name]) := by
          constructor
          · intro name' hmem
            rcases List.mem_append.1 hmem with hmem | hmem
            · rw [hsame name' hmem]
              exact hnew.fresh name' hmem
            · rw [List.mem_singleton.1 hmem, hself]
              exact fun hin => hid (hsub hin)
          · rw [List.map_append, List.map_congr_left hsame]
            refine hnew.nodup.append (List.nodup_singleton _) ?_
            intro id hmem hlast
            obtain ⟨name', hname', rfl⟩ := List.mem_map.1 hmem
            rw [List.map_singleton, List.mem_singleton, hself] at hlast
            exact hid (hlast ▸ hdb' ▸ ProjectDatabase.newIds_mem_ids hname')
        have hdb : db.withProjects user newIds' (projectsToCreate env user db names) = db' := by
          rw [← hdb', ProjectDatabase.withProjects_congr hsame]
        simp only [ProjectDatabase.createTeamProject, hover, Bool.false_eq_true, if_false]
        rw [hcreate]
        refine ⟨newIds', hnew', ids.set name (env.newId db' 0), ?_,
          hmap newIds' _ hsame ?_⟩
        · rw [ProjectDatabase.withProjects_concat, hdb, hself]
        · simp [projectRef, hfound, hcreate, ProjectRef.id, hself]

end Loop

section Import

variable {env : ImportEnvironment} {user : User} {db : ProjectDatabase} {bundle : MigrationBundle}
  {targetProjectId : Option String} {defaultProjectId : String}

theorem nodup_uniqueProjectNames (bundle : MigrationBundle) : (uniqueProjectNames bundle).Nodup :=
  OrderedSet.nodup _

theorem empty_notMem_uniqueProjectNames : "" ∉ uniqueProjectNames bundle := by
  intro h
  rw [uniqueProjectNames, OrderedSet.mem_elems, OrderedSet.mem_ofList, List.mem_filterMap] at h
  obtain ⟨n, _, hn⟩ := h
  split at hn
  · cases hn
  · next hne => exact hne (Option.some.inj hn)

theorem get?_foldl_set (names : List String) (ids : Dict String String) (value name : String) :
    (names.foldl (fun ids name => ids.set name value) ids).get? name =
      if name ∈ names then some value else ids.get? name := by
  induction names generalizing ids with
  | nil => simp
  | cons name' names ih =>
    rw [List.foldl_cons, ih, Dict.get?_set]
    by_cases hmem : name ∈ names
    · simp [hmem]
    · by_cases heq : name = name'
      · simp [heq]
      · simp [hmem, heq]

/-- **The projects of an import**: those that are created, and what the paths of the bundle lead
to. -/
theorem importProjects_spec (user : User) (db : ProjectDatabase) (bundle : MigrationBundle)
    (targetProjectId : Option String) (defaultProjectId : String) (henv : env.Fresh) :
    ∃ newIds, NewProjects db newIds
        (projectsToCreate env user db (importedNames bundle targetProjectId)) ∧
      ∃ ids : Dict String String,
        importProjects env user db bundle targetProjectId defaultProjectId =
          { db := db.withProjects user newIds
              (projectsToCreate env user db (importedNames bundle targetProjectId))
            projectNameToId := ids } ∧
        (∀ path : MigrationPath, (ids.get? path.projectName).getD defaultProjectId =
          (plannedProject env user db bundle targetProjectId defaultProjectId path).id newIds) ∧
        ∀ id, id ∈ ids.values ↔ id = defaultProjectId ∨
          ∃ name ∈ importedNames bundle targetProjectId, id =
            (projectRef env user db (importedNames bundle targetProjectId) defaultProjectId
              name).id newIds := by
  by_cases htarget : (targetProjectId.filter fun id => id ≠ "").isSome
  · have hnames : importedNames bundle targetProjectId = [] := by
      rw [importedNames, if_pos htarget]
    have hnil : projectsToCreate env user db [] = [] := by
      simpa using projectsToCreate_sublist env user db []
    have hget : ∀ name, (((uniqueProjectNames bundle).foldl (fun ids name =>
        ids.set name defaultProjectId) (Dict.empty : Dict String String)).set ""
          defaultProjectId).get? name =
        if name = "" ∨ name ∈ uniqueProjectNames bundle then some defaultProjectId else none := by
      intro name
      rw [Dict.get?_set, get?_foldl_set]
      by_cases heq : name = ""
      · simp [heq]
      · simp [heq]
    rw [hnames, hnil]
    refine ⟨id, ⟨by simp, by simp⟩, _, by simp only [importProjects, htarget, if_true]; rfl, ?_, ?_⟩
    · intro path
      rw [hget, plannedProject, hnames]
      split
      · rfl
      · rfl
    · intro id
      rw [Dict.mem_values_iff]
      constructor
      · rintro ⟨name, hname⟩
        rw [hget] at hname
        split at hname
        · exact Or.inl (Option.some.inj hname).symm
        · cases hname
      · rintro (rfl | ⟨_, hmem, _⟩)
        · exact ⟨"", by rw [hget]; simp⟩
        · cases hmem
  · have hnames : importedNames bundle targetProjectId = uniqueProjectNames bundle := by
      rw [importedNames, if_neg htarget]
    obtain ⟨newIds, hnew, ids, hs, hids⟩ := importProject_foldl user db defaultProjectId
      henv (nodup_uniqueProjectNames bundle)
    rw [hnames]
    refine ⟨newIds, hnew, ids.set "" defaultProjectId, ?_, ?_, ?_⟩
    · simp only [importProjects, htarget, if_false, Bool.false_eq_true]
      rw [hs]
    · intro path
      rw [Dict.get?_set, hids, plannedProject, hnames]
      by_cases hempty : path.projectName = ""
      · rw [if_pos hempty, hempty, if_neg empty_notMem_uniqueProjectNames]
        rfl
      · rw [if_neg hempty]
        by_cases hmem : path.projectName ∈ uniqueProjectNames bundle
        · rw [if_pos hmem, if_pos hmem, Option.getD_some]
        · rw [if_neg hmem, if_neg hmem]
          rfl
    · intro id
      rw [Dict.mem_values_iff]
      constructor
      · rintro ⟨name, hname⟩
        rw [Dict.get?_set, hids] at hname
        split at hname
        · exact Or.inl (Option.some.inj hname).symm
        · split at hname
          · next hmem => exact Or.inr ⟨name, hmem, (Option.some.inj hname).symm⟩
          · cases hname
      · rintro (rfl | ⟨name, hmem, rfl⟩)
        · exact ⟨"", by rw [Dict.get?_set_self]⟩
        · refine ⟨name, ?_⟩
          rw [Dict.get?_set_ne _ _ fun heq => empty_notMem_uniqueProjectNames (heq ▸ hmem), hids,
            if_pos hmem]

/-- The default project exists. -/
theorem mem_projects_of_findTargetProject
    (h : findTargetProject user db targetProjectId = .ok defaultProjectId) :
    defaultProjectId ∈ db.projects.keys := by
  unfold findTargetProject at h
  split at h
  · next id _ =>
    split at h
    · cases h
    · next project hproject =>
      obtain rfl : id = defaultProjectId := Except.ok.inj h
      rw [Dict.mem_keys_iff, (Option.filter_eq_some_iff.1 hproject).1]
      rfl
  · split at h
    · cases h
    · next id hid =>
      obtain rfl : id = defaultProjectId := Except.ok.inj h
      obtain ⟨e, he, rfl⟩ := Option.map_eq_some_iff.1 hid
      exact List.mem_map_of_mem (List.mem_of_find?_eq_some he)

theorem mem_projects_of_findProjectByName {name id : String}
    (h : db.findProjectByName user name = some id) : id ∈ db.projects.keys := by
  unfold ProjectDatabase.findProjectByName at h
  split at h
  · cases h
  · next id' _ hfind =>
    obtain ⟨_, _, rfl⟩ := Option.map_eq_some_iff.1 h
    exact List.mem_map_of_mem (List.mem_filter.1 (List.mem_of_find?_eq_some hfind)).1

end Import

end N8n
