import N8n.Migration.ImportNodes

/-!
# The caches of the credentials

`replaceInvalidCredentials` remembers what it has looked up, and also what it has not found: under the
name, or under the id whatever the name was.

* `CredentialsKind`, `kindOf`: what the loop tells apart;
* `uncached`: what is looked up for the credentials of one node;
* `CacheAfter`, `resultAfter`: the caches after some credentials, and what the next ones become;
* `Compatible`: credentials that the failures of earlier ones do not change;
* `replaceInvalidCredentials_transparent_iff`: when the caches make no difference.
-/

namespace N8n

/-- The credentials of a node of one type, as the loop tells them apart: ones that it skips, a name,
an object with a name only, and an object with an id. -/
inductive CredentialsKind
  | skipped
  | text (name : String)
  | nameOnly (name : String)
  | identified (id name : String)
  deriving DecidableEq

namespace CredentialsKind

/-- The name that is looked up. -/
def name : CredentialsKind → String
  | skipped => ""
  | text name | nameOnly name | identified _ name => name

/-- The name of old style credentials. -/
def oldName : CredentialsKind → Option String
  | text name | nameOnly name => some name
  | skipped | identified _ _ => none

/-- The id that is looked up. -/
def id : CredentialsKind → Option String
  | identified id _ => some id
  | skipped | text _ | nameOnly _ => none

end CredentialsKind

def kindOf (nodeCredentials : JsValue) : CredentialsKind :=
  if nodeCredentials = .undefined ∨ nodeCredentials = .null ∨
      (nodeCredentials.prop "__aiGatewayManaged").truthy = true then .skipped
  else
    match nodeCredentials with
    | .str name => .text name
    | details =>
      if details.prop "id" = JsValue.null then .nameOnly (textOf (details.prop "name"))
      else .identified (textOf (details.prop "id")) (textOf (details.prop "name"))

namespace ProjectDatabase

variable (db : ProjectDatabase) (projectId : String)

/-- The credentials with a name and type, if there is exactly one in the project. -/
def uniqueByName (type name : String) : Option JsValue :=
  match db.findByNameAndTypeInProject name type projectId with
  | [e] => some (credentialDetails e)
  | _ => none

/-- The credentials with an id and type. -/
def existing (type id : String) : Option JsValue :=
  ((db.credentials.get? id).filter fun c : CredentialsEntity => c.type = type).map fun c =>
    credentialDetails (id, c)

/-- What credentials become when nothing is cached: those with the id and type, or else those with the
name, or else they stay. -/
def uncached (type : String) (nodeCredentials : JsValue) : JsValue :=
  match kindOf nodeCredentials with
  | .skipped => nodeCredentials
  | .text name | .nameOnly name => (db.uniqueByName projectId type name).getD nodeCredentials
  | .identified id name =>
    ((db.existing type id).or (db.uniqueByName projectId type name)).getD nodeCredentials

/-- What is cached for a name that is not found. -/
def notFound (name : String) : JsValue := .obj [("id", .null), ("name", .str name)]

/-- One turn of the inner loop, by kind. -/
def replaceByKind (cache : CredentialsCache) (type : String) (nodeCredentials : JsValue) :
    CredentialsKind → CredentialsCache × JsValue
  | .skipped => (cache, nodeCredentials)
  | .text name | .nameOnly name =>
    match cache.byName.get? (type, name) with
    | some details => (cache, details)
    | none =>
      ({ cache with
          byName := cache.byName.set (type, name)
            ((db.uniqueByName projectId type name).getD (notFound name)) },
        (db.uniqueByName projectId type name).getD nodeCredentials)
  | .identified id name =>
    match cache.byId.get? (type, id) with
    | some details => (cache, details)
    | none =>
      match db.existing type id with
      | some details => ({ cache with byId := cache.byId.set (type, id) details }, details)
      | none =>
        match db.findByNameAndTypeInProject name type projectId with
        | [e] =>
          ({ cache with byId := cache.byId.set (type, e.1) (credentialDetails e) },
            credentialDetails e)
        | _ => ({ cache with byId := cache.byId.set (type, id) nodeCredentials }, nodeCredentials)

variable {db projectId}

theorem replaceInvalidEntry_eq (cache : CredentialsCache) (type : String) (v : JsValue) :
    db.replaceInvalidEntry projectId cache type v =
      db.replaceByKind projectId cache type v (kindOf v) := by
  unfold replaceInvalidEntry kindOf
  split_ifs with hskip
  · rfl
  · by_cases hid : v.prop "id" = JsValue.null
    · cases v with
      | str name => exact absurd hid (by simp [JsValue.prop])
      | _ =>
        simp only [hid, decide_true, if_true, replaceByKind, uniqueByName, notFound]
        generalize textOf _ = name
        rcases cache.byName.get? (type, name) with _ | details
        · rcases db.findByNameAndTypeInProject name type projectId with _ | ⟨e, _ | ⟨e', rest⟩⟩ <;> rfl
        · rfl
    · cases v with
      | str name =>
        simp only [if_true, replaceByKind, uniqueByName, notFound]
        rcases cache.byName.get? (type, name) with _ | details
        · rcases db.findByNameAndTypeInProject name type projectId with _ | ⟨e, _ | ⟨e', rest⟩⟩ <;> rfl
        · rfl
      | _ =>
        simp only [hid, decide_false, Bool.false_eq_true, if_false, replaceByKind, existing]
        rcases cache.byId.get? _ with _ | details
        · rcases (db.credentials.get? _).filter _ with _ | c
          · rcases db.findByNameAndTypeInProject _ type projectId with _ | ⟨e, _ | ⟨e', rest⟩⟩ <;> rfl
          · rfl
        · rfl

variable {type name id : String} {pre : List (String × JsValue)} {v : String × JsValue}

/-- Credentials that a database looks up by name are there with their id. -/
theorem existing_of_found {e : String × CredentialsEntity}
    (h : db.findByNameAndTypeInProject name type projectId = [e]) :
    db.existing type e.1 = some (credentialDetails e) := by
  have hmem : e ∈ db.findByNameAndTypeInProject name type projectId := h ▸ List.mem_singleton_self e
  rw [findByNameAndTypeInProject, List.mem_filter] at hmem
  simp only [Bool.and_eq_true, decide_eq_true_eq] at hmem
  rw [existing, (Dict.mem_entries_iff _ e.1 e.2).1 hmem.1]
  simp [hmem.2.1.2]

theorem kindOf_credentialDetails (e : String × CredentialsEntity) :
    kindOf (credentialDetails e) = .identified e.1 e.2.name := by
  simp [kindOf, credentialDetails, JsValue.prop, JsObject.get, EntryList.lookup, textOf,
    JsValue.truthy]

theorem uniqueByName_eq_some {details : JsValue}
    (h : db.uniqueByName projectId type name = some details) :
    ∃ e, db.findByNameAndTypeInProject name type projectId = [e] ∧ details = credentialDetails e := by
  unfold uniqueByName at h
  split at h
  · rename_i e he
    exact ⟨e, he, (Option.some_inj.1 h).symm⟩
  · cases h

/-! ### The caches after some credentials -/

variable (db projectId)

/-- Some of the credentials are of the old style and have the name and type. -/
def CachedName (pre : List (String × JsValue)) (type name : String) : Prop :=
  ∃ e ∈ pre, e.1 = type ∧ (kindOf e.2).oldName = some name

instance (pre : List (String × JsValue)) (type name : String) : Decidable (CachedName pre type name) :=
  inferInstanceAs (Decidable (∃ e ∈ pre, _))

/-- Credentials with the id and type, and with a name under which nothing is found. -/
def Fails (type id : String) (e : String × JsValue) : Prop :=
  e.1 = type ∧ kindOf e.2 = .identified id (kindOf e.2).name ∧
    db.uniqueByName projectId type (kindOf e.2).name = none

instance (type id : String) (e : String × JsValue) : Decidable (db.Fails projectId type id e) :=
  inferInstanceAs (Decidable (_ ∧ _ ∧ _))

/-- The first of the credentials that fail for an id that does not exist. -/
def failed (pre : List (String × JsValue)) (type id : String) : Option JsValue :=
  (pre.find? fun e => db.Fails projectId type id e).map Prod.snd

/-- What the caches hold after some credentials. -/
structure CacheAfter (pre : List (String × JsValue)) (cache : CredentialsCache) : Prop where
  byName : ∀ type name, cache.byName.get? (type, name) =
    if CachedName pre type name then
      some ((db.uniqueByName projectId type name).getD (notFound name))
    else none
  byId : ∀ type id details, db.existing type id = some details →
    cache.byId.get? (type, id) = none ∨ cache.byId.get? (type, id) = some details
  failures : ∀ type id, db.existing type id = none →
    cache.byId.get? (type, id) = db.failed projectId pre type id

/-- What credentials become after others. -/
def resultAfter (pre : List (String × JsValue)) (type : String) (nodeCredentials : JsValue) :
    JsValue :=
  match kindOf nodeCredentials with
  | .skipped => nodeCredentials
  | .text name | .nameOnly name =>
    (db.uniqueByName projectId type name).getD
      (if CachedName pre type name then notFound name else nodeCredentials)
  | .identified id name =>
    (db.existing type id).getD ((db.failed projectId pre type id).getD
      ((db.uniqueByName projectId type name).getD nodeCredentials))

variable {db projectId}

theorem cacheAfter_nil : db.CacheAfter projectId [] {} where
  byName := fun _ _ => by simp [CachedName, Dict.get?_empty]
  byId := fun _ _ _ _ => .inl rfl
  failures := fun _ _ _ => rfl

theorem cachedName_append {pre : List (String × JsValue)} {e : String × JsValue}
    {type name : String} : CachedName (pre ++ [e]) type name ↔
      CachedName pre type name ∨ e.1 = type ∧ (kindOf e.2).oldName = some name := by
  simp [CachedName, or_and_right, exists_or]

theorem failed_append (pre : List (String × JsValue)) (e : String × JsValue) (type id : String) :
    db.failed projectId (pre ++ [e]) type id =
      (db.failed projectId pre type id).or
        (if db.Fails projectId type id e then some e.2 else none) := by
  rw [failed, List.find?_append, Option.map_or, failed]
  split_ifs with h <;> simp [h]

/-- Failures that are cached already stay. -/
theorem failed_append_of {e : String × JsValue}
    (h : db.Fails projectId type id e → (db.failed projectId pre type id).isSome) :
    db.failed projectId (pre ++ [e]) type id = db.failed projectId pre type id := by
  rw [failed_append]
  split_ifs with hfails
  · obtain ⟨v, hv⟩ := Option.isSome_iff_exists.1 (h hfails)
    rw [hv, Option.some_or]
  · rw [Option.or_none]

section Step

variable {pre : List (String × JsValue)} {cache : CredentialsCache} {e : String × JsValue}

/-- What is cached already is not cached again. -/
theorem CacheAfter.keep (h : db.CacheAfter projectId pre cache)
    (hname : ∀ name, (kindOf e.2).oldName = some name → CachedName pre e.1 name)
    (hfails : ∀ type id, db.existing type id = none → db.Fails projectId type id e →
      (db.failed projectId pre type id).isSome) :
    db.CacheAfter projectId (pre ++ [e]) cache where
  byName := fun type name => by
    rw [h.byName, if_congr (cachedName_append.trans (or_iff_left_of_imp ?_)).symm rfl rfl]
    rintro ⟨rfl, hold⟩
    exact hname name hold
  byId := h.byId
  failures := fun type id hnone => by
    rw [h.failures type id hnone, failed_append_of (hfails type id hnone)]

variable {type id name : String}

/-- Credentials that exist are cached under their id. -/
theorem CacheAfter.remember (h : db.CacheAfter projectId pre cache)
    (hname : (kindOf e.2).oldName = none) {details : JsValue}
    (hexists : db.existing type id = some details)
    (hfails : ∀ type id, db.existing type id = none → ¬ db.Fails projectId type id e) :
    db.CacheAfter projectId (pre ++ [e])
      { cache with byId := cache.byId.set (type, id) details } where
  byName := (h.keep (e := e) (fun name hold => by simp [hname] at hold)
    fun type id hnone hfail => absurd hfail (hfails type id hnone)).byName
  byId := fun type' id' details' hexists' => by
    rw [Dict.get?_set]
    split_ifs with hkey
    · obtain ⟨rfl, rfl⟩ := Prod.mk.inj hkey
      exact .inr (hexists.symm.trans hexists')
    · exact h.byId type' id' details' hexists'
  failures := fun type' id' hnone => by
    rw [Dict.get?_set_ne, h.failures type' id' hnone,
      failed_append_of fun hfail => absurd hfail (hfails type' id' hnone)]
    intro hkey
    obtain ⟨rfl, rfl⟩ := Prod.mk.inj hkey
    exact absurd (hexists.symm.trans hnone) (by simp)

/-- A name that is looked up is cached. -/
theorem CacheAfter.rememberName (h : db.CacheAfter projectId pre cache) (htype : e.1 = type)
    (hname : (kindOf e.2).oldName = some name)
    (hfails : ∀ type id, ¬ db.Fails projectId type id e) :
    db.CacheAfter projectId (pre ++ [e])
      { cache with
          byName := cache.byName.set (type, name)
            ((db.uniqueByName projectId type name).getD (notFound name)) } where
  byName := fun type' name' => by
    rw [Dict.get?_set, if_congr (@cachedName_append pre _ _ _) rfl rfl]
    split_ifs with hkey hcached hcached
    · obtain ⟨rfl, rfl⟩ := Prod.mk.inj hkey
      rfl
    · obtain ⟨rfl, rfl⟩ := Prod.mk.inj hkey
      exact absurd (.inr ⟨htype, hname⟩) hcached
    · have hpre : CachedName pre type' name' := hcached.resolve_right fun hnew => hkey
        (by rw [← htype, hnew.1, Option.some_inj.1 (hname.symm.trans hnew.2)])
      rw [h.byName, if_pos hpre]
    · rw [h.byName, if_neg fun hpre => hcached (.inl hpre)]
  byId := h.byId
  failures := fun type id hnone => by
    rw [h.failures type id hnone, failed_append_of fun hfail => absurd hfail (hfails type id)]

/-- Credentials that are not found are cached under their id. -/
theorem CacheAfter.rememberFailure (h : db.CacheAfter projectId pre cache) (htype : e.1 = type)
    (hkind : kindOf e.2 = .identified id name) (hnone : db.existing type id = none)
    (hunique : db.uniqueByName projectId type name = none)
    (hmiss : db.failed projectId pre type id = none) :
    db.CacheAfter projectId (pre ++ [e])
      { cache with byId := cache.byId.set (type, id) e.2 } where
  byName := fun type' name' => by
    rw [h.byName, if_congr (cachedName_append.trans (or_iff_left_of_imp ?_)).symm rfl rfl]
    rintro ⟨-, hold⟩
    simp [hkind, CredentialsKind.oldName] at hold
  byId := fun type' id' details hexists => by
    rw [Dict.get?_set_ne]
    · exact h.byId type' id' details hexists
    · intro hkey
      obtain ⟨rfl, rfl⟩ := Prod.mk.inj hkey
      exact absurd (hexists.symm.trans hnone) (by simp)
  failures := fun type' id' hnone' => by
    rw [Dict.get?_set, failed_append]
    split_ifs with hkey hfail hfail
    · obtain ⟨rfl, rfl⟩ := Prod.mk.inj hkey
      rw [hmiss, Option.none_or]
    · obtain ⟨rfl, rfl⟩ := Prod.mk.inj hkey
      exact absurd ⟨htype, by simp [hkind, CredentialsKind.name], by
        simpa [hkind, CredentialsKind.name] using hunique⟩ hfail
    · have hid :
    CredentialsKind.identified id name = .identified id' _ := hkind.symm.trans hfail.2.1
      injection hid with hid _
      exact absurd (by rw [← htype, hfail.1, hid]) hkey
    · rw [h.failures type' id' hnone', Option.or_none]

theorem not_fails_of_oldName (h : (kindOf e.2).oldName = some name) (type id : String) :
    ¬ db.Fails projectId type id e := by
  rintro ⟨-, hkind, -⟩
  rw [hkind] at h
  cases h

theorem replaceByKind_of_not_found {v : JsValue} (hcache : cache.byId.get? (type, id) = none)
    (hexists : db.existing type id = none) (hunique : db.uniqueByName projectId type name = none) :
    db.replaceByKind projectId cache type v (.identified id name) =
      ({ cache with byId := cache.byId.set (type, id) v }, v) := by
  simp only [replaceByKind, hcache, hexists]
  unfold uniqueByName at hunique
  split at hunique
  · cases hunique
  · rfl

/-- One turn of the inner loop. -/
theorem CacheAfter.step (h : db.CacheAfter projectId pre cache) (type : String) (v : JsValue) :
    db.CacheAfter projectId (pre ++ [(type, v)]) (db.replaceInvalidEntry projectId cache type v).1 ∧
      (db.replaceInvalidEntry projectId cache type v).2 = db.resultAfter projectId pre type v := by
  have hold : ∀ name, (kindOf v).oldName = some name →
      db.CacheAfter projectId (pre ++ [(type, v)])
          (db.replaceByKind projectId cache type v (.nameOnly name)).1 ∧
        (db.replaceByKind projectId cache type v (.nameOnly name)).2 =
          (db.uniqueByName projectId type name).getD
            (if CachedName pre type name then notFound name else v) := by
    intro name hname
    have hcache := h.byName type name
    split_ifs at hcache ⊢ with hcached
    · simp only [replaceByKind, hcache]
      refine ⟨h.keep (fun name' hname' => ?_) fun type' id _ hfail =>
        absurd hfail (not_fails_of_oldName hname type' id), trivial⟩
      rwa [← Option.some_inj.1 (hname.symm.trans hname')]
    · simp only [replaceByKind, hcache]
      exact ⟨h.rememberName rfl hname (not_fails_of_oldName hname), trivial⟩
  rw [replaceInvalidEntry_eq, resultAfter]
  cases hkind : kindOf v with
  | skipped =>
    refine ⟨h.keep (fun name hname => ?_) fun type' id _ hfail => ?_, rfl⟩
    · simp [hkind, CredentialsKind.oldName] at hname
    · exact absurd (hkind.symm.trans hfail.2.1) (by simp)
  | text name => exact hold name (by rw [hkind]; rfl)
  | nameOnly name => exact hold name (by rw [hkind]; rfl)
  | identified id name =>
    have hname : (kindOf v).oldName = none := by rw [hkind]; rfl
    have hname' : ∀ name, (kindOf v).oldName = some name → CachedName pre type name :=
      fun name' hsome => by simp [hname] at hsome
    -- the credentials fail for no other id
    have hid : ∀ {type' id'}, db.Fails projectId type' id' (type, v) →
        (type', id') = (type, id) ∧ db.uniqueByName projectId type name = none := by
      rintro type' id' ⟨rfl, hfail, hunique⟩
      rw [hkind] at hfail hunique
      injection hfail with hfail _
      exact ⟨by rw [hfail], hunique⟩
    cases hexists : db.existing type id with
    | some details =>
      have hfails : ∀ type' id', db.existing type' id' = none →
          ¬ db.Fails projectId type' id' (type, v) := by
        intro type' id' hnone hfail
        obtain ⟨rfl, rfl⟩ := Prod.mk.inj (hid hfail).1
        exact absurd (hexists.symm.trans hnone) (by simp)
      rcases h.byId type id details hexists with hcache | hcache
      · simp only [replaceByKind, hcache, hexists, Option.getD_some]
        exact ⟨h.remember hname hexists hfails, trivial⟩
      · simp only [replaceByKind, hcache, hexists, Option.getD_some]
        exact ⟨h.keep hname' fun type' id' hnone hfail => absurd hfail (hfails type' id' hnone), trivial⟩
    | none =>
      have hcache := h.failures type id hexists
      cases hfailed : db.failed projectId pre type id with
      | some details =>
        simp only [replaceByKind, hcache, hexists, hfailed, Option.getD_some, Option.getD_none]
        refine ⟨h.keep hname' fun type' id' _ hfail => ?_, trivial⟩
        obtain ⟨rfl, rfl⟩ := Prod.mk.inj (hid hfail).1
        exact Option.isSome_iff_exists.2 ⟨details, hfailed⟩
      | none =>
        cases hunique : db.uniqueByName projectId type name with
        | some details =>
          obtain ⟨e, hfound, rfl⟩ := uniqueByName_eq_some hunique
          simp only [replaceByKind, hcache, hexists, hfailed, hunique, hfound, Option.getD_some,
            Option.getD_none]
          refine ⟨h.remember hname (existing_of_found hfound) fun type' id' _ hfail => ?_, trivial⟩
          exact absurd (hunique.symm.trans (hid hfail).2) (by simp)
        | none =>
          rw [hfailed] at hcache
          rw [replaceByKind_of_not_found hcache hexists hunique]
          refine ⟨h.rememberFailure rfl hkind hexists hunique hfailed, ?_⟩
          simp only [hexists, hfailed, hunique, Option.getD_none]

end Step

/-! ### Runs -/

variable (db projectId)

/-- What the credentials of a node become after others. -/
def resultsAfter : List (String × JsValue) → List (String × JsValue) → List (String × JsValue)
  | _, [] => []
  | pre, e :: entries =>
    (e.1, db.resultAfter projectId pre e.1 e.2) :: resultsAfter (pre ++ [e]) entries

/-- The credentials of a node that are looked at. -/
def processedEntries (node : JsObject) : List (String × JsValue) :=
  match JsObject.get node "credentials", (JsObject.get node "disabled").truthy with
  | .obj entries, false => entries
  | _, _ => []

/-- What a node becomes after others with some credentials. -/
def nodeAfter (pre : List (String × JsValue)) (node : JsObject) : JsObject :=
  match JsObject.get node "credentials", (JsObject.get node "disabled").truthy with
  | .obj entries, false => node.put "credentials" (.obj (db.resultsAfter projectId pre entries))
  | _, _ => node

def nodesAfter : List (String × JsValue) → List JsObject → List JsObject
  | _, [] => []
  | pre, node :: nodes =>
    db.nodeAfter projectId pre node :: nodesAfter (pre ++ processedEntries node) nodes

variable {db projectId}

theorem CacheAfter.run_entries {cache : CredentialsCache} (h : db.CacheAfter projectId pre cache)
    (entries : List (String × JsValue)) :
    db.CacheAfter projectId (pre ++ entries) (db.replaceInvalidEntries projectId cache entries).1 ∧
      (db.replaceInvalidEntries projectId cache entries).2 = db.resultsAfter projectId pre entries := by
  induction entries generalizing pre cache with
  | nil => exact ⟨by rwa [List.append_nil], rfl⟩
  | cons e entries ih =>
    obtain ⟨type, v⟩ := e
    obtain ⟨hcache, hresult⟩ := h.step type v
    obtain ⟨hrest, hresults⟩ := ih hcache
    refine ⟨by rwa [List.append_assoc] at hrest, ?_⟩
    rw [replaceInvalidEntries, resultsAfter, ← hresult, ← hresults]

/-- **A whole run**, from any cache. -/
theorem CacheAfter.run_nodes {cache : CredentialsCache} (h : db.CacheAfter projectId pre cache)
    (nodes : List JsObject) :
    db.replaceInvalidNodes projectId cache nodes = db.nodesAfter projectId pre nodes := by
  induction nodes generalizing pre cache with
  | nil => rfl
  | cons node nodes ih =>
    rw [replaceInvalidNodes, nodesAfter, nodeAfter, processedEntries]
    have hskip : db.replaceInvalidNodes projectId cache nodes =
        db.nodesAfter projectId (pre ++ []) nodes := ih (by rwa [List.append_nil])
    cases JsObject.get node "credentials" with
    | obj entries =>
      cases (JsObject.get node "disabled").truthy with
      | true => exact congrArg _ hskip
      | false =>
        obtain ⟨hcache, hresults⟩ := h.run_entries entries
        dsimp only
        rw [← hresults, ← ih hcache]
    | _ => exact congrArg _ hskip

/-! ### Credentials that failures of others change -/

variable (db projectId) in
/-- Neither the cached failure of the name nor that of the id makes the second credentials other ones. -/
def Compatible (v e : String × JsValue) : Prop :=
  v.1 = e.1 →
    (∀ name, (kindOf v.2).oldName = some name → (kindOf e.2).oldName = some name →
      db.uniqueByName projectId e.1 name = none → e.2 = notFound name) ∧
    (∀ id, (kindOf e.2).id = some id → db.existing e.1 id = none →
      db.Fails projectId e.1 id v → v.2 = e.2)

theorem fails_failed {w : JsValue} (h : db.failed projectId pre type id = some w) :
    ∃ v ∈ pre, db.Fails projectId type id v ∧ v.2 = w := by
  obtain ⟨v, hfind, rfl⟩ := Option.map_eq_some_iff.1 h
  exact ⟨v, List.mem_of_find?_eq_some hfind, by simpa using List.find?_some hfind, rfl⟩

theorem not_fails_of_failed_eq_none (h : db.failed projectId pre type id = none) (hv : v ∈ pre) :
    ¬ db.Fails projectId type id v := by
  rw [failed, Option.map_eq_none_iff, List.find?_eq_none] at h
  simpa using h v hv

/-- All that fails for an id is the same. -/
theorem eq_of_fails (hpre : pre.Pairwise (db.Compatible projectId))
    (hnone : db.existing type id = none) {w : String × JsValue} (hv : v ∈ pre) (hw : w ∈ pre)
    (hfail : db.Fails projectId type id v) (hfail' : db.Fails projectId type id w) : v.2 = w.2 := by
  have hsame : pre.Pairwise fun v w => db.Fails projectId type id v →
      db.Fails projectId type id w → v.2 = w.2 := by
    refine hpre.imp fun {v w} hcompatible hv hw => ?_
    have htype : v.1 = w.1 := hv.1.trans hw.1.symm
    refine (hcompatible htype).2 id (by rw [hw.2.1]; rfl) ?_ ?_
    · rwa [hw.1]
    · rwa [hw.1]
  exact hsame.forall_of_forall_of_flip (fun v _ _ _ => rfl)
    (hsame.imp fun h hw hv => (h hv hw).symm) hv hw hfail hfail'

/-- A failure is no credentials of the database. -/
theorem uniqueByName_ne_of_fails (hfail : db.Fails projectId type id v)
    (hnone : db.existing type id = none) : db.uniqueByName projectId type name ≠ some v.2 := by
  intro hunique
  obtain ⟨e, hfound, hdetails⟩ := uniqueByName_eq_some hunique
  have hkind := hfail.2.1
  rw [hdetails, kindOf_credentialDetails] at hkind
  injection hkind with hid _
  rw [← hid, existing_of_found hfound] at hnone
  cases hnone

section ResultAfter

variable {pre : List (String × JsValue)} {e : String × JsValue}

theorem compatible_of_oldName {name : String} (hname : (kindOf e.2).oldName = some name)
    (hid : (kindOf e.2).id = none) : (∀ v ∈ pre, db.Compatible projectId v e) ↔
      (db.uniqueByName projectId e.1 name = none → CachedName pre e.1 name →
        e.2 = notFound name) := by
  constructor
  · rintro h hunique ⟨v, hv, htype, hv'⟩
    exact (h v hv htype).1 name hv' hname hunique
  · intro h v hv htype
    refine ⟨fun name' hv' hname' hunique => ?_, by simp [hid]⟩
    obtain rfl := Option.some_inj.1 (hname.symm.trans hname')
    exact h hunique ⟨v, hv, htype, hv'⟩

theorem compatible_of_id {id : String} (hname : (kindOf e.2).oldName = none)
    (hid : (kindOf e.2).id = some id) : (∀ v ∈ pre, db.Compatible projectId v e) ↔
      (db.existing e.1 id = none → ∀ v ∈ pre, db.Fails projectId e.1 id v → v.2 = e.2) := by
  constructor
  · exact fun h hnone v hv hfail => (h v hv hfail.1).2 id hid hnone hfail
  · refine fun h v hv _ => ⟨by simp [hname], fun id' hid' hnone hfail => ?_⟩
    obtain rfl := Option.some_inj.1 (hid.symm.trans hid')
    exact h hnone v hv hfail

/-- After other credentials, these become what they become alone. -/
theorem resultAfter_eq_iff (hpre : pre.Pairwise (db.Compatible projectId)) :
    db.resultAfter projectId pre e.1 e.2 = db.uncached projectId e.1 e.2 ↔
      ∀ v ∈ pre, db.Compatible projectId v e := by
  have hold : ∀ name, (kindOf e.2).oldName = some name → (kindOf e.2).id = none →
      ((db.uniqueByName projectId e.1 name).getD
          (if CachedName pre e.1 name then notFound name else e.2) =
        (db.uniqueByName projectId e.1 name).getD e.2 ↔
      ∀ v ∈ pre, db.Compatible projectId v e) := by
    intro name hname hid
    rw [compatible_of_oldName hname hid]
    cases db.uniqueByName projectId e.1 name <;> simp [eq_comm]
  unfold resultAfter uncached
  cases hkind : kindOf e.2 with
  | skipped => simp [Compatible, hkind, CredentialsKind.oldName, CredentialsKind.id]
  | text name => exact hold name (by rw [hkind]; rfl) (by rw [hkind]; rfl)
  | nameOnly name => exact hold name (by rw [hkind]; rfl) (by rw [hkind]; rfl)
  | identified id name =>
    rw [compatible_of_id (by rw [hkind]; rfl) (by rw [hkind]; rfl)]
    dsimp only
    rcases hexists : db.existing e.1 id with _ | details
    · rcases hfailed : db.failed projectId pre e.1 id with _ | w
      · exact iff_of_true rfl fun _ v hv hfail =>
          absurd hfail (not_fails_of_failed_eq_none hfailed hv)
      · obtain ⟨v, hv, hfail, rfl⟩ := fails_failed hfailed
        simp only [Option.getD_none, Option.getD_some, Option.none_or, forall_const]
        constructor
        · intro heq u hu hfail'
          rcases hunique : db.uniqueByName projectId e.1 name with _ | details
          · rw [eq_of_fails hpre hexists hu hv hfail' hfail, heq, hunique, Option.getD_none]
          · rw [hunique, Option.getD_some] at heq
            exact absurd (heq ▸ hunique) (uniqueByName_ne_of_fails hfail hexists)
        · intro h
          have heq : v.2 = e.2 := h v hv hfail
          have hunique := hfail.2.2
          rw [heq, hkind] at hunique
          change db.uniqueByName projectId e.1 name = none at hunique
          rw [hunique, Option.getD_none, heq]
    · simp

end ResultAfter

variable (db projectId) in
/-- Each of the credentials becomes what it becomes alone. -/
def AllAlone : List (String × JsValue) → List (String × JsValue) → Prop
  | _, [] => True
  | pre, e :: entries =>
    db.resultAfter projectId pre e.1 e.2 = db.uncached projectId e.1 e.2 ∧
      AllAlone (pre ++ [e]) entries

theorem allAlone_append (pre entries entries' : List (String × JsValue)) :
    db.AllAlone projectId pre (entries ++ entries') ↔
      db.AllAlone projectId pre entries ∧ db.AllAlone projectId (pre ++ entries) entries' := by
  induction entries generalizing pre with
  | nil => simp [AllAlone]
  | cons e entries ih =>
    rw [List.cons_append, AllAlone, AllAlone, ih, and_assoc, List.append_assoc,
      List.singleton_append]

/-- **Credentials that are compatible in pairs** become what they become alone. -/
theorem allAlone_iff (entries : List (String × JsValue)) :
    db.AllAlone projectId [] entries ↔ entries.Pairwise (db.Compatible projectId) := by
  induction entries using List.reverseRecOn with
  | nil => simp [AllAlone]
  | append_singleton entries e ih =>
    rw [allAlone_append, ih, List.pairwise_append, List.nil_append, AllAlone, AllAlone]
    constructor
    · rintro ⟨hpre, hresult, -⟩
      exact ⟨hpre, List.pairwise_singleton _ _, by simpa using (resultAfter_eq_iff hpre).1 hresult⟩
    · rintro ⟨hpre, -, hcompatible⟩
      exact ⟨hpre, (resultAfter_eq_iff hpre).2 (by simpa using hcompatible), trivial⟩

variable (db projectId) in
/-- What a node becomes alone. -/
def nodeAlone (node : JsObject) : JsObject :=
  match JsObject.get node "credentials", (JsObject.get node "disabled").truthy with
  | .obj entries, false =>
    node.put "credentials" (.obj (entries.map fun e => (e.1, db.uncached projectId e.1 e.2)))
  | _, _ => node

theorem resultsAfter_eq_iff (pre entries : List (String × JsValue)) :
    db.resultsAfter projectId pre entries =
        entries.map (fun e => (e.1, db.uncached projectId e.1 e.2)) ↔
      db.AllAlone projectId pre entries := by
  induction entries generalizing pre with
  | nil => simp [resultsAfter, AllAlone]
  | cons e entries ih =>
    rw [resultsAfter, AllAlone, List.map_cons, List.cons.injEq, ih, Prod.mk.injEq,
      eq_self_iff_true, true_and]

theorem put_injective (o : JsObject) (key : String) : Function.Injective (o.put key) := by
  intro value value' h
  have hget := congrArg (fun o => JsObject.get o key) h
  simpa only [get_put, if_true] using hget

theorem nodeAfter_eq_iff (pre : List (String × JsValue)) (node : JsObject) :
    db.nodeAfter projectId pre node = db.nodeAlone projectId node ↔
      db.AllAlone projectId pre (processedEntries node) := by
  rw [nodeAfter, nodeAlone, processedEntries]
  cases JsObject.get node "credentials" with
  | obj entries =>
    cases (JsObject.get node "disabled").truthy with
    | true => simp [AllAlone]
    | false =>
      dsimp only
      rw [(put_injective node _).eq_iff, JsValue.obj.injEq, resultsAfter_eq_iff]
  | _ => simp [AllAlone]

theorem nodesAfter_eq_iff (pre : List (String × JsValue)) (nodes : List JsObject) :
    db.nodesAfter projectId pre nodes = nodes.map (db.nodeAlone projectId) ↔
      db.AllAlone projectId pre (nodes.flatMap processedEntries) := by
  induction nodes generalizing pre with
  | nil => simp [nodesAfter, AllAlone]
  | cons node nodes ih =>
    rw [nodesAfter, List.map_cons, List.cons.injEq, ih, nodeAfter_eq_iff, List.flatMap_cons,
      allAlone_append]

end ProjectDatabase

/-! ### When the caches make no difference -/

/-- The value is what the type of the credentials of a node allows: nothing, a text, or an object with an
id (or null) and a name. -/
def isNodeCredentials : JsValue → Bool
  | .undefined | .null | .str _ => true
  | .obj props =>
    (JsObject.get props "__aiGatewayManaged").truthy ||
      (match JsObject.get props "id", JsObject.get props "name" with
      | .str _, .str _ | .null, .str _ => true
      | _, _ => false)
  | _ => false

/-- The credentials of a node have distinct types, and no key that is looked up in a cache is one that
every object has. -/
structure PlainCredentials (entries : List (String × JsValue)) : Prop where
  distinct : (entries.map Prod.fst).Nodup
  typed : ∀ e ∈ entries, isNodeCredentials e.2 = true
  ownTypes : ∀ e ∈ entries, e.1 ∉ objectPrototypeKeys
  ownNames : ∀ e ∈ entries, ∀ name ∈ (kindOf e.2).oldName, name ∉ objectPrototypeKeys
  ownIds : ∀ e ∈ entries, ∀ id ∈ (kindOf e.2).id, id ∉ objectPrototypeKeys

namespace ProjectDatabase

variable (db : ProjectDatabase) (projectId : String)

theorem replaceInvalidCredentials_singleton {node : JsObject}
    (hnode : PlainCredentials (processedEntries node)) :
    db.replaceInvalidCredentials projectId [node] = [db.nodeAlone projectId node] := by
  have hdistinct := hnode.distinct
  rw [List.Nodup, List.pairwise_map] at hdistinct
  rw [replaceInvalidCredentials, cacheAfter_nil.run_nodes, ← List.map_singleton,
    nodesAfter_eq_iff, allAlone_iff, List.flatMap_singleton]
  exact hdistinct.imp fun hne htype => absurd htype hne

/-- **The caches of the credentials**: alone, each node gets what is looked up for it.  Together with
others, all nodes get the same exactly when no credentials come after a failure for their name or id that
is not their own. -/
theorem replaceInvalidCredentials_transparent_iff {nodes : List JsObject}
    (hnodes : ∀ node ∈ nodes, PlainCredentials (processedEntries node)) :
    (∀ node ∈ nodes,
      db.replaceInvalidCredentials projectId [node] = [db.nodeAlone projectId node]) ∧
    (db.replaceInvalidCredentials projectId nodes =
        nodes.flatMap (fun node => db.replaceInvalidCredentials projectId [node]) ↔
      (nodes.flatMap processedEntries).Pairwise (db.Compatible projectId)) := by
  have hsingle : ∀ node ∈ nodes,
      db.replaceInvalidCredentials projectId [node] = [db.nodeAlone projectId node] :=
    fun node hnode => db.replaceInvalidCredentials_singleton projectId (hnodes node hnode)
  refine ⟨hsingle, ?_⟩
  rw [← allAlone_iff, ← nodesAfter_eq_iff, ← cacheAfter_nil.run_nodes, replaceInvalidCredentials,
    List.map_eq_flatMap, List.flatMap_congr hsingle]

/-- A node with credentials of one type. -/
def slackNode (credentials : JsObject) : JsObject := [("credentials", .obj [("slackApi", .obj credentials)])]

/-- Two nodes with an id that does not exist; the name of the second one does. -/
def unknownName : JsObject := slackNode [("id", .str "9"), ("name", .str "A")]

def knownName : JsObject := slackNode [("id", .str "9"), ("name", .str "B")]

def oneCredential : ProjectDatabase where
  credentials := .ofList
    [("1", { name := "B", type := "slackApi", shared := [{ projectId := "p", role := "owner" }] })]

theorem plainCredentials_pair :
    ∀ node ∈ [unknownName, knownName], PlainCredentials (processedEntries node) := by
  intro node hnode
  simp only [List.mem_cons, List.not_mem_nil, or_false] at hnode
  rcases hnode with rfl | rfl <;>
    exact ⟨by decide +kernel, by decide +kernel, by decide +kernel, by decide +kernel,
      by decide +kernel⟩

theorem replaceInvalidCredentials_transparent_iff_pair :
    (∀ node ∈ [unknownName, knownName], PlainCredentials (processedEntries node)) ∧
    (oneCredential.replaceInvalidCredentials "p" [unknownName, knownName] =
        [unknownName, knownName].flatMap
          (fun node => oneCredential.replaceInvalidCredentials "p" [node]) ↔
      ([unknownName, knownName].flatMap processedEntries).Pairwise (oneCredential.Compatible "p")) :=
  ⟨plainCredentials_pair,
    (oneCredential.replaceInvalidCredentials_transparent_iff "p" plainCredentials_pair).2⟩

/-- The failure that is cached for the first node is what the second one gets. -/
theorem failure_replaces_knownName :
    (∀ node ∈ [unknownName, knownName], PlainCredentials (processedEntries node)) ∧
      oneCredential.replaceInvalidCredentials "p" [unknownName, knownName] =
        [unknownName, unknownName] ∧
      oneCredential.replaceInvalidCredentials "p" [knownName] =
        [slackNode [("id", .str "1"), ("name", .str "B")]] :=
  ⟨plainCredentials_pair, by decide +kernel, by decide +kernel⟩

end ProjectDatabase

end N8n
