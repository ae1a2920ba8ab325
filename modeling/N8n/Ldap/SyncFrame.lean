import N8n.Ldap.Sync

/-!
# What a synchronisation changes

Users without an LDAP identity among the differences and identities at other providers should stay as
they are, and the recorded status should say whether the differences were committed.

* `Ldap.KeepsOthers`, `Ldap.Confined`: what should stay, and when it does;
* `Ldap.Permitted`, `Ldap.Possible`: the accesses of the processes, and what they read;
* `Ldap.keepsOthers_of_confined`: under the condition everything that should stay does, in whatever
  order the processes go on and whatever fails;
* `Ldap.runSync_frame`: this, what happens without the condition, and when the status is honest.
-/

namespace N8n

namespace Ldap

variable {env : Surroundings} {texts : Texts} {changes : SyncChanges} {db d d' : LdapDatabase}
  {id uid : String} {user : User}

/-! ### What should stay -/

/-- The user has an LDAP identity that is to be updated or disabled. -/
def InChanges (changes : SyncChanges) (db : LdapDatabase) (id : String) : Prop :=
  ∃ uid, (some uid ∈ changes.updates.map Prod.fst ∨ uid ∈ changes.disables) ∧
    db.identities.get? (uid, .ldap) = some id

structure KeepsOthers (changes : SyncChanges) (db d : LdapDatabase) : Prop where
  users : ∀ id u, db.users.rows.get? id = some u → ¬ InChanges changes db id →
    d.users.rows.get? id = some u
  identities : ∀ uid type, type ≠ .ldap →
    d.identities.get? (uid, type) = db.identities.get? (uid, type)

/-- Saving leaves the row as it is: it is the same, or becomes so, or its email is refused. -/
def LeavesRow (texts : Texts) (cur saved : User) : Prop :=
  saved = cur ∨ ∀ saved', texts.preUpsertHook saved = .ok saved' → saved' = cur

/-- The identities that are found are of users with LDAP identities only, or of users that an update
leaves as they are. -/
structure Confined (texts : Texts) (changes : SyncChanges) (db : LdapDatabase) : Prop where
  disables : ∀ uid ∈ changes.disables, ∀ type id, db.identities.get? (uid, type) = some id →
    id ≠ "" → ∀ uid' type', db.identities.get? (uid', type') = some id → type' = .ldap
  updates : ∀ uid user, (some uid, user) ∈ changes.updates → ∀ type id, type ≠ .ldap →
    db.identities.get? (uid, type) = some id → id ≠ "" → InChanges changes db id ∨
      ∀ cur, db.users.rows.get? id = some cur → LeavesRow texts cur (cur.assign user)

/-! ### Accesses -/

/-- The accesses that keep what should stay. -/
def Permitted (texts : Texts) (changes : SyncChanges) (db : LdapDatabase) : LdapOp → Prop
  | .saveUser id saved => ¬ InChanges changes db id →
    ∀ cur, db.users.rows.get? id = some cur → LeavesRow texts cur saved
  | .saveAttributes _ _ => False
  | .saveIdentity uid _ => ∀ uid', uid = some uid' → uid' ∉ db.allLocalLdapIds
  | .deleteIdentities id => ∀ uid type, db.identities.get? (uid, type) = some id → type = .ldap
  | _ => True

/-- What can be read as long as everything stays that should. -/
def Possible (changes : SyncChanges) (db : LdapDatabase) :
    (op : LdapOp) → ldapOperations.Reply op → Prop
  | .findIdentityOf uid, reply => ∀ uid' ident, uid = some uid' → uid' ∈ db.allLocalLdapIds →
    reply = some ident → db.identities.get? (uid', ident.providerType) = some ident.userId
  | .findUser id, reply => ¬ InChanges changes db id →
    ∀ cur, db.users.rows.get? id = some cur → reply = some cur
  | _, _ => True

/-- What should stay does, and no LDAP identity has got another user. -/
structure Framed (changes : SyncChanges) (db d : LdapDatabase) : Prop
    extends KeepsOthers changes db d where
  known : ∀ uid ∈ db.allLocalLdapIds, ∀ id, d.identities.get? (uid, .ldap) = some id →
    db.identities.get? (uid, .ldap) = some id

theorem framed_refl (changes : SyncChanges) (db : LdapDatabase) : Framed changes db db :=
  ⟨⟨fun _ _ h _ => h, fun _ _ _ => rfl⟩, fun _ _ _ h => h⟩

/-- A write of one user. -/
theorem Framed.writeUser {saved : User} (hd : Framed changes db d)
    (hsaved : ¬ InChanges changes db id → ∀ cur, db.users.rows.get? id = some cur → saved = cur)
    (h : d.writeUser id saved = .ok d') : Framed changes db d' := by
  obtain ⟨hrows, hidentities⟩ := writeUser_ok h
  refine ⟨⟨fun id' u hu hother => ?_, ?_⟩, ?_⟩
  · rw [hrows, Dict.get?_set]
    split_ifs with heq
    · subst heq
      rw [hsaved hother u hu]
    · exact hd.users id' u hu hother
  · rw [hidentities]
    exact hd.identities
  · rw [hidentities]
    exact hd.known

theorem Framed.attempt (hd : Framed changes db d) {r : Except LdapError LdapDatabase}
    (hr : ∀ d', r = .ok d' → Framed changes db d') : Framed changes db (d.attempt r).2 := by
  cases r with
  | ok d' => exact hr d' rfl
  | error e => exact hd

theorem Framed.insertUser (hd : Framed changes db d) (h : d.insertUser texts id user = .ok d') :
    Framed changes db d' := by
  rw [LdapDatabase.insertUser] at h
  obtain ⟨saved, -, hwrite⟩ := Except.bind_eq_ok_iff.mp h
  split_ifs at hwrite with hhas
  refine hd.writeUser (fun hother cur hcur => ?_) hwrite
  have hrow := hd.users id cur hcur hother
  rw [Dict.has, hrow] at hhas
  exact absurd rfl hhas

theorem Framed.saveUser (hd : Framed changes db d)
    (hsaved : ¬ InChanges changes db id → ∀ cur, db.users.rows.get? id = some cur →
      LeavesRow texts cur user)
    (h : d.saveUser texts id user = .ok d') : Framed changes db d' := by
  rw [LdapDatabase.saveUser] at h
  split_ifs at h with hsame
  · cases h
    exact hd
  · obtain ⟨saved, hhook, hwrite⟩ := Except.bind_eq_ok_iff.mp h
    refine hd.writeUser (fun hother cur hcur => ?_) hwrite
    rcases hsaved hother cur hcur with heq | hleaves
    · exact absurd (heq ▸ hd.users id cur hcur hother) hsame
    · exact hleaves saved hhook

variable {key : Option String} {ident : AuthIdentity} {c choice : ℕ} {p : Program Unit}

theorem Framed.saveIdentity (hd : Framed changes db d)
    (hkey : ∀ uid, key = some uid → uid ∉ db.allLocalLdapIds) (h : d.saveIdentity key id = .ok d') :
    Framed changes db d' := by
  cases key with
  | none => cases h
  | some uid =>
    cases h
    refine ⟨⟨hd.users, fun uid' type htype => ?_⟩, fun uid' hknown id' hidentity => ?_⟩
    · show (d.identities.set (uid, .ldap) id).get? (uid', type) = _
      rw [Dict.get?_set_ne _ _ (fun h => htype (congrArg Prod.snd h))]
      exact hd.identities uid' type htype
    · change (d.identities.set (uid, .ldap) id).get? (uid', .ldap) = _ at hidentity
      have hne : uid' ≠ uid := fun heq => hkey uid rfl (heq ▸ hknown)
      rw [Dict.get?_set_ne _ _ (fun h => hne (congrArg Prod.fst h))] at hidentity
      exact hd.known uid' hknown id' hidentity

theorem Framed.deleteIdentities (hd : Framed changes db d)
    (hid : ∀ uid type, db.identities.get? (uid, type) = some id → type = .ldap) :
    Framed changes db (d.deleteIdentities id) := by
  refine ⟨⟨hd.users, fun uid type htype => ?_⟩, fun uid hknown id' hidentity => ?_⟩
  · rw [← hd.identities uid type htype]
    apply Option.ext
    intro userId
    rw [LdapDatabase.deleteIdentities, Dict.get?_filter_eq_some_iff]
    refine ⟨fun h => h.1, fun h => ⟨h, ?_⟩⟩
    rw [decide_eq_true_iff]
    rintro rfl
    rw [hd.identities uid type htype] at h
    exact htype (hid uid type h)
  · exact hd.known uid hknown id' ((Dict.get?_filter_eq_some_iff _ _ _ _).mp hidentity).1

theorem mem_identitiesOf (h : ident ∈ d.identitiesOf (some uid)) :
    ident.providerId = uid ∧
      d.identities.get? (uid, ident.providerType) = some ident.userId := by
  obtain ⟨⟨⟨uid', type⟩, userId⟩, hmem, rfl⟩ := List.mem_map.mp h
  obtain ⟨hentry, huid⟩ := List.mem_filter.mp hmem
  obtain rfl : uid' = uid := by simpa using huid
  exact ⟨rfl, (Dict.mem_entries_iff _ _ _).mp hentry⟩

theorem Framed.possible_identityOf (hd : Framed changes db d) (choice : ℕ) (key : Option String) :
    Possible changes db (.findIdentityOf key) ((d.identitiesOf key).rotate choice).head? := by
  rintro uid ident rfl hknown hreply
  have hmem := List.mem_rotate.mp (List.mem_of_mem_head? hreply)
  obtain ⟨-, hidentity⟩ := mem_identitiesOf hmem
  by_cases htype : ident.providerType = .ldap
  · rw [htype] at hidentity ⊢
    exact hd.known uid hknown _ hidentity
  · rwa [← hd.identities uid _ htype]

/-- **One access** that is permitted keeps what should stay, and reads what is possible. -/
theorem Framed.handle (hd : Framed changes db d) (choice : ℕ) (op : LdapOp)
    (hop : Permitted texts changes db op) :
    Framed changes db (handle texts choice d op).2 ∧
      Possible changes db op (handle texts choice d op).1 := by
  cases op with
  | findIdentity uid => exact ⟨hd, trivial⟩
  | findUserByLdapUid uid => exact ⟨hd, trivial⟩
  | findUserByEmail email => exact ⟨hd, trivial⟩
  | findUser id => exact ⟨hd, fun hother cur hcur => hd.users id cur hcur hother⟩
  | findIdentityOf key => exact ⟨hd, hd.possible_identityOf choice key⟩
  | insertUser id user => exact ⟨hd.attempt fun _ h => hd.insertUser h, trivial⟩
  | saveUser id saved => exact ⟨hd.attempt fun _ h => hd.saveUser hop h, trivial⟩
  | saveAttributes id attrs => exact absurd hop not_false
  | saveIdentity key userId => exact ⟨hd.attempt fun _ h => hd.saveIdentity hop h, trivial⟩
  | deleteIdentities userId => exact ⟨hd.deleteIdentities hop, trivial⟩
  | insertProject id project => exact ⟨⟨⟨hd.users, hd.identities⟩, hd.known⟩, trivial⟩
  | insertProjectRelation relation => exact ⟨⟨⟨hd.users, hd.identities⟩, hd.known⟩, trivial⟩

/-! ### The processes -/

/-- The process keeps what should stay. -/
abbrev Respectful (texts : Texts) (changes : SyncChanges) (db : LdapDatabase) {α : Type}
    (p : Program α) : Prop := p.Respects (Permitted texts changes db) (Possible changes db)

theorem respectful_orThrow (r : Except LdapError Unit) :
    Respectful texts changes db (orThrow r) := by
  cases r with
  | ok u => trivial
  | error e => trivial

theorem respectful_insertUser (id : String) (user : User) :
    Respectful texts changes db (insertUser id user) := ⟨trivial, fun r _ => respectful_orThrow r⟩

theorem respectful_saveUser
    (h : ¬ InChanges changes db id → ∀ cur, db.users.rows.get? id = some cur →
      LeavesRow texts cur user) : Respectful texts changes db (saveUser id user) :=
  ⟨h, fun r _ => respectful_orThrow r⟩

theorem respectful_linkIdentity (h : ∀ uid, key = some uid → uid ∉ db.allLocalLdapIds) :
    Respectful texts changes db (linkIdentity id key) := ⟨h, fun r _ => respectful_orThrow r⟩

theorem respectful_deleteIdentities
    (h : ∀ uid type, db.identities.get? (uid, type) = some id → type = .ldap) :
    Respectful texts changes db (deleteIdentities id) := ⟨h, fun r _ => respectful_orThrow r⟩

theorem respectful_insertProject (id : String) (project : Project) :
    Respectful texts changes db (insertProject id project) :=
  ⟨trivial, fun r _ => respectful_orThrow r⟩

theorem respectful_insertProjectRelation (relation : ProjectRelation) :
    Respectful texts changes db (insertProjectRelation relation) :=
  ⟨trivial, fun r _ => respectful_orThrow r⟩

theorem respectful_createUserWithProject (env : Surroundings) (i : ℕ) (user : User) :
    Respectful texts changes db (createUserWithProject env i user) := by
  refine (respectful_insertUser _ _).bind fun _ => ⟨trivial, fun found _ => ?_⟩
  cases found with
  | none => trivial
  | some userWithRole =>
    refine (respectful_insertProject _ _).bind fun _ => ?_
    exact (respectful_insertProjectRelation _).bind fun _ => trivial

theorem respectful_createTask (i : ℕ) (user : User)
    (h : ∀ uid, key = some uid → uid ∉ db.allLocalLdapIds) :
    Respectful texts changes db (createTask env i key user) :=
  (respectful_createUserWithProject env i user).bind fun _ => respectful_linkIdentity h

/-- An update of a user with an LDAP identity among the changes, or one that leaves the user. -/
theorem respectful_updateUser
    (h : InChanges changes db id ∨ ∀ cur, db.users.rows.get? id = some cur →
      LeavesRow texts cur (cur.assign user)) :
    Respectful texts changes db (updateUser user id) := by
  refine ⟨trivial, fun found hfound => ?_⟩
  cases found with
  | none => trivial
  | some cur =>
    show Respectful texts changes db (ite _ _ _)
    split_ifs
    · refine respectful_saveUser fun hother row hrow => ?_
      have heq : some cur = some row := hfound hother row hrow
      obtain rfl := Option.some.inj heq
      exact (h.resolve_left hother) _ hrow
    · trivial

theorem respectful_updateTask (hconfined : Confined texts changes db)
    (hmem : (some uid, user) ∈ changes.updates) (hknown : uid ∈ db.allLocalLdapIds) :
    Respectful texts changes db (updateTask (some uid) user) := by
  refine ⟨trivial, fun found hfound => ?_⟩
  cases found with
  | none => trivial
  | some ident =>
    have hidentity := hfound uid ident rfl hknown rfl
    show Respectful texts changes db (ite _ _ _)
    split_ifs with hempty
    · trivial
    · refine respectful_updateUser ?_
      by_cases htype : ident.providerType = .ldap
      · rw [htype] at hidentity
        exact Or.inl ⟨uid, Or.inl (List.mem_map_of_mem hmem), hidentity⟩
      · exact hconfined.updates uid user hmem _ _ htype hidentity hempty

theorem respectful_disableTask (hconfined : Confined texts changes db)
    (hmem : uid ∈ changes.disables) (hknown : uid ∈ db.allLocalLdapIds) :
    Respectful texts changes db (disableTask uid) := by
  refine ⟨trivial, fun found hfound => ?_⟩
  cases found with
  | none => trivial
  | some ident =>
    have hidentity := hfound uid ident rfl hknown rfl
    show Respectful texts changes db (ite _ _ _)
    split_ifs with hempty
    · trivial
    · have hldap := hconfined.disables uid hmem _ _ hidentity hempty
      have htype := hldap uid _ hidentity
      rw [htype] at hidentity
      have hin : InChanges changes db ident.userId := ⟨uid, Or.inr hmem, hidentity⟩
      refine Process.Respects.bind ⟨trivial, fun row hrow => ?_⟩ fun _ =>
        respectful_deleteIdentities hldap
      cases row with
      | none => trivial
      | some u => exact respectful_saveUser fun hother => absurd hin hother

theorem diffNewUsers_unknown {cfg : LdapConfig} {remote : List Entry} {ids : List String}
    (h : (some uid, user) ∈ diffNewUsers env cfg remote ids) : uid ∉ ids := by
  obtain ⟨p, hp, heq⟩ := List.mem_map.mp h
  have hentry := (List.mem_filter.mp (List.fst_mem_of_mem_zipIdx hp)).2
  have hid : p.1.texts cfg.ldapIdAttribute = some uid := congrArg Prod.fst heq
  rw [IsKnown, hid] at hentry
  simpa using hentry

theorem diffExistingUsers_known {cfg : LdapConfig} {remote : List Entry} {ids : List String}
    (h : (key, user) ∈ diffExistingUsers cfg remote ids) : ∃ uid ∈ ids, key = some uid := by
  obtain ⟨entry, hentry, heq⟩ := List.mem_map.mp h
  have hid : entry.texts cfg.ldapIdAttribute = key := congrArg Prod.fst heq
  have hknown := (List.mem_filter.mp hentry).2
  rw [IsKnown, hid] at hknown
  obtain ⟨uid, hkey, hmem⟩ := (Option.any_eq_true _ _).mp hknown
  exact ⟨uid, by simpa using hmem, hkey⟩

/-- Every process of a synchronisation keeps what should stay. -/
theorem respectful_tasks {cfg : LdapConfig} {remote : List Entry}
    (hconfined : Confined env.texts (changesOf env cfg remote db) db) :
    ∀ p ∈ (changesOf env cfg remote db).tasks env,
      Respectful env.texts (changesOf env cfg remote db) db p := by
  intro p hp
  rcases List.mem_append.mp hp with hp | hp
  · rcases List.mem_append.mp hp with hp | hp
    · obtain ⟨⟨⟨key, user⟩, i⟩, hmem, rfl⟩ := List.mem_map.mp hp
      refine respectful_createTask i user fun uid hkey => ?_
      obtain rfl : key = some uid := hkey
      exact diffNewUsers_unknown (List.mem_filter.mp (List.fst_mem_of_mem_zipIdx hmem)).1
    · obtain ⟨⟨key, user⟩, hmem, rfl⟩ := List.mem_map.mp hp
      obtain ⟨uid, hknown, rfl⟩ := diffExistingUsers_known (List.mem_filter.mp hmem).1
      exact respectful_updateTask hconfined hmem hknown
  · obtain ⟨uid, hmem, rfl⟩ := List.mem_map.mp hp
    exact respectful_disableTask hconfined hmem (List.mem_filter.mp hmem).1

/-! ### Runs -/

/-- The processes keep what should stay, now and after the transaction is rolled back. -/
structure Confining (texts : Texts) (changes : SyncChanges) (db : LdapDatabase) (b : Batch) :
    Prop where
  before : b.before = db
  pool : b.pool.Keeps (Framed changes db) (Permitted texts changes db) (Possible changes db)

variable {b : Batch}

theorem Confining.rollback (hb : Confining texts changes db b) (e : LdapError) :
    Confining texts changes db (b.rollback e) := by
  refine ⟨hb.before, ⟨?_, hb.pool.respects⟩⟩
  show Framed changes db b.before
  rw [hb.before]
  exact framed_refl changes db

theorem Confining.settle (hb : Confining texts changes db b) (c : ℕ) :
    Confining texts changes db (b.settle c) := by
  rw [Batch.settle]
  split
  · exact hb.rollback _
  · exact hb

/-- **One event.** -/
theorem Confining.event (hb : Confining texts changes db b) (e : BatchEvent) :
    Confining texts changes db (batchEvent texts b e) := by
  cases e with
  | step c choice =>
    have hstep :
    Confining texts changes db { b with pool := b.pool.step (handle texts choice) c } :=
      ⟨hb.before, hb.pool.step (fun d op hd hop => hd.handle choice op hop) c⟩
    exact hstep.settle c
  | fails c e =>
    have hfail : Confining texts changes db { b with pool := b.pool.fail c e } :=
      ⟨hb.before, hb.pool.fail c e⟩
    exact hfail.settle c
  | commit =>
    show Confining texts changes db (ite _ _ _)
    split_ifs
    · exact ⟨hb.before, hb.pool⟩
    · exact hb
  | refused e =>
    show Confining texts changes db (ite _ _ _)
    split_ifs
    · exact hb.rollback e
    · exact hb

/-- **What should stay does**, whatever happens and in whatever order. -/
theorem keepsOthers_of_confined {cfg : LdapConfig} {remote : List Entry}
    (hconfined : Confined env.texts (changesOf env cfg remote db) db) (events : List BatchEvent) :
    KeepsOthers (changesOf env cfg remote db) db
      (batchAfter env cfg remote db events).pool.state := by
  have hstart : Confining env.texts (changesOf env cfg remote db) db
      (applySyncChanges env (changesOf env cfg remote db) db) :=
    ⟨rfl, framed_refl _ db, respectful_tasks hconfined⟩
  exact (Trace.invariant_run hstart (fun _ e hb => hb.event e) events).pool.state.toKeepsOthers

/-! ### Without the condition -/

/-- A process of the batch goes on alone. -/
theorem batch_run_alone {u : Unit} (hc : b.pool.processes[c]? = some p)
    (houtcome : b.outcome = none) (hrun : p.run (handle texts choice) b.pool.state = (.ok u, d)) :
    ∃ events, (Trace.run (batchEvent texts) b events).pool.state = d := by
  induction p generalizing b with
  | pure a =>
    cases hrun
    exact ⟨[], rfl⟩
  | throw e => cases hrun
  | call op next ih =>
    let b' : Batch := { b with pool := b.pool.step (handle texts choice) c }
    have hstep : b.pool.step (handle texts choice) c =
        ⟨(handle texts choice b.pool.state op).2,
          b.pool.processes.set c (next (handle texts choice b.pool.state op).1)⟩ := by
      rw [Pool.step, hc]
    have hc' : b'.pool.processes[c]? = some (next (handle texts choice b.pool.state op).1) := by
      show (b.pool.step (handle texts choice) c).processes[c]? = _
      rw [hstep]
      exact Pool.getElem?_set_self hc
    have hrun' : (next (handle texts choice b.pool.state op).1).run (handle texts choice)
        b'.pool.state = (.ok u, d) := by
      show Process.run _ _ (b.pool.step (handle texts choice) c).state = _
      rw [hstep]
      exact hrun
    have hsettle : b'.settle c = b' := by
      rw [Batch.settle]
      split
      · rename_i e _ hthrow
        rw [hc'] at hthrow
        rw [Option.some.inj hthrow] at hrun'
        cases hrun'
      · rfl
    obtain ⟨events, hevents⟩ := ih _ hc' houtcome hrun'
    refine ⟨.step c choice :: events, ?_⟩
    rw [← hevents]
    show (Trace.run (batchEvent texts) (b'.settle c) events).pool.state = _
    rw [hsettle]

/-- Any of the identities with the id may be read first. -/
theorem exists_choice {type : AuthProviderType} (h : db.identities.get? (uid, type) = some id) :
    ∃ choice, ((db.identitiesOf (some uid)).rotate choice).head? = some ⟨id, uid, type⟩ := by
  have hmem : (⟨id, uid, type⟩ : AuthIdentity) ∈ db.identitiesOf (some uid) := by
    refine List.mem_map.mpr ⟨((uid, type), id), List.mem_filter.mpr ⟨?_, ?_⟩, rfl⟩
    · exact (Dict.mem_entries_iff _ _ _).mpr h
    · simp
  obtain ⟨i, hi⟩ := List.getElem?_of_mem hmem
  obtain ⟨hlt, -⟩ := List.getElem?_eq_some_iff.mp hi
  exact ⟨i, (List.head?_rotate hlt).trans hi⟩

theorem findIdentityOf_run (texts : Texts) (choice : ℕ) (db : LdapDatabase) (uid : Option String) :
    (findIdentityOf uid).run (handle texts choice) db =
      (.ok ((db.identitiesOf uid).rotate choice).head?, db) := rfl

theorem findUser_run (texts : Texts) (choice : ℕ) (db : LdapDatabase) (userId : String) :
    (findUser userId).run (handle texts choice) db = (.ok (db.users.rows.get? userId), db) := rfl

theorem saveUser_run (h : db.saveUser texts id user = .ok d) :
    (saveUser id user).run (handle texts choice) db = (.ok (), d) := by
  have hrun : (saveUser id user).run (handle texts choice) db =
      (orThrow (db.attempt (db.saveUser texts id user)).1).run (handle texts choice)
        (db.attempt (db.saveUser texts id user)).2 := rfl
  rw [hrun, h]
  rfl

theorem saveUser_identities (h : db.saveUser texts id user = .ok d) :
    d.identities = db.identities := by
  rw [LdapDatabase.saveUser] at h
  split_ifs at h
  · cases h
    rfl
  · obtain ⟨saved, -, hwrite⟩ := Except.bind_eq_ok_iff.mp h
    exact (writeUser_ok hwrite).2

/-- A user is disabled and loses all its identities. -/
theorem disableTask_run (hident : ((db.identitiesOf (some uid)).rotate choice).head? = some ident)
    (hempty : ident.userId ≠ "") (hsave : ∀ u, db.users.rows.get? ident.userId = some u →
      ∃ d, db.saveUser texts ident.userId { u with disabled := true } = .ok d) :
    ∃ d, (disableTask uid).run (handle texts choice) db = (.ok (), d) ∧
      d.identities = (db.deleteIdentities ident.userId).identities := by
  have hrun : (disableTask uid).run (handle texts choice) db =
      (disableUser ident.userId >>= fun _ => deleteIdentities ident.userId).run
        (handle texts choice) db := by
    rw [disableTask, Process.run_bind, findIdentityOf_run, hident]
    dsimp only
    rw [if_neg hempty]
  have hdisable : ∃ d₁, (disableUser ident.userId).run (handle texts choice) db = (.ok (), d₁) ∧
      d₁.identities = db.identities := by
    rw [disableUser, Process.run_bind, findUser_run]
    cases hrow : db.users.rows.get? ident.userId with
    | none => exact ⟨db, rfl, rfl⟩
    | some u =>
      obtain ⟨d₁, hsave⟩ := hsave u hrow
      exact ⟨d₁, saveUser_run hsave, saveUser_identities hsave⟩
  obtain ⟨d₁, hdisable, hidentities⟩ := hdisable
  refine ⟨d₁.deleteIdentities ident.userId, ?_, ?_⟩
  · rw [hrun, Process.run_bind, hdisable]
    rfl
  · rw [LdapDatabase.deleteIdentities, LdapDatabase.deleteIdentities, hidentities]

/-- The row of a user is replaced by what its email becomes. -/
theorem updateTask_run {cur : User}
    (hident : ((db.identitiesOf (some uid)).rotate choice).head? = some ident)
    (hempty : ident.userId ≠ "") (hrow : db.users.rows.get? ident.userId = some cur)
    (hleaves : ¬ LeavesRow texts cur (cur.assign user))
    (hsave : ∃ d, db.saveUser texts ident.userId (cur.assign user) = .ok d) :
    ∃ d, (updateTask (some uid) user).run (handle texts choice) db = (.ok (), d) ∧
      d.users.rows.get? ident.userId ≠ some cur := by
  have hchanged : cur.assign user ≠ cur := fun h => hleaves (Or.inl h)
  have hdiffers : (differs cur.email user.email || differs cur.firstName user.firstName ||
      differs cur.lastName user.lastName) = true := by
    by_contra hsame
    refine hchanged ?_
    simp only [Bool.or_eq_true, differs, not_or, Bool.not_eq_true, Option.isNone_eq_false_iff,
      decide_eq_true_eq, not_not, ne_eq] at hsame
    obtain ⟨⟨⟨hemail, hemail'⟩, hfirst, hfirst'⟩, hlast, hlast'⟩ := hsame
    rw [User.assign, Option.or_of_isSome hemail, Option.or_of_isSome hfirst,
      Option.or_of_isSome hlast, ← hemail', ← hfirst', ← hlast']
  have hrun : (updateTask (some uid) user).run (handle texts choice) db =
      (saveUser ident.userId (cur.assign user)).run (handle texts choice) db := by
    rw [updateTask, Process.run_bind, findIdentityOf_run, hident]
    dsimp only
    rw [if_neg hempty, updateUser, Process.run_bind, findUser_run, hrow]
    dsimp only
    rw [if_pos hdiffers]
  obtain ⟨d, hsave⟩ := hsave
  refine ⟨d, hrun.trans (saveUser_run hsave), ?_⟩
  rw [LdapDatabase.saveUser, hrow, if_neg fun h => hchanged (Option.some.inj h).symm] at hsave
  obtain ⟨saved, hhook, hwrite⟩ := Except.bind_eq_ok_iff.mp hsave
  rw [(writeUser_ok hwrite).1, Dict.get?_set_self]
  rintro h
  obtain rfl := Option.some.inj h
  exact hleaves (Or.inr fun saved' hhook' => by
    rw [hhook] at hhook'
    exact (Except.ok.inj hhook').symm)

/-! ### What was committed -/

/-- As long as nothing has become of the transaction, no process has thrown; when it is committed, all
have come to their end. -/
structure Settled (b : Batch) : Prop where
  unsettled : b.outcome = none → ∀ p ∈ b.pool.processes, ∀ e, p ≠ .throw e
  committed : b.outcome = some (.ok ()) → ∀ p ∈ b.pool.processes, ∃ u, p = .pure u

theorem settled_rollback (b : Batch) (e : LdapError) : Settled (b.rollback e) where
  unsettled h := by cases h
  committed h := by cases h

/-- After a process has gone on, it is the only one that can have thrown. -/
theorem settled_settle (hopen : b.outcome = none → ∀ c' p, c' ≠ c →
      b.pool.processes[c']? = some p → ∀ e, p ≠ .throw e)
    (hcommitted : b.outcome = some (.ok ()) → ∀ p ∈ b.pool.processes, ∃ u, p = .pure u) :
    Settled (b.settle c) := by
  rw [Batch.settle]
  split
  · exact settled_rollback _ _
  · rename_i hno
    refine ⟨fun houtcome p hp e heq => ?_, hcommitted⟩
    obtain ⟨c', hc'⟩ := List.getElem?_of_mem hp
    by_cases hcc : c' = c
    · subst hcc
      exact hno e houtcome (hc'.trans (congrArg some heq))
    · exact hopen houtcome c' p hcc hc' e heq

theorem Settled.goesOn (hb : Settled b) {d : LdapDatabase} {op : LdapOp}
    {next : ldapOperations.Reply op → Program Unit}
    (hc : b.pool.processes[c]? = some (.call op next)) :
    Settled ({ b with pool := ⟨d, b.pool.processes.set c p⟩ }.settle c) := by
  refine settled_settle (fun houtcome c' p' hcc hc' e => ?_) fun houtcome => ?_
  · rw [List.getElem?_set_ne (Ne.symm hcc)] at hc'
    exact hb.unsettled houtcome p' (List.mem_of_getElem? hc') e
  · obtain ⟨u, hu⟩ := hb.committed houtcome _ (List.mem_of_getElem? hc)
    cases hu

theorem Settled.settle (hb : Settled b) (c : ℕ) : Settled (b.settle c) :=
  settled_settle (fun houtcome _ p _ hp => hb.unsettled houtcome p (List.mem_of_getElem? hp))
    hb.committed

theorem Settled.event (hb : Settled b) (texts : Texts) (e : BatchEvent) :
    Settled (batchEvent texts b e) := by
  cases e with
  | step c choice =>
    show Settled ({ b with pool := b.pool.step (handle texts choice) c }.settle c)
    rw [Pool.step]
    split
    · rename_i op next hc
      exact hb.goesOn hc
    · exact hb.settle c
  | fails c e =>
    show Settled ({ b with pool := b.pool.fail c e }.settle c)
    rw [Pool.fail]
    split
    · rename_i op next hc
      exact hb.goesOn hc
    · exact hb.settle c
  | commit =>
    show Settled (ite _ _ _)
    split_ifs with hcommit
    · refine ⟨fun h => (by cases h), fun _ p hp => ?_⟩
      have hopen := hb.unsettled (Option.isNone_iff_eq_none.mp hcommit.1) p hp
      have hfinished := hcommit.2 p hp
      cases p with
      | pure u => exact ⟨u, rfl⟩
      | throw e => exact absurd rfl (hopen e)
      | call op next => exact absurd hfinished not_false
    · exact hb
  | refused e =>
    show Settled (ite _ _ _)
    split_ifs
    · exact settled_rollback b e
    · exact hb

theorem tasks_ne_throw (changes : SyncChanges) : ∀ p ∈ changes.tasks env, ∀ e, p ≠ .throw e := by
  intro p hp e
  rcases List.mem_append.mp hp with hp | hp
  · rcases List.mem_append.mp hp with hp | hp
    · obtain ⟨change, -, rfl⟩ := List.mem_map.mp hp
      exact fun h => by cases h
    · obtain ⟨change, -, rfl⟩ := List.mem_map.mp hp
      exact fun h => by cases h
  · obtain ⟨uid, -, rfl⟩ := List.mem_map.mp hp
    exact fun h => by cases h

/-- A committed transaction has done everything. -/
theorem settled_batchAfter (env : Surroundings) (cfg : LdapConfig) (remote : List Entry)
    (db : LdapDatabase) (events : List BatchEvent) :
    Settled (batchAfter env cfg remote db events) :=
  Trace.invariant_run ⟨fun _ => tasks_ne_throw _, fun h => (by cases h)⟩
    (fun _ e hb => hb.event env.texts e) events

/-! ### The condition -/

/-- No row that is found for a change is refused when it is saved. -/
structure Accepts (texts : Texts) (changes : SyncChanges) (db : LdapDatabase) : Prop where
  disables : ∀ uid ∈ changes.disables, ∀ type id u, db.identities.get? (uid, type) = some id →
    db.users.rows.get? id = some u → ∃ d, db.saveUser texts id { u with disabled := true } = .ok d
  updates : ∀ uid user, (some uid, user) ∈ changes.updates → ∀ type id cur,
    db.identities.get? (uid, type) = some id → db.users.rows.get? id = some cur →
    ∃ d, db.saveUser texts id (cur.assign user) = .ok d

variable {cfg : LdapConfig} {remote : List Entry}

theorem exists_event_of_mem {u : Unit} (hp : p ∈ (changesOf env cfg remote db).tasks env)
    (hrun : p.run (handle env.texts choice) db = (.ok u, d)) :
    ∃ events, (batchAfter env cfg remote db events).pool.state = d := by
  obtain ⟨c, hc⟩ := List.getElem?_of_mem hp
  exact batch_run_alone (b := applySyncChanges env (changesOf env cfg remote db) db) hc rfl hrun

/-- A removed id that leads to a user with an identity at another provider. -/
theorem confined_disables (haccepts : Accepts env.texts (changesOf env cfg remote db) db)
    (h : ∀ events, KeepsOthers (changesOf env cfg remote db) db
      (batchAfter env cfg remote db events).pool.state) :
    ∀ uid ∈ (changesOf env cfg remote db).disables, ∀ type id,
      db.identities.get? (uid, type) = some id → id ≠ "" →
      ∀ uid' type', db.identities.get? (uid', type') = some id → type' = .ldap := by
  intro uid hmem type id hidentity hempty uid' type' hidentity'
  by_contra htype
  obtain ⟨choice, hident⟩ := exists_choice hidentity
  obtain ⟨d, hrun, hidentities⟩ := disableTask_run hident hempty fun u hu =>
    haccepts.disables uid hmem type id u hidentity hu
  obtain ⟨events, hevents⟩ := exists_event_of_mem
    (List.mem_append_right _ (List.mem_map_of_mem hmem)) hrun
  have hkept := (h events).identities uid' type' htype
  rw [hevents, hidentities, hidentity', LdapDatabase.deleteIdentities,
    Dict.get?_filter_eq_some_iff] at hkept
  simp at hkept

/-- An updated id that leads to another user at another provider. -/
theorem confined_updates (haccepts : Accepts env.texts (changesOf env cfg remote db) db)
    (h : ∀ events, KeepsOthers (changesOf env cfg remote db) db
      (batchAfter env cfg remote db events).pool.state) :
    ∀ uid user, (some uid, user) ∈ (changesOf env cfg remote db).updates → ∀ type id,
      type ≠ .ldap → db.identities.get? (uid, type) = some id → id ≠ "" →
      InChanges (changesOf env cfg remote db) db id ∨ ∀ cur, db.users.rows.get? id = some cur →
        LeavesRow env.texts cur (cur.assign user) := by
  intro uid user hmem type id _ hidentity hempty
  by_contra hno
  push Not at hno
  obtain ⟨hother, cur, hrow, hleaves⟩ := hno
  obtain ⟨choice, hident⟩ := exists_choice hidentity
  obtain ⟨d, hrun, hchanged⟩ := updateTask_run hident hempty hrow hleaves
    (haccepts.updates uid user hmem type id cur hidentity hrow)
  obtain ⟨events, hevents⟩ := exists_event_of_mem (List.mem_append_left _
    (List.mem_append_right _ (List.mem_map_of_mem (f := fun p => updateTask p.1 p.2) hmem))) hrun
  exact hchanged (hevents ▸ (h events).users id cur hrow hother)

/-- **What a synchronisation changes and records**: what should stay does, under a condition that is
also needed where no row is refused; and the status is honest unless something else than a query
failed. -/
theorem runSync_frame (env : Surroundings) (cfg : LdapConfig) (remote : List Entry)
    (db : LdapDatabase) :
    (Confined env.texts (changesOf env cfg remote db) db → ∀ events,
      KeepsOthers (changesOf env cfg remote db) db
        (batchAfter env cfg remote db events).pool.state) ∧
    (Accepts env.texts (changesOf env cfg remote db) db →
      (∀ events, KeepsOthers (changesOf env cfg remote db) db
        (batchAfter env cfg remote db events).pool.state) →
      Confined env.texts (changesOf env cfg remote db) db) ∧
    ∀ startedAt endedAt events row d,
      runSync env cfg .live remote startedAt endedAt db events = some (row, d) →
      d = (batchAfter env cfg remote db events).pool.state ∧
      ((batchAfter env cfg remote db events).outcome = some (.ok ()) →
        ∀ p ∈ (batchAfter env cfg remote db events).pool.processes, ∃ u, p = .pure u) ∧
      ((row.status = .success ↔ (batchAfter env cfg remote db events).outcome = some (.ok ())) ↔
        ∀ e, (batchAfter env cfg remote db events).outcome = some (.error e) → e = .queryFailed) := by
  refine ⟨keepsOthers_of_confined, fun haccepts h => ?_, ?_⟩
  · exact ⟨confined_disables haccepts h, confined_updates haccepts h⟩
  · intro startedAt endedAt events row d hrun
    obtain ⟨outcome, houtcome, heq⟩ := Option.map_eq_some_iff.mp hrun
    cases heq
    refine ⟨rfl, (settled_batchAfter env cfg remote db events).committed, ?_⟩
    rw [houtcome]
    cases outcome with
    | ok u => exact iff_of_true ⟨fun _ => rfl, fun _ => rfl⟩ fun e he => (by cases he)
    | error e =>
      by_cases he : e = .queryFailed
      · subst he
        refine iff_of_true ⟨fun h => (by cases h), fun h => (by cases h)⟩ fun e he => ?_
        cases he
        rfl
      · have hsuccess : (if (Except.error e : Except LdapError Unit) = .error .queryFailed
            then SyncStatus.error else .success) = .success := if_neg fun h => he (Except.error.inj h)
        refine iff_of_false (fun h => ?_) fun h => he (h e rfl)
        cases h.mp hsuccess

/-- A user that is removed from the directory loses its identity at another provider. -/
theorem sync_deletes_other_identity :
    ¬ ∀ (env : Surroundings) (cfg : LdapConfig) (remote : List Entry) (db : LdapDatabase)
      (startedAt endedAt : ℕ) (events : List BatchEvent) (row : SyncHistory) (d : LdapDatabase),
      runSync env cfg .live remote startedAt endedAt db events = some (row, d) →
      KeepsOthers (changesOf env cfg remote db) db d ∧
      (row.status = .success ↔ (batchAfter env cfg remote db events).outcome = some (.ok ())) := by
  intro h
  let env : Surroundings := ⟨⟨id, fun _ => true⟩, id, fun _ => "v", fun _ => "p", fun _ => "secret"⟩
  let users : UserTable := ⟨Dict.empty.set "u" { email := some "a@b.c" },
    distinctEmails_set ({} : UserTable).distinctEmails (by decide)⟩
  let identities : Dict (String × AuthProviderType) String :=
    (Dict.empty.set ("1", .ldap) "u").set ("x", .saml) "u"
  let events : List BatchEvent := [.step 0 0, .step 0 0, .step 0 0, .step 0 0, .commit]
  have hleft : (runSync env {} .live [] 0 0 { users, identities } events).map
      (fun r => r.2.identities.get? ("x", .saml)) = some none := by decide +kernel
  obtain ⟨⟨row, d⟩, hrun, hd⟩ := Option.map_eq_some_iff.mp hleft
  have hkept := (h env {} [] { users, identities } 0 0 events row d hrun).1.identities "x" .saml
    (by decide)
  rw [hd] at hkept
  exact absurd hkept (by decide)

end Ldap

end N8n
