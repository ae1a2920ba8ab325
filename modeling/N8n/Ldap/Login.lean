import N8n.Ldap.Database

/-!
# LDAP login

`LdapService.handleLogin`: a user of the directory logs in as a user of the instance.

* `Ldap.Directory`, `Ldap.Entry`: what the directory answers;
* `Ldap.authenticateRemoteUser`, `Ldap.handleLogin`;
* `Ldap.LinksDisabled`: a disabled user is linked by its email, and `Ldap.handleLogin_admits_iff`: in
  no other case a login is admitted that should not be.
-/

namespace N8n

namespace Ldap

/-! ### The directory -/

/-- An entry of the directory; what it holds in the binary attributes can be bytes. -/
structure Entry where
  dn : String := ""
  texts : String → Option String := fun _ => none
  buffers : String → Option (List (Fin 256)) := fun _ => none

/-- The directory at one moment: what a search gives unless it throws, and whether a distinguished
name and a password are accepted. -/
structure Directory where
  search : String → Option (List Entry)
  verifyCredentials : String → String → Bool

def binaryAttributes : List String := ["objectGUID", "objectSid"]

def toHex (bytes : List (Fin 256)) : String :=
  String.ofList (bytes.flatMap fun b => [Nat.digitChar (b / 16), Nat.digitChar (b % 16)])

def Entry.normalizeBinaryFields (entry : Entry) : Entry :=
  { entry with
    texts := fun attr =>
      if attr ∈ binaryAttributes then ((entry.buffers attr).map toHex).or (entry.texts attr)
      else entry.texts attr }

def Entry.attributes (entry : Entry) (cfg : LdapConfig) : Attributes where
  email := entry.texts cfg.emailAttribute
  firstName := entry.texts cfg.firstNameAttribute
  lastName := entry.texts cfg.lastNameAttribute

def buildFilter (condition userFilter : String) : String :=
  if userFilter ≠ "" then "(&" ++ userFilter ++ condition
  else "(&(|(objectClass=person)(objectClass=user))" ++ condition ++ ")"

/-- What a login takes from its surroundings: the texts, how a value is escaped in a filter, and the
ids and passwords that are drawn for new rows. -/
structure Surroundings where
  texts : Texts
  escapeFilterValue : String → String
  userId : ℕ → String
  projectId : ℕ → String
  password : ℕ → String

/-- What a login looks for. -/
def loginFilter (env : Surroundings) (cfg : LdapConfig) (loginId : String) : String :=
  buildFilter ("(" ++ cfg.loginIdAttribute ++ "=" ++ env.escapeFilterValue loginId ++ ")")
    cfg.userFilter

/-- The entry that is found last; its password is checked at the moment after the search. -/
def authenticateRemoteUser (env : Surroundings) (cfg : LdapConfig) (directory : ℕ → Directory)
    (loginId password : String) : Option Entry := do
  let results ← (directory 0).search (loginFilter env cfg loginId)
  let candidate ← results.getLast?
  if (directory 1).verifyCredentials candidate.dn password then some candidate.normalizeBinaryFields
  else none

/-- A search that throws counts as one with duplicates. -/
def emailHasDuplicates (env : Surroundings) (cfg : LdapConfig) (directory : Directory)
    (email : String) : Bool :=
  match directory.search
    (buildFilter ("(" ++ cfg.emailAttribute ++ "=" ++ env.escapeFilterValue email ++ ")")
      cfg.userFilter) with
  | none => true
  | some hits => 1 < hits.length

/-! ### Programs -/

/-- A program that reaches the database. -/
abbrev Program := Process ldapOperations LdapError

/-- What was refused is thrown. -/
def orThrow : Except LdapError Unit → Program Unit
  | .ok u => pure u
  | .error e => .throw e

/-- An access. -/
def access (op : LdapOp) : Program (ldapOperations.Reply op) :=
  Process.perform (I := ldapOperations) op

def findIdentity (uid : String) : Program (Option (String × Option User)) :=
  access (.findIdentity uid)

def findUserByLdapUid (uid : String) : Program (Option (String × User)) :=
  access (.findUserByLdapUid uid)

def findUserByEmail (email : String) : Program (Option (String × User)) :=
  access (.findUserByEmail email)

def findUser (id : String) : Program (Option User) := access (.findUser id)

def insertUser (id : String) (user : User) : Program Unit :=
  access (.insertUser id user) >>= orThrow

def saveAttributes (id : String) (attrs : Attributes) : Program Unit :=
  access (.saveAttributes id attrs) >>= orThrow

def linkIdentity (userId : String) (uid : Option String) : Program Unit :=
  access (.saveIdentity uid userId) >>= orThrow

def insertProject (id : String) (project : Project) : Program Unit :=
  access (.insertProject id project) >>= orThrow

def insertProjectRelation (relation : ProjectRelation) : Program Unit :=
  access (.insertProjectRelation relation) >>= orThrow

/-- The text counts as given when it is not empty. -/
def given (text : Option String) : Option String := text.filter fun t => t ≠ ""

def User.createPersonalProjectName (user : User) : String :=
  match given user.firstName, given user.lastName, given user.email with
  | some firstName, some lastName, some email => firstName ++ " " ++ lastName ++ " <" ++ email ++ ">"
  | _, _, some email => "<" ++ email ++ ">"
  | _, _, none => "Unnamed Project"

/-- The user gets the ids that are drawn for the `i`-th new user. -/
def createUserWithProject (env : Surroundings) (i : ℕ) (user : User) : Program (String × User) := do
  insertUser (env.userId i) user
  match ← findUser (env.userId i) with
  | none => .throw (.unexpected "Failed to create user!")
  | some userWithRole => do
    insertProject (env.projectId i)
      { name := userWithRole.createPersonalProjectName, creatorId := env.userId i }
    insertProjectRelation {
      projectId := env.projectId i
      userId := env.userId i
      role := if userWithRole.role ≠ "global:chatUser" then "project:personalOwner"
        else "project:viewer" }
    pure (env.userId i, userWithRole)

def provisionUser (env : Surroundings) (attrs : Attributes) (uid : String) :
    Program (String × User) := do
  let created ← createUserWithProject env 0 {
    email := attrs.email
    firstName := attrs.firstName
    lastName := attrs.lastName
    password := some (env.password 0) }
  linkIdentity created.1 (some uid)
  pure created

def refreshLocalUser (userId : String) (attrs : Attributes) : Program Unit := do
  match ← findUser userId with
  | none => pure ()
  | some _ => saveAttributes userId attrs

def linkLocalUser (attrs : Attributes) (uid id : String) : Program (Option (String × User)) := do
  linkIdentity id (some uid)
  refreshLocalUser id attrs
  findUserByLdapUid uid

/-- A login of an entry that has no identity. -/
def loginUnknown (env : Surroundings) (cfg : LdapConfig) (directory : Directory)
    (attrs : Attributes) (uid email : String) : Program (Option (String × User)) :=
  if cfg.enforceEmailUniqueness = some true ∧ emailHasDuplicates env cfg directory email then
    pure none
  else do
    let found ← findUserByEmail email
    match found.filter fun localUser => localUser.2.email = some email with
    | some localUser => linkLocalUser attrs uid localUser.1
    | none => do
      let created ← provisionUser env attrs uid
      pure (some created)

/-- A login of an entry that has an identity. -/
def loginKnown (attrs : Attributes) (uid : String) :
    String × Option User → Program (Option (String × User))
  | (_, none) => findUserByLdapUid uid
  | (userId, some user) =>
    if user.disabled then pure none
    else do
      refreshLocalUser userId attrs
      findUserByLdapUid uid

def loginAs (env : Surroundings) (cfg : LdapConfig) (directory : Directory) (attrs : Attributes)
    (uid email : String) : Program (Option (String × User)) := do
  match ← findIdentity uid with
  | none => loginUnknown env cfg directory attrs uid email
  | some existing => loginKnown attrs uid existing

def handleLogin (env : Surroundings) (cfg : LdapConfig) (directory : ℕ → Directory)
    (loginId password : String) : Program (Option (String × User)) :=
  if cfg.loginEnabled then
    match authenticateRemoteUser env cfg directory loginId password with
    | none => pure none
    | some entry =>
      match given (entry.texts cfg.ldapIdAttribute), given (entry.attributes cfg).email with
      | some uid, some email => loginAs env cfg (directory 2) (entry.attributes cfg) uid email
      | _, _ => pure none
  else pure none

/-! ### What the parts of a login do -/

section Parts

variable {env : Surroundings} {texts : Texts} {choice : ℕ} {db db' : LdapDatabase} {id uid : String}
  {user : User} {attrs : Attributes} {u : Unit}

/-- The same identities, and the same users disabled. -/
def KeepsDisabled (db db' : LdapDatabase) : Prop :=
  db'.identities = db.identities ∧ ∀ id, (db'.users.rows.get? id).map User.disabled =
    (db.users.rows.get? id).map User.disabled

theorem writeUser_ok (h : db.writeUser id user = .ok db') :
    db'.users.rows = db.users.rows.set id user ∧ db'.identities = db.identities := by
  rw [LdapDatabase.writeUser, UserTable.write] at h
  split_ifs at h
  · cases h
  · cases h
    exact ⟨rfl, rfl⟩

variable {r : Except LdapError LdapDatabase} {user' : User} {created : String × User}
  {userId email : String}

theorem attempt_ok (h : db.attempt r = (.ok u, db')) : r = .ok db' := by
  cases r with
  | ok d =>
    cases h
    rfl
  | error e => cases h

theorem run_orThrow {r : Except LdapError Unit}
    (h : (orThrow r).run (handle texts choice) db = (.ok u, db')) : r = .ok () ∧ db' = db := by
  cases r with
  | ok u =>
    cases h
    exact ⟨rfl, rfl⟩
  | error e => cases h

/-- A write that was not refused. -/
theorem run_attempt
    (h : (orThrow (db.attempt r).1).run (handle texts choice) (db.attempt r).2 = (.ok u, db')) :
    r = .ok db' := by
  obtain ⟨hreply, hdb⟩ := run_orThrow h
  exact attempt_ok (Prod.ext hreply hdb.symm)

theorem linkIdentity_run : (linkIdentity id (some uid)).run (handle texts choice) db =
    (.ok (), { db with identities := db.identities.set (uid, .ldap) id }) := rfl

theorem preUpsertHook_ok (h : texts.preUpsertHook user = .ok user') :
    user'.disabled = user.disabled := by
  rw [Texts.preUpsertHook] at h
  split at h
  · cases h
    rfl
  · split_ifs at h
    cases h
    rfl

theorem insertUser_ok (h : (insertUser id user).run (handle texts choice) db = (.ok u, db')) :
    ∃ user', user'.disabled = user.disabled ∧ db'.users.rows = db.users.rows.set id user' ∧
      db'.identities = db.identities := by
  have hinsert : db.insertUser texts id user = .ok db' := run_attempt h
  rw [LdapDatabase.insertUser] at hinsert
  obtain ⟨user', hhook, hwrite⟩ := Except.bind_eq_ok_iff.mp hinsert
  split_ifs at hwrite
  exact ⟨user', preUpsertHook_ok hhook, writeUser_ok hwrite⟩

theorem refreshLocalUser_run : (refreshLocalUser id attrs).run (handle texts choice) db =
    match db.users.rows.get? id with
    | none => (.ok (), db)
    | some _ => (saveAttributes id attrs).run (handle texts choice) db := by
  show Process.run _ (match db.users.rows.get? id with
    | none => pure ()
    | some _ => saveAttributes id attrs) db = _
  cases db.users.rows.get? id <;> rfl

theorem refreshLocalUser_ok
    (h : (refreshLocalUser id attrs).run (handle texts choice) db = (.ok u, db')) :
    KeepsDisabled db db' := by
  rw [refreshLocalUser_run] at h
  cases hrow : db.users.rows.get? id with
  | none =>
    rw [hrow] at h
    cases h
    exact ⟨rfl, fun _ => rfl⟩
  | some user =>
    rw [hrow] at h
    have hsave : db.saveAttributes texts id attrs = .ok db' := run_attempt h
    rw [LdapDatabase.saveAttributes, hrow] at hsave
    obtain ⟨hrows, hidentities⟩ := writeUser_ok hsave
    refine ⟨hidentities, fun id' => ?_⟩
    rw [hrows, Dict.get?_set]
    split_ifs with heq
    · rw [heq, hrow]
      rfl
    · rfl

theorem createUserWithProject_ok {i : ℕ}
    (h : (createUserWithProject env i user).run (handle texts choice) db = (.ok created, db')) :
    created.2.disabled = user.disabled ∧ db'.users.rows.get? created.1 = some created.2 ∧
      db'.identities = db.identities := by
  obtain ⟨_, db₁, hinsert, h⟩ := Process.run_bind_ok h
  obtain ⟨user', hdisabled, hrows, hidentities⟩ := insertUser_ok hinsert
  have hrow : db₁.users.rows.get? (env.userId i) = some user' := by
    rw [hrows, Dict.get?_set_self]
  obtain ⟨row, db₂, hfind, h⟩ := Process.run_bind_ok h
  cases hfind
  rw [show (handle texts choice db₁ (.findUser (env.userId i))).1 = some user' from hrow] at h
  cases h
  exact ⟨hdisabled, hrow, hidentities⟩

theorem provisionUser_ok
    (h : (provisionUser env attrs uid).run (handle texts choice) db = (.ok created, db')) :
    created.2.disabled = false ∧ db'.users.rows.get? created.1 = some created.2 ∧
      db'.identities.get? (uid, .ldap) = some created.1 := by
  obtain ⟨⟨id, user⟩, db₁, hcreate, h⟩ := Process.run_bind_ok h
  obtain ⟨hdisabled, hrow, -⟩ := createUserWithProject_ok hcreate
  cases h
  exact ⟨hdisabled, hrow, Dict.get?_set_self _ _ _⟩

theorem findUserByLdapUid_ok {found : Option (String × User)}
    (h : (findUserByLdapUid uid).run (handle texts choice) db = (.ok found, db')) :
    found = db.findUserByLdapUid uid ∧ db' = db := by
  cases h
  exact ⟨rfl, rfl⟩

theorem findUserByLdapUid_eq_some (h : db.findUserByLdapUid uid = some (id, user)) :
    db.identities.get? (uid, .ldap) = some id ∧ db.users.rows.get? id = some user := by
  obtain ⟨userId, hidentity, huser⟩ := Option.bind_eq_some_iff.mp h
  obtain ⟨row, hrow, heq⟩ := Option.map_eq_some_iff.mp huser
  cases heq
  exact ⟨hidentity, hrow⟩

/-- The user with the identity is read again after a refresh. -/
theorem refreshed_ok (h : (refreshLocalUser userId attrs >>= fun _ => findUserByLdapUid uid).run
      (handle texts choice) db = (.ok (some (id, user)), db')) :
    db'.users.rows.get? id = some user ∧ db'.identities.get? (uid, .ldap) = some id ∧
      db.identities.get? (uid, .ldap) = some id ∧
      (db.users.rows.get? id).map User.disabled = some user.disabled := by
  obtain ⟨_, db₁, hrefresh, h⟩ := Process.run_bind_ok h
  obtain ⟨hfound, rfl⟩ := findUserByLdapUid_ok h
  obtain ⟨hidentity, hrow⟩ := findUserByLdapUid_eq_some hfound.symm
  obtain ⟨hidentities, hdisabled⟩ := refreshLocalUser_ok hrefresh
  refine ⟨hrow, hidentity, hidentities ▸ hidentity, ?_⟩
  rw [← hdisabled id, hrow]
  rfl

theorem linkLocalUser_ok (h : (linkLocalUser attrs uid userId).run (handle texts choice) db =
      (.ok (some (id, user)), db')) :
    db'.users.rows.get? id = some user ∧ db'.identities.get? (uid, .ldap) = some id ∧
      id = userId ∧ (db.users.rows.get? id).map User.disabled = some user.disabled := by
  obtain ⟨_, db₁, hlink, h⟩ := Process.run_bind_ok h
  rw [linkIdentity_run] at hlink
  cases hlink
  obtain ⟨hrow, hidentity, hlinked, hdisabled⟩ := refreshed_ok h
  rw [Dict.get?_set_self] at hlinked
  exact ⟨hrow, hidentity, (Option.some.inj hlinked).symm, hdisabled⟩

/-- A user that is given to an entry without an identity is not disabled, or was linked by its
email. -/
theorem loginUnknown_ok {cfg : LdapConfig} {directory : Directory}
    (h : (loginUnknown env cfg directory attrs uid email).run (handle env.texts choice) db =
      (.ok (some (id, user)), db')) :
    db'.users.rows.get? id = some user ∧ db'.identities.get? (uid, .ldap) = some id ∧
      (user.disabled = false ∨
        ¬ (cfg.enforceEmailUniqueness = some true ∧
          emailHasDuplicates env cfg directory email = true) ∧
        ∃ localUser : User, db.findUserByEmail env.texts email = some (id, localUser) ∧
          localUser.email = some email ∧ localUser.disabled = true) := by
  rw [loginUnknown] at h
  split_ifs at h with hduplicates
  · cases h
  · have hrun : Process.run (handle env.texts choice)
        (match (db.findUserByEmail env.texts email).filter fun localUser =>
          localUser.2.email = some email with
        | some localUser => linkLocalUser attrs uid localUser.1
        | none => do
          let created ← provisionUser env attrs uid
          pure (some created)) db = (.ok (some (id, user)), db') := h
    match hfound : (db.findUserByEmail env.texts email).filter fun localUser =>
        localUser.2.email = some email with
    | some (userId, localUser) =>
      rw [hfound] at hrun
      obtain ⟨hrow, hidentity, rfl, hdisabled⟩ := linkLocalUser_ok hrun
      obtain ⟨hfound, hemail⟩ := Option.filter_eq_some_iff.mp hfound
      refine ⟨hrow, hidentity, ?_⟩
      have hlocal : db.users.rows.get? id = some localUser :=
        (Dict.mem_entries_iff _ _ _).mp (List.mem_of_find?_eq_some hfound)
      rw [hlocal] at hdisabled
      cases hd : user.disabled with
      | false => exact Or.inl rfl
      | true =>
        rw [hd] at hdisabled
        exact Or.inr ⟨hduplicates, localUser, hfound, by simpa using hemail,
          Option.some.inj hdisabled⟩
    | none =>
      rw [hfound] at hrun
      obtain ⟨created, db₁, hprovision, hrun⟩ := Process.run_bind_ok hrun
      cases hrun
      obtain ⟨hdisabled, hrow, hidentity⟩ := provisionUser_ok hprovision
      exact ⟨hrow, hidentity, Or.inl hdisabled⟩

/-- A user that is given to an entry with an identity is not disabled. -/
theorem loginKnown_ok {existing : String × Option User} (hfound : db.findIdentity uid = some existing)
    (h : (loginKnown attrs uid existing).run (handle texts choice) db =
      (.ok (some (id, user)), db')) :
    db'.users.rows.get? id = some user ∧ db'.identities.get? (uid, .ldap) = some id ∧
      user.disabled = false := by
  obtain ⟨userId, hidentity, heq⟩ := Option.map_eq_some_iff.mp hfound
  obtain ⟨userId', row⟩ := existing
  cases heq
  cases hrow : db.users.rows.get? userId with
  | none =>
    rw [hrow] at h
    obtain ⟨hread, rfl⟩ := findUserByLdapUid_ok h
    obtain ⟨hidentity', hrow'⟩ := findUserByLdapUid_eq_some hread.symm
    rw [hidentity] at hidentity'
    cases hidentity'
    rw [hrow] at hrow'
    cases hrow'
  | some row =>
    rw [hrow, loginKnown] at h
    split_ifs at h with hdisabled
    · cases h
    · obtain ⟨hrow', hidentity', hlinked, hsame⟩ := refreshed_ok h
      rw [hidentity] at hlinked
      cases hlinked
      rw [hrow] at hsame
      exact ⟨hrow', hidentity', (Option.some.inj hsame).symm.trans (by simpa using hdisabled)⟩

theorem loginAs_run {cfg : LdapConfig} {directory : Directory} :
    (loginAs env cfg directory attrs uid email).run (handle texts choice) db =
      match db.findIdentity uid with
      | none => (loginUnknown env cfg directory attrs uid email).run (handle texts choice) db
      | some existing => (loginKnown attrs uid existing).run (handle texts choice) db := by
  show Process.run _ (match db.findIdentity uid with
    | none => loginUnknown env cfg directory attrs uid email
    | some existing => loginKnown attrs uid existing) db = _
  cases db.findIdentity uid <;> rfl

theorem not_emailTaken {users : UserTable} (hrow : users.rows.get? id = some user)
    (hemail : user'.email = user.email) : ¬ EmailTaken users.rows id user' := by
  rintro ⟨⟨i, other⟩, hother, hne, hsome, heq⟩
  obtain ⟨email, hsome⟩ := Option.isSome_iff_exists.mp hsome
  have hother : users.rows.get? i = some other := (Dict.mem_entries_iff _ _ _).mp hother
  exact hne (users.distinctEmails i id other user email hother hrow (heq.trans hsome)
    (hemail.symm.trans hsome))

theorem saveAttributes_run (choice : ℕ) (db : LdapDatabase) (hrow : db.users.rows.get? id = some user)
    (hattrs : (attrs.applyTo texts user).email = user.email) :
    ∃ db', (saveAttributes id attrs).run (handle texts choice) db = (.ok (), db') ∧
      db'.users.rows = db.users.rows.set id (attrs.applyTo texts user) ∧
      db'.identities = db.identities := by
  have hfree := not_emailTaken hrow hattrs
  have hsave : db.saveAttributes texts id attrs = .ok { db with
      users := ⟨_, distinctEmails_set db.users.distinctEmails hfree⟩ } := by
    rw [LdapDatabase.saveAttributes, hrow, Option.getD_some, LdapDatabase.writeUser,
      UserTable.write, dif_neg hfree]
    rfl
  have hrun : (saveAttributes id attrs).run (handle texts choice) db =
      (orThrow (db.attempt (db.saveAttributes texts id attrs)).1).run (handle texts choice)
        (db.attempt (db.saveAttributes texts id attrs)).2 := rfl
  rw [hrun, hsave]
  exact ⟨_, rfl, rfl, rfl⟩

/-- A user is linked and given, disabled or not. -/
theorem linkLocalUser_run (choice : ℕ) (uid : String) (hrow : db.users.rows.get? id = some user)
    (hattrs : (attrs.applyTo texts user).email = user.email) :
    ∃ user' db', (linkLocalUser attrs uid id).run (handle texts choice) db =
      (.ok (some (id, user')), db') ∧ user'.disabled = user.disabled := by
  obtain ⟨db', hsave, hrows, hidentities⟩ := saveAttributes_run choice
    { db with identities := db.identities.set (uid, .ldap) id } hrow hattrs
  refine ⟨attrs.applyTo texts user, db', ?_, rfl⟩
  rw [linkLocalUser, Process.run_bind, linkIdentity_run]
  show Process.run _ (refreshLocalUser id attrs >>= fun _ => findUserByLdapUid uid) _ = _
  rw [Process.run_bind, refreshLocalUser_run]
  simp only [hrow, hsave]
  show (Except.ok (db'.findUserByLdapUid uid), db') = _
  have hfound : db'.findUserByLdapUid uid = some (id, attrs.applyTo texts user) := by
    rw [LdapDatabase.findUserByLdapUid, hidentities, Dict.get?_set_self, Option.bind_some, hrows,
      Dict.get?_set_self]
    rfl
  rw [hfound]

end Parts

/-! ### Which logins are admitted -/

/-- The user is not disabled and has the identity of an entry that the directory found and whose
password it accepted. -/
def Admits (env : Surroundings) (cfg : LdapConfig) (directory : ℕ → Directory)
    (loginId password : String) (found : Option (String × User)) (db : LdapDatabase) : Prop :=
  ∀ id user, found = some (id, user) →
    user.disabled = false ∧ db.users.rows.get? id = some user ∧
    ∃ results entry uid, (directory 0).search (loginFilter env cfg loginId) = some results ∧
      entry ∈ results ∧ (directory 1).verifyCredentials entry.dn password = true ∧
      entry.normalizeBinaryFields.texts cfg.ldapIdAttribute = some uid ∧
      db.identities.get? (uid, .ldap) = some id

/-- An entry that has no identity yet is linked to a disabled user with its email. -/
def LinksDisabled (env : Surroundings) (cfg : LdapConfig) (directory : ℕ → Directory)
    (loginId password : String) (db : LdapDatabase) : Prop :=
  cfg.loginEnabled = true ∧ ∃ entry uid email id user,
    authenticateRemoteUser env cfg directory loginId password = some entry ∧
    given (entry.texts cfg.ldapIdAttribute) = some uid ∧
    given (entry.texts cfg.emailAttribute) = some email ∧
    db.identities.get? (uid, .ldap) = none ∧
    ¬ (cfg.enforceEmailUniqueness = some true ∧
      emailHasDuplicates env cfg (directory 2) email = true) ∧
    db.findUserByEmail env.texts email = some (id, user) ∧ user.email = some email ∧
    user.disabled = true

variable {env : Surroundings} {cfg : LdapConfig} {directory : ℕ → Directory}
  {loginId password : String}

theorem handleLogin_eq {uid email : String} {entry : Entry} (hlogin : cfg.loginEnabled = true)
    (hentry : authenticateRemoteUser env cfg directory loginId password = some entry)
    (huid : given (entry.texts cfg.ldapIdAttribute) = some uid)
    (hemail : given (entry.texts cfg.emailAttribute) = some email) :
    handleLogin env cfg directory loginId password =
      loginAs env cfg (directory 2) (entry.attributes cfg) uid email := by
  have hemail' : given (entry.attributes cfg).email = some email := hemail
  rw [handleLogin, if_pos hlogin, hentry]
  simp only [huid, hemail']

theorem handleLogin_run {choice : ℕ} {db db' : LdapDatabase} {found : String × User}
    (h : (handleLogin env cfg directory loginId password).run (handle env.texts choice) db =
      (.ok (some found), db')) :
    cfg.loginEnabled = true ∧ ∃ entry uid email,
      authenticateRemoteUser env cfg directory loginId password = some entry ∧
      given (entry.texts cfg.ldapIdAttribute) = some uid ∧
      given (entry.texts cfg.emailAttribute) = some email ∧
      (loginAs env cfg (directory 2) (entry.attributes cfg) uid email).run
        (handle env.texts choice) db = (.ok (some found), db') := by
  rw [handleLogin] at h
  split_ifs at h with hlogin
  · refine ⟨hlogin, ?_⟩
    split at h
    · cases h
    · rename_i entry hentry
      split at h
      · rename_i uid email huid hemail
        exact ⟨entry, uid, email, hentry, huid, hemail, h⟩
      · cases h
  · cases h

/-- The entry was found and its password accepted. -/
theorem authenticateRemoteUser_eq_some {entry : Entry}
    (h : authenticateRemoteUser env cfg directory loginId password = some entry) :
    ∃ results candidate, (directory 0).search (loginFilter env cfg loginId) = some results ∧
      candidate ∈ results ∧ (directory 1).verifyCredentials candidate.dn password = true ∧
      entry = candidate.normalizeBinaryFields := by
  obtain ⟨results, hsearch, h⟩ := Option.bind_eq_some_iff.mp h
  obtain ⟨candidate, hlast, h⟩ := Option.bind_eq_some_iff.mp h
  split_ifs at h with hverified
  exact ⟨results, candidate, hsearch, List.mem_of_getLast? hlast, hverified,
    (Option.some.inj h).symm⟩

/-- **Which logins are admitted that should not be**: those that link a disabled user. -/
theorem handleLogin_admits_iff (env : Surroundings) (cfg : LdapConfig) (directory : ℕ → Directory)
    (loginId password : String) (db : LdapDatabase) :
    (∀ choice found db', Process.Leads (handle env.texts choice) db
      (handleLogin env cfg directory loginId password) (.ok found) db' →
      Admits env cfg directory loginId password found db') ↔
    ¬ LinksDisabled env cfg directory loginId password db := by
  constructor
  · rintro h ⟨hlogin, entry, uid, email, id, user, hentry, huid, hemail, hidentity, hduplicates,
      hfound, huser, hdisabled⟩
    have hrow : db.users.rows.get? id = some user :=
      (Dict.mem_entries_iff _ _ _).mp (List.mem_of_find?_eq_some hfound)
    have hattrs : ((entry.attributes cfg).applyTo env.texts user).email = user.email := by
      have hlower : user.email = some (env.texts.toLowerCase email) := by
        simpa using List.find?_some hfound
      have hgiven : entry.texts cfg.emailAttribute = some email :=
        (Option.filter_eq_some_iff.mp hemail).1
      show ((entry.texts cfg.emailAttribute).map env.texts.toLowerCase).or user.email = user.email
      rw [hgiven, hlower]
      rfl
    obtain ⟨user', db', hrun, hsame⟩ := linkLocalUser_run 0 uid hrow hattrs
    have hlogin' := h 0 (some (id, user')) db' <| by
      rw [Process.leads_ok_iff, handleLogin_eq hlogin hentry huid hemail, loginAs_run,
        LdapDatabase.findIdentity, hidentity, Option.map_none]
      rw [← hrun, loginUnknown, if_neg hduplicates]
      show Process.run _ (match (db.findUserByEmail env.texts email).filter fun localUser =>
        localUser.2.email = some email with
        | some localUser => linkLocalUser (entry.attributes cfg) uid localUser.1
        | none => do
          let created ← provisionUser env (entry.attributes cfg) uid
          pure (some created)) db = _
      rw [hfound, Option.filter_some, if_pos (by simpa using huser)]
    have hadmitted := (hlogin' id user' rfl).1
    rw [hsame, hdisabled] at hadmitted
    cases hadmitted
  · intro hlinks choice found db' h id user hfound
    subst hfound
    obtain ⟨hlogin, entry, uid, email, hentry, huid, hemail, hrun⟩ :=
      handleLogin_run (Process.leads_ok_iff.mp h)
    obtain ⟨results, candidate, hsearch, hcandidate, hverified, rfl⟩ :=
      authenticateRemoteUser_eq_some hentry
    have huid' := (Option.filter_eq_some_iff.mp huid).1
    rw [loginAs_run] at hrun
    cases hidentity : db.findIdentity uid with
    | none =>
      rw [hidentity] at hrun
      obtain ⟨hrow, hidentity', hdisabled | ⟨hduplicates, localUser, hfound, hsame, hdisabled⟩⟩ :=
        loginUnknown_ok hrun
      · exact ⟨hdisabled, hrow, results, candidate, uid, hsearch, hcandidate, hverified, huid',
          hidentity'⟩
      · exact absurd ⟨hlogin, _, uid, email, id, localUser, hentry, huid, hemail,
          Option.map_eq_none_iff.mp hidentity, hduplicates, hfound, hsame, hdisabled⟩ hlinks
    | some existing =>
      rw [hidentity] at hrun
      obtain ⟨hrow, hidentity', hdisabled⟩ := loginKnown_ok hidentity hrun
      exact ⟨hdisabled, hrow, results, candidate, uid, hsearch, hcandidate, hverified, huid',
        hidentity'⟩

/-- A disabled user without an identity logs in through its email. -/
theorem disabled_user_logs_in :
    ¬ ∀ (env : Surroundings) (cfg : LdapConfig) (directory : ℕ → Directory)
      (loginId password : String) (db : LdapDatabase) (choice : ℕ)
      (found : Option (String × User)) (db' : LdapDatabase),
      Process.Leads (handle env.texts choice) db (handleLogin env cfg directory loginId password)
        (.ok found) db' → Admits env cfg directory loginId password found db' := by
  intro h
  let env : Surroundings := ⟨⟨id, fun _ => true⟩, id, fun _ => "v", fun _ => "p", fun _ => "secret"⟩
  let cfg : LdapConfig := { loginEnabled := true, emailAttribute := "mail", ldapIdAttribute := "uid" }
  let texts : String → Option String := fun attr =>
    if attr = "uid" then some "1" else if attr = "mail" then some "a@b.c" else none
  let user : User := { email := some "a@b.c", disabled := true }
  let users : UserTable := ⟨Dict.empty.set "u" user,
    distinctEmails_set ({} : UserTable).distinctEmails (by decide)⟩
  let directory : ℕ → Directory := fun _ => ⟨fun _ => some [{ texts := texts }], fun _ _ => true⟩
  have hadmits := h env cfg directory "a" "secret" { users } 0 (some ("u", user)) _
    (Process.leads_ok_iff.mpr rfl)
  exact absurd (hadmits "u" user rfl).1 (by decide)

end Ldap

end N8n
