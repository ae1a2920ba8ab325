import N8n.Lib.Connection
import N8n.Lib.Dict
import N8n.Lib.Process
import Mathlib.Data.List.Rotate
import Mathlib.Data.Rat.Defs

/-!
# Users and their identities

The rows that LDAP login, synchronisation and settings read and write.

* `Ldap.User`, `Ldap.AuthIdentity`: a user, and an identity of a user at a provider;
* `Ldap.LdapConfig`: the settings;
* `Ldap.LdapDatabase`, with no two users of one email and no two identities of one provider with one
  id; `Ldap.LdapOp`, `Ldap.handle`: the accesses to it.
-/

namespace N8n

namespace Ldap

/-- Where an identity comes from, and how users log in. -/
inductive AuthProviderType
  | ldap
  | email
  | saml
  | oidc
  | tokenExchange
  deriving DecidableEq

/-- The text of a method. -/
def AuthProviderType.text : AuthProviderType → String
  | .ldap => "ldap"
  | .email => "email"
  | .saml => "saml"
  | .oidc => "oidc"
  | .tokenExchange => "token-exchange"

/-- A user; what has no value in the row is absent. -/
structure User where
  email : Option String
  firstName : Option String := none
  lastName : Option String := none
  password : Option String := none
  role : String := "global:member"
  disabled : Bool := false
  deriving DecidableEq

/-- An identity of a user. -/
structure AuthIdentity where
  userId : String
  providerId : String
  providerType : AuthProviderType := .ldap
  deriving DecidableEq

/-- The LDAP settings. -/
structure LdapConfig where
  loginEnabled : Bool := false
  loginLabel : String := ""
  connectionUrl : String := ""
  allowUnauthorizedCerts : Bool := false
  connectionSecurity : String := "none"
  connectionPort : ℚ := 389
  baseDn : String := ""
  bindingAdminDn : String := ""
  bindingAdminPassword : String := ""
  firstNameAttribute : String := ""
  lastNameAttribute : String := ""
  emailAttribute : String := ""
  loginIdAttribute : String := ""
  ldapIdAttribute : String := ""
  userFilter : String := ""
  synchronizationEnabled : Bool := false
  synchronizationInterval : ℚ := 60
  searchPageSize : ℚ := 0
  searchTimeout : ℚ := 60
  /-- The schema does not require it. -/
  enforceEmailUniqueness : Option Bool := none
  deriving DecidableEq

/-- What a call throws. -/
inductive LdapError
  | unexpected (message : String)
  | badRequest (message : String)
  | internalServer (message : String)
  | entityNotFound
  | malformed
  | queryFailed
  | unavailable
  deriving DecidableEq

/-! ### Tables -/

structure Project where
  name : String
  type : String := "personal"
  creatorId : String
  deriving DecidableEq

structure ProjectRelation where
  projectId : String
  userId : String
  role : String
  deriving DecidableEq

/-- No two users have the same email. -/
def DistinctEmails (rows : Dict String User) : Prop :=
  ∀ i j u v email, rows.get? i = some u → rows.get? j = some v →
    u.email = some email → v.email = some email → i = j

/-- The users by their ids. -/
structure UserTable where
  rows : Dict String User := .empty
  distinctEmails : DistinctEmails rows := by
    intro i j u v email h
    cases h

/-- Another user has the email of the user. -/
def EmailTaken (rows : Dict String User) (id : String) (user : User) : Prop :=
  ∃ e ∈ rows.entries, e.1 ≠ id ∧ user.email.isSome = true ∧ e.2.email = user.email

instance (rows : Dict String User) (id : String) (user : User) :
    Decidable (EmailTaken rows id user) :=
  inferInstanceAs (Decidable (∃ e ∈ rows.entries, _))

theorem distinctEmails_set {rows : Dict String User} {id : String} {user : User}
    (hrows : DistinctEmails rows) (h : ¬ EmailTaken rows id user) :
    DistinctEmails (rows.set id user) := by
  have hfree : ∀ i u email, i ≠ id → rows.get? i = some u → u.email = some email →
      user.email ≠ some email := by
    intro i u email hne hi hu huser
    refine h ⟨(i, u), (rows.mem_entries_iff i u).2 hi, hne, ?_, hu.trans huser.symm⟩
    rw [huser]
    rfl
  intro i j u v email hi hj hu hv
  rw [Dict.get?_set] at hi hj
  split_ifs at hi hj with hid hjd hjd
  · exact hid.trans hjd.symm
  · cases hi
    exact absurd hu (hfree j v email hjd hj hv)
  · cases hj
    exact absurd hv (hfree i u email hid hi hu)
  · exact hrows i j u v email hi hj hu hv

/-- A row is written, unless another user has its email. -/
def UserTable.write (users : UserTable) (id : String) (user : User) : Except LdapError UserTable :=
  if h : EmailTaken users.rows id user then .error .queryFailed
  else .ok ⟨users.rows.set id user, distinctEmails_set users.distinctEmails h⟩

/-- The tables; an identity is a user id by the id at the provider and the provider. -/
structure LdapDatabase where
  users : UserTable := {}
  identities : Dict (String × AuthProviderType) String := .empty
  projects : Dict String Project := .empty
  projectRelations : List ProjectRelation := []

namespace LdapDatabase

variable (db : LdapDatabase)

def findIdentity (uid : String) : Option (String × Option User) :=
  (db.identities.get? (uid, .ldap)).map fun userId => (userId, db.users.rows.get? userId)

def findUserByLdapUid (uid : String) : Option (String × User) :=
  (db.identities.get? (uid, .ldap)).bind fun userId =>
    (db.users.rows.get? userId).map fun user => (userId, user)

/-- The identities with the id at any provider; all of them, when no id is given. -/
def identitiesOf (uid : Option String) : List AuthIdentity :=
  (db.identities.entries.filter fun e => uid.all fun uid => e.1.1 = uid).map fun e =>
    ⟨e.2, e.1.1, e.1.2⟩

def allLocalLdapIds : List String :=
  (db.identities.keys.filter fun key => key.2 = .ldap).map Prod.fst

end LdapDatabase

/-! ### Accesses -/

/-- What the database and the services of the instance do with texts: how a text is made lower case,
and which are emails. -/
structure Texts where
  toLowerCase : String → String
  isValidEmail : String → Bool

/-- Emails are looked up in lower case, as the column has them. -/
def LdapDatabase.findUserByEmail (db : LdapDatabase) (texts : Texts) (email : String) :
    Option (String × User) :=
  db.users.rows.entries.find? fun e => e.2.email = some (texts.toLowerCase email)

/-- Done before a user is inserted or updated. -/
def Texts.preUpsertHook (texts : Texts) (user : User) : Except LdapError User :=
  match user.email with
  | none => .ok user
  | some email =>
    if texts.isValidEmail (texts.toLowerCase email) then
      .ok { user with email := some (texts.toLowerCase email) }
    else .error (.unexpected
      ("Cannot save user <" ++ texts.toLowerCase email ++ ">: Provided email is invalid"))

/-- What the directory says about a user. -/
structure Attributes where
  email : Option String
  firstName : Option String
  lastName : Option String
  deriving DecidableEq

/-- The values that are given are taken; the email as the column has it. -/
def Attributes.applyTo (attrs : Attributes) (texts : Texts) (user : User) : User :=
  { user with
    email := (attrs.email.map texts.toLowerCase).or user.email
    firstName := attrs.firstName.or user.firstName
    lastName := attrs.lastName.or user.lastName }

/-- An access to the database. -/
inductive LdapOp
  | findIdentity (uid : String)
  | findUserByLdapUid (uid : String)
  | findUserByEmail (email : String)
  | findUser (id : String)
  | findIdentityOf (uid : Option String)
  | insertUser (id : String) (user : User)
  | saveUser (id : String) (user : User)
  | saveAttributes (id : String) (attrs : Attributes)
  | saveIdentity (uid : Option String) (userId : String)
  | deleteIdentities (userId : String)
  | insertProject (id : String) (project : Project)
  | insertProjectRelation (relation : ProjectRelation)

abbrev ldapOperations : Operations where
  Op := LdapOp
  Reply
    | .findIdentity _ => Option (String × Option User)
    | .findUserByLdapUid _ => Option (String × User)
    | .findUserByEmail _ => Option (String × User)
    | .findUser _ => Option User
    | .findIdentityOf _ => Option AuthIdentity
    | .insertUser _ _ => Except LdapError Unit
    | .saveUser _ _ => Except LdapError Unit
    | .saveAttributes _ _ => Except LdapError Unit
    | .saveIdentity _ _ => Except LdapError Unit
    | .deleteIdentities _ => Except LdapError Unit
    | .insertProject _ _ => Except LdapError Unit
    | .insertProjectRelation _ => Except LdapError Unit

namespace LdapDatabase

/-- A write that may be refused. -/
def attempt (db : LdapDatabase) (r : Except LdapError LdapDatabase) :
    Except LdapError Unit × LdapDatabase :=
  match r with
  | .ok db' => (.ok (), db')
  | .error e => (.error e, db)

variable (texts : Texts) (db : LdapDatabase)

def writeUser (id : String) (user : User) : Except LdapError LdapDatabase :=
  (db.users.write id user).map fun users => { db with users }

/-- The id must be new. -/
def insertUser (id : String) (user : User) : Except LdapError LdapDatabase := do
  let user ← texts.preUpsertHook user
  if db.users.rows.has id then .error .queryFailed
  else db.writeUser id user

/-- A row that is as it was is not written. -/
def saveUser (id : String) (user : User) : Except LdapError LdapDatabase :=
  if db.users.rows.get? id = some user then .ok db
  else do
    let user ← texts.preUpsertHook user
    db.writeUser id user

def saveAttributes (id : String) (attrs : Attributes) : Except LdapError LdapDatabase :=
  db.writeUser id (attrs.applyTo texts ((db.users.rows.get? id).getD { email := none }))

/-- A row with the same id is replaced. -/
def saveIdentity (uid : Option String) (userId : String) : Except LdapError LdapDatabase :=
  match uid with
  | none => .error .queryFailed
  | some uid => .ok { db with identities := db.identities.set (uid, .ldap) userId }

def deleteIdentities (userId : String) : LdapDatabase :=
  { db with identities := db.identities.filter fun _ id => id ≠ userId }

end LdapDatabase

/-- One access; where several rows match, any of them is read first. -/
def handle (texts : Texts) (choice : ℕ) (db : LdapDatabase) :
    (op : LdapOp) → ldapOperations.Reply op × LdapDatabase
  | .findIdentity uid => (db.findIdentity uid, db)
  | .findUserByLdapUid uid => (db.findUserByLdapUid uid, db)
  | .findUserByEmail email => (db.findUserByEmail texts email, db)
  | .findUser id => (db.users.rows.get? id, db)
  | .findIdentityOf uid => (((db.identitiesOf uid).rotate choice).head?, db)
  | .insertUser id user => db.attempt (db.insertUser texts id user)
  | .saveUser id user => db.attempt (db.saveUser texts id user)
  | .saveAttributes id attrs => db.attempt (db.saveAttributes texts id attrs)
  | .saveIdentity uid userId => db.attempt (db.saveIdentity uid userId)
  | .deleteIdentities userId => (.ok (), db.deleteIdentities userId)
  | .insertProject id project => (.ok (), { db with projects := db.projects.set id project })
  | .insertProjectRelation relation =>
    (.ok (), { db with projectRelations := db.projectRelations ++ [relation] })

end Ldap

end N8n
