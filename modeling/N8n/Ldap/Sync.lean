import N8n.Ldap.Login
import N8n.Lib.Lts

/-!
# LDAP synchronisation

`LdapService.runSync` and `applySyncChanges`: the users of the directory are compared with the LDAP
identities of the instance, and the differences are written in one transaction, by processes that run
side by side.

* `Ldap.SyncChanges`, `Ldap.syncChanges`: the differences;
* `Ldap.createTask`, `Ldap.updateTask`, `Ldap.disableTask`: what is done for one of them;
* `Ldap.Batch`, `Ldap.batchEvent`: the processes in their transaction;
* `Ldap.runSync`: the row that is recorded and the database that is left.
-/

namespace N8n

namespace Ldap

/-! ### The differences -/

/-- What is to be created, updated and disabled. -/
structure SyncChanges where
  creates : List (Option String × User)
  updates : List (Option String × User)
  disables : List String

def mapToLocal (cfg : LdapConfig) (password : Option String) (entry : Entry) :
    Option String × User :=
  (entry.texts cfg.ldapIdAttribute, {
    email := (entry.attributes cfg).email
    firstName := (entry.attributes cfg).firstName
    lastName := (entry.attributes cfg).lastName
    password := password
    disabled := password.isNone })

/-- The entry has an LDAP identity. -/
def IsKnown (cfg : LdapConfig) (localIds : List String) (entry : Entry) : Bool :=
  (entry.texts cfg.ldapIdAttribute).any fun uid => uid ∈ localIds

def diffNewUsers (env : Surroundings) (cfg : LdapConfig) (remote : List Entry)
    (localIds : List String) : List (Option String × User) :=
  (remote.filter fun r => !IsKnown cfg localIds r).zipIdx.map fun p =>
    mapToLocal cfg (some (env.password p.2)) p.1

def diffExistingUsers (cfg : LdapConfig) (remote : List Entry) (localIds : List String) :
    List (Option String × User) :=
  (remote.filter fun r => IsKnown cfg localIds r).map fun r => mapToLocal cfg none r

def diffRemovedUsers (cfg : LdapConfig) (remote : List Entry) (localIds : List String) :
    List String :=
  localIds.filter fun id => some id ∉ remote.map fun r => r.texts cfg.ldapIdAttribute

/-- What has an email that is none is left out. -/
def hasValidEmail (texts : Texts) (change : Option String × User) : Bool :=
  change.2.email.any texts.isValidEmail

def syncChanges (env : Surroundings) (cfg : LdapConfig) (remote : List Entry)
    (localIds : List String) : SyncChanges where
  creates := (diffNewUsers env cfg remote localIds).filter (hasValidEmail env.texts)
  updates := (diffExistingUsers cfg remote localIds).filter (hasValidEmail env.texts)
  disables := diffRemovedUsers cfg remote localIds

/-! ### What is done for them -/

def findIdentityOf (uid : Option String) : Program (Option AuthIdentity) :=
  access (.findIdentityOf uid)

def saveUser (id : String) (user : User) : Program Unit := access (.saveUser id user) >>= orThrow

def deleteIdentities (userId : String) : Program Unit := access (.deleteIdentities userId) >>= orThrow

def createTask (env : Surroundings) (i : ℕ) (uid : Option String) (user : User) : Program Unit := do
  let created ← createUserWithProject env i user
  linkIdentity created.1 uid

/-- A value that is not given differs from every value of a row. -/
def differs (value given : Option String) : Bool := given.isNone || value ≠ given

/-- The names that are given are taken. -/
def User.assign (cur user : User) : User :=
  { cur with
    email := user.email.or cur.email
    firstName := user.firstName.or cur.firstName
    lastName := user.lastName.or cur.lastName }

def updateUser (user : User) (userId : String) : Program Unit := do
  match ← findUser userId with
  | none => pure ()
  | some cur =>
    if differs cur.email user.email || differs cur.firstName user.firstName ||
        differs cur.lastName user.lastName then
      saveUser userId (cur.assign user)
    else pure ()

def updateTask (uid : Option String) (user : User) : Program Unit := do
  match ← findIdentityOf uid with
  | none => pure ()
  | some ident => if ident.userId = "" then pure () else updateUser user ident.userId

def disableUser (userId : String) : Program Unit := do
  match ← findUser userId with
  | none => pure ()
  | some u => saveUser userId { u with disabled := true }

def disableTask (uid : String) : Program Unit := do
  match ← findIdentityOf (some uid) with
  | none => pure ()
  | some ident =>
    if ident.userId = "" then pure ()
    else do
      disableUser ident.userId
      deleteIdentities ident.userId

/-- One process for each of the changes. -/
def SyncChanges.tasks (env : Surroundings) (changes : SyncChanges) : List (Program Unit) :=
  (changes.creates.zipIdx.map fun p => createTask env p.2 p.1.1 p.1.2) ++
    (changes.updates.map fun p => updateTask p.1 p.2) ++ changes.disables.map disableTask

/-! ### The transaction -/

/-- The processes, what the database was before, and what has become of the transaction. -/
structure Batch where
  before : LdapDatabase
  pool : Pool LdapDatabase ldapOperations LdapError Unit
  outcome : Option (Except LdapError Unit) := none

inductive BatchEvent
  /-- A process carries out its next access; where several rows match, the choice says which. -/
  | step (c choice : ℕ)
  /-- The next access of a process throws. -/
  | fails (c : ℕ) (e : LdapError)
  | commit
  /-- The transaction cannot be started, or not be committed. -/
  | refused (e : LdapError)

/-- The transaction is rolled back; processes that have not come to their end go on. -/
def Batch.rollback (b : Batch) (e : LdapError) : Batch :=
  { b with outcome := some (.error e), pool := { b.pool with state := b.before } }

/-- The first error of a process is that of the transaction. -/
def Batch.settle (b : Batch) (c : ℕ) : Batch :=
  match b.outcome, b.pool.processes[c]? with
  | none, some (.throw e) => b.rollback e
  | _, _ => b

def batchEvent (texts : Texts) (b : Batch) : BatchEvent → Batch
  | .step c choice => { b with pool := b.pool.step (handle texts choice) c }.settle c
  | .fails c e => { b with pool := b.pool.fail c e }.settle c
  | .commit => if b.outcome.isNone ∧ b.pool.Finished then { b with outcome := some (.ok ()) } else b
  | .refused e => if b.outcome.isNone then b.rollback e else b

def applySyncChanges (env : Surroundings) (changes : SyncChanges) (db : LdapDatabase) : Batch :=
  ⟨db, ⟨db, changes.tasks env⟩, none⟩

/-! ### Runs -/

inductive RunningMode
  | dry
  | live
  deriving DecidableEq

inductive SyncStatus
  | success
  | error
  deriving DecidableEq

/-- A recorded run. -/
structure SyncHistory where
  startedAt : ℕ
  endedAt : ℕ
  created : ℕ
  updated : ℕ
  disabled : ℕ
  scanned : ℕ
  runMode : RunningMode
  status : SyncStatus
  /-- The error whose message is recorded. -/
  error : Option LdapError
  deriving DecidableEq

/-- What is recorded of the changes and of what they came to: only a failed query is an error. -/
def recordSyncRun (startedAt endedAt scanned : ℕ) (mode : RunningMode) (changes : SyncChanges)
    (outcome : Except LdapError Unit) : SyncHistory where
  startedAt
  endedAt
  created := changes.creates.length
  updated := changes.updates.length
  disabled := changes.disables.length
  scanned
  runMode := mode
  status := if outcome = .error .queryFailed then .error else .success
  error := if outcome = .error .queryFailed then some .queryFailed else none

/-- The changes of the entries that the directory lists. -/
def changesOf (env : Surroundings) (cfg : LdapConfig) (remote : List Entry) (db : LdapDatabase) :
    SyncChanges :=
  syncChanges env cfg (remote.map Entry.normalizeBinaryFields) db.allLocalLdapIds

/-- The transaction of a run after the events. -/
def batchAfter (env : Surroundings) (cfg : LdapConfig) (remote : List Entry) (db : LdapDatabase)
    (events : List BatchEvent) : Batch :=
  Trace.run (batchEvent env.texts) (applySyncChanges env (changesOf env cfg remote db) db) events

/-- What a run records and leaves when the events have happened and the transaction has come to its
end. -/
def runSync (env : Surroundings) (cfg : LdapConfig) (mode : RunningMode) (remote : List Entry)
    (startedAt endedAt : ℕ) (db : LdapDatabase) (events : List BatchEvent) :
    Option (SyncHistory × LdapDatabase) :=
  let changes := changesOf env cfg remote db
  match mode with
  | .dry => some (recordSyncRun startedAt endedAt remote.length mode changes (.ok ()), db)
  | .live =>
    let b := batchAfter env cfg remote db events
    b.outcome.map fun outcome =>
      (recordSyncRun startedAt endedAt remote.length mode changes outcome, b.pool.state)

end Ldap

end N8n
