import N8n.Lib.Dict

/-!
# SSH clients

`ssh-clients-manager.ts`: one client for equal credentials, found by a hash of them.  The handlers
of a client and of its abort controller clean up by the hash.

* `SSHCredentials`, `sshConfig`: the credentials and what is hashed;
* `SSHClientsManager`: the registrations, the clients made so far, what has become of them;
* `cleanupClients`: the clean-up with the abort signals it sets off;
* `getClient`, `emits`, `updateLastUsed`, `cleanupStaleConnections`, `onShutdown`;
* `Event`, `step`: what can happen next.
-/

namespace N8n

namespace Ssh

universe u

/-! ### Credentials -/

inductive SSHAuthentication where
  | password (sshPassword : String)
  | privateKey (privateKey : String) (passphrase : Option String)
  deriving DecidableEq

structure SSHCredentials where
  sshHost : String
  sshPort : ℕ
  sshUser : String
  sshAuthenticateWith : SSHAuthentication
  deriving DecidableEq

structure ConnectConfig where
  host : String
  port : ℕ
  username : String
  password : Option String := none
  privateKey : Option String := none
  passphrase : Option String := none
  deriving DecidableEq

def sshConfig (credentials : SSHCredentials) : ConnectConfig :=
  match credentials.sshAuthenticateWith with
  | .password sshPassword =>
    { host := credentials.sshHost
      port := credentials.sshPort
      username := credentials.sshUser
      password := some sshPassword }
  | .privateKey privateKey passphrase =>
    { host := credentials.sshHost
      port := credentials.sshPort
      username := credentials.sshUser
      privateKey := some privateKey
      passphrase }

structure SSHClientsConfig where
  idleTimeout : ℕ := 5 * 60

/-! ### The state -/

/-- An abort controller: of a caller, or made by `getClient` for a client. -/
inductive AbortController where
  | ofCaller (id : ℕ)
  | ofClient (client : ℕ)
  deriving DecidableEq

/-- A client is known by its number; its `returnPromise` goes with it. -/
structure Registration where
  client : ℕ
  lastUsed : ℕ
  abortController : AbortController
  deriving DecidableEq

/-- What the handlers of a client hold. -/
structure Client (κ : Type u) where
  key : κ
  abortController : AbortController
  deriving DecidableEq

structure SSHClientsManager (κ : Type u) where
  clients : Dict κ Registration := Dict.empty
  /-- The clients made so far, in the order of their numbers. -/
  made : List (Client κ) := []
  /-- The clients whose `end` has been called. -/
  ended : ℕ → Bool := fun _ => false
  ready : ℕ → Bool := fun _ => false
  /-- The clients whose `connect` threw or that had an event of failure before they were ready. -/
  failed : ℕ → Bool := fun _ => false
  aborted : AbortController → Bool := fun _ => false

variable {κ : Type u} [DecidableEq κ]

namespace SSHClientsManager

variable (s : SSHClientsManager κ)

/-- The keys that the listeners of a signal hold, in the order they were added in. -/
def listeners (abortController : AbortController) : List κ :=
  (s.made.filter fun client => client.abortController = abortController).map (·.key)

/-- A registration is deleted and its client ended. -/
def endClient (key : κ) (registration : Registration) : SSHClientsManager κ :=
  { s with
    clients := s.clients.erase key
    ended := Function.update s.ended registration.client true }

/-- The signal of a controller is set. -/
def signal (abortController : AbortController) : SSHClientsManager κ :=
  { s with aborted := Function.update s.aborted abortController true }

theorem length_endClient {key : κ} {registration : Registration}
    (h : s.clients.get? key = some registration) :
    (s.endClient key registration).clients.entries.length < s.clients.entries.length := by
  rw [(s.clients.entries_erase_perm h).length_eq, List.length_cons]
  exact Nat.lt_succ_self _

/-- `cleanupClient` for one key after the other.  The signal is the last that it does: what listens
to it cleans up next. -/
def cleanupClients (s : SSHClientsManager κ) : List κ → SSHClientsManager κ
  | [] => s
  | key :: keys =>
    match _h : s.clients.get? key with
    | none => cleanupClients s keys
    | some registration =>
      if s.aborted registration.abortController then
        cleanupClients (s.endClient key registration) keys
      else
        cleanupClients ((s.endClient key registration).signal registration.abortController)
          (s.listeners registration.abortController ++ keys)
  termination_by keys => (s.clients.entries.length, keys.length)
  decreasing_by
    · exact Prod.Lex.right _ (Nat.lt_succ_self _)
    · exact Prod.Lex.left _ _ (s.length_endClient _h)
    · exact Prod.Lex.left _ _ (s.length_endClient _h)

def cleanupClient (key : κ) : SSHClientsManager κ := s.cleanupClients [key]

/-- The caller of `getClient` calls `abort` on its controller. -/
def abort (abortController : AbortController) : SSHClientsManager κ :=
  if s.aborted abortController then s
  else (s.signal abortController).cleanupClients (s.listeners abortController)

/-- `connectThrows` says whether `connect` throws.  The promise is then rejected, and the client
registered nevertheless. -/
def getClient (createHash : ConnectConfig → κ) (credentials : SSHCredentials)
    (abortController : Option ℕ) (now : ℕ) (connectThrows : Bool) : SSHClientsManager κ :=
  let sshClient := s.made.length
  let abortController := (abortController.map .ofCaller).getD (.ofClient sshClient)
  let clientHash := createHash (sshConfig credentials)
  match s.clients.get? clientHash with
  | some existing =>
    { s with clients := s.clients.set clientHash { existing with lastUsed := now } }
  | none =>
    { s with
      made := s.made ++ [{ key := clientHash, abortController }]
      failed := Function.update s.failed sshClient connectThrows
      clients :=
        s.clients.set clientHash { client := sshClient, lastUsed := now, abortController } }

/-- A client has an event of failure: `error`, `end` or `close`. -/
def emits (client : ℕ) : SSHClientsManager κ :=
  match s.made[client]? with
  | none => s
  | some { key, .. } =>
    { s.cleanupClient key with
      failed := if s.ready client then s.failed else Function.update s.failed client true }

/-- `clientsReversed` has the key of every client made. -/
def updateLastUsed (client : ℕ) (now : ℕ) : SSHClientsManager κ :=
  match s.made[client]? with
  | none => s
  | some { key, .. } =>
    match s.clients.get? key with
    | none => s
    | some registration =>
      { s with clients := s.clients.set key { registration with lastUsed := now } }

def onShutdown : SSHClientsManager κ := s.cleanupClients s.clients.keys

end SSHClientsManager

/-- Whether a registration is stale. -/
def Registration.isStale (config : SSHClientsConfig) (now : ℕ) (registration : Registration) :
    Bool :=
  config.idleTimeout * 1000 < now - registration.lastUsed

def SSHClientsManager.cleanupStaleConnections (s : SSHClientsManager κ) (config : SSHClientsConfig)
    (now : ℕ) : SSHClientsManager κ :=
  s.cleanupClients ((s.clients.filter fun _ r => r.isStale config now).keys)

/-! ### Events -/

inductive FailureEvent where
  | error
  | end_
  | close
  deriving DecidableEq

/-- What can happen next.  A client may have any event at any time, also after it was ended. -/
inductive Event where
  | getClient (credentials : SSHCredentials) (abortController : Option ℕ) (now : ℕ)
      (connectThrows : Bool)
  | ready (client : ℕ)
  | emits (client : ℕ) (event : FailureEvent)
  | abort (id : ℕ)
  | updateLastUsed (client : ℕ) (now : ℕ)
  | cleanupStaleConnections (now : ℕ)
  | onShutdown

/-- The state after an event. -/
def step (config : SSHClientsConfig) (createHash : ConnectConfig → κ) (s : SSHClientsManager κ) :
    Event → SSHClientsManager κ
  | .getClient credentials abortController now connectThrows =>
    s.getClient createHash credentials abortController now connectThrows
  | .ready client => { s with ready := Function.update s.ready client true }
  | .emits client _ => s.emits client
  | .abort id => s.abort (.ofCaller id)
  | .updateLastUsed client now => s.updateLastUsed client now
  | .cleanupStaleConnections now => s.cleanupStaleConnections config now
  | .onShutdown => s.onShutdown

end Ssh

end N8n
