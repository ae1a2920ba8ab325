import N8n.Ldap.Database

/-!
# LDAP settings

`LdapService.persistConfig` and `fetchConfig`: the settings in memory, the timer of the periodic
synchronisation and the stored settings.

* `Ldap.LdapState`: what the service has in memory and what is stored;
* `Ldap.persistConfig`, `Ldap.fetchConfig`;
* `Ldap.KeepsInStep`: saved and running settings agree after a call, and a call that throws changes
  neither; `Ldap.keepsInStep_iff`: when this is so.
-/

namespace N8n

namespace Ldap

open Stateful

/-- How passwords are encrypted, with a salt, and decrypted, which may fail. -/
structure Cipher where
  encrypt : ℕ → String → String
  decrypt : String → Option String

/-- What the service and the configuration of the instance hold in memory, and what is stored. -/
structure LdapState where
  config : Option LdapConfig := none
  /-- The period of the timer in milliseconds, when it runs. -/
  periodicSync : Option ℚ := none
  connected : Bool := false
  authenticationMethod : AuthProviderType := .email
  loginEnabled : Bool := false
  loginLabel : String := ""
  /-- The row with the settings; its password is encrypted. -/
  settings : Option LdapConfig := none
  storedAuthenticationMethod : AuthProviderType := .email
  identities : List AuthIdentity := []
  deriving DecidableEq

/-- A program of the service. -/
abbrev Service := Stateful (Connection LdapState) LdapError

/-- The settings of a row, as they are used. -/
def parseConfig (cipher : Cipher) (row : LdapConfig) : Except LdapError LdapConfig :=
  match cipher.decrypt row.bindingAdminPassword with
  | none => .error .malformed
  | some password => .ok { row with
      enforceEmailUniqueness := some (row.enforceEmailUniqueness.getD true)
      bindingAdminPassword := password }

def fetchConfig (cipher : Cipher) : Service LdapConfig := do
  match ← query .unavailable LdapState.settings with
  | none => fail .entityNotFound
  | some row => lift (parseConfig cipher row)

/-- The timer calls `runSync` every `synchronizationInterval` minutes. -/
def startPeriodicSync (cfg : LdapConfig) : Service Unit :=
  if cfg.synchronizationInterval = 0 then fail (.unexpected "Sync interval required")
  else modify fun s => { s with periodicSync := some (cfg.synchronizationInterval * 60000) }

def cancelPeriodicSync : Service Unit := modify fun s => { s with periodicSync := none }

def applyConfig (cfg : LdapConfig) : Service Unit := do
  modify fun s => { s with config := some cfg, connected := false }
  let running ← peek fun s => s.periodicSync.isSome
  match running, cfg.synchronizationEnabled with
  | true, false => cancelPeriodicSync
  | false, true => startPeriodicSync cfg
  | true, true => do
    cancelPeriodicSync
    startPeriodicSync cfg
  | false, false => pure ()

def setCurrentAuthMethod (method : AuthProviderType) : Service Unit := do
  modify fun s => { s with authenticationMethod := method }
  statement .unavailable fun s => .ok { s with storedAuthenticationMethod := method }

def applyGlobalSettings (cfg : LdapConfig) : Service Unit := do
  let current ← peek LdapState.authenticationMethod
  if cfg.loginEnabled = true ∧ current ≠ .email ∧ current ≠ .ldap then
    fail (.internalServer
      ("Cannot enable LDAP while auth method \"" ++ current.text ++ "\" is active"))
  else do
    modify fun s => { s with loginEnabled := cfg.loginEnabled, loginLabel := cfg.loginLabel }
    let target := if cfg.loginEnabled = false ∧ current = .ldap then .email else current
    setCurrentAuthMethod (if cfg.loginEnabled then .ldap else target)

/-- Without login there is no synchronisation either, and the identities go. -/
def disableSync (cfg : LdapConfig) : Service LdapConfig :=
  if cfg.loginEnabled then pure cfg
  else do
    let managed ← query .unavailable fun s => s.identities.filter fun i => i.providerType = .ldap
    if managed ≠ [] then
      statement .unavailable fun s =>
        .ok { s with identities := s.identities.filter fun i => i.providerType ≠ .ldap }
    pure { cfg with synchronizationEnabled := false }

/-- What `persistConfig` does after the settings in memory have been replaced. -/
def storeConfig (cipher : Cipher) (salt : ℕ) (cfg : LdapConfig) : Service Unit := do
  let encrypted ← disableSync
    { cfg with bindingAdminPassword := cipher.encrypt salt cfg.bindingAdminPassword }
  statement .unavailable fun s => .ok { s with settings := s.settings.map fun _ => encrypted }
  applyGlobalSettings cfg

/-- The settings are valid: they have the fields and types of the schema. -/
def persistConfig (cipher : Cipher) (salt : ℕ) (cfg : LdapConfig) : Service Unit := do
  let current ← peek LdapState.authenticationMethod
  if cfg.loginEnabled = true ∧ (current = .saml ∨ current = .oidc) then
    fail (.badRequest "LDAP cannot be enabled while another SSO method is active")
  else do
    applyConfig cfg
    storeConfig cipher salt cfg

/-! ### The parts of a call -/

variable {cipher : Cipher} {salt : ℕ} {cfg : LdapConfig} {s s' : LdapState} {faults : List Bool}

/-- Another method of single sign-on is active. -/
def Refused (cfg : LdapConfig) (s : LdapState) : Prop :=
  cfg.loginEnabled = true ∧ (s.authenticationMethod = .saml ∨ s.authenticationMethod = .oidc)

/-- A method is active with which the settings cannot be applied. -/
def Blocked (cfg : LdapConfig) (s : LdapState) : Prop :=
  cfg.loginEnabled = true ∧ s.authenticationMethod = .tokenExchange

/-- The timer is asked for and has no period. -/
def LacksInterval (cfg : LdapConfig) : Prop :=
  cfg.synchronizationEnabled = true ∧ cfg.synchronizationInterval = 0

/-- The timer that the settings ask for. -/
def timer (cfg : LdapConfig) : Option ℚ :=
  if cfg.synchronizationEnabled then some (cfg.synchronizationInterval * 60000) else none

/-- What the settings in memory become. -/
def applied (cfg : LdapConfig) (s : LdapState) : LdapState :=
  { s with config := some cfg, connected := false, periodicSync := timer cfg }

/-- What is stored. -/
def saved (cipher : Cipher) (salt : ℕ) (cfg : LdapConfig) : LdapConfig :=
  { cfg with
    bindingAdminPassword := cipher.encrypt salt cfg.bindingAdminPassword
    synchronizationEnabled := cfg.loginEnabled && cfg.synchronizationEnabled }

/-- What is loaded from what is stored. -/
def reloaded (cfg : LdapConfig) : LdapConfig :=
  { cfg with
    enforceEmailUniqueness := some (cfg.enforceEmailUniqueness.getD true)
    synchronizationEnabled := cfg.loginEnabled && cfg.synchronizationEnabled }

theorem applyConfig_eq :
    applyConfig cfg ⟨s, faults⟩ = (match s.periodicSync.isSome,
      cfg.synchronizationEnabled with
    | true, false => cancelPeriodicSync
    | false, true => startPeriodicSync cfg
    | true, true => do
      cancelPeriodicSync
      startPeriodicSync cfg
    | false, false => pure () : Service Unit)
      ⟨{ s with config := some cfg, connected := false }, faults⟩ := rfl

theorem applyConfig_run (h : ¬ LacksInterval cfg) :
    applyConfig cfg ⟨s, faults⟩ = (.ok (), ⟨applied cfg s, faults⟩) := by
  have hstart : cfg.synchronizationEnabled = true → ∀ c, startPeriodicSync cfg c =
      (.ok (), { c with data := { c.data with
        periodicSync := some (cfg.synchronizationInterval * 60000) } }) := by
    intro hsync c
    rw [startPeriodicSync, if_neg fun hinterval => h ⟨hsync, hinterval⟩]
    rfl
  rw [applyConfig_eq, applied, timer]
  cases hsync : cfg.synchronizationEnabled with
  | false =>
    cases htimer : s.periodicSync with
    | none => simp [Pure.pure]
    | some period => rfl
  | true =>
    cases htimer : s.periodicSync with
    | none => exact hstart hsync _
    | some period =>
      show (cancelPeriodicSync >>= fun _ => startPeriodicSync cfg) _ = _
      rw [run_bind]
      exact hstart hsync _

theorem applyConfig_lacksInterval (h : LacksInterval cfg) :
    applyConfig cfg ⟨s, faults⟩ = (.error (.unexpected "Sync interval required"),
      ⟨{ s with config := some cfg, connected := false, periodicSync := none }, faults⟩) := by
  have hstart : ∀ c, startPeriodicSync cfg c = (.error (.unexpected "Sync interval required"), c) := by
    intro c
    rw [startPeriodicSync, if_pos h.2]
    rfl
  rw [applyConfig_eq, h.1]
  cases htimer : s.periodicSync with
  | none =>
    refine (hstart _).trans ?_
    rw [← htimer]
  | some period =>
    show (cancelPeriodicSync >>= fun _ => startPeriodicSync cfg) _ = _
    rw [run_bind]
    exact hstart _

/-- What storing the settings can do: the settings in memory and the timer stay, and the stored
settings are what they were or those of the call. -/
def Stores (encrypted : LdapConfig) (s s' : LdapState) : Prop :=
  s'.config = s.config ∧ s'.periodicSync = s.periodicSync ∧
    (s'.settings = s.settings ∨ s'.settings = s.settings.map fun _ => encrypted)

theorem Stores.refl (encrypted : LdapConfig) (s : LdapState) : Stores encrypted s s :=
  ⟨rfl, rfl, Or.inl rfl⟩

variable {encrypted : LdapConfig} {c : Connection LdapState}

theorem Stores.trans (s₁ s₂ s₃ : LdapState) (h : Stores encrypted s₁ s₂)
    (h' : Stores encrypted s₂ s₃) : Stores encrypted s₁ s₃ := by
  refine ⟨h'.1.trans h.1, h'.2.1.trans h.2.1, ?_⟩
  rcases h'.2.2 with heq' | heq' <;> rcases h.2.2 with heq | heq
  · exact Or.inl (heq'.trans heq)
  · exact Or.inr (heq'.trans heq)
  · rw [heq] at heq'
    exact Or.inr heq'
  · rw [heq, Option.map_map] at heq'
    exact Or.inr heq'

theorem stores_modify {g : LdapState → LdapState} (h : ∀ s, Stores encrypted s (g s)) :
    Leaves (Stores encrypted) (modify g : Service Unit) := leaves_modify h

theorem stores_statement {g : LdapState → LdapState} (h : ∀ s, Stores encrypted s (g s)) :
    Leaves (Stores encrypted) (statement .unavailable fun s => .ok (g s) : Service Unit) :=
  leaves_statement (Stores.refl encrypted) fun d d' hd => by
    cases hd
    exact h d

/-- Disabling the synchronisation changes only the identities. -/
theorem leaves_disableSync (cfg : LdapConfig) :
    Leaves (fun s s' => ∃ identities, s' = { s with identities }) (disableSync cfg) := by
  have hrefl : ∀ s : LdapState, ∃ identities, s = { s with identities } := fun s => ⟨_, rfl⟩
  have htrans : ∀ s₁ s₂ s₃ : LdapState, (∃ identities, s₂ = { s₁ with identities }) →
      (∃ identities, s₃ = { s₂ with identities }) → ∃ identities, s₃ = { s₁ with identities } := by
    rintro s₁ _ _ ⟨l, rfl⟩ ⟨l', rfl⟩
    exact ⟨l', rfl⟩
  refine Leaves.ite ((readsOnly_pure _).leaves hrefl) ?_
  refine ((readsOnly_query _ _).leaves hrefl).bind htrans fun managed => ?_
  refine Leaves.ite ?_ ((readsOnly_pure _).leaves hrefl)
  refine Leaves.bind htrans ?_ fun _ => (readsOnly_pure _).leaves hrefl
  refine leaves_statement hrefl fun d d' hd => ?_
  cases hd
  exact ⟨_, rfl⟩

theorem stores_disableSync {r : Except LdapError LdapConfig} (h : Ends (disableSync cfg) s r s') :
    Stores encrypted s s' := by
  obtain ⟨identities, rfl⟩ := leaves_disableSync cfg _ _ _ h
  exact ⟨rfl, rfl, Or.inl rfl⟩

theorem leaves_applyGlobalSettings (encrypted : LdapConfig) (cfg : LdapConfig) :
    Leaves (Stores encrypted) (applyGlobalSettings cfg) := by
  refine ((readsOnly_peek _).leaves (Stores.refl _)).bind Stores.trans fun current => ?_
  refine Leaves.ite ((readsOnly_fail _).leaves (Stores.refl _)) ?_
  refine Leaves.bind Stores.trans (stores_modify fun s => ⟨rfl, rfl, Or.inl rfl⟩) fun _ => ?_
  refine Leaves.bind Stores.trans (stores_modify fun s => ⟨rfl, rfl, Or.inl rfl⟩) fun _ => ?_
  exact stores_statement fun s => ⟨rfl, rfl, Or.inl rfl⟩

theorem disableSync_ok (h : Ends (disableSync cfg) s (.ok encrypted) s') :
    encrypted = { cfg with
      synchronizationEnabled := cfg.loginEnabled && cfg.synchronizationEnabled } := by
  rw [disableSync] at h
  split_ifs at h with hlogin
  · have hsync : (cfg.loginEnabled && cfg.synchronizationEnabled) = cfg.synchronizationEnabled := by
      rw [hlogin, Bool.true_and]
    cases (ends_pure_ok h).1
    rw [hsync]
  · have hsync : (cfg.loginEnabled && cfg.synchronizationEnabled) = false := by
      rw [Bool.eq_false_iff.mpr hlogin, Bool.false_and]
    obtain ⟨managed, s₁, -, h⟩ := h.bind_ok
    rw [hsync]
    split_ifs at h
    · obtain ⟨_, s₂, -, h⟩ := h.bind_ok
      cases (ends_pure_ok h).1
      rfl
    · cases (ends_pure_ok h).1
      rfl

theorem leaves_storeConfig (cipher : Cipher) (salt : ℕ) (cfg : LdapConfig) :
    Leaves (Stores (saved cipher salt cfg)) (storeConfig cipher salt cfg) := by
  intro s r s' h
  cases r with
  | error e =>
    rcases h.bind_error with h | ⟨encrypted, s₁, hdisable, h⟩
    · exact stores_disableSync h
    · have hstores : Stores (saved cipher salt cfg) s s₁ := stores_disableSync hdisable
      obtain rfl := disableSync_ok hdisable
      refine hstores.trans _ _ _ (Leaves.bind Stores.trans ?_ (fun _ => ?_) _ _ _ h)
      · exact stores_statement fun s => ⟨rfl, rfl, Or.inr rfl⟩
      · exact leaves_applyGlobalSettings _ cfg
  | ok u =>
    obtain ⟨encrypted, s₁, hdisable, h⟩ := h.bind_ok
    have hstores : Stores (saved cipher salt cfg) s s₁ := stores_disableSync hdisable
    obtain rfl := disableSync_ok hdisable
    refine hstores.trans _ _ _ (Leaves.bind Stores.trans ?_ (fun _ => ?_) _ _ _ h)
    · exact stores_statement fun s => ⟨rfl, rfl, Or.inr rfl⟩
    · exact leaves_applyGlobalSettings _ cfg

/-- A call that returns has stored its settings. -/
theorem storeConfig_ok {u : Unit} (h : Ends (storeConfig cipher salt cfg) s (.ok u) s') :
    s'.settings = s.settings.map fun _ => saved cipher salt cfg := by
  have hmap : ∀ {o : Option LdapConfig}, (o = s.settings ∨
      o = s.settings.map fun _ => saved cipher salt cfg) →
      (o.map fun _ => saved cipher salt cfg) = s.settings.map fun _ => saved cipher salt cfg := by
    rintro o (rfl | rfl)
    · rfl
    · rw [Option.map_map]
      rfl
  obtain ⟨encrypted, s₁, hdisable, hrest⟩ := h.bind_ok
  have hstores : Stores (saved cipher salt cfg) s s₁ := stores_disableSync hdisable
  obtain rfl := disableSync_ok hdisable
  obtain ⟨_, s₂, hupdate, hglobal⟩ := hrest.bind_ok
  cases ends_statement_ok hupdate
  rcases (leaves_applyGlobalSettings (saved cipher salt cfg) cfg _ _ _ hglobal).2.2 with heq | heq
  · rw [heq]
    exact hmap hstores.2.2
  · rw [heq, Option.map_map]
    exact hmap hstores.2.2

theorem steady_disableSync (cfg : LdapConfig) : Steady .unavailable (disableSync cfg) := by
  refine (steady_pure _ _).ite ((steady_access _ _).bind fun managed => Steady.ite ?_ ?_)
  · exact (steady_access _ _).bind fun _ => steady_pure _ _
  · exact steady_pure _ _

theorem steady_applyGlobalSettings (cfg : LdapConfig) :
    Steady .unavailable (applyGlobalSettings cfg) := by
  refine (steady_peek _ _).bind fun current => (steady_fail _ _).ite ?_
  refine (steady_modify _ _).bind fun _ => ?_
  exact (steady_modify _ _).bind fun _ => steady_access _ _

theorem steady_storeConfig (cipher : Cipher) (salt : ℕ) (cfg : LdapConfig) :
    Steady .unavailable (storeConfig cipher salt cfg) :=
  (steady_disableSync _).bind fun _ => (steady_access _ _).bind fun _ =>
    steady_applyGlobalSettings cfg

/-! ### Calls whose accesses are answered -/

theorem disableSync_run (cfg : LdapConfig) (s : LdapState) :
    ∃ s₁, disableSync cfg ⟨s, []⟩ = (.ok { cfg with
      synchronizationEnabled := cfg.loginEnabled && cfg.synchronizationEnabled }, ⟨s₁, []⟩) := by
  have hok : ∃ encrypted, (disableSync cfg ⟨s, []⟩).1 = .ok encrypted := by
    rw [disableSync]
    split_ifs with hlogin
    · exact ⟨_, rfl⟩
    · by_cases hmanaged : (s.identities.filter fun i => i.providerType = .ldap) = []
      · simp [run_bind, query, Stateful.access, hmanaged, Pure.pure]
      · simp only [run_bind, query, Stateful.access, List.headD_nil, Bool.false_eq_true, if_false,
          hmanaged, ne_eq, not_false_eq_true, if_true]
        exact ⟨_, rfl⟩
  obtain ⟨encrypted, hencrypted⟩ := hok
  have hrun := (steady_disableSync cfg).eq_mk s
  rw [hencrypted] at hrun
  exact ⟨_, hrun.trans (by rw [disableSync_ok ⟨[], [], hrun⟩])⟩

theorem applyGlobalSettings_run (h : ¬ Refused cfg s) (hblocked : ¬ Blocked cfg s) :
    (applyGlobalSettings cfg ⟨s, []⟩).1 = .ok () ∧
      ∃ s', Ends (applyGlobalSettings cfg) s (.error .unavailable) s' := by
  have hactive : ¬ (cfg.loginEnabled = true ∧ s.authenticationMethod ≠ .email ∧
      s.authenticationMethod ≠ .ldap) := by
    rintro ⟨hlogin, hemail, hldap⟩
    cases hmethod : s.authenticationMethod with
    | ldap => exact hldap hmethod
    | email => exact hemail hmethod
    | saml => exact h ⟨hlogin, Or.inl hmethod⟩
    | oidc => exact h ⟨hlogin, Or.inr hmethod⟩
    | tokenExchange => exact hblocked ⟨hlogin, hmethod⟩
  have hrun : ∀ faults, applyGlobalSettings cfg ⟨s, faults⟩ = setCurrentAuthMethod
      (if cfg.loginEnabled then .ldap
        else if cfg.loginEnabled = false ∧ s.authenticationMethod = .ldap then .email
        else s.authenticationMethod)
      ⟨{ s with loginEnabled := cfg.loginEnabled, loginLabel := cfg.loginLabel }, faults⟩ := by
    intro faults
    show (if cfg.loginEnabled = true ∧ s.authenticationMethod ≠ .email ∧
      s.authenticationMethod ≠ .ldap then fail _ else _ : Service Unit) _ = _
    rw [if_neg hactive]
    rfl
  constructor
  · rw [hrun]
    rfl
  · exact ⟨_, [true], [], hrun [true]⟩

theorem applyGlobalSettings_blocked (h : Blocked cfg s) :
    ∃ e, ∀ faults, applyGlobalSettings cfg ⟨s, faults⟩ = (.error e, ⟨s, faults⟩) := by
  have hactive : cfg.loginEnabled = true ∧ s.authenticationMethod ≠ .email ∧
      s.authenticationMethod ≠ .ldap := by
    rw [h.2]
    exact ⟨h.1, by decide, by decide⟩
  refine ⟨.internalServer ("Cannot enable LDAP while auth method \"" ++
    s.authenticationMethod.text ++ "\" is active"), fun faults => ?_⟩
  show (if cfg.loginEnabled = true ∧ s.authenticationMethod ≠ .email ∧
    s.authenticationMethod ≠ .ldap then fail _ else _ : Service Unit) _ = _
  rw [if_pos hactive]
  rfl

/-- What is stored before the settings are applied everywhere. -/
theorem storeConfig_eq (cipher : Cipher) (salt : ℕ) (cfg : LdapConfig) (s : LdapState) :
    ∃ s₁, s₁.authenticationMethod = s.authenticationMethod ∧
      (s₁.settings = s.settings.map fun _ => saved cipher salt cfg) ∧
      storeConfig cipher salt cfg ⟨s, []⟩ = applyGlobalSettings cfg ⟨s₁, []⟩ ∧
      ∀ {r s'}, Ends (applyGlobalSettings cfg) s₁ r s' →
        Ends (storeConfig cipher salt cfg) s r s' := by
  obtain ⟨s₁, hdisable⟩ := disableSync_run
    { cfg with bindingAdminPassword := cipher.encrypt salt cfg.bindingAdminPassword } s
  obtain ⟨identities, rfl⟩ := leaves_disableSync _ _ _ _ ⟨[], [], hdisable⟩
  have hupdate : (statement .unavailable fun s => .ok { s with
        settings := s.settings.map fun _ => saved cipher salt cfg } : Service Unit)
      ⟨{ s with identities }, []⟩ = (.ok (), ⟨{ s with
        identities, settings := s.settings.map fun _ => saved cipher salt cfg }, []⟩) :=
    statement_run_ok rfl
  refine ⟨{ s with identities, settings := s.settings.map fun _ => saved cipher salt cfg }, rfl, rfl,
    ?_, fun h => ?_⟩
  · rw [storeConfig, run_bind, hdisable]
    exact run_bind _ _ _
  · exact (steady_disableSync _).ends_bind hdisable ((steady_access _ _).ends_bind hupdate h)

theorem storeConfig_run (cipher : Cipher) (salt : ℕ) (h : ¬ Refused cfg s)
    (hblocked : ¬ Blocked cfg s) : (storeConfig cipher salt cfg ⟨s, []⟩).1 = .ok () := by
  obtain ⟨s₁, hmethod, -, hrun, -⟩ := storeConfig_eq cipher salt cfg s
  rw [hrun]
  refine (applyGlobalSettings_run (s := s₁) ?_ ?_).1
  · rwa [Refused, hmethod]
  · rwa [Blocked, hmethod]

theorem storeConfig_blocked (cipher : Cipher) (salt : ℕ) (h : Blocked cfg s) :
    ∃ e s', storeConfig cipher salt cfg ⟨s, []⟩ = (.error e, ⟨s', []⟩) ∧
      s'.settings = s.settings.map fun _ => saved cipher salt cfg := by
  obtain ⟨s₁, hmethod, hsettings, hrun, -⟩ := storeConfig_eq cipher salt cfg s
  have hblocked : Blocked cfg s₁ := by rwa [Blocked, hmethod]
  obtain ⟨e, he⟩ := applyGlobalSettings_blocked hblocked
  exact ⟨e, s₁, hrun.trans (he []), hsettings⟩

/-- It can fail when everything is stored. -/
theorem storeConfig_fails (cipher : Cipher) (salt : ℕ) (h : ¬ Refused cfg s)
    (hblocked : ¬ Blocked cfg s) :
    ∃ faults c, storeConfig cipher salt cfg ⟨s, faults⟩ = (.error .unavailable, c) ∧
      c.data.settings = s.settings.map fun _ => saved cipher salt cfg := by
  obtain ⟨s₁, hmethod, hsettings, -, hends⟩ := storeConfig_eq cipher salt cfg s
  have hrefused : ¬ Refused cfg s₁ := by rwa [Refused, hmethod]
  have hallowed : ¬ Blocked cfg s₁ := by rwa [Blocked, hmethod]
  obtain ⟨-, s', hfault⟩ := applyGlobalSettings_run hrefused hallowed
  obtain ⟨faults, faults', hrun⟩ := hends hfault
  refine ⟨faults, _, hrun, ?_⟩
  have hstores := (leaves_applyGlobalSettings (saved cipher salt cfg) cfg _ _ _ hfault).2.2
  rw [hsettings, Option.map_map] at hstores
  exact hstores.elim id id

/-! ### Saved and running settings -/

/-- What would be loaded from what is stored. -/
def loads (cipher : Cipher) (s : LdapState) : Except LdapError LdapConfig :=
  (fetchConfig cipher ⟨s, []⟩).1

/-- After the call, the settings in memory are those that would be loaded, and the timer runs when
they ask for it; a call that throws has changed none of these. -/
def KeepsInStep (cipher : Cipher) (salt : ℕ) (cfg : LdapConfig) (s : LdapState)
    (faults : List Bool) : Prop :=
  match persistConfig cipher salt cfg ⟨s, faults⟩ with
  | (.ok _, c) => ∃ loaded, loads cipher c.data = .ok loaded ∧ c.data.config = some loaded ∧
      (c.data.periodicSync.isSome = true ↔ loaded.synchronizationEnabled = true)
  | (.error _, c) => loads cipher c.data = loads cipher s ∧ c.data.config = s.config ∧
      c.data.periodicSync = s.periodicSync

theorem loads_eq (cipher : Cipher) (s : LdapState) : loads cipher s =
    match s.settings with
    | none => .error .entityNotFound
    | some row => parseConfig cipher row := by
  cases hrow : s.settings with
  | none => simp [loads, fetchConfig, run_bind, query, Stateful.access, hrow, fail]
  | some row => simp [loads, fetchConfig, run_bind, query, Stateful.access, hrow, lift]

theorem loads_congr (h : s'.settings = s.settings) : loads cipher s' = loads cipher s := by
  rw [loads_eq, loads_eq, h]

theorem parseConfig_saved (hcipher : cipher.decrypt (cipher.encrypt salt cfg.bindingAdminPassword) =
      some cfg.bindingAdminPassword) :
    parseConfig cipher (saved cipher salt cfg) = .ok (reloaded cfg) := by
  show (match cipher.decrypt (cipher.encrypt salt cfg.bindingAdminPassword) with
    | none => .error .malformed
    | some password => .ok _ : Except LdapError LdapConfig) = _
  rw [hcipher]
  rfl

theorem reloaded_eq_iff : reloaded cfg = cfg ↔ cfg.enforceEmailUniqueness.isSome = true ∧
    (cfg.synchronizationEnabled = true → cfg.loginEnabled = true) := by
  constructor
  · intro h
    constructor
    · rw [← congrArg LdapConfig.enforceEmailUniqueness h]
      rfl
    · intro hsync
      have hand : (cfg.loginEnabled && cfg.synchronizationEnabled) = cfg.synchronizationEnabled :=
        congrArg LdapConfig.synchronizationEnabled h
      rw [hsync, Bool.and_true] at hand
      exact hand
  · rintro ⟨hunique, hlogin⟩
    obtain ⟨b, hb⟩ := Option.isSome_iff_exists.mp hunique
    have hand : (cfg.loginEnabled && cfg.synchronizationEnabled) = cfg.synchronizationEnabled := by
      cases hsync : cfg.synchronizationEnabled with
      | false => exact Bool.and_false _
      | true => rw [hlogin hsync, Bool.true_and]
    have hdefault : some (cfg.enforceEmailUniqueness.getD true) = cfg.enforceEmailUniqueness := by
      rw [hb]
      rfl
    rw [reloaded, hand, hdefault]

/-- When the settings in memory and the stored ones agree after a call that returns. -/
theorem agrees_iff (hcipher : cipher.decrypt (cipher.encrypt salt cfg.bindingAdminPassword) =
      some cfg.bindingAdminPassword) (hconfig : s'.config = some cfg)
    (htimer : s'.periodicSync = timer cfg)
    (hsettings : s'.settings = s.settings.map fun _ => saved cipher salt cfg) :
    (∃ loaded, loads cipher s' = .ok loaded ∧ s'.config = some loaded ∧
      (s'.periodicSync.isSome = true ↔ loaded.synchronizationEnabled = true)) ↔
    s.settings.isSome = true ∧ reloaded cfg = cfg := by
  have hruns : (timer cfg).isSome = true ↔ cfg.synchronizationEnabled = true := by
    rw [timer]
    split_ifs with hsync <;> simp [hsync]
  rw [hconfig, htimer]
  cases hrow : s.settings with
  | none =>
    rw [hrow] at hsettings
    rw [loads_eq, hsettings]
    simp
  | some row =>
    have hloads : loads cipher s' = .ok (reloaded cfg) := by
      rw [loads_eq, hsettings, hrow]
      exact parseConfig_saved hcipher
    rw [hloads]
    constructor
    · rintro ⟨loaded, hloaded, hsame, -⟩
      cases hloaded
      exact ⟨rfl, (Option.some.inj hsame).symm⟩
    · rintro ⟨-, hreloaded⟩
      exact ⟨cfg, by rw [hreloaded], rfl, hruns⟩

theorem persistConfig_refused (h : Refused cfg s) :
    persistConfig cipher salt cfg ⟨s, faults⟩ = (.error
      (.badRequest "LDAP cannot be enabled while another SSO method is active"), ⟨s, faults⟩) := by
  show (if cfg.loginEnabled = true ∧ (s.authenticationMethod = .saml ∨
    s.authenticationMethod = .oidc) then fail _ else _ : Service Unit) _ = _
  have hguard : cfg.loginEnabled = true ∧
    (s.authenticationMethod = .saml ∨ s.authenticationMethod = .oidc) := h
  rw [if_pos hguard]
  rfl

theorem persistConfig_run (h : ¬ Refused cfg s) : persistConfig cipher salt cfg ⟨s, faults⟩ =
    (applyConfig cfg >>= fun _ => storeConfig cipher salt cfg) ⟨s, faults⟩ := by
  show (if cfg.loginEnabled = true ∧ (s.authenticationMethod = .saml ∨
    s.authenticationMethod = .oidc) then fail _ else _ : Service Unit) _ = _
  have hguard : ¬ (cfg.loginEnabled = true ∧
    (s.authenticationMethod = .saml ∨ s.authenticationMethod = .oidc)) := h
  rw [if_neg hguard]

theorem keepsInStep_refused (h : Refused cfg s) : KeepsInStep cipher salt cfg s faults := by
  rw [KeepsInStep, persistConfig_refused h]
  exact ⟨rfl, rfl, rfl⟩

theorem keepsInStep_lacksInterval (h : ¬ Refused cfg s) (hlacks : LacksInterval cfg) :
    KeepsInStep cipher salt cfg s faults ↔ s.config = some cfg ∧ s.periodicSync = none := by
  rw [KeepsInStep, persistConfig_run h, run_bind, applyConfig_lacksInterval hlacks]
  constructor
  · rintro ⟨-, hconfig, htimer⟩
    exact ⟨hconfig.symm, htimer.symm⟩
  · rintro ⟨hconfig, htimer⟩
    exact ⟨loads_congr rfl, hconfig.symm, htimer.symm⟩

theorem keepsInStep_stores (h : ¬ Refused cfg s) (hlacks : ¬ LacksInterval cfg) :
    KeepsInStep cipher salt cfg s faults ↔
      match storeConfig cipher salt cfg ⟨applied cfg s, faults⟩ with
      | (.ok _, c) => ∃ loaded, loads cipher c.data = .ok loaded ∧ c.data.config = some loaded ∧
          (c.data.periodicSync.isSome = true ↔ loaded.synchronizationEnabled = true)
      | (.error _, c) => loads cipher c.data = loads cipher s ∧ c.data.config = s.config ∧
          c.data.periodicSync = s.periodicSync := by
  rw [KeepsInStep, persistConfig_run h, run_bind, applyConfig_run hlacks]

/-- What a call that returns needs. -/
theorem keepsInStep_ok {u : Unit} (h : ¬ Refused cfg s) (hlacks : ¬ LacksInterval cfg)
    (hcipher : cipher.decrypt (cipher.encrypt salt cfg.bindingAdminPassword) =
      some cfg.bindingAdminPassword)
    (hrun : storeConfig cipher salt cfg ⟨applied cfg s, faults⟩ = (.ok u, c)) :
    KeepsInStep cipher salt cfg s faults ↔ s.settings.isSome = true ∧ reloaded cfg = cfg := by
  have hends : Ends (storeConfig cipher salt cfg) (applied cfg s) (.ok u) c.data :=
    ⟨faults, c.faults, hrun⟩
  have hstores := leaves_storeConfig cipher salt cfg _ _ _ hends
  have hsettings := storeConfig_ok hends
  rw [keepsInStep_stores h hlacks, hrun]
  exact agrees_iff hcipher hstores.1 hstores.2.1 hsettings

/-- The settings in memory, the timer and what is loaded are what the call makes them. -/
def AsBefore (cipher : Cipher) (cfg : LdapConfig) (s : LdapState) : Prop :=
  s.config = some cfg ∧ s.periodicSync = timer cfg ∧
    (s.settings.isSome = true → loads cipher s = .ok (reloaded cfg))

theorem loads_of_map (hcipher : cipher.decrypt (cipher.encrypt salt cfg.bindingAdminPassword) =
      some cfg.bindingAdminPassword)
    (hsettings : s'.settings = s.settings.map fun _ => saved cipher salt cfg) :
    loads cipher s' = loads cipher s ↔
      (s.settings.isSome = true → loads cipher s = .ok (reloaded cfg)) := by
  cases hrow : s.settings with
  | none =>
    refine iff_of_true (loads_congr ?_) fun h => by cases h
    rw [hsettings, hrow]
    rfl
  | some row =>
    have hloads : loads cipher s' = .ok (reloaded cfg) := by
      rw [loads_eq, hsettings, hrow]
      exact parseConfig_saved hcipher
    rw [hloads]
    exact ⟨fun h _ => h.symm, fun h => (h rfl).symm⟩

/-- A call that throws when everything is stored. -/
theorem asBefore_of_fails {e : LdapError} (h : ¬ Refused cfg s) (hlacks : ¬ LacksInterval cfg)
    (hcipher : cipher.decrypt (cipher.encrypt salt cfg.bindingAdminPassword) =
      some cfg.bindingAdminPassword)
    (hrun : storeConfig cipher salt cfg ⟨applied cfg s, faults⟩ = (.error e, c))
    (hsettings : c.data.settings = s.settings.map fun _ => saved cipher salt cfg)
    (hsame : KeepsInStep cipher salt cfg s faults) : AsBefore cipher cfg s := by
  have hstores := leaves_storeConfig cipher salt cfg _ _ _ ⟨faults, c.faults, hrun⟩
  rw [keepsInStep_stores h hlacks, hrun] at hsame
  obtain ⟨hloads, hconfig, htimer⟩ := hsame
  exact ⟨hconfig.symm.trans hstores.1, htimer.symm.trans hstores.2.1,
    (loads_of_map hcipher hsettings).mp hloads⟩

/-- A call that throws at any point. -/
theorem AsBefore.keepsInStep {e : LdapError} (h : ¬ Refused cfg s) (hlacks : ¬ LacksInterval cfg)
    (hcipher : cipher.decrypt (cipher.encrypt salt cfg.bindingAdminPassword) =
      some cfg.bindingAdminPassword) (hbefore : AsBefore cipher cfg s)
    (hrun : storeConfig cipher salt cfg ⟨applied cfg s, faults⟩ = (.error e, c)) :
    KeepsInStep cipher salt cfg s faults := by
  have hstores := leaves_storeConfig cipher salt cfg _ _ _ ⟨faults, c.faults, hrun⟩
  rw [keepsInStep_stores h hlacks, hrun]
  refine ⟨?_, hstores.1.trans hbefore.1.symm, hstores.2.1.trans hbefore.2.1.symm⟩
  rcases hstores.2.2 with hsame | hsame
  · exact loads_congr hsame
  · exact (loads_of_map (s := s) hcipher hsame).mpr hbefore.2.2

/-- What a blocked call needs. -/
theorem keepsInStep_blocked (h : ¬ Refused cfg s) (hlacks : ¬ LacksInterval cfg)
    (hblocked : Blocked cfg s)
    (hcipher : cipher.decrypt (cipher.encrypt salt cfg.bindingAdminPassword) =
      some cfg.bindingAdminPassword) :
    (KeepsInStep cipher salt cfg s [] ↔ AsBefore cipher cfg s) ∧
      (AsBefore cipher cfg s → ∀ faults, KeepsInStep cipher salt cfg s faults) := by
  obtain ⟨e, s', hrun, hsettings⟩ := storeConfig_blocked cipher salt (s := applied cfg s) hblocked
  refine ⟨⟨fun hsame => ?_, fun hbefore => ?_⟩, fun hbefore faults => ?_⟩
  · exact asBefore_of_fails h hlacks hcipher hrun hsettings hsame
  · exact hbefore.keepsInStep h hlacks hcipher hrun
  · match hfaults : storeConfig cipher salt cfg ⟨applied cfg s, faults⟩ with
    | (.ok u, c) =>
      have hok := (steady_storeConfig cipher salt cfg).ends_ok_iff.mp ⟨faults, c.faults, hfaults⟩
      rw [hrun] at hok
      cases hok
    | (.error e, c) => exact hbefore.keepsInStep h hlacks hcipher hfaults

/-- **When saved and running settings agree**: without a failing access, and whichever fail. -/
theorem keepsInStep_iff (cipher : Cipher) (salt : ℕ) (cfg : LdapConfig) (s : LdapState)
    (hcipher : cipher.decrypt (cipher.encrypt salt cfg.bindingAdminPassword) =
      some cfg.bindingAdminPassword) :
    (KeepsInStep cipher salt cfg s [] ↔ Refused cfg s ∨
      (LacksInterval cfg ∧ s.config = some cfg ∧ s.periodicSync = none) ∨
      (¬ LacksInterval cfg ∧ Blocked cfg s ∧ AsBefore cipher cfg s) ∨
      (¬ LacksInterval cfg ∧ ¬ Blocked cfg s ∧ s.settings.isSome = true ∧
        cfg.enforceEmailUniqueness.isSome = true ∧
        (cfg.synchronizationEnabled = true → cfg.loginEnabled = true))) ∧
    ((∀ faults, KeepsInStep cipher salt cfg s faults) ↔ Refused cfg s ∨
      (LacksInterval cfg ∧ s.config = some cfg ∧ s.periodicSync = none) ∨
      (¬ LacksInterval cfg ∧ AsBefore cipher cfg s ∧ (¬ Blocked cfg s →
        s.settings.isSome = true ∧ cfg.enforceEmailUniqueness.isSome = true ∧
        (cfg.synchronizationEnabled = true → cfg.loginEnabled = true)))) := by
  by_cases hrefused : Refused cfg s
  · exact ⟨iff_of_true (keepsInStep_refused hrefused) (Or.inl hrefused),
      iff_of_true (fun _ => keepsInStep_refused hrefused) (Or.inl hrefused)⟩
  by_cases hlacks : LacksInterval cfg
  · simp only [keepsInStep_lacksInterval hrefused hlacks, hrefused, hlacks, not_true_eq_false,
      false_and, or_false, false_or, true_and, forall_const, and_self]
  simp only [hrefused, hlacks, not_false_eq_true, true_and, false_and, false_or, ← reloaded_eq_iff]
  by_cases hblocked : Blocked cfg s
  · obtain ⟨hanswered, hfaults⟩ := keepsInStep_blocked hrefused hlacks hblocked hcipher
    simp only [hblocked, not_true_eq_false, true_and, false_and, or_false, false_implies, and_true]
    exact ⟨hanswered, fun h => hanswered.mp (h []), hfaults⟩
  · simp only [hblocked, not_false_eq_true, true_and, false_and, false_or, true_implies]
    have hok := storeConfig_run cipher salt (s := applied cfg s) hrefused hblocked
    have hanswered : KeepsInStep cipher salt cfg s [] ↔
        s.settings.isSome = true ∧ reloaded cfg = cfg :=
      keepsInStep_ok hrefused hlacks hcipher (Prod.ext hok rfl)
    obtain ⟨faults, c, hfails, hsettings⟩ :=
      storeConfig_fails cipher salt (s := applied cfg s) hrefused hblocked
    refine ⟨hanswered, fun h => ⟨?_, hanswered.mp (h [])⟩, ?_⟩
    · exact asBefore_of_fails hrefused hlacks hcipher hfails hsettings (h faults)
    · rintro ⟨hbefore, hagrees⟩ faults
      match hrun : storeConfig cipher salt cfg ⟨applied cfg s, faults⟩ with
      | (.ok u, c) => exact (keepsInStep_ok hrefused hlacks hcipher hrun).mpr hagrees
      | (.error e, c) => exact hbefore.keepsInStep hrefused hlacks hcipher hrun

/-- A configuration that asks for synchronisation without login. -/
def unsynchronized : LdapConfig where
  synchronizationEnabled := true
  enforceEmailUniqueness := some true

/-- A cipher that puts the salt in front. -/
def salting : Cipher where
  encrypt salt text := String.ofList (Char.ofNat salt :: text.toList)
  decrypt text := some (String.ofList text.toList.tail)

/-- Without login nothing is synchronised after a restart, but until then. -/
theorem persistConfig_keeps_timer :
    ¬ KeepsInStep salting 7 unsynchronized { settings := some unsynchronized } [] := by
  rintro ⟨loaded, hloaded, hconfig, -⟩
  cases hconfig
  revert hloaded
  decide

/-- A configuration with login and synchronisation. -/
def synchronized : LdapConfig where
  loginEnabled := true
  synchronizationEnabled := true
  enforceEmailUniqueness := some true

/-- Saving again what is saved and running is in step also when the second access fails. -/
theorem keepsInStep_iff_again : KeepsInStep salting 7 synchronized
    { config := some synchronized
      periodicSync := timer synchronized
      settings := some (saved salting 7 synchronized) } [false, true] := by
  refine (keepsInStep_iff salting 7 synchronized _ (by decide)).2.mpr (Or.inr (Or.inr ?_)) _
  have hbefore : AsBefore salting synchronized
      { config := some synchronized
        periodicSync := timer synchronized
        settings := some (saved salting 7 synchronized) } := ⟨rfl, rfl, fun _ => (by decide)⟩
  refine ⟨fun h => absurd h.2 ?_, hbefore, fun _ => ⟨rfl, rfl, fun _ => rfl⟩⟩
  show ¬ (60 : ℚ) = 0
  decide

end Ldap

end N8n
