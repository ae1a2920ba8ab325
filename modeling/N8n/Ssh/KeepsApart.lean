import N8n.Lib.Lts
import N8n.Ssh.ClientsManager

/-!
# What an event of one SSH client does to the others

* `Concerns`: the clients that an event belongs to; `Undisturbed`: it ends, deregisters and aborts
  nothing of others; `NoneFailed`: no client is registered whose connection attempt failed;
* `Meets`: what is registered under the keys that an event cleans up belongs to its clients;
* `Cleaned`: what a clean-up does, with all the signals it sets off;
* `keepsApart_iff`: the property holds exactly if every event meets this.
-/

namespace N8n

namespace Ssh

open SSHClientsManager

universe u

variable {κ : Type u} [DecidableEq κ]

/-! ### The property and the condition -/

namespace SSHClientsManager

variable (s : SSHClientsManager κ)

/-- The controller that `getClient` used for a client. -/
def controllerOf (client : ℕ) : Option AbortController :=
  s.made[client]?.map (·.abortController)

/-- The clients that an event belongs to.  A signal belongs to the clients that were made with it, a
stale clean-up to those of the signals of stale registrations. -/
def Concerns (config : SSHClientsConfig) : Event → ℕ → Prop
  | .emits client _, x => x = client
  | .abort id, x => s.controllerOf x = some (.ofCaller id)
  | .cleanupStaleConnections now, x => ∃ key r, s.clients.get? key = some r ∧
      r.isStale config now = true ∧ s.controllerOf x = some r.abortController
  | .onShutdown, _ => True
  | _, _ => False

/-- No client is registered whose connection attempt failed. -/
def NoneFailed : Prop :=
  ∀ key r, s.clients.get? key = some r → s.failed r.client = false

/-- Whatever a signal, if it is not set yet, would clean up satisfies `P`. -/
def Reaches (abortController : AbortController) (P : Registration → Prop) : Prop :=
  s.aborted abortController = false → ∀ key ∈ s.listeners abortController,
    ∀ r, s.clients.get? key = some r → P r

end SSHClientsManager

section Events

variable (config : SSHClientsConfig) (createHash : ConnectConfig → κ)

/-- An event ends no client, takes away no registration and aborts no controller but those of the
clients it belongs to. -/
structure Undisturbed (s : SSHClientsManager κ) (event : Event) : Prop where
  ended : ∀ x, (step config createHash s event).ended x = true →
    s.ended x = true ∨ s.Concerns config event x
  registered : ∀ key r, s.clients.get? key = some r → ¬ s.Concerns config event r.client →
    ∃ r', (step config createHash s event).clients.get? key = some r' ∧ r'.client = r.client
  aborted : ∀ c, (step config createHash s event).aborted c = true →
    s.aborted c = true ∨ (∃ id, event = .abort id ∧ c = .ofCaller id) ∨
      ∃ x, s.Concerns config event x ∧ s.controllerOf x = some c

/-- `connect` does not throw, and what is registered under the keys that an event cleans up, for
itself and by the signals it sets off, belongs to the clients of the event. -/
def Meets (s : SSHClientsManager κ) : Event → Prop
  | .getClient credentials _ _ connectThrows =>
    connectThrows = true → (s.clients.get? (createHash (sshConfig credentials))).isSome
  | .emits client _ => ∀ key c, s.made[client]? = some ⟨key, c⟩ →
      ∀ r, s.clients.get? key = some r →
        r.client = client ∧ s.Reaches c fun r' => r'.client = client
  | .abort id => s.Reaches (.ofCaller id) fun r => r.abortController = .ofCaller id
  | .cleanupStaleConnections now => ∀ key r, s.clients.get? key = some r →
      r.isStale config now = true → s.Reaches r.abortController fun r' =>
        ∃ key' r'', s.clients.get? key' = some r'' ∧ r''.isStale config now = true ∧
          r'.abortController = r''.abortController
  | _ => True

end Events

namespace SSHClientsManager

variable {s s' : SSHClientsManager κ}

/-! ### Clean-ups -/

/-- A registration was taken away. -/
def Removed (s s' : SSHClientsManager κ) (key : κ) (r : Registration) : Prop :=
  s.clients.get? key = some r ∧ s'.clients.get? key = none

/-- What a clean-up does: it takes registrations away, ends their clients and sets their signals. -/
structure Cleaned (s s' : SSHClientsManager κ) : Prop where
  made : s'.made = s.made
  clients : ∀ key r, s'.clients.get? key = some r → s.clients.get? key = some r
  ended : ∀ x, s'.ended x = true ↔
    s.ended x = true ∨ ∃ key r, Removed s s' key r ∧ r.client = x
  aborted : ∀ c, s'.aborted c = true ↔
    s.aborted c = true ∨ ∃ key r, Removed s s' key r ∧ r.abortController = c

theorem Cleaned.refl (s : SSHClientsManager κ) : Cleaned s s := by
  have hno : ∀ key r, ¬ Removed s s key r := by
    rintro key r ⟨hsome, hnone⟩
    rw [hnone] at hsome
    cases hsome
  refine ⟨rfl, fun _ _ h => h, fun x => ?_, fun c => ?_⟩
  · exact ⟨Or.inl, fun h => h.resolve_right fun ⟨key, r, h, _⟩ => hno key r h⟩
  · exact ⟨Or.inl, fun h => h.resolve_right fun ⟨key, r, h, _⟩ => hno key r h⟩

variable {key : κ} {r : Registration}

theorem Cleaned.removed_or {s'' : SSHClientsManager κ} (h : Cleaned s s') (h' : Cleaned s' s'') :
    Removed s s'' key r ↔ Removed s s' key r ∨ Removed s' s'' key r := by
  constructor
  · rintro ⟨hsome, hnone⟩
    cases hmid : s'.clients.get? key with
    | none => exact Or.inl ⟨hsome, hmid⟩
    | some r' =>
      rw [h.clients key r' hmid] at hsome
      cases hsome
      exact Or.inr ⟨hmid, hnone⟩
  · rintro (⟨hsome, hnone⟩ | ⟨hsome, hnone⟩)
    · refine ⟨hsome, ?_⟩
      cases hlast : s''.clients.get? key with
      | none => rfl
      | some r' =>
        rw [h'.clients key r' hlast] at hnone
        cases hnone
    · exact ⟨h.clients key r hsome, hnone⟩

theorem Cleaned.trans {s'' : SSHClientsManager κ} (h : Cleaned s s') (h' : Cleaned s' s'') :
    Cleaned s s'' := by
  refine ⟨h'.made.trans h.made, fun key r hr => h.clients key r (h'.clients key r hr),
    fun x => ?_, fun c => ?_⟩
  · simp only [h'.ended, h.ended, h.removed_or h', or_and_right, exists_or, or_assoc]
  · simp only [h'.aborted, h.aborted, h.removed_or h', or_and_right, exists_or, or_assoc]

theorem removed_erase_iff {key' : κ} {r' : Registration} (hr : s.clients.get? key = some r)
    (hs' : s'.clients = s.clients.erase key) : Removed s s' key' r' ↔ key' = key ∧ r' = r := by
  rw [Removed, hs', Dict.get?_erase]
  by_cases hkey : key' = key
  · subst hkey
    simp [hr, eq_comm]
  · simp only [hkey, if_false, false_and, iff_false, not_and]
    intro hsome hnone
    rw [hnone] at hsome
    cases hsome

/-- One registration is deleted, and its controller aborted. -/
theorem cleaned_endClient (hr : s.clients.get? key = some r)
    (hs' : s' = s.endClient key r ∧ s.aborted r.abortController = true ∨
      s' = (s.endClient key r).signal r.abortController) : Cleaned s s' := by
  have hclients : s'.clients = s.clients.erase key := by
    rcases hs' with ⟨rfl, -⟩ | rfl <;> rfl
  have hremoved : ∀ key' r', Removed s s' key' r' ↔ key' = key ∧ r' = r := fun key' r' =>
    removed_erase_iff hr hclients
  have hended : s'.ended = Function.update s.ended r.client true := by
    rcases hs' with ⟨rfl, -⟩ | rfl <;> rfl
  have haborted : s'.aborted = Function.update s.aborted r.abortController true := by
    rcases hs' with ⟨rfl, hset⟩ | rfl
    · rw [← hset, Function.update_eq_self]
      rfl
    · rfl
  refine ⟨?_, fun key' r' hr' => ?_, fun x => ?_, fun c => ?_⟩
  · rcases hs' with ⟨rfl, -⟩ | rfl <;> rfl
  · rw [hclients, Dict.get?_erase] at hr'
    split at hr'
    · cases hr'
    · exact hr'
  · simp only [hremoved, and_assoc, exists_and_left, exists_eq_left, hended, Function.update_apply]
    split_ifs with hx
    · simp [hx]
    · simp [Ne.symm hx]
  · simp only [hremoved, and_assoc, exists_and_left, exists_eq_left, haborted,
      Function.update_apply]
    split_ifs with hc
    · simp [hc]
    · simp [Ne.symm hc]

/-- What the clean-up of some keys does: nothing is left under them, nor under the keys that listen
to a signal it set. -/
structure CleansUp (s s' : SSHClientsManager κ) (keys : List κ) : Prop extends Cleaned s s' where
  keys : ∀ key ∈ keys, s'.clients.get? key = none
  heard : ∀ c, s'.aborted c = true → s.aborted c = false → ∀ key ∈ s.listeners c,
    s'.clients.get? key = none

theorem Cleaned.get?_eq_none (h : Cleaned s s') (hkey : s.clients.get? key = none) :
    s'.clients.get? key = none := by
  cases hlast : s'.clients.get? key with
  | none => rfl
  | some r =>
    rw [h.clients key r hlast] at hkey
    cases hkey

theorem cleanupClients_cons_of_none (h : s.clients.get? key = none) (keys : List κ) :
    s.cleanupClients (key :: keys) = s.cleanupClients keys := by
  rw [cleanupClients]
  split
  · rfl
  · simp_all

theorem cleanupClients_cons_of_some (h : s.clients.get? key = some r) (keys : List κ) :
    s.cleanupClients (key :: keys) =
      if s.aborted r.abortController then (s.endClient key r).cleanupClients keys
      else ((s.endClient key r).signal r.abortController).cleanupClients
        (s.listeners r.abortController ++ keys) := by
  rw [cleanupClients]
  split
  · simp_all
  · simp_all

/-- The clean-up of a client that has its controller for itself. -/
theorem cleanupClient_of_listeners (hr : s.clients.get? key = some r)
    (hunset : s.aborted r.abortController = false)
    (hlisteners : s.listeners r.abortController = [key]) :
    s.cleanupClient key = (s.endClient key r).signal r.abortController := by
  rw [cleanupClient, cleanupClients_cons_of_some hr, if_neg (by simp [hunset]), hlisteners,
    List.append_nil, cleanupClients_cons_of_none (Dict.get?_erase_self _ _), cleanupClients]

theorem cleansUp_cleanupClients (s : SSHClientsManager κ) (keys : List κ) :
    CleansUp s (s.cleanupClients keys) keys := by
  induction s, keys using cleanupClients.induct with
  | case1 s =>
    rw [cleanupClients]
    refine ⟨Cleaned.refl s, fun _ hmem => absurd hmem List.not_mem_nil, fun c hset hunset => ?_⟩
    rw [hset] at hunset
    cases hunset
  | case2 s key keys hnone ih =>
    rw [cleanupClients_cons_of_none hnone]
    refine ⟨ih.toCleaned, ?_, ih.heard⟩
    rintro key' (_ | ⟨_, hmem⟩)
    · exact ih.get?_eq_none hnone
    · exact ih.keys key' hmem
  | case3 s key keys r hr hset ih =>
    have hone := cleaned_endClient hr (Or.inl ⟨rfl, hset⟩)
    rw [cleanupClients_cons_of_some hr, if_pos hset]
    refine ⟨hone.trans ih.toCleaned, ?_, ih.heard⟩
    rintro key' (_ | ⟨_, hmem⟩)
    · exact ih.get?_eq_none (Dict.get?_erase_self _ _)
    · exact ih.keys key' hmem
  | case4 s key keys r hr hunset ih =>
    have hone := cleaned_endClient hr (Or.inr rfl)
    rw [cleanupClients_cons_of_some hr, if_neg hunset]
    refine ⟨hone.trans ih.toCleaned, ?_, fun c hc hcunset key' hkey' => ?_⟩
    · rintro key' (_ | ⟨_, hmem⟩)
      · exact ih.get?_eq_none (Dict.get?_erase_self _ _)
      · exact ih.keys key' (List.mem_append_right _ hmem)
    · by_cases hcr : c = r.abortController
      · exact ih.keys key' (List.mem_append_left _ (hcr ▸ hkey'))
      · refine ih.heard c hc ?_ key' hkey'
        exact (Function.update_of_ne hcr _ _).trans hcunset

theorem Reaches.of_cleaned (h : Cleaned s s') {c : AbortController} {P : Registration → Prop}
    (hc : s.Reaches c P) : s'.Reaches c P := by
  intro hunset key hkey r hr
  rw [listeners, h.made] at hkey
  refine hc ?_ key hkey r (h.clients key r hr)
  rw [← Bool.not_eq_true] at hunset ⊢
  exact fun hset => hunset ((h.aborted c).2 (Or.inl hset))

/-- **What a clean-up takes away**: if the keys, and what is heard of the signals, lead to
registrations that satisfy `P` only, these. -/
theorem Removed.of_cleanupClients {P : Registration → Prop} (s : SSHClientsManager κ)
    (keys : List κ) (hkeys : ∀ key ∈ keys, ∀ r, s.clients.get? key = some r → P r)
    (hreaches : ∀ key r, s.clients.get? key = some r → P r → s.Reaches r.abortController P)
    (h : Removed s (s.cleanupClients keys) key r) : P r := by
  induction s, keys using cleanupClients.induct with
  | case1 s =>
    obtain ⟨hsome, hnone⟩ := h
    rw [cleanupClients, hsome] at hnone
    cases hnone
  | case2 s key' keys hnone ih =>
    rw [cleanupClients_cons_of_none hnone] at h
    exact ih (fun k hk => hkeys k (List.mem_cons_of_mem _ hk)) hreaches h
  | case3 s key' keys r' hr' hset ih =>
    have hone := cleaned_endClient hr' (Or.inl ⟨rfl, hset⟩)
    rw [cleanupClients_cons_of_some hr', if_pos hset,
      hone.removed_or (cleansUp_cleanupClients _ _).toCleaned] at h
    rcases h with h | h
    · obtain ⟨rfl, rfl⟩ := (removed_erase_iff hr' rfl).1 h
      exact hkeys _ List.mem_cons_self _ hr'
    · refine ih ?_ ?_ h
      · exact fun k hk r hr => hkeys k (List.mem_cons_of_mem _ hk) r (hone.clients k r hr)
      · exact fun k r hr hP => (hreaches k r (hone.clients k r hr) hP).of_cleaned hone
  | case4 s key' keys r' hr' hunset ih =>
    have hone := cleaned_endClient hr' (Or.inr rfl)
    have hP := hkeys _ List.mem_cons_self _ hr'
    rw [cleanupClients_cons_of_some hr', if_neg hunset,
      hone.removed_or (cleansUp_cleanupClients _ _).toCleaned] at h
    rcases h with h | h
    · obtain ⟨rfl, rfl⟩ := (removed_erase_iff hr' rfl).1 h
      exact hP
    · refine ih ?_ ?_ h
      · intro k hk r hr
        rcases List.mem_append.1 hk with hk | hk
        · exact hreaches _ _ hr' hP (by simpa using hunset) k hk r
            (hone.clients k r hr)
        · exact hkeys k (List.mem_cons_of_mem _ hk) r (hone.clients k r hr)
      · exact fun k r hr hP => (hreaches k r (hone.clients k r hr) hP).of_cleaned hone

/-! ### Reachable states -/

/-- A registration goes with the handlers of its client. -/
def Sound (s : SSHClientsManager κ) : Prop :=
  ∀ key r, s.clients.get? key = some r → s.made[r.client]? = some ⟨key, r.abortController⟩

theorem Sound.of_cleaned (h : s.Sound) (hclean : Cleaned s s') : s'.Sound := by
  intro key r hr
  rw [hclean.made]
  exact h key r (hclean.clients key r hr)

theorem Sound.controllerOf (h : s.Sound) (hr : s.clients.get? key = some r) :
    s.controllerOf r.client = some r.abortController := by
  rw [SSHClientsManager.controllerOf, h key r hr]
  rfl

theorem Sound.set_lastUsed (h : s.Sound) (hr : s.clients.get? key = some r) (now : ℕ) :
    Sound { s with clients := s.clients.set key { r with lastUsed := now } } := by
  intro key' r' hr'
  rw [Dict.get?_set] at hr'
  split at hr'
  · rename_i heq
    cases hr'
    subst heq
    exact h key' r hr
  · exact h key' r' hr'

theorem Sound.getClient (h : s.Sound) (createHash : ConnectConfig → κ)
    (credentials : SSHCredentials) (abortController : Option ℕ) (now : ℕ) (connectThrows : Bool) :
    (s.getClient createHash credentials abortController now connectThrows).Sound := by
  rw [SSHClientsManager.getClient]
  split
  · rename_i existing hexisting
    exact h.set_lastUsed hexisting now
  · intro key r hr
    rw [Dict.get?_set] at hr
    split at hr
    · rename_i heq
      cases hr
      simp [heq]
    · have hmade := h key r hr
      rw [List.getElem?_append_left (List.getElem?_eq_some_iff.1 hmade).1, hmade]

theorem Sound.updateLastUsed (h : s.Sound) (client now : ℕ) :
    (s.updateLastUsed client now).Sound := by
  rw [SSHClientsManager.updateLastUsed]
  split
  · exact h
  · split
    · exact h
    · rename_i hr
      exact h.set_lastUsed hr now

end SSHClientsManager

section Steps

variable {config : SSHClientsConfig} {createHash : ConnectConfig → κ} {s : SSHClientsManager κ}

theorem sound_step (h : s.Sound) (event : Event) : (step config createHash s event).Sound := by
  cases event with
  | getClient credentials abortController now connectThrows =>
    exact h.getClient createHash credentials abortController now connectThrows
  | ready client => exact h
  | emits client event =>
    rw [step, emits]
    split
    · exact h
    · rename_i key _ _
      have hcleanup : Sound (s.cleanupClient key) :=
        h.of_cleaned (cleansUp_cleanupClients s [key]).toCleaned
      exact hcleanup
  | abort id =>
    rw [step, SSHClientsManager.abort]
    split
    · exact h
    · have hset : Sound (s.signal (.ofCaller id)) := h
      exact hset.of_cleaned (cleansUp_cleanupClients _ _).toCleaned
  | updateLastUsed client now => exact h.updateLastUsed client now
  | cleanupStaleConnections now => exact h.of_cleaned (cleansUp_cleanupClients s _).toCleaned
  | onShutdown => exact h.of_cleaned (cleansUp_cleanupClients s _).toCleaned

/-! ### One event -/

/-- An event that cleans up, after a signal that was set for it, is to take away the registrations
of its clients only. -/
theorem undisturbed_iff_of_cleaned {event : Event} {s₀ : SSHClientsManager κ} (h : s.Sound)
    (hclean : Cleaned s₀ (step config createHash s event)) (hclients : s₀.clients = s.clients)
    (hended : s₀.ended = s.ended) (haborted : ∀ c, s₀.aborted c = true →
      s.aborted c = true ∨ ∃ id, event = .abort id ∧ c = .ofCaller id) :
    Undisturbed config createHash s event ↔
      ∀ key r, Removed s₀ (step config createHash s event) key r →
        s.Concerns config event r.client := by
  simp only [Removed, hclients]
  constructor
  · intro hundisturbed key r hremoved
    by_contra hnot
    obtain ⟨r', hr', -⟩ := hundisturbed.registered key r hremoved.1 hnot
    rw [hremoved.2] at hr'
    cases hr'
  · intro hremoved
    refine ⟨fun x hx => ?_, fun key r hr hnot => ?_, fun c hc => ?_⟩
    · have hx := (hclean.ended x).1 hx
      simp only [Removed, hclients, hended] at hx
      refine hx.imp_right ?_
      rintro ⟨key, r, hrem, rfl⟩
      exact hremoved key r hrem
    · cases hlast : (step config createHash s event).clients.get? key with
      | none => exact absurd (hremoved key r ⟨hr, hlast⟩) hnot
      | some r' =>
        have hr' := hclean.clients key r' hlast
        rw [hclients, hr] at hr'
        exact ⟨r', rfl, by cases hr'; rfl⟩
    · have hc := (hclean.aborted c).1 hc
      simp only [Removed, hclients] at hc
      rcases hc with hc | ⟨key, r, hrem, rfl⟩
      · exact (haborted c hc).imp_right Or.inl
      · exact Or.inr (Or.inr ⟨r.client, hremoved key r hrem, h.controllerOf hrem.1⟩)

/-- An event that leaves the clients with their registrations alone. -/
theorem undisturbed_of_same {event : Event}
    (hended : (step config createHash s event).ended = s.ended)
    (haborted : (step config createHash s event).aborted = s.aborted)
    (hregistered : ∀ key r, s.clients.get? key = some r → ∃ r',
      (step config createHash s event).clients.get? key = some r' ∧ r'.client = r.client) :
    Undisturbed config createHash s event := by
  refine ⟨fun x hx => Or.inl ?_, fun key r hr _ => hregistered key r hr, fun c hc => Or.inl ?_⟩
  · rwa [hended] at hx
  · rwa [haborted] at hc

theorem exists_get?_set_lastUsed {key : κ} {r : Registration} (hr : s.clients.get? key = some r)
    (now : ℕ) {key' : κ} {r' : Registration} (hr' : s.clients.get? key' = some r') :
    ∃ r'', (s.clients.set key { r with lastUsed := now }).get? key' = some r'' ∧
      r''.client = r'.client := by
  rw [Dict.get?_set]
  split
  · rename_i heq
    subst heq
    rw [hr] at hr'
    cases hr'
    exact ⟨_, rfl, rfl⟩
  · exact ⟨r', hr', rfl⟩

theorem undisturbed_getClient (credentials : SSHCredentials) (abortController : Option ℕ)
    (now : ℕ) (connectThrows : Bool) :
    Undisturbed config createHash s (.getClient credentials abortController now connectThrows) := by
  have hstep : step config createHash s (.getClient credentials abortController now connectThrows) =
      s.getClient createHash credentials abortController now connectThrows := rfl
  rw [SSHClientsManager.getClient] at hstep
  split at hstep
  · rename_i existing hexisting
    refine undisturbed_of_same (by rw [hstep]) (by rw [hstep]) fun key r hr => ?_
    rw [hstep]
    exact exists_get?_set_lastUsed hexisting now hr
  · rename_i hnone
    refine undisturbed_of_same (by rw [hstep]) (by rw [hstep]) fun key r hr => ?_
    rw [hstep]
    refine ⟨r, ?_, rfl⟩
    rw [Dict.get?_set_ne _ _ ?_, hr]
    rintro rfl
    rw [hnone] at hr
    cases hr

theorem undisturbed_updateLastUsed (client now : ℕ) :
    Undisturbed config createHash s (.updateLastUsed client now) := by
  have hstep : step config createHash s (.updateLastUsed client now) =
      s.updateLastUsed client now := rfl
  rw [SSHClientsManager.updateLastUsed] at hstep
  split at hstep
  · exact undisturbed_of_same (by rw [hstep]) (by rw [hstep]) fun key r hr =>
      ⟨r, by rw [hstep, hr], rfl⟩
  · split at hstep
    · exact undisturbed_of_same (by rw [hstep]) (by rw [hstep]) fun key r hr =>
        ⟨r, by rw [hstep, hr], rfl⟩
    · rename_i hr₀
      refine undisturbed_of_same (by rw [hstep]) (by rw [hstep]) fun key r hr => ?_
      rw [hstep]
      exact exists_get?_set_lastUsed hr₀ now hr

/-- An event of a client leaves the others alone exactly if nothing of them is found under its key,
nor by the signal of its controller. -/
theorem undisturbed_emits_iff (h : s.Sound) (client : ℕ) (event : FailureEvent) :
    Undisturbed config createHash s (.emits client event) ↔
      Meets config createHash s (.emits client event) := by
  have hstep : step config createHash s (.emits client event) = s.emits client := rfl
  cases hmade : s.made[client]? with
  | none =>
    rw [SSHClientsManager.emits, hmade] at hstep
    refine iff_of_true ?_ fun key c hkey => ?_
    · exact undisturbed_of_same (by rw [hstep]) (by rw [hstep]) fun key r hr =>
        ⟨r, by rw [hstep, hr], rfl⟩
    · rw [hmade] at hkey
      cases hkey
  | some made =>
    obtain ⟨key, c⟩ := made
    rw [SSHClientsManager.emits, hmade] at hstep
    have hups := cleansUp_cleanupClients s [key]
    have hclean : Cleaned s (step config createHash s (.emits client event)) := by
      rw [hstep]
      exact ⟨hups.made, hups.clients, hups.ended, hups.aborted⟩
    have hown : ∀ key' r, s.clients.get? key' = some r → r.client = client →
        key' = key ∧ r.abortController = c := by
      rintro key' r hr rfl
      have hr := h key' r hr
      rw [hmade] at hr
      cases hr
      exact ⟨rfl, rfl⟩
    rw [undisturbed_iff_of_cleaned h hclean rfl rfl fun _ => Or.inl, hstep]
    constructor
    · intro hremoved key' c' hmade' r hr
      rw [hmade] at hmade'
      cases hmade'
      have hrem : Removed s (s.cleanupClients [key]) key r :=
        ⟨hr, hups.keys key List.mem_cons_self⟩
      have hclient : r.client = client := hremoved key r hrem
      obtain ⟨-, rfl⟩ := hown key r hr hclient
      refine ⟨hclient, fun hunset key' hkey' r' hr' => hremoved key' r' ⟨hr', ?_⟩⟩
      refine hups.heard _ ((hups.aborted _).2 (Or.inr ⟨key, r, hrem, rfl⟩)) hunset key' hkey'
    · intro hmeets key' r hrem
      refine Removed.of_cleanupClients (P := fun r => r.client = client) s [key] ?_ ?_ hrem
      · rintro key₁ hkey₁ r₁ hr₁
        obtain rfl := List.mem_singleton.1 hkey₁
        exact (hmeets key₁ c hmade r₁ hr₁).1
      · intro key₁ r₁ hr₁ hclient
        obtain ⟨rfl, rfl⟩ := hown key₁ r₁ hr₁ hclient
        exact (hmeets key₁ _ hmade r₁ hr₁).2

theorem undisturbed_abort_iff (h : s.Sound) (id : ℕ) :
    Undisturbed config createHash s (.abort id) ↔ Meets config createHash s (.abort id) := by
  have hstep : step config createHash s (.abort id) = s.abort (.ofCaller id) := rfl
  rw [SSHClientsManager.abort] at hstep
  split at hstep
  · rename_i hset
    refine iff_of_true ?_ fun hunset => ?_
    · exact undisturbed_of_same (by rw [hstep]) (by rw [hstep]) fun key r hr =>
        ⟨r, by rw [hstep, hr], rfl⟩
    · rw [hset] at hunset
      cases hunset
  · rename_i hunset
    have hups : CleansUp (s.signal (.ofCaller id)) (step config createHash s (.abort id))
        (s.listeners (.ofCaller id)) := by
      rw [hstep]
      exact cleansUp_cleanupClients _ _
    have hconcerns : ∀ key r, s.clients.get? key = some r →
        (s.Concerns config (.abort id) r.client ↔ r.abortController = .ofCaller id) := by
      intro key r hr
      rw [Concerns, h.controllerOf hr, Option.some.injEq]
    have haborted : ∀ c, (s.signal (.ofCaller id)).aborted c = true →
        s.aborted c = true ∨ ∃ id', Event.abort id = .abort id' ∧ c = .ofCaller id' := by
      intro c hc
      by_cases heq : c = .ofCaller id
      · exact Or.inr ⟨id, rfl, heq⟩
      · exact Or.inl ((Function.update_of_ne heq _ _).symm.trans hc)
    rw [undisturbed_iff_of_cleaned h hups.toCleaned rfl rfl haborted]
    constructor
    · intro hremoved _ key hkey r hr
      exact (hconcerns key r hr).1 (hremoved key r ⟨hr, hups.keys key hkey⟩)
    · intro hmeets key r hrem
      refine (hconcerns key r hrem.1).2 ?_
      rw [hstep] at hrem
      refine Removed.of_cleanupClients (P := fun r => r.abortController = .ofCaller id) _ _ ?_ ?_
        hrem
      · exact hmeets (by simpa using hunset)
      · -- its signal is set already
        rintro key₁ r₁ hr₁ hcontroller hunset₁
        rw [hcontroller] at hunset₁
        have hset : (s.signal (.ofCaller id)).aborted (.ofCaller id) = true :=
          Function.update_self _ _ _
        rw [hset] at hunset₁
        cases hunset₁

theorem undisturbed_cleanupStaleConnections_iff (h : s.Sound) (now : ℕ) :
    Undisturbed config createHash s (.cleanupStaleConnections now) ↔
      Meets config createHash s (.cleanupStaleConnections now) := by
  have hups : CleansUp s (step config createHash s (.cleanupStaleConnections now))
      (s.clients.filter fun _ r => r.isStale config now).keys := cleansUp_cleanupClients s _
  have hmem : ∀ key, key ∈ (s.clients.filter fun _ r => r.isStale config now).keys ↔
      ∃ r, s.clients.get? key = some r ∧ r.isStale config now = true := by
    intro key
    rw [Dict.mem_keys_iff, Option.isSome_iff_exists]
    simp only [Dict.get?_filter_eq_some_iff]
  have hconcerns : ∀ key r, s.clients.get? key = some r →
      (s.Concerns config (.cleanupStaleConnections now) r.client ↔
        ∃ key' r', s.clients.get? key' = some r' ∧ r'.isStale config now = true ∧
          r.abortController = r'.abortController) := by
    intro key r hr
    simp only [Concerns, h.controllerOf hr, Option.some.injEq]
  rw [undisturbed_iff_of_cleaned h hups.toCleaned rfl rfl fun _ => Or.inl]
  constructor
  · intro hremoved key r hr hstale hunset key' hkey' r' hr'
    have hrem : Removed s (step config createHash s (.cleanupStaleConnections now)) key r :=
      ⟨hr, hups.keys key ((hmem key).2 ⟨r, hr, hstale⟩)⟩
    refine (hconcerns key' r' hr').1 (hremoved key' r' ⟨hr', ?_⟩)
    exact hups.heard _ ((hups.aborted _).2 (Or.inr ⟨key, r, hrem, rfl⟩)) hunset key' hkey'
  · intro hmeets key r hrem
    refine (hconcerns key r hrem.1).2 (Removed.of_cleanupClients (P := fun r =>
      ∃ key' r', s.clients.get? key' = some r' ∧ r'.isStale config now = true ∧
        r.abortController = r'.abortController) s _ ?_ ?_ hrem)
    · intro key₁ hkey₁ r₁ hr₁
      obtain ⟨r₂, hr₂, hstale⟩ := (hmem key₁).1 hkey₁
      exact ⟨key₁, r₁, hr₁, by rw [hr₁] at hr₂; cases hr₂; exact hstale, rfl⟩
    · rintro key₁ r₁ hr₁ ⟨key₂, r₂, hr₂, hstale, heq⟩
      rw [heq]
      exact hmeets key₂ r₂ hr₂ hstale

theorem undisturbed_onShutdown (h : s.Sound) : Undisturbed config createHash s .onShutdown := by
  have hups : CleansUp s (step config createHash s .onShutdown) s.clients.keys :=
    cleansUp_cleanupClients s _
  exact (undisturbed_iff_of_cleaned h hups.toCleaned rfl rfl fun _ => Or.inl).2 fun _ _ _ => trivial

/-! ### Failed attempts -/

theorem failed_cleanupClients (s : SSHClientsManager κ) (keys : List κ) :
    (s.cleanupClients keys).failed = s.failed := by
  induction s, keys using cleanupClients.induct with
  | case1 s => rw [cleanupClients]
  | case2 s key keys hnone ih => rw [cleanupClients_cons_of_none hnone, ih]
  | case3 s key keys r hr hset ih =>
    rw [cleanupClients_cons_of_some hr, if_pos hset, ih]
    rfl
  | case4 s key keys r hr hunset ih =>
    rw [cleanupClients_cons_of_some hr, if_neg hunset, ih]
    rfl

theorem SSHClientsManager.NoneFailed.cleanupClients (h : s.NoneFailed) (keys : List κ) :
    (s.cleanupClients keys).NoneFailed := by
  intro key r hr
  rw [failed_cleanupClients]
  exact h key r ((cleansUp_cleanupClients s keys).clients key r hr)

theorem SSHClientsManager.NoneFailed.set_lastUsed (h : s.NoneFailed) {key : κ} {r : Registration}
    (hr : s.clients.get? key = some r) (now : ℕ) :
    NoneFailed { s with clients := s.clients.set key { r with lastUsed := now } } := by
  intro key' r' hr'
  rw [Dict.get?_set] at hr'
  split at hr'
  · cases hr'
    exact h key r hr
  · exact h key' r' hr'

/-- A client that fails is not registered any more: what is registered under its key, is cleaned up
before. -/
theorem SSHClientsManager.NoneFailed.emits (h : s.NoneFailed) (hs : s.Sound) (client : ℕ) :
    (s.emits client).NoneFailed := by
  rw [SSHClientsManager.emits]
  split
  · exact h
  · rename_i key c hmade
    intro key' r hr
    have hups := cleansUp_cleanupClients s [key]
    have hfailed := (h.cleanupClients [key]) key' r hr
    rw [failed_cleanupClients] at hfailed
    have hne : r.client ≠ client := by
      rintro rfl
      have hkey := hs key' r (hups.clients key' r hr)
      rw [hmade] at hkey
      cases hkey
      rw [cleanupClient, hups.keys key List.mem_cons_self] at hr
      cases hr
    simp only
    split
    · exact hfailed
    · exact (Function.update_of_ne hne _ _).trans hfailed

/-- `getClient` leaves no failed client registered exactly if `connect` does not throw. -/
theorem noneFailed_getClient_iff (h : s.NoneFailed) (hs : s.Sound) (credentials : SSHCredentials)
    (abortController : Option ℕ) (now : ℕ) (connectThrows : Bool) :
    (s.getClient createHash credentials abortController now connectThrows).NoneFailed ↔
      Meets config createHash s (.getClient credentials abortController now connectThrows) := by
  rw [Meets, SSHClientsManager.getClient]
  split
  · rename_i existing hexisting
    exact iff_of_true (h.set_lastUsed hexisting now) fun _ => by rw [hexisting]; rfl
  · rename_i hnone
    rw [hnone]
    constructor
    · intro hfailed hthrows
      have hnew := hfailed (createHash (sshConfig credentials)) _ (Dict.get?_set_self _ _ _)
      simp [hthrows] at hnew
    · intro hmeets key r hr
      rw [Dict.get?_set] at hr
      split at hr
      · cases hr
        simpa using hmeets
      · have hmade := (List.getElem?_eq_some_iff.1 (hs key r hr)).1
        exact (Function.update_of_ne hmade.ne _ _).trans (h key r hr)

/-! ### Every event -/

/-- What an event does, and whether it meets the condition. -/
theorem step_iff (hs : s.Sound) (h : s.NoneFailed) (event : Event) :
    (Undisturbed config createHash s event ∧ (step config createHash s event).NoneFailed) ↔
      Meets config createHash s event := by
  cases event with
  | getClient credentials abortController now connectThrows =>
    refine (and_iff_right ?_).trans (noneFailed_getClient_iff h hs _ _ _ _)
    exact undisturbed_getClient credentials abortController now connectThrows
  | ready client =>
    refine iff_of_true ⟨?_, h⟩ trivial
    exact undisturbed_of_same rfl rfl fun key r hr => ⟨r, hr, rfl⟩
  | emits client event =>
    rw [undisturbed_emits_iff hs]
    exact and_iff_left (h.emits hs client)
  | abort id =>
    rw [undisturbed_abort_iff hs]
    refine and_iff_left ?_
    rw [step, SSHClientsManager.abort]
    split
    · exact h
    · have hset : NoneFailed (s.signal (.ofCaller id)) := h
      exact hset.cleanupClients _
  | updateLastUsed client now =>
    refine iff_of_true ⟨undisturbed_updateLastUsed client now, ?_⟩ trivial
    rw [step, SSHClientsManager.updateLastUsed]
    split
    · exact h
    · split
      · exact h
      · rename_i hr
        exact h.set_lastUsed hr now
  | cleanupStaleConnections now =>
    rw [undisturbed_cleanupStaleConnections_iff hs]
    exact and_iff_left (h.cleanupClients _)
  | onShutdown => exact iff_of_true ⟨undisturbed_onShutdown hs, h.cleanupClients _⟩ trivial

end Steps

/-! ### Runs -/

section Runs

variable (config : SSHClientsConfig) (createHash : ConnectConfig → κ)

theorem sound_run (events : List Event) : (Trace.run (step config createHash) {} events).Sound := by
  refine Trace.invariant_run (I := Sound) ?_ (fun _ event hs => sound_step hs event) events
  intro key r hr
  cases hr

/-- **SSH clients are kept apart**, and none stays registered whose connection attempt failed, in
exactly the runs whose events all meet the condition. -/
theorem keepsApart_iff (events : List Event) :
    (Trace.EachStep (step config createHash) (Undisturbed config createHash) {} events ∧
        ∀ pre, pre <+: events → (Trace.run (step config createHash) {} pre).NoneFailed) ↔
      Trace.EachStep (step config createHash) (Meets config createHash) {} events := by
  constructor
  · rintro ⟨hundisturbed, hfailed⟩ pre event hpre
    refine (step_iff (sound_run config createHash pre) (hfailed pre ?_) event).1
      ⟨hundisturbed pre event hpre, ?_⟩
    · exact (List.prefix_append pre [event]).trans hpre
    · have hnext := hfailed _ hpre
      rwa [Trace.run_concat] at hnext
  · intro hmeets
    have hinit : Sound ({} : SSHClientsManager κ) ∧ NoneFailed ({} : SSHClientsManager κ) :=
      ⟨sound_run config createHash [], fun key r hr => nomatch hr⟩
    have hstep : ∀ (s : SSHClientsManager κ) event, s.Sound ∧ s.NoneFailed →
        Meets config createHash s event →
        (step config createHash s event).Sound ∧ (step config createHash s event).NoneFailed :=
      fun s event hs hm => ⟨sound_step hs.1 event, ((step_iff hs.1 hs.2 event).2 hm).2⟩
    refine ⟨hmeets.imp hinit hstep fun s event hs hm => ((step_iff hs.1 hs.2 event).2 hm).1, ?_⟩
    exact fun pre hpre => (hmeets.invariant hinit hstep pre hpre).2

/-- Credentials for the example below. -/
def tunnel : SSHCredentials :=
  { sshHost := "db", sshPort := 22, sshUser := "n8n", sshAuthenticateWith := .password "secret" }

/-- A client fails and is replaced.  When it is closed, its successor is ended. -/
theorem close_ends_successor :
    ¬ ∀ events : List Event,
      Trace.EachStep (step {} id) (Undisturbed {} id) ({} : SSHClientsManager ConnectConfig)
          events ∧
        ∀ pre, pre <+: events →
          (Trace.run (step {} id) ({} : SSHClientsManager ConnectConfig) pre).NoneFailed := by
  intro h
  have hclose := (h [.getClient tunnel none 0 false, .emits 0 .error,
    .getClient tunnel none 0 false, .emits 0 .close]).1 [.getClient tunnel none 0 false,
    .emits 0 .error, .getClient tunnel none 0 false] (.emits 0 .close) (List.prefix_refl _)
  -- the first client is gone, and the second registered under the same key
  have hfirst : (step {} id {} (.getClient tunnel none 0 false)).cleanupClient (sshConfig tunnel) =
      { made := [⟨sshConfig tunnel, .ofClient 0⟩]
        ended := Function.update (fun _ => false) 0 true
        failed := Function.update (fun _ => false) 0 false
        aborted := Function.update (fun _ => false) (.ofClient 0) true } :=
    (cleanupClient_of_listeners (r := ⟨0, 0, .ofClient 0⟩) rfl rfl rfl).trans rfl
  have hsecond : Trace.run (step {} id) {} [.getClient tunnel none 0 false, .emits 0 .error,
      .getClient tunnel none 0 false] =
      { clients := Dict.empty.set (sshConfig tunnel) ⟨1, 0, .ofClient 1⟩
        made := [⟨sshConfig tunnel, .ofClient 0⟩, ⟨sshConfig tunnel, .ofClient 1⟩]
        ended := Function.update (fun _ => false) 0 true
        failed := Function.update (Function.update (Function.update (fun _ => false) 0 false) 0
          true) 1 false
        aborted := Function.update (fun _ => false) (.ofClient 0) true } := by
    change step {} id { (step {} id {} (.getClient tunnel none 0 false)).cleanupClient
      (sshConfig tunnel) with failed := _ } (.getClient tunnel none 0 false) = _
    rw [hfirst]
    rfl
  rw [hsecond] at hclose
  obtain ⟨r, hr, -⟩ := hclose.registered (sshConfig tunnel) ⟨1, 0, .ofClient 1⟩ rfl nofun
  change (cleanupClient _ (sshConfig tunnel)).clients.get? (sshConfig tunnel) = some r at hr
  rw [cleanupClient, (cleansUp_cleanupClients _ _).keys _ List.mem_cons_self] at hr
  cases hr

end Runs

end Ssh

end N8n
