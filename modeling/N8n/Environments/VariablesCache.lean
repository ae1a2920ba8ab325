import N8n.Environments.VariablesService
import N8n.Lib.Lts

/-!
# The cached variables

Requests of `VariablesService` under way at the same time, with one step for each write, `findAll` and
setting of the cache.

* `VariablesService.System`, `VariablesService.Event`: the requests and what can happen;
* `VariablesService.Orderly`: a process that refreshes the cache after each of its writes;
* `VariablesService.SetsFresh`: a condition on the events, and `VariablesService.cache_converges`:
  under it the cached list is the table's once all requests have finished;
* `VariablesService.slow_refresh_is_kept`: two requests after which it is not.
-/

namespace N8n

namespace VariablesService

variable {α β : Type}

/-! ### Processes that refresh the cache -/

/-- What the process goes on with after an operation: the list that it has read is put into the cache
next, and after a write the list is read next. -/
def FollowsUp : (op : VariablesOp) → (variablesOperations.Reply op → Service α) → Prop
  | .findAll, next => ∀ list : List Variables,
    ∃ rest, next list = .call (VariablesOp.cacheSet list) rest
  | .write _, next => ∃ rest, next () = .call VariablesOp.findAll rest
  | _, _ => True

/-- The process refreshes the cache after each of its writes. -/
def Orderly : Service α → Prop
  | .pure _ => True
  | .throw _ => True
  | .call op next => FollowsUp op next ∧ ∀ reply, Orderly (next reply)

theorem FollowsUp.bind {op : VariablesOp} {next : variablesOperations.Reply op → Service α}
    (h : FollowsUp op next) (f : α → Service β) : FollowsUp op fun reply => next reply >>= f := by
  cases op with
  | findAll =>
    intro list
    obtain ⟨rest, hrest⟩ := h list
    exact ⟨fun u => rest u >>= f, congrArg (· >>= f) hrest⟩
  | write w =>
    obtain ⟨rest, hrest⟩ := h
    exact ⟨fun list => rest list >>= f, congrArg (· >>= f) hrest⟩
  | cacheGet => trivial
  | cacheSet list => trivial
  | findProjectWithAccess user projectId scope => trivial

theorem orderly_pure (a : α) : Orderly (pure a : Service α) := trivial

theorem orderly_throw (e : VariablesError) : Orderly (.throw e : Service α) := trivial

theorem Orderly.bind {p : Service α} {f : α → Service β} (hp : Orderly p)
    (hf : ∀ a, Orderly (f a)) : Orderly (p >>= f) := by
  induction p with
  | pure a => exact hf a
  | throw e => trivial
  | call op next ih => exact ⟨hp.1.bind f, fun reply => ih reply (hp.2 reply)⟩

theorem Orderly.ite {c : Prop} [Decidable c] {p q : Service α} (hp : Orderly p) (hq : Orderly q) :
    Orderly (if c then p else q) := by
  split_ifs
  · exact hp
  · exact hq

theorem orderly_updateCache : Orderly updateCache :=
  ⟨fun _ => ⟨_, rfl⟩, fun _ => ⟨trivial, fun _ => trivial⟩⟩

/-- A write with the refresh after it. -/
theorem orderly_write_updateCache (w : RowWrite) {f : Unit → Service α} (hf : ∀ u, Orderly (f u)) :
    Orderly (write w >>= fun _ => updateCache >>= f) :=
  ⟨⟨_, rfl⟩, fun _ => orderly_updateCache.bind hf⟩

variable (user : User)

theorem orderly_findProjectWithAccess (projectId : String) (scope : Scope) :
    Orderly (findProjectWithAccess user projectId scope) :=
  ⟨trivial, fun _ => trivial⟩

theorem orderly_getOrRefresh : Orderly getOrRefresh := by
  refine ⟨trivial, fun cached => ?_⟩
  cases cached with
  | some list => exact orderly_pure list
  | none => exact ⟨fun _ => ⟨_, rfl⟩, fun _ => ⟨trivial, fun _ => trivial⟩⟩

theorem orderly_getAllCached (globalOnly : Bool) : Orderly (getAllCached globalOnly) :=
  orderly_getOrRefresh.bind fun _ => orderly_pure _

variable (id : String)

theorem orderly_getCached : Orderly (getCached id) :=
  (orderly_getAllCached _).bind fun _ => orderly_pure _

theorem orderly_isAuthorizedForVariable (scope : Scope) (projectId : Option String) :
    Orderly (isAuthorizedForVariable user scope projectId) := by
  unfold isAuthorizedForVariable
  cases truthy projectId with
  | none => exact orderly_pure _
  | some projectId => exact orderly_findProjectWithAccess _ _ _

theorem orderly_canCreateNewVariable (maxVariables : ℤ) :
    Orderly (canCreateNewVariable maxVariables) :=
  (orderly_pure ()).ite ((orderly_getAllCached _).bind fun _ =>
    (orderly_throw _).ite (orderly_pure ()))

theorem orderly_validateUniqueVariable (key : String) (projectId id : Option String) :
    Orderly (validateUniqueVariable key projectId id) := by
  refine (orderly_getAllCached _).bind fun list => ?_
  dsimp only
  cases truthy projectId with
  | none => exact (orderly_throw _).ite (orderly_pure ())
  | some projectId => exact (orderly_throw _).ite (orderly_pure ())

theorem orderly_validateUpdatedKey (key : Option String) (existing : Variables)
    (newProjectId : Option String) : Orderly (validateUpdatedKey key existing newProjectId) := by
  unfold validateUpdatedKey
  cases truthy key with
  | none => exact orderly_pure ()
  | some key => exact orderly_validateUniqueVariable _ _ _

theorem orderly_create (maxVariables : ℤ) (user : User) (dto : CreateVariable) (id : String) :
    Orderly (create maxVariables user dto id) := by
  refine (orderly_isAuthorizedForVariable _ _ _).bind fun right => Orderly.ite ?_ (orderly_throw _)
  refine (orderly_canCreateNewVariable _).bind fun _ => ?_
  refine (orderly_validateUniqueVariable _ _ _).bind fun _ => ?_
  exact orderly_write_updateCache _ fun _ => orderly_pure _

theorem orderly_saveUpdate (dto : UpdateVariable) : Orderly (saveUpdate id dto) :=
  (orderly_throw _).ite (orderly_write_updateCache _ fun _ => orderly_getCached id)

theorem orderly_canMoveVariable (project newProjectId : Option String) :
    Orderly (canMoveVariable user project newProjectId) :=
  (orderly_pure true).ite (orderly_isAuthorizedForVariable _ _ _)

theorem orderly_update (id : String) (dto : UpdateVariable) : Orderly (update user id dto) := by
  refine (orderly_getCached id).bind fun found => ?_
  cases found with
  | none => exact orderly_throw _
  | some existing =>
    refine (orderly_isAuthorizedForVariable _ _ _).bind fun right => ?_
    refine Orderly.ite ((orderly_throw _).ite ?_) (orderly_throw _)
    refine (orderly_canMoveVariable _ _ _).bind fun right' => Orderly.ite ?_ (orderly_throw _)
    exact (orderly_validateUpdatedKey _ _ _).bind fun _ => orderly_saveUpdate id dto

theorem orderly_delete : Orderly (delete id) :=
  orderly_write_updateCache (.delete id) fun _ => orderly_pure ()

theorem orderly_deleteByIds (ids : List String) : Orderly (deleteByIds ids) :=
  orderly_write_updateCache (.deleteByIds ids) fun _ => orderly_pure ()

theorem orderly_deleteForUser (id : String) : Orderly (deleteForUser user id) := by
  refine (orderly_getCached id).bind fun found => ?_
  refine (orderly_isAuthorizedForVariable _ _ _).bind fun right => ?_
  exact (orderly_delete id).ite (orderly_throw _)

theorem orderly_getForUser (id : String) (scope : Scope) : Orderly (getForUser user id scope) := by
  refine (orderly_getCached id).bind fun found => ?_
  cases found with
  | none => exact orderly_pure none
  | some found =>
    refine (orderly_isAuthorizedForVariable _ _ _).bind fun right => ?_
    exact (orderly_pure _).ite (orderly_throw _)

/-- **Every request refreshes the cache after its writes.** -/
theorem orderly_process (r : Request) : Orderly r.process := by
  cases r with
  | getAll globalOnly => exact orderly_getAllCached globalOnly
  | get user id scope => exact (orderly_getForUser user id scope).bind fun _ => orderly_pure _
  | create maxVariables user dto id =>
    exact (orderly_create maxVariables user dto id).bind fun _ => orderly_pure _
  | update user id dto => exact (orderly_update user id dto).bind fun _ => orderly_pure _
  | deleteForUser user id => exact (orderly_deleteForUser user id).bind fun _ => orderly_pure _
  | deleteByIds ids => exact (orderly_deleteByIds ids).bind fun _ => orderly_pure _

/-! ### Runs -/

/-- The requests under way and what they share. -/
abbrev System := Pool VariablesState variablesOperations VariablesError (List Variables)

/-- What can happen. -/
inductive Event
  | request (r : Request)
  /-- A request carries out its next access. -/
  | step (c : ℕ)
  /-- The next access of a request throws. -/
  | fails (c : ℕ)
  /-- The cached list is dropped. -/
  | expires
  /-- Users get other access to projects. -/
  | accessChanges (access : User → String → Scope → Bool)

def event (s : System) : Event → System
  | .request r => s.start r.process
  | .step c => s.step handle c
  | .fails c => s.fail c .unavailable
  | .expires => { s with state := { s.state with cache := none } }
  | .accessChanges access => { s with state := { s.state with access := access } }

/-- The cached list, if there is one, is the table's. -/
def VariablesState.Agrees (s : VariablesState) : Prop := ∀ list, s.cache = some list → list = s.rows

/-- The access is one of a refresh that puts the rows into the cache. -/
def VariablesOp.Refreshes (rows : List Variables) : VariablesOp → Prop
  | .findAll => True
  | .cacheSet list => list = rows
  | _ => False

/-- The process is about to put the rows into the cache: it has yet to read them, or it has read just
these. -/
def Refreshes (rows : List Variables) : Service α → Prop
  | .call op _ => VariablesOp.Refreshes rows op
  | _ => False

/-- Another request than the one is about to put the rows into the cache. -/
def OthersRefresh (s : System) (c : ℕ) : Prop :=
  ∃ (c' : ℕ) (p : Service (List Variables)), c' ≠ c ∧ s.processes[c']? = some p ∧ Refreshes s.state.rows p

/-- A list is put into the cache only when it is the table's, or while another request is about to put
the table's there; and a refresh fails only when the cached list is the table's, or likewise. -/
def SetsFresh (s : System) : Event → Prop
  | .step c => ∀ list next, s.processes[c]? = some (.call (VariablesOp.cacheSet list) next) →
    list = s.state.rows ∨ OthersRefresh s c
  | .fails c => ∀ p, s.processes[c]? = some p → Refreshes s.state.rows p →
    s.state.Agrees ∨ OthersRefresh s c
  | _ => True

/-- The cached list is the table's, or a request is about to put the table's there. -/
structure Converging (s : System) : Prop where
  orderly : ∀ (c : ℕ) (p : Service (List Variables)), s.processes[c]? = some p → Orderly p
  fresh : s.state.Agrees ∨ ∃ (c : ℕ) (p : Service (List Variables)),
    s.processes[c]? = some p ∧ Refreshes s.state.rows p

variable {s : System}

theorem orderly_set {l : List (Service (List Variables))} {c : ℕ} {p : Service (List Variables)}
    (hl : ∀ (c : ℕ) (p : Service (List Variables)), l[c]? = some p → Orderly p) (hp : Orderly p) (c' : ℕ)
    (p' : Service (List Variables)) (h : (l.set c p)[c']? = some p') : Orderly p' := by
  rw [List.getElem?_set] at h
  split_ifs at h
  · cases h
    exact hp
  · exact hl c' p' h

theorem Converging.step (hs : Converging s) {c : ℕ} (hset : SetsFresh s (.step c)) :
    Converging (event s (.step c)) := by
  show Converging (Pool.step handle s c)
  rw [Pool.step]
  split
  · rename_i op next hc
    have horderly := hs.orderly c _ hc
    have hprocesses := orderly_set hs.orderly (c := c) (horderly.2 (handle s.state op).1)
    -- A request other than `c` that refreshes goes on doing so while the rows stay.
    have hother : ∀ c' p, c' ≠ c → s.processes[c']? = some p →
        (s.processes.set c (next (handle s.state op).1))[c']? = some p := fun c' p hne hp =>
      Pool.getElem?_set_of_ne hp hne
    have hself := Pool.getElem?_set_self (p := next (handle s.state op).1) hc
    cases op with
    | cacheGet =>
      refine ⟨hprocesses, hs.fresh.imp_right ?_⟩
      rintro ⟨c', p, hp, hrefreshes⟩
      by_cases heq : c' = c
      · subst heq
        rw [hc] at hp
        cases hp
        exact absurd hrefreshes not_false
      · exact ⟨c', p, hother c' p heq hp, hrefreshes⟩
    | findProjectWithAccess user projectId scope =>
      refine ⟨hprocesses, hs.fresh.imp_right ?_⟩
      rintro ⟨c', p, hp, hrefreshes⟩
      by_cases heq : c' = c
      · subst heq
        rw [hc] at hp
        cases hp
        exact absurd hrefreshes not_false
      · exact ⟨c', p, hother c' p heq hp, hrefreshes⟩
    | findAll =>
      obtain ⟨rest, hrest⟩ := horderly.1 s.state.rows
      refine ⟨hprocesses, Or.inr ⟨c, _, hself, ?_⟩⟩
      show Refreshes s.state.rows (next s.state.rows)
      rw [hrest]
      rfl
    | write w =>
      obtain ⟨rest, hrest⟩ := horderly.1
      refine ⟨hprocesses, Or.inr ⟨c, _, hself, ?_⟩⟩
      show Refreshes (w.apply s.state.rows) (next ())
      rw [hrest]
      trivial
    | cacheSet list =>
      refine ⟨hprocesses, ?_⟩
      rcases hset list next hc with hlist | ⟨c', p, hne, hp, hrefreshes⟩
      · refine Or.inl fun list' hlist' => ?_
        cases hlist'
        exact hlist
      · exact Or.inr ⟨c', p, hother c' p hne hp, hrefreshes⟩
  · exact hs

theorem Converging.fails (hs : Converging s) {c : ℕ} (hset : SetsFresh s (.fails c)) :
    Converging (event s (.fails c)) := by
  show Converging (Pool.fail s c VariablesError.unavailable)
  rw [Pool.fail]
  split
  · rename_i op next hc
    refine ⟨orderly_set hs.orderly (orderly_throw _), ?_⟩
    rcases hs.fresh with hagrees | ⟨c', p, hp, hrefreshes⟩
    · exact Or.inl hagrees
    · by_cases heq : c' = c
      · subst heq
        refine (hset p hp hrefreshes).imp_right ?_
        rintro ⟨c', p', hne, hp', hrefreshes'⟩
        exact ⟨c', p', Pool.getElem?_set_of_ne hp' hne, hrefreshes'⟩
      · exact Or.inr ⟨c', p, Pool.getElem?_set_of_ne hp heq, hrefreshes⟩
  · exact hs

/-- **One event.** -/
theorem Converging.event (hs : Converging s) {e : Event} (he : SetsFresh s e) :
    Converging (event s e) := by
  cases e with
  | request r =>
    constructor
    · intro c p hp
      rcases List.mem_append.1 (List.mem_of_getElem? hp) with hp | hp
      · obtain ⟨c', hc'⟩ := List.getElem?_of_mem hp
        exact hs.orderly c' p hc'
      · rw [List.mem_singleton.1 hp]
        exact orderly_process r
    · refine hs.fresh.imp_right ?_
      rintro ⟨c, p, hp, hrefreshes⟩
      refine ⟨c, p, ?_, hrefreshes⟩
      obtain ⟨hlt, -⟩ := List.getElem?_eq_some_iff.1 hp
      show (s.processes ++ [r.process])[c]? = some p
      rw [List.getElem?_append_left hlt, hp]
  | step c => exact hs.step he
  | fails c => exact hs.fails he
  | expires => exact ⟨hs.orderly, hs.fresh.imp_left fun _ _ hlist => by cases hlist⟩
  | accessChanges access => exact ⟨hs.orderly, hs.fresh⟩

/-- **Convergence**: when each list is put into the cache fresh, the cached list is the table's
whenever all requests have finished. -/
theorem cache_converges (state : VariablesState) (events : List Event) (hagrees : state.Agrees)
    (h : Trace.EachStep event SetsFresh ⟨state, []⟩ events) :
    ∀ pre, pre <+: events → (Trace.run event ⟨state, []⟩ pre).Finished →
      (Trace.run event ⟨state, []⟩ pre).state.Agrees := by
  intro pre hpre hfinished
  have hstart : Converging ⟨state, []⟩ := ⟨fun c p hp => (by cases hp), Or.inl hagrees⟩
  have hconverging := h.invariant hstart (fun _ _ hs he => hs.event he) pre hpre
  rcases hconverging.fresh with hagrees | ⟨c, p, hp, hrefreshes⟩
  · exact hagrees
  · have hp := hfinished p (List.mem_of_getElem? hp)
    cases p with
    | pure a => exact absurd hrefreshes not_false
    | throw e => exact absurd hrefreshes not_false
    | call op next => exact absurd hp not_false

/-- One variable is deleted, with a cached list. -/
theorem cache_converges_oneDelete : let a : Variables := { id := "a", key := "A", value := "1" }
    let events := [Event.request (.deleteByIds ["a"]), .step 0, .step 0, .step 0]
    ∀ pre, pre <+: events →
      (Trace.run event ⟨{ rows := [a], cache := some [a] }, []⟩ pre).Finished →
      (Trace.run event ⟨{ rows := [a], cache := some [a] }, []⟩ pre).state.Agrees := by
  intro a events
  refine cache_converges _ events (fun list hlist => (by cases hlist; rfl)) ?_
  simp only [events, Trace.eachStep_cons]
  refine ⟨trivial, ?_, ?_, ?_, Trace.eachStep_nil⟩
  · intro list next h
    cases h
  · intro list next h
    cases h
  · intro list next h
    cases h
    exact Or.inl rfl

/-- Two variables are deleted: the first request reads the table before the second one deletes its
variable, and puts what it read into the cache after the second one has refreshed it. -/
theorem slow_refresh_is_kept :
    ¬ ∀ (rows : List Variables) (events : List Event),
      (Trace.run event ⟨{ rows := rows }, []⟩ events).Finished →
      (Trace.run event ⟨{ rows := rows }, []⟩ events).state.Agrees := by
  intro h
  have hstale := h [{ id := "a", key := "A", value := "1" }, { id := "b", key := "B", value := "2" }]
    [.request (.deleteByIds ["a"]), .request (.deleteByIds ["b"]), .step 0, .step 0, .step 1,
      .step 1, .step 1, .step 0] (by decide) _ rfl
  exact absurd hstale (by decide)

end VariablesService

end N8n
