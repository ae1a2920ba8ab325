import N8n.Environments.VariablesCache
import Mathlib.Data.List.Nodup

/-!
# The keys of variables

Requests of `VariablesService` one after the other.  `validateUniqueVariable` looks for the key of a
request in the scope that the variable is to have, but an update looks only when it is given a key.

* `Taken`, `RowWrite.KeepsUnique`: a key that another variable of a scope has, and a write that sets
  none;
* `Checked`, `Safe`: a process that only reads, with what it has found out when it ends, and one that
  writes, with their rules;
* `KeyFree`: an update without a key does not move a variable to where its key is taken;
* `writes_keep_unique`: then no request writes a key that is taken.
-/

namespace N8n

namespace VariablesService

/-! ### Keys that are taken -/

/-- Another variable of the scope has the key. -/
def Taken (rows : List Variables) (id key : String) (project : Option String) : Prop :=
  ∃ v ∈ rows, v.id ≠ id ∧ v.key = key ∧ v.project = project

instance (rows : List Variables) (id key : String) (project : Option String) :
    Decidable (Taken rows id key project) :=
  inferInstanceAs (Decidable (∃ v ∈ rows, _))

/-- The write sets no key that another variable of the scope has. -/
def RowWrite.KeepsUnique (rows : List Variables) : RowWrite → Prop
  | .save row => ¬ Taken rows row.id row.key row.project
  | .update id patch =>
    ∀ v ∈ rows, v.id = id → ¬ Taken rows id (patch.apply v).key (patch.apply v).project
  | _ => True

/-- What is permitted to a request. -/
def Permitted (s : VariablesState) : VariablesOp → Prop
  | .write w => w.KeepsUnique s.rows
  | _ => True

/-- The variables of a scope have different keys. -/
structure Unique (rows : List Variables) : Prop where
  ids : (rows.map Variables.id).Nodup
  keys : ∀ v ∈ rows, ¬ Taken rows v.id v.key v.project
  projects : ∀ v ∈ rows, v.project ≠ some ""

/-- The table is as it should be, and the cached list is the table's. -/
structure VariablesState.Sound (s : VariablesState) : Prop where
  unique : Unique s.rows
  agrees : s.Agrees

variable {rows : List Variables} {id : String} {row : Variables} {patch : VariablePatch}

theorem truthy_ne_empty (text : Option String) : truthy text ≠ some "" := by
  intro h
  have hne := (Option.filter_eq_some_iff.1 h).2
  simp at hne

theorem truthy_eq_self {text : Option String} (h : text ≠ some "") : truthy text = text := by
  cases text with
  | none => rfl
  | some t => exact if_pos (by simpa using h)

theorem Unique.save (h : Unique rows) (hid : row.id ∉ rows.map Variables.id)
    (hfree : ¬ Taken rows row.id row.key row.project) (hproject : row.project ≠ some "") :
    Unique (rows ++ [row]) := by
  have hmem : ∀ {v}, v ∈ rows ++ [row] ↔ v ∈ rows ∨ v = row := by simp
  refine ⟨?_, ?_, ?_⟩
  · rw [List.map_append, List.map_singleton, List.nodup_append]
    refine ⟨h.ids, by simp, fun a ha b hb hab => hid ?_⟩
    rwa [← List.mem_singleton.1 hb, ← hab]
  · rintro v hv ⟨w, hw, hne, hkey, hscope⟩
    rcases hmem.1 hv with hold | rfl <;> rcases hmem.1 hw with hold' | rfl
    · exact h.keys v hold ⟨w, hold', hne, hkey, hscope⟩
    · exact hfree ⟨v, hold, Ne.symm hne, hkey.symm, hscope.symm⟩
    · exact hfree ⟨w, hold', hne, hkey, hscope⟩
    · exact hne rfl
  · intro v hv
    rcases hmem.1 hv with hv | rfl
    · exact h.projects v hv
    · exact hproject

theorem Unique.update (h : Unique rows)
    (hfree : ∀ v ∈ rows, v.id = id → ¬ Taken rows id (patch.apply v).key (patch.apply v).project)
    (hproject : patch.project ≠ some (some "")) :
    Unique (rows.map fun v => if v.id = id then patch.apply v else v) := by
  have hid : ∀ v : Variables, (if v.id = id then patch.apply v else v).id = v.id := by
    intro v
    split_ifs <;> rfl
  refine ⟨?_, ?_, ?_⟩
  · rw [List.map_map]
    exact (List.map_congr_left fun v _ => hid v) ▸ h.ids
  · rintro v' hv' ⟨w', hw', hne, hkey, hscope⟩
    obtain ⟨v, hv, rfl⟩ := List.mem_map.1 hv'
    obtain ⟨w, hw, rfl⟩ := List.mem_map.1 hw'
    rw [hid, hid] at hne
    by_cases hvid : v.id = id
    · rw [if_pos hvid, if_neg (hvid ▸ hne)] at hkey hscope
      exact hfree v hv hvid ⟨w, hw, hvid ▸ hne, hkey, hscope⟩
    · rw [if_neg hvid] at hkey hscope
      by_cases hwid : w.id = id
      · rw [if_pos hwid] at hkey hscope
        exact hfree w hw hwid ⟨v, hv, hvid, hkey.symm, hscope.symm⟩
      · rw [if_neg hwid] at hkey hscope
        exact h.keys v hv ⟨w, hw, hne, hkey, hscope⟩
  · intro v' hv'
    obtain ⟨v, hv, rfl⟩ := List.mem_map.1 hv'
    split_ifs
    · show patch.project.getD v.project ≠ some ""
      cases hpatch : patch.project with
      | none => exact h.projects v hv
      | some project => exact fun heq => hproject (hpatch.trans (congrArg some heq))
    · exact h.projects v hv

theorem Unique.filter (h : Unique rows) (p : Variables → Bool) : Unique (rows.filter p) := by
  refine ⟨h.ids.sublist (List.filter_sublist.map _), ?_, fun v hv => ?_⟩
  · rintro v hv ⟨w, hw, hother⟩
    exact h.keys v (List.mem_filter.1 hv).1 ⟨w, (List.mem_filter.1 hw).1, hother⟩
  · exact h.projects v (List.mem_filter.1 hv).1

/-! ### Processes that check something -/

/-- From the table the process writes no key that is taken, and ends as it should. -/
def Runs {α : Type} (rows : List Variables) (Q : Except VariablesError α → VariablesState → Prop)
    (p : Service α) : Prop :=
  ∀ s : VariablesState, s.rows = rows → s.Agrees → p.Does handle Permitted Q s

/-- The process writes no rows, and has found out `R` when it returns. -/
abbrev Checked {α : Type} (rows : List Variables) (R : α → Prop) (p : Service α) : Prop :=
  Runs rows (fun r s' => s'.rows = rows ∧ s'.Agrees ∧ ∀ a, r = .ok a → R a) p

/-- The process leaves the table as it should be. -/
abbrev Safe {α : Type} (rows : List Variables) (p : Service α) : Prop :=
  Runs rows (fun _ s' => s'.Sound) p

section Rules

variable {α β : Type} {R : α → Prop} {p p' : Service α} {f : α → Service β}

theorem Runs.ite {Q : Except VariablesError α → VariablesState → Prop} {c : Prop} [Decidable c]
    (hp : c → Runs rows Q p) (hp' : ¬ c → Runs rows Q p') : Runs rows Q (if c then p else p') := by
  split_ifs with hc
  · exact hp hc
  · exact hp' hc

theorem checked_pure {a : α} (h : R a) : Checked rows R (pure a : Service α) :=
  fun _ hrows hagrees => ⟨hrows, hagrees, fun b hb => by cases hb; exact h⟩

theorem checked_throw (e : VariablesError) : Checked rows R (.throw e : Service α) :=
  fun _ hrows hagrees => ⟨hrows, hagrees, fun b hb => by cases hb⟩

theorem Checked.bind {R' : β → Prop} (hp : Checked rows R p)
    (hf : ∀ a, R a → Checked rows R' (f a)) : Checked rows R' (p >>= f) :=
  fun s hrows hagrees => (hp s hrows hagrees).bind
    (fun a _ h => hf a (h.2.2 a rfl) _ h.1 h.2.1)
    fun _ _ h => ⟨h.1, h.2.1, fun b hb => by cases hb⟩

theorem Checked.safe (h : Unique rows) (hp : Checked rows R p) : Safe rows p :=
  fun s hrows hagrees => (hp s hrows hagrees).imp fun _ _ h' => ⟨h'.1 ▸ h, h'.2.1⟩

theorem Checked.bind_safe (h : Unique rows) (hp : Checked rows R p)
    (hf : ∀ a, R a → Safe rows (f a)) : Safe rows (p >>= f) :=
  fun s hrows hagrees => (hp s hrows hagrees).bind
    (fun a _ h' => hf a (h'.2.2 a rfl) _ h'.1 h'.2.1) fun _ _ h' => ⟨h'.1 ▸ h, h'.2.1⟩

theorem safe_pure (h : Unique rows) (a : α) : Safe rows (pure a : Service α) :=
  fun _ hrows hagrees => ⟨hrows ▸ h, hagrees⟩

theorem safe_throw (h : Unique rows) (e : VariablesError) : Safe rows (.throw e : Service α) :=
  fun _ hrows hagrees => ⟨hrows ▸ h, hagrees⟩

/-- A write, with the refresh after it and what goes on with the new table. -/
theorem safe_write {w : RowWrite} {g : Unit → Service α} (hw : w.KeepsUnique rows)
    (hg : Safe (w.apply rows) (g ())) : Safe rows (write w >>= fun _ => updateCache >>= g) := by
  intro s hrows hagrees
  subst hrows
  refine ⟨hw, trivial, trivial, hg _ rfl fun list hlist => ?_⟩
  cases hlist
  rfl

end Rules

/-! ### The checks of a request -/

variable (rows)

theorem checked_getOrRefresh : Checked rows (· = rows) getOrRefresh := by
  rintro ⟨_, cache, access⟩ rfl hagrees
  cases cache with
  | some list => exact ⟨trivial, rfl, hagrees, fun a ha => by cases ha; exact hagrees _ rfl⟩
  | none =>
    refine ⟨trivial, trivial, trivial, rfl, fun list hlist => ?_, fun a ha => ?_⟩
    · cases hlist
      rfl
    · cases ha
      rfl

theorem checked_getAllCached : Checked rows (· = rows) (getAllCached false) :=
  (checked_getOrRefresh rows).bind fun _ h => checked_pure h

theorem checked_getCached (id : String) :
    Checked rows (· = rows.find? fun v => v.id = id) (getCached id) :=
  (checked_getAllCached rows).bind fun _ h => checked_pure (by rw [h])

theorem checked_isAuthorizedForVariable (user : User) (scope : Scope) (projectId : Option String) :
    Checked rows (fun _ => True) (isAuthorizedForVariable user scope projectId) := by
  unfold isAuthorizedForVariable
  cases truthy projectId with
  | none => exact checked_pure trivial
  | some projectId => exact fun s hrows hagrees => ⟨trivial, hrows, hagrees, fun _ _ => trivial⟩

theorem checked_canMoveVariable (user : User) (project newProjectId : Option String) :
    Checked rows (fun _ => True) (canMoveVariable user project newProjectId) :=
  Runs.ite (fun _ => checked_pure trivial) fun _ => checked_isAuthorizedForVariable _ _ _ _

theorem checked_canCreateNewVariable (maxVariables : ℤ) :
    Checked rows (fun _ => True) (canCreateNewVariable maxVariables) :=
  Runs.ite (fun _ => checked_pure trivial) fun _ => (checked_getAllCached rows).bind fun _ _ =>
    Runs.ite (fun _ => checked_throw _) fun _ => checked_pure trivial

/-- **The look at the scope**: no variable but the one that is named has the key there. -/
theorem checked_validateUniqueVariable (key : String) (projectId id : Option String) :
    Checked rows (fun _ => ∀ v ∈ rows, v.key = key → some v.id ≠ truthy id →
      v.project ≠ truthy projectId) (validateUniqueVariable key projectId id) := by
  refine (checked_getAllCached rows).bind fun list hlist => ?_
  subst hlist
  have hfree : ∀ p : Variables → Bool,
      ¬ (list.filter fun v => v.key = key ∧ some v.id ≠ truthy id).any p = true →
      ∀ v ∈ list, v.key = key → some v.id ≠ truthy id → p v = false := by
    intro p hnone v hv hkey hid
    by_contra hp
    refine hnone (List.any_eq_true.2 ⟨v, List.mem_filter.2 ⟨hv, ?_⟩, by simpa using hp⟩)
    exact decide_eq_true ⟨hkey, hid⟩
  dsimp only
  cases truthy projectId with
  | none =>
    refine Runs.ite (fun _ => checked_throw _) fun hnone => checked_pure ?_
    intro v hv hkey hid hproject
    simpa [hproject] using hfree _ hnone v hv hkey hid
  | some projectId =>
    refine Runs.ite (fun _ => checked_throw _) fun hnone => checked_pure ?_
    intro v hv hkey hid hproject
    simpa [hproject] using hfree _ hnone v hv hkey hid

theorem checked_validateUpdatedKey (key : Option String)
    (existing : Variables) (newProjectId : Option String) :
    Checked rows (fun _ => ∀ k, truthy key = some k →
      ¬ Taken rows existing.id k (truthy newProjectId))
      (validateUpdatedKey key existing newProjectId) := by
  unfold validateUpdatedKey
  cases truthy key with
  | none => exact checked_pure fun k hk => by cases hk
  | some k =>
    intro s hrows hagrees
    refine (checked_validateUniqueVariable rows k newProjectId (some existing.id) s hrows
      hagrees).imp fun r s' hfound => ⟨hfound.1, hfound.2.1, fun a ha k' hk' => ?_⟩
    cases hk'
    rintro ⟨v, hv, hne, hkey, hproject⟩
    refine hfound.2.2 a ha v hv hkey (fun hid => hne ?_) hproject
    exact Option.some.inj (Option.filter_eq_some_iff.1 hid.symm).1 |>.symm

variable {rows}

/-! ### Requests -/

/-- An update without a key leaves the variable in a scope where no other one has its key.  A new
variable gets a new id. -/
def KeyFree (s : VariablesState) : Request → Prop
  | .create _ _ _ id => id ∉ s.rows.map Variables.id
  | .update _ id dto => truthy dto.key = none → ∀ v ∈ s.rows, v.id = id →
    ¬ Taken s.rows id (dto.key.getD v.key) ((dto.projectId.map truthy).getD v.project)
  | _ => True

theorem safe_create (h : Unique rows) (maxVariables : ℤ) (user : User) (dto : CreateVariable)
    (hid : id ∉ rows.map Variables.id) : Safe rows (create maxVariables user dto id) := by
  refine (checked_isAuthorizedForVariable rows _ _ _).bind_safe h fun right _ => ?_
  refine Runs.ite (fun _ => ?_) fun _ => safe_throw h _
  refine (checked_canCreateNewVariable rows _).bind_safe h fun _ _ => ?_
  refine (checked_validateUniqueVariable rows _ _ _).bind_safe h fun _ hfree => ?_
  have hnot : ¬ Taken rows id dto.key (truthy dto.projectId) := by
    rintro ⟨v, hv, -, hkey, hproject⟩
    exact hfree v hv hkey (by simp [truthy]) hproject
  exact safe_write hnot ((checked_pure (R := fun _ => True) trivial).safe
    (h.save hid hnot (truthy_ne_empty _)))

theorem safe_update (h : Unique rows) (user : User) (dto : UpdateVariable)
    (hfree : truthy dto.key = none → ∀ v ∈ rows, v.id = id →
      ¬ Taken rows id (dto.key.getD v.key) ((dto.projectId.map truthy).getD v.project)) :
    Safe rows (update user id dto) := by
  refine (checked_getCached rows id).bind_safe h fun found hfound => ?_
  cases found with
  | none => exact safe_throw h _
  | some existing =>
    have hmem := List.mem_of_find?_eq_some hfound.symm
    have hid : existing.id = id := by simpa using List.find?_some hfound.symm
    refine (checked_isAuthorizedForVariable rows _ _ _).bind_safe h fun right _ => ?_
    refine Runs.ite (fun _ => Runs.ite (fun _ => safe_throw h _) fun _ => ?_)
      fun _ => safe_throw h _
    refine (checked_canMoveVariable rows _ _ _).bind_safe h fun right' _ => ?_
    refine Runs.ite (fun _ => ?_) fun _ => safe_throw h _
    refine (checked_validateUpdatedKey rows _ _ _).bind_safe h fun _ hchecked => ?_
    refine Runs.ite (fun _ => safe_throw h _) fun _ => ?_
    -- the scope that was looked at is the one that is written
    have hscope : truthy (dto.projectId.getD existing.project) =
        (dto.projectId.map truthy).getD existing.project := by
      cases dto.projectId with
      | none => exact truthy_eq_self (h.projects existing hmem)
      | some project => rfl
    have hnot : ∀ v ∈ rows, v.id = id →
        ¬ Taken rows id (dto.key.getD v.key) ((dto.projectId.map truthy).getD v.project) := by
      intro v hv hvid
      cases hkey : truthy dto.key with
      | none => exact hfree hkey v hv hvid
      | some key =>
        obtain rfl : v = existing :=
          List.inj_on_of_nodup_map h.ids hv hmem (hvid.trans hid.symm)
        have hsome : dto.key = some key := (Option.filter_eq_some_iff.1 hkey).1
        rw [hsome, ← hscope, ← hid]
        exact hchecked key hkey
    refine safe_write hnot ((checked_getCached _ id).safe (h.update hnot ?_))
    intro hproject
    obtain ⟨project, -, htruthy⟩ := Option.map_eq_some_iff.1 hproject
    exact truthy_ne_empty _ htruthy

theorem safe_delete (h : Unique rows) (id : String) : Safe rows (delete id) :=
  safe_write (w := .delete id) trivial (safe_pure (h.filter _) _)

theorem safe_deleteByIds (h : Unique rows) (ids : List String) : Safe rows (deleteByIds ids) :=
  safe_write (w := .deleteByIds ids) trivial (safe_pure (h.filter _) _)

theorem safe_deleteForUser (h : Unique rows) (user : User) (id : String) :
    Safe rows (deleteForUser user id) :=
  (checked_getCached rows id).bind_safe h fun _ _ =>
    (checked_isAuthorizedForVariable rows _ _ _).bind_safe h fun _ _ =>
      Runs.ite (fun _ => safe_delete h id) fun _ => safe_throw h _

theorem safe_getForUser (h : Unique rows) (user : User) (id : String) (scope : Scope) :
    Safe rows (getForUser user id scope) := by
  refine (checked_getCached rows id).bind_safe h fun found _ => ?_
  cases found with
  | none => exact safe_pure h _
  | some found =>
    refine (checked_isAuthorizedForVariable rows _ _ _).bind_safe h fun _ _ => ?_
    exact Runs.ite (fun _ => safe_pure h _)
      fun _ => safe_throw h _

/-- **One request.** -/
theorem safe_process {s : VariablesState} (hs : s.Sound) {r : Request} (hr : KeyFree s r) :
    r.process.Does handle Permitted (fun _ s' => s'.Sound) s := by
  have hbind : ∀ {α : Type} {p : Service α} {g : α → List Variables}, Safe s.rows p →
      (p >>= fun a => pure (g a)).Does handle Permitted (fun _ s' => s'.Sound) s :=
    fun hp => (hp s rfl hs.agrees).bind (fun _ _ h => h) fun _ _ h => h
  cases r with
  | getAll globalOnly =>
    refine Checked.safe hs.unique (R := fun _ => True) ?_ s rfl hs.agrees
    exact (checked_getOrRefresh s.rows).bind fun _ _ => checked_pure trivial
  | get user id scope => exact hbind (safe_getForUser hs.unique user id scope)
  | create maxVariables user dto id => exact hbind (safe_create hs.unique maxVariables user dto hr)
  | update user id dto => exact hbind (safe_update hs.unique user dto hr)
  | deleteForUser user id => exact hbind (safe_deleteForUser hs.unique user id)
  | deleteByIds ids => exact hbind (safe_deleteByIds hs.unique ids)

/-! ### Runs -/

/-- What can happen between requests that are not under way at the same time. -/
inductive Turn
  | request (r : Request)
  /-- The cached list is dropped. -/
  | expires
  /-- Users get other access to projects. -/
  | accessChanges (access : User → String → Scope → Bool)

def turn (s : VariablesState) : Turn → VariablesState
  | .request r => (r.process.run handle s).2
  | .expires => { s with cache := none }
  | .accessChanges access => { s with access := access }

def Turn.KeyFree (s : VariablesState) : Turn → Prop
  | .request r => VariablesService.KeyFree s r
  | _ => True

/-- The request writes no key that another variable of the scope has. -/
def WritesUnique (s : VariablesState) (r : Request) : Prop :=
  r.process.Does handle Permitted (fun _ _ => True) s

theorem sound_turn {s : VariablesState} (hs : s.Sound) {t : Turn} (ht : t.KeyFree s) :
    (turn s t).Sound := by
  cases t with
  | request r => exact (safe_process hs ht).run
  | expires => exact ⟨hs.unique, fun _ hlist => by cases hlist⟩
  | accessChanges access => exact ⟨hs.unique, hs.agrees⟩

/-- **Keys stay unique**: when no update without a key moves a variable to where its key is taken, no
request writes a key that another variable of the scope has, and the variables of every scope have
different keys in every state. -/
theorem writes_keep_unique {s : VariablesState} (hs : s.Sound) {turns : List Turn}
    (h : Trace.EachStep turn Turn.KeyFree s turns) :
    (∀ pre, pre <+: turns → Unique (Trace.run turn s pre).rows) ∧
      ∀ pre r, pre ++ [.request r] <+: turns → WritesUnique (Trace.run turn s pre) r := by
  have hsound := h.invariant hs fun _ _ hs ht => sound_turn hs ht
  refine ⟨fun pre hpre => (hsound pre hpre).unique, fun pre r hpre => ?_⟩
  have hbefore := hsound pre ((List.prefix_append _ _).trans hpre)
  exact (safe_process hbefore (h pre (.request r) hpre)).imp fun _ _ _ => trivial

/-- An administrator, who creates a global variable and one of a project with the same key, and makes
the second one global. -/
def admin : User := { id := "u", globalScopes := [.create, .update] }

def createUrl (project : Option String) (id : String) : Request :=
  .create (-1) admin { key := "url", value := "x", projectId := project } id

def anyAccess : VariablesState := { access := fun _ _ _ => true }

theorem writes_keep_unique_two :
    let turns := [Turn.request (createUrl none "a"), .request (createUrl (some "p") "b")]
    (∀ pre, pre <+: turns → Unique (Trace.run turn anyAccess pre).rows) ∧
      ∀ pre r, pre ++ [.request r] <+: turns → WritesUnique (Trace.run turn anyAccess pre) r := by
  intro turns
  have hsound : anyAccess.Sound :=
    ⟨⟨List.nodup_nil, by simp [anyAccess], by simp [anyAccess]⟩, fun _ hlist => by cases hlist⟩
  refine writes_keep_unique hsound ?_
  simp only [turns, Trace.eachStep_cons]
  exact ⟨by show "a" ∉ _; decide, by show "b" ∉ _; decide, Trace.eachStep_nil⟩

/-- The project's variable becomes a global one although a global one has its key. -/
theorem move_keeps_key : ¬ WritesUnique
    (Trace.run turn anyAccess [.request (createUrl none "a"), .request (createUrl (some "p") "b")])
    (.update admin "b" { projectId := some none }) := by
  intro h
  have hwrite : Permitted _ (VariablesOp.write _) := h.2.2.1
  exact hwrite { id := "b", key := "url", value := "x", project := some "p" } (by decide) rfl
    ⟨{ id := "a", key := "url", value := "x" }, by decide, by decide, rfl, rfl⟩

end VariablesService

end N8n
