import N8n.Environments.VariablesService
import N8n.Lib.Dict
import Mathlib.Data.List.Induction

/-!
# The variables of an execution

`getVariables` of `workflow-helpers.ts` reads the variables in the order in which the repository
returns them.

* `projectIdToUse`, `setVariable`, `readVariables`, `getVariables`: what an execution is given;
* `UniquePerScope`, `valueFor`: unique keys, and the value that a key ought to have;
* `get?_readVariables`: a key has the value of the last variable that is in scope;
* `getVariables_projectWins_iff`: when that is the value it ought to have, in any order.
-/

namespace N8n

namespace VariablesService

section Read

-- what `OwnershipService.getWorkflowProjectCached` answers
variable (workflowProject : String → Except VariablesError String)

/-- The project that is passed, or else the one of the workflow. -/
def projectIdToUse (workflowId projectId : Option String) : Except VariablesError (Option String) :=
  match truthy workflowId, truthy projectId with
  | some workflowId, none =>
    -- `??` keeps an empty text
    (fun project => projectId.or (some project)) <$> workflowProject workflowId
  | _, _ => .ok projectId

/-- `acc[key] = value` on an object literal; a text that is assigned to `__proto__` is dropped. -/
def setVariable (acc : Dict String String) (curr : Variables) : Dict String String :=
  if curr.key = "__proto__" then acc else acc.set curr.key curr.value

/-- The variable is a global one, or of the project. -/
def InScope (project : Option String) (v : Variables) : Prop :=
  v.project = none ∨ v.project = truthy project

instance (project : Option String) (v : Variables) : Decidable (InScope project v) :=
  inferInstanceAs (Decidable (_ ∨ _))

/-- The fold over the variables. -/
def readVariables (project : Option String) (list : List Variables) : Dict String String :=
  list.foldl (fun acc curr =>
    if InScope project curr then setVariable acc curr else acc) .empty

def getVariables (workflowId projectId : Option String) : Service (Dict String String) := do
  let list ← getAllCached
  match projectIdToUse workflowProject workflowId projectId with
  | .ok project => pure (readVariables project list)
  | .error e => .throw e

end Read

/-- No two variables of one project have the same key, and no two global ones. -/
def UniquePerScope (rows : List Variables) : Prop := (rows.map fun v => (v.project, v.key)).Nodup

instance (rows : List Variables) : Decidable (UniquePerScope rows) :=
  inferInstanceAs (Decidable (List.Nodup _))

/-- The value of the project's variable with a key, or else of the global one. -/
def valueFor (project : Option String) (rows : List Variables) (key : String) : Option String :=
  ((rows.find? fun v => v.project = truthy project ∧ v.key = key).or
    (rows.find? fun v => v.project = none ∧ v.key = key)).map Variables.value

/-- The variables in scope that have the key. -/
def candidates (project : Option String) (rows : List Variables) (key : String) : List Variables :=
  rows.filter fun v => InScope project v ∧ v.key = key

/-- Where a project's variable comes before the global one with its key, they have one value. -/
def GlobalsFirst (project : Option String) (rows : List Variables) : Prop :=
  ∀ own shared, [own, shared].Sublist rows → own.project = truthy project →
    shared.project = none → own.key = shared.key → own.value = shared.value

/-- A project's variable and a global one with its key have one value. -/
def SharedAgree (project : Option String) (rows : List Variables) : Prop :=
  ∀ own ∈ rows, ∀ shared ∈ rows, own.project = truthy project → shared.project = none →
    own.key = shared.key → own.value = shared.value

/-- No variable in scope has the key `__proto__`. -/
def NoneHidden (project : Option String) (rows : List Variables) : Prop :=
  ∀ v ∈ rows, InScope project v → v.key ≠ "__proto__"

section Spec

variable {project : Option String} {rows : List Variables} {key : String}

theorem get?_setVariable (acc : Dict String String) (v : Variables) (key : String) :
    (setVariable acc v).get? key =
      if v.key = key ∧ key ≠ "__proto__" then some v.value else acc.get? key := by
  unfold setVariable
  split_ifs with hproto hkey hkey
  · exact absurd (hkey.1.symm.trans hproto) hkey.2
  · rfl
  · rw [hkey.1, Dict.get?_set_self]
  · have hne : v.key ≠ key := fun h => hkey ⟨h, h ▸ hproto⟩
    exact Dict.get?_set_ne _ _ (Ne.symm hne)

/-- **The last variable in scope counts.** -/
theorem get?_readVariables (project : Option String) (rows : List Variables) (key : String) :
    (readVariables project rows).get? key =
      if key = "__proto__" then none
      else (candidates project rows key).getLast?.map Variables.value := by
  unfold readVariables candidates
  induction rows using List.reverseRecOn with
  | nil => simp [Dict.get?_empty]
  | append_singleton rows v ih =>
    rw [List.foldl_append, List.foldl_cons, List.foldl_nil, List.filter_append]
    by_cases hscope : InScope project v
    · rw [if_pos hscope, get?_setVariable]
      by_cases hkey : v.key = key
      · by_cases hproto : key = "__proto__" <;> simp_all
      · simp [hkey, hscope, ih]
    · simp [hscope, ih]

theorem mem_candidates_iff {v : Variables} :
    v ∈ candidates project rows key ↔ v ∈ rows ∧ InScope project v ∧ v.key = key := by
  simp [candidates]

/-- At most one candidate is of each of the two scopes. -/
theorem candidates_nodup (project : Option String) (key : String) (hunique : UniquePerScope rows) :
    ((candidates project rows key).map Variables.project).Nodup := by
  have hpairs : ((candidates project rows key).map fun v => (v.project, v.key)).Nodup :=
    hunique.sublist (List.filter_sublist.map _)
  rw [List.Nodup, List.pairwise_map] at hpairs ⊢
  refine hpairs.imp_of_mem fun {v w} hv hw hne hproject => hne ?_
  rw [hproject, (mem_candidates_iff.1 hv).2.2, (mem_candidates_iff.1 hw).2.2]

/-- The shapes that the list of candidates can have. -/
inductive Shape (project : Option String) : List Variables → Prop
  | none : Shape project []
  | one (v : Variables) (h : InScope project v) : Shape project [v]
  | ownFirst {own shared : Variables} (hown : own.project = truthy project)
      (hne : own.project ≠ none) (hshared : shared.project = none) : Shape project [own, shared]
  | sharedFirst {own shared : Variables} (hown : own.project = truthy project)
      (hne : own.project ≠ none) (hshared : shared.project = none) : Shape project [shared, own]

theorem shape_candidates (project : Option String) (key : String) (hunique : UniquePerScope rows) :
    Shape project (candidates project rows key) := by
  have hnodup := candidates_nodup project key hunique
  have hscope : ∀ v ∈ candidates project rows key, InScope project v :=
    fun v hv => (mem_candidates_iff.1 hv).2.1
  generalize candidates project rows key = found at hnodup hscope
  rcases found with _ | ⟨v, _ | ⟨w, _ | ⟨u, rest⟩⟩⟩
  · exact .none
  · exact .one v (hscope v List.mem_cons_self)
  · have hv := hscope v (by simp)
    have hw := hscope w (by simp)
    have hne : v.project ≠ w.project := by simpa using hnodup
    rcases hv with hv | hv
    · have hw' : w.project ≠ none := fun h => hne (hv.trans h.symm)
      exact .sharedFirst (hw.resolve_left hw') hw' hv
    · have hw' : w.project = none := hw.resolve_right fun h => hne (hv.trans h.symm)
      exact .ownFirst hv (fun h => hne (h.trans hw'.symm)) hw'
  · -- three variables are in two scopes
    have hv := hscope v (by simp)
    have hw := hscope w (by simp)
    have hu := hscope u (by simp)
    unfold InScope at hv hw hu
    simp only [List.map_cons, List.nodup_cons, List.mem_cons, not_or] at hnodup
    grind

theorem valueFor_eq (project : Option String) (rows : List Variables) (key : String) :
    valueFor project rows key =
      (((candidates project rows key).find? fun v => v.project = truthy project).or
        ((candidates project rows key).find? fun v => v.project = none)).map Variables.value := by
  unfold valueFor candidates
  rw [List.find?_filter, List.find?_filter]
  congr 2
  · congr 1
    funext v
    by_cases h : v.project = truthy project <;> simp [InScope, h]
  · congr 1
    funext v
    by_cases h : v.project = none <;> simp [InScope, h]

/-- The last candidate has the value that the key ought to have, unless the project's variable comes
first and has another one. -/
theorem getLast?_eq_valueFor_iff (hunique : UniquePerScope rows) :
    (candidates project rows key).getLast?.map Variables.value = valueFor project rows key ↔
      ∀ own shared, candidates project rows key = [own, shared] → own.project = truthy project →
        shared.project = none → own.value = shared.value := by
  rw [valueFor_eq]
  have hshape := shape_candidates project key hunique
  generalize candidates project rows key = found at hshape
  cases hshape with
  | none => simp
  | one v h =>
    by_cases htruthy : Option.none = truthy project <;>
      rcases h with h | h <;> simp [h, htruthy, List.find?_singleton]
  | ownFirst hown hne hshared => simp [hown, hshared, eq_comm]
  | sharedFirst hown hne hshared =>
    rename_i own shared
    have htruthy : truthy project ≠ .none := hown ▸ hne
    simp [hown, hshared, htruthy, Ne.symm htruthy]

theorem valueFor_eq_none_iff :
    valueFor project rows key = none ↔ candidates project rows key = [] := by
  rw [valueFor_eq, Option.map_eq_none_iff, Option.or_eq_none_iff, List.find?_eq_none,
    List.find?_eq_none, List.eq_nil_iff_forall_not_mem]
  constructor
  · rintro ⟨hown, hshared⟩ v hv
    rcases (mem_candidates_iff.1 hv).2.1 with h | h
    · exact hshared v hv (by simpa using h)
    · exact hown v hv (by simpa using h)
  · exact fun h => ⟨fun v hv => absurd hv (h v), fun v hv => absurd hv (h v)⟩

/-- Two variables of scope and key that follow each other are the candidates. -/
theorem candidates_eq_pair_iff (hunique : UniquePerScope rows) {v w : Variables} :
    candidates project rows key = [v, w] ↔
      [v, w].Sublist rows ∧ (InScope project v ∧ v.key = key) ∧ InScope project w ∧ w.key = key := by
  constructor
  · intro h
    have hmem : ∀ u ∈ [v, w], InScope project u ∧ u.key = key :=
      fun u hu => (mem_candidates_iff.1 (h ▸ hu)).2
    refine ⟨h ▸ List.filter_sublist, hmem v (by simp), hmem w (by simp)⟩
  · rintro ⟨hsub, hv, hw⟩
    have hfilter := hsub.filter fun u => InScope project u ∧ u.key = key
    rw [show [v, w].filter (fun u => InScope project u ∧ u.key = key) = [v, w] by simp [hv, hw]]
      at hfilter
    refine (hfilter.eq_of_length_le ?_).symm
    have hshape := shape_candidates project key hunique
    change (candidates project rows key).length ≤ 2
    generalize candidates project rows key = found at hshape ⊢
    cases hshape <;> simp

/-- **In one order**: every key has the value it ought to have. -/
theorem readVariables_eq_iff (hunique : UniquePerScope rows) :
    (∀ key, (readVariables project rows).get? key = valueFor project rows key) ↔
      GlobalsFirst project rows ∧ NoneHidden project rows := by
  simp only [get?_readVariables]
  constructor
  · intro h
    have hhidden : NoneHidden project rows := by
      rintro v hv hscope hkey
      have hnone := h "__proto__"
      rw [if_pos rfl, eq_comm, valueFor_eq_none_iff] at hnone
      exact List.not_mem_nil (hnone ▸ mem_candidates_iff.2 ⟨hv, hscope, hkey⟩)
    refine ⟨fun own shared hsub hown hshared hkey => ?_, hhidden⟩
    have hproto := hhidden own (hsub.subset (by simp)) (.inr hown)
    have hlast := h own.key
    rw [if_neg hproto, getLast?_eq_valueFor_iff hunique] at hlast
    exact hlast own shared ((candidates_eq_pair_iff hunique).2
      ⟨hsub, ⟨.inr hown, rfl⟩, .inl hshared, hkey.symm⟩) hown hshared
  · rintro ⟨hfirst, hhidden⟩ key
    split_ifs with hproto
    · subst hproto
      rw [eq_comm, valueFor_eq_none_iff, List.eq_nil_iff_forall_not_mem]
      intro v hv
      obtain ⟨hv, hscope, hkey⟩ := mem_candidates_iff.1 hv
      exact hhidden v hv hscope hkey
    · rw [getLast?_eq_valueFor_iff hunique]
      intro own shared hpair hown hshared
      obtain ⟨hsub, ⟨-, hkey⟩, -, hkey'⟩ := (candidates_eq_pair_iff hunique).1 hpair
      exact hfirst own shared hsub hown hshared (hkey.trans hkey'.symm)

/-- The candidates for one key have one value. -/
theorem candidates_agree (hunique : UniquePerScope rows) (hagree : SharedAgree project rows)
    {v w : Variables} (hv : v ∈ candidates project rows key)
    (hw : w ∈ candidates project rows key) : v.value = w.value := by
  have hagree' : ∀ own ∈ candidates project rows key, ∀ shared ∈ candidates project rows key,
      own.project = truthy project → shared.project = none → own.value = shared.value := by
    intro own hown shared hshared
    obtain ⟨hown, -, hkey⟩ := mem_candidates_iff.1 hown
    obtain ⟨hshared, -, hkey'⟩ := mem_candidates_iff.1 hshared
    exact fun h h' => hagree own hown shared hshared h h' (hkey.trans hkey'.symm)
  have hshape := shape_candidates project key hunique
  generalize candidates project rows key = found at hshape hv hw hagree'
  cases hshape with
  | none => exact absurd hv List.not_mem_nil
  | one u _ => rw [List.mem_singleton.1 hv, List.mem_singleton.1 hw]
  | @ownFirst own shared hown _ hshared =>
    have hsame := hagree' own (by simp) shared (by simp) hown hshared
    simp only [List.mem_cons, List.not_mem_nil, or_false] at hv hw
    rcases hv with rfl | rfl <;> rcases hw with rfl | rfl <;> simp [hsame]
  | @sharedFirst own shared hown _ hshared =>
    have hsame := hagree' own (by simp) shared (by simp) hown hshared
    simp only [List.mem_cons, List.not_mem_nil, or_false] at hv hw
    rcases hv with rfl | rfl <;> rcases hw with rfl | rfl <;> simp [hsame]

/-- **In any order**: the values do not depend on the order of the rows. -/
theorem readVariables_perm (hunique : UniquePerScope rows) (hagree : SharedAgree project rows)
    {rows' : List Variables} (hperm : rows'.Perm rows) (key : String) :
    (readVariables project rows').get? key = (readVariables project rows).get? key := by
  rw [get?_readVariables, get?_readVariables]
  have hfound : (candidates project rows' key).Perm (candidates project rows key) := hperm.filter _
  split_ifs with hproto
  · rfl
  · rcases hlast : (candidates project rows key).getLast? with _ | v
    · rw [List.getLast?_eq_none_iff] at hlast
      rw [hlast, List.perm_nil] at hfound
      rw [hfound]
      rfl
    · have hv := List.mem_of_getLast? hlast
      rcases hlast' : (candidates project rows' key).getLast? with _ | w
      · rw [List.getLast?_eq_none_iff] at hlast'
        rw [hlast', List.nil_perm] at hfound
        exact absurd hv (by simp [hfound])
      · have hw := hfound.subset (List.mem_of_getLast? hlast')
        exact congrArg some (candidates_agree hunique hagree hw hv)

/-- Where the opposite order gives the same values, both variables of a key have one. -/
theorem sharedAgree_of_reverse (hunique : UniquePerScope rows) (hhidden : NoneHidden project rows)
    (h : ∀ key, (readVariables project rows.reverse).get? key =
      (readVariables project rows).get? key) : SharedAgree project rows := by
  intro own hown shared hshared hproject hnone hkey
  have hsame := h own.key
  rw [get?_readVariables, get?_readVariables, if_neg (hhidden own hown (.inr hproject)),
    if_neg (hhidden own hown (.inr hproject)), candidates, List.filter_reverse,
    List.getLast?_reverse] at hsame
  have hown' : own ∈ candidates project rows own.key :=
    mem_candidates_iff.2 ⟨hown, .inr hproject, rfl⟩
  have hshared' : shared ∈ candidates project rows own.key :=
    mem_candidates_iff.2 ⟨hshared, .inl hnone, hkey.symm⟩
  change (candidates project rows own.key).head?.map _ = _ at hsame
  have hshape := shape_candidates project own.key hunique
  generalize candidates project rows own.key = found at hshape hown' hshared' hsame
  cases hshape with
  | none => exact absurd hown' List.not_mem_nil
  | one u _ => rw [List.mem_singleton.1 hown', List.mem_singleton.1 hshared']
  | ownFirst _ _ _ =>
    simp only [List.mem_cons, List.not_mem_nil, or_false] at hown' hshared'
    rcases hown' with rfl | rfl <;> rcases hshared' with rfl | rfl <;> simp_all
  | sharedFirst _ _ _ =>
    simp only [List.mem_cons, List.not_mem_nil, or_false] at hown' hshared'
    rcases hown' with rfl | rfl <;> rcases hshared' with rfl | rfl <;> simp_all

end Spec

/-! ### What an execution is given -/

section Executions

variable (workflowProject : String → Except VariablesError String)
  {workflowId projectId project : Option String}

/-- A call that runs alone reads the rows of the repository. -/
theorem run_getVariables (hproject : projectIdToUse workflowProject workflowId projectId = .ok project)
    (rows : List Variables) (access : User → String → Scope → Bool) :
    (Process.run handle (getVariables workflowProject workflowId projectId)
      { rows := rows, access := access }).1 = .ok (readVariables project rows) := by
  rw [getVariables, hproject]
  rfl

end Executions

/-- **Project variables and global ones**: an execution is given what the fold makes of the rows, in
their order.  Every key has the value it ought to have exactly when the project's variables come after
the global ones with other values; and this in any order exactly when there are none. -/
theorem getVariables_projectWins_iff (workflowProject : String → Except VariablesError String)
    {workflowId projectId project : Option String}
    (hproject : projectIdToUse workflowProject workflowId projectId = .ok project)
    {rows : List Variables} (hunique : UniquePerScope rows)
    (access : User → String → Scope → Bool) :
    (∀ rows', (Process.run handle (getVariables workflowProject workflowId projectId)
      { rows := rows', access := access }).1 = .ok (readVariables project rows')) ∧
    ((∀ key, (readVariables project rows).get? key = valueFor project rows key) ↔
      GlobalsFirst project rows ∧ NoneHidden project rows) ∧
    ((∀ key, (readVariables project rows).get? key = valueFor project rows key) ∧
        (∀ rows', rows'.Perm rows → ∀ key,
          (readVariables project rows').get? key = (readVariables project rows).get? key) ↔
      SharedAgree project rows ∧ NoneHidden project rows) := by
  refine ⟨fun rows' => run_getVariables workflowProject hproject rows' access,
    readVariables_eq_iff hunique, ?_⟩
  rw [readVariables_eq_iff hunique]
  constructor
  · rintro ⟨⟨-, hhidden⟩, hperm⟩
    exact ⟨sharedAgree_of_reverse hunique hhidden (hperm _ rows.reverse_perm), hhidden⟩
  · rintro ⟨hagree, hhidden⟩
    refine ⟨⟨fun own shared hsub => ?_, hhidden⟩,
      fun rows' hperm => readVariables_perm hunique hagree hperm⟩
    exact hagree own (hsub.subset (by simp)) shared (hsub.subset (by simp))

/-- A global variable and one of a project with the same key. -/
def sharedVariable : Variables := { id := "1", key := "url", value := "shared" }

def ownVariable : Variables := { id := "2", key := "url", value := "own", project := some "p" }

theorem getVariables_projectWins_iff_pair :
    projectIdToUse (fun _ => .ok "p") none (some "p") = .ok (some "p") ∧
      UniquePerScope [sharedVariable, ownVariable] ∧
      ((∀ key, (readVariables (some "p") [sharedVariable, ownVariable]).get? key =
          valueFor (some "p") [sharedVariable, ownVariable] key) ↔
        GlobalsFirst (some "p") [sharedVariable, ownVariable] ∧
          NoneHidden (some "p") [sharedVariable, ownVariable]) :=
  have hproject : projectIdToUse (fun _ => .ok "p") none (some "p") = .ok (some "p") := by decide
  have hunique : UniquePerScope [sharedVariable, ownVariable] := by decide
  ⟨hproject, hunique,
    (getVariables_projectWins_iff (fun _ => .ok "p") hproject hunique fun _ _ _ => true).2.1⟩

/-- Read after the project's variable, the global one overwrites it. -/
theorem global_overwrites_own :
    UniquePerScope [ownVariable, sharedVariable] ∧
      (Process.run handle (getVariables (fun _ => .ok "p") none (some "p"))
        { rows := [ownVariable, sharedVariable] }).1 =
          .ok (readVariables (some "p") [ownVariable, sharedVariable]) ∧
      (readVariables (some "p") [ownVariable, sharedVariable]).get? "url" = some "shared" ∧
      valueFor (some "p") [ownVariable, sharedVariable] "url" = some "own" :=
  ⟨by decide, rfl, by decide, by decide⟩

end VariablesService

end N8n
