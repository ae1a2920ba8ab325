import N8n.RoleMapping.Rules

/-!
# The role mapping rule service

`CustomRoleMappingRuleService`: creating, patching, removing and moving a rule.

* `create`, `patch`, `remove`, `move`: the calls, each a program that reaches the database;
* `reindex`, `writeOrder`: the renumbering of the rules of a type;
* `RuleCall`: a request together with what the service reads besides the rules.
-/

namespace N8n

namespace RoleMapping

open Stateful

/-- What the service reads besides the rules. -/
structure Directory where
  roles : List Role := []
  projects : List String := []

/-- A program of the service. -/
abbrev Service := Stateful (Connection RoleMappingRules) RuleError

/-- The body of a request to create a rule. -/
structure CreateRule where
  expression : String
  role : String
  type : RuleKind
  order : ℤ
  projectIds : Option (List String) := none
  deriving DecidableEq

/-- The body of a request to patch a rule. -/
structure PatchRule where
  expression : Option String := none
  role : Option String := none
  type : Option RuleKind := none
  order : Option ℤ := none
  projectIds : Option (List String) := none
  deriving DecidableEq

/-- What a call answers. -/
structure RuleMappingItem where
  id : String
  expression : String
  role : String
  type : RuleKind
  order : ℤ
  projectIds : List String
  deriving DecidableEq

/-- The text of a type. -/
def RuleKind.text : RuleKind → String
  | .«instance» => "instance"
  | .project => "project"

/-! ### Checks -/

def requireRole (directory : Directory) (slug : String) : Service Role := do
  match ← query .unavailable fun _ => directory.roles.find? fun r => r.slug = slug with
  | some r => pure r
  | none => fail (.notFound ("Role \"" ++ slug ++ "\" not found"))

def validateRoleKind (role : Role) (kind : RuleKind) : Except RuleError Unit :=
  if kind = .«instance» ∧ role.roleType ≠ .global then
    .error (.badRequest "Instance rules require a global role")
  else if kind = .project ∧ role.roleType ≠ .project then
    .error (.badRequest "Project rules require a project role")
  else .ok ()

def resolveProjectIds (kind : RuleKind) (explicit : Option (List String))
    (fallback : List String) : Except RuleError (List String) :=
  match kind with
  | .«instance» =>
    if explicit.getD [] ≠ [] then
      .error (.badRequest "projectIds must be empty for instance rules")
    else .ok []
  | .project =>
    let ids := (explicit.getD fallback).eraseDups
    if ids = [] then .error (.badRequest "projectIds required for project rules") else .ok ids

def ensureOrderSlotFree (kind : RuleKind) (order : ℤ) (excludeId : Option String) :
    Service Unit := do
  match ← query .unavailable fun rules => rules.findAt kind order with
  | none => pure ()
  | some existing =>
    if some existing.id = excludeId then pure ()
    else
      fail (.conflict ("Order " ++ toString order ++ " already taken for type \"" ++ kind.text ++
        "\""))

/-- The role of a patched rule, which is looked up when it changes. -/
def roleOf (directory : Directory) (rule : RoleMappingRule) (slug : String) : Service Role :=
  if slug = rule.role.slug then pure rule.role else requireRole directory slug

def findProjects (directory : Directory) (pids : List String) : Service (List String) :=
  if pids = [] then pure []
  else query .unavailable fun _ => directory.projects.filter fun p => p ∈ pids

/-- The projects a rule is linked to. -/
def linkProjects (directory : Directory) (pids : List String) : Service (List String) := do
  let linked ← findProjects directory pids
  if linked.length ≠ pids.length then fail (.badRequest "One or more projects not found")
  else pure linked

/-! ### Renumbering -/

/-- One update for each of the rules: the `i`-th gets the order `base + i`. -/
def setOrders (base : ℤ) (ids : List String) : Service Unit :=
  each (fun p => statement .unavailable fun rules =>
    rules.update p.1 fun r => { r with order := base + p.2 }) ids.zipIdx

def writeOrder (ids : List String) : Service Unit :=
  if ids = [] then pure ()
  else
    transaction .unavailable do
      setOrders (ids.length + 1000) ids
      setOrders 0 ids

def reindex (kind : RuleKind) : Service Unit := do
  let all ← query .unavailable fun rules => rules.ofKind kind
  if all = [] ∨ ∀ p ∈ all.zipIdx, p.1.order = p.2 then pure ()
  else writeOrder (all.map RoleMappingRule.id)

/-! ### Calls -/

def serialize (r : RoleMappingRule) : RuleMappingItem where
  id := r.id
  expression := r.expression
  role := r.role.slug
  type := r.type
  order := r.order
  projectIds := r.projects

/-- The answer of a call: the rule as the table has it. -/
def findOneOrFail (id : String) : Service RuleMappingItem := do
  match ← query .unavailable fun rules => rules.findById id with
  | some r => pure (serialize r)
  | none => fail .entityNotFound

def requireRule (id : String) : Service RoleMappingRule := do
  if id = "" then fail (.badRequest "Rule id required")
  else
    match ← query .unavailable fun rules => rules.findById id with
    | some rule => pure rule
    | none => fail (.notFound "Rule not found")

/-- The rule a request asks for, with the key that the entity gets. -/
def newRule (directory : Directory) (id : String) (dto : CreateRule) : Service RoleMappingRule := do
  let pids ← lift (resolveProjectIds dto.type dto.projectIds [])
  let role ← requireRole directory dto.role
  lift (validateRoleKind role dto.type)
  ensureOrderSlotFree dto.type dto.order none
  let linked ← linkProjects directory pids
  pure {
    id := id
    expression := dto.expression
    role := role
    type := dto.type
    order := dto.order
    projects := linked }

def create (directory : Directory) (id : String) (dto : CreateRule) : Service RuleMappingItem := do
  let entity ← newRule directory id dto
  statement .unavailable fun rules => rules.insert entity
  reindex dto.type
  findOneOrFail entity.id

/-- The rule found and the rule a patch asks for. -/
def patchedRule (directory : Directory) (id : String) (dto : PatchRule) :
    Service (RoleMappingRule × RoleMappingRule) := do
  if id = "" then fail (.badRequest "Rule id required")
  else if dto = {} then fail (.badRequest "At least one field required")
  else
    let rule ← requireRule id
    let kind := dto.type.getD rule.type
    let role ← roleOf directory rule (dto.role.getD rule.role.slug)
    lift (validateRoleKind role kind)
    let order := dto.order.getD rule.order
    ensureOrderSlotFree kind order (some id)
    let pids ← lift (resolveProjectIds kind dto.projectIds rule.projects)
    let linked ← linkProjects directory pids
    pure (rule, {
      id := rule.id
      expression := dto.expression.getD rule.expression
      role := role
      type := kind
      order := order
      projects := linked })

def patch (directory : Directory) (id : String) (dto : PatchRule) : Service RuleMappingItem := do
  let (rule, patched) ← patchedRule directory id dto
  statement .unavailable fun rules => rules.update rule.id fun _ => patched
  reindex patched.type
  if rule.type ≠ patched.type then
    reindex rule.type
  findOneOrFail id

def remove (id : String) : Service Unit := do
  let rule ← requireRule id
  statement .unavailable fun rules => .ok (rules.remove rule.id)
  reindex rule.type

/-- The rules with the one of the key taken out and put in at the target. -/
def moved (all : List RoleMappingRule) (id : String) (target : ℕ) : List RoleMappingRule :=
  let fromIndex := all.findIdx fun r => r.id = id
  let toIndex := min target (all.length - 1)
  match all[fromIndex]? with
  | some rule => (all.eraseIdx fromIndex).insertIdx toIndex rule
  | none => all

def move (id : String) (target : ℕ) : Service RuleMappingItem := do
  let rule ← requireRule id
  let all ← query .unavailable fun rules => rules.ofKind rule.type
  writeOrder ((moved all id target).map RoleMappingRule.id)
  findOneOrFail id

/-- A request to the service; a new rule gets the key. -/
inductive RuleRequest
  | create (id : String) (dto : CreateRule)
  | patch (id : String) (dto : PatchRule)
  | remove (id : String)
  | move (id : String) (target : ℕ)

/-- The answer to a request. -/
def RuleRequest.run (directory : Directory) : RuleRequest → Service (Option RuleMappingItem)
  | .create id dto => do
    let item ← RoleMapping.create directory id dto
    pure (some item)
  | .patch id dto => do
    let item ← RoleMapping.patch directory id dto
    pure (some item)
  | .remove id => do
    RoleMapping.remove id
    pure none
  | .move id target => do
    let item ← RoleMapping.move id target
    pure (some item)

/-- A request, and what the service reads besides the rules while it runs. -/
structure RuleCall where
  directory : Directory
  request : RuleRequest

/-! ### What the checks leave alone -/

/-- What a renumbering that gets stuck throws is thrown by nothing else. -/
abbrev IsCheckError (e : RuleError) : Prop := e ≠ .uniqueConstraint

variable {rules rules' : RoleMappingRules} {rule entity patched : RoleMappingRule} {id : String}

theorem checks_query_rules {α : Type} (g : RoleMappingRules → α) :
    Checks .unavailable IsCheckError (query .unavailable g) := checks_query (by decide) g

variable (directory : Directory)

theorem checks_requireRole (slug : String) :
    Checks .unavailable IsCheckError (requireRole directory slug) := by
  refine (checks_query_rules _).bind fun found => ?_
  cases found with
  | none => exact checks_fail (by simp)
  | some r => exact checks_pure r

theorem checks_validateRoleKind (role : Role) (kind : RuleKind) :
    Checks .unavailable IsCheckError (lift (validateRoleKind role kind) : Service Unit) := by
  apply checks_lift
  intro e he
  rw [validateRoleKind] at he
  split_ifs at he <;> cases he <;> simp

theorem checks_resolveProjectIds (kind : RuleKind) (explicit : Option (List String))
    (fallback : List String) : Checks .unavailable IsCheckError
      (lift (resolveProjectIds kind explicit fallback) : Service (List String)) := by
  apply checks_lift
  intro e he
  cases kind with
  | «instance» =>
    rw [resolveProjectIds] at he
    split_ifs at he
    cases he
    simp
  | project =>
    rw [resolveProjectIds] at he
    split_ifs at he
    cases he
    simp

theorem checks_ensureOrderSlotFree (kind : RuleKind) (order : ℤ) (excludeId : Option String) :
    Checks .unavailable IsCheckError (ensureOrderSlotFree kind order excludeId) := by
  refine (checks_query_rules _).bind fun found => ?_
  cases found with
  | none => exact checks_pure ()
  | some r => exact (checks_pure ()).ite (checks_fail (by simp))

theorem checks_roleOf (rule : RoleMappingRule) (slug : String) :
    Checks .unavailable IsCheckError (roleOf directory rule slug) :=
  (checks_pure _).ite (checks_requireRole _ _)

theorem checks_findProjects (pids : List String) :
    Checks .unavailable IsCheckError (findProjects directory pids) :=
  (checks_pure _).ite (checks_query_rules _)

theorem checks_linkProjects (pids : List String) :
    Checks .unavailable IsCheckError (linkProjects directory pids) := by
  refine (checks_findProjects _ _).bind fun linked => ?_
  exact (checks_fail (by simp)).ite (checks_pure linked)

theorem checks_findOneOrFail (id : String) :
    Checks .unavailable IsCheckError (findOneOrFail id) := by
  refine (checks_query_rules _).bind fun found => ?_
  cases found with
  | none => exact checks_fail (by simp)
  | some r => exact checks_pure _

theorem checks_requireRule (id : String) : Checks .unavailable IsCheckError (requireRule id) := by
  refine (checks_fail (by simp)).ite ((checks_query_rules _).bind fun found => ?_)
  cases found with
  | none => exact checks_fail (by simp)
  | some r => exact checks_pure r

theorem checks_newRule (id : String) (dto : CreateRule) :
    Checks .unavailable IsCheckError (newRule directory id dto) := by
  refine (checks_resolveProjectIds _ _ _).bind fun pids => ?_
  refine (checks_requireRole _ _).bind fun role => (checks_validateRoleKind _ _).bind fun _ => ?_
  refine (checks_ensureOrderSlotFree _ _ _).bind fun _ => ?_
  exact (checks_linkProjects _ _).bind fun linked => checks_pure _

theorem checks_patchedRule (id : String) (dto : PatchRule) :
    Checks .unavailable IsCheckError (patchedRule directory id dto) := by
  refine (checks_fail (by simp)).ite ((checks_fail (by simp)).ite ?_)
  refine (checks_requireRule id).bind fun rule => (checks_roleOf _ _ _).bind fun role => ?_
  refine (checks_validateRoleKind _ _).bind fun _ => ?_
  refine (checks_ensureOrderSlotFree _ _ _).bind fun _ => ?_
  refine (checks_resolveProjectIds _ _ _).bind fun pids => ?_
  exact (checks_linkProjects _ _).bind fun linked => checks_pure _

/-! ### What the checks give -/

theorem requireRule_ok (h : Ends (requireRule id) rules (.ok rule) rules') :
    id ≠ "" ∧ rules.findById id = some rule := by
  rw [requireRule] at h
  split_ifs at h with hid
  · cases (ends_lift h).1
  · obtain ⟨found, hfound, h⟩ := (readsOnly_query _ _).bind_ok h
    obtain ⟨rfl, -⟩ := ends_query_ok hfound
    refine ⟨hid, ?_⟩
    cases hrule : rules.findById id with
    | none =>
      rw [hrule] at h
      cases (ends_lift h).1
    | some r =>
      rw [hrule] at h
      cases (ends_pure_ok h).1
      rfl

theorem ensureOrderSlotFree_ok {kind : RuleKind} {order : ℤ} {excludeId : Option String} {u : Unit}
    (h : Ends (ensureOrderSlotFree kind order excludeId) rules (.ok u) rules') :
    ∀ r ∈ rules.rows, r.type = kind → r.order = order → some r.id = excludeId := by
  intro r hr htype horder
  obtain ⟨found, hfound, h⟩ := (readsOnly_query _ _).bind_ok h
  obtain ⟨rfl, -⟩ := ends_query_ok hfound
  cases hat : rules.findAt kind order with
  | none => exact absurd horder (RoleMappingRules.findAt_eq_none_iff.1 hat r hr htype)
  | some existing =>
    rw [hat] at h
    have hexisting : existing.type = kind ∧ existing.order = order := by
      simpa using List.find?_some hat
    have heq : existing = r := RoleMappingRules.eq_of_order_eq (List.mem_of_find?_eq_some hat) hr
      (hexisting.1.trans htype.symm) (hexisting.2.trans horder.symm)
    dsimp only at h
    split_ifs at h with hid
    · rw [← heq]
      exact hid
    · cases (ends_lift h).1

theorem newRule_ok {directory : Directory} {dto : CreateRule}
    (h : Ends (newRule directory id dto) rules (.ok entity) rules') :
    entity.id = id ∧ entity.type = dto.type ∧ entity.order = dto.order ∧
      ∀ r ∈ rules.rows, r.type = dto.type → r.order ≠ dto.order := by
  obtain ⟨pids, -, h⟩ := (readsOnly_lift _).bind_ok h
  obtain ⟨role, -, h⟩ := (checks_requireRole _ _).bind_ok h
  obtain ⟨_, -, h⟩ := (readsOnly_lift _).bind_ok h
  obtain ⟨_, hfree, h⟩ := (checks_ensureOrderSlotFree _ _ _).bind_ok h
  obtain ⟨linked, -, h⟩ := (checks_linkProjects _ _).bind_ok h
  cases (ends_pure_ok h).1
  refine ⟨rfl, rfl, rfl, fun r hr htype horder => ?_⟩
  cases ensureOrderSlotFree_ok hfree r hr htype horder

theorem patchedRule_ok {directory : Directory} {dto : PatchRule}
    (h : Ends (patchedRule directory id dto) rules (.ok (rule, patched)) rules') :
    rules.findById id = some rule ∧ patched.id = rule.id ∧
      patched.type = dto.type.getD rule.type ∧ patched.order = dto.order.getD rule.order ∧
      ∀ r ∈ rules.rows, r.type = patched.type → r.order = patched.order → r.id = id := by
  rw [patchedRule] at h
  split_ifs at h
  · cases (ends_lift h).1
  · cases (ends_lift h).1
  · obtain ⟨found, hfound, h⟩ := (checks_requireRule _).bind_ok h
    obtain ⟨role, -, h⟩ := (checks_roleOf _ _ _).bind_ok h
    obtain ⟨_, -, h⟩ := (readsOnly_lift _).bind_ok h
    obtain ⟨_, hfree, h⟩ := (checks_ensureOrderSlotFree _ _ _).bind_ok h
    obtain ⟨pids, -, h⟩ := (readsOnly_lift _).bind_ok h
    obtain ⟨linked, -, h⟩ := (checks_linkProjects _ _).bind_ok h
    cases (ends_pure_ok h).1
    refine ⟨(requireRule_ok hfound).2, rfl, rfl, rfl, fun r hr htype horder => ?_⟩
    exact Option.some.inj (ensureOrderSlotFree_ok hfree r hr htype horder)

end RoleMapping

end N8n
