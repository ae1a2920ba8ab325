import N8n.Lib.Connection
import N8n.Lib.InOrder

/-!
# Role mapping rules

The table of role mapping rules and the statements that read and write it.

* `RoleMappingRules`: the rows, with their keys and the unique constraint on type and order;
* `RoleMappingRules.insert`, `update`, `remove`: the statements, which the constraints may refuse;
* `RoleMappingRules.ofKind`, `sequence`: the rules of a type in their order.
-/

namespace N8n

namespace RoleMapping

/-- What the rules of a type map to. -/
inductive RuleKind
  | «instance»
  | project
  deriving DecidableEq

/-- What a role is given on. -/
inductive RoleType
  | global
  | project
  | workflow
  | credential
  | secretsProviderConnection
  deriving DecidableEq

/-- A role. -/
structure Role where
  slug : String
  roleType : RoleType
  deriving DecidableEq

/-- A rule, with the role and the projects it is linked to. -/
structure RoleMappingRule where
  id : String
  expression : String
  role : Role
  type : RuleKind
  order : ℤ
  projects : List String
  deriving DecidableEq

/-- What a call throws. -/
inductive RuleError
  | badRequest (message : String)
  | notFound (message : String)
  | conflict (message : String)
  | entityNotFound
  | duplicateKey
  | uniqueConstraint
  | unavailable
  deriving DecidableEq

/-- The rows of the table; the keys are distinct, and no two rules of a type have the same order. -/
structure RoleMappingRules where
  rows : List RoleMappingRule
  ids_nodup : (rows.map RoleMappingRule.id).Nodup
  orders_nodup : (rows.map fun r => (r.type, r.order)).Nodup
  deriving DecidableEq

namespace RoleMappingRules

/-- The table without rows. -/
def empty : RoleMappingRules := ⟨[], List.nodup_nil, List.nodup_nil⟩

/-- The rows a statement would leave, unless they break a constraint. -/
def ofRows (rows : List RoleMappingRule) : Except RuleError RoleMappingRules :=
  if hids : (rows.map RoleMappingRule.id).Nodup then
    if horders : (rows.map fun r => (r.type, r.order)).Nodup then .ok ⟨rows, hids, horders⟩
    else .error .uniqueConstraint
  else .error .duplicateKey

/-- Insert a row. -/
def insert (rule : RoleMappingRule) (rules : RoleMappingRules) : Except RuleError RoleMappingRules :=
  ofRows (rules.rows ++ [rule])

/-- Change the row with the key. -/
def update (id : String) (f : RoleMappingRule → RoleMappingRule) (rules : RoleMappingRules) :
    Except RuleError RoleMappingRules :=
  ofRows (rules.rows.map fun r => if r.id = id then f r else r)

/-- Delete the row with the key. -/
def remove (id : String) (rules : RoleMappingRules) : RoleMappingRules where
  rows := rules.rows.filter fun r => r.id ≠ id
  ids_nodup := rules.ids_nodup.sublist (List.filter_sublist.map _)
  orders_nodup := rules.orders_nodup.sublist (List.filter_sublist.map _)

/-- The row with the key. -/
def findById (rules : RoleMappingRules) (id : String) : Option RoleMappingRule :=
  rules.rows.find? fun r => r.id = id

/-- A row with the type and the order. -/
def findAt (rules : RoleMappingRules) (kind : RuleKind) (order : ℤ) : Option RoleMappingRule :=
  rules.rows.find? fun r => r.type = kind ∧ r.order = order

/-- The rules of a type, in their order. -/
def ofKind (rules : RoleMappingRules) (kind : RuleKind) : List RoleMappingRule :=
  (rules.rows.filter fun r => r.type = kind).inOrder RoleMappingRule.order

/-- The keys of the rules of a type, in their order. -/
def sequence (rules : RoleMappingRules) (kind : RuleKind) : List String :=
  (rules.ofKind kind).map RoleMappingRule.id

variable {rules rules' : RoleMappingRules} {rule r : RoleMappingRule} {kind : RuleKind}
  {id : String}

theorem ext_rows (h : rules.rows = rules'.rows) : rules = rules' := by
  cases rules
  cases rules'
  cases h
  rfl

/-! ### Statements -/

variable {rows l : List RoleMappingRule} {f : RoleMappingRule → RoleMappingRule}

theorem ofRows_eq_ok_iff : ofRows rows = .ok rules ↔ rules.rows = rows := by
  constructor
  · intro h
    rw [ofRows] at h
    split_ifs at h
    cases h
    rfl
  · rintro rfl
    rw [ofRows, dif_pos rules.ids_nodup, dif_pos rules.orders_nodup]

theorem ofRows_eq_error_iff (hids : (rows.map RoleMappingRule.id).Nodup) {e : RuleError} :
    ofRows rows = .error e ↔
      e = .uniqueConstraint ∧ ¬ (rows.map fun r => (r.type, r.order)).Nodup := by
  rw [ofRows, dif_pos hids]
  split_ifs with horders
  · simp [horders]
  · simp [horders, eq_comm]

theorem map_id_update (rules : RoleMappingRules) (id : String)
    (hf : ∀ r ∈ rules.rows, r.id = id → (f r).id = id) :
    (rules.rows.map fun r => if r.id = id then f r else r).map RoleMappingRule.id =
      rules.rows.map RoleMappingRule.id := by
  rw [List.map_map]
  apply List.map_congr_left
  intro r hr
  by_cases hid : r.id = id
  · simp [hid, hf r hr hid]
  · simp [hid]

theorem eq_of_id_eq (hrule : rule ∈ rules.rows) (hr : r ∈ rules.rows) (h : rule.id = r.id) :
    rule = r :=
  List.inj_on_of_nodup_map rules.ids_nodup hrule hr h

theorem eq_of_order_eq (hrule : rule ∈ rules.rows) (hr : r ∈ rules.rows)
    (htype : rule.type = r.type) (horder : rule.order = r.order) : rule = r :=
  List.inj_on_of_nodup_map rules.orders_nodup hrule hr (Prod.ext htype horder)

/-- A changed row is accepted when no other row has its type and order. -/
theorem orders_nodup_update_iff (hrule : rule ∈ rules.rows) :
    ((rules.rows.map fun r => if r.id = rule.id then f r else r).map fun r =>
      (r.type, r.order)).Nodup ↔
      ∀ r ∈ rules.rows, r.id ≠ rule.id → r.type = (f rule).type → r.order ≠ (f rule).order := by
  have hrows : rules.rows.Nodup := rules.ids_nodup.of_map
  rw [List.map_map, List.nodup_map_iff_inj_on hrows]
  constructor
  · intro h r hr hid htype horder
    have := h r hr rule hrule
    simp only [Function.comp_apply, if_neg hid, if_true] at this
    exact hid (congrArg RoleMappingRule.id (this (Prod.ext htype horder)))
  · intro h x hx y hy heq
    simp only [Function.comp_apply] at heq
    by_cases hxid : x.id = rule.id
    · by_cases hyid : y.id = rule.id
      · exact eq_of_id_eq hx hy (hxid.trans hyid.symm)
      · rw [if_pos hxid, if_neg hyid, eq_of_id_eq hx hrule hxid] at heq
        exact absurd (congrArg Prod.snd heq).symm
          (h y hy hyid (congrArg Prod.fst heq).symm)
    · by_cases hyid : y.id = rule.id
      · rw [if_neg hxid, if_pos hyid, eq_of_id_eq hy hrule hyid] at heq
        exact absurd (congrArg Prod.snd heq) (h x hx hxid (congrArg Prod.fst heq))
      · rw [if_neg hxid, if_neg hyid] at heq
        exact eq_of_order_eq hx hy (congrArg Prod.fst heq) (congrArg Prod.snd heq)

theorem findById_eq_some_iff :
    rules.findById id = some rule ↔ rule ∈ rules.rows ∧ rule.id = id := by
  constructor
  · intro h
    exact ⟨List.mem_of_find?_eq_some h, by simpa using List.find?_some h⟩
  · rintro ⟨hmem, hid⟩
    have hsome : (rules.findById id).isSome := by
      rw [findById, List.find?_isSome]
      exact ⟨rule, hmem, by simpa using hid⟩
    obtain ⟨r, hr⟩ := Option.isSome_iff_exists.1 hsome
    have hr' : r.id = id := by simpa using List.find?_some hr
    rw [hr, eq_of_id_eq (List.mem_of_find?_eq_some hr) hmem (hr'.trans hid.symm)]

theorem findAt_eq_none_iff {order : ℤ} :
    rules.findAt kind order = none ↔ ∀ r ∈ rules.rows, r.type = kind → r.order ≠ order := by
  simp [findAt, List.find?_eq_none]

/-! ### The rules of a type -/

theorem mem_ofKind : rule ∈ rules.ofKind kind ↔ rule ∈ rules.rows ∧ rule.type = kind := by
  simp [ofKind, List.mem_inOrder]

theorem ofKind_perm (rules : RoleMappingRules) (kind : RuleKind) :
    (rules.ofKind kind).Perm (rules.rows.filter fun r => r.type = kind) :=
  List.inOrder_perm _ _

theorem nodup_orders_filter (rules : RoleMappingRules) (kind : RuleKind) :
    ((rules.rows.filter fun r => r.type = kind).map RoleMappingRule.order).Nodup := by
  have hrows : (rules.rows.filter fun r => r.type = kind).Nodup :=
    (List.Nodup.of_map _ rules.ids_nodup).filter _
  rw [List.nodup_map_iff_inj_on hrows]
  intro x hx y hy h
  simp only [List.mem_filter, decide_eq_true_eq] at hx hy
  exact eq_of_order_eq hx.1 hy.1 (hx.2.trans hy.2.symm) h

theorem pairwise_ofKind (rules : RoleMappingRules) (kind : RuleKind) :
    (rules.ofKind kind).Pairwise fun a b => a.order < b.order :=
  List.pairwise_lt_inOrder (rules.nodup_orders_filter kind)

theorem ofKind_eq_of_perm (hl : l.Pairwise fun a b => a.order < b.order)
    (hperm : l.Perm (rules.rows.filter fun r => r.type = kind)) : rules.ofKind kind = l :=
  List.inOrder_eq_of_perm hl hperm

theorem ofKind_eq_of_mem (hl : l.Pairwise fun a b => a.order < b.order)
    (hmem : ∀ r, r ∈ l ↔ r ∈ rules.rows ∧ r.type = kind) : rules.ofKind kind = l := by
  apply ofKind_eq_of_perm hl
  have hnodup : l.Nodup := hl.imp fun {a b} h (heq : a = b) => by
    rw [heq] at h
    exact lt_irrefl _ h
  have hrows : (rules.rows.filter fun r => r.type = kind).Nodup :=
    (List.Nodup.of_map _ rules.ids_nodup).filter _
  rw [List.perm_ext_iff_of_nodup hnodup hrows]
  intro r
  rw [hmem r, List.mem_filter, decide_eq_true_eq]

theorem sequence_nodup (rules : RoleMappingRules) (kind : RuleKind) :
    (rules.sequence kind).Nodup := by
  have h := (rules.ofKind_perm kind).map RoleMappingRule.id
  exact h.nodup_iff.2 (rules.ids_nodup.sublist (List.filter_sublist.map _))

end RoleMappingRules

end RoleMapping

end N8n
