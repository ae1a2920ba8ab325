import N8n.RoleMapping.Service
import N8n.Lib.Lts
import Mathlib.Data.List.Perm.Basic

/-!
# The order of role mapping rules

The rules of each type stay numbered from zero.

* `RoleMapping.renumbered`: what a renumbering does to a rule, and `writeOrder_ok`, `reindex_ok`;
* `RoleMapping.Placed`: where a call puts its rule;
* `RoleMapping.rules_denselyOrdered`: every run of successful calls.
-/

namespace N8n

namespace RoleMapping

open Stateful

variable {rules rules' : RoleMappingRules} {rule r : RoleMappingRule} {kind : RuleKind}
  {id : String} {ids : List String}

/-! ### Renumbering -/

/-- A rule after the rules with the keys have been numbered from the base on. -/
def renumbered (base : ℤ) (ids : List String) (r : RoleMappingRule) : RoleMappingRule :=
  if r.id ∈ ids then { r with order := base + ids.idxOf r.id } else r

@[simp] theorem renumbered_id (base : ℤ) (ids : List String) (r : RoleMappingRule) :
    (renumbered base ids r).id = r.id := by
  unfold renumbered
  split_ifs <;> rfl

@[simp] theorem renumbered_type (base : ℤ) (ids : List String) (r : RoleMappingRule) :
    (renumbered base ids r).type = r.type := by
  unfold renumbered
  split_ifs <;> rfl

theorem renumbered_renumbered (base base' : ℤ) (ids : List String) (r : RoleMappingRule) :
    renumbered base' ids (renumbered base ids r) = renumbered base' ids r := by
  by_cases hmem : r.id ∈ ids
  · simp [renumbered, hmem]
  · simp [renumbered, hmem]

theorem renumbered_nil (base : ℤ) (r : RoleMappingRule) : renumbered base [] r = r := by
  simp [renumbered]

theorem renumbered_of_not_mem (base : ℤ) (h : r.id ∉ ids) : renumbered base ids r = r := by
  rw [renumbered, if_neg h]

variable {u : Unit} {all : List RoleMappingRule} {target : ℕ} {item : RuleMappingItem}

variable {base : ℤ} {m : List RoleMappingRule} {directory : Directory}

/-- The updates one after the other. -/
theorem setOrders_ok_from (hids : ids.Nodup) (k : ℕ)
    (h : Ends (each (fun p => (statement .unavailable fun rules =>
      rules.update p.1 fun r => { r with order := base + p.2 } : Service Unit)) (ids.zipIdx k))
      rules (.ok u) rules') :
    rules'.rows = rules.rows.map (renumbered (base + k) ids) := by
  induction ids generalizing k rules with
  | nil =>
    obtain ⟨-, rfl⟩ := ends_pure_ok h
    exact (List.map_id'' (renumbered_nil (base + k)) _).symm
  | cons a ids ih =>
    rw [List.nodup_cons] at hids
    rw [List.zipIdx_cons] at h
    obtain ⟨_, rules₁, hfirst, hrest⟩ := Ends.bind_ok h
    have hfirst := RoleMappingRules.ofRows_eq_ok_iff.1 (ends_statement_ok hfirst)
    rw [ih hids.2 (k + 1) hrest, hfirst, List.map_map]
    apply List.map_congr_left
    intro r _
    by_cases hr : r.id = a
    · subst hr
      simp [renumbered, hids.1]
    · have hne : a ≠ r.id := fun h => hr h.symm
      by_cases hmem : r.id ∈ ids
      · simp [renumbered, hr, hmem, List.idxOf_cons_ne _ hne]
        omega
      · simp [renumbered, hr, hmem]

theorem setOrders_ok (hids : ids.Nodup) (h : Ends (setOrders base ids) rules (.ok u) rules') :
    rules'.rows = rules.rows.map (renumbered base ids) := by
  have := setOrders_ok_from hids 0 h
  simpa using this

theorem writeOrder_ok (hids : ids.Nodup) (h : Ends (writeOrder ids) rules (.ok u) rules') :
    rules'.rows = rules.rows.map (renumbered 0 ids) := by
  rw [writeOrder] at h
  split_ifs at h with hnil
  · obtain ⟨-, rfl⟩ := ends_pure_ok h
    subst hnil
    exact (List.map_id'' (renumbered_nil 0) _).symm
  · obtain ⟨_, rules₁, h₁, h₂⟩ := (ends_transaction_ok h).bind_ok
    rw [setOrders_ok hids h₂, setOrders_ok hids h₁, List.map_map]
    apply List.map_congr_left
    intro r _
    exact renumbered_renumbered _ _ _ _

/-- The rules of a type have been put in an order and numbered from zero; the others are as they
were. -/
structure Renumbered (rules : RoleMappingRules) (kind : RuleKind) (ids : List String)
    (rules' : RoleMappingRules) : Prop where
  sequence : rules'.sequence kind = ids
  dense : (rules'.ofKind kind).Dense RoleMappingRule.order
  others : ∀ kind', kind' ≠ kind → rules'.ofKind kind' = rules.ofKind kind'

theorem renumbered_getElem (base : ℤ) (hm : (m.map RoleMappingRule.id).Nodup) (i : ℕ)
    (hi : i < m.length) : (renumbered base (m.map RoleMappingRule.id) m[i]).order = base + i := by
  have hmem : m[i].id ∈ m.map RoleMappingRule.id := List.mem_map_of_mem (List.getElem_mem hi)
  have hidx : (m.map RoleMappingRule.id).idxOf m[i].id = i := by
    have := hm.idxOf_getElem i (by simpa using hi)
    rwa [List.getElem_map] at this
  rw [renumbered, if_pos hmem]
  show base + ((m.map RoleMappingRule.id).idxOf m[i].id : ℤ) = base + i
  rw [hidx]

/-- **Numbering the rules of a type.** -/
theorem renumbered_of_rows (hm : m.Perm (rules.rows.filter fun r => r.type = kind))
    (hrows : rules'.rows = rules.rows.map (renumbered 0 (m.map RoleMappingRule.id))) :
    Renumbered rules kind (m.map RoleMappingRule.id) rules' := by
  have hnodup : (m.map RoleMappingRule.id).Nodup :=
    (hm.map _).nodup_iff.2 (rules.ids_nodup.sublist (List.filter_sublist.map _))
  have hfilter : ∀ kind', (rules'.rows.filter fun r => r.type = kind') =
      (rules.rows.filter fun r => r.type = kind').map
        (renumbered 0 (m.map RoleMappingRule.id)) := by
    intro kind'
    rw [hrows, List.filter_map]
    congr 1
    apply List.filter_congr
    intro r _
    simp
  have hlist : rules'.ofKind kind = m.map (renumbered 0 (m.map RoleMappingRule.id)) := by
    apply RoleMappingRules.ofKind_eq_of_perm
    · rw [List.pairwise_map, List.pairwise_iff_getElem]
      intro i j hi hj hij
      rw [renumbered_getElem 0 hnodup, renumbered_getElem 0 hnodup]
      omega
    · rw [hfilter]
      exact hm.map _
  constructor
  · rw [RoleMappingRules.sequence, hlist, List.map_map]
    apply List.map_congr_left
    intro r _
    exact renumbered_id _ _ _
  · rw [hlist]
    apply List.dense_of_getElem
    intro i hi
    rw [List.length_map] at hi
    rw [List.getElem_map, renumbered_getElem 0 hnodup]
    omega
  · intro kind' hne
    rw [RoleMappingRules.ofKind, hfilter, RoleMappingRules.ofKind]
    have hsame : (rules.rows.filter fun r => r.type = kind').map
        (renumbered 0 (m.map RoleMappingRule.id)) =
        rules.rows.filter fun r => r.type = kind' := by
      conv_rhs => rw [← List.map_id (rules.rows.filter fun r => r.type = kind')]
      apply List.map_congr_left
      intro r hr
      simp only [List.mem_filter, decide_eq_true_eq] at hr
      apply renumbered_of_not_mem
      intro hmem
      obtain ⟨s, hs, hid⟩ := List.mem_map.1 hmem
      have hs' := hm.mem_iff.1 hs
      simp only [List.mem_filter, decide_eq_true_eq] at hs'
      have : s = r := RoleMappingRules.eq_of_id_eq hs'.1 hr.1 hid
      exact hne (by rw [← hr.2, ← this, hs'.2])
    rw [hsame]

theorem reindex_ok (h : Ends (reindex kind) rules (.ok u) rules') :
    Renumbered rules kind (rules.sequence kind) rules' := by
  obtain ⟨all, rules₁, hall, h⟩ := Ends.bind_ok h
  obtain ⟨rfl, rfl⟩ := ends_query_ok hall
  split_ifs at h with hdense
  · obtain ⟨-, rfl⟩ := ends_pure_ok h
    refine ⟨rfl, ?_, fun _ _ => rfl⟩
    rcases hdense with hnil | hdense
    · rw [hnil]
      exact List.dense_nil
    · apply List.dense_of_getElem
      intro i hi
      exact hdense (_, i) (List.mk_mem_zipIdx_iff_getElem?.2 (List.getElem?_eq_getElem hi))
  · exact renumbered_of_rows (rules₁.ofKind_perm kind)
      (writeOrder_ok (rules₁.sequence_nodup kind) h)

/-! ### Saving a rule -/

/-- The table with a rule put in, in the place of the one with its key. -/
def Put (rules : RoleMappingRules) (rule : RoleMappingRule) (rules' : RoleMappingRules) : Prop :=
  ∀ r, r ∈ rules'.rows ↔ r = rule ∨ (r ∈ rules.rows ∧ r.id ≠ rule.id)

theorem put_insert (h : rules.insert rule = .ok rules') : Put rules rule rules' := by
  have hrows := RoleMappingRules.ofRows_eq_ok_iff.1 h
  have hnodup := rules'.ids_nodup
  rw [hrows, List.map_append, List.nodup_append] at hnodup
  intro r
  rw [hrows, List.mem_append, List.mem_singleton, or_comm]
  refine or_congr_right ⟨fun hr => ⟨hr, ?_⟩, fun hr => hr.1⟩
  exact hnodup.2.2 _ (List.mem_map_of_mem hr) _ (by simp)

theorem put_update {patched : RoleMappingRule} (hrule : rule ∈ rules.rows)
    (hid : patched.id = rule.id) (h : rules.update rule.id (fun _ => patched) = .ok rules') :
    Put rules patched rules' := by
  intro r
  rw [RoleMappingRules.ofRows_eq_ok_iff.1 h, List.mem_map, hid]
  constructor
  · rintro ⟨s, hs, rfl⟩
    by_cases hsid : s.id = rule.id
    · exact Or.inl (if_pos hsid)
    · rw [if_neg hsid]
      exact Or.inr ⟨hs, hsid⟩
  · rintro (rfl | ⟨hr, hne⟩)
    · exact ⟨rule, hrule, if_pos rfl⟩
    · exact ⟨r, hr, if_neg hne⟩

/-- The keys of the rules of a type around a rule: those of the others with a smaller order, its
own, and those of the others with a greater order. -/
def around (rules : RoleMappingRules) (kind : RuleKind) (id : String) (order : ℤ) : List String :=
  ((rules.ofKind kind).filter fun r => r.id ≠ id ∧ r.order < order).map RoleMappingRule.id ++
    id :: ((rules.ofKind kind).filter fun r => r.id ≠ id ∧ order < r.order).map RoleMappingRule.id

/-- **Where a rule that is put in stands.** -/
theorem Put.sequence_type (h : Put rules rule rules') :
    rules'.sequence rule.type = around rules rule.type rule.id rule.order := by
  have hrule : rule ∈ rules'.rows := (h rule).2 (Or.inl rfl)
  have hsorted := rules.pairwise_ofKind rule.type
  have hlist : rules'.ofKind rule.type =
      ((rules.ofKind rule.type).filter fun r => r.id ≠ rule.id ∧ r.order < rule.order) ++
        rule :: (rules.ofKind rule.type).filter fun r => r.id ≠ rule.id ∧ rule.order < r.order := by
    apply RoleMappingRules.ofKind_eq_of_mem
    · rw [List.pairwise_append, List.pairwise_cons]
      refine ⟨hsorted.filter _, ⟨fun b hb => ?_, hsorted.filter _⟩, fun b hb c hc => ?_⟩
      · simp only [List.mem_filter, decide_eq_true_eq] at hb
        exact hb.2.2
      · simp only [List.mem_filter, decide_eq_true_eq] at hb
        rcases List.mem_cons.1 hc with rfl | hc
        · exact hb.2.2
        · simp only [List.mem_filter, decide_eq_true_eq] at hc
          exact hb.2.2.trans hc.2.2
    · intro r
      simp only [List.mem_append, List.mem_cons, List.mem_filter, decide_eq_true_eq,
        RoleMappingRules.mem_ofKind]
      rw [h r]
      constructor
      · rintro (⟨⟨hr, htype⟩, hid, -⟩ | rfl | ⟨⟨hr, htype⟩, hid, -⟩)
        · exact ⟨Or.inr ⟨hr, hid⟩, htype⟩
        · exact ⟨Or.inl rfl, rfl⟩
        · exact ⟨Or.inr ⟨hr, hid⟩, htype⟩
      · rintro ⟨rfl | ⟨hr, hid⟩, htype⟩
        · exact Or.inr (Or.inl rfl)
        · have hne : r.order ≠ rule.order := by
            intro horder
            have := RoleMappingRules.eq_of_order_eq ((h r).2 (Or.inr ⟨hr, hid⟩)) hrule htype horder
            exact hid (congrArg RoleMappingRule.id this)
          rcases lt_or_gt_of_ne hne with hlt | hgt
          · exact Or.inl ⟨⟨hr, htype⟩, hid, hlt⟩
          · exact Or.inr (Or.inr ⟨⟨hr, htype⟩, hid, hgt⟩)
  rw [RoleMappingRules.sequence, hlist, List.map_append, List.map_cons, around]

theorem Put.ofKind_other (h : Put rules rule rules') (hkind : kind ≠ rule.type) :
    rules'.ofKind kind = (rules.ofKind kind).filter fun r => r.id ≠ rule.id := by
  apply RoleMappingRules.ofKind_eq_of_mem ((rules.pairwise_ofKind kind).filter _)
  intro r
  simp only [List.mem_filter, decide_eq_true_eq, RoleMappingRules.mem_ofKind]
  rw [h r]
  constructor
  · rintro ⟨⟨hr, htype⟩, hid⟩
    exact ⟨Or.inr ⟨hr, hid⟩, htype⟩
  · rintro ⟨rfl | ⟨hr, hid⟩, htype⟩
    · exact absurd htype.symm hkind
    · exact ⟨⟨hr, htype⟩, hid⟩

theorem ofKind_remove (rules : RoleMappingRules) (id : String) (kind : RuleKind) :
    (rules.remove id).ofKind kind = (rules.ofKind kind).filter fun r => r.id ≠ id := by
  apply RoleMappingRules.ofKind_eq_of_mem ((rules.pairwise_ofKind kind).filter _)
  intro r
  simp only [RoleMappingRules.remove, List.mem_filter, decide_eq_true_eq,
    RoleMappingRules.mem_ofKind]
  exact and_right_comm

theorem map_id_filter_ne (l : List RoleMappingRule) (id : String) :
    (l.filter fun r => r.id ≠ id).map RoleMappingRule.id =
      (l.map RoleMappingRule.id).filter fun i => i ≠ id := by
  rw [List.filter_map]
  rfl

/-! ### Moving a rule -/

theorem getElem_findIdx (hnodup : (all.map RoleMappingRule.id).Nodup) (hrule : rule ∈ all) :
    ∃ h : (all.findIdx fun r => r.id = rule.id) < all.length,
      all[all.findIdx fun r => r.id = rule.id] = rule := by
  have hlt : (all.findIdx fun r => r.id = rule.id) < all.length :=
    List.findIdx_lt_length_of_exists ⟨rule, hrule, by simp⟩
  have hid : all[all.findIdx fun r => r.id = rule.id].id = rule.id := by
    simpa using List.findIdx_getElem (w := hlt)
  exact ⟨hlt, List.inj_on_of_nodup_map hnodup (List.getElem_mem hlt) hrule hid⟩

theorem moved_eq (hnodup : (all.map RoleMappingRule.id).Nodup) (hrule : rule ∈ all) :
    moved all rule.id target =
      (all.eraseIdx (all.findIdx fun r => r.id = rule.id)).insertIdx
        (min target (all.length - 1)) rule := by
  obtain ⟨hlt, heq⟩ := getElem_findIdx hnodup hrule
  rw [moved, List.getElem?_eq_getElem hlt, heq]

theorem moved_perm (target : ℕ) (hnodup : (all.map RoleMappingRule.id).Nodup) (hrule : rule ∈ all) :
    (moved all rule.id target).Perm all := by
  obtain ⟨hlt, heq⟩ := getElem_findIdx hnodup hrule
  have hle : min target (all.length - 1) ≤
      (all.eraseIdx (all.findIdx fun r => r.id = rule.id)).length := by
    rw [List.length_eraseIdx_of_lt hlt]
    omega
  rw [moved_eq hnodup hrule]
  refine (List.perm_insertIdx _ _ hle).trans ?_
  have := List.getElem_cons_eraseIdx_perm hlt
  rwa [heq] at this

theorem map_id_moved (hnodup : (all.map RoleMappingRule.id).Nodup) (hrule : rule ∈ all) :
    (moved all rule.id target).map RoleMappingRule.id =
      ((all.map RoleMappingRule.id).erase rule.id).insertIdx (min target (all.length - 1))
        rule.id := by
  rw [moved_eq hnodup hrule, List.map_insertIdx, ← List.eraseIdx_map,
    ← List.eraseIdx_idxOf_eq_erase]
  congr 2
  rw [List.idxOf, List.findIdx_map]
  rfl

/-! ### Calls -/

/-- The call returns, whatever accesses of others may fail. -/
def RuleCall.Succeeds (rules : RoleMappingRules) (call : RuleCall) (rules' : RoleMappingRules) :
    Prop :=
  ∃ item, Ends (call.request.run call.directory) rules (.ok item) rules'

/-- Where a successful call puts its rule, and that it leaves the other rules in their order. -/
def Placed (rules : RoleMappingRules) (request : RuleRequest) (rules' : RoleMappingRules) : Prop :=
  match request with
  | .create id dto =>
    rules'.sequence dto.type = around rules dto.type id dto.order ∧
      ∀ kind, kind ≠ dto.type → rules'.sequence kind = rules.sequence kind
  | .patch id dto => ∃ rule, rules.findById id = some rule ∧
    rules'.sequence (dto.type.getD rule.type) =
      around rules (dto.type.getD rule.type) id (dto.order.getD rule.order) ∧
    ∀ kind, kind ≠ dto.type.getD rule.type →
      rules'.sequence kind = (rules.sequence kind).filter fun i => i ≠ id
  | .remove id => ∀ kind, rules'.sequence kind = (rules.sequence kind).filter fun i => i ≠ id
  | .move id target => ∃ rule, rules.findById id = some rule ∧
    rules'.sequence rule.type = ((rules.sequence rule.type).erase id).insertIdx
      (min target ((rules.sequence rule.type).length - 1)) id ∧
    ∀ kind, kind ≠ rule.type → rules'.sequence kind = rules.sequence kind

/-- The rules of each type are numbered from zero. -/
def DenselyOrdered (rules : RoleMappingRules) : Prop :=
  ∀ kind, (rules.ofKind kind).Dense RoleMappingRule.order

theorem Renumbered.sequence_eq (h : Renumbered rules kind (rules.sequence kind) rules')
    (kind' : RuleKind) : rules'.sequence kind' = rules.sequence kind' := by
  by_cases hkind : kind' = kind
  · rw [hkind, h.sequence]
  · rw [RoleMappingRules.sequence, h.others kind' hkind, RoleMappingRules.sequence]

theorem Renumbered.dense_of (h : Renumbered rules kind ids rules') {kind' : RuleKind}
    (hdense : kind' ≠ kind → (rules.ofKind kind').Dense RoleMappingRule.order) :
    (rules'.ofKind kind').Dense RoleMappingRule.order := by
  by_cases hkind : kind' = kind
  · rw [hkind]
    exact h.dense
  · rw [h.others kind' hkind]
    exact hdense hkind

theorem filter_id_ne_eq_self {l : List RoleMappingRule} (h : ∀ r ∈ l, r.id ≠ id) :
    (l.filter fun r => r.id ≠ id) = l := by
  rw [List.filter_eq_self]
  intro r hr
  simpa using h r hr

theorem create_ok {dto : CreateRule} (h : Ends (create directory id dto) rules (.ok item) rules')
    (hdense : DenselyOrdered rules) :
    DenselyOrdered rules' ∧ Placed rules (.create id dto) rules' := by
  obtain ⟨entity, hentity, h⟩ := (checks_newRule _ _ _).bind_ok h
  obtain ⟨_, rules₁, hinsert, h⟩ := h.bind_ok
  obtain ⟨_, rules₂, hreindex, h⟩ := h.bind_ok
  obtain rfl := (checks_findOneOrFail _).readsOnly _ _ _ h
  obtain ⟨hid, htype, horder, -⟩ := newRule_ok hentity
  have hinsert := ends_statement_ok hinsert
  have hput := put_insert hinsert
  have hrenumbered := reindex_ok hreindex
  rw [← htype] at hrenumbered
  have hother : ∀ kind, kind ≠ entity.type → rules₁.ofKind kind = rules.ofKind kind := by
    intro kind hkind
    rw [hput.ofKind_other hkind]
    apply filter_id_ne_eq_self
    intro r hr
    have hnodup := rules₁.ids_nodup
    rw [RoleMappingRules.ofRows_eq_ok_iff.1 hinsert, List.map_append, List.nodup_append] at hnodup
    exact hnodup.2.2 _ (List.mem_map_of_mem (RoleMappingRules.mem_ofKind.1 hr).1) _ (by simp)
  refine ⟨fun kind => hrenumbered.dense_of fun hkind => ?_, ?_, fun kind hkind => ?_⟩
  · rw [hother kind hkind]
    exact hdense kind
  · rw [hrenumbered.sequence_eq, ← htype, hput.sequence_type, hid, horder]
  · rw [hrenumbered.sequence_eq, RoleMappingRules.sequence, hother kind (htype ▸ hkind),
      RoleMappingRules.sequence]

theorem patch_ok {dto : PatchRule} (h : Ends (patch directory id dto) rules (.ok item) rules')
    (hdense : DenselyOrdered rules) :
    DenselyOrdered rules' ∧ Placed rules (.patch id dto) rules' := by
  obtain ⟨⟨rule, patched⟩, hpatched, h⟩ := (checks_patchedRule _ _ _).bind_ok h
  obtain ⟨hfound, hpid, htype, horder, -⟩ := patchedRule_ok hpatched
  obtain ⟨hrule, hid⟩ := RoleMappingRules.findById_eq_some_iff.1 hfound
  obtain ⟨_, rules₁, hupdate, h⟩ := h.bind_ok
  obtain ⟨_, rules₂, hreindex, h⟩ := h.bind_ok
  have hput := put_update hrule hpid (ends_statement_ok hupdate)
  have hrenumbered := reindex_ok hreindex
  have hsequence : ∀ kind, kind ≠ patched.type →
      rules₂.sequence kind = (rules.sequence kind).filter fun i => i ≠ id := by
    intro kind hkind
    rw [hrenumbered.sequence_eq, RoleMappingRules.sequence, hput.ofKind_other hkind,
      map_id_filter_ne, hpid, hid]
    rfl
  have hplaced : rules₂.sequence patched.type = around rules patched.type id patched.order := by
    rw [hrenumbered.sequence_eq, hput.sequence_type, hpid, hid]
  have hdense₂ : ∀ kind, kind ≠ rule.type ∨ rule.type = patched.type →
      (rules₂.ofKind kind).Dense RoleMappingRule.order := by
    intro kind hkind
    apply hrenumbered.dense_of
    intro hne
    rw [hput.ofKind_other hne, filter_id_ne_eq_self]
    · exact hdense kind
    · intro r hr heq
      obtain ⟨hr, hrtype⟩ := RoleMappingRules.mem_ofKind.1 hr
      have := RoleMappingRules.eq_of_id_eq hr hrule (heq.trans hpid)
      rcases hkind with hkind | hkind
      · exact hkind (by rw [← hrtype, this])
      · exact hne (by rw [← hrtype, this, hkind])
  have hfinal : DenselyOrdered rules' ∧
      ∀ kind, rules'.sequence kind = rules₂.sequence kind := by
    split_ifs at h with hchanged
    · obtain ⟨_, rules₃, hreindex', h⟩ := h.bind_ok
      obtain rfl := (checks_findOneOrFail _).readsOnly _ _ _ h
      have hrenumbered' := reindex_ok hreindex'
      exact ⟨fun kind => hrenumbered'.dense_of fun hkind => hdense₂ kind (Or.inl hkind),
        hrenumbered'.sequence_eq⟩
    · obtain rfl := (checks_findOneOrFail _).readsOnly _ _ _ h
      exact ⟨fun kind => hdense₂ kind (Or.inr (not_not.1 hchanged)), fun _ => rfl⟩
  refine ⟨hfinal.1, rule, hfound, ?_, ?_⟩
  · rw [← htype, ← horder, hfinal.2, hplaced]
  · intro kind hkind
    rw [hfinal.2, hsequence kind (htype ▸ hkind)]

theorem remove_ok (h : Ends (remove id) rules (.ok u) rules') (hdense : DenselyOrdered rules) :
    DenselyOrdered rules' ∧ Placed rules (.remove id) rules' := by
  obtain ⟨rule, hrequire, h⟩ := (checks_requireRule _).bind_ok h
  obtain ⟨hrule, hid⟩ := RoleMappingRules.findById_eq_some_iff.1 (requireRule_ok hrequire).2
  obtain ⟨_, rules₁, hremove, hreindex⟩ := h.bind_ok
  cases ends_statement_ok hremove
  have hrenumbered := reindex_ok hreindex
  rw [hid] at hrenumbered
  constructor
  · intro kind
    apply hrenumbered.dense_of
    intro hkind
    rw [ofKind_remove, filter_id_ne_eq_self]
    · exact hdense kind
    · intro r hr heq
      obtain ⟨hr, hrtype⟩ := RoleMappingRules.mem_ofKind.1 hr
      have := RoleMappingRules.eq_of_id_eq hr hrule (heq.trans hid.symm)
      exact hkind (by rw [← hrtype, this])
  · intro kind
    rw [hrenumbered.sequence_eq, RoleMappingRules.sequence, ofKind_remove, map_id_filter_ne]
    rfl

theorem move_ok (h : Ends (move id target) rules (.ok item) rules')
    (hdense : DenselyOrdered rules) :
    DenselyOrdered rules' ∧ Placed rules (.move id target) rules' := by
  obtain ⟨rule, hrequire, h⟩ := (checks_requireRule _).bind_ok h
  have hfound := (requireRule_ok hrequire).2
  obtain ⟨hrule, rfl⟩ := RoleMappingRules.findById_eq_some_iff.1 hfound
  obtain ⟨all, hall, h⟩ := (readsOnly_query _ _).bind_ok h
  obtain ⟨rfl, -⟩ := ends_query_ok hall
  obtain ⟨_, rules₁, hwrite, h⟩ := h.bind_ok
  obtain rfl := (checks_findOneOrFail _).readsOnly _ _ _ h
  have hmem : rule ∈ rules.ofKind rule.type := RoleMappingRules.mem_ofKind.2 ⟨hrule, rfl⟩
  have hnodup := rules.sequence_nodup rule.type
  have hperm := moved_perm target hnodup hmem
  have hids : ((moved (rules.ofKind rule.type) rule.id target).map RoleMappingRule.id).Nodup :=
    (hperm.map _).nodup_iff.2 hnodup
  have hrenumbered := renumbered_of_rows (hperm.trans (rules.ofKind_perm rule.type))
    (writeOrder_ok hids hwrite)
  refine ⟨fun kind => hrenumbered.dense_of fun _ => hdense kind, rule, hfound, ?_, ?_⟩
  · rw [hrenumbered.sequence, map_id_moved hnodup hmem, RoleMappingRules.sequence, List.length_map]
  · intro kind hkind
    rw [RoleMappingRules.sequence, hrenumbered.others kind hkind, RoleMappingRules.sequence]

/-- **One call.** -/
theorem RuleCall.Succeeds.keeps {call : RuleCall} (h : call.Succeeds rules rules')
    (hdense : DenselyOrdered rules) : DenselyOrdered rules' ∧ Placed rules call.request rules' := by
  obtain ⟨item, h⟩ := h
  cases hrequest : call.request with
  | create id dto =>
    rw [hrequest] at h
    obtain ⟨_, rules₁, h, hpure⟩ := Ends.bind_ok h
    obtain ⟨-, rfl⟩ := ends_pure_ok hpure
    exact create_ok h hdense
  | patch id dto =>
    rw [hrequest] at h
    obtain ⟨_, rules₁, h, hpure⟩ := Ends.bind_ok h
    obtain ⟨-, rfl⟩ := ends_pure_ok hpure
    exact patch_ok h hdense
  | remove id =>
    rw [hrequest] at h
    obtain ⟨_, rules₁, h, hpure⟩ := Ends.bind_ok h
    obtain ⟨-, rfl⟩ := ends_pure_ok hpure
    exact remove_ok h hdense
  | move id target =>
    rw [hrequest] at h
    obtain ⟨_, rules₁, h, hpure⟩ := Ends.bind_ok h
    obtain ⟨-, rfl⟩ := ends_pure_ok hpure
    exact move_ok h hdense

theorem denselyOrdered_empty : DenselyOrdered .empty := fun _ => List.dense_nil

/-- **Dense orders**: after every run of successful calls on an empty table the rules of each type are
numbered from zero, and a further successful call puts its rule where its request says. -/
theorem rules_denselyOrdered {calls : List RuleCall}
    (h : Lts.Run (fun rules (call : RuleCall) rules' => call.Succeeds rules rules') .empty calls
      rules) :
    DenselyOrdered rules ∧
      ∀ (call : RuleCall) (rules' : RoleMappingRules), call.Succeeds rules rules' → Placed rules call.request rules' := by
  have hdense : DenselyOrdered rules :=
    h.invariant (P := fun _ rules => DenselyOrdered rules) denselyOrdered_empty
      fun _ _ _ _ _ _ hstep hs => (RuleCall.Succeeds.keeps hstep hs).1
  exact ⟨hdense, fun call rules' hcall => (hcall.keeps hdense).2⟩

/-- What a call leaves when every access is answered. -/
def RuleCall.leaves (call : RuleCall) (rules : RoleMappingRules) : RoleMappingRules :=
  (call.request.run call.directory ⟨rules, []⟩).2.data

theorem RuleCall.succeeds_leaves (call : RuleCall)
    (h : (call.request.run call.directory ⟨rules, []⟩).1.toOption.isSome = true) :
    call.Succeeds rules (call.leaves rules) := by
  match hrun : call.request.run call.directory ⟨rules, []⟩ with
  | (.ok item, c) =>
    refine ⟨item, [], c.faults, ?_⟩
    rw [RuleCall.leaves, hrun]
  | (.error e, c) =>
    rw [hrun] at h
    cases h

/-- A call to create a rule for a global role. -/
def createGlobal (id : String) (order : ℤ) : RuleCall where
  directory := { roles := [⟨"global:member", .global⟩] }
  request := .create id {
    expression := "true", role := "global:member", type := .«instance», order := order }

theorem rules_denselyOrdered_threeCalls :
    let second := (createGlobal "b" (-3)).leaves ((createGlobal "a" 5).leaves .empty)
    let moved := (RuleCall.mk {} (.move "a" 0)).leaves second
    DenselyOrdered moved ∧ ∀ (call : RuleCall) (rules' : RoleMappingRules),
      call.Succeeds moved rules' → Placed moved call.request rules' :=
  rules_denselyOrdered (.snoc (.snoc (.snoc (.nil _)
    (RuleCall.succeeds_leaves (createGlobal "a" 5) (by decide +kernel)))
    (RuleCall.succeeds_leaves (createGlobal "b" (-3)) (by decide +kernel)))
    (RuleCall.succeeds_leaves ⟨{}, .move "a" 0⟩ (by decide +kernel)))

end RoleMapping

end N8n
