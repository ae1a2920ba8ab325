import N8n.RoleMapping.Ordering

/-!
# Failing rule changes

What a call that throws leaves behind.

* `RoleMapping.KeepsOnFailure`: a call that throws leaves the table alone, and the renumbering does
  not make it throw;
* `RoleMapping.TemporaryRangeFree`: no rule stands in the range that a renumbering passes through,
  and `writeOrder_run`: exactly then the renumbering goes through;
* `RoleMapping.keepsOnFailure_iff`: when a call has the property, with a database that answers every
  access and with one that may fail at any of them.
-/

namespace N8n

namespace RoleMapping

open Stateful

variable {rules rules' : RoleMappingRules} {rule r : RoleMappingRule} {kind : RuleKind}
  {id : String} {ids : List String}

/-! ### The temporary range -/

/-- No rule has the order that one before it gets while the rules pass through the range above their
number plus 1000. -/
def TemporaryRangeFree (l : List RoleMappingRule) : Prop :=
  ∀ i j, (hj : j < l.length) → i < j → l[j].order ≠ l.length + 1000 + i

/-- No rule has the order that one before it gets when they are numbered from `base` on. -/
def RangeFree (base : ℤ) : List RoleMappingRule → Prop
  | [] => True
  | _ :: l => (∀ s ∈ l, s.order ≠ base) ∧ RangeFree (base + 1) l

variable {l : List RoleMappingRule} {base : ℤ} {directory : Directory}

theorem rangeFree_iff : RangeFree base l ↔
    ∀ i j, (hj : j < l.length) → i < j → l[j].order ≠ base + i := by
  induction l generalizing base with
  | nil => simp [RangeFree]
  | cons r l ih =>
    rw [RangeFree, ih]
    constructor
    · rintro ⟨hfirst, hrest⟩ i j hj hij
      obtain ⟨j, rfl⟩ : ∃ j', j = j' + 1 := ⟨j - 1, by omega⟩
      rw [List.length_cons] at hj
      rw [List.getElem_cons_succ]
      cases i with
      | zero => simpa using hfirst _ (List.getElem_mem (by omega))
      | succ i =>
        have := hrest i j (by omega) (by omega)
        push_cast
        rwa [Int.add_assoc, Int.add_comm (1 : ℤ)] at this
    · intro h
      refine ⟨fun s hs => ?_, fun i j hj hij => ?_⟩
      · obtain ⟨j, hj, rfl⟩ := List.getElem_of_mem hs
        have := h 0 (j + 1) (by simpa using hj) (by omega)
        simpa using this
      · have := h (i + 1) (j + 1) (by simpa using hj) (by omega)
        rw [List.getElem_cons_succ] at this
        push_cast at this
        rwa [Int.add_assoc, Int.add_comm (1 : ℤ)]

/-- Above the numbers to come the range is free. -/
theorem rangeFree_of_le (h : ∀ s ∈ l, base + l.length ≤ s.order) : RangeFree base l := by
  rw [rangeFree_iff]
  intro i j hj hij
  have := h _ (List.getElem_mem hj)
  omega

/-- The rules of a type that are still to be numbered, and those that have been. -/
structure Remaining (rules : RoleMappingRules) (kind : RuleKind) (next : ℤ)
    (rest : List RoleMappingRule) : Prop where
  mem : ∀ s ∈ rest, s ∈ rules.rows ∧ s.type = kind
  nodup : (rest.map RoleMappingRule.id).Nodup
  other : ∀ s ∈ rules.rows, s.type = kind → s ∈ rest ∨ s.order < next

variable {order : ℤ} {m : List RoleMappingRule} {dto : CreateRule} {target : ℕ}

theorem update_order_eq_ok_iff (hrule : rule ∈ rules.rows) :
    (∃ rules', rules.update rule.id (fun r => { r with order := order }) = .ok rules') ↔
      ∀ r ∈ rules.rows, r.id ≠ rule.id → r.type = rule.type → r.order ≠ order := by
  have hids := RoleMappingRules.map_id_update rules rule.id
    (f := fun r => { r with order := order }) fun r _ hr => hr
  have horders := RoleMappingRules.orders_nodup_update_iff
    (f := fun r => { r with order := order }) hrule
  rw [← horders]
  constructor
  · rintro ⟨rules', h⟩
    rw [← RoleMappingRules.ofRows_eq_ok_iff.1 h]
    exact rules'.orders_nodup
  · exact fun h => ⟨⟨_, hids ▸ rules.ids_nodup, h⟩, RoleMappingRules.ofRows_eq_ok_iff.2 rfl⟩

theorem update_order_error
    (h : ¬ ∃ rules', rules.update id (fun r => { r with order := order }) = .ok rules') :
    rules.update id (fun r => { r with order := order }) = .error .uniqueConstraint := by
  have hids := RoleMappingRules.map_id_update rules id
    (f := fun r => { r with order := order }) fun r _ hr => hr
  match hupdate : rules.update id (fun r => { r with order := order }) with
  | .ok rules' => exact absurd ⟨rules', hupdate⟩ h
  | .error e =>
    rw [RoleMappingRules.update, RoleMappingRules.ofRows_eq_error_iff (hids ▸ rules.ids_nodup)]
      at hupdate
    rw [hupdate.1]

theorem Remaining.tail {next : ℤ} {rest : List RoleMappingRule}
    (h : Remaining rules kind next (rule :: rest))
    (hupdate : rules.update rule.id (fun r => { r with order := next }) = .ok rules') :
    Remaining rules' kind (next + 1) rest := by
  have hrows := RoleMappingRules.ofRows_eq_ok_iff.1 hupdate
  have hnodup := h.nodup
  rw [List.map_cons, List.nodup_cons] at hnodup
  constructor
  · intro s hs
    have hne : s.id ≠ rule.id := fun heq => hnodup.1 (heq ▸ List.mem_map_of_mem hs)
    obtain ⟨hmem, htype⟩ := h.mem s (List.mem_cons_of_mem _ hs)
    rw [hrows]
    exact ⟨List.mem_map.2 ⟨s, hmem, if_neg hne⟩, htype⟩
  · exact hnodup.2
  · intro s hs htype
    rw [hrows] at hs
    obtain ⟨t, ht, rfl⟩ := List.mem_map.1 hs
    by_cases hid : t.id = rule.id
    · rw [if_pos hid]
      exact Or.inr (Int.lt_succ next)
    · rw [if_neg hid] at htype ⊢
      rcases h.other t ht htype with hmem | hlt
      · rcases List.mem_cons.1 hmem with rfl | hmem
        · exact absurd rfl hid
        · exact Or.inl hmem
      · exact Or.inr (by omega)

/-- **The updates go through exactly when the range is free.** -/
theorem setOrders_run_from (base : ℤ) {rest : List RoleMappingRule} (k : ℕ)
    (h : Remaining rules kind (base + k) rest) :
    (RangeFree (base + k) rest → ∃ rules',
      each (fun p => (statement .unavailable fun rules =>
        rules.update p.1 fun r => { r with order := base + p.2 } : Service Unit))
        ((rest.map RoleMappingRule.id).zipIdx k) ⟨rules, []⟩ = (.ok (), ⟨rules', []⟩)) ∧
    (¬ RangeFree (base + k) rest → ∃ rules',
      each (fun p => (statement .unavailable fun rules =>
        rules.update p.1 fun r => { r with order := base + p.2 } : Service Unit))
        ((rest.map RoleMappingRule.id).zipIdx k) ⟨rules, []⟩ =
          (.error .uniqueConstraint, ⟨rules', []⟩)) := by
  induction rest generalizing k rules with
  | nil => exact ⟨fun _ => ⟨rules, rfl⟩, fun h => absurd trivial h⟩
  | cons rule rest ih =>
    obtain ⟨hrule, htype⟩ := h.mem rule List.mem_cons_self
    have hnodup := h.nodup
    rw [List.map_cons, List.nodup_cons] at hnodup
    have hfree : (∃ rules', rules.update rule.id (fun r => { r with order := base + k }) =
        .ok rules') ↔ ∀ s ∈ rest, s.order ≠ base + k := by
      rw [update_order_eq_ok_iff hrule]
      constructor
      · intro hall s hs
        have hs' := h.mem s (List.mem_cons_of_mem _ hs)
        refine hall s hs'.1 (fun heq => ?_) (hs'.2.trans htype.symm)
        exact hnodup.1 (heq ▸ List.mem_map_of_mem hs)
      · intro hall s hs hid hstype
        rcases h.other s hs (hstype.trans htype) with hmem | hlt
        · rcases List.mem_cons.1 hmem with rfl | hmem
          · exact absurd rfl hid
          · exact hall s hmem
        · omega
    rw [List.map_cons, List.zipIdx_cons, RangeFree]
    by_cases hfirst : ∀ s ∈ rest, s.order ≠ base + k
    · obtain ⟨rules₁, hupdate⟩ := hfree.2 hfirst
      have hrun : (statement .unavailable (fun rules : RoleMappingRules =>
          rules.update rule.id fun r => { r with order := base + k }) : Service Unit) ⟨rules, []⟩ =
          (.ok (), ⟨rules₁, []⟩) := statement_run_ok hupdate
      have htail : Remaining rules₁ kind (base + (k + 1 : ℕ)) rest := by
        have := h.tail hupdate
        push_cast
        rwa [← Int.add_assoc]
      obtain ⟨hok, herror⟩ := ih (k + 1) htail
      have hcast : base + ((k + 1 : ℕ) : ℤ) = base + k + 1 := by
        push_cast
        omega
      rw [hcast] at hok herror
      constructor
      · rintro ⟨-, hrest⟩
        obtain ⟨rules', h'⟩ := hok hrest
        refine ⟨rules', ?_⟩
        rw [each, run_bind, hrun]
        exact h'
      · intro hrest
        obtain ⟨rules', h'⟩ := herror fun hr => hrest ⟨hfirst, hr⟩
        refine ⟨rules', ?_⟩
        rw [each, run_bind, hrun]
        exact h'
    · have hrun : (statement .unavailable (fun rules : RoleMappingRules =>
          rules.update rule.id fun r => { r with order := base + k }) : Service Unit) ⟨rules, []⟩ =
          (.error .uniqueConstraint, ⟨rules, []⟩) :=
        statement_run_error (update_order_error fun hex => hfirst (hfree.1 hex))
      refine ⟨fun hr => absurd hr.1 hfirst, fun _ => ⟨rules, ?_⟩⟩
      rw [each, run_bind, hrun]

/-- After the first pass the range below is free for the second. -/
theorem remaining_second (hm : m.Perm (rules.rows.filter fun r => r.type = kind))
    (hrows : rules'.rows = rules.rows.map (renumbered base (m.map RoleMappingRule.id))) :
    Remaining rules' kind 0 (m.map (renumbered base (m.map RoleMappingRule.id))) := by
  have hmem : ∀ {s}, s ∈ m ↔ s ∈ rules.rows ∧ s.type = kind := by
    intro s
    rw [hm.mem_iff, List.mem_filter, decide_eq_true_eq]
  constructor
  · intro s hs
    obtain ⟨t, ht, rfl⟩ := List.mem_map.1 hs
    obtain ⟨htrow, httype⟩ := hmem.1 ht
    rw [hrows, renumbered_type]
    exact ⟨List.mem_map_of_mem htrow, httype⟩
  · rw [List.map_map]
    have hids : RoleMappingRule.id ∘ renumbered base (m.map RoleMappingRule.id) =
        RoleMappingRule.id := by
      funext r
      exact renumbered_id _ _ _
    rw [hids]
    exact (hm.map _).nodup_iff.2 (rules.ids_nodup.sublist (List.filter_sublist.map _))
  · intro s hs htype
    rw [hrows] at hs
    obtain ⟨t, ht, rfl⟩ := List.mem_map.1 hs
    rw [renumbered_type] at htype
    exact Or.inl (List.mem_map_of_mem (hmem.2 ⟨ht, htype⟩))

theorem map_id_renumbered (base : ℤ) (ids : List String) (l : List RoleMappingRule) :
    (l.map (renumbered base ids)).map RoleMappingRule.id = l.map RoleMappingRule.id := by
  rw [List.map_map]
  apply List.map_congr_left
  intro r _
  exact renumbered_id _ _ _

/-- **A renumbering goes through exactly when its temporary range is free.** -/
theorem writeOrder_run (hm : m.Perm (rules.rows.filter fun r => r.type = kind)) :
    (TemporaryRangeFree m → ∃ rules',
      writeOrder (m.map RoleMappingRule.id) ⟨rules, []⟩ = (.ok (), ⟨rules', []⟩)) ∧
    (¬ TemporaryRangeFree m →
      writeOrder (m.map RoleMappingRule.id) ⟨rules, []⟩ =
        (.error .uniqueConstraint, ⟨rules, []⟩)) := by
  have hnodup : (m.map RoleMappingRule.id).Nodup :=
    (hm.map _).nodup_iff.2 (rules.ids_nodup.sublist (List.filter_sublist.map _))
  have hfirst : Remaining rules kind ((m.map RoleMappingRule.id).length + 1000 + (0 : ℕ)) m := by
    refine ⟨fun s hs => ?_, hnodup, fun s hs htype => Or.inl ?_⟩
    · simpa using hm.mem_iff.1 hs
    · exact hm.mem_iff.2 (List.mem_filter.2 ⟨hs, by simpa using htype⟩)
  have hrange : TemporaryRangeFree m ↔
      RangeFree ((m.map RoleMappingRule.id).length + 1000 + (0 : ℕ)) m := by
    rw [rangeFree_iff, TemporaryRangeFree, List.length_map, Int.natCast_zero, Int.add_zero]
  obtain ⟨hok, herror⟩ := setOrders_run_from _ 0 hfirst
  rw [← hrange] at hok herror
  by_cases hnil : m.map RoleMappingRule.id = []
  · have hm : m = [] := List.map_eq_nil_iff.1 hnil
    subst hm
    refine ⟨fun _ => ⟨rules, rfl⟩, fun h => absurd (fun i j hj => ?_) h⟩
    exact absurd hj (Nat.not_lt_zero j)
  rw [writeOrder, if_neg hnil]
  constructor
  · intro hfree
    obtain ⟨rules₁, h₁⟩ := hok hfree
    have hrows := setOrders_ok hnodup ⟨[], [], h₁⟩
    obtain ⟨hok', -⟩ := setOrders_run_from 0 0 (remaining_second hm hrows)
    rw [map_id_renumbered] at hok'
    obtain ⟨rules₂, h₂⟩ := hok' <| by
      apply rangeFree_of_le
      intro s hs
      obtain ⟨t, ht, rfl⟩ := List.mem_map.1 hs
      have hid : t.id ∈ m.map RoleMappingRule.id := List.mem_map_of_mem ht
      rw [renumbered, if_pos hid]
      simp only [List.length_map]
      omega
    refine ⟨rules₂, transaction_run_ok ?_⟩
    rw [run_bind, setOrders, h₁]
    exact h₂
  · intro hfree
    obtain ⟨rules₁, h₁⟩ := herror hfree
    refine @transaction_run_error _ _ _ _ _ _ _ rules₁ ?_
    rw [run_bind, setOrders, h₁]

/-- A dense list does not reach into the range. -/
theorem temporaryRangeFree_of_getElem (h : ∀ i (hi : i < l.length), l[i].order = i) :
    TemporaryRangeFree l := by
  intro i j hj _
  rw [h j hj]
  omega

/-- **Renumbering the rules of a type.** -/
theorem reindex_run (rules : RoleMappingRules) (kind : RuleKind) :
    (TemporaryRangeFree (rules.ofKind kind) → ∃ rules',
      reindex kind ⟨rules, []⟩ = (.ok (), ⟨rules', []⟩)) ∧
    (¬ TemporaryRangeFree (rules.ofKind kind) →
      reindex kind ⟨rules, []⟩ = (.error .uniqueConstraint, ⟨rules, []⟩)) := by
  have hrun : reindex kind ⟨rules, []⟩ =
      (if rules.ofKind kind = [] ∨ ∀ p ∈ (rules.ofKind kind).zipIdx, p.1.order = p.2 then pure ()
        else writeOrder ((rules.ofKind kind).map RoleMappingRule.id) : Service Unit)
        ⟨rules, []⟩ := rfl
  rw [hrun]
  split_ifs with hdense
  · refine ⟨fun _ => ⟨rules, rfl⟩, fun h => absurd ?_ h⟩
    apply temporaryRangeFree_of_getElem
    intro i hi
    rcases hdense with hnil | hdense
    · rw [hnil] at hi
      exact absurd hi (Nat.not_lt_zero i)
    · exact hdense (_, i) (List.mk_mem_zipIdx_iff_getElem?.2 (List.getElem?_eq_getElem hi))
  · exact writeOrder_run (rules.ofKind_perm kind)

/-! ### The property -/

/-- A call that throws leaves the table alone, and it is not the renumbering that makes it throw. -/
def KeepsOnFailure {α : Type} (m : Service α) (rules : RoleMappingRules) (faults : List Bool) :
    Prop :=
  ∀ e c, m ⟨rules, faults⟩ = (.error e, c) → c.data = rules ∧ e ≠ .uniqueConstraint

section KeepsOnFailure

variable {α : Type} {m : Service α} {e : RuleError}

theorem keepsOnFailure_of_ok {a : α} {c : Connection RoleMappingRules}
    (h : m ⟨rules, []⟩ = (.ok a, c)) : KeepsOnFailure m rules [] := by
  intro e c' he
  rw [h] at he
  cases he

theorem keepsOnFailure_iff_of_error (h : m ⟨rules, []⟩ = (.error e, ⟨rules', []⟩)) :
    KeepsOnFailure m rules [] ↔ rules' = rules ∧ e ≠ .uniqueConstraint := by
  rw [KeepsOnFailure, h]
  exact ⟨fun hall => hall e _ rfl, fun hkeep e' c he => by cases he; exact hkeep⟩

theorem keepsOnFailure_all : (∀ faults, KeepsOnFailure m rules faults) ↔
    ∀ e rules', Ends m rules (.error e) rules' → rules' = rules ∧ e ≠ .uniqueConstraint := by
  constructor
  · rintro h e rules' ⟨faults, faults', he⟩
    exact h faults e _ he
  · intro h faults e c he
    exact h e c.data ⟨faults, c.faults, he⟩

/-- What is made of the answer does not matter. -/
theorem keepsOnFailure_bind_pure {β : Type} {g : α → β} {faults : List Bool} :
    KeepsOnFailure (m >>= fun a => pure (g a)) rules faults ↔ KeepsOnFailure m rules faults := by
  unfold KeepsOnFailure
  rw [run_bind]
  match m ⟨rules, faults⟩ with
  | (.ok a, c) =>
    constructor
    · intro _ e c' he
      cases he
    · intro _ e c' he
      cases he
  | (.error e, c) =>
    constructor
    · intro h e' c' he
      cases he
      exact h e c rfl
    · intro h e' c' he
      cases he
      exact h e c rfl

variable {β : Type} {rest : α → Service β} {P : α → Prop}

/-- What a check throws changes nothing, so the property is one of what follows the check. -/
theorem keepsOnFailure_checks_iff (hcheck : Checks .unavailable IsCheckError m)
    (h : ∀ a, m ⟨rules, []⟩ = (.ok a, ⟨rules, []⟩) → (KeepsOnFailure (rest a) rules [] ↔ P a)) :
    KeepsOnFailure (m >>= rest) rules [] ↔ ∀ a, (m ⟨rules, []⟩).1 = .ok a → P a := by
  have hrun := hcheck.run rules
  match hresult : (m ⟨rules, []⟩).1 with
  | .ok a =>
    rw [hresult] at hrun
    rw [KeepsOnFailure, run_bind, hrun]
    refine (h a hrun).trans ⟨fun hp b hb => ?_, fun hp => hp a rfl⟩
    cases hb
    exact hp
  | .error e =>
    rw [hresult] at hrun
    rw [keepsOnFailure_iff_of_error (by rw [run_bind, hrun])]
    exact ⟨fun _ a ha => (by cases ha), fun _ => ⟨rfl, hcheck.throws _ _ _ ⟨[], [], hrun⟩⟩⟩

theorem keepsOnFailure_checks_all_iff (hcheck : Checks .unavailable IsCheckError m)
    (h : ∀ a, Ends m rules (.ok a) rules →
      ((∀ faults, KeepsOnFailure (rest a) rules faults) ↔ P a)) :
    (∀ faults, KeepsOnFailure (m >>= rest) rules faults) ↔
      ∀ a, (m ⟨rules, []⟩).1 = .ok a → P a := by
  have hrun := hcheck.run rules
  constructor
  · intro hkeeps a ha
    rw [ha] at hrun
    refine (h a ⟨[], [], hrun⟩).1 (keepsOnFailure_all.2 fun e rules' he => ?_)
    exact keepsOnFailure_all.1 hkeeps _ _ (hcheck.steady.ends_bind hrun he)
  · intro hp
    rw [keepsOnFailure_all]
    intro e rules' he
    rcases he.bind_error with he | ⟨a, rules₁, ha, hrest⟩
    · exact ⟨hcheck.readsOnly _ _ _ he, hcheck.throws _ _ _ he⟩
    · obtain rfl := hcheck.readsOnly _ _ _ ha
      have ha' := hcheck.steady.ends_ok_iff.1 ha
      exact keepsOnFailure_all.1 ((h a ha).2 (hp a (by rw [ha']))) _ _ hrest

/-- A renumbering that is refused, or is made and followed by a call that ends. -/
theorem keeps_renumbering_iff {write : Service Unit} {last : Service β} {Q : Prop}
    (hwrite : (Q → ∃ rules', write ⟨rules, []⟩ = (.ok (), ⟨rules', []⟩)) ∧
      (¬ Q → write ⟨rules, []⟩ = (.error .uniqueConstraint, ⟨rules, []⟩)))
    (hlast : ∀ rules', write ⟨rules, []⟩ = (.ok (), ⟨rules', []⟩) →
      ∃ b, last ⟨rules', []⟩ = (.ok b, ⟨rules', []⟩)) (rules₀ : RoleMappingRules) :
    (∀ e c, (write >>= fun _ => last) ⟨rules, []⟩ = (.error e, c) →
      c.data = rules₀ ∧ e ≠ .uniqueConstraint) ↔ Q := by
  rw [run_bind]
  by_cases hq : Q
  · obtain ⟨rules', hrun⟩ := hwrite.1 hq
    obtain ⟨b, hb⟩ := hlast rules' hrun
    refine ⟨fun _ => hq, fun _ e c he => ?_⟩
    rw [hrun] at he
    cases hb.symm.trans he
  · rw [hwrite.2 hq]
    exact ⟨fun h => absurd rfl (h _ _ rfl).2, fun h => absurd h hq⟩

end KeepsOnFailure

/-! ### The parts of a call -/

theorem insert_not_uniqueConstraint
    (h : ∀ r ∈ rules.rows, r.type = rule.type → r.order ≠ rule.order) {e : RuleError}
    (he : rules.insert rule = .error e) : e ≠ .uniqueConstraint := by
  rintro rfl
  rw [RoleMappingRules.insert] at he
  by_cases hids : ((rules.rows ++ [rule]).map RoleMappingRule.id).Nodup
  · rw [RoleMappingRules.ofRows_eq_error_iff hids] at he
    apply he.2
    rw [List.map_append, List.nodup_append]
    refine ⟨rules.orders_nodup, by simp, ?_⟩
    intro p hp q hq heq
    obtain ⟨r, hr, rfl⟩ := List.mem_map.1 hp
    obtain rfl : q = (rule.type, rule.order) := by simpa using hq
    exact h r hr (congrArg Prod.fst heq) (congrArg Prod.snd heq)
  · rw [RoleMappingRules.ofRows, dif_neg hids] at he
    cases he

/-- A patched rule whose slot is free is saved. -/
theorem update_patched {patched : RoleMappingRule} (hrule : rule ∈ rules.rows)
    (hid : patched.id = rule.id)
    (h : ∀ r ∈ rules.rows, r.type = patched.type → r.order = patched.order → r.id = rule.id) :
    ∃ rules', rules.update rule.id (fun _ => patched) = .ok rules' := by
  have hids := RoleMappingRules.map_id_update rules rule.id
    (f := fun _ => patched) fun _ _ _ => hid
  have horders : ((rules.rows.map fun r => if r.id = rule.id then patched else r).map fun r =>
      (r.type, r.order)).Nodup :=
    (RoleMappingRules.orders_nodup_update_iff (f := fun _ => patched) hrule).2
      fun r hr hne htype horder => hne (h r hr htype horder)
  exact ⟨⟨_, hids ▸ rules.ids_nodup, horders⟩, RoleMappingRules.ofRows_eq_ok_iff.2 rfl⟩

theorem steady_setOrders (base : ℤ) (ids : List String) :
    Steady .unavailable (setOrders base ids) :=
  Steady.each (fun _ => steady_access _ _) _

theorem steady_writeOrder (ids : List String) : Steady .unavailable (writeOrder ids) :=
  (steady_pure _ _).ite (((steady_setOrders _ _).bind fun _ => steady_setOrders _ _).transaction)

theorem steady_reindex (kind : RuleKind) : Steady .unavailable (reindex kind) :=
  (steady_access _ _).bind fun _ => (steady_pure _ _).ite (steady_writeOrder _)

theorem reindex_fault (rules : RoleMappingRules) (kind : RuleKind) :
    Ends (reindex kind) rules (.error .unavailable) rules :=
  (ends_access_fault _ _ _).error_bind _

theorem findOneOrFail_fault (rules : RoleMappingRules) (id : String) :
    Ends (findOneOrFail id) rules (.error .unavailable) rules :=
  (ends_access_fault _ _ _).error_bind _

/-- Renumbering keeps the keys. -/
theorem reindex_ids {u : Unit} (h : Ends (reindex kind) rules (.ok u) rules') :
    rules'.rows.map RoleMappingRule.id = rules.rows.map RoleMappingRule.id := by
  obtain ⟨all, hall, h⟩ := (readsOnly_query _ _).bind_ok h
  obtain ⟨rfl, -⟩ := ends_query_ok hall
  split_ifs at h
  · rw [(ends_pure_ok h).2]
  · rw [writeOrder_ok (rules.sequence_nodup kind) h, map_id_renumbered]

theorem findOneOrFail_run (rules : RoleMappingRules) (id : String)
    (h : id ∈ rules.rows.map RoleMappingRule.id) :
    ∃ item, findOneOrFail id ⟨rules, []⟩ = (.ok item, ⟨rules, []⟩) := by
  obtain ⟨rule, hrule, hid⟩ := List.mem_map.1 h
  have hfound := RoleMappingRules.findById_eq_some_iff.2 ⟨hrule, hid⟩
  refine ⟨serialize rule, ?_⟩
  have hquery : query .unavailable (fun rules : RoleMappingRules => rules.findById id) ⟨rules, []⟩ =
      ((.ok (rules.findById id) : Except RuleError _), ⟨rules, []⟩) := rfl
  rw [findOneOrFail, run_bind, hquery, hfound]
  rfl

theorem dense_ofKind_iff : (rules.ofKind kind).Dense RoleMappingRule.order ↔
    ∀ p ∈ (rules.ofKind kind).zipIdx, p.1.order = p.2 := by
  rw [List.dense_iff_getElem (rules.pairwise_ofKind kind)]
  constructor
  · rintro h ⟨r, i⟩ hp
    obtain ⟨hi, hr⟩ := List.getElem?_eq_some_iff.1 (List.mk_mem_zipIdx_iff_getElem?.1 hp)
    rw [← hr]
    exact h i hi
  · intro h i hi
    exact h (_, i) (List.mk_mem_zipIdx_iff_getElem?.2 (List.getElem?_eq_getElem hi))

/-- Dense rules are left alone. -/
theorem reindex_of_dense {x : Except RuleError Unit}
    (hdense : (rules.ofKind kind).Dense RoleMappingRule.order)
    (h : Ends (reindex kind) rules x rules') :
    rules' = rules ∧ ∀ e, x = .error e → e ≠ .uniqueConstraint := by
  have hrest : ∀ x rules', Ends (if rules.ofKind kind = [] ∨
      ∀ p ∈ (rules.ofKind kind).zipIdx, p.1.order = p.2 then pure ()
      else writeOrder ((rules.ofKind kind).map RoleMappingRule.id) : Service Unit) rules x rules' →
      rules' = rules ∧ x = .ok () := by
    intro x rules' h
    rw [if_pos (Or.inr (dense_ofKind_iff.1 hdense))] at h
    exact (ends_pure_ok h).symm
  cases x with
  | ok u =>
    obtain ⟨all, hall, h⟩ := (readsOnly_query _ _).bind_ok h
    obtain ⟨rfl, -⟩ := ends_query_ok hall
    exact ⟨(hrest _ _ h).1, fun e he => by cases he⟩
  | error e =>
    rcases h.bind_error with h | ⟨all, rules₁, hall, h⟩
    · obtain ⟨rfl, rfl⟩ := ends_query_error h
      exact ⟨rfl, fun e he => by cases he; decide⟩
    · obtain ⟨rfl, rfl⟩ := ends_query_ok hall
      cases (hrest _ _ h).2

/-! ### When the renumbering goes through -/

/-- The request is refused by its checks, or every renumbering it asks for finds its temporary range
free. -/
def RuleRequest.PassesRange (directory : Directory) (rules : RoleMappingRules) :
    RuleRequest → Prop
  | .create id dto => ∀ entity rules₁,
    (newRule directory id dto ⟨rules, []⟩).1 = .ok entity → rules.insert entity = .ok rules₁ →
      TemporaryRangeFree (rules₁.ofKind dto.type)
  | .patch id dto => ∀ rule patched rules₁,
    (patchedRule directory id dto ⟨rules, []⟩).1 = .ok (rule, patched) →
      rules.update rule.id (fun _ => patched) = .ok rules₁ →
      TemporaryRangeFree (rules₁.ofKind patched.type) ∧
        TemporaryRangeFree (rules₁.ofKind rule.type)
  | .remove id => ∀ rule, (requireRule id ⟨rules, []⟩).1 = .ok rule →
    TemporaryRangeFree ((rules.remove rule.id).ofKind rule.type)
  | .move id target => ∀ rule, (requireRule id ⟨rules, []⟩).1 = .ok rule →
    TemporaryRangeFree (moved (rules.ofKind rule.type) id target)

theorem keeps_create_iff :
    KeepsOnFailure (create directory id dto) rules [] ↔
      (RuleRequest.create id dto).PassesRange directory rules := by
  refine (keepsOnFailure_checks_iff (checks_newRule directory id dto)
    (P := fun entity => ∀ rules₁, rules.insert entity = .ok rules₁ →
      TemporaryRangeFree (rules₁.ofKind dto.type)) fun entity hentity => ?_).trans
    ⟨fun h entity rules₁ he => h entity he rules₁, fun h entity he rules₁ => h entity rules₁ he⟩
  obtain ⟨hid, htype, horder, hfree⟩ := newRule_ok ⟨[], [], hentity⟩
  match hinsert : rules.insert entity with
  | .error e =>
    rw [keepsOnFailure_iff_of_error (by rw [run_bind, statement_run_error hinsert])]
    refine ⟨fun _ rules₁ h => (by cases h), fun _ => ⟨rfl, ?_⟩⟩
    rw [← htype, ← horder] at hfree
    exact insert_not_uniqueConstraint hfree hinsert
  | .ok rules₁ =>
    rw [KeepsOnFailure, run_bind, statement_run_ok hinsert]
    refine (keeps_renumbering_iff (reindex_run rules₁ dto.type) (fun rules₂ hreindex => ?_)
      rules).trans ⟨fun h rules' hr => by cases hr; exact h, fun h => h rules₁ rfl⟩
    apply findOneOrFail_run
    rw [reindex_ids ⟨[], [], hreindex⟩, RoleMappingRules.ofRows_eq_ok_iff.1 hinsert]
    simp

/-- What follows the saving of a patched rule. -/
def reindexBoth (kind origKind : RuleKind) (id : String) : Service RuleMappingItem := do
  reindex kind
  if origKind ≠ kind then
    reindex origKind
  findOneOrFail id

/-- The other type's rules are not touched by a renumbering. -/
theorem keeps_reindexBoth_iff {origKind : RuleKind} (hid : id ∈ rules.rows.map RoleMappingRule.id)
    (rules₀ : RoleMappingRules) :
    (∀ e c, reindexBoth kind origKind id ⟨rules, []⟩ = (.error e, c) →
      c.data = rules₀ ∧ e ≠ .uniqueConstraint) ↔
      TemporaryRangeFree (rules.ofKind kind) ∧ TemporaryRangeFree (rules.ofKind origKind) := by
  by_cases hkind : origKind ≠ kind
  · by_cases hrange : TemporaryRangeFree (rules.ofKind kind)
    · obtain ⟨rules₁, hreindex⟩ := (reindex_run rules kind).1 hrange
      have hids₁ := reindex_ids ⟨[], [], hreindex⟩
      have hsame : rules₁.ofKind origKind = rules.ofKind origKind :=
        (reindex_ok ⟨[], [], hreindex⟩).others origKind hkind
      rw [reindexBoth, run_bind, hreindex]
      simp only [if_pos hkind]
      refine (keeps_renumbering_iff (reindex_run rules₁ origKind) (fun rules₂ hreindex' => ?_)
        rules₀).trans ?_
      · exact findOneOrFail_run _ _ (by rwa [reindex_ids ⟨[], [], hreindex'⟩, hids₁])
      · rw [hsame]
        exact (and_iff_right hrange).symm
    · rw [reindexBoth, run_bind, (reindex_run rules kind).2 hrange]
      exact ⟨fun h => absurd rfl (h _ _ rfl).2, fun h => absurd h.1 hrange⟩
  · rw [reindexBoth, not_not.1 hkind, and_self]
    simp only [ne_eq, not_true_eq_false, if_false]
    refine keeps_renumbering_iff (reindex_run rules kind) (fun rules₁ hreindex => ?_) rules₀
    exact findOneOrFail_run _ _ (by rwa [reindex_ids ⟨[], [], hreindex⟩])

theorem keeps_patch_iff {dto : PatchRule} :
    KeepsOnFailure (patch directory id dto) rules [] ↔
      (RuleRequest.patch id dto).PassesRange directory rules := by
  refine (keepsOnFailure_checks_iff (checks_patchedRule directory id dto)
    (P := fun p => ∀ rules₁, rules.update p.1.id (fun _ => p.2) = .ok rules₁ →
      TemporaryRangeFree (rules₁.ofKind p.2.type) ∧ TemporaryRangeFree (rules₁.ofKind p.1.type))
    fun p hpatched => ?_).trans ⟨fun h rule patched rules₁ hp => h (rule, patched) hp rules₁,
      fun h p hp rules₁ => h p.1 p.2 rules₁ hp⟩
  obtain ⟨hfound, hpid, -, -, hfree⟩ := patchedRule_ok ⟨[], [], hpatched⟩
  obtain ⟨hrule, hid⟩ := RoleMappingRules.findById_eq_some_iff.1 hfound
  rw [← hid] at hfree
  obtain ⟨rules₁, hupdate⟩ := update_patched hrule hpid hfree
  have hmem : id ∈ rules₁.rows.map RoleMappingRule.id := by
    rw [RoleMappingRules.ofRows_eq_ok_iff.1 hupdate,
      RoleMappingRules.map_id_update _ _ fun _ _ _ => hpid]
    exact hid ▸ List.mem_map_of_mem hrule
  have hrun : (do
      statement .unavailable fun rules => rules.update p.1.id fun _ => p.2
      reindexBoth p.2.type p.1.type id : Service RuleMappingItem) ⟨rules, []⟩ =
      reindexBoth p.2.type p.1.type id ⟨rules₁, []⟩ := by
    rw [run_bind, statement_run_ok hupdate]
  rw [KeepsOnFailure]
  refine ((iff_of_eq (by rw [← hrun]; rfl)).trans (keeps_reindexBoth_iff hmem rules)).trans
    ⟨fun h rules₁' hupdate' => ?_, fun h => ?_⟩
  · rw [hupdate] at hupdate'
    cases hupdate'
    exact h
  · exact h rules₁ hupdate

theorem keeps_remove_iff :
    KeepsOnFailure (remove id) rules [] ↔ (RuleRequest.remove id).PassesRange {} rules := by
  refine keepsOnFailure_checks_iff (checks_requireRule id) fun rule _ => ?_
  have hrun : (do
      statement .unavailable fun rules => .ok (rules.remove rule.id)
      reindex rule.type : Service Unit) ⟨rules, []⟩ =
      reindex rule.type ⟨rules.remove rule.id, []⟩ := rfl
  obtain ⟨hok, herror⟩ := reindex_run (rules.remove rule.id) rule.type
  by_cases hrange : TemporaryRangeFree ((rules.remove rule.id).ofKind rule.type)
  · obtain ⟨rules₂, hreindex⟩ := hok hrange
    exact ⟨fun _ => hrange, fun _ => keepsOnFailure_of_ok (hrun.trans hreindex)⟩
  · rw [keepsOnFailure_iff_of_error (hrun.trans (herror hrange))]
    exact ⟨fun h => absurd rfl h.2, fun h => absurd h hrange⟩

/-- The rules of a type with one of them moved, as a list of the same rules. -/
theorem moved_perm_rows {target : ℕ} (hrule : rule ∈ rules.rows) :
    (moved (rules.ofKind rule.type) rule.id target).Perm
        (rules.rows.filter fun r => r.type = rule.type) ∧
      ((moved (rules.ofKind rule.type) rule.id target).map RoleMappingRule.id).Nodup := by
  have hmem : rule ∈ rules.ofKind rule.type := RoleMappingRules.mem_ofKind.2 ⟨hrule, rfl⟩
  have hperm := moved_perm target (rules.sequence_nodup rule.type) hmem
  exact ⟨hperm.trans (rules.ofKind_perm rule.type),
    (hperm.map RoleMappingRule.id).nodup_iff.2 (rules.sequence_nodup rule.type)⟩

theorem keeps_move_iff :
    KeepsOnFailure (move id target) rules [] ↔
      (RuleRequest.move id target).PassesRange {} rules := by
  refine keepsOnFailure_checks_iff (checks_requireRule id) fun rule hresult => ?_
  obtain ⟨hrule, rfl⟩ := RoleMappingRules.findById_eq_some_iff.1
    (requireRule_ok ⟨[], [], hresult⟩).2
  obtain ⟨hperm, hids⟩ := @moved_perm_rows rules rule target hrule
  refine keeps_renumbering_iff (writeOrder_run hperm) (fun rules₁ hwrite => ?_) rules
  apply findOneOrFail_run
  rw [writeOrder_ok hids ⟨[], [], hwrite⟩, map_id_renumbered]
  exact List.mem_map_of_mem hrule

/-! ### When nothing can go wrong -/

/-- The request is refused by its checks, or all that it writes is there already. -/
def RuleRequest.ChangesNothing (directory : Directory) (rules : RoleMappingRules) :
    RuleRequest → Prop
  | .create id dto => ∀ entity rules₁,
    (newRule directory id dto ⟨rules, []⟩).1 = .ok entity → rules.insert entity ≠ .ok rules₁
  | .patch id dto => ∀ rule patched, (patchedRule directory id dto ⟨rules, []⟩).1 =
    .ok (rule, patched) → patched = rule ∧ (rules.ofKind rule.type).Dense RoleMappingRule.order
  | .remove id => ∀ rule, (requireRule id ⟨rules, []⟩).1 ≠ .ok rule
  | .move id target => ∀ rule, (requireRule id ⟨rules, []⟩).1 = .ok rule →
    rules.rows.map (renumbered 0
      ((moved (rules.ofKind rule.type) id target).map RoleMappingRule.id)) = rules.rows

theorem keeps_create_all_iff :
    (∀ faults, KeepsOnFailure (create directory id dto) rules faults) ↔
      (RuleRequest.create id dto).ChangesNothing directory rules := by
  refine (keepsOnFailure_checks_all_iff (checks_newRule directory id dto)
    (P := fun entity => ∀ rules₁, rules.insert entity ≠ .ok rules₁)
    fun entity hentity => ?_).trans
    ⟨fun h entity rules₁ he => h entity he rules₁, fun h entity he rules₁ => h entity rules₁ he⟩
  rw [keepsOnFailure_all]
  constructor
  · intro h rules₁ hinsert
    obtain ⟨rfl, -⟩ := h _ _ <| (steady_access _ _).ends_bind (a := ())
      (statement_run_ok hinsert) ((reindex_fault rules₁ dto.type).error_bind _)
    have hrows := RoleMappingRules.ofRows_eq_ok_iff.1 hinsert
    simpa using congrArg List.length hrows
  · intro h e rules' hrest
    obtain ⟨-, htype, horder, hfree⟩ := newRule_ok hentity
    rcases hrest.bind_error with hinsert | ⟨_, rules₂, hinsert, -⟩
    · obtain ⟨rfl | hinsert, rfl⟩ := ends_statement_error hinsert
      · exact ⟨rfl, by decide⟩
      · rw [← htype, ← horder] at hfree
        exact ⟨rfl, insert_not_uniqueConstraint hfree hinsert⟩
    · exact absurd (ends_statement_ok hinsert) (h rules₂)

/-- Saving a rule as it is changes nothing. -/
theorem update_self (hrule : rule ∈ rules.rows) :
    rules.update rule.id (fun _ => rule) = .ok rules := by
  apply RoleMappingRules.ofRows_eq_ok_iff.2
  conv_lhs => rw [← List.map_id rules.rows]
  apply List.map_congr_left
  intro r hr
  by_cases hrid : r.id = rule.id
  · rw [if_pos hrid]
    exact RoleMappingRules.eq_of_id_eq hr hrule hrid
  · rw [if_neg hrid]
    rfl

theorem keeps_patch_all_iff {dto : PatchRule} :
    (∀ faults, KeepsOnFailure (patch directory id dto) rules faults) ↔
      (RuleRequest.patch id dto).ChangesNothing directory rules := by
  refine (keepsOnFailure_checks_all_iff (checks_patchedRule directory id dto)
    (P := fun p => p.2 = p.1 ∧ (rules.ofKind p.1.type).Dense RoleMappingRule.order)
    fun p hpatched => ?_).trans
    ⟨fun h rule patched hp => h (rule, patched) hp, fun h p hp => h p.1 p.2 hp⟩
  obtain ⟨rule, patched⟩ := p
  obtain ⟨hfound, hpid, -, -, hfree⟩ := patchedRule_ok hpatched
  obtain ⟨hrule, hid⟩ := RoleMappingRules.findById_eq_some_iff.1 hfound
  rw [← hid] at hfree
  rw [keepsOnFailure_all]
  constructor
  · intro h
    obtain ⟨rules₁, hupdate⟩ := update_patched hrule hpid hfree
    have hrest : ∀ {e rules'},
        Ends (reindexBoth patched.type rule.type id) rules₁ (.error e) rules' →
        rules' = rules ∧ e ≠ .uniqueConstraint := fun hx => h _ _ <|
      (steady_access _ _).ends_bind (a := ()) (statement_run_ok hupdate) hx
    obtain ⟨rfl, -⟩ := hrest ((reindex_fault rules₁ patched.type).error_bind _)
    have hsame : patched = rule := by
      have hrows := RoleMappingRules.ofRows_eq_ok_iff.1 hupdate
      have hmap := hrows.symm.trans (List.map_id _).symm
      have := List.map_inj_left.1 hmap rule hrule
      rwa [if_pos rfl] at this
    subst hsame
    refine ⟨rfl, ?_⟩
    obtain ⟨hok, herror⟩ := reindex_run rules₁ patched.type
    by_cases hrange : TemporaryRangeFree (rules₁.ofKind patched.type)
    · obtain ⟨rules₂, hreindex⟩ := hok hrange
      have hdense := (reindex_ok ⟨[], [], hreindex⟩).dense
      have hfault : Ends (reindexBoth patched.type patched.type id) rules₁ (.error .unavailable)
          rules₂ := by
        refine (steady_reindex _).ends_bind hreindex ?_
        rw [if_neg (not_not.2 rfl)]
        exact findOneOrFail_fault rules₂ id
      obtain ⟨rfl, -⟩ := hrest hfault
      exact hdense
    · exact absurd rfl (hrest (Ends.error_bind ⟨[], [], herror hrange⟩ _)).2
  · rintro ⟨hsame, hdense⟩ e rules' hrest
    obtain rfl : patched = rule := hsame
    have hupdate := update_self hrule
    rcases hrest.bind_error with hstatement | ⟨_, rules₂, hstatement, htail⟩
    · obtain ⟨rfl | hstatement, rfl⟩ := ends_statement_error hstatement
      · exact ⟨rfl, by decide⟩
      · cases hupdate.symm.trans hstatement
    · cases hupdate.symm.trans (ends_statement_ok hstatement)
      rcases htail.bind_error with hreindex | ⟨_, rules₃, hreindex, hfind⟩
      · obtain ⟨rfl, hne⟩ := reindex_of_dense hdense hreindex
        exact ⟨rfl, hne e rfl⟩
      · obtain ⟨rfl, -⟩ := reindex_of_dense hdense hreindex
        rw [if_neg (not_not.2 rfl)] at hfind
        exact ⟨(checks_findOneOrFail _).readsOnly _ _ _ hfind,
          (checks_findOneOrFail _).throws _ _ _ hfind⟩

theorem keeps_remove_all_iff :
    (∀ faults, KeepsOnFailure (remove id) rules faults) ↔
      (RuleRequest.remove id).ChangesNothing {} rules := by
  refine keepsOnFailure_checks_all_iff (checks_requireRule id) (P := fun _ => False)
    fun rule hresult => iff_false_intro fun h => ?_
  rw [keepsOnFailure_all] at h
  obtain ⟨hmem, -⟩ := RoleMappingRules.findById_eq_some_iff.1 (requireRule_ok hresult).2
  obtain ⟨heq, -⟩ := h _ _ <| (steady_access _ _).ends_bind (a := ()) (statement_run_ok rfl)
    (reindex_fault (rules.remove rule.id) rule.type)
  rw [← heq] at hmem
  simp [RoleMappingRules.remove] at hmem

theorem keeps_move_all_iff :
    (∀ faults, KeepsOnFailure (move id target) rules faults) ↔
      (RuleRequest.move id target).ChangesNothing {} rules := by
  refine keepsOnFailure_checks_all_iff (checks_requireRule id) fun rule hresult => ?_
  obtain ⟨hrule, rfl⟩ := RoleMappingRules.findById_eq_some_iff.1 (requireRule_ok hresult).2
  obtain ⟨hperm, hids⟩ := @moved_perm_rows rules rule target hrule
  obtain ⟨hok, herror⟩ := writeOrder_run hperm
  rw [keepsOnFailure_all]
  constructor
  · intro h
    have hrest : ∀ {e rules'}, Ends
        (writeOrder ((moved (rules.ofKind rule.type) rule.id target).map RoleMappingRule.id) >>=
          fun _ => findOneOrFail rule.id) rules (.error e) rules' →
        rules' = rules ∧ e ≠ .uniqueConstraint := fun hx => h _ _ <|
      (steady_access _ _).ends_bind (a := rules.ofKind rule.type) rfl hx
    by_cases hrange : TemporaryRangeFree (moved (rules.ofKind rule.type) rule.id target)
    · obtain ⟨rules₁, hwrite⟩ := hok hrange
      obtain ⟨rfl, -⟩ := hrest ((steady_writeOrder _).ends_bind hwrite
        (findOneOrFail_fault rules₁ rule.id))
      exact (writeOrder_ok hids ⟨[], [], hwrite⟩).symm
    · exact absurd rfl (hrest (Ends.error_bind ⟨[], [], herror hrange⟩ _)).2
  · intro hrows e rules' hrest
    rcases hrest.bind_error with hall | ⟨all, rules₂, hall, htail⟩
    · obtain ⟨rfl, rfl⟩ := ends_query_error hall
      exact ⟨rfl, by decide⟩
    obtain ⟨rfl, rfl⟩ := ends_query_ok hall
    rcases htail.bind_error with hwrite | ⟨_, rules₃, hwrite, hfind⟩
    · have hdata : rules' = rules₂ := by
        rw [writeOrder] at hwrite
        split_ifs at hwrite
        · cases (ends_pure_ok hwrite).1
        · exact (ends_transaction_error hwrite).1
      refine ⟨hdata, ?_⟩
      have hrange : TemporaryRangeFree (moved (rules₂.ofKind rule.type) rule.id target) := by
        apply temporaryRangeFree_of_getElem
        intro i hi
        have hrow := (List.mem_filter.1 (hperm.mem_iff.1 (List.getElem_mem hi))).1
        have hself := List.map_inj_left.1 (hrows.trans (List.map_id _).symm) _ hrow
        have horder := renumbered_getElem 0 hids i hi
        rw [hself] at horder
        simpa using horder
      obtain ⟨rules₃, hok⟩ := hok hrange
      obtain ⟨faults, faults', hwrite⟩ := hwrite
      rcases (steady_writeOrder _).outcome ⟨rules₂, faults⟩ with hfault | hout
      · rw [hwrite] at hfault
        cases hfault
        decide
      · rw [hok, hwrite] at hout
        cases hout
    · have hwritten := writeOrder_ok hids hwrite
      rw [hrows] at hwritten
      obtain rfl := RoleMappingRules.ext_rows hwritten
      exact ⟨(checks_findOneOrFail _).readsOnly _ _ _ hfind,
        (checks_findOneOrFail _).throws _ _ _ hfind⟩

/-- **Failed changes**: with a database that answers every access, a call that throws leaves the table
alone, and the renumbering does not make it throw, exactly when the temporary ranges of its
renumberings are free.  With a database that may fail at any access this is so exactly when the call
changes nothing. -/
theorem keepsOnFailure_iff (directory : Directory) (request : RuleRequest)
    (rules : RoleMappingRules) :
    (KeepsOnFailure (request.run directory) rules [] ↔ request.PassesRange directory rules) ∧
    ((∀ faults, KeepsOnFailure (request.run directory) rules faults) ↔
      request.ChangesNothing directory rules) := by
  cases request with
  | create id dto =>
    refine ⟨keepsOnFailure_bind_pure.trans keeps_create_iff, ?_⟩
    exact (forall_congr' fun _ => keepsOnFailure_bind_pure).trans keeps_create_all_iff
  | patch id dto =>
    refine ⟨keepsOnFailure_bind_pure.trans keeps_patch_iff, ?_⟩
    exact (forall_congr' fun _ => keepsOnFailure_bind_pure).trans keeps_patch_all_iff
  | remove id =>
    refine ⟨keepsOnFailure_bind_pure.trans keeps_remove_iff, ?_⟩
    exact (forall_congr' fun _ => keepsOnFailure_bind_pure).trans keeps_remove_all_iff
  | move id target =>
    refine ⟨keepsOnFailure_bind_pure.trans keeps_move_iff, ?_⟩
    exact (forall_congr' fun _ => keepsOnFailure_bind_pure).trans keeps_move_all_iff

/-- With one rule of order 0, a rule of the free order 1002 is saved; then the renumbering moves the
first rule to 1002 and throws. -/
theorem create_collides : let rules := (createGlobal "a" 0).leaves .empty
    ¬ KeepsOnFailure ((createGlobal "b" 1002).request.run (createGlobal "b" 1002).directory)
      rules [] := by
  intro rules h
  match hrun : (createGlobal "b" 1002).request.run (createGlobal "b" 1002).directory
      ⟨rules, []⟩ with
  | (.ok item, c) =>
    have hfails : ((createGlobal "b" 1002).request.run (createGlobal "b" 1002).directory
      ⟨rules, []⟩).1.toOption.isNone = true := by decide +kernel
    rw [hrun] at hfails
    cases hfails
  | (.error e, c) =>
    have hsaved : ((createGlobal "b" 1002).request.run (createGlobal "b" 1002).directory
      ⟨rules, []⟩).2.data ≠ rules := by decide +kernel
    rw [hrun] at hsaved
    exact hsaved (h e c hrun).1

end RoleMapping

end N8n
