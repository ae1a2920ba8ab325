import Mathlib.Algebra.BigOperators.Group.List.Basic
import Mathlib.Data.List.Dedup

/-!
# Sums of a column

* `tally value p l`: the sum of a column over the rows that satisfy a predicate;
* `groups key value l`: `SELECT key, SUM(value) GROUP BY key`;
* `tally_groups`: grouping keeps every sum over a union of groups;
* `perm_append_filter_notMem`: what is left when some rows are deleted by their ids.
-/

universe u v w

variable {α : Type u} {κ : Type v} {M : Type w}

open scoped List

section

variable [AddCommMonoid M]

/-- The sum of the values of the elements that satisfy a predicate. -/
def tally (value : α → M) (p : α → Bool) (l : List α) : M := ((l.filter p).map value).sum

variable {value : α → M} {p q : α → Bool} {l l' : List α}

@[simp] theorem tally_nil : tally value p [] = 0 := rfl

theorem tally_cons (a : α) :
    tally value p (a :: l) = (if p a then value a else 0) + tally value p l := by
  by_cases h : p a = true <;> simp [tally, h]

theorem tally_append : tally value p (l ++ l') = tally value p l + tally value p l' := by
  simp [tally]

theorem List.Perm.tally_eq (h : l ~ l') : tally value p l = tally value p l' :=
  ((h.filter p).map value).sum_eq

theorem tally_congr (h : ∀ a ∈ l, p a = q a) : tally value p l = tally value q l := by
  rw [tally, List.filter_congr h, tally]

theorem tally_map {β : Type u} (f : β → α) (l : List β) :
    tally value p (l.map f) = tally (value ∘ f) (p ∘ f) l := by
  rw [tally, tally, List.filter_map, List.map_map]

/-- The sum over two disjoint predicates. -/
theorem tally_or (h : ∀ a ∈ l, ¬ (p a = true ∧ q a = true)) :
    tally value (fun a => p a || q a) l = tally value p l + tally value q l := by
  induction l with
  | nil => simp
  | cons a l ih =>
    have ha := h a List.mem_cons_self
    rw [tally_cons, tally_cons, tally_cons, ih fun b hb => h b (List.mem_cons_of_mem _ hb)]
    cases hp : p a <;> cases hq : q a
    · simp
    · simp [add_left_comm]
    · simp [add_assoc]
    · exact absurd ⟨hp, hq⟩ ha

variable [DecidableEq κ] {key : α → κ}

/-- The groups of a list by a key, each with the sum of its values. -/
def groups (key : α → κ) (value : α → M) (l : List α) : List (κ × M) :=
  (l.map key).dedup.map fun k => (k, tally value (fun a => key a = k) l)

theorem mem_keys_groups {k : κ} : k ∈ (groups key value l).map Prod.fst ↔ k ∈ l.map key := by
  simp [groups, Function.comp_def]

/-- The sums of the groups with distinct keys add up to the sum of their elements. -/
theorem sum_tally_key {ks : List κ} (hks : ks.Nodup) (l : List α) :
    (ks.map fun k => tally value (fun a => key a = k) l).sum =
      tally value (fun a => decide (key a ∈ ks)) l := by
  induction ks with
  | nil => simp [tally]
  | cons k ks ih =>
    obtain ⟨hk, hks⟩ := List.nodup_cons.1 hks
    rw [List.map_cons, List.sum_cons, ih hks, ← tally_or]
    · exact tally_congr fun a _ => by simp [List.mem_cons]
    · rintro a - ⟨h, h'⟩
      rw [decide_eq_true_iff] at h h'
      exact hk (h ▸ h')

/-- **Grouping keeps the sums**: over the groups whose keys satisfy a predicate as over the elements
in them. -/
theorem tally_groups (p : κ → Bool) (l : List α) :
    tally Prod.snd (fun g => p g.1) (groups key value l) = tally value (fun a => p (key a)) l := by
  have hfilter : tally Prod.snd (fun g => p g.1) (groups key value l) =
      (((l.map key).dedup.filter p).map fun k => tally value (fun a => key a = k) l).sum := by
    rw [groups, tally, List.filter_map, List.map_map]
    rfl
  rw [hfilter, sum_tally_key ((List.nodup_dedup _).filter _)]
  refine tally_congr fun a ha => ?_
  have hkey : key a ∈ (l.map key).dedup := List.mem_dedup.2 (List.mem_map_of_mem ha)
  rw [Bool.eq_iff_iff, decide_eq_true_iff, List.mem_filter]
  exact and_iff_right hkey

/-- Adding to the value of the one element with a key, as `UPDATE … SET value = value + d` does. -/
theorem tally_map_update (value : α → M) {k : κ} {d : M} {f : α → α} (hkey : ∀ a, key (f a) = key a)
    (hvalue : ∀ a, value (f a) = value a + d) (p : κ → Bool) {l : List α}
    (hl : (l.map key).Nodup) (hk : k ∈ l.map key) :
    tally value (fun a => p (key a)) (l.map fun a => if key a = k then f a else a) =
      tally value (fun a => p (key a)) l + if p k then d else 0 := by
  induction l with
  | nil => cases hk
  | cons a l ih =>
    obtain ⟨ha, hl⟩ := List.nodup_cons.1 hl
    rw [List.map_cons, tally_cons, tally_cons]
    by_cases hak : key a = k
    · -- the other elements have other keys
      have hrest : l.map (fun a => if key a = k then f a else a) = l := by
        refine (List.map_congr_left fun b hb => ?_).trans (List.map_id l)
        refine if_neg fun hbk => ha ?_
        rw [hak, ← hbk]
        exact List.mem_map_of_mem hb
      rw [hrest, if_pos hak, hkey, hvalue, hak]
      by_cases hp : p k = true
      · simp only [hp, if_true]
        rw [add_right_comm]
      · simp [hp]
    · have hk' : k ∈ l.map key := by
        rcases List.mem_cons.1 hk with hk | hk
        · exact absurd hk.symm hak
        · exact hk
      rw [ih hl hk', if_neg hak, add_assoc]

end

/-- Deleting by their ids some rows of a table leaves the others. -/
theorem perm_append_filter_notMem [DecidableEq κ] {id : α → κ} {l batch rest : List α}
    (hl : (l.map id).Nodup) (h : l ~ batch ++ rest) :
    l ~ batch ++ l.filter fun a => id a ∉ batch.map id := by
  have hids : ((batch ++ rest).map id).Nodup := (h.map id).nodup_iff.1 hl
  rw [List.map_append, List.nodup_append] at hids
  have hbatch : batch.filter (fun a => id a ∉ batch.map id) = [] := by
    rw [List.filter_eq_nil_iff]
    intro a ha
    simpa using ⟨a, ha, rfl⟩
  have hrest : rest.filter (fun a => id a ∉ batch.map id) = rest := by
    rw [List.filter_eq_self]
    intro a ha
    have hnot : id a ∉ batch.map id := fun hmem =>
      hids.2.2 _ hmem _ (List.mem_map_of_mem ha) rfl
    simpa using hnot
  refine h.trans (List.Perm.append_left _ ?_)
  have hfilter := h.filter fun a => id a ∉ batch.map id
  rw [List.filter_append, hbatch, List.nil_append, hrest] at hfilter
  exact hfilter.symm
