import N8n.Lib.Except
import Mathlib.Data.List.Perm.Basic
import Mathlib.Data.List.Sort

/-!
# Insertion-ordered maps

`Dict κ α` is a finite map that remembers the order in which its keys were first written, as a
script object or a hash map with ordered iteration does: writing an existing key replaces the
value in place, writing a new key appends it, and deleting a key forgets its position.

* `Dict.get?`, `Dict.set`, `Dict.erase`, `Dict.keys`, `Dict.values`, `Dict.ofList`;
* `Dict.get?_set`, `Dict.get?_erase`: the equations of a finite map;
* `Dict.mem_entries_iff`: the listed entries are exactly the pairs `get?` answers;
* `Dict.Erases`: a map is another one without the keys of a set, and what loops erase;
* `Dict.ownKeys`: the keys in the order in which a script engine enumerates them, the canonical
  decimal numerals first, in ascending order, and then all other keys in insertion order.
-/

universe u v w

/-- A finite map that keeps its keys in the order of their first writing. -/
structure Dict (κ : Type u) (α : Type v) where
  entries : List (κ × α)
  nodup : (entries.map Prod.fst).Nodup
  deriving DecidableEq

variable {κ : Type u} {α : Type v} [DecidableEq κ]

namespace EntryList

/-- The value of the first entry with key `k`. -/
def lookup (k : κ) : List (κ × α) → Option α
  | [] => none
  | (k', a) :: l => if k' = k then some a else lookup k l

/-- Write `a` at key `k`: in place when the key is there, at the end otherwise. -/
def write (k : κ) (a : α) : List (κ × α) → List (κ × α)
  | [] => [(k, a)]
  | (k', a') :: l => if k' = k then (k, a) :: l else (k', a') :: write k a l

/-- Drop the entries with key `k`. -/
def drop (k : κ) (l : List (κ × α)) : List (κ × α) :=
  l.filter fun e => e.1 ≠ k

theorem drop_cons_self (k : κ) (a : α) (l : List (κ × α)) : drop k ((k, a) :: l) = drop k l := by
  simp [drop]

variable {k : κ} {l : List (κ × α)}

theorem drop_cons_ne {k' : κ} (h : k' ≠ k) (a : α) (l : List (κ × α)) :
    drop k ((k', a) :: l) = (k', a) :: drop k l := by
  simp [drop, h]

theorem map_fst_write (k : κ) (a : α) (l : List (κ × α)) :
    (write k a l).map Prod.fst =
      if k ∈ l.map Prod.fst then l.map Prod.fst else l.map Prod.fst ++ [k] := by
  induction l with
  | nil => simp [write]
  | cons e l ih =>
    obtain ⟨k', a'⟩ := e
    by_cases hk : k' = k
    · subst hk; simp [write]
    · have hk' : k ≠ k' := fun h => hk h.symm
      by_cases hm : k ∈ l.map Prod.fst
      · rw [if_pos hm] at ih
        have hm' : k ∈ ((k', a') :: l).map Prod.fst := List.mem_cons_of_mem _ hm
        rw [if_pos hm', write, if_neg hk, List.map_cons, ih, List.map_cons]
      · rw [if_neg hm] at ih
        have hm' : k ∉ ((k', a') :: l).map Prod.fst := by
          rw [List.map_cons, List.mem_cons]
          exact fun h => h.elim hk' hm
        rw [if_neg hm', write, if_neg hk, List.map_cons, ih, List.map_cons, List.cons_append]

theorem nodup_write {a : α} (h : (l.map Prod.fst).Nodup) : ((write k a l).map Prod.fst).Nodup := by
  rw [map_fst_write]
  split_ifs with hm
  · exact h
  · exact h.append (List.nodup_singleton k) (by simpa using hm)

theorem nodup_drop (h : (l.map Prod.fst).Nodup) : ((drop k l).map Prod.fst).Nodup :=
  h.sublist (List.filter_sublist.map Prod.fst)

theorem lookup_write (k k' : κ) (a : α) (l : List (κ × α)) :
    lookup k' (write k a l) = if k' = k then some a else lookup k' l := by
  induction l with
  | nil => simp only [write, lookup, eq_comm]
  | cons e l ih =>
    obtain ⟨k₁, a₁⟩ := e
    by_cases h1 : k₁ = k
    · subst h1
      by_cases h2 : k' = k₁
      · simp [write, lookup, h2]
      · simp [write, lookup, h2, Ne.symm h2]
    · by_cases h2 : k₁ = k'
      · subst h2; simp [write, lookup, h1]
      · simp only [write, if_neg h1, lookup, if_neg h2, ih]

theorem write_of_lookup_eq_none (h : lookup k l = none) (a : α) : write k a l = l ++ [(k, a)] := by
  induction l with
  | nil => rfl
  | cons e l ih =>
    obtain ⟨k', a'⟩ := e
    rw [lookup] at h
    split_ifs at h with hk
    rw [write, if_neg hk, ih h, List.cons_append]

theorem lookup_drop (k k' : κ) (l : List (κ × α)) :
    lookup k' (drop k l) = if k' = k then none else lookup k' l := by
  induction l with
  | nil => simp [drop, lookup]
  | cons e l ih =>
    obtain ⟨k₁, a₁⟩ := e
    simp only [drop] at ih
    by_cases h1 : k₁ = k
    · subst h1
      by_cases h2 : k' = k₁
      · simp [drop, h2] at ih ⊢; exact ih
      · simp [drop, lookup, h2, Ne.symm h2] at ih ⊢; exact ih
    · by_cases h2 : k₁ = k'
      · subst h2; simp [drop, lookup, h1]
      · simp only [drop, List.filter_cons, ne_eq, h1, not_false_eq_true, decide_true, if_true,
          lookup, if_neg h2]
        exact ih

theorem lookup_map {β : Type*} (f : α → β) (k : κ) (l : List (κ × α)) :
    lookup k (l.map fun e => (e.1, f e.2)) = (lookup k l).map f := by
  induction l with
  | nil => rfl
  | cons e l ih =>
    simp only [List.map_cons, lookup, ih]
    split_ifs <;> rfl

theorem mem_iff_lookup (h : (l.map Prod.fst).Nodup) (k : κ) (a : α) :
    (k, a) ∈ l ↔ lookup k l = some a := by
  induction l with
  | nil => simp [lookup]
  | cons e l ih =>
    obtain ⟨k₁, a₁⟩ := e
    rw [List.map_cons, List.nodup_cons] at h
    by_cases h1 : k₁ = k
    · subst h1
      have hn : (k₁, a) ∉ l := fun hm => h.1 (List.mem_map.2 ⟨_, hm, rfl⟩)
      simp [lookup, hn, eq_comm]
    · rw [List.mem_cons, ih h.2, lookup, if_neg h1]
      constructor
      · rintro (he | he)
        · exact absurd (congrArg Prod.fst he).symm h1
        · exact he
      · exact Or.inr

theorem mem_of_lookup {a : α} (h : lookup k l = some a) : (k, a) ∈ l := by
  induction l with
  | nil => cases h
  | cons e l ih =>
    unfold lookup at h
    split_ifs at h with hk
    · cases h
      exact hk ▸ List.mem_cons_self
    · exact List.mem_cons_of_mem _ (ih h)

theorem lookup_isSome_iff (k : κ) (l : List (κ × α)) :
    (lookup k l).isSome ↔ k ∈ l.map Prod.fst := by
  induction l with
  | nil => simp [lookup]
  | cons e l ih =>
    obtain ⟨k₁, a₁⟩ := e
    by_cases h1 : k₁ = k
    · subst h1; simp [lookup]
    · rw [lookup, if_neg h1, ih, List.map_cons, List.mem_cons]
      exact ⟨Or.inr, fun h => h.resolve_left (Ne.symm h1)⟩

/-- Among lists made from entries with distinct keys, `b` occurs only in the one made from key `k`. -/
theorem count_flatMap {β : Type*} [DecidableEq β] {f : κ × α → List β} {b : β}
    (h : (l.map Prod.fst).Nodup) (hf : ∀ e ∈ l, e.1 ≠ k → b ∉ f e) :
    (l.flatMap f).count b = ((lookup k l).map fun a => (f (k, a)).count b).getD 0 := by
  induction l with
  | nil => rfl
  | cons e l ih =>
    obtain ⟨k', a'⟩ := e
    rw [List.map_cons, List.nodup_cons] at h
    have ih := ih h.2 fun e he => hf e (List.mem_cons_of_mem _ he)
    rw [List.flatMap_cons, List.count_append, ih, lookup]
    by_cases hk : k' = k
    · subst hk
      have hnone : lookup k' l = none := by
        rw [← Option.not_isSome_iff_eq_none]
        exact fun hs => h.1 ((lookup_isSome_iff k' l).1 hs)
      simp [hnone]
    · rw [if_neg hk, List.count_eq_zero_of_not_mem (hf _ List.mem_cons_self hk), Nat.zero_add]

end EntryList

namespace Dict

/-- The map without keys. -/
def empty : Dict κ α := ⟨[], List.nodup_nil⟩

instance : Inhabited (Dict κ α) := ⟨empty⟩

/-- The value at key `k`. -/
def get? (d : Dict κ α) (k : κ) : Option α := EntryList.lookup k d.entries

/-- Write `a` at key `k`. -/
def set (d : Dict κ α) (k : κ) (a : α) : Dict κ α :=
  ⟨EntryList.write k a d.entries, EntryList.nodup_write d.nodup⟩

/-- Delete key `k`. -/
def erase (d : Dict κ α) (k : κ) : Dict κ α :=
  ⟨EntryList.drop k d.entries, EntryList.nodup_drop d.nodup⟩

/-- The keys, in insertion order. -/
def keys (d : Dict κ α) : List κ := d.entries.map Prod.fst

/-- The values, in the order of their keys. -/
def values (d : Dict κ α) : List α := d.entries.map Prod.snd

/-- Whether key `k` has a value. -/
def has (d : Dict κ α) (k : κ) : Bool := (d.get? k).isSome

/-- Apply `f` to every value. -/
def mapValues {β : Type*} (f : α → β) (d : Dict κ α) : Dict κ β :=
  ⟨d.entries.map fun e => (e.1, f e.2), by simpa [Function.comp_def] using d.nodup⟩

/-- Replace each value by one that depends on its key. -/
def mapEntries {β : Type*} (f : κ → α → β) (d : Dict κ α) : Dict κ β :=
  ⟨d.entries.map fun e => (e.1, f e.1 e.2), by simpa [Function.comp_def] using d.nodup⟩

/-- Keep the entries that satisfy `p`. -/
def filter (p : κ → α → Bool) (d : Dict κ α) : Dict κ α :=
  ⟨d.entries.filter fun e => p e.1 e.2, d.nodup.sublist (List.filter_sublist.map Prod.fst)⟩

/-- Write a list of entries one after the other. -/
def ofList (l : List (κ × α)) : Dict κ α := l.foldl (fun d e => d.set e.1 e.2) empty

@[simp] theorem get?_empty (k : κ) : (empty : Dict κ α).get? k = none := rfl

theorem get?_set (d : Dict κ α) (k k' : κ) (a : α) :
    (d.set k a).get? k' = if k' = k then some a else d.get? k' :=
  EntryList.lookup_write k k' a d.entries

@[simp] theorem get?_set_self (d : Dict κ α) (k : κ) (a : α) : (d.set k a).get? k = some a := by
  rw [get?_set, if_pos rfl]

variable {k k' : κ} {d : Dict κ α} {a : α} {β : Type*} {l : List (κ × α)}

variable (d)

theorem get?_set_ne (a : α) (h : k' ≠ k) : (d.set k a).get? k' = d.get? k' := by
  rw [get?_set, if_neg h]

theorem get?_erase (k k' : κ) : (d.erase k).get? k' = if k' = k then none else d.get? k' :=
  EntryList.lookup_drop k k' d.entries

@[simp] theorem get?_erase_self (k : κ) : (d.erase k).get? k = none := by
  rw [get?_erase, if_pos rfl]

theorem get?_erase_ne (h : k' ≠ k) : (d.erase k).get? k' = d.get? k' := by
  rw [get?_erase, if_neg h]

theorem mem_entries_iff (k : κ) (a : α) : (k, a) ∈ d.entries ↔ d.get? k = some a :=
  EntryList.mem_iff_lookup d.nodup k a

theorem mem_keys_iff (k : κ) : k ∈ d.keys ↔ (d.get? k).isSome :=
  (EntryList.lookup_isSome_iff k d.entries).symm

variable {d}

omit [DecidableEq κ] in
theorem keys_nodup (d : Dict κ α) : d.keys.Nodup := d.nodup

theorem keys_set (d : Dict κ α) (k : κ) (a : α) :
    (d.set k a).keys = if k ∈ d.keys then d.keys else d.keys ++ [k] :=
  EntryList.map_fst_write k a d.entries

/-- A new entry comes last. -/
theorem entries_set_of_get?_eq_none (h : d.get? k = none) (a : α) :
    (d.set k a).entries = d.entries ++ [(k, a)] :=
  EntryList.write_of_lookup_eq_none h a

theorem mem_keys_set (d : Dict κ α) (k k' : κ) (a : α) :
    k' ∈ (d.set k a).keys ↔ k' = k ∨ k' ∈ d.keys := by
  rw [mem_keys_iff, get?_set, mem_keys_iff]
  split_ifs with h
  · simp [h]
  · simp [h]

/-- Maps with the same values have the same entries, up to their order. -/
theorem entries_perm_of_get?_eq {d' : Dict κ α} (h : ∀ k, d.get? k = d'.get? k) :
    d.entries.Perm d'.entries := by
  refine (List.perm_ext_iff_of_nodup ?_ ?_).2 fun e => ?_
  · exact List.Nodup.of_map Prod.fst d.nodup
  · exact List.Nodup.of_map Prod.fst d'.nodup
  · obtain ⟨k, a⟩ := e
    rw [mem_entries_iff, mem_entries_iff, h]

/-- Deleting a key removes exactly its entry. -/
theorem entries_erase_perm (d : Dict κ α) (h : d.get? k = some a) :
    d.entries.Perm ((k, a) :: (d.erase k).entries) := by
  refine (List.perm_ext_iff_of_nodup ?_ ?_).2 fun e => ?_
  · exact List.Nodup.of_map Prod.fst d.nodup
  · refine List.nodup_cons.2 ⟨fun hm => ?_, List.Nodup.of_map Prod.fst (d.erase k).nodup⟩
    rw [mem_entries_iff, get?_erase_self] at hm
    cases hm
  · obtain ⟨k', a'⟩ := e
    rw [List.mem_cons, mem_entries_iff, mem_entries_iff, get?_erase, Prod.mk.injEq]
    by_cases hk : k' = k
    · simp [hk, h, eq_comm]
    · simp [hk]

theorem length_entries_set (d : Dict κ α) (k : κ) (a : α) :
    (d.set k a).entries.length = d.entries.length + if d.has k then 0 else 1 := by
  have hkeys := congrArg List.length (d.keys_set k a)
  rw [keys, List.length_map] at hkeys
  rw [hkeys, keys]
  by_cases h : d.has k
  · have hmem : k ∈ d.entries.map Prod.fst := (d.mem_keys_iff k).2 h
    rw [if_pos hmem, if_pos h, List.length_map, Nat.add_zero]
  · have hmem : k ∉ d.entries.map Prod.fst := fun hmem => h ((d.mem_keys_iff k).1 hmem)
    rw [if_neg hmem, if_neg h, List.length_append, List.length_map, List.length_singleton]

theorem length_entries_erase (h : d.has k) : (d.erase k).entries.length + 1 = d.entries.length := by
  obtain ⟨a, ha⟩ := Option.isSome_iff_exists.1 h
  exact (d.entries_erase_perm ha).length_eq.symm

/-- An entry that moves to a free key. -/
theorem entries_move_perm (d : Dict κ α) (h : d.get? k = some a) (hk' : d.get? k' = none) (b : α) :
    ((d.set k' b).erase k).entries.Perm
      (d.entries.map fun e => if e.1 = k then (k', b) else e) := by
  have hne : k' ≠ k := fun he => by
    rw [he, h] at hk'
    cases hk'
  have hnew : ((d.set k' b).erase k).get? k' = some b := by
    rw [get?_erase_ne _ hne, get?_set_self]
  have hrest : (((d.set k' b).erase k).erase k').entries.Perm (d.erase k).entries := by
    refine entries_perm_of_get?_eq fun j => ?_
    rw [get?_erase, get?_erase, get?_erase, get?_set]
    by_cases hj : j = k'
    · rw [if_pos hj, hj, hk', ite_self]
    · rw [if_neg hj, if_neg hj]
  have hkeep : (d.erase k).entries.map (fun e => if e.1 = k then (k', b) else e) =
      (d.erase k).entries := by
    refine (List.map_congr_left fun e he => if_neg fun hek => ?_).trans (List.map_id _)
    have hget := ((d.erase k).mem_entries_iff e.1 e.2).1 he
    rw [hek, get?_erase_self] at hget
    cases hget
  have hold := (d.entries_erase_perm h).map fun e => if e.1 = k then (k', b) else e
  rw [List.map_cons, if_pos rfl, hkeep] at hold
  exact ((entries_erase_perm _ hnew).trans (hrest.cons _)).trans hold.symm

/-- A sum over the entries of a map splits off what key `k` contributes. -/
theorem sum_entries_eq (f : κ × α → ℕ) (d : Dict κ α) (k : κ) :
    (d.entries.map f).sum =
      ((d.get? k).map fun a => f (k, a)).getD 0 + ((d.erase k).entries.map f).sum := by
  cases hk : d.get? k with
  | none =>
    have hsame : ∀ k', d.get? k' = (d.erase k).get? k' := by
      intro k'
      rw [get?_erase]
      split_ifs with h
      · rw [h, hk]
      · rfl
    simpa using ((entries_perm_of_get?_eq hsame).map f).sum_nat
  | some a => simpa using ((d.entries_erase_perm hk).map f).sum_nat

omit [DecidableEq κ] in
@[simp] theorem values_mapValues (f : α → β) (d : Dict κ α) :
    (d.mapValues f).values = d.values.map f := by
  simp [values, mapValues, Function.comp_def]

theorem get?_mapValues (f : α → β) (d : Dict κ α) (k : κ) :
    (d.mapValues f).get? k = (d.get? k).map f :=
  EntryList.lookup_map f k d.entries

theorem get?_mapEntries (f : κ → α → β) (d : Dict κ α) (k : κ) :
    (d.mapEntries f).get? k = (d.get? k).map (f k) := by
  have hlookup : ∀ l : List (κ × α), EntryList.lookup k (l.map fun e => (e.1, f e.1 e.2)) =
      (EntryList.lookup k l).map (f k) := by
    intro l
    induction l with
    | nil => rfl
    | cons e l ih =>
      rw [List.map_cons, EntryList.lookup, EntryList.lookup]
      by_cases he : e.1 = k
      · subst he
        simp
      · simpa [he] using ih
  exact hlookup d.entries

theorem get?_filter_eq_some_iff (p : κ → α → Bool) (d : Dict κ α) (k : κ) (a : α) :
    (d.filter p).get? k = some a ↔ d.get? k = some a ∧ p k a = true := by
  rw [← mem_entries_iff, ← mem_entries_iff]
  exact List.mem_filter

/-- Going through the entries of a map and writing one value for each key that is not skipped. -/
theorem get?_foldl_entries {β : Type v} (d : Dict κ α) (skip : κ → Bool) (f : κ → α → β)
    (d₀ : Dict κ β) (k : κ) :
    (d.entries.foldl (fun d' e => if skip e.1 then d' else d'.set e.1 (f e.1 e.2)) d₀).get? k =
      match d.get? k with
      | some a => if skip k then d₀.get? k else some (f k a)
      | none => d₀.get? k := by
  obtain ⟨l, hl⟩ := d
  change _ = match EntryList.lookup k l with | some a => _ | none => _
  induction l generalizing d₀ with
  | nil => rfl
  | cons e l ih =>
    obtain ⟨k', a⟩ := e
    rw [List.map_cons, List.nodup_cons] at hl
    rw [List.foldl_cons, ih _ hl.2, EntryList.lookup]
    by_cases hk : k' = k
    · subst hk
      have hnone : EntryList.lookup k' l = none := by
        rw [← Option.not_isSome_iff_eq_none, EntryList.lookup_isSome_iff]
        exact hl.1
      rw [hnone, if_pos rfl]
      cases hs : skip k' with
      | true => simp
      | false => simp
    · rw [if_neg hk]
      have hne : k ≠ k' := fun h => hk h.symm
      cases hs : skip k' with
      | true => simp
      | false => simp [get?_set_ne _ _ hne]

theorem mem_of_get?_foldl_set (h : (l.foldl (fun d e => d.set e.1 e.2) d).get? k = some a) :
    (k, a) ∈ l ∨ d.get? k = some a := by
  induction l generalizing d with
  | nil => exact Or.inr h
  | cons e l ih =>
    rcases ih h with hm | hd
    · exact Or.inl (List.mem_cons_of_mem e hm)
    · rw [get?_set] at hd
      split_ifs at hd with hk
      · cases hd
        exact Or.inl (hk ▸ List.mem_cons_self)
      · exact Or.inr hd

/-- A list of entries only holds values that were written. -/
theorem mem_of_get?_ofList (h : (ofList l).get? k = some a) : (k, a) ∈ l :=
  (mem_of_get?_foldl_set h).resolve_right (by simp)

theorem mem_keys_ofList : k ∈ (ofList l).keys ↔ k ∈ l.map Prod.fst := by
  have hfold : ∀ (l : List (κ × α)) (d : Dict κ α),
      k ∈ (l.foldl (fun d e => d.set e.1 e.2) d).keys ↔ k ∈ d.keys ∨ k ∈ l.map Prod.fst := by
    intro l
    induction l with
    | nil => simp
    | cons e l ih =>
      intro d
      rw [List.foldl_cons, ih, mem_keys_set, List.map_cons, List.mem_cons, or_comm (a := k = e.1),
        or_assoc]
  rw [ofList, hfold]
  simp [empty, keys]

theorem mem_values_iff (d : Dict κ α) (a : α) : a ∈ d.values ↔ ∃ k, d.get? k = some a := by
  simp only [values, List.mem_map, Prod.exists, ← mem_entries_iff]
  constructor
  · rintro ⟨k, a', h, rfl⟩; exact ⟨k, h⟩
  · rintro ⟨k, h⟩; exact ⟨k, a, h, rfl⟩

/-! ### Erasing keys -/

section Erases

variable {β : Type w}

/-- `d'` is `d` without the keys that satisfy `P`. -/
structure Erases (P : κ → Prop) (d d' : Dict κ α) : Prop where
  erased : ∀ k, P k → d'.get? k = none
  kept : ∀ k, ¬P k → d'.get? k = d.get? k

variable {P Q : κ → Prop} {d d₁ d₂ : Dict κ α}

theorem erases_refl (d : Dict κ α) : Erases (fun _ => False) d d :=
  ⟨fun _ h => h.elim, fun _ _ => rfl⟩

theorem erases_erase (d : Dict κ α) (k : κ) : Erases (· = k) d (d.erase k) :=
  ⟨fun _ h => h ▸ d.get?_erase_self k, fun _ h => d.get?_erase_ne h⟩

theorem Erases.congr (h : Erases P d d₁) (hPQ : ∀ k, P k ↔ Q k) : Erases Q d d₁ :=
  ⟨fun k hk => h.erased k ((hPQ k).2 hk), fun k hk => h.kept k (mt (hPQ k).1 hk)⟩

theorem Erases.trans (h : Erases P d d₁) (h' : Erases Q d₁ d₂) :
    Erases (fun k => P k ∨ Q k) d d₂ := by
  refine ⟨fun k hk => ?_, fun k hk => ?_⟩
  · by_cases hQ : Q k
    · exact h'.erased k hQ
    · rw [h'.kept k hQ]
      exact h.erased k (hk.resolve_right hQ)
  · rw [not_or] at hk
    rw [h'.kept k hk.2, h.kept k hk.1]

/-- A loop that erases one key at most in each step. -/
theorem erases_foldl {f : Dict κ α → β → Dict κ α} {R : β → κ → Prop}
    (hstep : ∀ d b, Erases (R b) d (f d b)) (l : List β) (d : Dict κ α) :
    Erases (fun k => ∃ b ∈ l, R b k) d (l.foldl f d) := by
  induction l generalizing d with
  | nil => exact (erases_refl d).congr (by simp)
  | cons b l ih => exact ((hstep d b).trans (ih (f d b))).congr (by simp)

/-- The same for a loop whose steps can fail, and do not. -/
theorem erases_foldlM {ε : Type*} {f : Dict κ α → β → Except ε (Dict κ α)} {R : β → κ → Prop}
    {l : List β} (hstep : ∀ b ∈ l, ∀ d, ∃ d', f d b = .ok d' ∧ Erases (R b) d d') (d : Dict κ α) :
    ∃ d', l.foldlM f d = .ok d' ∧ Erases (fun k => ∃ b ∈ l, R b k) d d' := by
  induction l generalizing d with
  | nil => exact ⟨d, rfl, (erases_refl d).congr (by simp)⟩
  | cons b l ih =>
    obtain ⟨hb, hl⟩ := List.forall_mem_cons.1 hstep
    obtain ⟨d₁, hd₁, h₁⟩ := hb d
    obtain ⟨d₂, hd₂, h₂⟩ := ih hl d₁
    refine ⟨d₂, ?_, (h₁.trans h₂).congr (by simp)⟩
    rw [List.foldlM_cons, hd₁]
    exact hd₂

end Erases

end Dict

/-! ### The enumeration order of text keys -/

/-- The number a text denotes when it is the canonical numeral of an array index. -/
def numeral? (s : String) : Option ℕ :=
  let n := s.toList.foldl (fun n c => 10 * n + (c.toNat - '0'.toNat)) 0
  if toString n = s ∧ n < 4294967295 then some n else none

/-- The entries in the order in which a script engine enumerates their keys. -/
def EntryList.enumerate {α : Type v} (l : List (String × α)) : List (String × α) :=
  (l.filter fun e => (numeral? e.1).isSome).insertionSort
      (fun e e' => (numeral? e.1).getD 0 ≤ (numeral? e'.1).getD 0) ++
    l.filter fun e => !(numeral? e.1).isSome

theorem EntryList.enumerate_perm {α : Type v} (l : List (String × α)) : (enumerate l).Perm l :=
  ((List.perm_insertionSort _ _).append_right _).trans (List.filter_append_perm _ _)

namespace Dict

variable {α : Type v}

/-- The keys in the order in which a script engine enumerates them. -/
def ownKeys (d : Dict String α) : List String :=
  (d.keys.filter fun k => (numeral? k).isSome).insertionSort
      (fun k k' => (numeral? k).getD 0 ≤ (numeral? k').getD 0) ++
    d.keys.filter fun k => !(numeral? k).isSome

theorem ownKeys_perm (d : Dict String α) : d.ownKeys.Perm d.keys := by
  refine ((List.perm_insertionSort _ _).append_right _).trans ?_
  exact List.filter_append_perm _ _

theorem mem_ownKeys (d : Dict String α) (k : String) : k ∈ d.ownKeys ↔ (d.get? k).isSome := by
  rw [d.ownKeys_perm.mem_iff, mem_keys_iff]

end Dict
