import N8n.Lib.Dict
import Mathlib.Data.List.Infix

/-!
# Sequences of writes

What a list of entries leaves behind when it is written to an insertion-ordered list of entries,
one after the other.

* `EntryList.writeAll`: the writes;
* `mem_of_lookup_writeAll`, `exists_lookup_writeAll`: what is found afterwards;
* `EntryList.writeAll_of_prefix`: a list that begins with the keys that are there replaces them;
* `EntryList.writeAll_congr`: only the last write of each key counts;
* `Dict.index`: the rows of a map by what they are looked up by, which writes in place do not change.
-/

universe u v w

variable {κ : Type u} {α : Type v} [DecidableEq κ]

namespace EntryList

/-- Write the entries, one after the other. -/
def writeAll (ws : List (κ × α)) (o : List (κ × α)) : List (κ × α) :=
  ws.foldl (fun o e => write e.1 e.2 o) o

@[simp] theorem writeAll_nil (o : List (κ × α)) : writeAll [] o = o := rfl

@[simp] theorem writeAll_cons (e : κ × α) (ws o : List (κ × α)) :
    writeAll (e :: ws) o = writeAll ws (write e.1 e.2 o) := rfl

theorem writeAll_append (ws ws' o : List (κ × α)) :
    writeAll (ws ++ ws') o = writeAll ws' (writeAll ws o) :=
  List.foldl_append

theorem write_write (k : κ) (a a' : α) (l : List (κ × α)) :
    write k a' (write k a l) = write k a' l := by
  induction l with
  | nil => simp [write]
  | cons e l ih =>
    obtain ⟨k', b⟩ := e
    by_cases h : k' = k
    · simp [write, h]
    · simp [write, h, ih]

variable {k : κ} {l o ws : List (κ × α)}

/-- Writes at different keys commute, when one of the keys is there. -/
theorem write_comm {k' : κ} (hne : k ≠ k') (h : k ∈ l.map Prod.fst) (a a' : α) :
    write k' a' (write k a l) = write k a (write k' a' l) := by
  induction l with
  | nil => cases h
  | cons e l ih =>
    obtain ⟨k₁, a₁⟩ := e
    by_cases h1 : k₁ = k
    · subst h1
      simp [write, hne]
    · by_cases h2 : k₁ = k'
      · subst h2
        simp [write, h1]
      · have hmem : k ∈ l.map Prod.fst := by
          rw [List.map_cons, List.mem_cons] at h
          exact h.resolve_left fun heq => h1 heq.symm
        simp [write, h1, h2, ih hmem]

/-- Writing the value that is there changes nothing. -/
theorem write_of_lookup {a : α} (h : lookup k l = some a) : write k a l = l := by
  induction l with
  | nil => cases h
  | cons e l ih =>
    obtain ⟨k', b⟩ := e
    unfold lookup at h
    unfold write
    split_ifs at h ⊢ with hk
    · rw [Option.some.inj h, hk]
    · rw [ih h]

/-! ### Keys -/

theorem nodup_writeAll (ws : List (κ × α)) (h : (o.map Prod.fst).Nodup) :
    ((writeAll ws o).map Prod.fst).Nodup := by
  induction ws generalizing o with
  | nil => exact h
  | cons e ws ih => exact ih (nodup_write h)

theorem prefix_map_fst_writeAll (ws o : List (κ × α)) :
    o.map Prod.fst <+: (writeAll ws o).map Prod.fst := by
  induction ws generalizing o with
  | nil => exact List.prefix_rfl
  | cons e ws ih =>
    refine List.IsPrefix.trans ?_ (ih (write e.1 e.2 o))
    rw [map_fst_write]
    split_ifs
    · exact List.prefix_rfl
    · exact List.prefix_append _ _

/-- The keys do not depend on the values. -/
theorem map_fst_writeAll_congr {ws' : List (κ × α)} (h : ws.map Prod.fst = ws'.map Prod.fst)
    {o' : List (κ × α)} (ho : o.map Prod.fst = o'.map Prod.fst) :
    (writeAll ws o).map Prod.fst = (writeAll ws' o').map Prod.fst := by
  induction ws generalizing ws' o o' with
  | nil =>
    rw [List.map_nil, eq_comm, List.map_eq_nil_iff] at h
    rw [h]
    exact ho
  | cons e ws ih =>
    cases ws' with
    | nil => cases h
    | cons e' ws' =>
      rw [List.map_cons, List.map_cons, List.cons.injEq] at h
      refine ih h.2 ?_
      rw [map_fst_write, map_fst_write, ho, h.1]

/-! ### Values -/

/-- What is found was written or was there before. -/
theorem mem_of_lookup_writeAll {a : α} (h : lookup k (writeAll ws o) = some a) :
    (k, a) ∈ ws ∨ lookup k o = some a := by
  induction ws generalizing o with
  | nil => exact Or.inr h
  | cons e ws ih =>
    rcases ih h with hmem | hlookup
    · exact Or.inl (List.mem_cons_of_mem e hmem)
    · rw [lookup_write] at hlookup
      split_ifs at hlookup with hk
      · obtain ⟨k', b⟩ := e
        rw [← Option.some.inj hlookup, hk]
        exact Or.inl List.mem_cons_self
      · exact Or.inr hlookup

/-- A key that is written is found. -/
theorem exists_lookup_writeAll (h : k ∈ ws.map Prod.fst) (o : List (κ × α)) :
    ∃ a, lookup k (writeAll ws o) = some a ∧ (k, a) ∈ ws := by
  induction ws using List.reverseRecOn with
  | nil => cases h
  | append_singleton ws e ih =>
    obtain ⟨k', b⟩ := e
    rw [writeAll_append, writeAll_cons, writeAll_nil, lookup_write]
    by_cases hk : k = k'
    · rw [if_pos hk, hk]
      exact ⟨b, rfl, by simp⟩
    · have hmem : k ∈ ws.map Prod.fst := by simpa [hk] using h
      obtain ⟨a, ha, hmem⟩ := ih hmem
      rw [if_neg hk]
      exact ⟨a, ha, List.mem_append_left _ hmem⟩

/-! ### Writing whole lists -/

theorem writeAll_cons_of_notMem (h : k ∉ ws.map Prod.fst) (a : α) (o : List (κ × α)) :
    writeAll ws ((k, a) :: o) = (k, a) :: writeAll ws o := by
  induction ws generalizing o with
  | nil => rfl
  | cons e ws ih =>
    rw [List.map_cons, List.mem_cons, not_or] at h
    rw [writeAll_cons, write, if_neg h.1, ih h.2, writeAll_cons]

/-- A list that begins with the keys that are there, in their order, replaces them. -/
theorem writeAll_of_prefix (h : (ws.map Prod.fst).Nodup)
    (hstart : o.map Prod.fst <+: ws.map Prod.fst) : writeAll ws o = ws := by
  induction ws generalizing o with
  | nil =>
    rw [List.map_nil, List.prefix_nil, List.map_eq_nil_iff] at hstart
    exact hstart
  | cons e ws ih =>
    obtain ⟨k, a⟩ := e
    rw [List.map_cons, List.nodup_cons] at h
    cases o with
    | nil =>
      rw [writeAll_cons, write, writeAll_cons_of_notMem h.1, ih h.2 (o := []) List.nil_prefix]
    | cons e' o =>
      rw [List.map_cons, List.map_cons, List.cons_prefix_cons] at hstart
      rw [writeAll_cons, write, if_pos hstart.1, writeAll_cons_of_notMem h.1, ih h.2 hstart.2]

/-- Writing the entries of a list in their order gives the list. -/
theorem writeAll_self (h : (ws.map Prod.fst).Nodup) : writeAll ws [] = ws :=
  writeAll_of_prefix h List.nil_prefix

/-- Writing the result of some writes once more changes nothing. -/
theorem writeAll_writeAll (ws : List (κ × α)) (h : (o.map Prod.fst).Nodup) :
    writeAll (writeAll ws o) o = writeAll ws o :=
  writeAll_of_prefix (nodup_writeAll ws h) (prefix_map_fst_writeAll ws o)

theorem eq_of_lookup {l' : List (κ × α)} (hkeys : l.map Prod.fst = l'.map Prod.fst)
    (hnodup : (l.map Prod.fst).Nodup) (h : ∀ k a, lookup k l = some a → lookup k l' = some a) :
    l = l' := by
  induction l generalizing l' with
  | nil => rw [List.map_nil, eq_comm, List.map_eq_nil_iff] at hkeys; exact hkeys.symm
  | cons e l ih =>
    cases l' with
    | nil => cases hkeys
    | cons e' l' =>
      obtain ⟨k, a⟩ := e
      obtain ⟨k', a'⟩ := e'
      rw [List.map_cons, List.map_cons, List.cons.injEq] at hkeys
      obtain rfl : k = k' := hkeys.1
      rw [List.map_cons, List.nodup_cons] at hnodup
      have hhead := h k a (by simp [lookup])
      rw [lookup, if_pos rfl] at hhead
      rw [Option.some.inj hhead]
      refine congrArg _ (ih hkeys.2 hnodup.2 fun j b hj => ?_)
      have hjk : k ≠ j := by
        rintro rfl
        exact hnodup.1 ((lookup_isSome_iff k l).1 (by rw [hj]; rfl))
      have htail := h j b (by rw [lookup, if_neg hjk, hj])
      rwa [lookup, if_neg hjk] at htail

/-- **Only the last write of each key counts**: two sequences that write the same keys leave the same
behind when the second writes the final values of the first wherever the first does. -/
theorem writeAll_congr {ws' : List (κ × α)} (h : List.Forall₂ (fun e e' : κ × α => e.1 = e'.1 ∧
      (lookup e.1 (writeAll ws []) = some e.2 → e'.2 = e.2)) ws ws') :
    writeAll ws' [] = writeAll ws [] := by
  have hkeys : ws.map Prod.fst = ws'.map Prod.fst := by
    rw [← List.forall₂_eq_eq_eq, List.forall₂_map_left_iff, List.forall₂_map_right_iff]
    exact h.imp fun e e' he => he.1
  refine (eq_of_lookup (map_fst_writeAll_congr hkeys rfl) (nodup_writeAll ws (o := []) (by simp))
    fun k a hk => ?_).symm
  have hlast : ∀ {l l' : List (κ × α)} (o o' : List (κ × α)), List.Forall₂ (fun e e' : κ × α =>
      e.1 = e'.1 ∧ (lookup e.1 (writeAll ws []) = some e.2 → e'.2 = e.2)) l l' →
      (lookup k o = some a → lookup k o' = some a) → lookup k (writeAll l o) = some a →
      lookup k (writeAll l' o') = some a := by
    intro l l' o o' hl
    induction hl generalizing o o' with
    | nil => exact fun ho => ho
    | cons he _ ih =>
      intro ho
      refine ih _ _ fun hwrite => ?_
      rw [lookup_write] at hwrite ⊢
      rw [← he.1]
      split_ifs at hwrite ⊢ with hk'
      · rw [← hwrite, he.2 (by rw [← hk', hk, hwrite])]
      · exact ho hwrite
  exact hlast [] [] h id hk

end EntryList

/-! ### Writes to a place -/

namespace List

variable {β : Type*} {γ : Type*} {f : γ → β → γ} {l : List β}

/-- Writes that leave a value or replace it by one of their own do either together. -/
theorem foldl_eq_or_const (hf : ∀ b ∈ l, (∀ c, f c b = c) ∨ ∃ c', ∀ c, f c b = c') :
    (∀ c, l.foldl f c = c) ∨ ∃ c', ∀ c, l.foldl f c = c' := by
  induction l using List.reverseRecOn with
  | nil => exact Or.inl fun _ => rfl
  | append_singleton l b ih =>
    simp only [List.foldl_concat]
    rcases hf b (by simp) with hid | ⟨c', hconst⟩
    · simp only [hid]
      exact ih fun b hb => hf b (List.mem_append_left _ hb)
    · exact Or.inr ⟨c', fun c => hconst _⟩

/-- Writing a second time changes nothing. -/
theorem foldl_foldl (hf : ∀ b ∈ l, (∀ c, f c b = c) ∨ ∃ c', ∀ c, f c b = c') (c : γ) :
    l.foldl f (l.foldl f c) = l.foldl f c := by
  rcases foldl_eq_or_const hf with hid | ⟨c', hconst⟩
  · rw [hid (l.foldl f c)]
  · rw [hconst, hconst]

end List

/-! ### Tables that grow -/

/-- Of rows with different ids, one that is found among more rows is found among fewer. -/
theorem List.IsPrefix.find?_of_mem {ι : Type u} {ρ : Type v} {p : ι × ρ → Bool}
    {rows rows' : List (ι × ρ)} {row : ι × ρ} (hp : rows <+: rows')
    (hnodup : (rows'.map Prod.fst).Nodup) (h : rows'.find? p = some row)
    (hmem : row.1 ∈ rows.map Prod.fst) : rows.find? p = some row := by
  obtain ⟨new, rfl⟩ := hp
  rw [List.find?_append] at h
  cases hfind : rows.find? p with
  | some row' => rw [hfind, Option.some_or] at h; exact h
  | none =>
    rw [hfind, Option.none_or] at h
    rw [List.map_append, List.nodup_append] at hnodup
    exact absurd rfl
      (hnodup.2.2 _ hmem _ (List.mem_map_of_mem (List.mem_of_find?_eq_some h)))

/-! ### The rows of a map -/

namespace Dict

variable {β : Type w}

/-- The keys of a map with what `f` says of their values. -/
def index (d : Dict κ α) (f : α → β) : List (κ × β) := d.entries.map fun e => (e.1, f e.2)

variable {d : Dict κ α} {f : α → β} {k : κ} {a : α}

omit [DecidableEq κ] in
theorem map_fst_index (d : Dict κ α) (f : α → β) : (d.index f).map Prod.fst = d.keys := by
  simp [index, keys, Function.comp_def]

omit [DecidableEq κ] in
theorem nodup_index (d : Dict κ α) (f : α → β) : ((d.index f).map Prod.fst).Nodup := by
  rw [map_fst_index]
  exact d.keys_nodup

omit [DecidableEq κ] in
/-- A look-up that reads the index only. -/
theorem map_fst_find?_entries (d : Dict κ α) (f : α → β) (p : κ × β → Bool) :
    (d.entries.find? fun e => p (e.1, f e.2)).map Prod.fst =
      ((d.index f).find? p).map Prod.fst := by
  rw [index, List.find?_map, Option.map_map]
  rfl

theorem mem_index_iff {b : β} : (k, b) ∈ d.index f ↔ ∃ a, d.get? k = some a ∧ f a = b := by
  simp only [index, List.mem_map, Prod.exists, Prod.mk.injEq, mem_entries_iff]
  constructor
  · rintro ⟨k, a, ha, rfl, rfl⟩
    exact ⟨a, ha, rfl⟩
  · rintro ⟨a, ha, rfl⟩
    exact ⟨k, a, ha, rfl, rfl⟩

/-- A new entry comes last. -/
theorem index_set_of_get?_eq_none (h : d.get? k = none) (a : α) :
    (d.set k a).index f = d.index f ++ [(k, f a)] := by
  rw [index, entries_set_of_get?_eq_none h, List.map_append]
  rfl

/-- A write that changes nothing of what the index shows. -/
theorem index_set_of_eq {a' : α} (h : d.get? k = some a) (ha : f a' = f a) :
    (d.set k a').index f = d.index f := by
  have hmap : ∀ l : List (κ × α), (EntryList.write k a' l).map (fun e => (e.1, f e.2)) =
      EntryList.write k (f a') (l.map fun e => (e.1, f e.2)) := by
    intro l
    induction l with
    | nil => rfl
    | cons e l ih =>
      rw [EntryList.write, List.map_cons, EntryList.write]
      split
      · rfl
      · rw [List.map_cons, ih]
  refine (hmap d.entries).trans (EntryList.write_of_lookup ?_)
  rw [EntryList.lookup_map, ha]
  exact congrArg (Option.map f) h

end Dict
