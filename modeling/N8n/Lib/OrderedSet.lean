import Mathlib.Data.List.Induction
import Mathlib.Data.List.Nodup

/-!
# Insertion-ordered sets

`OrderedSet α` is a finite set that remembers the order in which its elements were first added, as
a script set does.

* `OrderedSet.insert`, `OrderedSet.erase`, `OrderedSet.ofList`, `OrderedSet.inter`, `OrderedSet.diff`,
  `OrderedSet.union`, with their membership equations;
* `OrderedSet.head?_of_size_le`: the element of a set with at most one is its first;
* `appendNew`: a list to which the elements that it does not have yet are appended.
-/

universe u

/-- A set with its elements in the order they were added. -/
structure OrderedSet (α : Type u) where
  elems : List α
  nodup : elems.Nodup
  deriving DecidableEq

namespace OrderedSet

variable {α : Type u}

instance : Membership α (OrderedSet α) := ⟨fun s a => a ∈ s.elems⟩

instance [DecidableEq α] (a : α) (s : OrderedSet α) : Decidable (a ∈ s) :=
  inferInstanceAs (Decidable (a ∈ s.elems))

variable {a b : α} {s t : OrderedSet α} {l : List α}

theorem mem_elems : a ∈ s.elems ↔ a ∈ s := Iff.rfl

def size (s : OrderedSet α) : ℕ := s.elems.length

def empty : OrderedSet α := ⟨[], List.nodup_nil⟩

/-- The elements of `s` that satisfy `p`. -/
def filter (p : α → Bool) (s : OrderedSet α) : OrderedSet α :=
  ⟨s.elems.filter p, s.nodup.filter p⟩

@[simp] theorem mem_filter {p : α → Bool} : b ∈ s.filter p ↔ b ∈ s ∧ p b :=
  List.mem_filter

/-- The only element of a set with at most one is its first. -/
theorem head?_of_size_le (h : s.size ≤ 1) : s.elems.head? = some a ↔ a ∈ s := by
  match s, h with
  | ⟨[], _⟩, _ => simp [← mem_elems]
  | ⟨[b], _⟩, _ => simp [← mem_elems, eq_comm]

variable [DecidableEq α]

/-- Add an element, last unless it is there already. -/
def insert (s : OrderedSet α) (a : α) : OrderedSet α :=
  if h : a ∈ s.elems then s
  else ⟨s.elems ++ [a], s.nodup.append (List.nodup_singleton a) (by simpa using h)⟩

/-- Remove an element. -/
def erase (s : OrderedSet α) (a : α) : OrderedSet α := s.filter (· ≠ a)

/-- The set of the elements of a list. -/
def ofList (l : List α) : OrderedSet α := l.foldl insert empty

def inter (s t : OrderedSet α) : OrderedSet α := s.filter (· ∈ t)

def diff (s t : OrderedSet α) : OrderedSet α := s.filter (· ∉ t)

def union (s t : OrderedSet α) : OrderedSet α := t.elems.foldl insert s

@[simp] theorem mem_insert : b ∈ s.insert a ↔ b ∈ s ∨ b = a := by
  unfold insert
  split_ifs with h
  · constructor
    · exact Or.inl
    · rintro (hb | rfl)
      · exact hb
      · exact h
  · exact List.mem_append.trans (or_congr Iff.rfl List.mem_singleton)

theorem mem_foldl_insert : b ∈ l.foldl insert s ↔ b ∈ s ∨ b ∈ l := by
  induction l generalizing s with
  | nil => simp
  | cons a l ih => rw [List.foldl_cons, ih, mem_insert, List.mem_cons, or_assoc]

/-- New elements go to the end. -/
theorem elems_foldl_insert (hl : l.Nodup) (hnew : ∀ a ∈ l, a ∉ s) :
    (l.foldl insert s).elems = s.elems ++ l := by
  induction l generalizing s with
  | nil => simp
  | cons a l ih =>
    have ha : (s.insert a).elems = s.elems ++ [a] := by
      rw [insert, dif_neg (show a ∉ s.elems from hnew a List.mem_cons_self)]
    rw [List.foldl_cons, ih hl.of_cons, ha, List.append_assoc, List.singleton_append]
    intro b hb hmem
    rcases mem_insert.1 hmem with hmem | rfl
    · exact hnew b (List.mem_cons_of_mem _ hb) hmem
    · exact (List.nodup_cons.1 hl).1 hb

@[simp] theorem mem_ofList : b ∈ ofList l ↔ b ∈ l := by
  rw [ofList, mem_foldl_insert]
  constructor
  · rintro (h | h)
    · cases h
    · exact h
  · exact Or.inr

@[simp] theorem mem_inter : b ∈ s.inter t ↔ b ∈ s ∧ b ∈ t := by
  simp [inter]

@[simp] theorem mem_diff : b ∈ s.diff t ↔ b ∈ s ∧ b ∉ t := by
  simp [diff]

@[simp] theorem mem_union : b ∈ s.union t ↔ b ∈ s ∨ b ∈ t :=
  mem_foldl_insert

@[simp] theorem mem_erase : b ∈ s.erase a ↔ b ∈ s ∧ b ≠ a := by
  simp [erase]

/-- Each element of a list is replaced by its image.  An element that an image equals is its own
image, so that it stays when it is replaced. -/
theorem mem_foldl_replace {f : α → α} (hf : ∀ a ∈ l, ∀ b ∈ l, f a = b → f b = b) :
    b ∈ l.foldl (fun s a => (s.erase a).insert (f a)) s ↔
      (∃ a ∈ l, b = f a) ∨ b ∈ s ∧ b ∉ l := by
  induction l using List.reverseRecOn with
  | nil => simp
  | append_singleton l a ih =>
    have hmem : ∀ {x}, x ∈ l → x ∈ l ++ [a] := fun h => List.mem_append_left _ h
    have ih := ih fun x hx y hy => hf x (hmem hx) y (hmem hy)
    rw [List.foldl_append, List.foldl_cons, List.foldl_nil, mem_insert, mem_erase, ih]
    constructor
    · rintro (⟨⟨x, hx, rfl⟩ | ⟨hs, hl⟩, hne⟩ | rfl)
      · exact Or.inl ⟨x, hmem hx, rfl⟩
      · exact Or.inr ⟨hs, by simp [hl, hne]⟩
      · exact Or.inl ⟨a, by simp, rfl⟩
    · rintro (⟨x, hx, rfl⟩ | ⟨hs, hl⟩)
      · rcases List.mem_append.1 hx with hx | hx
        · by_cases heq : f x = a
          · exact Or.inr (heq.trans (hf x (hmem hx) a (by simp) heq).symm)
          · exact Or.inl ⟨Or.inl ⟨x, hx, rfl⟩, heq⟩
        · exact Or.inr (by rw [List.mem_singleton.1 hx])
      · simp only [List.mem_append, List.mem_singleton, not_or] at hl
        exact Or.inl ⟨Or.inr ⟨hs, hl.1⟩, hl.2⟩

theorem diff_eq_nil : (s.diff t).elems = [] ↔ ∀ a ∈ s, a ∈ t := by
  simp [diff, filter, List.filter_eq_nil_iff, mem_elems]

end OrderedSet

/-! ### Appending what is missing -/

/-- The elements that a list does not have yet are appended to it. -/
def appendNew {α : Type u} [DecidableEq α] (l add : List α) : List α :=
  add.foldl (fun l a => if a ∈ l then l else l ++ [a]) l

section AppendNew

variable {α : Type u} [DecidableEq α]

@[simp] theorem mem_appendNew {l add : List α} {a : α} : a ∈ appendNew l add ↔ a ∈ l ∨ a ∈ add := by
  induction add generalizing l with
  | nil => simp [appendNew]
  | cons b add ih =>
    rw [appendNew, List.foldl_cons, ← appendNew, ih, List.mem_cons, ← or_assoc]
    refine or_congr_left ?_
    split_ifs with hb
    · exact ⟨.inl, fun h => h.elim id fun he => he ▸ hb⟩
    · rw [List.mem_append, List.mem_singleton]

theorem nodup_appendNew {l : List α} (hl : l.Nodup) (add : List α) : (appendNew l add).Nodup := by
  induction add generalizing l with
  | nil => exact hl
  | cons b add ih =>
    rw [appendNew, List.foldl_cons, ← appendNew]
    refine ih ?_
    split_ifs with hb
    · exact hl
    · exact hl.append (List.nodup_singleton b) (by simpa using hb)

end AppendNew
