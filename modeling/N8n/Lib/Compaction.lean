import Mathlib.Data.List.Perm.Basic

/-!
# Compacting a history

A list is gone through from its end; every element is compared with the one that follows it among
those kept so far, and dropped if it merges into that one.

* `Compacts`: the relation between the list, what is kept and what is dropped;
* `Compacts.perm`, `Compacts.sublist`, `Compacts.getLast?_eq`: nothing is lost, the order and the
  last element are kept;
* `Compacts.merged`: a dropped element merges into a kept one that comes later.
-/

universe u

variable {α : Type u} {merges : α → α → Prop}

/-- `Compacts merges l kept dropped`: going through `l` from its end keeps `kept` and drops
`dropped`, the last element dropped first. -/
inductive Compacts (merges : α → α → Prop) : List α → List α → List α → Prop
  | last (a : α) : Compacts merges [a] [a] []
  | keep {a b : α} {l kept dropped : List α} (h : Compacts merges l (b :: kept) dropped)
    (hab : ¬ merges a b) : Compacts merges (a :: l) (a :: b :: kept) dropped
  | drop {a b : α} {l kept dropped : List α} (h : Compacts merges l (b :: kept) dropped)
    (hab : merges a b) : Compacts merges (a :: l) (b :: kept) (dropped ++ [a])

namespace Compacts

variable {l kept dropped : List α}

theorem perm (h : Compacts merges l kept dropped) : (kept ++ dropped).Perm l := by
  induction h with
  | last a => exact List.Perm.refl _
  | keep h hab ih => exact ih.cons _
  | @drop a b l kept dropped h hab ih =>
    rw [← List.append_assoc]
    exact List.perm_append_comm.trans (ih.cons a)

theorem sublist (h : Compacts merges l kept dropped) : kept.Sublist l := by
  induction h with
  | last a => exact List.Sublist.refl _
  | keep h hab ih => exact ih.cons_cons _
  | drop h hab ih => exact ih.cons _

theorem getLast?_eq (h : Compacts merges l kept dropped) : kept.getLast? = l.getLast? := by
  induction h with
  | last a => rfl
  | @keep a b l kept dropped h hab ih =>
    rw [List.getLast?_cons_cons, ih]
    cases h <;> rw [List.getLast?_cons_cons]
  | @drop a b l kept dropped h hab ih =>
    rw [ih]
    cases h <;> rw [List.getLast?_cons_cons]

/-- **Every dropped element merges into a kept one** that comes later in the list. -/
theorem merged (h : Compacts merges l kept dropped) :
    ∀ a ∈ dropped, ∃ b ∈ kept, [a, b].Sublist l ∧ merges a b := by
  induction h with
  | last a => exact fun a ha => absurd ha List.not_mem_nil
  | keep h hab ih =>
    intro x hx
    obtain ⟨y, hy, hxy, hm⟩ := ih x hx
    exact ⟨y, List.mem_cons_of_mem _ hy, hxy.cons _, hm⟩
  | @drop a b l kept dropped h hab ih =>
    intro x hx
    rcases List.mem_append.1 hx with hx | hx
    · obtain ⟨y, hy, hxy, hm⟩ := ih x hx
      exact ⟨y, hy, hxy.cons _, hm⟩
    · obtain rfl := List.mem_singleton.1 hx
      have hb : [b].Sublist l := (List.singleton_sublist.2 List.mem_cons_self).trans h.sublist
      exact ⟨b, List.mem_cons_self, hb.cons_cons x, hab⟩

end Compacts
