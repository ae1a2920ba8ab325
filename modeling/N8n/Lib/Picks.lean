import Mathlib.Data.Finset.Max

/-!
# Picking one element after the other

* `Picks`: elements picked from a list, each the least of those that are left;
* `Picks.concat_iff`: one element more;
* `Picks.ascending_iff`: elements picked by one order come in another order exactly when that one
  ranks the first of them in the same way.
-/

universe u

variable {α : Type u}

/-- The elements are picked from `l` one after the other, each of them least among those that are
left. -/
def Picks (r : α → α → Prop) (l picked : List α) : Prop :=
  ∀ pre a, pre ++ [a] <+: picked → a ∈ l ∧ a ∉ pre ∧ ∀ b ∈ l, b ∉ pre → r a b

namespace Picks

variable {r : α → α → Prop} {l picked : List α}

theorem nil (r : α → α → Prop) (l : List α) : Picks r l [] := fun pre a hp => by
  simpa using List.prefix_nil.1 hp

theorem concat_iff {a : α} : Picks r l (picked ++ [a]) ↔
    Picks r l picked ∧ a ∈ l ∧ a ∉ picked ∧ ∀ b ∈ l, b ∉ picked → r a b := by
  constructor
  · exact fun h => ⟨fun pre a hp => h pre a (hp.trans (List.prefix_append _ _)),
      h picked a (List.prefix_refl _)⟩
  · rintro ⟨h, ha⟩ pre b hp
    rcases List.prefix_concat_iff.1 hp with heq | hp
    · obtain ⟨rfl, hb⟩ := List.append_inj' heq rfl
      cases hb
      exact ha
    · exact h pre b hp

theorem subset (h : Picks r l picked) : picked ⊆ l := by
  induction picked using List.reverseRecOn with
  | nil => exact List.nil_subset l
  | append_singleton picked a ih =>
    obtain ⟨h, ha, -⟩ := concat_iff.1 h
    exact List.append_subset.2 ⟨ih h, List.cons_subset.2 ⟨ha, List.nil_subset l⟩⟩

theorem nodup (h : Picks r l picked) : picked.Nodup := by
  induction picked using List.reverseRecOn with
  | nil => exact List.nodup_nil
  | append_singleton picked a ih =>
    obtain ⟨h, -, ha, -⟩ := concat_iff.1 h
    exact List.nodup_append_comm.1 (List.nodup_cons.2 ⟨ha, ih h⟩)

section LinearOrder

variable [LinearOrder α]

/-- Picked in ascending order, the elements are those below any that is left. -/
theorem mem_of_countP_lt (h : Picks (· ≤ ·) l picked) {a : α} (ha : a ∈ l)
    (hlow : l.countP (· < a) < picked.length) : a ∈ picked := by
  by_contra hnot
  have hsub : picked ⊆ l.filter (· < a) := by
    intro b hb
    obtain ⟨pre, post, hsplit⟩ := List.append_of_mem hb
    have hp : pre ++ [b] <+: picked := ⟨post, by rw [hsplit]; simp⟩
    have hle := (h pre b hp).2.2 a ha fun hmem => hnot (hsplit ▸ List.mem_append_left _ hmem)
    have hne : b ≠ a := fun heq => hnot (heq ▸ hb)
    exact List.mem_filter.2 ⟨h.subset hb, decide_eq_true (lt_of_le_of_ne hle hne)⟩
  have hlength := (h.nodup.subperm hsub).length_le
  rw [← List.countP_eq_length_filter] at hlength
  omega

theorem exists_least_left (h : ∃ b ∈ l, b ∉ picked) :
    ∃ c ∈ l, c ∉ picked ∧ ∀ d ∈ l, d ∉ picked → c ≤ d := by
  obtain ⟨b, hb, hb'⟩ := h
  have hne : (l.filter (· ∉ picked)).toFinset.Nonempty := ⟨b, by simp [hb, hb']⟩
  obtain ⟨c, hc, hmin⟩ := Finset.exists_min_image _ id hne
  have hc' : c ∈ l ∧ c ∉ picked := by simpa using hc
  exact ⟨c, hc'.1, hc'.2, fun d hd hd' => hmin d (by simp [hd, hd'])⟩

/-- **Elements picked by another order come in ascending order** exactly when each of as many lowest
elements precedes, in that order, all that are above it. -/
theorem ascending_iff (hl : l.Nodup) (hanti : ∀ a b, r a b → r b a → a = b) (h : Picks r l picked) :
    Picks (· ≤ ·) l picked ↔
      ∀ a ∈ l, l.countP (· < a) < picked.length → ∀ b ∈ l, a < b → r a b := by
  constructor
  · intro hle a ha hlow b hb hlt
    obtain ⟨pre, post, hsplit⟩ := List.append_of_mem (hle.mem_of_countP_lt ha hlow)
    have hp : pre ++ [a] <+: picked := ⟨post, by rw [hsplit]; simp⟩
    refine (h pre a hp).2.2 b hb fun hmem => ?_
    obtain ⟨pre', post', rfl⟩ := List.append_of_mem hmem
    have hp' : pre' ++ [b] <+: picked := ⟨post' ++ a :: post, by rw [hsplit]; simp⟩
    refine not_le.2 hlt ((hle pre' b hp').2.2 a ha fun hmem' => ?_)
    exact (h _ a hp).2.1 (List.mem_append_left _ hmem')
  · intro hrank
    induction picked using List.reverseRecOn with
    | nil => exact nil _ _
    | append_singleton picked a ih =>
      obtain ⟨hpicked, ha, hnot, hleast⟩ := concat_iff.1 h
      rw [List.length_append, List.length_singleton] at hrank
      have hle := ih hpicked fun b hb hlow => hrank b hb (Nat.lt_succ_of_lt hlow)
      refine concat_iff.2 ⟨hle, ha, hnot, fun b hb hb' => le_of_not_gt fun hlt => ?_⟩
      -- the least element that is left precedes `a`, but was not picked
      obtain ⟨c, hc, hc', hmin⟩ := exists_least_left ⟨b, hb, hb'⟩
      have hsub : l.filter (· < c) ⊆ picked := by
        intro d hd
        obtain ⟨hd, hlt⟩ := List.mem_filter.1 hd
        by_contra hd'
        exact not_le.2 (of_decide_eq_true hlt) (hmin d hd hd')
      have hlow : l.countP (· < c) < picked.length + 1 := by
        rw [List.countP_eq_length_filter]
        exact Nat.lt_succ_of_le ((hl.filter _).subperm hsub).length_le
      have hca : c < a := (hmin b hb hb').trans_lt hlt
      have hr := hrank c hc hlow a ha hca
      exact hca.ne (hanti c a hr (hleast c hc hc'))

end LinearOrder

end Picks
