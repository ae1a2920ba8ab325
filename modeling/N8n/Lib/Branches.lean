import Mathlib.Data.List.Nodup
import Mathlib.Logic.Relation
import Mathlib.Order.Basic

/-!
# Searching for a start by following edges backwards

A search follows the edges of a graph backwards from a target.  A branch, the list of the edges it
followed, is kept when it arrives at the start, or when it arrives at a vertex it has left before;
it is dropped when it arrives at the target again.

* `Branches.Keeps`: which branches are kept;
* `Branches.keeps_iff`: the edges of the branches kept are those from which the target is reached and
  which are reached from the start or from a cycle.
-/

universe u v

namespace Branches

variable {α : Type u} {β : Type v} (src dst : β → α) (E : β → Prop) (start target : α)

/-- The search continued from `current` after the branch `b` keeps the branch `b'`. -/
inductive Keeps : α → List β → List β → Prop
  | arrive (b : List β) : Keeps start b b
  | cycle {current : α} {b : List β} (hs : current ≠ start) (ht : current ≠ target)
    (hmem : current ∈ b.map dst) : Keeps current b b
  | step {current : α} {b b' : List β} {e : β} (hs : current ≠ start) (hmem : current ∉ b.map dst)
    (he : E e) (hdst : dst e = current) (h : Keeps (src e) (b ++ [e]) b') : Keeps current b b'

/-- The search arrives at `current` with the branch `b`. -/
inductive Arrives : α → List β → Prop
  | target : Arrives target []
  | step {current : α} {b : List β} {e : β} (h : Arrives current b) (hs : current ≠ start)
    (hmem : current ∉ b.map dst) (he : E e) (hdst : dst e = current) : Arrives (src e) (b ++ [e])

/-- An edge that neither leaves the target nor enters the start. -/
def Direct (e : β) : Prop := E e ∧ src e ≠ target ∧ dst e ≠ start

/-- There is a direct edge from one vertex to another. -/
def Step (a b : α) : Prop := ∃ e, Direct src dst E start target e ∧ src e = a ∧ dst e = b

variable {src dst E start target}

theorem Step.of_direct {e : β} (h : Direct src dst E start target e) :
    Step src dst E start target (src e) (dst e) := ⟨e, h, rfl, rfl⟩

variable {current x : α} {b b' : List β}

theorem Arrives.keeps (h : Arrives src dst E start target current b)
    (hk : Keeps src dst E start target current b b') :
    Keeps src dst E start target target [] b' := by
  induction h with
  | target => exact hk
  | step h hs hmem he hdst ih => exact ih (.step hs hmem he hdst hk)

/-! ### The edges of a kept branch -/

theorem Keeps.not_target (h : Keeps src dst E start target current b b') (hne : start ≠ target)
    (hmem : target ∈ b.map dst) : current ≠ target := by
  cases h with
  | arrive => exact hne
  | cycle hs ht hmem' => exact ht
  | step hs hmem' he hdst h =>
    rintro rfl
    exact hmem' hmem

/-- What holds of the edges of a branch: they are direct, lead to the target and come from the
current vertex. -/
structure Traced (src dst : β → α) (E : β → Prop) (start target current : α) (b : List β) :
    Prop where
  target_mem : b = [] ∧ current = target ∨ target ∈ b.map dst
  reaches : Relation.ReflTransGen (Step src dst E start target) current target
  direct : ∀ e ∈ b, Direct src dst E start target e
  toTarget : ∀ e ∈ b, Relation.ReflTransGen (Step src dst E start target) (dst e) target
  fromCurrent : ∀ e ∈ b, Relation.ReflTransGen (Step src dst E start target) current (src e)

theorem Traced.step {current : α} {b : List β} {e : β}
    (h : Traced src dst E start target current b) (hs : current ≠ start) (he : E e)
    (hdst : dst e = current) (htarget : src e ≠ target) :
    Traced src dst E start target (src e) (b ++ [e]) := by
  have hdirect : Direct src dst E start target e := ⟨he, htarget, hdst ▸ hs⟩
  have hstep : Step src dst E start target (src e) current := ⟨e, hdirect, rfl, hdst⟩
  refine ⟨Or.inr ?_, .head hstep h.reaches, fun e' he' => ?_, fun e' he' => ?_, fun e' he' => ?_⟩
  · rw [List.map_append, List.mem_append]
    rcases h.target_mem with ⟨-, hcur⟩ | hmem
    · exact Or.inr (by simp [hdst, hcur])
    · exact Or.inl hmem
  · rcases List.mem_append.1 he' with he' | he'
    · exact h.direct e' he'
    · exact List.mem_singleton.1 he' ▸ hdirect
  · rcases List.mem_append.1 he' with he' | he'
    · exact h.toTarget e' he'
    · rw [List.mem_singleton.1 he', hdst]
      exact h.reaches
  · rcases List.mem_append.1 he' with he' | he'
    · exact .head hstep (h.fromCurrent e' he')
    · rw [List.mem_singleton.1 he']

/-- The branch kept leads to the target, and from the start or from a cycle. -/
theorem Keeps.traced (h : Keeps src dst E start target current b b') (hne : start ≠ target)
    (ht : Traced src dst E start target current b) :
    ∃ v, Traced src dst E start target v b' ∧
      (v = start ∨ Relation.TransGen (Step src dst E start target) v v) := by
  induction h with
  | arrive => exact ⟨start, ht, Or.inl rfl⟩
  | @cycle current b hs _ hmem =>
    refine ⟨current, ht, Or.inr ?_⟩
    obtain ⟨e, he, rfl⟩ := List.mem_map.1 hmem
    exact .tail' (ht.fromCurrent e he) (.of_direct (ht.direct e he))
  | @step current b b' e hs hmem he hdst h ih =>
    refine ih (ht.step hs he hdst (h.not_target hne ?_))
    rw [List.map_append, List.mem_append]
    rcases ht.target_mem with ⟨-, hcur⟩ | hmem
    · exact Or.inr (by simp [hdst, hcur])
    · exact Or.inl hmem

/-! ### Every such edge is on a kept branch -/

/-- A vertex that is reached from the start or from a cycle. -/
def Rooted (src dst : β → α) (E : β → Prop) (start target x : α) : Prop :=
  Relation.ReflTransGen (Step src dst E start target) start x ∨
    ∃ v, Relation.TransGen (Step src dst E start target) v v ∧
      Relation.ReflTransGen (Step src dst E start target) v x

/-- Such a vertex is the start or has a predecessor of the same kind. -/
theorem Rooted.eq_or_step (h : Rooted src dst E start target x) :
    x = start ∨ ∃ y, Rooted src dst E start target y ∧ Step src dst E start target y x := by
  rcases h with h | ⟨v, hv, h⟩
  · rcases h.cases_tail with heq | ⟨y, hy, hyx⟩
    · exact Or.inl heq
    · exact Or.inr ⟨y, Or.inl hy, hyx⟩
  · rcases h.cases_tail with rfl | ⟨y, hy, hyx⟩
    · obtain ⟨y, hy, hyx⟩ := Relation.TransGen.tail'_iff.1 hv
      exact Or.inr ⟨y, Or.inr ⟨x, hv, hy⟩, hyx⟩
    · exact Or.inr ⟨y, Or.inr ⟨v, hv, hy⟩, hyx⟩

/-- How many vertices of a list a branch did not enter. -/
def remaining [DecidableEq α] (dst : β → α) (vertices : List α) (b : List β) : ℕ :=
  (vertices.filter (· ∉ b.map dst)).length

theorem remaining_append_lt [DecidableEq α] {vertices : List α} {e : β} (hmem : dst e ∈ vertices)
    (hnot : dst e ∉ b.map dst) : remaining dst vertices (b ++ [e]) < remaining dst vertices b := by
  have hsub : (vertices.filter (· ∉ (b ++ [e]).map dst)).Sublist
      (vertices.filter (· ∉ b.map dst)) :=
    List.monotone_filter_right vertices fun x hx => by
      simp only [List.map_append, List.mem_append, not_or, decide_eq_true_eq] at hx ⊢
      exact hx.1
  refine Nat.lt_of_le_of_ne hsub.length_le fun hlen => ?_
  have heq := hsub.eq_of_length hlen
  have hin : dst e ∈ vertices.filter (· ∉ b.map dst) :=
    List.mem_filter.2 ⟨hmem, decide_eq_true hnot⟩
  rw [← heq] at hin
  simp at hin

/-- From a vertex that is reached from the start or from a cycle the search keeps a branch. -/
theorem Rooted.keeps [DecidableEq α] {vertices : List α} (hv : ∀ e, E e → dst e ∈ vertices)
    (h : Rooted src dst E start target current) (ht : current ≠ target ∨ b = []) :
    ∃ b', Keeps src dst E start target current b b' ∧ b <+: b' := by
  induction hn : remaining dst vertices b using Nat.strongRecOn generalizing current b with
  | _ n ih =>
    by_cases hs : current = start
    · exact ⟨b, hs ▸ .arrive b, List.prefix_refl _⟩
    · by_cases hmem : current ∈ b.map dst
      · have ht : current ≠ target := ht.resolve_right (by rintro rfl; cases hmem)
        exact ⟨b, .cycle hs ht hmem, List.prefix_refl _⟩
      · obtain ⟨y, hy, e, hdirect, rfl, rfl⟩ := h.eq_or_step.resolve_left hs
        have hlt := remaining_append_lt (hv e hdirect.1) hmem
        obtain ⟨b', hk, hpre⟩ := ih _ (hn ▸ hlt) hy (Or.inl hdirect.2.1) rfl
        exact ⟨b', .step hs hmem hdirect.1 rfl hk, (List.prefix_append b [e]).trans hpre⟩

/-- The search arrived for the first time at every vertex that a branch entered. -/
theorem Arrives.of_mem (h : Arrives src dst E start target current b) (hx : x ∈ b.map dst) :
    ∃ b', Arrives src dst E start target x b' ∧ x ∉ b'.map dst := by
  induction h with
  | target => cases hx
  | @step current b e h hs hmem he hdst ih =>
    rw [List.map_append, List.mem_append] at hx
    rcases hx with hx | hx
    · exact ih hx
    · obtain rfl : x = current := by simpa [hdst] using hx
      exact ⟨b, h, hmem⟩

/-- The search arrives at every vertex from which the target is reached. -/
theorem exists_arrives (h : Relation.ReflTransGen (Step src dst E start target) x target) :
    ∃ b, Arrives src dst E start target x b ∧ x ∉ b.map dst := by
  induction h using Relation.ReflTransGen.head_induction_on with
  | refl => exact ⟨[], .target, List.not_mem_nil⟩
  | @head x y hxy hy ih =>
    obtain ⟨e, hdirect, rfl, rfl⟩ := hxy
    obtain ⟨b, hb, hmem⟩ := ih
    have hnext := hb.step hdirect.2.2 hmem hdirect.1 rfl
    by_cases hx : src e ∈ (b ++ [e]).map dst
    · exact hnext.of_mem hx
    · exact ⟨_, hnext, hx⟩

/-- **The edges of the branches kept** are the direct ones from which the target is reached and
which are reached from the start or from a cycle. -/
theorem keeps_iff [DecidableEq α] (vertices : List α) (hv : ∀ e, E e → dst e ∈ vertices)
    (hne : start ≠ target) (e : β) :
    (∃ b, Keeps src dst E start target target [] b ∧ e ∈ b) ↔
      Direct src dst E start target e ∧
        Relation.ReflTransGen (Step src dst E start target) (dst e) target ∧
        Rooted src dst E start target (src e) := by
  constructor
  · rintro ⟨b, hk, he⟩
    obtain ⟨v, ht, hroot⟩ := hk.traced hne
      ⟨Or.inl ⟨rfl, rfl⟩, .refl, fun _ h => absurd h List.not_mem_nil,
        fun _ h => absurd h List.not_mem_nil, fun _ h => absurd h List.not_mem_nil⟩
    refine ⟨ht.direct e he, ht.toTarget e he, ?_⟩
    rcases hroot with rfl | hcycle
    · exact Or.inl (ht.fromCurrent e he)
    · exact Or.inr ⟨v, hcycle, ht.fromCurrent e he⟩
  · rintro ⟨hdirect, hreach, hroot⟩
    obtain ⟨b, hb, hmem⟩ := exists_arrives hreach
    have hnext := hb.step hdirect.2.2 hmem hdirect.1 rfl
    obtain ⟨b', hk, hpre⟩ := hroot.keeps hv (b := b ++ [e]) (Or.inl hdirect.2.1)
    exact ⟨b', hnext.keeps hk, hpre.subset (by simp)⟩

end Branches
