import Mathlib.Order.WellFoundedSet
import Mathlib.Algebra.GroupWithZero.Nat

/-!
# Walks of a graph

The edges of a graph may have labels at both ends: `R u o v i` says that an edge leaves `u` by `o` and
enters `v` by `i`.  A search follows every path, up to its first vertex with a given property or to a
vertex that the path has met before.

* `Through R S u o v i`: a walk that leaves `u` by `o` and enters `v` by `i`, whose inner vertices
  are all in `S`;
* `Through.or_eq_iff`: one more vertex to go through is passed once or not at all;
* `FirstStops.Found`: what the search finds;
* `FirstStops.found_empty_iff`: it finds the ends of the walks that stop for the first time there,
  those that meet a vertex twice included;
* `IsDistance`: the length of the shortest walks to a vertex;
* `Acyclic.wellFounded`: without cycles, descending to one of finitely many children is well founded;
* `Acyclic.exists_weight`: then each element can be given a weight of one more than the weights of
  its children together, when few elements have any.
-/

universe u v w

/-! ### Walks through a set -/

section Through

variable {V : Type u} {O : Type v} {I : Type w} {R : V → O → V → I → Prop} {S T : V → Prop}

/-- A walk with all inner vertices in `S`. -/
inductive Through (R : V → O → V → I → Prop) (S : V → Prop) : V → O → V → I → Prop
  | single {u o v i} (h : R u o v i) : Through R S u o v i
  | cons {u o w j p v i} (h : R u o w j) (hw : S w) (hrest : Through R S w p v i) :
    Through R S u o v i

namespace Through

variable {u v w : V} {o p : O} {i j : I}

/-- Only vertices that an edge enters are gone through. -/
theorem imp (hST : ∀ w, (∃ u o i, R u o w i) → S w → T w) (h : Through R S u o v i) :
    Through R T u o v i := by
  induction h with
  | single h => exact .single h
  | cons h hw _ ih => exact .cons h (hST _ ⟨_, _, _, h⟩ hw) ih

theorem mono (hST : ∀ w, S w → T w) (h : Through R S u o v i) : Through R T u o v i :=
  h.imp fun w _ => hST w

theorem trans (h : Through R S u o w j) (hw : S w) (h' : Through R S w p v i) :
    Through R S u o v i := by
  induction h with
  | single h => exact .cons h hw h'
  | cons h hx _ ih => exact .cons h hx (ih hw h')

theorem exists_edge_from (h : Through R S u o v i) : ∃ w j, R u o w j := by
  cases h with
  | single h => exact ⟨_, _, h⟩
  | cons h _ _ => exact ⟨_, _, h⟩

theorem exists_edge_to (h : Through R S u o v i) : ∃ w p, R w p v i := by
  induction h with
  | single h => exact ⟨_, _, h⟩
  | cons _ _ _ ih => exact ih

/-- **One more vertex**: a walk does not pass it, or it is cut at the first and the last time. -/
theorem or_eq_iff {d : V} :
    Through R (fun w => S w ∨ w = d) u o v i ↔
      Through R S u o v i ∨ (∃ j, Through R S u o d j) ∧ ∃ p, Through R S d p v i := by
  constructor
  · intro h
    induction h with
    | single h => exact Or.inl (.single h)
    | cons h hw _ ih =>
      rcases hw with hw | rfl
      · rcases ih with hrest | ⟨⟨j, hfirst⟩, hlast⟩
        · exact Or.inl (.cons h hw hrest)
        · exact Or.inr ⟨⟨j, .cons h hw hfirst⟩, hlast⟩
      · rcases ih with hrest | ⟨-, hlast⟩
        · exact Or.inr ⟨⟨_, .single h⟩, _, hrest⟩
        · exact Or.inr ⟨⟨_, .single h⟩, hlast⟩
  · rintro (h | ⟨⟨j, hfirst⟩, p, hlast⟩)
    · exact h.mono fun w => Or.inl
    · exact (hfirst.mono fun w => Or.inl).trans (Or.inr rfl) (hlast.mono fun w => Or.inl)

/-- A cycle goes through the new vertex, or was there before. -/
theorem exists_cycle_or_eq_iff {d : V} :
    (∃ w o i, (S w ∨ w = d) ∧ Through R (fun w => S w ∨ w = d) w o w i) ↔
      (∃ w o i, S w ∧ Through R S w o w i) ∨ ∃ o i, Through R S d o d i := by
  constructor
  · rintro ⟨w, o, i, hw, h⟩
    rcases or_eq_iff.1 h with hold | ⟨⟨j, hfirst⟩, p, hlast⟩
    · rcases hw with hw | rfl
      · exact Or.inl ⟨w, o, i, hw, hold⟩
      · exact Or.inr ⟨o, i, hold⟩
    · rcases hw with hw | rfl
      · exact Or.inr ⟨p, j, hlast.trans hw hfirst⟩
      · exact Or.inr ⟨o, j, hfirst⟩
  · rintro (⟨w, o, i, hw, h⟩ | ⟨o, i, h⟩)
    · exact ⟨w, o, i, Or.inl hw, h.mono fun w => Or.inl⟩
    · exact ⟨d, o, i, Or.inr rfl, h.mono fun w => Or.inl⟩

end Through

end Through

/-! ### Where the walks from a vertex stop first -/

namespace FirstStops

variable {α : Type u} (edge : α → α → Prop) (stops : α → Prop)

/-- The search from a vertex, on a path that met the vertices of a set, finds a vertex. -/
inductive Found : Set α → α → α → Prop
  | stop {seen : Set α} {a : α} (h : stops a) : Found seen a a
  | step {seen : Set α} {a b n : α} (hgo : ¬stops a) (hnew : a ∉ seen) (hab : edge a b)
    (h : Found (insert a seen) b n) : Found seen a n

/-- A step from a vertex where the walk does not stop. -/
def Step (a b : α) : Prop := ¬stops a ∧ edge a b

variable {edge stops}

variable {seen : Set α} {a n : α}

theorem found_of_stops (h : stops a) : Found edge stops seen a n ↔ n = a := by
  constructor
  · intro hfound
    cases hfound with
    | stop => rfl
    | step hgo => exact absurd h hgo
  · rintro rfl
    exact .stop h

theorem not_found_of_mem (h : ¬stops a) (hmem : a ∈ seen) : ¬Found edge stops seen a n := by
  intro hfound
  cases hfound with
  | stop hstop => exact h hstop
  | step _ hnew => exact hnew hmem

theorem found_of_new (h : ¬stops a) (hnew : a ∉ seen) :
    Found edge stops seen a n ↔ ∃ b, edge a b ∧ Found edge stops (insert a seen) b n := by
  constructor
  · intro hfound
    cases hfound with
    | stop hstop => exact absurd hstop h
    | step _ _ hab hfound => exact ⟨_, hab, hfound⟩
  · rintro ⟨b, hab, hfound⟩
    exact .step h hnew hab hfound

/-- A path that has met less finds as much. -/
theorem Found.anti {seen' : Set α} (h : Found edge stops seen a n) (hsub : seen' ⊆ seen) :
    Found edge stops seen' a n := by
  induction h generalizing seen' with
  | stop h => exact .stop h
  | step hgo hnew hab _ ih =>
    exact .step hgo (fun hmem => hnew (hsub hmem)) hab (ih (Set.insert_subset_insert hsub))

/-- What is found is found on a path that avoids a vertex, or from that vertex. -/
theorem Found.avoid {b : α} (h : Found edge stops seen b n) :
    Found edge stops (insert a seen) b n ∨ Found edge stops seen a n := by
  induction h with
  | stop h => exact Or.inl (.stop h)
  | @step seen b c n hgo hnew hbc h ih =>
    by_cases heq : b = a
    · exact Or.inr (heq ▸ .step hgo hnew hbc h)
    · rcases ih with ih | ih
      · refine Or.inl (.step hgo ?_ hbc (Set.insert_comm a b seen ▸ ih))
        rintro (hba | hmem)
        · exact heq hba
        · exact hnew hmem
      · exact Or.inr (ih.anti (Set.subset_insert b seen))

theorem Found.stops_end (h : Found edge stops seen a n) : stops n := by
  induction h with
  | stop h => exact h
  | step _ _ _ _ ih => exact ih

theorem Found.walk (h : Found edge stops seen a n) :
    Relation.ReflTransGen (Step edge stops) a n := by
  induction h with
  | stop h => exact .refl
  | step hgo _ hab _ ih => exact .head ⟨hgo, hab⟩ ih

/-- **The search finds the vertices where a walk stops for the first time.** -/
theorem found_empty_iff :
    Found edge stops ∅ a n ↔ stops n ∧ Relation.ReflTransGen (Step edge stops) a n := by
  constructor
  · exact fun h => ⟨h.stops_end, h.walk⟩
  · rintro ⟨hstop, hwalk⟩
    induction hwalk using Relation.ReflTransGen.head_induction_on with
    | refl => exact .stop hstop
    | @head a b hab _ ih =>
      rcases ih.avoid (a := a) with h | h
      · exact .step hab.1 (Set.notMem_empty a) hab.2 h
      · exact h

end FirstStops

/-! ### The lengths of walks -/

section Lengths

variable {V : Type u} {R : V → V → Prop} {s u v : V} {d d' n : ℕ}

/-- A walk of so many steps. -/
def WalkOf (R : V → V → Prop) (s : V) : ℕ → V → Prop
  | 0, v => v = s
  | n + 1, v => ∃ u, WalkOf R s n u ∧ R u v

/-- The length of the shortest walks. -/
def IsDistance (R : V → V → Prop) (s : V) (d : ℕ) (v : V) : Prop :=
  WalkOf R s d v ∧ ∀ n < d, ¬WalkOf R s n v

theorem isDistance_zero_iff : IsDistance R s 0 v ↔ v = s :=
  ⟨fun h => h.1, fun h => ⟨h, fun _ hn => absurd hn (Nat.not_lt_zero _)⟩⟩

theorem IsDistance.unique (h : IsDistance R s d v) (h' : IsDistance R s d' v) : d = d' := by
  rcases lt_trichotomy d d' with hlt | heq | hgt
  · exact absurd h.1 (h'.2 d hlt)
  · exact heq
  · exact absurd h'.1 (h.2 d' hgt)

theorem WalkOf.exists_isDistance (h : WalkOf R s n v) : ∃ d ≤ n, IsDistance R s d v := by
  induction n using Nat.strong_induction_on with
  | _ n ih =>
    by_cases hshorter : ∃ m < n, WalkOf R s m v
    · obtain ⟨m, hm, hwalk⟩ := hshorter
      obtain ⟨d, hd, hdist⟩ := ih m hm hwalk
      exact ⟨d, hd.trans hm.le, hdist⟩
    · push Not at hshorter
      exact ⟨n, le_rfl, h, hshorter⟩

/-- A shortest walk ends with a step from a vertex that is one step nearer. -/
theorem IsDistance.exists_step (h : IsDistance R s (d + 1) v) :
    ∃ u, IsDistance R s d u ∧ R u v := by
  obtain ⟨⟨u, hwalk, hstep⟩, hmin⟩ := h
  refine ⟨u, ⟨hwalk, fun n hn hshorter => ?_⟩, hstep⟩
  exact hmin (n + 1) (Nat.succ_lt_succ hn) ⟨u, hshorter, hstep⟩

/-- A step leads at most one step further. -/
theorem IsDistance.step (h : IsDistance R s d u) (hstep : R u v) :
    ∃ d' ≤ d + 1, IsDistance R s d' v :=
  WalkOf.exists_isDistance ⟨u, h.1, hstep⟩

/-- There are vertices at every smaller distance. -/
theorem IsDistance.exists_of_le (h : IsDistance R s d v) (hle : n ≤ d) :
    ∃ u, IsDistance R s n u := by
  induction d generalizing v with
  | zero => exact ⟨v, Nat.le_zero.1 hle ▸ h⟩
  | succ d ih =>
    rcases hle.lt_or_eq with hlt | rfl
    · obtain ⟨u, hu, -⟩ := h.exists_step
      exact ih hu (Nat.lt_succ_iff.1 hlt)
    · exact ⟨v, h⟩

/-- On a shortest walk as many vertices have steps as the walk has. -/
theorem IsDistance.le_length {starts : List V} (hstarts : ∀ u v, R u v → u ∈ starts)
    (h : IsDistance R s d v) : d ≤ starts.length := by
  classical
  have hchain : ∀ d v, IsDistance R s d v → ∃ l : List V, l.Nodup ∧ l.length = d ∧
      ∀ u ∈ l, u ∈ starts ∧ ∃ n < d, IsDistance R s n u := by
    intro d
    induction d with
    | zero => exact fun _ _ => ⟨[], List.nodup_nil, rfl, fun u hu => by cases hu⟩
    | succ d ih =>
      intro v hv
      obtain ⟨u, hu, hstep⟩ := hv.exists_step
      obtain ⟨l, hnodup, hlength, hl⟩ := ih u hu
      refine ⟨u :: l, List.nodup_cons.2 ⟨fun hmem => ?_, hnodup⟩, by simp [hlength],
        List.forall_mem_cons.2 ⟨⟨hstarts u v hstep, d, Nat.lt_succ_self d, hu⟩, fun w hw => ?_⟩⟩
      · obtain ⟨-, n, hn, hdist⟩ := hl u hmem
        exact absurd (hdist.unique hu) hn.ne
      · obtain ⟨hw, n, hn, hdist⟩ := hl w hw
        exact ⟨hw, n, hn.trans (Nat.lt_succ_self d), hdist⟩
  obtain ⟨l, hnodup, rfl, hl⟩ := hchain d v h
  exact hnodup.length_le_of_subset fun u hu => (hl u hu).1

end Lengths

/-- No element is its own descendant. -/
def Acyclic {α : Type u} (children : α → List α) : Prop :=
  ∀ a, ¬Relation.TransGen (fun a b => b ∈ children a) a a

namespace Acyclic

variable {α : Type u} {children : α → List α}

/-- A relation along which a rank grows is acyclic. -/
theorem of_rank (rank : α → ℕ) (h : ∀ a, ∀ b ∈ children a, rank a < rank b) : Acyclic children := by
  intro a hcycle
  have hlt : ∀ b, Relation.TransGen (fun a b => b ∈ children a) a b → rank a < rank b := by
    intro b hb
    induction hb with
    | single hb => exact h a _ hb
    | tail _ hb ih => exact ih.trans (h _ _ hb)
  exact lt_irrefl _ (hlt a hcycle)

/-- Descending to a child is well founded where finitely many elements are children. -/
theorem wellFounded_of_finite_children (hacyclic : Acyclic children)
    (hfinite : {b | ∃ a, b ∈ children a}.Finite) : WellFounded fun b a => b ∈ children a := by
  let below : α → α → Prop := fun b a => Relation.TransGen (fun a b => b ∈ children a) a b
  have horder : IsStrictOrder α below :=
    { irrefl := hacyclic
      trans := fun _ _ _ hab hbc => hbc.trans hab }
  have hbelow : Set.WellFoundedOn {b | ∃ a, b ∈ children a} below := hfinite.wellFoundedOn
  refine ⟨fun a => Acc.intro a fun b hb => ?_⟩
  refine hbelow.induction (P := Acc fun b a => b ∈ children a) ⟨a, hb⟩ fun b _ ih => ?_
  exact Acc.intro b fun c hc => ih c ⟨b, hc⟩ (Relation.TransGen.single hc)

/-- Descending to a child is well founded where finitely many elements have children. -/
theorem wellFounded (hacyclic : Acyclic children) (hfinite : {a | children a ≠ []}.Finite) :
    WellFounded fun b a => b ∈ children a := by
  refine hacyclic.wellFounded_of_finite_children ((hfinite.biUnion fun a _ =>
    (children a).finite_toSet).subset ?_)
  rintro b ⟨a, hb⟩
  exact Set.mem_biUnion (List.ne_nil_of_mem hb) hb

/-- Every element can weigh one more than its children together. -/
theorem exists_weight (hacyclic : Acyclic children) (hfinite : {a | children a ≠ []}.Finite) :
    ∃ W : α → ℕ, ∀ a, W a = 1 + ((children a).map W).sum := by
  have hwf := hacyclic.wellFounded hfinite
  refine ⟨hwf.fix fun a weight => 1 + ((children a).attach.map fun b => weight b.1 b.2).sum,
    fun a => ?_⟩
  rw [hwf.fix_eq]
  exact congrArg (fun l => 1 + List.sum l) List.attach_map_val

end Acyclic
