import N8n.Lib.Except
import Mathlib.Algebra.Order.BigOperators.Group.List
import Mathlib.Algebra.Order.Ring.Nat

/-!
# Gathering what can be reached

A recursive search that marks what it meets: what a vertex leads to is marked, and searched, unless
it is marked already.  All of it belongs to a finite domain, which bounds the depth of the recursion.
Or a queue is worked off from the front: what has not been collected is collected, and what it leads
to is queued.

* `Gather.missing`: how much of the domain is not marked;
* `Gather.Gathers`: what a search adds to the marks;
* `Gather.foldlM_gathers`: a search that can fail does not, and adds that;
* `Gather.Gathers.mem_iff`: from no marks, what is marked is what can be reached;
* `Worklist.run`, `Worklist.collect`: the loop, and the loop with as many turns as it can need;
* `Worklist.runWith`: the loop that takes what waits in another order;
* `Worklist.runWith_eq`, `Worklist.mem_runWith_iff`: it ends, and adds what can be reached.
-/

universe u

namespace Gather

variable {α : Type u}

/-- There is a walk from one vertex to another. -/
abbrev Reaches (next : α → List α) : α → α → Prop := Relation.ReflTransGen fun a b => b ∈ next a

section Missing

variable [DecidableEq α]

/-- How much of the domain is not marked. -/
def missing (domain marked : List α) : ℕ := (domain.filter (· ∉ marked)).length

theorem missing_le {domain marked marked' : List α} (h : marked ⊆ marked') :
    missing domain marked' ≤ missing domain marked := by
  refine (List.monotone_filter_right domain fun a ha => ?_).length_le
  simp only [decide_eq_true_eq] at ha ⊢
  exact fun ha' => ha (h ha')

theorem missing_append_lt {domain marked : List α} {a : α} (ha : a ∈ domain) (hnot : a ∉ marked) :
    missing domain (marked ++ [a]) < missing domain marked := by
  have hsub : (domain.filter (· ∉ marked ++ [a])).Sublist (domain.filter (· ∉ marked)) :=
    List.monotone_filter_right domain fun x hx => by
      simp only [List.mem_append, not_or, decide_eq_true_eq] at hx ⊢
      exact hx.1
  refine Nat.lt_of_le_of_ne hsub.length_le fun hlen => ?_
  have heq := hsub.eq_of_length hlen
  have hin : a ∈ domain.filter (· ∉ marked) := List.mem_filter.2 ⟨ha, decide_eq_true hnot⟩
  rw [← heq] at hin
  simp at hin

theorem missing_lt_length_add_one (domain marked : List α) :
    missing domain marked < domain.length + 1 :=
  Nat.lt_succ_of_le (List.length_filter_le _ _)

end Missing

/-! ### What is added -/

/-- Everything in `start` is marked, the marks that are new lead to marked vertices only, and can be
reached from `start`. -/
structure Gathers (next : α → List α) (start marked marked' : List α) : Prop where
  sub : marked ⊆ marked'
  all : start ⊆ marked'
  closed : ∀ a ∈ marked', a ∈ marked ∨ next a ⊆ marked'
  leads : ∀ a ∈ marked', a ∈ marked ∨ ∃ b ∈ start, Reaches next b a

namespace Gathers

variable {next : α → List α} {start marked marked' marked'' : List α}

theorem nil (next : α → List α) (marked : List α) : Gathers next [] marked marked :=
  ⟨List.Subset.refl _, List.nil_subset _, fun _ ha => Or.inl ha, fun _ ha => Or.inl ha⟩

theorem cons {a : α} (h : Gathers next [a] marked marked')
    (h' : Gathers next start marked' marked'') : Gathers next (a :: start) marked marked'' := by
  refine ⟨List.Subset.trans h.sub h'.sub, ?_, fun x hx => ?_, fun x hx => ?_⟩
  · exact List.cons_subset.2 ⟨h'.sub (h.all (List.mem_singleton_self a)), h'.all⟩
  · rcases h'.closed x hx with hx | hx
    · exact (h.closed x hx).imp_right fun hsub => List.Subset.trans hsub h'.sub
    · exact Or.inr hx
  · rcases h'.leads x hx with hx | ⟨b, hb, hreach⟩
    · refine (h.leads x hx).imp_right fun ⟨b, hb, hreach⟩ => ⟨b, ?_, hreach⟩
      exact List.mem_singleton.1 hb ▸ List.mem_cons_self
    · exact Or.inr ⟨b, List.mem_cons_of_mem _ hb, hreach⟩

/-- A vertex that is marked already. -/
theorem skip {a : α} (ha : a ∈ marked) : Gathers next [a] marked marked :=
  ⟨List.Subset.refl _, List.cons_subset.2 ⟨ha, List.nil_subset _⟩, fun _ hx => Or.inl hx,
    fun _ hx => Or.inl hx⟩

/-- A vertex is marked and what it leads to is gathered. -/
theorem visit {a : α} (h : Gathers next (next a) (marked ++ [a]) marked') :
    Gathers next [a] marked marked' := by
  have ha : a ∈ marked' := h.sub (by simp)
  refine ⟨fun x hx => h.sub (by simp [hx]), List.cons_subset.2 ⟨ha, List.nil_subset _⟩,
    fun x hx => ?_, fun x hx => ?_⟩
  · rcases h.closed x hx with hx | hx
    · rcases List.mem_append.1 hx with hx | hx
      · exact Or.inl hx
      · rw [List.mem_singleton.1 hx]
        exact Or.inr h.all
    · exact Or.inr hx
  · rcases h.leads x hx with hx | ⟨b, hb, hreach⟩
    · refine (List.mem_append.1 hx).imp_right fun hx => ⟨a, List.mem_singleton_self a, ?_⟩
      rw [List.mem_singleton.1 hx]
    · exact Or.inr ⟨a, List.mem_singleton_self a, .head hb hreach⟩

/-- From no marks, what is marked is what can be reached. -/
theorem mem_iff (h : Gathers next start [] marked) (a : α) :
    a ∈ marked ↔ ∃ b ∈ start, Reaches next b a := by
  constructor
  · exact fun ha => (h.leads a ha).resolve_left List.not_mem_nil
  · rintro ⟨b, hb, hreach⟩
    induction hreach with
    | refl => exact h.all hb
    | tail _ hstep ih => exact (h.closed _ ih).resolve_left List.not_mem_nil hstep

end Gathers

/-! ### The search -/

variable [DecidableEq α] {ε : Type u} {next : α → List α} {domain : List α}

/-- **A search that follows `next` within a domain succeeds and gathers.** -/
theorem foldlM_gathers (search : ℕ → α → List α → Except ε (List α))
    (hnext : ∀ a ∈ domain, next a ⊆ domain)
    (hsearch : ∀ depth, ∀ a ∈ domain, ∀ marked, search (depth + 1) a marked =
      (next a).foldlM (fun marked b =>
        if b ∈ marked then .ok marked else search depth b (marked ++ [b])) marked)
    {depth : ℕ} {start : List α} (marked : List α) (hstart : start ⊆ domain)
    (hdepth : missing domain marked ≤ depth) :
    ∃ marked', start.foldlM (fun marked b =>
        if b ∈ marked then .ok marked else search depth b (marked ++ [b])) marked = .ok marked' ∧
      Gathers next start marked marked' := by
  induction depth generalizing start marked with
  | zero =>
    -- the whole domain is marked
    have hall : ∀ a ∈ start, a ∈ marked := by
      intro a ha
      by_contra hnot
      exact absurd (missing_append_lt (hstart ha) hnot) (by omega)
    refine ⟨marked, ?_, List.Subset.refl _, hall, fun _ ha => Or.inl ha, fun _ ha => Or.inl ha⟩
    clear hstart
    induction start with
    | nil => rfl
    | cons a start ih =>
      rw [List.foldlM_cons, if_pos (hall a List.mem_cons_self)]
      exact ih fun b hb => hall b (List.mem_cons_of_mem _ hb)
  | succ depth ih =>
    induction start generalizing marked with
    | nil => exact ⟨marked, rfl, .nil next marked⟩
    | cons a start ihstart =>
      obtain ⟨ha, hstart⟩ := List.cons_subset.1 hstart
      have hone : ∃ marked₁, (if a ∈ marked then .ok marked
          else search (depth + 1) a (marked ++ [a]) : Except ε (List α)) = .ok marked₁ ∧
          Gathers next [a] marked marked₁ := by
        split_ifs with hin
        · exact ⟨marked, rfl, .skip hin⟩
        · have hlt := missing_append_lt ha hin
          obtain ⟨marked₁, h₁, hgather⟩ := ih (marked ++ [a]) (hnext a ha) (by omega)
          exact ⟨marked₁, (hsearch depth a ha _).trans h₁, hgather.visit⟩
      obtain ⟨marked₁, h₁, hgather₁⟩ := hone
      obtain ⟨marked₂, h₂, hgather₂⟩ := ihstart marked₁ hstart
        (Nat.le_trans (missing_le hgather₁.sub) hdepth)
      refine ⟨marked₂, ?_, hgather₁.cons hgather₂⟩
      rw [List.foldlM_cons]
      exact Except.bind_eq_ok_iff.2 ⟨marked₁, h₁, h₂⟩

end Gather

namespace Worklist

variable {α : Type u} [DecidableEq α] (next : α → List α)

/-- At most so many turns of the loop. -/
def run : ℕ → List α → List α → List α
  | 0, collected, _ => collected
  | _ + 1, collected, [] => collected
  | fuel + 1, collected, a :: queue =>
    if a ∈ collected then run fuel collected queue
    else
      let collected := collected ++ [a]
      run fuel collected (queue ++ (next a).filter fun b => b ∉ collected)

/-- The loop with another order of what waits; `push` adds what is new. -/
def runWith (push : List α → List α → List α) : ℕ → List α → List α → List α
  | 0, collected, _ => collected
  | _ + 1, collected, [] => collected
  | fuel + 1, collected, a :: waiting =>
    if a ∈ collected then runWith push fuel collected waiting
    else
      let collected := collected ++ [a]
      runWith push fuel collected (push ((next a).filter fun b => b ∉ collected) waiting)

/-- The turns that a queue can still need: its length, and what may still be queued. -/
def need (domain collected queue : List α) : ℕ :=
  queue.length + ((domain.filter fun a => a ∉ collected).map fun a => (next a).length).sum

def collect (domain : List α) (root : α) : List α := run next (need next domain [] [root]) [] [root]

/-- What can be reached. -/
abbrev Reaches : α → α → Prop := Relation.ReflTransGen fun a b => b ∈ next a

theorem run_eq_runWith (fuel : ℕ) (collected queue : List α) :
    run next fuel collected queue =
      runWith next (fun new queue => queue ++ new) fuel collected queue := by
  induction fuel generalizing collected queue with
  | zero => rfl
  | succ fuel ih =>
    cases queue with
    | nil => rfl
    | cons a queue => rw [run, runWith, ih, ih]

variable {next}

/-! ### The turns that are needed -/

variable {root a : α} {domain collected waiting : List α} {push : List α → List α → List α}

omit [DecidableEq α] in
theorem sum_filter_le {p q : α → Bool} (f : α → ℕ) (l : List α) (h : ∀ a, p a = true → q a = true) :
    ((l.filter p).map f).sum ≤ ((l.filter q).map f).sum :=
  ((List.monotone_filter_right l h).map f).sum_le_sum fun _ _ => Nat.zero_le _

/-- Collecting an element frees the turns for what it leads to. -/
theorem sum_add_le (collected : List α) (ha : a ∈ domain) (hnew : a ∉ collected) (f : α → ℕ) :
    f a + ((domain.filter fun b => b ∉ collected ++ [a]).map f).sum ≤
      ((domain.filter fun b => b ∉ collected).map f).sum := by
  induction domain with
  | nil => cases ha
  | cons b domain ih =>
    have hle : ((domain.filter fun b => b ∉ collected ++ [a]).map f).sum ≤
        ((domain.filter fun b => b ∉ collected).map f).sum := by
      refine sum_filter_le f domain fun c hc => ?_
      simp only [decide_eq_true_eq, List.mem_append, not_or] at hc ⊢
      exact hc.1
    by_cases hb : b = a
    · subst hb
      simpa [hnew] using hle
    · have htail := ih ((List.mem_cons.1 ha).resolve_left (Ne.symm hb))
      by_cases hmem : b ∈ collected
      · simpa [hmem] using htail
      · simp only [List.filter_cons, List.mem_append, List.mem_singleton, hmem, hb, or_self,
          not_false_eq_true, decide_true, if_true, List.map_cons, List.sum_cons] at htail ⊢
        omega

theorem need_of_mem {fuel : ℕ} (h : need next domain collected (a :: waiting) ≤ fuel + 1) :
    need next domain collected waiting ≤ fuel := by
  unfold need at h ⊢
  rw [List.length_cons] at h
  omega

theorem need_of_new {fuel : ℕ} (h : need next domain collected (a :: waiting) ≤ fuel + 1)
    (hpush : ∀ new waiting, (push new waiting).Perm (new ++ waiting))
    (hdomain : next a ≠ [] → a ∈ domain) (hnew : a ∉ collected) :
    need next domain (collected ++ [a])
      (push ((next a).filter fun b => b ∉ collected ++ [a]) waiting) ≤ fuel := by
  have hfilter := List.length_filter_le (fun b => decide (b ∉ collected ++ [a])) (next a)
  have hsum : (next a).length +
      ((domain.filter fun b => b ∉ collected ++ [a]).map fun b => (next b).length).sum ≤
        ((domain.filter fun b => b ∉ collected).map fun b => (next b).length).sum := by
    by_cases hnext : next a = []
    · rw [hnext, List.length_nil, Nat.zero_add]
      refine sum_filter_le _ domain fun c hc => ?_
      simp only [decide_eq_true_eq, List.mem_append, not_or] at hc ⊢
      exact hc.1
    · exact sum_add_le collected (hdomain hnext) hnew fun b => (next b).length
  unfold need at h ⊢
  rw [(hpush _ _).length_eq, List.length_append]
  rw [List.length_cons] at h
  omega

/-- More turns than are needed change nothing. -/
theorem runWith_eq (hpush : ∀ new waiting, (push new waiting).Perm (new ++ waiting))
    (hdomain : ∀ a, next a ≠ [] → a ∈ domain) {fuel : ℕ} (fuel' : ℕ)
    (h : need next domain collected waiting ≤ fuel)
    (h' : need next domain collected waiting ≤ fuel') :
    runWith next push fuel collected waiting = runWith next push fuel' collected waiting := by
  induction fuel generalizing fuel' collected waiting with
  | zero =>
    obtain rfl : waiting = [] := List.length_eq_zero_iff.1 (by unfold need at h; omega)
    cases fuel' <;> rfl
  | succ fuel ih =>
    cases waiting with
    | nil => cases fuel' <;> rfl
    | cons a waiting =>
      cases fuel' with
      | zero => simp [need] at h'
      | succ fuel' =>
        rw [runWith, runWith]
        split_ifs with hmem
        · exact ih fuel' (need_of_mem h) (need_of_mem h')
        · exact ih fuel' (need_of_new h hpush (hdomain a) hmem)
            (need_of_new h' hpush (hdomain a) hmem)

/-! ### What is collected -/

omit [DecidableEq α] in
/-- From what is closed up to what waits, one gets to what waits first. -/
theorem mem_or_reaches (hclosed : ∀ a ∈ collected, ∀ b ∈ next a, b ∈ collected ∨ b ∈ waiting)
    {b : α} (ha : a ∈ collected) (h : Reaches next a b) :
    b ∈ collected ∨ ∃ c ∈ waiting, Reaches next c b := by
  induction h with
  | refl => exact .inl ha
  | tail _ hb ih =>
    rcases ih with hmem | ⟨c, hc, hreach⟩
    · exact (hclosed _ hmem _ hb).imp_right fun hwait => ⟨_, hwait, .refl⟩
    · exact .inr ⟨c, hc, hreach.tail hb⟩

/-- **The loop with enough turns adds what can be reached.** -/
theorem mem_runWith_iff (hpush : ∀ new waiting, (push new waiting).Perm (new ++ waiting))
    (hdomain : ∀ a, next a ≠ [] → a ∈ domain) {fuel : ℕ}
    (hfuel : need next domain collected waiting ≤ fuel)
    (hclosed : ∀ a ∈ collected, ∀ b ∈ next a, b ∈ collected ∨ b ∈ waiting) (b : α) :
    b ∈ runWith next push fuel collected waiting ↔
      b ∈ collected ∨ ∃ a ∈ waiting, Reaches next a b := by
  induction fuel generalizing collected waiting with
  | zero =>
    obtain rfl : waiting = [] := List.length_eq_zero_iff.1 (by unfold need at hfuel; omega)
    simp [runWith]
  | succ fuel ih =>
    cases waiting with
    | nil => simp [runWith]
    | cons a waiting =>
      rw [runWith]
      split_ifs with hmem
      · have hclosed' : ∀ c ∈ collected, ∀ b ∈ next c, b ∈ collected ∨ b ∈ waiting := by
          intro c hc b hb
          rcases hclosed c hc b hb with hold | hwait
          · exact .inl hold
          · rcases List.mem_cons.1 hwait with rfl | hwait
            · exact .inl hmem
            · exact .inr hwait
        rw [ih (need_of_mem hfuel) hclosed']
        constructor
        · rintro (h | ⟨c, hc, h⟩)
          · exact .inl h
          · exact .inr ⟨c, List.mem_cons_of_mem a hc, h⟩
        · rintro (h | ⟨c, hc, h⟩)
          · exact .inl h
          · rcases List.mem_cons.1 hc with rfl | hc
            · exact mem_or_reaches hclosed' hmem h
            · exact .inr ⟨c, hc, h⟩
      · have hwaits : ∀ c, c ∈ push ((next a).filter fun b => b ∉ collected ++ [a]) waiting ↔
            (c ∈ next a ∧ c ∉ collected ++ [a]) ∨ c ∈ waiting := by
          intro c
          rw [(hpush _ _).mem_iff, List.mem_append, List.mem_filter, decide_eq_true_eq]
        have hclosed' : ∀ c ∈ collected ++ [a], ∀ b ∈ next c, b ∈ collected ++ [a] ∨
            b ∈ push ((next a).filter fun b => b ∉ collected ++ [a]) waiting := by
          intro c hc b hb
          by_cases hb' : b ∈ collected ++ [a]
          · exact .inl hb'
          · refine .inr ((hwaits b).2 ?_)
            rcases List.mem_append.1 hc with hold | hnew
            · have hb'' := (hclosed c hold b hb).resolve_left fun h => hb' (List.mem_append_left _ h)
              refine .inr ((List.mem_cons.1 hb'').resolve_left fun h => hb' ?_)
              simp [h]
            · exact .inl ⟨List.mem_singleton.1 hnew ▸ hb, hb'⟩
        rw [ih (need_of_new hfuel hpush (hdomain a) hmem) hclosed']
        constructor
        · rintro (h | ⟨c, hc, h⟩)
          · exact (List.mem_append.1 h).imp_right fun h =>
              ⟨a, List.mem_cons_self, by rw [List.mem_singleton.1 h]⟩
          · rcases (hwaits c).1 hc with ⟨hnext, -⟩ | hold
            · exact .inr ⟨a, List.mem_cons_self, .head hnext h⟩
            · exact .inr ⟨c, List.mem_cons_of_mem a hold, h⟩
        · rintro (h | ⟨c, hc, h⟩)
          · exact .inl (List.mem_append_left _ h)
          · rcases List.mem_cons.1 hc with rfl | hc
            · exact mem_or_reaches hclosed' (by simp) h
            · exact .inr ⟨c, (hwaits c).2 (.inr hc), h⟩

/-- **What is collected is what can be reached.** -/
theorem mem_collect_iff (hdomain : ∀ a, next a ≠ [] → a ∈ domain) {b : α} :
    b ∈ collect next domain root ↔ Reaches next root b := by
  rw [collect, run_eq_runWith, mem_runWith_iff (fun _ _ => List.perm_append_comm) hdomain (Nat.le_refl _)]
  · simp
  · simp

end Worklist
