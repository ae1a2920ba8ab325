import N8n.Lib.Stateful

/-!
# Programs that reach a database

A program reaches its database one access at a time.  An access may fail for a reason of its own:
the database is asked and gives no answer.

* `Connection`, `Stateful.access`: what the database holds, and which accesses to come fail;
* `Stateful.transaction`: what is undone when it fails;
* `Stateful.Ends`: an outcome for some failures, with a rule for each way to build a program;
* `Stateful.Steady`: a program whose outcome is the same as long as its accesses are answered.
-/

universe u v w

/-- What a database holds, and for each access to come whether it fails for a reason of its own. -/
structure Connection (δ : Type u) where
  data : δ
  faults : List Bool := []

namespace Stateful

variable {δ : Type u} {ε : Type v} {α β : Type w}

/-- One access: it answers and changes the data, or is refused, or fails for a reason of its own. -/
def access (fault : ε) (f : δ → Except ε (α × δ)) : Stateful (Connection δ) ε α := fun c =>
  if c.faults.headD false then (.error fault, ⟨c.data, c.faults.tail⟩)
  else
    match f c.data with
    | .ok (a, data) => (.ok a, ⟨data, c.faults.tail⟩)
    | .error e => (.error e, ⟨c.data, c.faults.tail⟩)

/-- An access that reads. -/
def query (fault : ε) (f : δ → α) : Stateful (Connection δ) ε α :=
  access fault fun data => .ok (f data, data)

/-- An access that writes. -/
def statement (fault : ε) (f : δ → Except ε δ) : Stateful (Connection δ) ε PUnit :=
  access fault fun data => (f data).map fun data => (⟨⟩, data)

/-- What the program knows or changes without an access. -/
def modify (f : δ → δ) : Stateful (Connection δ) ε PUnit := fun c =>
  (.ok ⟨⟩, { c with data := f c.data })

def peek (f : δ → α) : Stateful (Connection δ) ε α := fun c => (.ok (f c.data), c)

/-- When the program fails, the data are what they were. -/
def undone (m : Stateful (Connection δ) ε α) : Stateful (Connection δ) ε α := fun c =>
  match m c with
  | (.ok a, c') => (.ok a, c')
  | (.error e, c') => (.error e, { c' with data := c.data })

/-- What is done between a beginning and a commit is undone when it fails. -/
def transaction (fault : ε) (m : Stateful (Connection δ) ε α) : Stateful (Connection δ) ε α :=
  undone do
    query fault fun _ => PUnit.unit
    let a ← m
    query fault fun _ => PUnit.unit
    pure a

/-! ### Outcomes -/

/-- Started on the data `d`, the program gives `r` and leaves `d'` when some of its accesses fail. -/
def Ends (m : Stateful (Connection δ) ε α) (d : δ) (r : Except ε α) (d' : δ) : Prop :=
  ∃ faults faults', m ⟨d, faults⟩ = (r, ⟨d', faults'⟩)

section Ends

variable {m : Stateful (Connection δ) ε α} {f : α → Stateful (Connection δ) ε β} {fault e : ε}
  {a : α} {b : β} {d d' : δ}

theorem Ends.bind_ok (h : Ends (m >>= f) d (.ok b) d') :
    ∃ a d₁, Ends m d (.ok a) d₁ ∧ Ends (f a) d₁ (.ok b) d' := by
  obtain ⟨faults, faults', h⟩ := h
  rw [run_bind] at h
  match hm : m ⟨d, faults⟩ with
  | (.ok a, c) =>
    rw [hm] at h
    exact ⟨a, c.data, ⟨faults, c.faults, hm⟩, c.faults, faults', h⟩
  | (.error e, c) =>
    rw [hm] at h
    cases h

theorem Ends.bind_error (h : Ends (m >>= f) d (.error e) d') :
    Ends m d (.error e) d' ∨ ∃ a d₁, Ends m d (.ok a) d₁ ∧ Ends (f a) d₁ (.error e) d' := by
  obtain ⟨faults, faults', h⟩ := h
  rw [run_bind] at h
  match hm : m ⟨d, faults⟩ with
  | (.ok a, c) =>
    rw [hm] at h
    exact Or.inr ⟨a, c.data, ⟨faults, c.faults, hm⟩, c.faults, faults', h⟩
  | (.error e', c) =>
    rw [hm] at h
    cases h
    exact Or.inl ⟨faults, faults', hm⟩

theorem ends_pure_ok {r : Except ε α} (h : Ends (pure a) d r d') : r = .ok a ∧ d' = d := by
  obtain ⟨_, _, h⟩ := h
  cases h
  exact ⟨rfl, rfl⟩

theorem ends_lift {x r : Except ε α} (h : Ends (lift x) d r d') : r = x ∧ d' = d := by
  obtain ⟨_, _, h⟩ := h
  cases h
  exact ⟨rfl, rfl⟩

theorem ends_access_ok {g : δ → Except ε (α × δ)} (h : Ends (access fault g) d (.ok a) d') :
    g d = .ok (a, d') := by
  obtain ⟨faults, faults', h⟩ := h
  rw [access] at h
  split_ifs at h
  · cases h
  · dsimp only at h
    split at h
    · cases h
      assumption
    · cases h

theorem ends_access_error {g : δ → Except ε (α × δ)}
    (h : Ends (access fault g) d (.error e) d') : (e = fault ∨ g d = .error e) ∧ d' = d := by
  obtain ⟨faults, faults', h⟩ := h
  rw [access] at h
  split_ifs at h
  · cases h
    exact ⟨Or.inl rfl, rfl⟩
  · dsimp only at h
    split at h
    · cases h
    · cases h
      exact ⟨Or.inr (by assumption), rfl⟩

theorem ends_query_ok {g : δ → α} (h : Ends (query fault g) d (.ok a) d') : a = g d ∧ d' = d := by
  cases ends_access_ok h
  exact ⟨rfl, rfl⟩

theorem ends_query_error {g : δ → α} (h : Ends (query fault g) d (.error e) d') :
    e = fault ∧ d' = d := by
  obtain ⟨he | he, hd⟩ := ends_access_error h
  · exact ⟨he, hd⟩
  · cases he

theorem ends_statement_ok {g : δ → Except ε δ} {x : PUnit}
    (h : Ends (statement fault g) d (.ok x) d') : g d = .ok d' := by
  have h := ends_access_ok h
  match hg : g d with
  | .ok d₁ =>
    rw [hg] at h
    cases h
    rfl
  | .error e =>
    rw [hg] at h
    cases h

theorem ends_statement_error {g : δ → Except ε δ}
    (h : Ends (statement fault g) d (.error e) d') : (e = fault ∨ g d = .error e) ∧ d' = d := by
  obtain ⟨he | he, hd⟩ := ends_access_error h
  · exact ⟨Or.inl he, hd⟩
  · match hg : g d with
    | .ok d₁ =>
      rw [hg] at he
      cases he
    | .error e' =>
      rw [hg] at he
      cases he
      exact ⟨Or.inr rfl, hd⟩

theorem ends_undone_ok (h : Ends (undone m) d (.ok a) d') : Ends m d (.ok a) d' := by
  obtain ⟨faults, faults', h⟩ := h
  rw [undone] at h
  split at h
  · cases h
    exact ⟨faults, faults', by assumption⟩
  · cases h

theorem ends_undone_error (h : Ends (undone m) d (.error e) d') :
    d' = d ∧ ∃ d₁, Ends m d (.error e) d₁ := by
  obtain ⟨faults, faults', h⟩ := h
  rw [undone] at h
  split at h
  · cases h
  · cases h
    exact ⟨rfl, _, faults, _, by assumption⟩

theorem ends_transaction_ok (h : Ends (transaction fault m) d (.ok a) d') :
    Ends m d (.ok a) d' := by
  obtain ⟨_, d₁, h₁, hrest⟩ := (ends_undone_ok h).bind_ok
  obtain ⟨a₂, d₂, h₂, hrest⟩ := hrest.bind_ok
  obtain ⟨_, d₃, h₃, hrest⟩ := hrest.bind_ok
  obtain ⟨hr, rfl⟩ := ends_pure_ok hrest
  cases hr
  rw [(ends_query_ok h₁).2] at h₂
  rw [(ends_query_ok h₃).2]
  exact h₂

/-- A failed transaction leaves the data alone; what it failed with. -/
theorem ends_transaction_error (h : Ends (transaction fault m) d (.error e) d') :
    d' = d ∧ (e = fault ∨ ∃ d₁, Ends m d (.error e) d₁) := by
  obtain ⟨hd, d₁, h⟩ := ends_undone_error h
  refine ⟨hd, ?_⟩
  rcases h.bind_error with h₁ | ⟨_, d₂, h₁, hrest⟩
  · exact Or.inl (ends_query_error h₁).1
  · rw [(ends_query_ok h₁).2] at hrest
    rcases hrest.bind_error with h₂ | ⟨a₂, d₃, h₂, hrest⟩
    · exact Or.inr ⟨_, h₂⟩
    · rcases hrest.bind_error with h₃ | ⟨_, d₄, h₃, hrest⟩
      · exact Or.inl (ends_query_error h₃).1
      · cases (ends_pure_ok hrest).1

theorem Ends.error_bind (h : Ends m d (.error e) d') (f : α → Stateful (Connection δ) ε β) :
    Ends (m >>= f) d (.error e) d' := by
  obtain ⟨faults, faults', h⟩ := h
  refine ⟨faults, faults', ?_⟩
  rw [run_bind, h]

theorem ends_access_fault (fault : ε) (g : δ → Except ε (α × δ)) (d : δ) :
    Ends (access fault g) d (.error fault) d := ⟨[true], [], rfl⟩

end Ends

/-! ### Programs that only read -/

/-- Whatever the outcome, the data are as they were. -/
def ReadsOnly (m : Stateful (Connection δ) ε α) : Prop := ∀ d r d', Ends m d r d' → d' = d

section ReadsOnly

variable {m : Stateful (Connection δ) ε α} {f : α → Stateful (Connection δ) ε β}

theorem readsOnly_pure (a : α) : ReadsOnly (pure a : Stateful (Connection δ) ε α) :=
  fun _ _ _ h => (ends_pure_ok h).2

theorem readsOnly_lift (x : Except ε α) : ReadsOnly (lift x : Stateful (Connection δ) ε α) :=
  fun _ _ _ h => (ends_lift h).2

theorem readsOnly_fail (e : ε) : ReadsOnly (fail e : Stateful (Connection δ) ε α) :=
  readsOnly_lift (.error e)

theorem readsOnly_query (fault : ε) (g : δ → α) : ReadsOnly (query fault g) := by
  intro d r d' h
  cases r with
  | error e => exact (ends_query_error h).2
  | ok a => exact (ends_query_ok h).2

theorem ReadsOnly.bind (hm : ReadsOnly m) (hf : ∀ a, ReadsOnly (f a)) : ReadsOnly (m >>= f) := by
  intro d r d' h
  cases r with
  | error e =>
    rcases h.bind_error with h | ⟨a, d₁, h₁, h₂⟩
    · exact hm _ _ _ h
    · exact (hf a _ _ _ h₂).trans (hm _ _ _ h₁)
  | ok b =>
    obtain ⟨a, d₁, h₁, h₂⟩ := h.bind_ok
    exact (hf a _ _ _ h₂).trans (hm _ _ _ h₁)

theorem ReadsOnly.ite {p : Prop} [Decidable p] {m' : Stateful (Connection δ) ε α}
    (hm : ReadsOnly m) (hm' : ReadsOnly m') : ReadsOnly (if p then m else m') := by
  split_ifs
  · exact hm
  · exact hm'

/-- A successful program whose first part only reads. -/
theorem ReadsOnly.bind_ok {b : β} {d d' : δ} (hm : ReadsOnly m)
    (h : Ends (m >>= f) d (.ok b) d') : ∃ a, Ends m d (.ok a) d ∧ Ends (f a) d (.ok b) d' := by
  obtain ⟨a, d₁, h₁, h₂⟩ := h.bind_ok
  obtain rfl := hm _ _ _ h₁
  exact ⟨a, h₁, h₂⟩

end ReadsOnly

/-! ### What a program does to the data -/

/-- Whatever the outcome, the data are related so to what they were. -/
def Leaves (R : δ → δ → Prop) (m : Stateful (Connection δ) ε α) : Prop :=
  ∀ d r d', Ends m d r d' → R d d'

section Leaves

variable {R : δ → δ → Prop} {m : Stateful (Connection δ) ε α}
  {f : α → Stateful (Connection δ) ε β} {fault : ε}

theorem ReadsOnly.leaves (hm : ReadsOnly m) (hrefl : ∀ d, R d d) : Leaves R m := by
  intro d r d' h
  rw [hm d r d' h]
  exact hrefl d

theorem leaves_modify {g : δ → δ} (h : ∀ d, R d (g d)) :
    Leaves R (modify g : Stateful (Connection δ) ε PUnit) := by
  rintro d r d' ⟨_, _, he⟩
  cases he
  exact h d

theorem readsOnly_peek (g : δ → α) : ReadsOnly (peek g : Stateful (Connection δ) ε α) := by
  rintro d r d' ⟨_, _, he⟩
  cases he
  rfl

theorem leaves_statement {g : δ → Except ε δ} (hrefl : ∀ d, R d d)
    (h : ∀ d d', g d = .ok d' → R d d') : Leaves R (statement fault g) := by
  intro d r d' he
  cases r with
  | ok u => exact h d d' (ends_statement_ok he)
  | error e =>
    rw [(ends_statement_error he).2]
    exact hrefl d

theorem Leaves.bind (htrans : ∀ d₁ d₂ d₃, R d₁ d₂ → R d₂ d₃ → R d₁ d₃) (hm : Leaves R m)
    (hf : ∀ a, Leaves R (f a)) : Leaves R (m >>= f) := by
  intro d r d' h
  cases r with
  | error e =>
    rcases h.bind_error with h | ⟨a, d₁, h₁, h₂⟩
    · exact hm _ _ _ h
    · exact htrans _ _ _ (hm _ _ _ h₁) (hf a _ _ _ h₂)
  | ok b =>
    obtain ⟨a, d₁, h₁, h₂⟩ := h.bind_ok
    exact htrans _ _ _ (hm _ _ _ h₁) (hf a _ _ _ h₂)

theorem Leaves.ite {p : Prop} [Decidable p] {m' : Stateful (Connection δ) ε α} (hm : Leaves R m)
    (hm' : Leaves R m') : Leaves R (if p then m else m') := by
  split_ifs
  · exact hm
  · exact hm'

end Leaves

/-! ### What a program throws -/

/-- Every error of the program satisfies `P`. -/
def Throws (P : ε → Prop) (m : Stateful (Connection δ) ε α) : Prop :=
  ∀ d e d', Ends m d (.error e) d' → P e

section Throws

variable {P : ε → Prop} {m : Stateful (Connection δ) ε α} {f : α → Stateful (Connection δ) ε β}
  {fault : ε}

theorem throws_lift {x : Except ε α} (h : ∀ e, x = .error e → P e) :
    Throws P (lift x : Stateful (Connection δ) ε α) :=
  fun _ e _ he => h e (ends_lift he).1.symm

theorem throws_pure (a : α) : Throws P (pure a : Stateful (Connection δ) ε α) :=
  throws_lift (x := .ok a) fun _ h => by cases h

theorem throws_fail {e : ε} (h : P e) : Throws P (fail e : Stateful (Connection δ) ε α) :=
  throws_lift (x := .error e) fun _ he => by
    cases he
    exact h

theorem throws_query (h : P fault) (g : δ → α) : Throws P (query fault g) :=
  fun _ _ _ he => (ends_query_error he).1 ▸ h

theorem Throws.bind (hm : Throws P m) (hf : ∀ a, Throws P (f a)) : Throws P (m >>= f) := by
  intro d e d' h
  rcases h.bind_error with h | ⟨a, d₁, -, h⟩
  · exact hm _ _ _ h
  · exact hf a _ _ _ h

theorem Throws.ite {p : Prop} [Decidable p] {m' : Stateful (Connection δ) ε α} (hm : Throws P m)
    (hm' : Throws P m') : Throws P (if p then m else m') := by
  split_ifs
  · exact hm
  · exact hm'

end Throws

/-! ### Answered accesses -/

/-- A program that makes its accesses one after the other: a failing access is the end of it, and when
as many are answered as it makes, what follows does not matter. -/
structure Steady (fault : ε) (m : Stateful (Connection δ) ε α) : Prop where
  faults_eq : ∀ d, (m ⟨d, []⟩).2.faults = []
  answered : ∀ d, ∃ k, ∀ rest, m ⟨d, List.replicate k false ++ rest⟩ =
    ((m ⟨d, []⟩).1, ⟨(m ⟨d, []⟩).2.data, rest⟩)
  outcome : ∀ c, (m c).1 = .error fault ∨ m ⟨c.data, []⟩ = ((m c).1, ⟨(m c).2.data, []⟩)

section Steady

variable {m : Stateful (Connection δ) ε α} {f : α → Stateful (Connection δ) ε β} {fault e : ε}
  {a : α} {d d' : δ}

variable (fault)

theorem steady_lift (x : Except ε α) : Steady fault (lift x : Stateful (Connection δ) ε α) where
  faults_eq _ := rfl
  answered _ := ⟨0, fun _ => rfl⟩
  outcome _ := Or.inr rfl

theorem steady_modify (g : δ → δ) : Steady fault (modify g : Stateful (Connection δ) ε PUnit) where
  faults_eq _ := rfl
  answered _ := ⟨0, fun _ => rfl⟩
  outcome _ := Or.inr rfl

theorem steady_peek (g : δ → α) : Steady fault (peek g : Stateful (Connection δ) ε α) where
  faults_eq _ := rfl
  answered _ := ⟨0, fun _ => rfl⟩
  outcome _ := Or.inr rfl

theorem steady_pure (a : α) : Steady fault (pure a : Stateful (Connection δ) ε α) :=
  steady_lift fault (.ok a)

theorem steady_fail (fault e : ε) : Steady fault (fail e : Stateful (Connection δ) ε α) :=
  steady_lift fault (.error e)

theorem access_answered (g : δ → Except ε (α × δ)) (d : δ) (rest : List Bool) :
    access fault g ⟨d, false :: rest⟩ =
      ((access fault g ⟨d, []⟩).1, ⟨(access fault g ⟨d, []⟩).2.data, rest⟩) := by
  simp only [access, List.headD_cons, List.headD_nil, Bool.false_eq_true, if_false,
    List.tail_cons, List.tail_nil]
  cases g d <;> rfl

theorem access_faults_eq (g : δ → Except ε (α × δ)) (d : δ) :
    (access fault g ⟨d, []⟩).2.faults = [] := by
  simp only [access, List.headD_nil, Bool.false_eq_true, if_false, List.tail_nil]
  cases g d <;> rfl

theorem access_eq_mk (g : δ → Except ε (α × δ)) (d : δ) :
    access fault g ⟨d, []⟩ =
      ((access fault g ⟨d, []⟩).1, ⟨(access fault g ⟨d, []⟩).2.data, []⟩) := by
  have h := access_faults_eq fault g d
  calc access fault g ⟨d, []⟩
      = ((access fault g ⟨d, []⟩).1,
          ⟨(access fault g ⟨d, []⟩).2.data, (access fault g ⟨d, []⟩).2.faults⟩) := rfl
    _ = _ := by rw [h]

theorem steady_access (g : δ → Except ε (α × δ)) : Steady fault (access fault g) where
  faults_eq d := access_faults_eq fault g d
  answered d := ⟨1, access_answered fault g d⟩
  outcome := by
    rintro ⟨d, faults⟩
    match faults with
    | [] => exact Or.inr (access_eq_mk fault g d)
    | true :: rest => exact Or.inl rfl
    | false :: rest =>
      rw [access_answered]
      exact Or.inr (access_eq_mk fault g d)

variable {fault}

theorem Steady.eq_mk (hm : Steady fault m) (d : δ) :
    m ⟨d, []⟩ = ((m ⟨d, []⟩).1, ⟨(m ⟨d, []⟩).2.data, []⟩) :=
  calc m ⟨d, []⟩ = ((m ⟨d, []⟩).1, ⟨(m ⟨d, []⟩).2.data, (m ⟨d, []⟩).2.faults⟩) := rfl
    _ = _ := by rw [hm.faults_eq]

/-- A program succeeds with some failures to come exactly when it does with none. -/
theorem Steady.ends_ok_iff (hm : Steady fault m) :
    Ends m d (.ok a) d' ↔ m ⟨d, []⟩ = (.ok a, ⟨d', []⟩) := by
  constructor
  · rintro ⟨faults, faults', h⟩
    rcases hm.outcome ⟨d, faults⟩ with hfault | hout
    · rw [h] at hfault
      cases hfault
    · rw [hout, h]
  · exact fun h => ⟨[], [], h⟩

theorem Steady.bind (hm : Steady fault m) (hf : ∀ a, Steady fault (f a)) :
    Steady fault (m >>= f) where
  faults_eq d := by
    match hrun : m ⟨d, []⟩ with
    | (.error e, c) =>
      have := hm.faults_eq d
      rw [hrun] at this
      rw [run_bind, hrun]
      exact this
    | (.ok a, c) =>
      have := hm.eq_mk d
      rw [hrun] at this
      rw [run_bind, hrun, Prod.mk.inj this |>.2]
      exact (hf a).faults_eq c.data
  answered d := by
    obtain ⟨k, hk⟩ := hm.answered d
    have hmk := hm.eq_mk d
    match hrun : m ⟨d, []⟩ with
    | (.error e, c) =>
      refine ⟨k, fun rest => ?_⟩
      rw [run_bind, hk rest, run_bind, hrun]
    | (.ok a, c) =>
      rw [hrun] at hk hmk
      obtain ⟨k', hk'⟩ := (hf a).answered c.data
      refine ⟨k + k', fun rest => ?_⟩
      rw [← List.replicate_append_replicate, List.append_assoc, run_bind, hk, run_bind, hrun,
        (Prod.mk.inj hmk).2]
      exact hk' rest
  outcome c := by
    match hrun : m c with
    | (.error e, c₁) =>
      rcases hm.outcome c with hfault | hout
      · rw [hrun] at hfault
        cases hfault
        rw [run_bind, hrun]
        exact Or.inl rfl
      · rw [hrun] at hout
        rw [run_bind, run_bind, hrun, hout]
        exact Or.inr rfl
    | (.ok a, c₁) =>
      rcases hm.outcome c with hfault | hout
      · rw [hrun] at hfault
        cases hfault
      · rw [hrun] at hout
        rw [run_bind, run_bind, hrun, hout]
        exact (hf a).outcome c₁

theorem Steady.ite {p : Prop} [Decidable p] {m' : Stateful (Connection δ) ε α}
    (hm : Steady fault m) (hm' : Steady fault m') : Steady fault (if p then m else m') := by
  split_ifs
  · exact hm
  · exact hm'

theorem Steady.each {γ : Type*} {g : γ → Stateful (Connection δ) ε PUnit}
    (hg : ∀ x, Steady fault (g x)) (l : List γ) : Steady fault (each g l) := by
  induction l with
  | nil => exact steady_pure fault _
  | cons x l ih => exact (hg x).bind fun _ => ih

theorem Steady.undone (hm : Steady fault m) : Steady fault (undone m) where
  faults_eq d := by
    have h := hm.faults_eq d
    rw [Stateful.undone]
    match hrun : m ⟨d, []⟩ with
    | (.ok a, c) =>
      rw [hrun] at h
      exact h
    | (.error e, c) =>
      rw [hrun] at h
      exact h
  answered d := by
    obtain ⟨k, hk⟩ := hm.answered d
    refine ⟨k, fun rest => ?_⟩
    rw [Stateful.undone, Stateful.undone, hk rest]
    match m ⟨d, []⟩ with
    | (.ok a, c) => rfl
    | (.error e, c) => rfl
  outcome c := by
    rcases hm.outcome c with h | h
    · refine Or.inl ?_
      rw [Stateful.undone]
      match hrun : m c with
      | (.ok a, c') =>
        rw [hrun] at h
        cases h
      | (.error e, c') =>
        rw [hrun] at h
        exact h
    · refine Or.inr ?_
      rw [Stateful.undone, Stateful.undone, h]
      match m c with
      | (.ok a, c') => rfl
      | (.error e, c') => rfl

theorem Steady.transaction (hm : Steady fault m) : Steady fault (transaction fault m) :=
  Steady.undone ((steady_access _ _).bind fun _ => hm.bind fun a => (steady_access _ _).bind fun _ =>
    steady_pure fault a)

/-! ### Checks -/

/-- A program that checks something: it only reads, one access after the other, and what it throws
satisfies `P`. -/
structure Checks (fault : ε) (P : ε → Prop) (m : Stateful (Connection δ) ε α) : Prop where
  readsOnly : ReadsOnly m
  steady : Steady fault m
  throws : Throws P m

section Checks

variable {P : ε → Prop} {b : β}

theorem checks_lift {x : Except ε α} (h : ∀ e, x = .error e → P e) :
    Checks fault P (lift x : Stateful (Connection δ) ε α) :=
  ⟨readsOnly_lift x, steady_lift fault x, throws_lift h⟩

theorem checks_pure (a : α) : Checks fault P (pure a : Stateful (Connection δ) ε α) :=
  ⟨readsOnly_pure a, steady_pure fault a, throws_pure a⟩

theorem checks_fail (h : P e) : Checks fault P (fail e : Stateful (Connection δ) ε α) :=
  ⟨readsOnly_fail e, steady_fail fault e, throws_fail h⟩

theorem checks_query (h : P fault) (g : δ → α) : Checks fault P (query fault g) :=
  ⟨readsOnly_query fault g, steady_access fault _, throws_query h g⟩

theorem Checks.bind (hm : Checks fault P m) (hf : ∀ a, Checks fault P (f a)) :
    Checks fault P (m >>= f) :=
  ⟨hm.readsOnly.bind fun a => (hf a).readsOnly, hm.steady.bind fun a => (hf a).steady,
    hm.throws.bind fun a => (hf a).throws⟩

theorem Checks.ite {p : Prop} [Decidable p] {m' : Stateful (Connection δ) ε α}
    (hm : Checks fault P m) (hm' : Checks fault P m') : Checks fault P (if p then m else m') :=
  ⟨hm.readsOnly.ite hm'.readsOnly, hm.steady.ite hm'.steady, hm.throws.ite hm'.throws⟩

theorem Checks.bind_ok (hm : Checks fault P m) (h : Ends (m >>= f) d (.ok b) d') :
    ∃ a, Ends m d (.ok a) d ∧ Ends (f a) d (.ok b) d' := hm.readsOnly.bind_ok h

/-- A check whose accesses are all answered. -/
theorem Checks.run (hm : Checks fault P m) (d : δ) : m ⟨d, []⟩ = ((m ⟨d, []⟩).1, ⟨d, []⟩) := by
  have hdata : (m ⟨d, []⟩).2.data = d := hm.readsOnly _ _ _ ⟨[], _, rfl⟩
  have h := hm.steady.eq_mk d
  rwa [hdata] at h

end Checks

/-! ### Runs whose accesses are all answered -/

theorem statement_run_ok {g : δ → Except ε δ} (h : g d = .ok d') :
    statement fault g ⟨d, []⟩ = (.ok ⟨⟩, ⟨d', []⟩) := by
  simp [statement, access, h, Except.map]

theorem statement_run_error {g : δ → Except ε δ} (h : g d = .error e) :
    statement fault g ⟨d, []⟩ = (.error e, ⟨d, []⟩) := by
  simp [statement, access, h, Except.map]

theorem transaction_run_ok (h : m ⟨d, []⟩ = (.ok a, ⟨d', []⟩)) :
    transaction fault m ⟨d, []⟩ = (.ok a, ⟨d', []⟩) := by
  rw [transaction, Stateful.undone, run_bind]
  simp [query, access, run_bind, h]
  rfl

theorem transaction_run_error (h : m ⟨d, []⟩ = (.error e, ⟨d', []⟩)) :
    transaction fault m ⟨d, []⟩ = (.error e, ⟨d, []⟩) := by
  rw [transaction, Stateful.undone, run_bind]
  simp [query, access, run_bind, h]

/-- After an answered part, every outcome of the rest is possible. -/
theorem Steady.ends_bind {b : Except ε β} {d₁ : δ} (hm : Steady fault m)
    (hrun : m ⟨d, []⟩ = (.ok a, ⟨d₁, []⟩)) (h : Ends (f a) d₁ b d') : Ends (m >>= f) d b d' := by
  obtain ⟨faults, faults', h⟩ := h
  obtain ⟨k, hk⟩ := hm.answered d
  refine ⟨List.replicate k false ++ faults, faults', ?_⟩
  rw [run_bind, hk, hrun]
  exact h

end Steady

end Stateful
