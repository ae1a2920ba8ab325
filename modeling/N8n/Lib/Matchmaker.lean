import Mathlib.Data.Set.Insert
import Mathlib.Data.List.Nodup
import Mathlib.Data.List.Perm.Subperm

/-!
# Matchmakers

A matchmaker pairs requests with offers.  A pairing is an attempt: the other side is asked, and the
attempt is given up, put off, or enters a task, of which the requester is told.  Requests and
attempts are numbered; `name c` is the name of the task of attempt `c`.

* `Matchmaker.Act`: the acts of a matchmaker, `Matchmaker.Acts`: several of them in a row;
* `Matchmaker.Kept`: what no act changes;
* `Matchmaker.Exclusive`: no two live attempts at one request;
* `Matchmaker.spent`: the offers used up, each once.
-/

universe t u v w

/-- How far an attempt has got. -/
inductive Matchmaker.Phase
  | asked
  | entered
  | confirmed
  | cancelled
  | closed
  deriving DecidableEq

structure Matchmaker.Request (κ : Type t) (ρ : Type u) where
  owner : κ
  id : ρ
  /-- An attempt at the request is under way or has succeeded. -/
  busy : Bool

structure Matchmaker.Attempt (ω : Type v) (τ : Type w) where
  offer : ω
  request : ℕ
  task : τ
  phase : Matchmaker.Phase
  /-- The requester has answered to the news of the task. -/
  answered : Bool

/-- The state of a matchmaker. -/
structure Matchmaker (κ : Type t) (ρ : Type u) (ω : Type v) (τ : Type w) where
  requests : ℕ → Matchmaker.Request κ ρ
  size : ℕ
  pending : List ℕ
  offers : List ω
  attempts : ℕ → Matchmaker.Attempt ω τ
  count : ℕ
  tasks : Set τ
  /-- The attempts that have entered their task, in their order. -/
  entered : List ℕ
  /-- The requests whose requester was told that the request expired or that its task is ready. -/
  told : Set ρ
  /-- The requests and tasks whose requester was told that the task is ready. -/
  announced : Set (κ × ρ × τ)

namespace Matchmaker

variable {κ : Type t} {ρ : Type u} {ω : Type v} {τ : Type w}

def setBusy (m : Matchmaker κ ρ ω τ) (r : ℕ) (busy : Bool) : Matchmaker κ ρ ω τ :=
  { m with requests := Function.update m.requests r { m.requests r with busy } }

def setPhase (m : Matchmaker κ ρ ω τ) (c : ℕ) (phase : Phase) : Matchmaker κ ρ ω τ :=
  { m with attempts := Function.update m.attempts c { m.attempts c with phase } }

def setAnswered (m : Matchmaker κ ρ ω τ) (c : ℕ) : Matchmaker κ ρ ω τ :=
  { m with attempts := Function.update m.attempts c { m.attempts c with answered := true } }

/-- Begins an attempt at request `r` with the offer `o`; the other `offers` stay. -/
def begin (m : Matchmaker κ ρ ω τ) (r : ℕ) (o : ω) (offers : List ω) (task : τ) :
    Matchmaker κ ρ ω τ :=
  { m with
    requests := Function.update m.requests r { m.requests r with busy := true }
    offers
    attempts := Function.update m.attempts m.count ⟨o, r, task, .asked, false⟩
    count := m.count + 1 }

/-- Enters the task of attempt `c`, which goes on to `phase`. -/
def enterTask (m : Matchmaker κ ρ ω τ) (c : ℕ) (phase : Phase) : Matchmaker κ ρ ω τ :=
  { m with
    attempts := Function.update m.attempts c { m.attempts c with phase }
    tasks := insert (m.attempts c).task m.tasks
    entered := m.entered ++ [c] }

/-- Gives attempt `c` up; its request can be paired again. -/
def giveUp (m : Matchmaker κ ρ ω τ) (c : ℕ) : Matchmaker κ ρ ω τ :=
  (m.setBusy (m.attempts c).request false).setPhase c .closed

/-- The owner of the request of an attempt. -/
def owner (m : Matchmaker κ ρ ω τ) (c : ℕ) : κ := (m.requests (m.attempts c).request).owner

/-- The id of the request of an attempt. -/
def requestId (m : Matchmaker κ ρ ω τ) (c : ℕ) : ρ := (m.requests (m.attempts c).request).id

/-- The kinds of acts that side conditions are about. -/
inductive Label
  | silent
  | defer (c : ℕ)
  | lose (c : ℕ)
  | answer (c : ℕ)

variable (name : ℕ → τ)

/-- The acts of a matchmaker. -/
inductive Act : Matchmaker κ ρ ω τ → Label → Matchmaker κ ρ ω τ → Prop
  | withdraw {m : Matchmaker κ ρ ω τ} {offers : List ω} (h : offers.Sublist m.offers) :
    Act m .silent { m with offers }
  | pair {m : Matchmaker κ ρ ω τ} {r : ℕ} {o : ω} {offers : List ω} (hr : r ∈ m.pending)
    (hbusy : (m.requests r).busy = false) (ho : m.offers.Perm (o :: offers)) :
    Act m .silent (m.begin r o offers (name m.count))
  | giveUp {m : Matchmaker κ ρ ω τ} {c : ℕ} (hc : c < m.count) (hp : (m.attempts c).phase = .asked) :
    Act m .silent (m.giveUp c)
  | defer {m : Matchmaker κ ρ ω τ} {c : ℕ} (hc : c < m.count) (hp : (m.attempts c).phase = .asked) :
    Act m (.defer c)
      { m.giveUp c with pending := m.pending ++ [(m.attempts c).request] }
  | enter {m : Matchmaker κ ρ ω τ} {c r : ℕ} {l₁ l₂ : List ℕ} {told : Set ρ}
    {announced : Set (κ × ρ × τ)} (hc : c < m.count) (hp : (m.attempts c).phase = .asked)
    (hpending : m.pending = l₁ ++ r :: l₂) (hid : (m.requests r).id = m.requestId c)
    (htold : told = m.told ∧ announced = m.announced ∨ told = insert (m.requestId c) m.told ∧
      announced = insert (m.owner c, m.requestId c, (m.attempts c).task) m.announced) :
    Act m .silent { m.enterTask c .entered with pending := l₁ ++ l₂, told, announced }
  | lose {m : Matchmaker κ ρ ω τ} {c : ℕ} (hc : c < m.count) (hp : (m.attempts c).phase = .asked) :
    Act m (.lose c) (m.enterTask c .closed)
  | answer {m : Matchmaker κ ρ ω τ} {c : ℕ} : Act m (.answer c) (m.setAnswered c)
  | confirm {m : Matchmaker κ ρ ω τ} {c : ℕ} (hc : c < m.count)
    (hp : (m.attempts c).phase = .entered) (ha : (m.attempts c).answered) :
    Act m .silent (m.setPhase c .confirmed)
  | cancel {m : Matchmaker κ ρ ω τ} {c : ℕ} (hc : c < m.count)
    (hp : (m.attempts c).phase ≠ .asked) (ho : (m.attempts c).phase ≠ .closed)
    (ht : (m.attempts c).task ∉ m.tasks) :
    Act m .silent (m.setPhase c .cancelled)
  | finish {m : Matchmaker κ ρ ω τ} {c : ℕ} (hc : c < m.count) (hp : (m.attempts c).phase ≠ .asked)
    (h : (m.attempts c).phase = .entered → (m.attempts c).task ∉ m.tasks) :
    Act m .silent (m.setPhase c .closed)
  | expire {m : Matchmaker κ ρ ω τ} {r : ℕ} {l₁ l₂ : List ℕ} {told : Set ρ}
    (hpending : m.pending = l₁ ++ r :: l₂)
    (htold : told = m.told ∨ told = insert (m.requests r).id m.told) :
    Act m .silent { m with pending := l₁ ++ l₂, told }
  | drop {m : Matchmaker κ ρ ω τ} {tasks : Set τ} (h : tasks ⊆ m.tasks) :
    Act m .silent { m with tasks }

/-- Acts in a row, each of which is allowed by `P`. -/
def Acts (P : Matchmaker κ ρ ω τ → Label → Prop) : Matchmaker κ ρ ω τ → Matchmaker κ ρ ω τ → Prop :=
  Relation.ReflTransGen fun m m' => ∃ a, P m a ∧ Act name m a m'

variable {P : Matchmaker κ ρ ω τ → Label → Prop} {a : Label} {arrived : List ω}

variable {name} in
theorem Act.acts {m m' : Matchmaker κ ρ ω τ} (h : Act name m a m') (hP : P m a) : Acts name P m m' :=
  Relation.ReflTransGen.single ⟨a, hP, h⟩

variable {name} in
theorem Acts.trans {m₁ m₂ m₃ : Matchmaker κ ρ ω τ} (h : Acts name P m₁ m₂)
    (h' : Acts name P m₂ m₃) : Acts name P m₁ m₃ :=
  Relation.ReflTransGen.trans h h'

theorem Acts.of_eq {m m' : Matchmaker κ ρ ω τ} (h : m' = m) : Acts name P m m' :=
  h ▸ Relation.ReflTransGen.refl

/-- A request comes in. -/
def request (m : Matchmaker κ ρ ω τ) (owner : κ) (id : ρ) : Matchmaker κ ρ ω τ :=
  { m with
    requests := Function.update m.requests m.size ⟨owner, id, false⟩
    size := m.size + 1
    pending := m.pending ++ [m.size] }

/-- A request is refused, and its requester told so. -/
def refuse (m : Matchmaker κ ρ ω τ) (id : ρ) : Matchmaker κ ρ ω τ := { m with told := insert id m.told }

/-- An offer comes in. -/
def offer (m : Matchmaker κ ρ ω τ) (o : ω) : Matchmaker κ ρ ω τ := { m with offers := m.offers ++ [o] }

variable (m : Matchmaker κ ρ ω τ)

theorem setPhase_attempts (c c' : ℕ) (phase : Phase) :
    (m.setPhase c phase).attempts c' =
      if c' = c then { m.attempts c with phase } else m.attempts c' :=
  Function.update_apply ..

theorem setAnswered_attempts (c c' : ℕ) :
    (m.setAnswered c).attempts c' =
      if c' = c then { m.attempts c with answered := true } else m.attempts c' :=
  Function.update_apply ..

theorem giveUp_attempts (c c' : ℕ) :
    (m.giveUp c).attempts c' =
      if c' = c then { m.attempts c with phase := .closed } else m.attempts c' :=
  Function.update_apply ..

theorem enterTask_attempts (c c' : ℕ) (phase : Phase) :
    (m.enterTask c phase).attempts c' =
      if c' = c then { m.attempts c with phase } else m.attempts c' :=
  Function.update_apply ..

theorem begin_attempts (r : ℕ) (o : ω) (offers : List ω) (task : τ)
    (c : ℕ) : (m.begin r o offers task).attempts c =
      if c = m.count then ⟨o, r, task, .asked, false⟩ else m.attempts c :=
  Function.update_apply ..

theorem giveUp_requests (c r : ℕ) :
    (m.giveUp c).requests r = if r = (m.attempts c).request then
      { m.requests (m.attempts c).request with busy := false } else m.requests r :=
  Function.update_apply ..

theorem begin_requests (r : ℕ) (o : ω) (offers : List ω) (task : τ)
    (r' : ℕ) : (m.begin r o offers task).requests r' =
      if r' = r then { m.requests r with busy := true } else m.requests r' :=
  Function.update_apply ..

theorem setBusy_ids (r r' : ℕ) (busy : Bool) :
    ((m.setBusy r busy).requests r').owner = (m.requests r').owner ∧
      ((m.setBusy r busy).requests r').id = (m.requests r').id := by
  by_cases h : r' = r
  · subst h
    simp [setBusy]
  · simp [setBusy, h]

theorem request_requests (owner : κ) (id : ρ) (r : ℕ) :
    (m.request owner id).requests r = if r = m.size then ⟨owner, id, false⟩ else m.requests r :=
  Function.update_apply ..

/-- What no act changes: the ids of the requests, and of an attempt its offer, request and task.
Attempts are only begun, and requesters only told. -/
structure Kept (m m' : Matchmaker κ ρ ω τ) : Prop where
  size : m'.size = m.size
  ids : ∀ r, (m'.requests r).owner = (m.requests r).owner ∧
    (m'.requests r).id = (m.requests r).id
  count_le : m.count ≤ m'.count
  offer : ∀ c < m.count, (m'.attempts c).offer = (m.attempts c).offer
  request : ∀ c < m.count, (m'.attempts c).request = (m.attempts c).request
  told : m.told ⊆ m'.told
  announced : m.announced ⊆ m'.announced

theorem Kept.refl : m.Kept m :=
  ⟨rfl, fun _ => ⟨rfl, rfl⟩, le_rfl, fun _ _ => rfl, fun _ _ => rfl, subset_rfl, subset_rfl⟩

theorem Kept.trans {m₁ m₂ m₃ : Matchmaker κ ρ ω τ} (h : m₁.Kept m₂) (h' : m₂.Kept m₃) :
    m₁.Kept m₃ where
  size := h'.size.trans h.size
  ids r := ⟨(h'.ids r).1.trans (h.ids r).1, (h'.ids r).2.trans (h.ids r).2⟩
  count_le := h.count_le.trans h'.count_le
  offer c hc := (h'.offer c (hc.trans_le h.count_le)).trans (h.offer c hc)
  request c hc := (h'.request c (hc.trans_le h.count_le)).trans (h.request c hc)
  told := h.told.trans h'.told
  announced := h.announced.trans h'.announced

variable {name} in
theorem Act.kept {m m' : Matchmaker κ ρ ω τ} {a : Label} (h : Act name m a m') : m.Kept m' := by
  -- an act that updates one attempt, or begins one, keeps the others
  have hupd : ∀ (c : ℕ) (x : Attempt ω τ), (c < m.count → x.offer = (m.attempts c).offer ∧
      x.request = (m.attempts c).request) → ∀ c' < m.count,
      (Function.update m.attempts c x c').offer = (m.attempts c').offer ∧
        (Function.update m.attempts c x c').request = (m.attempts c').request := by
    intro c x hx c' hc'
    rw [Function.update_apply]
    split_ifs with he
    · subst he
      exact hx hc'
    · exact ⟨rfl, rfl⟩
  cases h with
  | withdraw | drop =>
    exact ⟨rfl, fun _ => ⟨rfl, rfl⟩, le_rfl, fun _ _ => rfl, fun _ _ => rfl, subset_rfl, subset_rfl⟩
  | @pair r o =>
    have h := hupd m.count ⟨o, r, name m.count, .asked, false⟩ fun hlt => absurd hlt (lt_irrefl _)
    exact ⟨rfl, fun _ => setBusy_ids m r _ true, Nat.le_succ _, fun c hc => (h c hc).1,
      fun c hc => (h c hc).2, subset_rfl, subset_rfl⟩
  | @giveUp c | @defer c =>
    have h := hupd c { m.attempts c with phase := .closed } fun _ => ⟨rfl, rfl⟩
    exact ⟨rfl, fun _ => setBusy_ids m _ _ false, le_rfl, fun c hc => (h c hc).1,
      fun c hc => (h c hc).2, subset_rfl, subset_rfl⟩
  | @enter c _ _ _ told announced _ _ _ _ htold =>
    have h := hupd c { m.attempts c with phase := .entered } fun _ => ⟨rfl, rfl⟩
    refine ⟨rfl, fun _ => ⟨rfl, rfl⟩, le_rfl, fun c hc => (h c hc).1, fun c hc => (h c hc).2, ?_, ?_⟩
    · rcases htold with ⟨rfl, -⟩ | ⟨rfl, -⟩
      · exact subset_rfl
      · exact Set.subset_insert _ _
    · rcases htold with ⟨-, rfl⟩ | ⟨-, rfl⟩
      · exact subset_rfl
      · exact Set.subset_insert _ _
  | @lose c | @confirm c | @cancel c | @finish c =>
    have h := fun phase => hupd c { m.attempts c with phase } fun _ => ⟨rfl, rfl⟩
    exact ⟨rfl, fun _ => ⟨rfl, rfl⟩, le_rfl, fun c hc => (h _ c hc).1, fun c hc => (h _ c hc).2, subset_rfl,
      subset_rfl⟩
  | @answer c =>
    have h := hupd c { m.attempts c with answered := true } fun _ => ⟨rfl, rfl⟩
    exact ⟨rfl, fun _ => ⟨rfl, rfl⟩, le_rfl, fun c hc => (h c hc).1, fun c hc => (h c hc).2, subset_rfl,
      subset_rfl⟩
  | expire _ htold =>
    refine ⟨rfl, fun _ => ⟨rfl, rfl⟩, le_rfl, fun _ _ => rfl, fun _ _ => rfl, ?_, subset_rfl⟩
    rcases htold with rfl | rfl
    · exact subset_rfl
    · exact Set.subset_insert _ _

variable {name} in
theorem Acts.kept {P : Matchmaker κ ρ ω τ → Label → Prop} {m m' : Matchmaker κ ρ ω τ}
    (h : Acts name P m m') : m.Kept m' := by
  induction h with
  | refl => exact Kept.refl m
  | tail _ hact ih =>
    obtain ⟨_, -, hact⟩ := hact
    exact ih.trans hact.kept

/-! ### Live attempts -/

/-- An attempt that is under way or has entered its task. -/
def Live (m : Matchmaker κ ρ ω τ) (c : ℕ) : Prop := (m.attempts c).phase ≠ .closed ∨ c ∈ m.entered

/-- Two live attempts are not at one request, and a request with a live attempt is busy. -/
structure Exclusive (m : Matchmaker κ ρ ω τ) : Prop where
  busy : ∀ c < m.count, m.Live c → (m.requests (m.attempts c).request).busy
  alone : ∀ c < m.count, ∀ c' < m.count, m.Live c → m.Live c' →
    (m.attempts c).request = (m.attempts c').request → c = c'
  asked : ∀ c, (m.attempts c).phase = .asked → c ∉ m.entered
  entered_lt : ∀ c ∈ m.entered, c < m.count
  entered_nodup : m.entered.Nodup
  pending_lt : ∀ r ∈ m.pending, r < m.size
  request_lt : ∀ c < m.count, (m.attempts c).request < m.size

namespace Exclusive

variable {m m' : Matchmaker κ ρ ω τ} {name}

/-- What begins no attempt, enters no task and frees no request. -/
theorem of_live (h : m.Exclusive) (hsize : m'.size = m.size) (hcount : m'.count = m.count)
    (hentered : m'.entered = m.entered) (hbusy : ∀ r, (m'.requests r).busy = (m.requests r).busy)
    (hreq : ∀ c, (m'.attempts c).request = (m.attempts c).request)
    (hasked : ∀ c, (m'.attempts c).phase = .asked → (m.attempts c).phase = .asked)
    (hlive : ∀ c, m'.Live c → m.Live c) (hpending : ∀ r ∈ m'.pending, r ∈ m.pending) :
    m'.Exclusive where
  busy c hc hl := by
    rw [hreq, hbusy]
    exact h.busy c (hcount ▸ hc) (hlive c hl)
  alone c hc c' hc' hl hl' he :=
    h.alone c (hcount ▸ hc) c' (hcount ▸ hc') (hlive c hl) (hlive c' hl') (by rwa [hreq, hreq] at he)
  asked c hp := by
    rw [hentered]
    exact h.asked c (hasked c hp)
  entered_lt c hc := by
    rw [hentered] at hc
    rw [hcount]
    exact h.entered_lt c hc
  entered_nodup := hentered ▸ h.entered_nodup
  pending_lt r hr := by
    rw [hsize]
    exact h.pending_lt r (hpending r hr)
  request_lt c hc := by
    rw [hreq, hsize]
    exact h.request_lt c (hcount ▸ hc)

/-- A live attempt goes on. -/
theorem setPhase {c : ℕ} {phase : Phase} (h : m.Exclusive) (hp : phase ≠ .asked)
    (hc : phase = .closed ∨ m.Live c) : (m.setPhase c phase).Exclusive := by
  refine h.of_live rfl rfl rfl (fun _ => rfl) (fun c' => ?_) (fun c' hc' => ?_) (fun c' hc' => ?_)
    (fun _ hr => hr)
  · rw [setPhase_attempts]
    split_ifs with he
    · rw [he]
    · rfl
  · rw [setPhase_attempts] at hc'
    split_ifs at hc' with he
    · exact absurd hc' hp
    · exact hc'
  · rw [Live, setPhase_attempts] at hc'
    split_ifs at hc' with he
    · subst he
      rcases hc with hover | hc
      · exact .inr (hc'.resolve_left fun hne => hne hover)
      · exact hc
    · exact hc'

/-- A new attempt at a request that is not busy. -/
theorem begin {r : ℕ} {o : ω} {offers : List ω} {task : τ} (h : m.Exclusive) (hr : r ∈ m.pending)
    (hbusy : (m.requests r).busy = false) : (m.begin r o offers task).Exclusive := by
  -- the attempts so far that are live are at other requests
  have hne : ∀ c < m.count, m.Live c → (m.attempts c).request ≠ r := by
    rintro c hc hl rfl
    rw [h.busy c hc hl] at hbusy
    cases hbusy
  have hold : ∀ c < m.count, (m.begin r o offers task).attempts c = m.attempts c :=
    fun c hc => by rw [begin_attempts, if_neg hc.ne]
  have hlive : ∀ c < m.count, (m.begin r o offers task).Live c → m.Live c :=
    fun c hc hl => by rwa [Live, hold c hc] at hl
  have hnew : (m.begin r o offers task).attempts m.count = ⟨o, r, task, .asked, false⟩ := by
    rw [begin_attempts, if_pos rfl]
  refine ⟨fun c hc hl => ?_, fun c hc c' hc' hl hl' he => ?_, fun c hp => ?_,
    fun c hc => Nat.lt_succ_of_lt (h.entered_lt c hc), h.entered_nodup, h.pending_lt,
    fun c hc => ?_⟩
  · rw [begin_requests]
    rcases Nat.lt_succ_iff_lt_or_eq.1 hc with hc | rfl
    · rw [hold c hc, if_neg (hne c hc (hlive c hc hl))]
      exact h.busy c hc (hlive c hc hl)
    · rw [hnew, if_pos rfl]
  · rcases Nat.lt_succ_iff_lt_or_eq.1 hc with hc | rfl <;>
      rcases Nat.lt_succ_iff_lt_or_eq.1 hc' with hc' | rfl
    · rw [hold c hc, hold c' hc'] at he
      exact h.alone c hc c' hc' (hlive c hc hl) (hlive c' hc' hl') he
    · rw [hold c hc, hnew] at he
      exact absurd he (hne c hc (hlive c hc hl))
    · rw [hnew, hold c' hc'] at he
      exact absurd he.symm (hne c' hc' (hlive c' hc' hl'))
    · rfl
  · rw [begin_attempts] at hp
    split_ifs at hp with hc
    · exact fun hmem => (h.entered_lt c hmem).ne hc
    · exact h.asked c hp
  · rcases Nat.lt_succ_iff_lt_or_eq.1 hc with hc | rfl
    · rw [hold c hc]
      exact h.request_lt c hc
    · rw [hnew]
      exact h.pending_lt r hr

/-- An attempt without a task is given up. -/
theorem giveUp {c : ℕ} (h : m.Exclusive) (hc : c < m.count)
    (hp : (m.attempts c).phase = .asked) : (m.giveUp c).Exclusive := by
  have hlive : m.Live c := .inl (by rw [hp]; simp)
  have hreq : ∀ c', ((m.giveUp c).attempts c').request = (m.attempts c').request := fun c' => by
    rw [giveUp_attempts]
    split_ifs with he
    · rw [he]
    · rfl
  -- the attempts that stay live were live before and are other ones
  have hlive' : ∀ c', (m.giveUp c).Live c' → c' ≠ c ∧ m.Live c' := by
    intro c' hl
    rw [Live, giveUp_attempts] at hl
    split_ifs at hl with he
    · subst he
      rcases hl with hl | hl
      · exact absurd rfl hl
      · exact absurd hl (h.asked c' hp)
    · exact ⟨he, hl⟩
  refine ⟨fun c' hc' hl => ?_, fun c₁ h₁ c₂ h₂ hl₁ hl₂ he => ?_, fun c' hp' => ?_, h.entered_lt,
    h.entered_nodup, h.pending_lt, fun c' hc' => ?_⟩
  · obtain ⟨hne, hl⟩ := hlive' c' hl
    rw [giveUp_requests, hreq, if_neg fun he => hne (h.alone c' hc' c hc hl hlive he)]
    exact h.busy c' hc' hl
  · rw [hreq, hreq] at he
    exact h.alone c₁ h₁ c₂ h₂ (hlive' c₁ hl₁).2 (hlive' c₂ hl₂).2 he
  · rw [giveUp_attempts] at hp'
    split_ifs at hp' with he
    exact h.asked c' hp'
  · rw [hreq]
    exact h.request_lt c' hc'

/-- An attempt enters its task. -/
theorem enterTask {c : ℕ} {phase : Phase} (h : m.Exclusive) (hc : c < m.count)
    (hp : (m.attempts c).phase = .asked) (hphase : phase ≠ .asked) :
    (m.enterTask c phase).Exclusive := by
  have hlive : m.Live c := .inl (by rw [hp]; simp)
  have hreq : ∀ c', ((m.enterTask c phase).attempts c').request = (m.attempts c').request :=
    fun c' => by
      rw [enterTask_attempts]
      split_ifs with he
      · rw [he]
      · rfl
  have hlive' : ∀ c', (m.enterTask c phase).Live c' → m.Live c' := by
    intro c' hl
    by_cases he : c' = c
    · exact he ▸ hlive
    · rw [Live, enterTask_attempts, if_neg he] at hl
      rcases hl with hl | hl
      · exact .inl hl
      · exact .inr ((List.mem_append.1 hl).resolve_right fun hmem => he (List.mem_singleton.1 hmem))
  refine ⟨fun c' hc' hl => ?_, fun c₁ h₁ c₂ h₂ hl₁ hl₂ he => ?_, fun c' hp' => ?_, fun c' hc' => ?_,
    ?_, h.pending_lt, fun c' hc' => ?_⟩
  · rw [hreq]
    exact h.busy c' hc' (hlive' c' hl)
  · rw [hreq, hreq] at he
    exact h.alone c₁ h₁ c₂ h₂ (hlive' c₁ hl₁) (hlive' c₂ hl₂) he
  · rw [enterTask_attempts] at hp'
    split_ifs at hp' with he
    · exact absurd hp' hphase
    · intro hmem
      rcases List.mem_append.1 hmem with hmem | hmem
      · exact h.asked c' hp' hmem
      · exact he (List.mem_singleton.1 hmem)
  · rcases List.mem_append.1 hc' with hc' | hc'
    · exact h.entered_lt c' hc'
    · exact List.mem_singleton.1 hc' ▸ hc
  · exact List.Nodup.append h.entered_nodup (List.nodup_singleton c) (by simpa using h.asked c hp)
  · rw [hreq]
    exact h.request_lt c' hc'

/-- The pending requests and the histories do not matter. -/
theorem with_pending {pending : List ℕ} {told : Set ρ} {announced : Set (κ × ρ × τ)} (h : m.Exclusive)
    (hpending : ∀ r ∈ pending, r < m.size) : Exclusive { m with pending, told, announced } where
  busy := h.busy
  alone := h.alone
  asked := h.asked
  entered_lt := h.entered_lt
  entered_nodup := h.entered_nodup
  pending_lt := hpending
  request_lt := h.request_lt

/-- **Every act keeps live attempts apart.** -/
theorem act {a : Label} (h : m.Exclusive) (hact : Act name m a m') : m'.Exclusive := by
  have hlt : ∀ {l₁ l₂ : List ℕ} {r : ℕ}, m.pending = l₁ ++ r :: l₂ →
      ∀ r' ∈ l₁ ++ l₂, r' < m.size := by
    intro l₁ l₂ r hpending r' hr'
    refine h.pending_lt r' (hpending ▸ ?_)
    rcases List.mem_append.1 hr' with hr' | hr' <;> simp [hr']
  cases hact with
  | withdraw => exact h.of_live rfl rfl rfl (by simp) (by simp) (by simp) (by simp [Live]) (by simp)
  | pair hr hbusy => exact h.begin hr hbusy
  | giveUp hc hp => exact h.giveUp hc hp
  | @defer c hc hp =>
    refine (h.giveUp hc hp).with_pending fun r hr => ?_
    rcases List.mem_append.1 hr with hr | hr
    · exact h.pending_lt r hr
    · exact List.mem_singleton.1 hr ▸ h.request_lt c hc
  | enter hc hp hpending => exact (h.enterTask hc hp (by simp)).with_pending (hlt hpending)
  | lose hc hp => exact h.enterTask hc hp (by simp)
  | @answer c =>
    have hattempts : ∀ c', ((m.setAnswered c).attempts c').request = (m.attempts c').request ∧
        ((m.setAnswered c).attempts c').phase = (m.attempts c').phase := by
      intro c'
      rw [setAnswered_attempts]
      split_ifs with he
      · rw [he]
        exact ⟨rfl, rfl⟩
      · exact ⟨rfl, rfl⟩
    refine h.of_live rfl rfl rfl (fun _ => rfl) (fun c' => (hattempts c').1) (fun c' hp => ?_)
      (fun c' hl => ?_) (fun _ hr => hr)
    · rwa [(hattempts c').2] at hp
    · rwa [Live, (hattempts c').2] at hl
  | confirm hc hp => exact h.setPhase (by simp) (.inr (.inl (by rw [hp]; simp)))
  | cancel hc hp ho => exact h.setPhase (by simp) (.inr (.inl ho))
  | finish hc hp => exact h.setPhase (by simp) (.inl rfl)
  | expire hpending => exact h.with_pending (hlt hpending)
  | drop => exact h.of_live rfl rfl rfl (by simp) (by simp) (by simp) (by simp [Live]) (by simp)

theorem acts {P : Matchmaker κ ρ ω τ → Label → Prop} (h : m.Exclusive) (hacts : Acts name P m m') :
    m'.Exclusive := by
  induction hacts with
  | refl => exact h
  | tail _ hact ih =>
    obtain ⟨_, -, hact⟩ := hact
    exact ih.act hact

/-- A request comes in. -/
theorem request (h : m.Exclusive) (owner : κ) (id : ρ) : (m.request owner id).Exclusive := by
  have hreq : ∀ r < m.size, (m.request owner id).requests r = m.requests r := fun r hr => by
    rw [request_requests, if_neg hr.ne]
  refine ⟨fun c hc hl => ?_, h.alone, h.asked, h.entered_lt, h.entered_nodup, fun r hr => ?_,
    fun c hc => Nat.lt_succ_of_lt (h.request_lt c hc)⟩
  · rw [show ((m.request owner id).attempts c).request = (m.attempts c).request from rfl,
      hreq _ (h.request_lt c hc)]
    exact h.busy c hc hl
  · rcases List.mem_append.1 hr with hr | hr
    · exact Nat.lt_succ_of_lt (h.pending_lt r hr)
    · rw [List.mem_singleton.1 hr]
      exact Nat.lt_succ_self _

/-- A request is refused. -/
theorem refuse (h : m.Exclusive) (id : ρ) : (m.refuse id).Exclusive := h.with_pending h.pending_lt

/-- An offer comes in. -/
theorem offer (h : m.Exclusive) (o : ω) : (m.offer o).Exclusive :=
  ⟨h.busy, h.alone, h.asked, h.entered_lt, h.entered_nodup, h.pending_lt, h.request_lt⟩

end Exclusive

/-! ### The ids of the requests -/

/-- The ids of the requests that came in. -/
def ids (m : Matchmaker κ ρ ω τ) : List ρ := (List.range m.size).map fun r => (m.requests r).id

theorem Kept.ids_eq {m m' : Matchmaker κ ρ ω τ} (h : m.Kept m') : m'.ids = m.ids := by
  rw [Matchmaker.ids, Matchmaker.ids, h.size]
  exact List.map_congr_left fun r _ => (h.ids r).2

theorem ids_request (owner : κ) (id : ρ) : (m.request owner id).ids = m.ids ++ [id] := by
  have hold : ∀ r ∈ List.range m.size,
      ((m.request owner id).requests r).id = (m.requests r).id := fun r hr => by
    rw [request_requests, if_neg (List.mem_range.1 hr).ne]
  have hnew : ((m.request owner id).requests m.size).id = id := by
    rw [request_requests, if_pos rfl]
  change (List.range (m.size + 1)).map _ = _
  rw [List.range_succ, List.map_append, List.map_singleton, hnew, List.map_congr_left hold]
  rfl

/-- **Live attempts and requests**: of the requests with an id there are as many as there are live
attempts at them. -/
theorem Exclusive.length_le_count [DecidableEq ρ] {m : Matchmaker κ ρ ω τ} (h : m.Exclusive)
    {l : List ℕ} {id : ρ} (hl : l.Nodup)
    (hlive : ∀ c ∈ l, c < m.count ∧ m.Live c ∧ m.requestId c = id) : l.length ≤ m.ids.count id := by
  have hnodup : (l.map fun c => (m.attempts c).request).Nodup :=
    hl.map_on fun c hc c' hc' he => h.alone c (hlive c hc).1 c' (hlive c' hc').1 (hlive c hc).2.1
      (hlive c' hc').2.1 he
  have hsub : l.map (fun c => (m.attempts c).request) ⊆
      (List.range m.size).filter fun r => (m.requests r).id = id := by
    intro r hr
    obtain ⟨c, hc, rfl⟩ := List.mem_map.1 hr
    exact List.mem_filter.2 ⟨List.mem_range.2 (h.request_lt c (hlive c hc).1),
      decide_eq_true (hlive c hc).2.2⟩
  calc l.length = (l.map fun c => (m.attempts c).request).length := (List.length_map _).symm
    _ ≤ ((List.range m.size).filter fun r => (m.requests r).id = id).length :=
      (List.subperm_of_subset hnodup hsub).length_le
    _ = m.ids.count id := by
      rw [ids, List.count, List.countP_map, List.countP_eq_length_filter]
      rfl

/-! ### Offers -/

/-- The offers that the attempts so far were begun with. -/
def spent (m : Matchmaker κ ρ ω τ) : List ω := (List.range m.count).map fun c => (m.attempts c).offer

theorem spent_eq {m m' : Matchmaker κ ρ ω τ} (hcount : m'.count = m.count)
    (hoffer : ∀ c < m.count, (m'.attempts c).offer = (m.attempts c).offer) :
    m'.spent = m.spent := by
  rw [spent, spent, hcount]
  exact List.map_congr_left fun c hc => hoffer c (List.mem_range.1 hc)

theorem spent_begin (r : ℕ) (o : ω) (offers : List ω) (task : τ) :
    (m.begin r o offers task).spent = m.spent ++ [o] := by
  have hold : ∀ c ∈ List.range m.count,
      ((m.begin r o offers task).attempts c).offer = (m.attempts c).offer := fun c hc => by
    rw [begin_attempts, if_neg (List.mem_range.1 hc).ne]
  have hnew : ((m.begin r o offers task).attempts m.count).offer = o := by
    rw [begin_attempts, if_pos rfl]
  change (List.range (m.count + 1)).map _ = _
  rw [List.range_succ, List.map_append, List.map_singleton, hnew, List.map_congr_left hold]
  rfl

variable {name} in
/-- **Each offer is spent once**: the offers spent and those that are left are among those that
came in. -/
theorem Act.spent_subperm {m m' : Matchmaker κ ρ ω τ} (hact : Act name m a m')
    (h : (m.spent ++ m.offers).Subperm arrived) : (m'.spent ++ m'.offers).Subperm arrived := by
  have hkept := hact.kept
  -- all but two acts leave the offers alone and begin nothing
  have hsame : m'.count = m.count → m'.offers = m.offers →
      (m'.spent ++ m'.offers).Subperm arrived :=
    fun hcount hoffers => by rwa [spent_eq hcount hkept.offer, hoffers]
  cases hact with
  | withdraw hsub => exact ((hsub.append_left _).subperm).trans h
  | @pair r o offers _ _ ho =>
    rw [spent_begin, List.append_assoc]
    exact ((ho.append_left m.spent).symm.subperm).trans h
  | _ => exact hsame rfl rfl

variable {name} in
theorem Acts.spent_subperm {m m' : Matchmaker κ ρ ω τ} (hacts : Acts name P m m')
    (h : (m.spent ++ m.offers).Subperm arrived) : (m'.spent ++ m'.offers).Subperm arrived := by
  induction hacts with
  | refl => exact h
  | tail _ hact ih =>
    obtain ⟨_, -, hact⟩ := hact
    exact hact.spent_subperm ih

end Matchmaker
