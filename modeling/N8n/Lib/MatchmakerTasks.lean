import N8n.Lib.Matchmaker

/-!
# The tasks of a matchmaker

* `Matchmaker.Accounted`: a task that is left when its attempt is over was announced;
* `Matchmaker.Accounted.act`: every act keeps this, but one that enters a task for a request that
  is no longer pending, and an answer to a task that was not announced;
* `Matchmaker.Owned`: every task is that of an attempt that has entered it.
-/

universe t u v w

namespace Matchmaker

variable {κ : Type t} {ρ : Type u} {ω : Type v} {τ : Type w} {name : ℕ → τ}

/-- The requester of the attempt was told that its task is ready. -/
def Announced (m : Matchmaker κ ρ ω τ) (c : ℕ) : Prop :=
  (m.owner c, m.requestId c, (m.attempts c).task) ∈ m.announced

/-- The tasks are those of attempts that have entered them, and those of confirmed attempts and of
attempts that are over were announced. -/
structure Accounted (name : ℕ → τ) (m : Matchmaker κ ρ ω τ) : Prop where
  task : ∀ c < m.count, (m.attempts c).task = name c
  absent : ∀ c, name c ∈ m.tasks → c < m.count ∧ (m.attempts c).phase ≠ .asked ∧
    (m.attempts c).phase ≠ .cancelled
  answered : ∀ c < m.count, (m.attempts c).answered → m.Announced c
  confirmed : ∀ c < m.count, (m.attempts c).phase = .confirmed → m.Announced c
  closed : ∀ c < m.count, (m.attempts c).phase = .closed → name c ∈ m.tasks → m.Announced c

namespace Accounted

variable {m m' : Matchmaker κ ρ ω τ}

theorem announced_mono {c : ℕ} (hkept : m.Kept m') (hc : c < m.count)
    (htask : (m'.attempts c).task = (m.attempts c).task) (h : m.Announced c) : m'.Announced c := by
  have hids : m'.owner c = m.owner c ∧ m'.requestId c = m.requestId c := by
    rw [owner, requestId, (hkept.ids _).1, (hkept.ids _).2, hkept.request c hc]
    exact ⟨rfl, rfl⟩
  rw [Announced, hids.1, hids.2, htask]
  exact hkept.announced h

/-- What begins no attempt and changes an attempt only as it may be changed. -/
theorem of_attempts (h : m.Accounted name) (hkept : m.Kept m') (hcount : m'.count = m.count)
    (htasks : m'.tasks ⊆ m.tasks) (htask : ∀ c, (m'.attempts c).task = (m.attempts c).task)
    (hanswered : ∀ c < m.count, (m'.attempts c).answered → m.Announced c)
    (hphase : ∀ c < m.count, (m'.attempts c).phase = (m.attempts c).phase ∨
      ((m'.attempts c).phase = .confirmed ∧ m.Announced c) ∨
      ((m'.attempts c).phase = .cancelled ∧ name c ∉ m'.tasks) ∨
      ((m'.attempts c).phase = .closed ∧ (name c ∈ m'.tasks → m.Announced c))) :
    m'.Accounted name where
  task c hc := by
    rw [hcount] at hc
    rw [htask, h.task c hc]
  absent c hc := by
    obtain ⟨hlt, hasked, hcancelled⟩ := h.absent c (htasks hc)
    refine ⟨hcount ▸ hlt, ?_⟩
    rcases hphase c hlt with hp | ⟨hp, -⟩ | ⟨-, hnot⟩ | ⟨hp, -⟩
    · rw [hp]
      exact ⟨hasked, hcancelled⟩
    · simp [hp]
    · exact absurd hc hnot
    · simp [hp]
  answered c hc ha := by
    rw [hcount] at hc
    exact announced_mono hkept hc (htask c) (hanswered c hc ha)
  confirmed c hc hp' := by
    rw [hcount] at hc
    refine announced_mono hkept hc (htask c) ?_
    rcases hphase c hc with hp | ⟨-, ha⟩ | ⟨hp, -⟩ | ⟨hp, -⟩
    · exact h.confirmed c hc (hp ▸ hp')
    · exact ha
    · rw [hp] at hp'
      cases hp'
    · rw [hp] at hp'
      cases hp'
  closed c hc hp' hmem := by
    rw [hcount] at hc
    refine announced_mono hkept hc (htask c) ?_
    rcases hphase c hc with hp | ⟨-, ha⟩ | ⟨hp, -⟩ | ⟨-, ha⟩
    · exact h.closed c hc (hp ▸ hp') (htasks hmem)
    · exact ha
    · rw [hp] at hp'
      cases hp'
    · exact ha hmem

/-- One attempt goes on to another phase. -/
theorem setPhase {c : ℕ} {phase : Phase} (h : m.Accounted name)
    (hphase : c < m.count → (phase = .confirmed ∧ m.Announced c) ∨
      (phase = .cancelled ∧ name c ∉ m.tasks) ∨
      (phase = .closed ∧ (name c ∈ m.tasks → m.Announced c))) :
    (m.setPhase c phase).Accounted name := by
  have hattempts : ∀ c', ((m.setPhase c phase).attempts c').task = (m.attempts c').task ∧
      ((m.setPhase c phase).attempts c').answered = (m.attempts c').answered ∧
      ((m.setPhase c phase).attempts c').request = (m.attempts c').request ∧
      ((m.setPhase c phase).attempts c').offer = (m.attempts c').offer := by
    intro c'
    rw [setPhase_attempts]
    split_ifs with he
    · rw [he]
      exact ⟨rfl, rfl, rfl, rfl⟩
    · exact ⟨rfl, rfl, rfl, rfl⟩
  have hkept : m.Kept (m.setPhase c phase) :=
    ⟨rfl, fun _ => ⟨rfl, rfl⟩, le_rfl, fun c' _ => (hattempts c').2.2.2, fun c' _ => (hattempts c').2.2.1,
      subset_rfl, subset_rfl⟩
  refine h.of_attempts hkept rfl subset_rfl (fun c' => (hattempts c').1) (fun c' hc' ha => ?_)
    fun c' hc' => ?_
  · rw [(hattempts c').2.1] at ha
    exact h.answered c' hc' ha
  · rw [setPhase_attempts]
    split_ifs with he
    · subst he
      exact .inr (hphase hc')
    · exact .inl rfl

/-- An attempt enters its task, and its requester may be told. -/
theorem enterTask {c : ℕ} {pending : List ℕ} {told : Set ρ} {announced : Set (κ × ρ × τ)}
    (hname : Function.Injective name) (h : m.Accounted name) (hc : c < m.count)
    (hp : (m.attempts c).phase = .asked) (hannounced : m.announced ⊆ announced) :
    Accounted name { m.enterTask c .entered with pending, told, announced } := by
  have hother : ∀ c' ≠ c, (m.enterTask c .entered).attempts c' = m.attempts c' := fun c' hne => by
    rw [enterTask_attempts, if_neg hne]
  have hself : (m.enterTask c .entered).attempts c = { m.attempts c with phase := .entered } := by
    rw [enterTask_attempts, if_pos rfl]
  -- what was announced before still is
  have hmono : ∀ c', m.Announced c' →
      Announced { m.enterTask c .entered with pending, told, announced } c' := by
    intro c' ha
    refine hannounced ?_
    change ((m.requests ((m.enterTask c .entered).attempts c').request).owner,
      (m.requests ((m.enterTask c .entered).attempts c').request).id,
      ((m.enterTask c .entered).attempts c').task) ∈ m.announced
    by_cases hne : c' = c
    · subst hne
      rw [hself]
      exact ha
    · rw [hother c' hne]
      exact ha
  refine ⟨fun c' hc' => ?_, fun c' hmem => ?_, fun c' hc' ha => hmono c' ?_,
    fun c' hc' hp' => hmono c' ?_, fun c' hc' hp' hmem => hmono c' ?_⟩
  · change ((m.enterTask c .entered).attempts c').task = name c'
    by_cases hne : c' = c
    · subst hne
      rw [hself]
      exact h.task c' hc'
    · rw [hother c' hne]
      exact h.task c' hc'
  · change c' < m.count ∧ ((m.enterTask c .entered).attempts c').phase ≠ .asked ∧
      ((m.enterTask c .entered).attempts c').phase ≠ .cancelled
    by_cases hne : c' = c
    · subst hne
      rw [hself]
      exact ⟨hc, by simp, by simp⟩
    · rw [hother c' hne]
      refine h.absent c' (hmem.resolve_left fun he => hne (hname ?_))
      rw [he, h.task c hc]
  · change ((m.enterTask c .entered).attempts c').answered = true at ha
    by_cases hne : c' = c
    · subst hne
      rw [hself] at ha
      exact h.answered c' hc' ha
    · rw [hother c' hne] at ha
      exact h.answered c' hc' ha
  · change ((m.enterTask c .entered).attempts c').phase = .confirmed at hp'
    by_cases hne : c' = c
    · subst hne
      rw [hself] at hp'
      cases hp'
    · rw [hother c' hne] at hp'
      exact h.confirmed c' hc' hp'
  · change ((m.enterTask c .entered).attempts c').phase = .closed at hp'
    by_cases hne : c' = c
    · subst hne
      rw [hself] at hp'
      cases hp'
    · rw [hother c' hne] at hp'
      refine h.closed c' hc' hp' (hmem.resolve_left fun he => hne (hname ?_))
      rw [he, h.task c hc]

/-- A new attempt is begun. -/
theorem begin {r : ℕ} {o : ω} {offers : List ω} (h : m.Accounted name) :
    (m.begin r o offers (name m.count)).Accounted name := by
  have hold : ∀ c < m.count, (m.begin r o offers (name m.count)).attempts c = m.attempts c :=
    fun c hc => by rw [begin_attempts, if_neg hc.ne]
  have hnew : (m.begin r o offers (name m.count)).attempts m.count =
      ⟨o, r, name m.count, .asked, false⟩ := by rw [begin_attempts, if_pos rfl]
  have hmono : ∀ c < m.count, m.Announced c →
      (m.begin r o offers (name m.count)).Announced c := by
    intro c hc ha
    have hids := setBusy_ids m r (m.attempts c).request true
    change (((m.setBusy r true).requests ((m.begin r o offers (name m.count)).attempts c).request).owner,
      ((m.setBusy r true).requests ((m.begin r o offers (name m.count)).attempts c).request).id,
      ((m.begin r o offers (name m.count)).attempts c).task) ∈ m.announced
    rw [hold c hc, hids.1, hids.2]
    exact ha
  refine ⟨fun c hc => ?_, fun c hmem => ?_, fun c hc ha => ?_, fun c hc hp => ?_,
    fun c hc hp hmem => ?_⟩
  · rcases Nat.lt_succ_iff_lt_or_eq.1 hc with hc | rfl
    · rw [hold c hc, h.task c hc]
    · rw [hnew]
  · obtain ⟨hc, hp⟩ := h.absent c hmem
    rw [hold c hc]
    exact ⟨Nat.lt_succ_of_lt hc, hp⟩
  · rcases Nat.lt_succ_iff_lt_or_eq.1 hc with hc | rfl
    · exact hmono c hc (h.answered c hc (hold c hc ▸ ha))
    · rw [hnew] at ha
      cases ha
  · rcases Nat.lt_succ_iff_lt_or_eq.1 hc with hc | rfl
    · exact hmono c hc (h.confirmed c hc (hold c hc ▸ hp))
    · rw [hnew] at hp
      cases hp
  · rcases Nat.lt_succ_iff_lt_or_eq.1 hc with hc | rfl
    · exact hmono c hc (h.closed c hc (hold c hc ▸ hp) hmem)
    · rw [hnew] at hp
      cases hp

/-- **Every act but two keeps the tasks accounted for**: no act may enter a task for a request that
is no longer pending, and none may answer for a task that was not announced. -/
theorem act {a : Label} (hname : Function.Injective name) (h : m.Accounted name)
    (hact : Act name m a m') (hlose : ∀ c, a ≠ .lose c)
    (hanswer : ∀ c, a = .answer c → c < m.count → m.Announced c) : m'.Accounted name := by
  have hkept := hact.kept
  have hsame : m'.count = m.count → m'.tasks ⊆ m.tasks → m'.attempts = m.attempts →
      m'.Accounted name := fun hcount htasks hattempts =>
    h.of_attempts hkept hcount htasks (fun c => by rw [hattempts])
      (fun c hc ha => h.answered c hc (by rwa [hattempts] at ha))
      fun c _ => .inl (by rw [hattempts])
  cases hact with
  | withdraw => exact hsame rfl subset_rfl rfl
  | pair => exact h.begin
  | @giveUp c hc hp | @defer c hc hp =>
    have habsent : name c ∉ m.tasks := fun hmem => (h.absent c hmem).2.1 hp
    have hgiven := h.setPhase (c := c) fun _ => .inr (.inr ⟨rfl, fun hmem => absurd hmem habsent⟩)
    exact hgiven.of_attempts ⟨rfl, fun _ => setBusy_ids m _ _ false, le_rfl, fun _ _ => rfl,
      fun _ _ => rfl, subset_rfl, subset_rfl⟩ rfl subset_rfl (fun _ => rfl)
      (fun c hc ha => hgiven.answered c hc ha) fun c _ => .inl rfl
  | enter hc hp _ _ htold =>
    refine h.enterTask hname hc hp ?_
    rcases htold with ⟨-, rfl⟩ | ⟨-, rfl⟩
    · exact subset_rfl
    · exact Set.subset_insert _ _
  | lose => exact absurd rfl (hlose _)
  | @answer c =>
    refine h.of_attempts hkept rfl subset_rfl (fun c' => ?_) (fun c' hc' ha => ?_) fun c' _ => .inl ?_
    · rw [setAnswered_attempts]
      split_ifs with he
      · rw [he]
      · rfl
    · by_cases he : c' = c
      · exact he ▸ hanswer c rfl (he ▸ hc')
      · rw [setAnswered_attempts, if_neg he] at ha
        exact h.answered c' hc' ha
    · rw [setAnswered_attempts]
      split_ifs with he
      · rw [he]
      · rfl
  | @confirm c hc hp ha => exact h.setPhase fun _ => .inl ⟨rfl, h.answered c hc ha⟩
  | @cancel c hc hp ho ht => exact h.setPhase fun hc => .inr (.inl ⟨rfl, h.task c hc ▸ ht⟩)
  | @finish c hc hp hentered =>
    refine h.setPhase fun hc => .inr (.inr ⟨rfl, fun hmem => ?_⟩)
    cases hphase : (m.attempts c).phase with
    | asked => exact absurd hphase hp
    | entered => exact absurd (h.task c hc ▸ hmem) (hentered hphase)
    | confirmed => exact h.confirmed c hc hphase
    | cancelled => exact absurd hphase (h.absent c hmem).2.2
    | closed => exact h.closed c hc hphase hmem
  | expire => exact hsame rfl subset_rfl rfl
  | drop hsub => exact hsame rfl hsub rfl

theorem acts {P : Matchmaker κ ρ ω τ → Label → Prop} (hname : Function.Injective name)
    (h : m.Accounted name) (hP : ∀ m₁ c, ¬ P m₁ (.lose c))
    (hP' : ∀ m₁ c, P m₁ (.answer c) → c < m₁.count → m₁.Announced c) (hacts : Acts name P m m') :
    m'.Accounted name := by
  induction hacts with
  | refl => exact h
  | tail _ hact ih =>
    obtain ⟨a, hPa, hact⟩ := hact
    exact ih.act hname hact (fun c hc => hP _ c (hc ▸ hPa)) fun c hc => hP' _ c (hc ▸ hPa)

/-- A request comes in. -/
theorem request (h : m.Accounted name) (owner : κ) (id : ρ)
    (hlt : ∀ c < m.count, (m.attempts c).request < m.size) :
    (m.request owner id).Accounted name := by
  have hmono : ∀ c < m.count, m.Announced c → (m.request owner id).Announced c := by
    intro c hc ha
    change (((m.request owner id).requests (m.attempts c).request).owner,
      ((m.request owner id).requests (m.attempts c).request).id, (m.attempts c).task) ∈ m.announced
    rw [request_requests, if_neg (hlt c hc).ne]
    exact ha
  exact ⟨h.task, h.absent, fun c hc ha => hmono c hc (h.answered c hc ha),
    fun c hc hp => hmono c hc (h.confirmed c hc hp),
    fun c hc hp hmem => hmono c hc (h.closed c hc hp hmem)⟩

/-- A request is refused. -/
theorem refuse (h : m.Accounted name) (id : ρ) : (m.refuse id).Accounted name :=
  ⟨h.task, h.absent, h.answered, h.confirmed, h.closed⟩

/-- An offer comes in. -/
theorem offer (h : m.Accounted name) (o : ω) : (m.offer o).Accounted name :=
  ⟨h.task, h.absent, h.answered, h.confirmed, h.closed⟩

end Accounted

/-! ### Whose the tasks are -/

/-- The task of an attempt has the name of the attempt, and the tasks are those of attempts that
have entered them. -/
structure Owned (name : ℕ → τ) (m : Matchmaker κ ρ ω τ) : Prop where
  task : ∀ c < m.count, (m.attempts c).task = name c
  entered : ∀ t ∈ m.tasks, ∃ c ∈ m.entered, name c = t

/-- The tasks that come in are those of attempts that had entered none. -/
structure Enters (name : ℕ → τ) (m m' : Matchmaker κ ρ ω τ) : Prop where
  entered : m.entered ⊆ m'.entered
  tasks : ∀ t ∈ m'.tasks, t ∈ m.tasks ∨ ∃ c, c ∉ m.entered ∧ name c = t

variable {m m' : Matchmaker κ ρ ω τ}

theorem Enters.of_subset (hentered : m'.entered = m.entered) (htasks : m'.tasks ⊆ m.tasks) :
    m.Enters name m' :=
  ⟨hentered ▸ List.Subset.refl _, fun _ ht => .inl (htasks ht)⟩

theorem Enters.trans {m₁ m₂ m₃ : Matchmaker κ ρ ω τ} (h : m₁.Enters name m₂)
    (h' : m₂.Enters name m₃) : m₁.Enters name m₃ where
  entered := List.Subset.trans h.entered h'.entered
  tasks t ht := by
    rcases h'.tasks t ht with ht | ⟨c, hc, hname⟩
    · exact h.tasks t ht
    · exact .inr ⟨c, fun hmem => hc (h.entered hmem), hname⟩

/-- What enters no task. -/
theorem Owned.of_subset (h : m.Owned name) (hcount : m'.count = m.count)
    (htask : ∀ c, (m'.attempts c).task = (m.attempts c).task) (hentered : m'.entered = m.entered)
    (htasks : m'.tasks ⊆ m.tasks) : m'.Owned name where
  task c hc := by rw [htask, h.task c (hcount ▸ hc)]
  entered t ht := hentered ▸ h.entered t (htasks ht)

theorem Owned.enterTask {c : ℕ} (phase : Phase) (h : m.Owned name) (hc : c < m.count) :
    (m.enterTask c phase).Owned name where
  task c' hc' := by
    rw [enterTask_attempts]
    split_ifs with he
    · rw [he]
      exact h.task c hc
    · exact h.task c' hc'
  entered t ht := by
    rcases ht with rfl | ht
    · exact ⟨c, by simp [Matchmaker.enterTask], (h.task c hc).symm⟩
    · obtain ⟨c', hc', hname⟩ := h.entered t ht
      exact ⟨c', List.mem_append_left _ hc', hname⟩

theorem Enters.enterTask {c : ℕ} (phase : Phase) (h : m.Owned name) (hc : c < m.count)
    (hnew : c ∉ m.entered) : m.Enters name (m.enterTask c phase) where
  entered := fun _ hc' => List.mem_append_left _ hc'
  tasks t ht := by
    rcases ht with rfl | ht
    · exact .inr ⟨c, hnew, (h.task c hc).symm⟩
    · exact .inl ht

/-- **An act enters only tasks of attempts that had entered none.** -/
theorem Owned.act {a : Label} (h : m.Owned name) (hex : m.Exclusive) (hact : Act name m a m') :
    m'.Owned name ∧ m.Enters name m' := by
  have hsame : m'.count = m.count → (∀ c, (m'.attempts c).task = (m.attempts c).task) →
      m'.entered = m.entered → m'.tasks ⊆ m.tasks → m'.Owned name ∧ m.Enters name m' :=
    fun hcount htask hentered htasks =>
      ⟨h.of_subset hcount htask hentered htasks, Enters.of_subset hentered htasks⟩
  cases hact with
  | withdraw | expire => exact hsame rfl (fun _ => rfl) rfl subset_rfl
  | drop hsub => exact hsame rfl (fun _ => rfl) rfl hsub
  | @pair r o offers =>
    refine ⟨⟨fun c hc => ?_, h.entered⟩, Enters.of_subset rfl subset_rfl⟩
    rw [begin_attempts]
    split_ifs with he
    · rw [he]
    · exact h.task c (lt_of_le_of_ne (Nat.lt_succ_iff.1 hc) he)
  | @giveUp c hc hp | @defer c hc hp =>
    refine hsame rfl (fun c' => ?_) rfl subset_rfl
    show ((m.giveUp c).attempts c').task = _
    rw [giveUp_attempts]
    split_ifs with he
    · rw [he]
    · rfl
  | @enter c _ _ _ _ _ hc hp =>
    have howned := h.enterTask .entered hc
    have henters := Enters.enterTask .entered h hc (hex.asked c hp)
    exact ⟨⟨howned.task, howned.entered⟩, ⟨henters.entered, henters.tasks⟩⟩
  | @lose c hc hp => exact ⟨h.enterTask _ hc, Enters.enterTask _ h hc (hex.asked c hp)⟩
  | @answer c =>
    refine hsame rfl (fun c' => ?_) rfl subset_rfl
    rw [setAnswered_attempts]
    split_ifs with he
    · rw [he]
    · rfl
  | @confirm c | @cancel c | @finish c =>
    refine hsame rfl (fun c' => ?_) rfl subset_rfl
    rw [setPhase_attempts]
    split_ifs with he
    · rw [he]
    · rfl

theorem Owned.acts {P : Matchmaker κ ρ ω τ → Label → Prop} (h : m.Owned name) (hex : m.Exclusive)
    (hacts : Acts name P m m') : m'.Owned name ∧ m.Enters name m' := by
  induction hacts with
  | refl => exact ⟨h, Enters.of_subset rfl subset_rfl⟩
  | tail hacts hact ih =>
    obtain ⟨a, -, hact⟩ := hact
    have hstep := ih.1.act (hex.acts hacts) hact
    exact ⟨hstep.1, ih.2.trans hstep.2⟩

end Matchmaker
