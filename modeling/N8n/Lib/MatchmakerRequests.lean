import N8n.Lib.Matchmaker

/-!
# The pending requests of a matchmaker

* `Matchmaker.Unrepeated`: no request is pending twice or after its requester was told about it;
* `Matchmaker.Unrepeated.act`: every act keeps this, but putting off a request that is still
  pending or was told about;
* `Matchmaker.Unrepeated.not_told_of_begun`: no attempt is begun at a request that was told about.
-/

universe t u v w

namespace Matchmaker

variable {κ : Type t} {ρ : Type u} {ω : Type v} {τ : Type w} {name : ℕ → τ}

/-- No request is pending twice or after its requester was told about it.  The ids `seen` are those
that have come in; they are distinct. -/
structure Unrepeated (m : Matchmaker κ ρ ω τ) (seen : Set ρ) : Prop where
  nodup : m.pending.Nodup
  not_told : ∀ r ∈ m.pending, (m.requests r).id ∉ m.told
  pending_lt : ∀ r ∈ m.pending, r < m.size
  request_lt : ∀ c < m.count, (m.attempts c).request < m.size
  distinct : ∀ r < m.size, ∀ r' < m.size, (m.requests r).id = (m.requests r').id → r = r'
  id_seen : ∀ r < m.size, (m.requests r).id ∈ seen
  told_seen : m.told ⊆ seen

/-- The request of the attempt can be put back: it is not pending, and its requester was told
nothing about it. -/
def CanPutBack (m : Matchmaker κ ρ ω τ) (c : ℕ) : Prop :=
  (∀ r ∈ m.pending, (m.requests r).id ≠ m.requestId c) ∧ m.requestId c ∉ m.told

namespace Unrepeated

variable {m m' : Matchmaker κ ρ ω τ} {seen : Set ρ}

/-- What leaves the pending requests alone and tells nothing. -/
theorem of_eq (h : m.Unrepeated seen) (hsize : m'.size = m.size)
    (hid : ∀ r, (m'.requests r).id = (m.requests r).id) (hpending : m'.pending = m.pending)
    (htold : m'.told = m.told) (hreq : ∀ c < m'.count, (m'.attempts c).request < m.size) :
    m'.Unrepeated seen where
  nodup := hpending ▸ h.nodup
  not_told r hr := by
    rw [hid, htold]
    exact h.not_told r (hpending ▸ hr)
  pending_lt r hr := by
    rw [hsize]
    exact h.pending_lt r (hpending ▸ hr)
  request_lt c hc := hsize ▸ hreq c hc
  distinct r hr r' hr' he := by
    rw [hsize] at hr hr'
    rw [hid, hid] at he
    exact h.distinct r hr r' hr' he
  id_seen r hr := by
    rw [hid]
    exact h.id_seen r (hsize ▸ hr)
  told_seen := htold ▸ h.told_seen

/-- A request leaves the pending ones; its requester may be told so. -/
theorem remove {r : ℕ} {l₁ l₂ : List ℕ} {told : Set ρ} (announced : Set (κ × ρ × τ))
    (h : m.Unrepeated seen) (hpending : m.pending = l₁ ++ r :: l₂)
    (htold : told = m.told ∨ told = insert (m.requests r).id m.told) :
    Unrepeated { m with pending := l₁ ++ l₂, told, announced } seen := by
  have hnodup : r ∉ l₁ ++ l₂ ∧ (l₁ ++ l₂).Nodup := by
    have hn := h.nodup
    rw [hpending, List.nodup_middle, List.nodup_cons] at hn
    exact hn
  have hmem : ∀ r' ∈ l₁ ++ l₂, r' ∈ m.pending := by
    intro r' hr'
    rw [hpending]
    rcases List.mem_append.1 hr' with hr' | hr' <;> simp [hr']
  have hr : r ∈ m.pending := by simp [hpending]
  refine ⟨hnodup.2, fun r' hr' => ?_, fun r' hr' => h.pending_lt r' (hmem r' hr'), h.request_lt,
    h.distinct, h.id_seen, ?_⟩
  · rcases htold with rfl | rfl
    · exact h.not_told r' (hmem r' hr')
    · rintro (he | htold)
      · have := h.distinct r' (h.pending_lt r' (hmem r' hr')) r (h.pending_lt r hr) he
        exact hnodup.1 (this ▸ hr')
      · exact h.not_told r' (hmem r' hr') htold
  · rcases htold with rfl | rfl
    · exact h.told_seen
    · exact Set.insert_subset (h.id_seen r (h.pending_lt r hr)) h.told_seen

/-- **Every act but a repeated deferral keeps the pending requests apart.** -/
theorem act {a : Label} (h : m.Unrepeated seen) (hact : Act name m a m')
    (hdefer : ∀ c, a = .defer c → m.CanPutBack c) : m'.Unrepeated seen := by
  have hkept := hact.kept
  have hreq : m'.count = m.count → ∀ c < m'.count, (m'.attempts c).request < m.size := by
    intro hcount c hc
    rw [hcount] at hc
    rw [hkept.request c hc]
    exact h.request_lt c hc
  cases hact with
  | @pair r o offers hr =>
    refine h.of_eq rfl (fun r => (hkept.ids r).2) rfl rfl fun c hc => ?_
    rw [begin_attempts]
    split_ifs with he
    · exact h.pending_lt r hr
    · exact h.request_lt c (Nat.lt_of_le_of_ne (Nat.lt_succ_iff.1 hc) he)
  | @defer c hc hp =>
    obtain ⟨hpending, htold⟩ := hdefer c rfl
    have hgiven :
    (m.giveUp c).Unrepeated seen := h.of_eq rfl (fun r => (hkept.ids r).2) rfl rfl (hreq rfl)
    refine ⟨?_, fun r hr => ?_, fun r hr => ?_, hgiven.request_lt, hgiven.distinct, hgiven.id_seen,
      hgiven.told_seen⟩
    · refine List.Nodup.append h.nodup (List.nodup_singleton _) ?_
      rw [List.disjoint_singleton]
      exact fun hmem => hpending _ hmem rfl
    · rcases List.mem_append.1 hr with hr | hr
      · exact hgiven.not_told r hr
      · rw [List.mem_singleton.1 hr]
        exact (hkept.ids _).2.symm ▸ htold
    · rcases List.mem_append.1 hr with hr | hr
      · exact h.pending_lt r hr
      · exact List.mem_singleton.1 hr ▸ h.request_lt c hc
  | @enter c r l₁ l₂ told announced hc hp hpending hid htold =>
    have htold' : told = m.told ∨ told = insert (m.requests r).id m.told :=
      htold.imp And.left fun h => hid ▸ h.1
    exact (remove announced h hpending htold').of_eq rfl (fun _ => rfl) rfl rfl
      (hreq rfl)
  | expire hpending htold => exact remove m.announced h hpending htold
  | _ => exact h.of_eq rfl (fun r => (hkept.ids r).2) rfl rfl (hreq rfl)

theorem acts {P : Matchmaker κ ρ ω τ → Label → Prop} (h : m.Unrepeated seen)
    (hP : ∀ m₁ c, P m₁ (.defer c) → m₁.CanPutBack c) (hacts : Acts name P m m') :
    m'.Unrepeated seen := by
  induction hacts with
  | refl => exact h
  | tail _ hact ih =>
    obtain ⟨a, hPa, hact⟩ := hact
    exact ih.act hact fun c hc => hP _ c (hc ▸ hPa)

/-- No act begins an attempt at a request that its requester was told about. -/
theorem not_told_of_begun {P : Matchmaker κ ρ ω τ → Label → Prop} (h : m.Unrepeated seen)
    (hP : ∀ m₁ c, P m₁ (.defer c) → m₁.CanPutBack c) (hacts : Acts name P m m') {c : ℕ}
    (hc : m.count ≤ c) (hc' : c < m'.count) : m'.requestId c ∉ m.told := by
  induction hacts with
  | refl => exact absurd hc' (not_lt.2 hc)
  | @tail m₁ m₂ hacts hact ih =>
    obtain ⟨a, -, hact⟩ := hact
    have hkept := hact.kept
    by_cases hlt : c < m₁.count
    · have hid : m₂.requestId c = m₁.requestId c := by
        rw [requestId, (hkept.ids _).2, hkept.request c hlt, requestId]
      exact hid ▸ ih hlt
    · -- the attempt was begun by the last act
      cases hact with
      | @pair r o offers hr =>
        have he : c = m₁.count := by
          change c < m₁.count + 1 at hc'
          omega
        have hid : (m₁.begin r o offers (name m₁.count)).requestId c = (m₁.requests r).id := by
          rw [requestId, (hkept.ids _).2, begin_attempts, if_pos he]
        rw [hid]
        exact fun htold => (h.acts hP hacts).not_told r hr (Acts.kept hacts |>.told htold)
      | _ => exact absurd hc' hlt

/-- A request with a new id comes in. -/
theorem request {owner : κ} {id : ρ} (h : m.Unrepeated seen) (hid : id ∉ seen) :
    (m.request owner id).Unrepeated (insert id seen) := by
  have hold : ∀ r < m.size, (m.request owner id).requests r = m.requests r := fun r hr => by
    rw [request_requests, if_neg hr.ne]
  have hnew : (m.request owner id).requests m.size = ⟨owner, id, false⟩ := by
    rw [request_requests, if_pos rfl]
  have hne : ∀ r < m.size, (m.requests r).id ≠ id := fun r hr he => hid (he ▸ h.id_seen r hr)
  refine ⟨?_, fun r hr => ?_, fun r hr => ?_, fun c hc => Nat.lt_succ_of_lt (h.request_lt c hc),
    fun r hr r' hr' he => ?_, fun r hr => ?_, h.told_seen.trans (Set.subset_insert _ _)⟩
  · refine List.Nodup.append h.nodup (List.nodup_singleton _) ?_
    rw [List.disjoint_singleton]
    exact fun hmem => (h.pending_lt _ hmem).false
  · rcases List.mem_append.1 hr with hr | hr
    · rw [hold r (h.pending_lt r hr)]
      exact h.not_told r hr
    · rw [List.mem_singleton.1 hr, hnew]
      exact fun htold => hid (h.told_seen htold)
  · rcases List.mem_append.1 hr with hr | hr
    · exact Nat.lt_succ_of_lt (h.pending_lt r hr)
    · rw [List.mem_singleton.1 hr]
      exact Nat.lt_succ_self _
  · rcases Nat.lt_succ_iff_lt_or_eq.1 hr with hr | rfl <;>
      rcases Nat.lt_succ_iff_lt_or_eq.1 hr' with hr' | rfl
    · rw [hold r hr, hold r' hr'] at he
      exact h.distinct r hr r' hr' he
    · rw [hold r hr, hnew] at he
      exact absurd he (hne r hr)
    · rw [hnew, hold r' hr'] at he
      exact absurd he.symm (hne r' hr')
    · rfl
  · rcases Nat.lt_succ_iff_lt_or_eq.1 hr with hr | rfl
    · rw [hold r hr]
      exact Set.mem_insert_of_mem _ (h.id_seen r hr)
    · rw [hnew]
      exact Set.mem_insert _ _

/-- A request with a new id is refused. -/
theorem refuse {id : ρ} (h : m.Unrepeated seen) (hid : id ∉ seen) :
    (m.refuse id).Unrepeated (insert id seen) where
  nodup := h.nodup
  not_told r hr := by
    rintro (he | htold)
    · exact hid (he ▸ h.id_seen r (h.pending_lt r hr))
    · exact h.not_told r hr htold
  pending_lt := h.pending_lt
  request_lt := h.request_lt
  distinct := h.distinct
  id_seen r hr := Set.mem_insert_of_mem _ (h.id_seen r hr)
  told_seen := Set.insert_subset_insert h.told_seen

/-- An offer comes in. -/
theorem offer (h : m.Unrepeated seen) (o : ω) : (m.offer o).Unrepeated seen :=
  ⟨h.nodup, h.not_told, h.pending_lt, h.request_lt, h.distinct, h.id_seen, h.told_seen⟩

theorem seen_subset {seen' : Set ρ} (h : m.Unrepeated seen) (hsub : seen ⊆ seen') :
    m.Unrepeated seen' :=
  { h with
    id_seen := fun r hr => hsub (h.id_seen r hr)
    told_seen := h.told_seen.trans hsub }

end Unrepeated

end Matchmaker
