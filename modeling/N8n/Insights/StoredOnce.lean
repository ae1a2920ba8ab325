import N8n.Insights.Collection
import N8n.Lib.Lts
import Mathlib.Data.List.Perm.Basic

/-!
# Insights are stored exactly once

* `StoredOnce`: a collected event is in the buffer, in one flush or in the raw table;
* `LeavesNone`: what a resolved shutdown may leave in the buffer;
* `Sound`, `Drained`: what every action preserves;
* `storedOnce_iff`: the shutdown keeps its promise exactly when it never resolves after the late
  failure of a flush from before it.
-/

namespace N8n

namespace Insights

open scoped List

namespace InsightsCollection

/-! ### The account of the events -/

/-- The events of the flushes whose save has not inserted them. -/
def inFlight (s : InsightsCollection) : List BufferedInsight :=
  (s.flushesInProgress.filter fun f => f.stage ≠ .stored).flatMap fun f => f.events.elems

/-- Every collected event is in exactly one of the buffer, one flush and the raw table. -/
structure StoredOnce (s : InsightsCollection) : Prop where
  places : s.bufferedInsights.elems ++ s.inFlight ++ s.raw ~ s.collected
  distinct : s.collected.Nodup

/-- Whether the shutdown had begun when the last attempt to save an event was started. -/
def lastAttempt (s : InsightsCollection) (e : BufferedInsight) : Option Bool :=
  (s.attempts.find? fun attempt => e ∈ attempt.2).map (·.1)

/-- An event is left in the buffer only when an attempt that was started during the shutdown was the
last one; being in the buffer and nowhere else, that attempt has failed. -/
def LeavesNone (s : InsightsCollection) : Prop :=
  s.resolved = true → ∀ e ∈ s.bufferedInsights, s.lastAttempt e = some true

/-- What holds between two actions, whatever happens. -/
structure Sound (s : InsightsCollection) : Prop where
  once : s.StoredOnce
  objects : ∀ e ∈ s.collected, e.object < s.created
  ids : (s.flushesInProgress.map (·.id)).Nodup
  fresh : ∀ f ∈ s.flushesInProgress, f.id < s.flushes
  /-- The last attempt of an event in flight is its flush. -/
  tried : ∀ f ∈ s.flushesInProgress, f.stage ≠ .stored → f.events.elems ≠ [] ∧
    ∀ e ∈ f.events, s.lastAttempt e = some f.duringShutdown
  begun : s.awaited = none ↔ s.isAsynchronouslySavingInsights = true
  /-- A flush from before the shutdown is waited for. -/
  waits : ∀ awaited, s.awaited = some awaited → ∀ f ∈ s.flushesInProgress,
    f.duringShutdown = false → f.id ∈ awaited
  before : s.awaited = none → ∀ f ∈ s.flushesInProgress, f.duringShutdown = false
  done : s.resolved = true → s.isInitialized = false ∧ s.awaited ≠ none ∧
    ∀ f ∈ s.flushesInProgress, f.duringShutdown = true
  late : s.lateFailure = true → s.isAsynchronouslySavingInsights = false
  live : s.isInitialized = !s.resolved

/-- During a shutdown the buffer holds events of failed flushes only: an earlier one among them is
recorded as a late failure. -/
structure Drained (s : InsightsCollection) : Prop where
  kept : s.isAsynchronouslySavingInsights = false → ∀ e ∈ s.bufferedInsights,
    s.lastAttempt e = some true ∨ s.lateFailure = true
  lost : s.lateFailure = true → ∃ e ∈ s.bufferedInsights, s.lastAttempt e = some false

variable {s : InsightsCollection}

/-- The timer and the handlers are no part of the account. -/
theorem Sound.others (h : s.Sound) (timer : Bool) (handlers : List ℕ) :
    Sound { s with flushInsightsRawBufferTimer := timer, handlers } :=
  ⟨⟨h.once.places, h.once.distinct⟩, h.objects, h.ids, h.fresh, h.tried, h.begun, h.waits, h.before,
    h.done, h.late, h.live⟩

theorem Drained.others (h : s.Drained) (timer : Bool) (handlers : List ℕ) :
    Drained { s with flushInsightsRawBufferTimer := timer, handlers } := ⟨h.kept, h.lost⟩

theorem Sound.scheduleFlushing (h : s.Sound) : s.scheduleFlushing.Sound := by
  unfold InsightsCollection.scheduleFlushing
  split
  · exact h.others _ _
  · exact h

theorem Drained.scheduleFlushing (h : s.Drained) : s.scheduleFlushing.Drained := by
  unfold InsightsCollection.scheduleFlushing
  split
  · exact h.others _ _
  · exact h

theorem Sound.nodup (h : s.Sound) : (s.bufferedInsights.elems ++ s.inFlight ++ s.raw).Nodup :=
  h.once.places.nodup_iff.2 h.once.distinct

variable {f : Flush}

/-- An event in flight is not in the buffer. -/
theorem Sound.not_buffered (h : s.Sound) (hf : f ∈ s.flushesInProgress)
    (hstage : f.stage ≠ .stored) {e : BufferedInsight} (he : e ∈ f.events) :
    e ∉ s.bufferedInsights := by
  intro hmem
  have hflight : e ∈ s.inFlight :=
    List.mem_flatMap.2 ⟨f, List.mem_filter.2 ⟨hf, by simpa using hstage⟩, he⟩
  exact (List.nodup_append.1 (List.nodup_append.1 h.nodup).1).2.2 e hmem e hflight rfl

/-! ### Starting a flush -/

theorem Sound.startFlush (h : s.Sound) (hinit : s.isInitialized = true)
    (hne : s.bufferedInsights.elems ≠ []) : s.startFlush.Sound := by
  have hunresolved : s.resolved = false := by simpa [hinit] using h.live
  have hold : ∀ f ∈ s.flushesInProgress, f.stage ≠ .stored → ∀ e ∈ f.events,
      s.startFlush.lastAttempt e = s.lastAttempt e := by
    intro f hf hstage e he
    simp [lastAttempt, InsightsCollection.startFlush, h.not_buffered hf hstage he]
  have hnew : ∀ f ∈ s.startFlush.flushesInProgress, f ∈ s.flushesInProgress ∨
      f =
        { id := s.flushes
          events := s.bufferedInsights
          duringShutdown := !s.isAsynchronouslySavingInsights } := by
    intro f hf
    simpa [InsightsCollection.startFlush] using hf
  refine ⟨⟨?_, h.once.distinct⟩, h.objects, ?_, ?_, ?_, h.begun, ?_, ?_, ?_, ?_, h.live⟩
  · have hflight : s.startFlush.inFlight = s.inFlight ++ s.bufferedInsights.elems := by
      simp [inFlight, InsightsCollection.startFlush, List.filter_append]
    rw [hflight]
    calc OrderedSet.empty.elems ++ (s.inFlight ++ s.bufferedInsights.elems) ++ s.raw
      _ = s.inFlight ++ s.bufferedInsights.elems ++ s.raw := by simp [OrderedSet.empty]
      _ ~ s.bufferedInsights.elems ++ s.inFlight ++ s.raw :=
        List.perm_append_comm.append_right _
      _ ~ s.collected := h.once.places
  · simp only [InsightsCollection.startFlush, List.map_append, List.map_cons, List.map_nil]
    refine h.ids.append (List.nodup_singleton _) ?_
    simp only [List.disjoint_singleton, List.mem_map, not_exists, not_and]
    exact fun f hf heq => absurd (h.fresh f hf) (by omega)
  · intro f hf
    rcases hnew f hf with hf | rfl
    · exact Nat.lt_succ_of_lt (h.fresh f hf)
    · exact Nat.lt_succ_self _
  · intro f hf hstage
    rcases hnew f hf with hf | rfl
    · refine ⟨(h.tried f hf hstage).1, fun e he => ?_⟩
      rw [hold f hf hstage e he]
      exact (h.tried f hf hstage).2 e he
    · exact ⟨hne, fun e he => by simp [lastAttempt, InsightsCollection.startFlush, he]⟩
  · intro awaited hawaited f hf hduring
    rcases hnew f hf with hf | rfl
    · exact h.waits awaited hawaited f hf hduring
    · have hasync : s.isAsynchronouslySavingInsights = true := by simpa using hduring
      rw [show s.startFlush.awaited = s.awaited from rfl, h.begun.2 hasync] at hawaited
      cases hawaited
  · intro hawaited f hf
    rcases hnew f hf with hf | rfl
    · exact h.before hawaited f hf
    · simpa using h.begun.1 hawaited
  · intro hresolved
    rw [show s.startFlush.resolved = s.resolved from rfl, hunresolved] at hresolved
    cases hresolved
  · intro hlate
    cases hlate

theorem Drained.startFlush : s.startFlush.Drained :=
  ⟨fun _ e he => absurd he List.not_mem_nil, fun hlate => absurd hlate (by
    simp [InsightsCollection.startFlush])⟩

theorem flushEvents_cases (s : InsightsCollection) :
    (s.isInitialized = false ∧ s.flushEvents = (s, none)) ∨
    (s.bufferedInsights.elems = [] ∧ s.flushEvents = (s.scheduleFlushing, none)) ∨
    (s.isInitialized = true ∧ s.bufferedInsights.elems ≠ [] ∧
      s.flushEvents = (s.startFlush, some s.flushes)) := by
  unfold flushEvents
  cases hinit : s.isInitialized with
  | false => exact Or.inl ⟨rfl, rfl⟩
  | true =>
    by_cases hempty : s.bufferedInsights.elems = []
    · exact Or.inr (Or.inl ⟨hempty, by simp [OrderedSet.size, hempty]⟩)
    · exact Or.inr (Or.inr ⟨rfl, hempty, by simp [OrderedSet.size, hempty]⟩)

theorem Sound.flushEvents (h : s.Sound) : s.flushEvents.1.Sound := by
  obtain ⟨-, heq⟩ | ⟨-, heq⟩ | ⟨hinit, hne, heq⟩ := flushEvents_cases s <;> rw [heq]
  · exact h
  · exact h.scheduleFlushing
  · exact h.startFlush hinit hne

theorem Drained.flushEvents (h : s.Drained) : s.flushEvents.1.Drained := by
  obtain ⟨-, heq⟩ | ⟨-, heq⟩ | ⟨-, -, heq⟩ := flushEvents_cases s <;> rw [heq]
  · exact h
  · exact h.scheduleFlushing
  · exact Drained.startFlush

theorem Sound.flushWhenFull (h : s.Sound) (flushBatchSize : ℕ) :
    (s.flushWhenFull flushBatchSize).Sound := by
  unfold InsightsCollection.flushWhenFull
  split
  · exact h.flushEvents
  · exact h

theorem Drained.flushWhenFull (h : s.Drained) (flushBatchSize : ℕ) :
    (s.flushWhenFull flushBatchSize).Drained := by
  unfold InsightsCollection.flushWhenFull
  split
  · exact h.flushEvents
  · exact h

/-! ### Collecting events -/

theorem object_of_mem_collectEvents {created : ℕ} {ctx : WorkflowExecuteAfterContext}
    {e : BufferedInsight} (he : e ∈ collectEvents created ctx) :
    created ≤ e.object ∧ e.object < created + (collectEvents created ctx).length := by
  obtain ⟨i, hi, rfl⟩ := List.mem_iff_getElem.1 he
  simp only [collectEvents, List.getElem_mapIdx, List.length_mapIdx] at hi ⊢
  omega

theorem nodup_collectEvents (created : ℕ) (ctx : WorkflowExecuteAfterContext) :
    (collectEvents created ctx).Nodup := by
  rw [List.nodup_iff_injective_getElem]
  rintro ⟨i, hi⟩ ⟨j, hj⟩ hij
  have hobject := congrArg BufferedInsight.object hij
  simp only [collectEvents, List.getElem_mapIdx] at hobject
  exact Fin.ext (by simpa using hobject)

theorem collectEvents_ne_nil (created : ℕ) (ctx : WorkflowExecuteAfterContext) :
    collectEvents created ctx ≠ [] := by
  simp [collectEvents, insightsOf]

/-- New events go to the end of the buffer. -/
theorem Sound.elems_collect (h : s.Sound) (ctx : WorkflowExecuteAfterContext) :
    (s.collect ctx).bufferedInsights.elems =
      s.bufferedInsights.elems ++ collectEvents s.created ctx := by
  refine OrderedSet.elems_foldl_insert (nodup_collectEvents _ _) fun e he hmem => ?_
  have hcollected : e ∈ s.collected :=
    h.once.places.subset (List.mem_append_left _ (List.mem_append_left _ hmem))
  exact absurd (h.objects e hcollected) (by have := (object_of_mem_collectEvents he).1; omega)

theorem Sound.collect (h : s.Sound) (ctx : WorkflowExecuteAfterContext) :
    (s.collect ctx).Sound := by
  refine ⟨⟨?_, ?_⟩, ?_, h.ids, h.fresh, h.tried, h.begun, h.waits, h.before, h.done, h.late, h.live⟩
  · rw [h.elems_collect]
    have hflight : (s.collect ctx).inFlight = s.inFlight := rfl
    rw [hflight]
    calc s.bufferedInsights.elems ++ collectEvents s.created ctx ++ s.inFlight ++ s.raw
      _ ~ s.bufferedInsights.elems ++ s.inFlight ++ s.raw ++ collectEvents s.created ctx := by
        simp only [List.append_assoc]
        refine List.Perm.append_left _ ?_
        rw [← List.append_assoc s.inFlight]
        exact List.perm_append_comm
      _ ~ s.collected ++ collectEvents s.created ctx := h.once.places.append_right _
  · refine h.once.distinct.append (nodup_collectEvents _ _) fun e hold hnew => ?_
    have := (object_of_mem_collectEvents hnew).1
    have := h.objects e hold
    omega
  · intro e he
    rcases List.mem_append.1 he with he | he
    · exact Nat.lt_of_lt_of_le (h.objects e he) (Nat.le_add_right _ _)
    · exact (object_of_mem_collectEvents he).2

theorem Sound.handleWorkflowExecuteAfter (h : s.Sound) (flushBatchSize : ℕ)
    (ctx : WorkflowExecuteAfterContext) :
    (s.handleWorkflowExecuteAfter flushBatchSize ctx).Sound := by
  unfold InsightsCollection.handleWorkflowExecuteAfter
  split
  · exact h
  split
  · exact h
  dsimp only
  split
  · exact (h.collect ctx).flushEvents.others _ _
  · exact (h.collect ctx).flushWhenFull _

theorem Drained.handleWorkflowExecuteAfter (hd : s.Drained) (h : s.Sound) (flushBatchSize : ℕ)
    (ctx : WorkflowExecuteAfterContext) :
    (s.handleWorkflowExecuteAfter flushBatchSize ctx).Drained := by
  unfold InsightsCollection.handleWorkflowExecuteAfter
  split
  · exact hd
  case isFalse hinit =>
    split
    · exact hd
    dsimp only
    split
    case isTrue hsync =>
      -- the events of the call are flushed at once
      obtain ⟨hinit', -⟩ | ⟨hempty, -⟩ | ⟨-, -, heq⟩ := flushEvents_cases (s.collect ctx)
      · exact absurd hinit' (by simpa [collect] using hinit)
      · rw [h.elems_collect] at hempty
        exact absurd (List.append_eq_nil_iff.1 hempty).2 (collectEvents_ne_nil _ _)
      · rw [heq]
        exact Drained.startFlush.others _ _
    case isFalse hasync =>
      refine Drained.flushWhenFull ⟨fun hsync => ?_, fun hlate => ?_⟩ _
      · exact absurd hsync (by simpa using hasync)
      · exact absurd (h.late hlate) (by simpa [collect] using hasync)

/-! ### Saves and their ends -/

/-- The flushes around one of them. -/
theorem Sound.exists_split (h : s.Sound) (hf : f ∈ s.flushesInProgress) :
    ∃ before after, s.flushesInProgress = before ++ f :: after ∧
      ∀ g ∈ before ++ after, g.id ≠ f.id := by
  obtain ⟨before, after, hsplit⟩ := List.append_of_mem hf
  refine ⟨before, after, hsplit, fun g hg hid => ?_⟩
  have hids := h.ids
  rw [hsplit, List.map_append, List.map_cons, List.nodup_middle, ← List.map_append,
    List.nodup_cons] at hids
  exact hids.1 (hid ▸ List.mem_map_of_mem hg)

theorem Sound.save (h : s.Sound) (hf : f ∈ s.flushesInProgress) (hstage : f.stage = .saving)
    (stored : Bool) : (s.save stored f).Sound := by
  obtain ⟨before, after, hsplit, hother⟩ := h.exists_split hf
  have hflushes : (s.save stored f).flushesInProgress =
      before ++ { f with stage := if stored then .stored else .failed } :: after := by
    have hsame : ∀ l : List Flush, (∀ g ∈ l, g.id ≠ f.id) → (l.map fun g =>
        if g.id = f.id then { g with stage := if stored then .stored else .failed } else g) = l :=
      fun l hl => (List.map_congr_left fun g hg => if_neg (hl g hg)).trans (List.map_id' l)
    simp only [InsightsCollection.save, hsplit, List.map_append, List.map_cons, if_true]
    rw [hsame before fun g hg => hother g (List.mem_append_left _ hg),
      hsame after fun g hg => hother g (List.mem_append_right _ hg)]
  have hmem : ∀ g ∈ (s.save stored f).flushesInProgress, ∃ g' ∈ s.flushesInProgress,
      g.id = g'.id ∧ g.events = g'.events ∧ g.duringShutdown = g'.duringShutdown ∧
        (g.stage ≠ .stored → g'.stage ≠ .stored) := by
    intro g hg
    rw [hflushes] at hg
    rcases List.mem_append.1 hg with hg | hg
    · exact ⟨g, by simp [hsplit, hg], rfl, rfl, rfl, id⟩
    rcases List.mem_cons.1 hg with rfl | hg
    · exact ⟨f, hf, rfl, rfl, rfl, fun _ => by simp [hstage]⟩
    · exact ⟨g, by simp [hsplit, hg], rfl, rfl, rfl, id⟩
  refine ⟨⟨?_, h.once.distinct⟩, h.objects, ?_, ?_, ?_, h.begun, ?_, ?_, ?_, h.late, h.live⟩
  · refine List.Perm.trans ?_ h.once.places
    have hbuffer : (s.save stored f).bufferedInsights = s.bufferedInsights := rfl
    have hraw : (s.save stored f).raw = if stored then s.raw ++ f.events.elems else s.raw := rfl
    rw [hbuffer, hraw, inFlight, hflushes, inFlight, hsplit]
    cases stored with
    | false => simp [List.filter_append, hstage]
    | true =>
      simp only [List.filter_append, List.filter_cons, hstage, List.flatMap_append, if_true,
        List.append_assoc]
      refine List.Perm.append_left _ (List.Perm.append_left _ ?_)
      simp only [ne_eq, not_true_eq_false, decide_false, Bool.false_eq_true, if_false,
        reduceCtorEq, not_false_eq_true, decide_true, if_true, List.flatMap_cons,
        List.append_assoc]
      rw [← List.append_assoc]
      exact List.perm_append_comm
  · rw [hflushes]
    have hids := h.ids
    rw [hsplit] at hids
    simpa using hids
  · intro g hg
    obtain ⟨g', hg', hid, -⟩ := hmem g hg
    exact hid ▸ h.fresh g' hg'
  · intro g hg hgstage
    obtain ⟨g', hg', -, hevents, hduring, hstage'⟩ := hmem g hg
    rw [hevents, hduring]
    exact h.tried g' hg' (hstage' hgstage)
  · intro awaited hawaited g hg hgduring
    obtain ⟨g', hg', hid, -, hduring, -⟩ := hmem g hg
    rw [hid]
    exact h.waits awaited hawaited g' hg' (hduring ▸ hgduring)
  · intro hawaited g hg
    obtain ⟨g', hg', -, -, hduring, -⟩ := hmem g hg
    exact hduring.trans (h.before hawaited g' hg')
  · intro hresolved
    refine ⟨(h.done hresolved).1, (h.done hresolved).2.1, fun g hg => ?_⟩
    obtain ⟨g', hg', -, -, hduring, -⟩ := hmem g hg
    exact hduring.trans ((h.done hresolved).2.2 g' hg')

theorem Drained.save (h : s.Drained) (stored : Bool) (f : Flush) : (s.save stored f).Drained :=
  ⟨h.kept, h.lost⟩

/-- Without one of the flushes that has inserted its events, or with its events back in the buffer,
the account is the same. -/
theorem Sound.without (h : s.Sound) (hf : f ∈ s.flushesInProgress)
    {buffer : OrderedSet BufferedInsight} (late : Bool)
    (hbuffer : (f.stage = .stored ∧ buffer = s.bufferedInsights) ∨ (f.stage ≠ .stored ∧
      buffer.elems = s.bufferedInsights.elems ++ f.events.elems))
    (hlate : late = true → s.isAsynchronouslySavingInsights = false) :
    Sound { s with
      bufferedInsights := buffer
      lateFailure := late
      flushesInProgress := s.flushesInProgress.filter fun g => g.id ≠ f.id } := by
  obtain ⟨before, after, hsplit, hother⟩ := h.exists_split hf
  have hkept : s.flushesInProgress.filter (fun g => g.id ≠ f.id) = before ++ after := by
    rw [hsplit, List.filter_append, List.filter_cons_of_neg (by simp), ← List.filter_append]
    exact List.filter_eq_self.2 fun g hg => by simpa using hother g hg
  have hmem : ∀ g ∈ s.flushesInProgress.filter (fun g => g.id ≠ f.id), g ∈ s.flushesInProgress :=
    fun g hg => List.mem_of_mem_filter hg
  refine ⟨⟨?_, h.once.distinct⟩, h.objects, ?_, ?_, ?_, h.begun, ?_, ?_, ?_, hlate, h.live⟩
  · refine List.Perm.trans ?_ h.once.places
    simp only [inFlight, hkept]
    rw [hsplit]
    rcases hbuffer with ⟨hstage, rfl⟩ | ⟨hstage, hbuffer⟩
    · simp [List.filter_append, hstage]
    · simp only [List.filter_append, List.filter_cons, hstage, hbuffer, List.flatMap_append,
        ne_eq, not_false_eq_true, decide_true, if_true, List.flatMap_cons, List.append_assoc]
      refine List.Perm.append_left _ ?_
      exact List.perm_append_comm_assoc _ _ _
  · exact h.ids.sublist (List.filter_sublist.map _)
  · exact fun g hg => h.fresh g (hmem g hg)
  · exact fun g hg => h.tried g (hmem g hg)
  · exact fun awaited hawaited g hg => h.waits awaited hawaited g (hmem g hg)
  · exact fun hawaited g hg => h.before hawaited g (hmem g hg)
  · exact fun hresolved =>
      ⟨(h.done hresolved).1, (h.done hresolved).2.1, fun g hg =>
        (h.done hresolved).2.2 g (hmem g hg)⟩

/-- The events of a failed flush go to the end of the buffer. -/
theorem Sound.elems_return (h : s.Sound) (hf : f ∈ s.flushesInProgress)
    (hstage : f.stage ≠ .stored) :
    (f.events.elems.foldl OrderedSet.insert s.bufferedInsights).elems =
      s.bufferedInsights.elems ++ f.events.elems :=
  OrderedSet.elems_foldl_insert f.events.nodup fun _ he => h.not_buffered hf hstage he

theorem scheduleFlushing_eq (s : InsightsCollection) :
    ∃ timer, s.scheduleFlushing = { s with flushInsightsRawBufferTimer := timer } := by
  unfold scheduleFlushing
  split <;> exact ⟨_, rfl⟩

theorem settle_of_failed (hstage : f.stage = .failed) :
    ∃ timer, s.settle f = { s with
      flushInsightsRawBufferTimer := timer
      bufferedInsights := f.events.elems.foldl OrderedSet.insert s.bufferedInsights
      lateFailure := s.lateFailure || (!s.isAsynchronouslySavingInsights && !f.duringShutdown)
      flushesInProgress := s.flushesInProgress.filter fun g => g.id ≠ f.id } := by
  obtain ⟨timer, htimer⟩ := scheduleFlushing_eq
    { s with
      bufferedInsights := f.events.elems.foldl OrderedSet.insert s.bufferedInsights
      lateFailure := s.lateFailure || (!s.isAsynchronouslySavingInsights && !f.duringShutdown) }
  refine ⟨timer, ?_⟩
  simp only [settle, hstage, if_true]
  rw [htimer]

theorem settle_of_stored (hstage : f.stage = .stored) :
    ∃ timer, s.settle f = { s with
      flushInsightsRawBufferTimer := timer
      flushesInProgress := s.flushesInProgress.filter fun g => g.id ≠ f.id } := by
  obtain ⟨timer, htimer⟩ := scheduleFlushing_eq s
  refine ⟨timer, ?_⟩
  simp only [settle, hstage, reduceCtorEq, if_false]
  rw [htimer]

theorem Sound.settle (h : s.Sound) (hf : f ∈ s.flushesInProgress) (hstage : f.stage ≠ .saving) :
    (s.settle f).Sound := by
  cases hcase : f.stage with
  | saving => exact absurd hcase hstage
  | stored =>
    obtain ⟨timer, heq⟩ := settle_of_stored (s := s) hcase
    rw [heq]
    exact (h.without hf s.lateFailure (Or.inl ⟨hcase, rfl⟩) h.late).others timer s.handlers
  | failed =>
    obtain ⟨timer, heq⟩ := settle_of_failed (s := s) hcase
    rw [heq]
    have hne : f.stage ≠ .stored := by simp [hcase]
    refine (h.without hf _ (Or.inr ⟨hne, h.elems_return hf hne⟩) fun hlate => ?_).others timer
      s.handlers
    rcases Bool.or_eq_true_iff.1 hlate with hlate | hlate
    · exact h.late hlate
    · simpa using (Bool.and_eq_true_iff.1 hlate).1

theorem Drained.settle (hd : s.Drained) (h : s.Sound) (hf : f ∈ s.flushesInProgress)
    (hstage : f.stage ≠ .saving) : (s.settle f).Drained := by
  cases hcase : f.stage with
  | saving => exact absurd hcase hstage
  | stored =>
    obtain ⟨timer, heq⟩ := settle_of_stored (s := s) hcase
    rw [heq]
    exact ⟨hd.kept, hd.lost⟩
  | failed =>
    obtain ⟨timer, heq⟩ := settle_of_failed (s := s) hcase
    rw [heq]
    have hnotStored : f.stage ≠ .stored := by simp [hcase]
    obtain ⟨hne, htried⟩ := h.tried f hf hnotStored
    have hreturn : ∀ e, e ∈ f.events.elems.foldl OrderedSet.insert s.bufferedInsights ↔
        e ∈ s.bufferedInsights ∨ e ∈ f.events := fun e => OrderedSet.mem_foldl_insert
    constructor
    · intro hsync e he
      have hsync' : s.isAsynchronouslySavingInsights = false := hsync
      rcases (hreturn e).1 he with he | he
      · exact (hd.kept hsync e he).imp id fun hlate => by simp [hlate]
      · cases hduring : f.duringShutdown with
        | true => exact Or.inl (hduring ▸ htried e he)
        | false => exact Or.inr (by simp [hsync'])
    · intro hlate
      rcases Bool.or_eq_true_iff.1 hlate with hlate | hlate
      · obtain ⟨e, he, hlast⟩ := hd.lost hlate
        exact ⟨e, (hreturn e).2 (Or.inl he), hlast⟩
      · obtain ⟨e, he⟩ := List.exists_mem_of_ne_nil _ hne
        have hduring : f.duringShutdown = false := by
          simpa using (Bool.and_eq_true_iff.1 hlate).2
        exact ⟨e, (hreturn e).2 (Or.inr he), hduring ▸ htried e he⟩

/-! ### The shutdown -/

/-- The state when the shutdown has stopped the timer and takes stock of the flushes. -/
def stopped (s : InsightsCollection) : InsightsCollection :=
  { s with
    flushInsightsRawBufferTimer := false
    isAsynchronouslySavingInsights := false
    awaited := some (s.flushesInProgress.map (·.id)) }

theorem Sound.stopped (h : s.Sound) (hawaited : s.awaited = none) : s.stopped.Sound := by
  have hunresolved : s.resolved ≠ true := fun hresolved => (h.done hresolved).2.1 hawaited
  refine ⟨⟨h.once.places, h.once.distinct⟩, h.objects, h.ids, h.fresh, h.tried,
    by simp [InsightsCollection.stopped], ?_, fun hnone => ?_, fun hresolved => ?_, fun _ => rfl,
    h.live⟩
  · rintro _ ⟨⟩ f hf -
    exact List.mem_map_of_mem hf
  · cases hnone
  · exact absurd hresolved hunresolved

/-- More flushes may be waited for. -/
theorem Sound.waitsFor (h : s.Sound) {awaited awaited' : List ℕ} (hs : s.awaited = some awaited)
    (hsub : awaited ⊆ awaited') : Sound { s with awaited := some awaited' } := by
  refine ⟨⟨h.once.places, h.once.distinct⟩, h.objects, h.ids, h.fresh, h.tried, ?_, ?_,
    fun hnone => ?_, fun hresolved => ?_, h.late, h.live⟩
  · rw [← h.begun, hs]
    simp
  · rintro _ ⟨⟩ f hf hduring
    exact hsub (h.waits awaited hs f hf hduring)
  · cases hnone
  · exact ⟨(h.done hresolved).1, by simp, (h.done hresolved).2.2⟩

theorem shutdown_eq (hinit : s.isInitialized = true) :
    s.shutdown = { s.stopped.flushEvents.1 with
      awaited := some (s.flushesInProgress.map (·.id) ++ s.stopped.flushEvents.2.toList) } := by
  unfold shutdown flushEvents
  simp only [stopped, cancelScheduledFlushing, hinit, Bool.not_true, Bool.false_eq_true, if_false]
  split
  · simp [scheduleFlushing]
  · simp [startFlush, cancelScheduledFlushing]

theorem awaited_flushEvents (s : InsightsCollection) : s.flushEvents.1.awaited = s.awaited := by
  obtain ⟨-, heq⟩ | ⟨-, heq⟩ | ⟨-, -, heq⟩ := flushEvents_cases s <;> rw [heq]
  · obtain ⟨timer, htimer⟩ := scheduleFlushing_eq s
    rw [htimer]
  · rfl

theorem Sound.initialized (h : s.Sound) (hawaited : s.awaited = none) : s.isInitialized = true := by
  have hunresolved : s.resolved ≠ true := fun hresolved => (h.done hresolved).2.1 hawaited
  rw [h.live]
  simpa using hunresolved

theorem Sound.shutdown (h : s.Sound) (hawaited : s.awaited = none) : s.shutdown.Sound := by
  rw [shutdown_eq (h.initialized hawaited)]
  refine (h.stopped hawaited).flushEvents.waitsFor (awaited_flushEvents _) ?_
  exact List.subset_append_left _ _

theorem Drained.shutdown (h : s.Sound) (hawaited : s.awaited = none) : s.shutdown.Drained := by
  rw [shutdown_eq (h.initialized hawaited)]
  have hlate : s.lateFailure ≠ true := fun hlate => by
    have := h.late hlate
    rw [h.begun.1 hawaited] at this
    cases this
  obtain ⟨hinit, -⟩ | ⟨hempty, heq⟩ | ⟨-, -, heq⟩ := flushEvents_cases s.stopped
  · rw [show s.stopped.isInitialized = s.isInitialized from rfl, h.initialized hawaited] at hinit
    cases hinit
  · rw [heq]
    obtain ⟨timer, htimer⟩ := scheduleFlushing_eq s.stopped
    rw [htimer]
    refine ⟨fun _ e he => ?_, fun hlate' => absurd hlate' hlate⟩
    have hmem : e ∈ s.stopped.bufferedInsights.elems := he
    rw [hempty] at hmem
    cases hmem
  · rw [heq]
    exact ⟨Drained.startFlush.kept, Drained.startFlush.lost⟩

theorem Sound.resolve (h : s.Sound) (hresolve : s.CanResolve) :
    Sound { s with isInitialized := false, resolved := true } := by
  obtain ⟨-, awaited, hawaited, hdone⟩ := hresolve
  refine ⟨⟨h.once.places, h.once.distinct⟩, h.objects, h.ids, h.fresh, h.tried, h.begun, h.waits,
    h.before, fun _ => ⟨rfl, by simp [hawaited], fun f hf => ?_⟩, h.late, rfl⟩
  cases hduring : f.duringShutdown with
  | true => rfl
  | false => exact absurd (h.waits awaited hawaited f hf hduring) (hdone f hf)

/-! ### Runs -/

theorem Sound.step (h : s.Sound) (flushBatchSize : ℕ) (action : Action) :
    (step flushBatchSize s action).Sound := by
  cases action with
  | workflowExecuteAfter ctx => exact h.handleWorkflowExecuteAfter _ ctx
  | timer =>
    rw [Insights.step]
    split
    · exact (h.others false s.handlers).flushEvents
    · exact h
  | saveEnds id stored =>
    rw [Insights.step]
    split
    case h_1 f hf =>
      have hstage := List.find?_some hf
      exact h.save (List.mem_of_find?_eq_some hf)
        (by simpa using (by simpa using hstage : _ ∧ _).2) _
    case h_2 => exact h
  | flushSettles id =>
    rw [Insights.step]
    split
    case h_1 f hf =>
      have hstage := List.find?_some hf
      exact h.settle (List.mem_of_find?_eq_some hf)
        (by simpa using (by simpa using hstage : _ ∧ _).2)
    case h_2 => exact h
  | handlerResumes id =>
    rw [Insights.step]
    split
    · exact (h.others s.flushInsightsRawBufferTimer _).flushWhenFull _
    · exact h
  | shutdownBegins =>
    rw [Insights.step]
    split
    case isTrue hawaited => exact h.shutdown hawaited
    case isFalse => exact h
  | shutdownResolves =>
    rw [Insights.step]
    split
    case isTrue hresolve => exact h.resolve hresolve
    case isFalse => exact h

theorem Drained.step (hd : s.Drained) (h : s.Sound) (flushBatchSize : ℕ) (action : Action) :
    (step flushBatchSize s action).Drained := by
  cases action with
  | workflowExecuteAfter ctx => exact hd.handleWorkflowExecuteAfter h _ ctx
  | timer =>
    rw [Insights.step]
    split
    · exact (hd.others false s.handlers).flushEvents
    · exact hd
  | saveEnds id stored =>
    rw [Insights.step]
    split
    · exact hd.save _ _
    · exact hd
  | flushSettles id =>
    rw [Insights.step]
    split
    case h_1 f hf =>
      have hstage := List.find?_some hf
      exact hd.settle h (List.mem_of_find?_eq_some hf)
        (by simpa using (by simpa using hstage : _ ∧ _).2)
    case h_2 => exact hd
  | handlerResumes id =>
    rw [Insights.step]
    split
    · exact (hd.others s.flushInsightsRawBufferTimer _).flushWhenFull _
    · exact hd
  | shutdownBegins =>
    rw [Insights.step]
    split
    case isTrue hawaited => exact Drained.shutdown h hawaited
    case isFalse => exact hd
  | shutdownResolves =>
    rw [Insights.step]
    split
    · exact ⟨hd.kept, hd.lost⟩
    · exact hd

theorem resolved_flushEvents (s : InsightsCollection) : s.flushEvents.1.resolved = s.resolved := by
  obtain ⟨-, heq⟩ | ⟨-, heq⟩ | ⟨-, -, heq⟩ := flushEvents_cases s <;> rw [heq]
  · obtain ⟨timer, htimer⟩ := scheduleFlushing_eq s
    rw [htimer]
  · rfl

theorem resolved_flushWhenFull (s : InsightsCollection) (flushBatchSize : ℕ) :
    (s.flushWhenFull flushBatchSize).resolved = s.resolved := by
  unfold flushWhenFull
  split
  · exact resolved_flushEvents s
  · rfl

/-- Only the end of the shutdown resolves it. -/
theorem resolved_step (s : InsightsCollection) (flushBatchSize : ℕ) {action : Action}
    (haction : action ≠ .shutdownResolves) :
    (step flushBatchSize s action).resolved = s.resolved := by
  cases action with
  | workflowExecuteAfter ctx =>
    rw [Insights.step, handleWorkflowExecuteAfter]
    split
    · rfl
    split
    · rfl
    dsimp only
    split
    · exact resolved_flushEvents (s.collect ctx)
    · exact resolved_flushWhenFull (s.collect ctx) flushBatchSize
  | timer =>
    rw [Insights.step]
    split
    · exact resolved_flushEvents _
    · rfl
  | saveEnds id stored =>
    rw [Insights.step]
    split <;> rfl
  | flushSettles id =>
    rw [Insights.step]
    split
    case h_1 f hf =>
      unfold settle scheduleFlushing
      dsimp only
      split <;> split <;> rfl
    case h_2 => rfl
  | handlerResumes id =>
    rw [Insights.step]
    split
    · exact resolved_flushWhenFull _ _
    · rfl
  | shutdownBegins =>
    rw [Insights.step]
    split
    · exact resolved_flushEvents
        { s.cancelScheduledFlushing with isAsynchronouslySavingInsights := false }
    · rfl
  | shutdownResolves => exact absurd rfl haction

/-- After the shutdown nothing is collected or flushed, and the flushes that are left were started
during it. -/
theorem lateFailure_step (h : s.Sound) (hresolved : s.resolved = true) (flushBatchSize : ℕ)
    (action : Action) : (step flushBatchSize s action).lateFailure = s.lateFailure := by
  obtain ⟨hinit, hawaited, hduring⟩ := h.done hresolved
  have hflush : ∀ s' : InsightsCollection, s'.isInitialized = false →
      s'.flushEvents = (s', none) := by
    intro s' hs'
    simp [flushEvents, hs']
  cases action with
  | workflowExecuteAfter ctx =>
    simp [Insights.step, handleWorkflowExecuteAfter, hinit]
  | timer =>
    rw [Insights.step]
    split
    · exact congrArg (fun r => r.1.lateFailure)
        (hflush { s with flushInsightsRawBufferTimer := false } hinit)
    · rfl
  | saveEnds id stored =>
    rw [Insights.step]
    split <;> rfl
  | flushSettles id =>
    rw [Insights.step]
    split
    case h_1 f hf =>
      have hf' := hduring f (List.mem_of_find?_eq_some hf)
      unfold settle scheduleFlushing
      dsimp only
      split <;> split <;> simp [hf']
    case h_2 => rfl
  | handlerResumes id =>
    rw [Insights.step]
    split
    · unfold flushWhenFull
      split
      · exact congrArg (fun r => r.1.lateFailure)
          (hflush { s with handlers := s.handlers.erase id } hinit)
      · rfl
    · rfl
  | shutdownBegins =>
    rw [Insights.step]
    split
    case isTrue hnone => exact absurd hnone hawaited
    case isFalse => rfl
  | shutdownResolves =>
    rw [Insights.step]
    split <;> rfl

theorem Drained.leavesNone (hd : s.Drained) (h : s.Sound)
    (hlate : s.resolved = true → s.lateFailure = false) : s.LeavesNone := by
  intro hresolved e he
  have hsync : s.isAsynchronouslySavingInsights = false := by
    have hbegun := (h.done hresolved).2.1
    simpa [h.begun] using hbegun
  refine (hd.kept hsync e he).resolve_right ?_
  simp [hlate hresolved]

end InsightsCollection

open InsightsCollection

/-- The end of the shutdown finds no late failure: since the last flush was started, no flush from
before the shutdown has failed. -/
def NoLateFailure (s : InsightsCollection) (action : Action) : Prop :=
  action = .shutdownResolves → s.CanResolve → s.lateFailure = false

theorem sound_init : Sound {} := by
  refine ⟨⟨List.Perm.refl _, List.nodup_nil⟩, ?_, List.nodup_nil, ?_, ?_, ?_, ?_, ?_, ?_, ?_,
    rfl⟩ <;> simp

theorem drained_init : Drained {} := by
  refine ⟨?_, ?_⟩ <;> simp

theorem sound_run (flushBatchSize : ℕ) (actions : List Action) :
    Sound (Trace.run (step flushBatchSize) {} actions) ∧
      Drained (Trace.run (step flushBatchSize) {} actions) :=
  Trace.invariant_run (I := fun s => Sound s ∧ Drained s) ⟨sound_init, drained_init⟩
    (fun _ action h => ⟨h.1.step flushBatchSize action, h.2.step h.1 flushBatchSize action⟩) actions

/-- **Insights are stored exactly once**: at every moment each event is in one place, and a resolved
shutdown leaves in the buffer only events that it tried to save last, exactly when it never resolves
after a late failure. -/
theorem storedOnce_iff (flushBatchSize : ℕ) (actions : List Action) :
    (∀ pre, pre <+: actions → StoredOnce (Trace.run (step flushBatchSize) {} pre) ∧
        LeavesNone (Trace.run (step flushBatchSize) {} pre)) ↔
      Trace.EachStep (step flushBatchSize) NoLateFailure {} actions := by
  constructor
  · rintro h pre action hpre rfl hresolve
    obtain ⟨hsound, hdrained⟩ := sound_run flushBatchSize pre
    by_contra hlate
    obtain ⟨e, he, hlast⟩ := hdrained.lost (by simpa using hlate)
    have hleaves := (h _ hpre).2
    rw [Trace.run_concat, step, if_pos hresolve] at hleaves
    have hlast' : lastAttempt (Trace.run (step flushBatchSize) {} pre) e = some true :=
      hleaves rfl e he
    rw [hlast] at hlast'
    cases hlast'
  · intro h pre hpre
    have hinv := h.invariant
      (I := fun s => (Sound s ∧ Drained s) ∧ (s.resolved = true → s.lateFailure = false))
      ⟨⟨sound_init, drained_init⟩, by simp⟩ (fun s action hs haction => by
        refine ⟨⟨hs.1.1.step _ _, hs.1.2.step hs.1.1 _ _⟩, fun hresolved => ?_⟩
        by_cases hbefore : s.resolved = true
        · rw [lateFailure_step hs.1.1 hbefore]
          exact hs.2 hbefore
        · cases action with
          | shutdownResolves =>
            rw [step] at hresolved ⊢
            split at hresolved
            case isTrue hresolve =>
              rw [if_pos hresolve]
              exact haction rfl hresolve
            case isFalse => exact absurd hresolved hbefore
          | _ => exact absurd (by rwa [resolved_step s _ (by simp)] at hresolved) hbefore) pre hpre
    exact ⟨hinv.1.1.once, hinv.1.2.leavesNone hinv.1.1 hinv.2⟩

/-- An execution that succeeds in five seconds. -/
def succeeded : WorkflowExecuteAfterContext :=
  { workflowId := "w1", workflowName := "Orders", status := .success, mode := .webhook,
    startedAt := 0, stoppedAt := some 5000, now := 5001 }

/-- A flush is in progress when the shutdown begins, and it fails. -/
def flushFailsDuringShutdown : List Action :=
  [.workflowExecuteAfter succeeded, .shutdownBegins, .saveEnds 0 false, .flushSettles 0,
    .shutdownResolves]

/-- A shutdown during a flush that fails: its events are left in the buffer. -/
theorem shutdown_leaves_events : ¬ ∀ (flushBatchSize : ℕ) (actions pre : List Action),
    pre <+: actions → StoredOnce (Trace.run (step flushBatchSize) {} pre) ∧
      LeavesNone (Trace.run (step flushBatchSize) {} pre) := by
  intro h
  have hleaves := (h 1 flushFailsDuringShutdown _ (List.prefix_refl _)).2
  have hresolved : (Trace.run (step 1) {} flushFailsDuringShutdown).resolved = true := by
    decide +kernel
  have hlost : ¬ ∀ e ∈ (Trace.run (step 1) {} flushFailsDuringShutdown).bufferedInsights.elems,
      lastAttempt (Trace.run (step 1) {} flushFailsDuringShutdown) e = some true := by
    decide +kernel
  exact hlost (hleaves hresolved)

end Insights

end N8n
