import N8n.Insights.StoredOnce
import N8n.Lib.Dict
import N8n.Lib.Pointwise

/-!
# What a flush stores

`saveInsightsMetadataAndRaw` looks up the owners of the workflows of all buffered events, and then
turns the events into rows.  An event whose workflow has neither an owner nor cached metadata makes
the flush fail, and all of its events are put back.

* `InsightsDatabase`, `Saver`: the tables that a flush reads and writes, and the cached metadata;
* `saveInsightsMetadataAndRaw`: the save;
* `Insights`, `flushAlone`: the service, and a flush that nothing interrupts;
* `flush_storesOwned_iff`: a flush stores what it can exactly when no event is unknown.
-/

namespace N8n

namespace Insights

/-! ### The save -/

/-- A row of the shared workflows with the role of the owner, with its project. -/
structure SharedWorkflow where
  workflowId : String
  projectId : String
  projectName : String
  deriving DecidableEq

/-- A row of the metadata, before the database gives it an id. -/
structure MetadataFields where
  workflowId : String
  workflowName : String
  projectId : String
  projectName : String
  deriving DecidableEq

structure InsightsMetadata extends MetadataFields where
  metaId : ℕ
  deriving DecidableEq

/-- A row of the raw table, before the database gives it an id. -/
structure NewInsightsRaw where
  metaId : ℕ
  type : InsightType
  value : ℚ
  timestamp : ℤ
  deriving DecidableEq

/-- The tables: the owners' sharings, the metadata with the next id, and the raw events. -/
structure InsightsDatabase where
  sharedWorkflows : List SharedWorkflow
  metadata : List InsightsMetadata := []
  nextMetaId : ℕ := 1
  raw : List NewInsightsRaw := []
  deriving DecidableEq

/-- What `saveInsightsMetadataAndRaw` works on. -/
structure Saver where
  db : InsightsDatabase
  cachedMetadata : Dict String InsightsMetadata := .empty

/-- Insert a row, or update the one of the same workflow. -/
def InsightsDatabase.upsert (db : InsightsDatabase) (fields : MetadataFields) : InsightsDatabase :=
  if db.metadata.any fun row => row.workflowId = fields.workflowId then
    { db with
      metadata := db.metadata.map fun row =>
        if row.workflowId = fields.workflowId then ⟨fields, row.metaId⟩ else row }
  else
    { db with
      metadata := db.metadata ++ [⟨fields, db.nextMetaId⟩]
      nextMetaId := db.nextMetaId + 1 }

/-- The workflows of the events; the last event gives the name. -/
def workflowIdNames (events : List BufferedInsight) : Dict String String :=
  events.foldl (fun names event => names.set event.workflowId event.workflowName) .empty

/-- The metadata of a workflow. -/
def fieldsOf (names : Dict String String) (workflow : SharedWorkflow) : MetadataFields where
  workflowId := workflow.workflowId
  workflowName := (names.get? workflow.workflowId).getD ""
  projectId := workflow.projectId
  projectName := workflow.projectName

/-- The cache has the metadata as it is. -/
def upToDate (cached : Dict String InsightsMetadata) (fields : MetadataFields) : Bool :=
  (cached.get? fields.workflowId).any fun metadata =>
    metadata.projectId = fields.projectId ∧ metadata.projectName = fields.projectName ∧
      metadata.workflowName = fields.workflowName

/-- The metadata that is not in the cache, or differs from it. -/
def metadataToUpsert (cached : Dict String InsightsMetadata) (names : Dict String String)
    (sharedWorkflows : List SharedWorkflow) : List MetadataFields :=
  (sharedWorkflows.map (fieldsOf names)).filter fun fields => !upToDate cached fields

/-- The row of one event. -/
def rawOf (cached : Dict String InsightsMetadata) (event : BufferedInsight) :
    Except String NewInsightsRaw :=
  match cached.get? event.workflowId with
  | none =>
    .error ("Could not find shared workflow for insight with workflowId " ++ event.workflowId)
  | some metadata => .ok {
      metaId := metadata.metaId
      type := event.type
      value := event.value
      timestamp := event.timestamp }

namespace Saver

/-- The metadata of the owned workflows is saved and cached. -/
def refreshMetadata (s : Saver) (events : List BufferedInsight) : Saver :=
  let names := workflowIdNames events
  let sharedWorkflows := s.db.sharedWorkflows.filter fun workflow => names.has workflow.workflowId
  let toUpsert := metadataToUpsert s.cachedMetadata names sharedWorkflows
  let db := toUpsert.foldl InsightsDatabase.upsert s.db
  let upserted := db.metadata.filter fun row =>
    toUpsert.any fun fields => row.workflowId = fields.workflowId
  { db
    cachedMetadata := upserted.foldl (fun cached row => cached.set row.workflowId row)
      s.cachedMetadata }

def saveInsightsMetadataAndRaw (s : Saver) (events : List BufferedInsight) :
    Except String Unit × Saver :=
  let s := s.refreshMetadata events
  match events.mapM (rawOf s.cachedMetadata) with
  | .error e => (.error e, s)
  | .ok rows => (.ok (), { s with db := { s.db with raw := s.db.raw ++ rows } })

end Saver

/-! ### The flush -/

/-- The service with what it saves to. -/
structure InsightsService where
  collection : InsightsCollection
  saver : Saver

/-- The end of the save of a flush, and what comes after it; the size of a batch plays no part. -/
def InsightsCollection.endFlush (s : InsightsCollection) (id : ℕ) (stored : Bool) :
    InsightsCollection :=
  step 0 (step 0 s (.saveEnds id stored)) (.flushSettles id)

/-- A flush with a database that answers, from its start to its end. -/
def InsightsService.flushAlone (s : InsightsService) : InsightsService :=
  match s.collection.flushEvents with
  | (collection, none) => { s with collection }
  | (collection, some id) =>
    let result := s.saver.saveInsightsMetadataAndRaw s.collection.bufferedInsights.elems
    { collection := collection.endFlush id result.1.isOk, saver := result.2 }

/-! ### The cached metadata -/

/-- The workflow has an owner. -/
def InsightsDatabase.Owned (db : InsightsDatabase) (workflowId : String) : Prop :=
  ∃ workflow ∈ db.sharedWorkflows, workflow.workflowId = workflowId

/-- The workflow has an owner or cached metadata. -/
def Saver.Known (s : Saver) (workflowId : String) : Prop :=
  s.db.Owned workflowId ∨ (s.cachedMetadata.get? workflowId).isSome = true

theorem sharedWorkflows_upsert (db : InsightsDatabase) (fields : MetadataFields) :
    (db.upsert fields).sharedWorkflows = db.sharedWorkflows := by
  unfold InsightsDatabase.upsert
  split <;> rfl

theorem sharedWorkflows_foldl_upsert (l : List MetadataFields) (db : InsightsDatabase) :
    (l.foldl InsightsDatabase.upsert db).sharedWorkflows = db.sharedWorkflows := by
  induction l generalizing db with
  | nil => rfl
  | cons fields l ih => rw [List.foldl_cons, ih, sharedWorkflows_upsert]

/-- The database has a row of the workflow. -/
def InsightsDatabase.HasRow (db : InsightsDatabase) (workflowId : String) : Prop :=
  ∃ row ∈ db.metadata, row.workflowId = workflowId

theorem hasRow_upsert_iff (db : InsightsDatabase) (fields : MetadataFields) (workflowId : String) :
    (db.upsert fields).HasRow workflowId ↔
      db.HasRow workflowId ∨ fields.workflowId = workflowId := by
  unfold InsightsDatabase.upsert InsightsDatabase.HasRow
  split
  case isTrue h =>
    obtain ⟨old, hold, hsame⟩ : ∃ old ∈ db.metadata, old.workflowId = fields.workflowId := by
      simpa using h
    constructor
    · rintro ⟨row, hrow, hid⟩
      obtain ⟨row', hrow', rfl⟩ := List.mem_map.1 hrow
      split at hid
      · exact .inr hid
      · exact .inl ⟨row', hrow', hid⟩
    · intro h
      have hrow : ∃ row ∈ db.metadata, row.workflowId = workflowId := by
        rcases h with h | rfl
        · exact h
        · exact ⟨old, hold, hsame⟩
      obtain ⟨row, hrow, hid⟩ := hrow
      refine ⟨_, List.mem_map_of_mem hrow, ?_⟩
      split
      case isTrue heq => exact heq.symm.trans hid
      case isFalse => exact hid
  case isFalse => simp [or_and_right, exists_or, eq_comm]

theorem hasRow_foldl_upsert_iff (l : List MetadataFields) (db : InsightsDatabase)
    (workflowId : String) :
    (l.foldl InsightsDatabase.upsert db).HasRow workflowId ↔
      db.HasRow workflowId ∨ ∃ fields ∈ l, fields.workflowId = workflowId := by
  induction l generalizing db with
  | nil => simp
  | cons fields l ih =>
    rw [List.foldl_cons, ih, hasRow_upsert_iff, or_assoc]
    simp

theorem isSome_foldl_cache_iff (rows : List InsightsMetadata) (cached : Dict String InsightsMetadata)
    (workflowId : String) :
    ((rows.foldl (fun cached row => cached.set row.workflowId row) cached).get? workflowId).isSome =
        true ↔
      (∃ row ∈ rows, row.workflowId = workflowId) ∨ (cached.get? workflowId).isSome = true := by
  induction rows generalizing cached with
  | nil => simp
  | cons row rows ih =>
    rw [List.foldl_cons, ih, Dict.get?_set]
    by_cases h : workflowId = row.workflowId
    · simp [h]
    · simp [h, Ne.symm h]

theorem has_workflowIdNames_iff {events : List BufferedInsight} {workflowId : String} :
    (workflowIdNames events).has workflowId = true ↔
      ∃ event ∈ events, event.workflowId = workflowId := by
  have hfold : ∀ (l : List BufferedInsight) (names : Dict String String),
      (l.foldl (fun names event => names.set event.workflowId event.workflowName) names).has
        workflowId = true ↔
      (∃ event ∈ l, event.workflowId = workflowId) ∨ names.has workflowId = true := by
    intro l
    induction l with
    | nil => simp
    | cons event l ih =>
      intro names
      rw [List.foldl_cons, ih, Dict.has, Dict.has, Dict.get?_set]
      by_cases h : workflowId = event.workflowId
      · simp [h]
      · simp [h, Ne.symm h]
  rw [workflowIdNames, hfold]
  simp [Dict.has]

/-- What is to be saved: the owned workflows whose metadata is not in the cache as it is. -/
theorem exists_metadataToUpsert_iff {cached : Dict String InsightsMetadata}
    {names : Dict String String} {l : List SharedWorkflow} {workflowId : String} :
    ((∃ fields ∈ metadataToUpsert cached names l, fields.workflowId = workflowId) ∨
        (cached.get? workflowId).isSome = true) ↔
      (∃ workflow ∈ l, workflow.workflowId = workflowId) ∨
        (cached.get? workflowId).isSome = true := by
  constructor
  · rintro (⟨fields, hfields, hid⟩ | hcached)
    · obtain ⟨workflow, hworkflow, rfl⟩ := List.mem_map.1 (List.mem_of_mem_filter hfields)
      exact .inl ⟨workflow, hworkflow, hid⟩
    · exact .inr hcached
  · rintro (⟨workflow, hworkflow, rfl⟩ | hcached)
    · by_cases hcached : (cached.get? workflow.workflowId).isSome = true
      · exact .inr hcached
      · rw [Option.not_isSome_iff_eq_none] at hcached
        have hstale : upToDate cached (fieldsOf names workflow) = false := by
          simp [upToDate, fieldsOf, hcached]
        exact .inl ⟨fieldsOf names workflow,
          List.mem_filter.2 ⟨List.mem_map_of_mem hworkflow, by simp [hstale]⟩, rfl⟩
    · exact .inr hcached

namespace Saver

variable {s : Saver} {events : List BufferedInsight} {workflowId : String}

theorem owned_refreshMetadata_iff :
    (s.refreshMetadata events).db.Owned workflowId ↔ s.db.Owned workflowId := by
  unfold InsightsDatabase.Owned refreshMetadata
  dsimp only
  rw [sharedWorkflows_foldl_upsert]

/-- **The cache after the look-up**: it has the metadata that it had, and that of the workflows of the
events that have an owner. -/
theorem isSome_refreshMetadata_iff :
    ((s.refreshMetadata events).cachedMetadata.get? workflowId).isSome = true ↔
      (s.db.Owned workflowId ∧ ∃ event ∈ events, event.workflowId = workflowId) ∨
        (s.cachedMetadata.get? workflowId).isSome = true := by
  unfold refreshMetadata
  dsimp only
  rw [isSome_foldl_cache_iff, ← has_workflowIdNames_iff]
  generalize hshared : s.db.sharedWorkflows.filter (fun workflow =>
    (workflowIdNames events).has workflow.workflowId) = shared
  generalize hfields : metadataToUpsert s.cachedMetadata (workflowIdNames events) shared = toUpsert
  have hrows : (∃ row ∈ (toUpsert.foldl InsightsDatabase.upsert s.db).metadata.filter
        (fun row => toUpsert.any fun fields => row.workflowId = fields.workflowId),
      row.workflowId = workflowId) ↔ ∃ fields ∈ toUpsert, fields.workflowId = workflowId := by
    constructor
    · rintro ⟨row, hrow, rfl⟩
      obtain ⟨fields, hmem, hsame⟩ := List.any_eq_true.1 (List.mem_filter.1 hrow).2
      exact ⟨fields, hmem, (by simpa using hsame : row.workflowId = fields.workflowId).symm⟩
    · rintro ⟨fields, hmem, rfl⟩
      obtain ⟨row, hrow, hid⟩ := (hasRow_foldl_upsert_iff toUpsert s.db _).2 (.inr ⟨fields, hmem, rfl⟩)
      refine ⟨row, List.mem_filter.2 ⟨hrow, List.any_eq_true.2 ⟨fields, hmem, ?_⟩⟩, hid⟩
      simpa using hid
  rw [hrows, ← hfields, exists_metadataToUpsert_iff, ← hshared]
  have howned : (∃ workflow ∈ s.db.sharedWorkflows.filter (fun workflow =>
        (workflowIdNames events).has workflow.workflowId), workflow.workflowId = workflowId) ↔
      s.db.Owned workflowId ∧ (workflowIdNames events).has workflowId = true := by
    constructor
    · rintro ⟨workflow, hworkflow, rfl⟩
      obtain ⟨hmem, hhas⟩ := List.mem_filter.1 hworkflow
      exact ⟨⟨workflow, hmem, rfl⟩, hhas⟩
    · rintro ⟨⟨workflow, hmem, rfl⟩, hhas⟩
      exact ⟨workflow, List.mem_filter.2 ⟨hmem, hhas⟩, rfl⟩
  rw [howned]

/-- Of the workflows of the events, those are cached that were known. -/
theorem cached_iff_known {event : BufferedInsight} (hevent : event ∈ events) :
    ((s.refreshMetadata events).cachedMetadata.get? event.workflowId).isSome = true ↔
      s.Known event.workflowId := by
  rw [isSome_refreshMetadata_iff, Known, and_iff_left ⟨event, hevent, rfl⟩]

/-- What is known does not change by a look-up. -/
theorem known_refreshMetadata_iff :
    (s.refreshMetadata events).Known workflowId ↔ s.Known workflowId := by
  rw [Known, owned_refreshMetadata_iff, isSome_refreshMetadata_iff, Known]
  tauto

theorem exists_rawOf_iff {cached : Dict String InsightsMetadata} {event : BufferedInsight} :
    (∃ row, rawOf cached event = .ok row) ↔ (cached.get? event.workflowId).isSome = true := by
  unfold rawOf
  cases cached.get? event.workflowId with
  | none => simp
  | some metadata => simp

/-- **The save**: it succeeds when the workflows of all events are known, and then inserts all rows;
otherwise it inserts none. -/
theorem save_of_known (h : ∀ event ∈ events, s.Known event.workflowId) :
    ∃ rows, events.mapM (rawOf (s.refreshMetadata events).cachedMetadata) = .ok rows ∧
      s.saveInsightsMetadataAndRaw events = (.ok (), { s.refreshMetadata events with
        db := { (s.refreshMetadata events).db with
          raw := (s.refreshMetadata events).db.raw ++ rows } }) := by
  obtain ⟨rows, hrows⟩ := Except.exists_mapM_eq_ok_iff.2 fun event hevent =>
    exists_rawOf_iff.2 ((cached_iff_known hevent).2 (h event hevent))
  exact ⟨rows, hrows, by rw [saveInsightsMetadataAndRaw, hrows]⟩

theorem save_of_not_known {event : BufferedInsight} (hevent : event ∈ events)
    (h : ¬ s.Known event.workflowId) :
    ∃ e, s.saveInsightsMetadataAndRaw events = (.error e, s.refreshMetadata events) := by
  unfold saveInsightsMetadataAndRaw
  dsimp only
  cases hrows : events.mapM (rawOf (s.refreshMetadata events).cachedMetadata) with
  | error e => exact ⟨e, rfl⟩
  | ok rows =>
    have hall := Except.exists_mapM_eq_ok_iff.1 ⟨rows, hrows⟩ event hevent
    exact absurd ((cached_iff_known hevent).1 (exists_rawOf_iff.1 hall)) h

end Saver

/-! ### A flush from its start to its end -/

namespace InsightsCollection

variable {s : InsightsCollection}

/-- The flush that `startFlush` starts. -/
def started (s : InsightsCollection) (stage : FlushStage) : Flush where
  id := s.flushes
  events := s.bufferedInsights
  stage := stage
  duringShutdown := !s.isAsynchronouslySavingInsights

theorem flushesInProgress_startFlush (s : InsightsCollection) :
    s.startFlush.flushesInProgress = s.flushesInProgress ++ [s.started .saving] := rfl

/-- The newest flush is the one with its number. -/
theorem find?_started (hfresh : ∀ f ∈ s.flushesInProgress, f.id < s.flushes) (stage : FlushStage)
    (p : Flush → Bool) (hp : p (s.started stage) = true) :
    (s.flushesInProgress ++ [s.started stage]).find? (fun f => f.id = s.flushes ∧ p f) =
      some (s.started stage) := by
  rw [List.find?_append, List.find?_eq_none.2 fun f hf => ?_, Option.none_or, List.find?_singleton,
    if_pos (by rw [decide_eq_true_iff]; exact ⟨rfl, hp⟩)]
  have := hfresh f hf
  simp only [decide_eq_true_eq, not_and]
  omega

/-- **The end of a flush**: its events are inserted, or they are back in the buffer. -/
theorem endFlush_startFlush (hfresh : ∀ f ∈ s.flushesInProgress, f.id < s.flushes) (stored : Bool) :
    (s.startFlush.endFlush s.flushes stored).isInitialized = s.isInitialized ∧
      (s.startFlush.endFlush s.flushes stored).raw =
        (if stored then s.raw ++ s.bufferedInsights.elems else s.raw) ∧
      (s.startFlush.endFlush s.flushes stored).bufferedInsights.elems =
        if stored then [] else s.bufferedInsights.elems := by
  let stage : FlushStage := if stored then .stored else .failed
  have hsaving := find?_started hfresh .saving (fun f => f.stage = .saving) (by simp [started])
  have hflushes : (s.startFlush.save stored (s.started .saving)).flushesInProgress =
      s.flushesInProgress ++ [s.started stage] := by
    simp only [InsightsCollection.save, flushesInProgress_startFlush, List.map_append]
    congr 1
    · refine (List.map_congr_left fun f hf => ?_).trans (List.map_id _)
      have := hfresh f hf
      exact if_neg (by simp only [started]; omega)
    · simp [started, stage]
  have hended := find?_started hfresh stage (fun f => f.stage ≠ .saving) (by
    cases stored <;> simp [started, stage])
  have hstep : s.startFlush.endFlush s.flushes stored =
      (s.startFlush.save stored (s.started .saving)).settle (s.started stage) := by
    unfold endFlush
    simp only [step, flushesInProgress_startFlush]
    simp only [decide_eq_true_eq] at hsaving hended
    rw [hsaving]
    simp only [hflushes]
    rw [hended]
  rw [hstep]
  cases stored with
  | true =>
    obtain ⟨timer, htimer⟩ := settle_of_stored
      (s := s.startFlush.save true (s.started .saving)) (f := s.started stage) rfl
    rw [htimer]
    exact ⟨rfl, rfl, rfl⟩
  | false =>
    obtain ⟨timer, htimer⟩ := settle_of_failed
      (s := s.startFlush.save false (s.started .saving)) (f := s.started stage) rfl
    rw [htimer]
    refine ⟨rfl, rfl, ?_⟩
    exact OrderedSet.elems_foldl_insert s.bufferedInsights.nodup fun _ _ h => List.not_mem_nil h

end InsightsCollection

open InsightsCollection

namespace InsightsService

variable {s : InsightsService}

theorem sound_flushAlone (h : s.collection.Sound) : s.flushAlone.collection.Sound := by
  unfold flushAlone
  split
  case h_1 collection heq =>
    have hsound := h.flushEvents
    rw [heq] at hsound
    exact hsound
  case h_2 collection id heq =>
    have hsound := h.flushEvents
    rw [heq] at hsound
    exact (hsound.step 0 (.saveEnds id _)).step 0 (.flushSettles id)

/-- Without a start nothing is saved. -/
theorem flushAlone_of_idle (h : s.collection.isInitialized = false ∨
      s.collection.bufferedInsights.elems = []) :
    s.flushAlone.saver = s.saver ∧ s.flushAlone.collection.raw = s.collection.raw ∧
      s.flushAlone.collection.isInitialized = s.collection.isInitialized ∧
      s.flushAlone.collection.bufferedInsights = s.collection.bufferedInsights := by
  unfold flushAlone
  obtain ⟨-, heq⟩ | ⟨-, heq⟩ | ⟨hinit, hne, -⟩ := flushEvents_cases s.collection
  · rw [heq]
    exact ⟨rfl, rfl, rfl, rfl⟩
  · obtain ⟨timer, htimer⟩ := scheduleFlushing_eq s.collection
    rw [heq, htimer]
    exact ⟨rfl, rfl, rfl, rfl⟩
  · rcases h with h | h
    · exact absurd (hinit.symm.trans h) (by simp)
    · exact absurd h hne

theorem flushAlone_of_started (hinit : s.collection.isInitialized = true)
    (hne : s.collection.bufferedInsights.elems ≠ []) :
    s.flushAlone =
      { collection := s.collection.startFlush.endFlush s.collection.flushes
          (s.saver.saveInsightsMetadataAndRaw s.collection.bufferedInsights.elems).1.isOk
        saver := (s.saver.saveInsightsMetadataAndRaw s.collection.bufferedInsights.elems).2 } := by
  unfold flushAlone
  obtain ⟨h, -⟩ | ⟨h, -⟩ | ⟨-, -, heq⟩ := flushEvents_cases s.collection
  · exact absurd (hinit.symm.trans h) (by simp)
  · exact absurd h hne
  · rw [heq]

/-- The event and its row are stored. -/
def Stored (s : InsightsService) (event : BufferedInsight) : Prop :=
  event ∈ s.collection.raw ∧ ∃ metadata,
    s.saver.cachedMetadata.get? event.workflowId = some metadata ∧
      ⟨metadata.metaId, event.type, event.value, event.timestamp⟩ ∈ s.saver.db.raw

/-- **A flush of known events** stores them all and leaves the buffer empty. -/
theorem flushAlone_of_known (h : s.collection.Sound) (hinit : s.collection.isInitialized = true)
    (hne : s.collection.bufferedInsights.elems ≠ [])
    (hknown : ∀ event ∈ s.collection.bufferedInsights, s.saver.Known event.workflowId) :
    (∀ event ∈ s.collection.bufferedInsights, s.flushAlone.Stored event) ∧
      s.flushAlone.collection.bufferedInsights.elems = [] := by
  obtain ⟨rows, hrows, hsave⟩ := Saver.save_of_known hknown
  rw [flushAlone_of_started hinit hne, hsave]
  obtain ⟨-, hraw, hbuffer⟩ := endFlush_startFlush h.fresh true
  refine ⟨fun event hevent => ⟨?_, ?_⟩, hbuffer⟩
  · change event ∈ (endFlush _ _ true).raw
    rw [hraw]
    exact List.mem_append_right _ hevent
  · obtain ⟨row, hrow, hof⟩ := (Except.mapM_eq_ok_iff.1 hrows).exists_right event hevent
    unfold rawOf at hof
    split at hof
    case h_1 => cases hof
    case h_2 metadata hmetadata =>
      obtain rfl := Except.ok.inj hof
      exact ⟨metadata, hmetadata, List.mem_append_right _ hrow⟩

/-- The flushes fail, or there are none, as long as an event is buffered whose workflow is unknown. -/
def Blocked (event : BufferedInsight) (s : InsightsService) : Prop :=
  s.collection.Sound ∧ event ∈ s.collection.bufferedInsights ∧
    (s.collection.isInitialized = false ∨ ¬ s.saver.Known event.workflowId)

theorem Blocked.flushAlone {event : BufferedInsight} (h : Blocked event s) :
    Blocked event s.flushAlone := by
  obtain ⟨hsound, hmem, hblocked⟩ := h
  refine ⟨sound_flushAlone hsound, ?_⟩
  have hne : s.collection.bufferedInsights.elems ≠ [] := List.ne_nil_of_mem hmem
  cases hinit : s.collection.isInitialized with
  | false =>
    obtain ⟨-, -, hinit', hbuffer⟩ := flushAlone_of_idle (.inl hinit)
    rw [hinit', hbuffer]
    exact ⟨hmem, .inl hinit⟩
  | true =>
    have hunknown := hblocked.resolve_left (by simp [hinit])
    obtain ⟨e, hsave⟩ := Saver.save_of_not_known hmem hunknown
    obtain ⟨-, -, hbuffer⟩ := endFlush_startFlush hsound.fresh false
    rw [flushAlone_of_started hinit hne, hsave]
    refine ⟨?_, .inr fun hknown => hunknown (Saver.known_refreshMetadata_iff.1 hknown)⟩
    change event ∈ (endFlush _ _ false).bufferedInsights.elems
    rw [hbuffer]
    exact hmem

theorem Blocked.iterate {event : BufferedInsight} (h : Blocked event s) (n : ℕ) :
    Blocked event (InsightsService.flushAlone^[n] s) := by
  induction n generalizing s with
  | zero => exact h
  | succ n ih => exact ih h.flushAlone

end InsightsService

open InsightsService

/-- The service after some actions, with what it saves to. -/
def serviceAfter (flushBatchSize : ℕ) (actions : List Action) (saver : Saver) : InsightsService where
  collection := Trace.run (step flushBatchSize) {} actions
  saver := saver

/-- A flush stores every event whose workflow has an owner, and repeated flushes get rid of the events
that were buffered. -/
structure StoresOwned (s : InsightsService) : Prop where
  owned : ∀ event ∈ s.collection.bufferedInsights, s.saver.db.Owned event.workflowId →
    s.flushAlone.Stored event
  progress : ∃ n, ∀ event ∈ s.collection.bufferedInsights,
    event ∉ (flushAlone^[n] s).collection.bufferedInsights

/-- **One bad event**: whatever has been collected, a flush stores what it can and does not fail again
and again exactly when nothing is buffered, or the service runs and the workflow of every buffered
event has an owner or cached metadata. -/
theorem flush_storesOwned_iff (flushBatchSize : ℕ) (actions : List Action) (saver : Saver) :
    StoresOwned (serviceAfter flushBatchSize actions saver) ↔
      ∀ event ∈ (serviceAfter flushBatchSize actions saver).collection.bufferedInsights,
        (serviceAfter flushBatchSize actions saver).collection.isInitialized = true ∧
          saver.Known event.workflowId := by
  have hsound : (serviceAfter flushBatchSize actions saver).collection.Sound :=
    (sound_run flushBatchSize actions).1
  change _ ↔ ∀ event ∈ _, _ ∧ (serviceAfter flushBatchSize actions saver).saver.Known _
  generalize serviceAfter flushBatchSize actions saver = s at hsound
  constructor
  · rintro ⟨-, n, hprogress⟩ event hevent
    by_contra hnot
    have hblocked : Blocked event s := by
      refine ⟨hsound, hevent, ?_⟩
      cases hinit : s.collection.isInitialized with
      | false => exact .inl rfl
      | true => exact .inr fun hknown => hnot ⟨hinit, hknown⟩
    exact hprogress event hevent (hblocked.iterate n).2.1
  · intro h
    by_cases hempty : s.collection.bufferedInsights.elems = []
    · have hnone : ∀ event, event ∉ s.collection.bufferedInsights := by
        intro event hevent
        exact absurd (hempty ▸ hevent : event ∈ ([] : List BufferedInsight)) List.not_mem_nil
      exact ⟨fun event hevent => absurd hevent (hnone event), 0,
        fun event hevent => absurd hevent (hnone event)⟩
    · obtain ⟨event, hevent⟩ := List.exists_mem_of_ne_nil _ hempty
      obtain ⟨hstored, hbuffer⟩ := flushAlone_of_known hsound (h event hevent).1 hempty
        fun event hevent => (h event hevent).2
      refine ⟨fun event hevent _ => hstored event hevent, 1, fun event _ hleft => ?_⟩
      have hmem : event ∈ s.flushAlone.collection.bufferedInsights.elems := hleft
      rw [hbuffer] at hmem
      exact List.not_mem_nil hmem

/-- An execution of a workflow that is deleted before the flush. -/
def deletedWorkflow : WorkflowExecuteAfterContext := { succeeded with workflowId := "w2" }

/-- The database has an owner of the first workflow only. -/
def oneOwner : Saver := { db := { sharedWorkflows := [⟨"w1", "p1", "Sales"⟩] } }

/-- The events of one execution are not stored because of those of another one. -/
theorem deleted_workflow_blocks :
    ¬ StoresOwned (serviceAfter 1000 [.workflowExecuteAfter succeeded,
      .workflowExecuteAfter deletedWorkflow] oneOwner) := by
  rintro ⟨howned, -⟩
  have hempty : (serviceAfter 1000 [.workflowExecuteAfter succeeded,
      .workflowExecuteAfter deletedWorkflow] oneOwner).flushAlone.collection.raw = [] := by
    decide +kernel
  have hstored := (howned ⟨0, "w1", "Orders", 5001, .success, 1⟩ (by decide +kernel)
    ⟨_, List.mem_singleton_self _, rfl⟩).1
  rw [hempty] at hstored
  exact List.not_mem_nil hstored

end Insights

end N8n
