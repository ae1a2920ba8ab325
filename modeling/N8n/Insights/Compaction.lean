import N8n.Insights.Collection
import N8n.Lib.DoWhile
import N8n.Lib.Tally

/-!
# Compacting insights

`insights-compaction.service.ts` and the batches of `insights-by-period.repository.ts`: raw insights
are summed up by hours, old hours by days and old days by weeks, a batch of rows at a time.

* `getPeriodStartExpr`, `getPeriodFilterExpr`: the expressions of SQLite and Postgres on times,
  which are milliseconds since 1970-01-01 00:00 UTC;
* `RawTable`, `PeriodTable`: the tables, with what their primary keys and the unique index promise;
* `compactSourceDataIntoInsightPeriod`: one batch;
* `compactInsights`: the three loops.
-/

namespace N8n

namespace Insights

/-! ### Times -/

inductive PeriodUnit where
  | hour
  | day
  | week
  deriving DecidableEq

/-- The kind of the database; a session of Postgres has a time zone, given as its offset from
UTC. -/
inductive DbType where
  | sqlite
  | postgresdb (timeZone : ℤ)
  deriving DecidableEq

def MS_PER_HOUR : ℤ := 3600000

def MS_PER_DAY : ℤ := 86400000

/-- The date of a time, in days since 1970-01-01. -/
def dateOf (t : ℤ) : ℤ := t / MS_PER_DAY

/-- The weekday of a date, Sunday being 0; 1970-01-01 was a Thursday. -/
def weekdayOf (date : ℤ) : ℤ := (date + 4) % 7

/-- The modifier `weekday n` of SQLite: the date, or the next one that is on that weekday. -/
def weekday (n date : ℤ) : ℤ := date + (n - weekdayOf date) % 7

/-- `DATE_TRUNC` of Postgres; its weeks start on Mondays. -/
def DATE_TRUNC (unit : PeriodUnit) (t : ℤ) : ℤ :=
  match unit with
  | .hour => t - t % MS_PER_HOUR
  | .day => t - t % MS_PER_DAY
  | .week => (dateOf t - (weekdayOf (dateOf t) + 6) % 7) * MS_PER_DAY

def getPeriodStartExpr (dbType : DbType) (periodUnitToCompactInto : PeriodUnit) (t : ℤ) : ℤ :=
  match dbType, periodUnitToCompactInto with
  | .sqlite, .week => weekday 1 (dateOf t - 6) * MS_PER_DAY
  | .sqlite, .hour => dateOf t * MS_PER_DAY + t % MS_PER_DAY / MS_PER_HOUR * MS_PER_HOUR
  | .sqlite, .day => dateOf t * MS_PER_DAY
  | .postgresdb timeZone, unit => DATE_TRUNC unit (t + timeZone) - timeZone

/-- Data before this time are old enough; a negative age is no date modifier of SQLite, which yields
NULL. -/
def getPeriodFilterExpr (dbType : DbType) (now maxAgeInDays : ℤ) : Option ℤ :=
  match dbType with
  | .sqlite => if 0 ≤ maxAgeInDays then some ((dateOf now - maxAgeInDays) * MS_PER_DAY) else none
  | .postgresdb timeZone =>
    some ((dateOf (now + timeZone) - maxAgeInDays) * MS_PER_DAY - timeZone)

/-! ### The tables -/

structure InsightsRaw where
  id : ℕ
  metaId : ℕ
  type : InsightType
  value : ℤ
  timestamp : ℤ
  deriving DecidableEq

structure InsightsByPeriod where
  id : ℕ
  metaId : ℕ
  type : InsightType
  value : ℤ
  periodUnit : PeriodUnit
  periodStart : ℤ
  deriving DecidableEq

/-- The columns of the unique index. -/
def InsightsByPeriod.key (r : InsightsByPeriod) : ℕ × InsightType × PeriodUnit × ℤ :=
  (r.metaId, r.type, r.periodUnit, r.periodStart)

structure RawTable where
  rows : List InsightsRaw
  ids : (rows.map (·.id)).Nodup

structure PeriodTable where
  rows : List InsightsByPeriod
  nextId : ℕ
  ids : (rows.map (·.id)).Nodup
  below : ∀ r ∈ rows, r.id < nextId
  unique : (rows.map (·.key)).Nodup

/-- A row of a batch. -/
structure SourceRow where
  id : ℕ
  metaId : ℕ
  type : InsightType
  value : ℤ
  periodStart : ℤ
  deriving DecidableEq

def InsightsRaw.toSource (r : InsightsRaw) : SourceRow :=
  { id := r.id, metaId := r.metaId, type := r.type, value := r.value, periodStart := r.timestamp }

def InsightsByPeriod.toSource (r : InsightsByPeriod) : SourceRow :=
  { id := r.id, metaId := r.metaId, type := r.type, value := r.value, periodStart := r.periodStart }

namespace PeriodTable

/-- `ON CONFLICT … DO UPDATE SET value = value + excluded.value`, or an insert. -/
def upsertRows (nextId : ℕ) (k : ℕ × InsightType × PeriodUnit × ℤ) (value : ℤ)
    (rows : List InsightsByPeriod) : List InsightsByPeriod :=
  if k ∈ rows.map (·.key) then
    rows.map fun r => if r.key = k then { r with value := r.value + value } else r
  else
    rows ++
      [{ id := nextId, metaId := k.1, type := k.2.1, value, periodUnit := k.2.2.1
         periodStart := k.2.2.2 }]

variable {nextId : ℕ} {k : ℕ × InsightType × PeriodUnit × ℤ} {value : ℤ}
  {rows : List InsightsByPeriod}

/-- An update changes neither ids nor keys. -/
theorem map_upsertRows {β : Type} {f : InsightsByPeriod → β}
    (hf : ∀ r v, f { r with value := v } = f r) (h : k ∈ rows.map (·.key)) :
    (upsertRows nextId k value rows).map f = rows.map f := by
  rw [upsertRows, if_pos h, List.map_map]
  refine List.map_congr_left fun r _ => ?_
  rw [Function.comp]
  split
  · exact hf r _
  · rfl

theorem map_upsertRows_of_new {β : Type} (f : InsightsByPeriod → β) (h : k ∉ rows.map (·.key)) :
    (upsertRows nextId k value rows).map f = rows.map f ++
      [f { id := nextId, metaId := k.1, type := k.2.1, value, periodUnit := k.2.2.1
           periodStart := k.2.2.2 }] := by
  rw [upsertRows, if_neg h, List.map_append]
  rfl

/-- The row of a group is inserted or updated; an id may be skipped. -/
def upsert (t : PeriodTable) (k : ℕ × InsightType × PeriodUnit × ℤ) (value : ℤ) : PeriodTable where
  rows := upsertRows t.nextId k value t.rows
  nextId := t.nextId + 1
  ids := by
    by_cases h : k ∈ t.rows.map (·.key)
    · rw [map_upsertRows (fun _ _ => rfl) h]
      exact t.ids
    · rw [map_upsertRows_of_new _ h]
      refine List.nodup_append.2 ⟨t.ids, List.nodup_singleton _, ?_⟩
      intro a ha b hb hab
      obtain ⟨r, hr, rfl⟩ := List.mem_map.1 ha
      rw [List.mem_singleton.1 hb] at hab
      exact absurd hab (Nat.ne_of_lt (t.below r hr))
  below := by
    by_cases h : k ∈ t.rows.map (·.key)
    · intro r hr
      have hids : (upsertRows t.nextId k value t.rows).map (·.id) = t.rows.map (·.id) :=
        map_upsertRows (fun _ _ => rfl) h
      have hid : r.id ∈ t.rows.map (·.id) := hids ▸ List.mem_map_of_mem hr
      obtain ⟨r', hr', hid⟩ := List.mem_map.1 hid
      exact hid ▸ Nat.lt_succ_of_lt (t.below r' hr')
    · rw [upsertRows, if_neg h]
      intro r hr
      rcases List.mem_append.1 hr with hr | hr
      · exact Nat.lt_succ_of_lt (t.below r hr)
      · rw [List.mem_singleton.1 hr]
        exact Nat.lt_succ_self _
  unique := by
    by_cases h : k ∈ t.rows.map (·.key)
    · rw [map_upsertRows (fun _ _ => rfl) h]
      exact t.unique
    · rw [map_upsertRows_of_new _ h]
      refine List.nodup_append.2 ⟨t.unique, List.nodup_singleton _, ?_⟩
      intro a ha b hb hab
      have hak : a = k := hab.trans (List.mem_singleton.1 hb)
      exact h (hak ▸ ha)

end PeriodTable

/-- `DELETE … WHERE id IN (…)`. -/
def RawTable.delete (t : RawTable) (ids : List ℕ) : RawTable where
  rows := t.rows.filter fun r => r.id ∉ ids
  ids := t.ids.sublist (List.filter_sublist.map _)

def PeriodTable.delete (t : PeriodTable) (ids : List ℕ) : PeriodTable where
  rows := t.rows.filter fun r => r.id ∉ ids
  nextId := t.nextId
  ids := t.ids.sublist (List.filter_sublist.map _)
  below := fun r hr => t.below r (List.mem_of_mem_filter hr)
  unique := t.unique.sublist (List.filter_sublist.map _)

/-! ### The database -/

/-- What the compaction leaves to the database: its kind, the time at the start of each transaction
and the order in which it finds the rows of a batch. -/
structure Database where
  dbType : DbType
  now : ℕ → ℤ
  orderBy : ℕ → List SourceRow → List SourceRow
  perm : ∀ n rows, (orderBy n rows).Perm rows
  ascending : ∀ n rows, ((orderBy n rows).map (·.periodStart)).Pairwise (· ≤ ·)

structure InsightsConfig where
  compactionBatchSize : ℤ := 500
  compactionHourlyToDailyThresholdDays : ℤ := 90
  compactionDailyToWeeklyThresholdDays : ℤ := 180

/-- The tables, the flag of the repository and the number of batches that were asked for. -/
structure CompactionState where
  raw : RawTable
  byPeriod : PeriodTable
  isRunningCompaction : Bool := false
  batches : ℕ := 0

/-- `.limit(n)`: no limit is written for 0, and SQLite reads a negative one as none. -/
def limit (dbType : DbType) (n : ℤ) (rows : List SourceRow) : Except String (List SourceRow) :=
  if n = 0 then .ok rows
  else if 0 < n then .ok (rows.take n.toNat)
  else
    match dbType with
    | .sqlite => .ok rows
    | .postgresdb _ => .error "LIMIT must not be negative"

variable (db : Database)

/-! ### The batches -/

def getRawInsightsBatchQuery (compactionBatchSize : ℤ) (s : CompactionState) :
    Except String (List SourceRow) :=
  limit db.dbType compactionBatchSize (db.orderBy s.batches (s.raw.rows.map (·.toSource)))

/-- Whether the query with a number finds a time before that of the filter; none is before NULL. -/
def isOld (query : ℕ) (maxAgeInDays t : ℤ) : Bool :=
  (getPeriodFilterExpr db.dbType (db.now query) maxAgeInDays).any fun limit => t < limit

def getPeriodInsightsBatchQuery (periodUnitToCompactFrom : PeriodUnit)
    (compactionBatchSize maxAgeInDays : ℤ) (s : CompactionState) : Except String (List SourceRow) :=
  limit db.dbType compactionBatchSize
    (db.orderBy s.batches
      ((s.byPeriod.rows.filter fun r =>
        r.periodUnit = periodUnitToCompactFrom ∧
          isOld db s.batches maxAgeInDays r.periodStart = true).map (·.toSource)))

/-- The groups of a batch by the metadata, the type and the start of the period. -/
def getAggregationQuery (periodUnit : PeriodUnit) (rowsToCompact : List SourceRow) :
    List ((ℕ × InsightType × ℤ) × ℤ) :=
  groups (fun r => (r.metaId, r.type, getPeriodStartExpr db.dbType periodUnit r.periodStart))
    (·.value) rowsToCompact

inductive SourceTable where
  | insightsRaw
  | insightsByPeriod
  deriving DecidableEq

/-- A batch and the number of its rows; a query that fails leaves the tables as they were. -/
def compactSourceDataIntoInsightPeriod
    (sourceBatchQuery : CompactionState → Except String (List SourceRow))
    (sourceTableName : SourceTable) (periodUnitToCompactInto : PeriodUnit) (s : CompactionState) :
    CompactionState × Except String ℕ :=
  if s.isRunningCompaction then (s, .ok 0)
  else
    match sourceBatchQuery s with
    | .error e => ({ s with batches := s.batches + 1 }, .error e)
    | .ok rowsToCompact =>
      let byPeriod := (getAggregationQuery db periodUnitToCompactInto rowsToCompact).foldl
        (fun t g => t.upsert (g.1.1, g.1.2.1, periodUnitToCompactInto, g.1.2.2) g.2) s.byPeriod
      let ids := rowsToCompact.map (·.id)
      ({ s with
          raw := if sourceTableName = .insightsRaw then s.raw.delete ids else s.raw
          byPeriod := if sourceTableName = .insightsByPeriod then byPeriod.delete ids else byPeriod
          batches := s.batches + 1 },
        .ok rowsToCompact.length)

variable (config : InsightsConfig)

def compactRawToHour (s : CompactionState) : CompactionState × Except String ℕ :=
  compactSourceDataIntoInsightPeriod db
    (getRawInsightsBatchQuery db config.compactionBatchSize) .insightsRaw .hour s

def compactHourToDay (s : CompactionState) : CompactionState × Except String ℕ :=
  compactSourceDataIntoInsightPeriod db
    (getPeriodInsightsBatchQuery db .hour config.compactionBatchSize
      config.compactionHourlyToDailyThresholdDays) .insightsByPeriod .day s

def compactDayToWeek (s : CompactionState) : CompactionState × Except String ℕ :=
  compactSourceDataIntoInsightPeriod db
    (getPeriodInsightsBatchQuery db .day config.compactionBatchSize
      config.compactionDailyToWeeklyThresholdDays) .insightsByPeriod .week s

/-! ### The service -/

/-- Whether a loop goes on: its last batch was a full one. -/
def isFull : Except String ℕ → Bool
  | .ok numberOfCompactedData => (numberOfCompactedData : ℤ) = config.compactionBatchSize
  | .error _ => false

open DoWhile (andThen) in
/-- The result of `compactInsights`, if each loop ends within `fuel` turns. -/
def compactInsights (fuel : ℕ) (s : CompactionState) :
    Option (CompactionState × Except String Unit) :=
  andThen (DoWhile.run (compactRawToHour db config) (isFull config) fuel s) fun s =>
    andThen (DoWhile.run (compactHourToDay db config) (isFull config) fuel s) fun s =>
      andThen (DoWhile.run (compactDayToWeek db config) (isFull config) fuel s) fun s =>
        some (s, .ok ())

end Insights

end N8n
