import N8n.Insights.CompactedRows
import N8n.Lib.InOrder

/-!
# Compaction preserves totals

* `Counted`: every row that is compacted is counted in the period that contains its start;
* `PreservesTotals`: what `compactInsights` promises, `preservesTotals_iff_terminates`: it keeps it
  if it ends;
* `EveryLoopFinds`: when it ends without a limit;
* `preservesTotals_iff`: the promise is kept exactly when there is a limit or every loop finds rows.
-/

namespace N8n

namespace Insights

open scoped List

variable {db : Database} {s : CompactionState} {config : InsightsConfig}

/-! ### The whole compaction -/

/-- The sum of the values of a workflow's metadata and a type over both tables. -/
def CompactionState.total (s : CompactionState) (metaId : ℕ) (type : InsightType) : ℤ :=
  tally (·.value) (fun r => r.metaId = metaId && r.type = type) s.raw.rows +
    tally (·.value) (fun r => r.metaId = metaId && r.type = type) s.byPeriod.rows

/-- The sum of the rows with a key. -/
def amount (metaId : ℕ) (type : InsightType) (start : ℤ) (rows : List SourceRow) : ℤ :=
  sumOf (fun metaId' type' start' => metaId' = metaId && type' = type && start' = start) rows

/-- The sum of the rows whose start is in the period that starts at `start`. -/
def amountIn (dbType : DbType) (unit : PeriodUnit) (metaId : ℕ) (type : InsightType) (start : ℤ)
    (rows : List SourceRow) : ℤ :=
  tally (·.value) (fun r => r.metaId = metaId && r.type = type &&
    Contains dbType unit start r.periodStart) rows

/-- Every row that is gone from the raw table, from the hours or from the days is counted in the
hour, day or week that contains its start, and nothing else is. -/
def Counted (dbType : DbType) (s s' : CompactionState) : Prop :=
  ∃ raw hours days : List SourceRow, rowsAt s .raw ~ raw ++ rowsAt s' .raw ∧
    ∀ metaId type start,
      amount metaId type start (rowsAt s' (.period .hour)) + amount metaId type start hours =
          amount metaId type start (rowsAt s (.period .hour)) +
            amountIn dbType .hour metaId type start raw ∧
        amount metaId type start (rowsAt s' (.period .day)) + amount metaId type start days =
          amount metaId type start (rowsAt s (.period .day)) +
            amountIn dbType .day metaId type start hours ∧
        amount metaId type start (rowsAt s' (.period .week)) =
          amount metaId type start (rowsAt s (.period .week)) +
            amountIn dbType .week metaId type start days

/-- `compactInsights` ends, and however it ends, the totals are those before, no two rows of the
period table share their key and every row is counted where it belongs. -/
structure PreservesTotals (db : Database) (config : InsightsConfig) (s : CompactionState) :
    Prop where
  terminates : ∃ fuel, (compactInsights db config fuel s).isSome = true
  totals : ∀ fuel s' r, compactInsights db config fuel s = some (s', r) →
    ∀ metaId type, s'.total metaId type = s.total metaId type
  unique : ∀ fuel s' r, compactInsights db config fuel s = some (s', r) →
    (s'.byPeriod.rows.map (·.key)).Nodup
  counted : ∀ fuel s' r, compactInsights db config fuel s = some (s', r) → Counted db.dbType s s'

variable {fuel n : ℕ} {s' s₁ : CompactionState} {r : Except String Unit} {maxAge : ℤ}
  {starts : List ℤ} {rows : List SourceRow}

/-- The rows that each loop has compacted. -/
theorem compactInsights_eq_some (h : compactInsights db config fuel s = some (s', r)) :
    ∃ s₁ s₂ raw hours days, Compacts db.dbType .raw .hour raw s s₁ ∧
      Compacts db.dbType (.period .hour) .day hours s₁ s₂ ∧
      Compacts db.dbType (.period .day) .week days s₂ s' := by
  unfold compactInsights at h
  obtain ⟨e, hraw, -⟩ | ⟨s₁, n, hraw, h⟩ := DoWhile.andThen_eq_some h
  · obtain ⟨raw, hraw⟩ := isBatch_compactRawToHour.run hraw
    exact ⟨s', s', raw, [], [], hraw, Compacts.refl _ _ _ fun _ => rfl,
      Compacts.refl _ _ _ fun _ => rfl⟩
  obtain ⟨raw, hraw⟩ := isBatch_compactRawToHour.run hraw
  obtain ⟨e, hhours, -⟩ | ⟨s₂, n', hhours, h⟩ := DoWhile.andThen_eq_some h
  · obtain ⟨hours, hhours⟩ := isBatch_compactHourToDay.run hhours
    exact ⟨s₁, s', raw, hours, [], hraw, hhours, Compacts.refl _ _ _ fun _ => rfl⟩
  obtain ⟨hours, hhours⟩ := isBatch_compactHourToDay.run hhours
  refine ⟨s₁, s₂, raw, hours, ?_⟩
  obtain ⟨e, hdays, -⟩ | ⟨s₃, n'', hdays, h⟩ := DoWhile.andThen_eq_some h
  · obtain ⟨days, hdays⟩ := isBatch_compactDayToWeek.run hdays
    exact ⟨days, hraw, hhours, hdays⟩
  · obtain ⟨days, hdays⟩ := isBatch_compactDayToWeek.run hdays
    cases h
    exact ⟨days, hraw, hhours, hdays⟩

theorem sumOf_append (P : ℕ → InsightType → ℤ → Bool) (rows rows' : List SourceRow) :
    sumOf P (rows ++ rows') = sumOf P rows + sumOf P rows' := tally_append

variable {s₂ : CompactionState} {starts' : List ℤ} {result : Except String ℕ} {fuel' : ℕ}

/-- The accounts of the four levels. -/
theorem sums_compactInsights {raw hours days : List SourceRow}
    (hraw : Compacts db.dbType .raw .hour raw s s₁)
    (hhours : Compacts db.dbType (.period .hour) .day hours s₁ s₂)
    (hdays : Compacts db.dbType (.period .day) .week days s₂ s') :
    rowsAt s .raw ~ raw ++ rowsAt s' .raw ∧ ∀ P,
      sumOf P (rowsAt s' (.period .hour)) + sumOf P hours =
          sumOf P (rowsAt s (.period .hour)) + sumIn db.dbType .hour P raw ∧
        sumOf P (rowsAt s' (.period .day)) + sumOf P days =
          sumOf P (rowsAt s (.period .day)) + sumIn db.dbType .day P hours ∧
        sumOf P (rowsAt s' (.period .week)) =
          sumOf P (rowsAt s (.period .week)) + sumIn db.dbType .week P days := by
  constructor
  · rw [hdays.others .raw (by simp) (by simp), hhours.others .raw (by simp) (by simp)]
    exact hraw.taken
  intro P
  refine ⟨?_, ?_, ?_⟩
  · have htaken : sumOf P (rowsAt s₁ (.period .hour)) = _ := hhours.taken.tally_eq
    rw [hdays.others (.period .hour) (by simp) (by simp), ← hraw.counted, htaken]
    exact (add_comm _ _).trans (sumOf_append P _ _).symm
  · have htaken : sumOf P (rowsAt s₂ (.period .day)) = _ := hdays.taken.tally_eq
    rw [← hraw.others (.period .day) (by simp) (by simp), ← hhours.counted, htaken]
    exact (add_comm _ _).trans (sumOf_append P _ _).symm
  · rw [← hraw.others (.period .week) (by simp) (by simp),
      ← hhours.others (.period .week) (by simp) (by simp)]
    exact hdays.counted P

/-- The rows of a workflow's metadata and a type, whenever they start. -/
def isOf (metaId : ℕ) (type : InsightType) : ℕ → InsightType → ℤ → Bool :=
  fun metaId' type' _ => metaId' = metaId && type' = type

/-- The total of a workflow's metadata and a type, level by level. -/
theorem total_eq (s : CompactionState) (metaId : ℕ) (type : InsightType) :
    s.total metaId type = sumOf (isOf metaId type) (rowsAt s .raw) +
      (sumOf (isOf metaId type) (rowsAt s (.period .hour)) +
        sumOf (isOf metaId type) (rowsAt s (.period .day)) +
          sumOf (isOf metaId type) (rowsAt s (.period .week))) := by
  refine congrArg₂ (· + ·) ?_ ?_
  · rw [sumOf, rowsAt, tally_map]
    rfl
  · simp only [rowsAt, PeriodTable.sumOf_rowsOf]
    rw [← tally_or, ← tally_or]
    · refine tally_congr fun r _ => ?_
      rw [InsightsByPeriod.key, isOf]
      cases r.periodUnit <;> simp
    all_goals
      intro r _
      rw [InsightsByPeriod.key]
      cases r.periodUnit <;> simp

theorem total_compactInsights (h : compactInsights db config fuel s = some (s', r)) (metaId : ℕ)
    (type : InsightType) : s'.total metaId type = s.total metaId type := by
  obtain ⟨s₁, s₂, raw, hours, days, hraw, hhours, hdays⟩ := compactInsights_eq_some h
  obtain ⟨htaken, hsums⟩ := sums_compactInsights hraw hhours hdays
  obtain ⟨hhour, hday, hweek⟩ := hsums (isOf metaId type)
  have hsum : sumOf (isOf metaId type) (rowsAt s .raw) =
      sumOf (isOf metaId type) raw + sumOf (isOf metaId type) (rowsAt s' .raw) := by
    rw [← sumOf_append]
    exact htaken.tally_eq
  -- a predicate that does not read the start counts a row in any period
  have hin : ∀ unit rows, sumIn db.dbType unit (isOf metaId type) rows =
      sumOf (isOf metaId type) rows := fun _ _ => rfl
  rw [hin] at hhour hday hweek
  rw [total_eq, total_eq, hsum]
  omega

theorem amountIn_eq (dbType : DbType) (unit : PeriodUnit) (metaId : ℕ) (type : InsightType)
    (start : ℤ) (rows : List SourceRow) :
    amountIn dbType unit metaId type start rows = sumIn dbType unit
      (fun metaId' type' start' => metaId' = metaId && type' = type && start' = start) rows := by
  unfold amountIn sumIn
  refine tally_congr fun r _ => ?_
  rw [decide_eq_decide.2 contains_iff]

theorem counted_compactInsights (h : compactInsights db config fuel s = some (s', r)) :
    Counted db.dbType s s' := by
  obtain ⟨s₁, s₂, raw, hours, days, hraw, hhours, hdays⟩ := compactInsights_eq_some h
  obtain ⟨htaken, hsums⟩ := sums_compactInsights hraw hhours hdays
  refine ⟨raw, hours, days, htaken, fun metaId type start => ?_⟩
  simp only [amountIn_eq]
  exact hsums _

/-- Whatever the batch size, the compaction keeps its promise if it ends. -/
theorem preservesTotals_iff_terminates : PreservesTotals db config s ↔
    ∃ fuel, (compactInsights db config fuel s).isSome = true :=
  ⟨fun h => h.terminates, fun h => ⟨h, fun _ _ _ => total_compactInsights,
    fun _ s' _ _ => s'.byPeriod.unique, fun _ _ _ => counted_compactInsights⟩⟩

/-! ### When the compaction ends -/

/-- The starts of the rows of a level. -/
def startsAt (s : CompactionState) (level : Level) : List ℤ := (rowsAt s level).map (·.periodStart)

/-- A query with a number finds one of the starts old enough. -/
def FindsAt (db : Database) (maxAgeInDays : ℤ) (starts : List ℤ) (query : ℕ) : Prop :=
  ∃ t ∈ starts, isOld db query maxAgeInDays t = true

/-- The first query, from a number on, that finds one of the starts old enough. -/
def FirstFind (db : Database) (maxAgeInDays : ℤ) (starts : List ℤ) (start query : ℕ) : Prop :=
  start ≤ query ∧ FindsAt db maxAgeInDays starts query ∧
    ∀ m, start ≤ m → m < query → ¬ FindsAt db maxAgeInDays starts m

/-- The starts of the hours when all raw rows are compacted. -/
def hourStarts (db : Database) (s : CompactionState) : List ℤ :=
  startsAt s (.period .hour) ++ (startsAt s .raw).map (getPeriodStartExpr db.dbType .hour)

/-- The starts of the days when also the hours that a query finds old enough are compacted. -/
def dayStarts (db : Database) (config : InsightsConfig) (s : CompactionState) (query : ℕ) :
    List ℤ :=
  startsAt s (.period .day) ++
    ((hourStarts db s).filter
      (isOld db query config.compactionHourlyToDailyThresholdDays)).map
        (getPeriodStartExpr db.dbType .day)

/-- No compaction is running, and each of the three loops finds rows sooner or later: the first at
once, the second with its first query that finds one of the hours old enough, the third after it. -/
def EveryLoopFinds (db : Database) (config : InsightsConfig) (s : CompactionState) : Prop :=
  s.isRunningCompaction = false ∧ s.raw.rows ≠ [] ∧
    ∃ n, FirstFind db config.compactionHourlyToDailyThresholdDays (hourStarts db s)
        (s.batches + 1) n ∧
      ∃ m, n < m ∧
        FindsAt db config.compactionDailyToWeeklyThresholdDays (dayStarts db config s n) m

theorem findsAt_congr (h : ∀ t, t ∈ starts ↔ t ∈ starts') :
    FindsAt db maxAge starts = FindsAt db maxAge starts' := by
  funext n
  simp only [FindsAt, h]

theorem firstFind_congr (h : ∀ t, t ∈ starts ↔ t ∈ starts') :
    FirstFind db maxAge starts = FirstFind db maxAge starts' := by
  funext start n
  simp only [FirstFind, findsAt_congr h]

theorem exists_firstFind {start : ℕ} (hn : start ≤ n) (h : FindsAt db maxAge starts n) :
    ∃ n, FirstFind db maxAge starts start n := by
  classical
  have hex : ∃ n, start ≤ n ∧ FindsAt db maxAge starts n := ⟨n, hn, h⟩
  refine ⟨Nat.find hex, (Nat.find_spec hex).1, (Nat.find_spec hex).2, fun m hm hlt hfinds => ?_⟩
  exact Nat.find_min hex hlt ⟨hm, hfinds⟩

/-- A batch of rows that the query yields. -/
theorem compactSource_eq {query : CompactionState → Except String (List SourceRow)}
    {source : SourceTable} {unit : PeriodUnit} (hrunning : s.isRunningCompaction = false)
    (hquery : query s = .ok rows) :
    compactSourceDataIntoInsightPeriod db query source unit s =
      (afterBatch db source unit rows s, .ok rows.length) := by
  unfold compactSourceDataIntoInsightPeriod
  rw [if_neg (by simp [hrunning]), hquery]
  rfl

/-- A loop whose batches are not limited goes on exactly after an empty batch. -/
theorem isFull_zero (hsize : config.compactionBatchSize = 0) (rows : List SourceRow) :
    isFull config (.ok rows.length) = rows.isEmpty := by
  rw [isFull, hsize]
  cases rows with
  | nil => rfl
  | cons r rows =>
    have hne : ((r :: rows).length : ℤ) ≠ 0 := by simp; omega
    rw [decide_eq_false hne]
    rfl

/-- A turn of a period loop without a limit takes the rows that are old enough. -/
theorem getPeriodInsightsBatchQuery_zero (db : Database) (unit : PeriodUnit) (maxAge : ℤ)
    (s : CompactionState) :
    ∃ rows, getPeriodInsightsBatchQuery db unit 0 maxAge s = .ok rows ∧
      rows ~ (rowsAt s (.period unit)).filter fun r => isOld db s.batches maxAge r.periodStart := by
  refine ⟨_, rfl, (db.perm _ _).trans (List.Perm.of_eq ?_)⟩
  rw [rowsAt, PeriodTable.rowsOf, List.filter_map, List.filter_filter]
  refine congrArg (List.map _) (List.filter_congr fun r _ => ?_)
  rw [Bool.and_comm, Bool.decide_and, Bool.decide_eq_true]
  rfl

theorem findsAt_iff_ne_nil {level : Level}
    (h : rows ~ (rowsAt s level).filter fun r => isOld db n maxAge r.periodStart) :
    FindsAt db maxAge (startsAt s level) n ↔ rows ≠ [] := by
  constructor
  · rintro ⟨t, ht, hold⟩ rfl
    obtain ⟨r, hr, rfl⟩ := List.mem_map.1 ht
    have hmem := h.mem_iff.2 (List.mem_filter.2 ⟨hr, hold⟩)
    cases hmem
  · intro hne
    obtain ⟨r, hr⟩ := List.exists_mem_of_ne_nil _ hne
    obtain ⟨hr, hold⟩ := List.mem_filter.1 (h.mem_iff.1 hr)
    exact ⟨r.periodStart, List.mem_map_of_mem hr, hold⟩

/-- What a period loop without a limit has done when it ends with a query. -/
structure EndsWith (db : Database) (source unit : PeriodUnit) (maxAge : ℤ) (n : ℕ)
    (rows : List SourceRow) (s : CompactionState) (r : CompactionState × Except String ℕ) :
    Prop where
  compacts : Compacts db.dbType (.period source) unit rows s r.1
  old : rows ~ (rowsAt s (.period source)).filter fun r => isOld db n maxAge r.periodStart
  batches : r.1.batches = n + 1
  notRunning : r.1.isRunningCompaction = false
  ok : r.2 = .ok rows.length

section

variable {source unit : PeriodUnit} {maxAge : ℤ}

/-- The batches of a period loop without a limit. -/
def periodBatch (db : Database) (source unit : PeriodUnit) (maxAge : ℤ) :
    CompactionState → CompactionState × Except String ℕ :=
  compactSourceDataIntoInsightPeriod db (getPeriodInsightsBatchQuery db source 0 maxAge)
    .insightsByPeriod unit

theorem endsWith_periodBatch (db : Database) (maxAge : ℤ) (hne : source ≠ unit)
    (hrunning : s.isRunningCompaction = false) :
    ∃ rows, EndsWith db source unit maxAge s.batches rows s
      (periodBatch db source unit maxAge s) := by
  obtain ⟨rows, hquery, hold⟩ := getPeriodInsightsBatchQuery_zero db source maxAge s
  obtain ⟨rest, hrest⟩ := getPeriodInsightsBatchQuery_ok hquery
  refine ⟨rows, ?_⟩
  rw [periodBatch, compactSource_eq hrunning hquery]
  have hcompacts : Compacts db.dbType (.period source) unit rows s
      (afterBatch db .insightsByPeriod unit rows s) :=
    compacts_afterBatch (by simpa using hne) hrest
  exact ⟨hcompacts, hold, rfl, hrunning, rfl⟩

/-- After an empty batch the rows are the same. -/
theorem mem_startsAt_of_nil {r : CompactionState × Except String ℕ} {n : ℕ}
    (h : EndsWith db source unit maxAge n [] s r) (t : ℤ) :
    t ∈ startsAt r.1 (.period source) ↔ t ∈ startsAt s (.period source) :=
  ((h.compacts.taken.map (·.periodStart)).mem_iff).symm

theorem exists_run_of_firstFind (unit : PeriodUnit) (hne : source ≠ unit)
    (hsize : config.compactionBatchSize = 0) {n : ℕ} (hrunning : s.isRunningCompaction = false)
    (hfirst : FirstFind db maxAge (startsAt s (.period source)) s.batches n) :
    ∃ fuel r rows, DoWhile.run (periodBatch db source unit maxAge) (isFull config) fuel s = some r ∧
      EndsWith db source unit maxAge n rows s r := by
  obtain ⟨hle, hfinds, hbefore⟩ := hfirst
  -- the queries before the one that finds a row
  induction hd : n - s.batches generalizing s with
  | zero =>
    have hn : s.batches = n := by omega
    obtain ⟨rows, hrows⟩ := endsWith_periodBatch db maxAge hne hrunning
    rw [hn] at hrows
    refine ⟨1, _, rows, DoWhile.run_succ_of_stops ?_ 0, hrows⟩
    rw [hrows.ok, isFull_zero hsize, Bool.eq_false_iff, ne_eq, List.isEmpty_iff]
    exact (findsAt_iff_ne_nil hrows.old).1 hfinds
  | succ d ih =>
    obtain ⟨rows, hrows⟩ := endsWith_periodBatch db maxAge hne hrunning
    have hnot := hbefore s.batches le_rfl (by omega)
    rw [findsAt_iff_ne_nil hrows.old, not_not] at hnot
    rw [hnot] at hrows
    have hstarts : FindsAt db maxAge _ = FindsAt db maxAge _ :=
      findsAt_congr (mem_startsAt_of_nil hrows)
    obtain ⟨fuel, r, rows', hrun, hends⟩ := ih hrows.notRunning (by rw [hrows.batches]; omega)
      (by rwa [hstarts]) (fun m hm => by
        rw [hstarts]
        exact hbefore m (by rw [hrows.batches] at hm; omega)) (by rw [hrows.batches]; omega)
    refine ⟨fuel + 1, r, rows', ?_, ?_⟩
    · rw [DoWhile.run_succ_of_again (by rw [hrows.ok, isFull_zero hsize]; rfl)]
      exact hrun
    · have hperm := hrows.compacts.taken
      exact ⟨hrows.compacts.trans hends.compacts, hends.old.trans (hperm.filter _).symm,
        hends.batches, hends.notRunning, hends.ok⟩

theorem firstFind_of_run (hne : source ≠ unit) (hsize : config.compactionBatchSize = 0) {fuel : ℕ}
    {r : CompactionState × Except String ℕ} (hrunning : s.isRunningCompaction = false)
    (hrun : DoWhile.run (periodBatch db source unit maxAge) (isFull config) fuel s = some r) :
    ∃ n, FirstFind db maxAge (startsAt s (.period source)) s.batches n := by
  induction fuel generalizing s with
  | zero => cases hrun
  | succ fuel ih =>
    obtain ⟨rows, hrows⟩ := endsWith_periodBatch db maxAge hne hrunning
    by_cases hnil : rows = []
    · rw [hnil] at hrows
      rw [DoWhile.run_succ_of_again (by rw [hrows.ok, isFull_zero hsize]; rfl)] at hrun
      obtain ⟨n, hle, hfinds, -⟩ := ih hrows.notRunning hrun
      rw [hrows.batches] at hle
      rw [findsAt_congr (mem_startsAt_of_nil hrows)] at hfinds
      exact exists_firstFind (by omega) hfinds
    · exact exists_firstFind le_rfl ((findsAt_iff_ne_nil hrows.old).2 hnil)

end

/-- The raw loop without a limit takes all raw rows at once. -/
theorem compactRawToHour_zero (db : Database) (hsize : config.compactionBatchSize = 0)
    (hrunning : s.isRunningCompaction = false) : ∃ rows, rows ~ rowsAt s .raw ∧
      compactRawToHour db config s =
        (afterBatch db Level.raw.table .hour rows s, .ok rows.length) := by
  refine ⟨_, db.perm s.batches _, compactSource_eq hrunning ?_⟩
  rw [getRawInsightsBatchQuery, hsize]
  rfl

/-- The raw loop without a limit goes on while a compaction is running or there are no rows. -/
theorem goesOn_compactRawToHour (hsize : config.compactionBatchSize = 0) (s : CompactionState)
    (hs : s.isRunningCompaction = true ∨ s.raw.rows = []) :
    isFull config (compactRawToHour db config s).2 = true ∧
      ((compactRawToHour db config s).1.isRunningCompaction = true ∨
        (compactRawToHour db config s).1.raw.rows = []) := by
  by_cases hrunning : s.isRunningCompaction = true
  · have heq : compactRawToHour db config s = (s, .ok 0) := by
      unfold compactRawToHour compactSourceDataIntoInsightPeriod
      rw [if_pos hrunning]
    rw [heq]
    exact ⟨isFull_zero hsize [], Or.inl hrunning⟩
  · have hraw : s.raw.rows = [] := hs.resolve_left hrunning
    obtain ⟨rows, hrows, heq⟩ := compactRawToHour_zero db hsize (Bool.eq_false_iff.2 hrunning)
    rw [rowsAt, hraw] at hrows
    rw [heq, hrows.eq_nil]
    refine ⟨isFull_zero hsize [], Or.inr ?_⟩
    show s.raw.rows.filter _ = []
    rw [hraw]
    rfl

/-- The raw loop without a limit ends only if there are rows, after one turn. -/
theorem run_compactRawToHour_zero (hsize : config.compactionBatchSize = 0)
    {r : CompactionState × Except String ℕ}
    (hrun : DoWhile.run (compactRawToHour db config) (isFull config) fuel s = some r) :
    s.isRunningCompaction = false ∧ s.raw.rows ≠ [] := by
  by_contra hnot
  have hnone : DoWhile.run (compactRawToHour db config) (isFull config) fuel s = none := by
    refine DoWhile.run_eq_none (P := fun s => s.isRunningCompaction = true ∨ s.raw.rows = []) ?_
      ?_ fuel
    · exact goesOn_compactRawToHour hsize
    · by_contra hneither
      rw [not_or] at hneither
      exact hnot ⟨Bool.eq_false_iff.2 hneither.1, hneither.2⟩
  rw [hnone] at hrun
  cases hrun

/-- The state after the raw loop without a limit. -/
theorem exists_run_compactRawToHour (db : Database) (hsize : config.compactionBatchSize = 0)
    (hrunning : s.isRunningCompaction = false) (hraw : s.raw.rows ≠ []) :
    ∃ s₁ n, DoWhile.run (compactRawToHour db config) (isFull config) 1 s = some (s₁, .ok n) ∧
      s₁.isRunningCompaction = false ∧ s₁.batches = s.batches + 1 ∧
      (∀ t, t ∈ startsAt s₁ (.period .hour) ↔ t ∈ hourStarts db s) ∧
      startsAt s₁ (.period .day) = startsAt s (.period .day) := by
  obtain ⟨rows, hrows, heq⟩ := compactRawToHour_zero db hsize hrunning
  have hall : rowsAt s .raw ~ rows ++ [] := by
    rw [List.append_nil]
    exact hrows.symm
  have hcompacts : Compacts db.dbType .raw .hour rows s
      (afterBatch db Level.raw.table .hour rows s) := compacts_afterBatch (by simp) hall
  refine ⟨_, _, (DoWhile.run_succ_of_stops ?_ 0).trans (congrArg some heq), hrunning, rfl,
    fun t => ?_, ?_⟩
  · rw [heq, isFull_zero hsize, Bool.eq_false_iff, ne_eq, List.isEmpty_iff]
    rintro rfl
    exact hraw (List.map_eq_nil_iff.1 hrows.symm.eq_nil)
  · rw [startsAt, hcompacts.starts, hourStarts, List.mem_append]
    simp only [startsAt, List.mem_map, exists_exists_and_eq_and, hrows.mem_iff]
  · rw [startsAt, hcompacts.others _ (by simp) (by simp)]
    rfl

/-- The starts of the days after the hours that a query finds old enough. -/
theorem mem_startsAt_day (hhours : ∀ t, t ∈ startsAt s₁ (.period .hour) ↔ t ∈ hourStarts db s)
    (hdays : startsAt s₁ (.period .day) = startsAt s (.period .day))
    (h : EndsWith db .hour .day config.compactionHourlyToDailyThresholdDays n rows s₁ (s₂, result))
    (t : ℤ) : t ∈ startsAt s₂ (.period .day) ↔ t ∈ dayStarts db config s n := by
  rw [startsAt, h.compacts.starts, dayStarts, List.mem_append, ← hdays, startsAt]
  refine or_congr Iff.rfl ?_
  simp only [List.mem_map, List.mem_filter, ← hhours, h.old.mem_iff]
  constructor
  · rintro ⟨r, ⟨hr, hold⟩, rfl⟩
    exact ⟨r.periodStart, ⟨List.mem_map_of_mem hr, hold⟩, rfl⟩
  · rintro ⟨t', ⟨ht', hold⟩, rfl⟩
    obtain ⟨r, hr, rfl⟩ := List.mem_map.1 ht'
    exact ⟨r, ⟨hr, hold⟩, rfl⟩

/-- The later loops give the same result with more fuel. -/
theorem mono_dayLoop (hle : fuel ≤ fuel') {s : CompactionState}
    {r : CompactionState × Except String Unit}
    (h : DoWhile.andThen (DoWhile.run (compactDayToWeek db config) (isFull config) fuel s)
      (fun s => some (s, .ok ())) = some r) :
    DoWhile.andThen (DoWhile.run (compactDayToWeek db config) (isFull config) fuel' s)
      (fun s => some (s, .ok ())) = some r :=
  DoWhile.andThen_mono (f := fun _ s => some (s, .ok ())) (fun _ _ _ h => h) hle h

theorem mono_hourLoop (hle : fuel ≤ fuel') {s : CompactionState}
    {r : CompactionState × Except String Unit}
    (h : DoWhile.andThen (DoWhile.run (compactHourToDay db config) (isFull config) fuel s)
      (fun s => DoWhile.andThen (DoWhile.run (compactDayToWeek db config) (isFull config) fuel s)
        fun s => some (s, .ok ())) = some r) :
    DoWhile.andThen (DoWhile.run (compactHourToDay db config) (isFull config) fuel' s)
      (fun s => DoWhile.andThen (DoWhile.run (compactDayToWeek db config) (isFull config) fuel' s)
        fun s => some (s, .ok ())) = some r :=
  DoWhile.andThen_mono (f := fun fuel s => DoWhile.andThen
    (DoWhile.run (compactDayToWeek db config) (isFull config) fuel s) fun s => some (s, .ok ()))
    mono_dayLoop hle h

/-- The compaction ends when its three loops do, one after the other. -/
theorem exists_compactInsights
    (hraw : DoWhile.run (compactRawToHour db config) (isFull config) fuel s = some (s₁, result))
    (hhours : ∀ n, result = .ok n → ∃ fuel s₂ result₂,
      DoWhile.run (compactHourToDay db config) (isFull config) fuel s₁ = some (s₂, result₂) ∧
        ∀ n, result₂ = .ok n → ∃ fuel,
          (DoWhile.run (compactDayToWeek db config) (isFull config) fuel s₂).isSome = true) :
    ∃ fuel, (compactInsights db config fuel s).isSome = true := by
  refine DoWhile.exists_andThen (f := fun fuel s => DoWhile.andThen
    (DoWhile.run (compactHourToDay db config) (isFull config) fuel s) fun s => DoWhile.andThen
      (DoWhile.run (compactDayToWeek db config) (isFull config) fuel s) fun s => some (s, .ok ()))
    mono_hourLoop hraw fun n hn => ?_
  obtain ⟨fuel₁, s₂, result₂, hrun, hdays⟩ := hhours n hn
  refine DoWhile.exists_andThen (f := fun fuel s => DoWhile.andThen
      (DoWhile.run (compactDayToWeek db config) (isFull config) fuel s) fun s => some (s, .ok ()))
    mono_dayLoop hrun fun n hn => ?_
  obtain ⟨fuel₂, hfuel₂⟩ := hdays n hn
  obtain ⟨⟨s₃, result₃⟩, hrun₃⟩ := Option.isSome_iff_exists.1 hfuel₂
  exact DoWhile.exists_andThen (f := fun _ s => some (s, .ok ())) (fun _ _ _ h => h) hrun₃
    fun _ _ => ⟨0, rfl⟩

theorem exists_compactInsights_of_ne_zero (hsize : config.compactionBatchSize ≠ 0) :
    ∃ fuel, (compactInsights db config fuel s).isSome = true := by
  have hrawBatch : IsBatch db .raw .hour (compactRawToHour db config) := isBatch_compactRawToHour
  have hhourBatch : IsBatch db (.period .hour) .day (compactHourToDay db config) :=
    isBatch_compactHourToDay
  obtain ⟨fuel, hfuel⟩ := hrawBatch.exists_run hsize s
  obtain ⟨⟨s₁, result⟩, hraw⟩ := Option.isSome_iff_exists.1 hfuel
  refine exists_compactInsights hraw fun n _ => ?_
  obtain ⟨fuel₁, hfuel₁⟩ := hhourBatch.exists_run hsize s₁
  obtain ⟨⟨s₂, result₂⟩, hhours⟩ := Option.isSome_iff_exists.1 hfuel₁
  exact ⟨fuel₁, s₂, result₂, hhours, fun _ _ => isBatch_compactDayToWeek.exists_run hsize s₂⟩

/-- **Without a limit the compaction ends exactly when every loop finds rows.** -/
theorem exists_compactInsights_zero_iff (hsize : config.compactionBatchSize = 0) :
    (∃ fuel, (compactInsights db config fuel s).isSome = true) ↔ EveryLoopFinds db config s := by
  have hhour : compactHourToDay db config =
      periodBatch db .hour .day config.compactionHourlyToDailyThresholdDays := by
    funext s
    rw [compactHourToDay, hsize, periodBatch]
  have hday : compactDayToWeek db config =
      periodBatch db .day .week config.compactionDailyToWeeklyThresholdDays := by
    funext s
    rw [compactDayToWeek, hsize, periodBatch]
  constructor
  · rintro ⟨fuel, hfuel⟩
    obtain ⟨⟨s', r⟩, h⟩ := Option.isSome_iff_exists.1 hfuel
    unfold compactInsights at h
    obtain ⟨r₁, hraw⟩ := DoWhile.exists_of_andThen h
    obtain ⟨hrunning, hne⟩ := run_compactRawToHour_zero hsize hraw
    obtain ⟨s₁, n₁, hraw', hrunning₁, hbatches, hhours, hdays⟩ :=
      exists_run_compactRawToHour db hsize hrunning hne
    rw [hraw, DoWhile.run_unique hraw hraw'] at h
    change DoWhile.andThen (DoWhile.run (compactHourToDay db config) (isFull config) fuel s₁) _ = _
      at h
    obtain ⟨r₂, hrun₂⟩ := DoWhile.exists_of_andThen h
    rw [hhour] at hrun₂
    obtain ⟨n, hfirst⟩ := firstFind_of_run (by simp) hsize hrunning₁ hrun₂
    obtain ⟨fuel', ⟨s₂, result₂⟩, rows, hrun₂', hends⟩ :=
      exists_run_of_firstFind .day (by simp) hsize hrunning₁ hfirst
    have hok : result₂ = .ok rows.length := hends.ok
    rw [hhour, hrun₂, DoWhile.run_unique hrun₂ hrun₂', hok] at h
    change DoWhile.andThen (DoWhile.run (compactDayToWeek db config) (isFull config) fuel s₂) _ = _
      at h
    obtain ⟨r₃, hrun₃⟩ := DoWhile.exists_of_andThen h
    rw [hday] at hrun₃
    obtain ⟨m, hm, hfinds, -⟩ := firstFind_of_run (by simp) hsize hends.notRunning hrun₃
    rw [findsAt_congr (mem_startsAt_day hhours hdays hends)] at hfinds
    rw [hends.batches] at hm
    rw [hbatches, firstFind_congr hhours] at hfirst
    exact ⟨hrunning, hne, n, hfirst, m, hm, hfinds⟩
  · rintro ⟨hrunning, hne, n, hfirst, m, hm, hfinds⟩
    obtain ⟨s₁, n₁, hraw, hrunning₁, hbatches, hhours, hdays⟩ :=
      exists_run_compactRawToHour db hsize hrunning hne
    refine exists_compactInsights hraw fun _ _ => ?_
    rw [← hbatches, ← firstFind_congr hhours] at hfirst
    obtain ⟨fuel₂, ⟨s₂, result₂⟩, rows, hrun₂, hends⟩ :=
      exists_run_of_firstFind .day (by simp) hsize hrunning₁ hfirst
    refine ⟨fuel₂, s₂, result₂, hhour ▸ hrun₂, fun _ _ => ?_⟩
    rw [← findsAt_congr (mem_startsAt_day hhours hdays hends)] at hfinds
    have hle : s₂.batches ≤ m := hends.batches ▸ hm
    obtain ⟨m', hfirst'⟩ := exists_firstFind hle hfinds
    obtain ⟨fuel₃, r₃, -, hrun₃, -⟩ :=
      exists_run_of_firstFind .week (by simp) hsize hends.notRunning hfirst'
    exact ⟨fuel₃, by rw [hday, hrun₃]; rfl⟩

/-- **Compaction preserves totals**, exactly when the batch size is not 0 or every loop finds rows
to compact: the loops go on after a batch of as many rows as the batch size. -/
theorem preservesTotals_iff (db : Database) (config : InsightsConfig) (s : CompactionState) :
    PreservesTotals db config s ↔
      config.compactionBatchSize ≠ 0 ∨ EveryLoopFinds db config s := by
  rw [preservesTotals_iff_terminates]
  by_cases hsize : config.compactionBatchSize = 0
  · rw [exists_compactInsights_zero_iff hsize]
    simp [hsize]
  · simp only [ne_eq, hsize, not_false_eq_true, true_or, iff_true]
    exact exists_compactInsights_of_ne_zero hsize

/-- SQLite on 1970-01-01, which finds rows in the order of their starts. -/
def sqlite : Database where
  dbType := .sqlite
  now := fun _ => 0
  orderBy := fun _ rows => rows.inOrder (·.periodStart)
  perm := fun _ rows => List.inOrder_perm _ rows
  ascending := fun _ rows => List.pairwise_map.2 (List.pairwise_inOrder _ rows)

/-- Tables without rows. -/
def noInsights : CompactionState where
  raw := ⟨[], List.nodup_nil⟩
  byPeriod := ⟨[], 0, List.nodup_nil, by simp, List.nodup_nil⟩

/-- With the batch size 0 the compaction of empty tables never ends. -/
theorem compactInsights_never_ends : ¬ ∀ (db : Database) (config : InsightsConfig)
    (s : CompactionState), PreservesTotals db config s := by
  intro h
  obtain ⟨fuel, hfuel⟩ := (h sqlite { compactionBatchSize := 0 } noInsights).terminates
  obtain ⟨r, hr⟩ := Option.isSome_iff_exists.1 hfuel
  obtain ⟨r₁, hraw⟩ := DoWhile.exists_of_andThen hr
  exact (run_compactRawToHour_zero rfl hraw).2 rfl

end Insights

end N8n
