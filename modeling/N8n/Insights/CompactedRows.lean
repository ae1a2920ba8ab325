import N8n.Insights.Compaction

/-!
# The rows that a compaction takes

* `Contains`, `contains_iff`: the expressions of both databases yield the period of a time;
* `Compacts`: rows have been taken from the raw table, the hours or the days and counted in the
  periods of a unit;
* `compacts_afterBatch`: a batch does so, and by `IsBatch.run` a loop;
* `IsBatch.exists_run`: a loop with a limit ends.
-/

namespace N8n

namespace Insights

open scoped List

/-! ### The periods -/

def DbType.timeZone : DbType → ℤ
  | .sqlite => 0
  | .postgresdb timeZone => timeZone

def PeriodUnit.length : PeriodUnit → ℤ
  | .hour => MS_PER_HOUR
  | .day => MS_PER_DAY
  | .week => 7 * MS_PER_DAY

/-- A time at which a period starts on a clock in UTC; 1970-01-05 was a Monday. -/
def PeriodUnit.origin : PeriodUnit → ℤ
  | .hour => 0
  | .day => 0
  | .week => 4 * MS_PER_DAY

/-- The period that starts at `start` on the clock of the session contains a time. -/
structure Contains (dbType : DbType) (unit : PeriodUnit) (start t : ℤ) : Prop where
  starts : (start + dbType.timeZone - unit.origin) % unit.length = 0
  ge : start ≤ t
  lt : t < start + unit.length

instance (dbType : DbType) (unit : PeriodUnit) (start t : ℤ) :
    Decidable (Contains dbType unit start t) :=
  decidable_of_iff ((start + dbType.timeZone - unit.origin) % unit.length = 0 ∧ start ≤ t ∧
    t < start + unit.length) ⟨fun ⟨h, h', h''⟩ => ⟨h, h', h''⟩, fun h => ⟨h.starts, h.ge, h.lt⟩⟩

theorem contains_getPeriodStartExpr (dbType : DbType) (unit : PeriodUnit) (t : ℤ) :
    Contains dbType unit (getPeriodStartExpr dbType unit t) t := by
  cases dbType <;> cases unit <;> constructor <;>
    simp only [getPeriodStartExpr, DATE_TRUNC, weekday, weekdayOf, dateOf, DbType.timeZone,
      PeriodUnit.origin, PeriodUnit.length, MS_PER_HOUR, MS_PER_DAY] <;> omega

variable {dbType : DbType} {unit : PeriodUnit} {source : Level} {rows : List SourceRow} {n : ℤ}

variable {start t : ℤ} {compact : CompactionState → CompactionState × Except String ℕ}

theorem Contains.unique {start' : ℤ} (h : Contains dbType unit start t)
    (h' : Contains dbType unit start' t) : start = start' := by
  obtain ⟨hs, hge, hlt⟩ := h
  obtain ⟨hs', hge', hlt'⟩ := h'
  cases unit <;>
    simp only [PeriodUnit.origin, PeriodUnit.length, MS_PER_HOUR, MS_PER_DAY] at * <;> omega

/-- **A row is counted in the period that contains its start.** -/
theorem contains_iff : Contains dbType unit start t ↔ getPeriodStartExpr dbType unit t = start := by
  constructor
  · intro h
    exact (contains_getPeriodStartExpr dbType unit t).unique h
  · rintro rfl
    exact contains_getPeriodStartExpr dbType unit t

/-! ### The rows of a level -/

/-- The raw table, or the periods of a unit. -/
inductive Level where
  | raw
  | period (unit : PeriodUnit)
  deriving DecidableEq

def PeriodTable.rowsOf (t : PeriodTable) (unit : PeriodUnit) : List SourceRow :=
  (t.rows.filter fun r => r.periodUnit = unit).map (·.toSource)

def rowsAt (s : CompactionState) : Level → List SourceRow
  | .raw => s.raw.rows.map (·.toSource)
  | .period unit => s.byPeriod.rowsOf unit

/-- The sum of the rows whose metadata, type and start satisfy a predicate. -/
def sumOf (P : ℕ → InsightType → ℤ → Bool) (rows : List SourceRow) : ℤ :=
  tally (·.value) (fun r => P r.metaId r.type r.periodStart) rows

/-- The sum of rows as they are counted in periods of a unit. -/
def sumIn (dbType : DbType) (unit : PeriodUnit) (P : ℕ → InsightType → ℤ → Bool)
    (rows : List SourceRow) : ℤ :=
  tally (·.value) (fun r => P r.metaId r.type (getPeriodStartExpr dbType unit r.periodStart)) rows

namespace PeriodTable

variable (t : PeriodTable)

variable (P : ℕ → InsightType → ℤ → Bool)

theorem sumOf_rowsOf (unit : PeriodUnit) :
    sumOf P (t.rowsOf unit) =
      tally (·.value) (fun r => r.key.2.2.1 = unit && P r.key.1 r.key.2.1 r.key.2.2.2) t.rows := by
  rw [sumOf, rowsOf, tally_map, tally, tally, List.filter_filter]
  refine congrArg List.sum (congrArg (List.map _) (List.filter_congr fun r _ => ?_))
  exact Bool.and_comm _ _

variable {unit : PeriodUnit} {k : ℕ × InsightType × PeriodUnit × ℤ}

theorem rowsOf_upsert_of_ne (hunit : k.2.2.1 ≠ unit) (value : ℤ) :
    (t.upsert k value).rowsOf unit = t.rowsOf unit := by
  have hrow : ∀ r : InsightsByPeriod, r.key = k → r.periodUnit ≠ unit := by
    rintro r rfl
    exact hunit
  show ((upsertRows t.nextId k value t.rows).filter _).map _ = _
  unfold upsertRows
  split
  · rw [rowsOf, List.filter_map, List.map_map]
    have hfilter : t.rows.filter ((fun r : InsightsByPeriod => decide (r.periodUnit = unit)) ∘
        fun r => if r.key = k then { r with value := r.value + value } else r) =
        t.rows.filter fun r => r.periodUnit = unit := by
      refine List.filter_congr fun r _ => ?_
      rw [Function.comp]
      split <;> rfl
    rw [hfilter]
    refine List.map_congr_left fun r hr => ?_
    have hr' : r.periodUnit = unit := by simpa using (List.mem_filter.1 hr).2
    rw [Function.comp, if_neg fun hkey => hrow r hkey hr']
  · simp [rowsOf, hunit]

/-- What an upsert adds to a sum. -/
theorem sumOf_upsert (unit : PeriodUnit) (metaId : ℕ) (type : InsightType) (start value : ℤ) :
    sumOf P ((t.upsert (metaId, type, unit, start) value).rowsOf unit) =
      sumOf P (t.rowsOf unit) + if P metaId type start then value else 0 := by
  rw [sumOf_rowsOf, sumOf_rowsOf]
  show tally _ _ (upsertRows t.nextId _ value t.rows) = _
  unfold upsertRows
  split
  case isTrue hmem =>
    have hupdate := tally_map_update (fun r : InsightsByPeriod => r.value) (d := value)
      (f := fun r => { r with value := r.value + value }) (fun _ => rfl) (fun _ => rfl)
      (fun k => k.2.2.1 = unit && P k.1 k.2.1 k.2.2.2) t.unique hmem
    simpa using hupdate
  case isFalse hmem =>
    rw [tally_append, tally_cons, tally_nil, add_zero]
    simp [InsightsByPeriod.key]

theorem mem_keys_upsert {k' : ℕ × InsightType × PeriodUnit × ℤ} {value : ℤ} :
    k' ∈ (t.upsert k value).rows.map (·.key) ↔ k' ∈ t.rows.map (·.key) ∨ k' = k := by
  show k' ∈ (upsertRows t.nextId k value t.rows).map (·.key) ↔ _
  by_cases h : k ∈ t.rows.map (·.key)
  · rw [map_upsertRows (fun _ _ => rfl) h]
    constructor
    · exact Or.inl
    · rintro (h' | rfl)
      · exact h'
      · exact h
  · rw [map_upsertRows_of_new _ h]
    simp [InsightsByPeriod.key]

/-- The groups of a batch are upserted one after the other. -/
def upsertAll (unit : PeriodUnit) (groups : List ((ℕ × InsightType × ℤ) × ℤ)) : PeriodTable :=
  groups.foldl (fun t g => t.upsert (g.1.1, g.1.2.1, unit, g.1.2.2) g.2) t

variable {t}

variable {unit' : PeriodUnit} {groups : List ((ℕ × InsightType × ℤ) × ℤ)} {start : ℤ}

theorem rowsOf_upsertAll_of_ne (hunit : unit ≠ unit') (groups : List ((ℕ × InsightType × ℤ) × ℤ)) :
    (t.upsertAll unit groups).rowsOf unit' = t.rowsOf unit' := by
  induction groups generalizing t with
  | nil => rfl
  | cons g groups ih => exact ih.trans (rowsOf_upsert_of_ne t hunit _)

theorem sumOf_upsertAll (unit : PeriodUnit) (groups : List ((ℕ × InsightType × ℤ) × ℤ)) :
    sumOf P ((t.upsertAll unit groups).rowsOf unit) =
      sumOf P (t.rowsOf unit) + tally Prod.snd (fun g => P g.1.1 g.1.2.1 g.1.2.2) groups := by
  induction groups generalizing t with
  | nil => exact (add_zero _).symm
  | cons g groups ih =>
    rw [tally_cons, ← add_assoc, ← sumOf_upsert]
    exact ih

theorem mem_keys_upsertAll :
    k ∈ (t.upsertAll unit groups).rows.map (·.key) ↔ k ∈ t.rows.map (·.key) ∨
      ∃ g ∈ groups.map Prod.fst, k = (g.1, g.2.1, unit, g.2.2) := by
  induction groups generalizing t with
  | nil =>
    show k ∈ t.rows.map (·.key) ↔ _
    simp
  | cons g groups ih =>
    refine ih.trans ?_
    rw [mem_keys_upsert, List.map_cons, List.exists_mem_cons_iff, or_assoc]

theorem mem_starts :
    start ∈ (t.rowsOf unit).map (·.periodStart) ↔
      ∃ metaId type, (metaId, type, unit, start) ∈ t.rows.map (·.key) := by
  simp [rowsOf, InsightsByPeriod.key, InsightsByPeriod.toSource, and_assoc]

theorem mem_starts_upsertAll :
    start ∈ ((t.upsertAll unit groups).rowsOf unit).map (·.periodStart) ↔
      start ∈ (t.rowsOf unit).map (·.periodStart) ∨ ∃ g ∈ groups.map Prod.fst, g.2.2 = start := by
  simp only [mem_starts, mem_keys_upsertAll]
  constructor
  · rintro ⟨metaId, type, h | ⟨g, hg, heq⟩⟩
    · exact Or.inl ⟨metaId, type, h⟩
    · simp only [Prod.mk.injEq] at heq
      exact Or.inr ⟨g, hg, heq.2.2.2.symm⟩
  · rintro (⟨metaId, type, h⟩ | ⟨g, hg, rfl⟩)
    · exact ⟨metaId, type, Or.inl h⟩
    · exact ⟨g.1, g.2.1, Or.inr ⟨g, hg, rfl⟩⟩

theorem nodup_ids_rowsOf (t : PeriodTable) (unit : PeriodUnit) :
    ((t.rowsOf unit).map (·.id)).Nodup := by
  rw [rowsOf, List.map_map]
  exact t.ids.sublist (List.filter_sublist.map _)

theorem rowsOf_delete (t : PeriodTable) (ids : List ℕ) (unit : PeriodUnit) :
    (t.delete ids).rowsOf unit = (t.rowsOf unit).filter fun r => r.id ∉ ids := by
  simp only [rowsOf, PeriodTable.delete, List.filter_map, List.filter_filter]
  refine congrArg (List.map _) (List.filter_congr fun r _ => ?_)
  exact Bool.and_comm _ _

/-- Deleting rows of one unit leaves those of another: ids are unique in the table. -/
theorem rowsOf_delete_of_ne (hunit : unit ≠ unit') {ids : List ℕ}
    (hids : ids ⊆ (t.rowsOf unit).map (·.id)) : (t.delete ids).rowsOf unit' = t.rowsOf unit' := by
  rw [rowsOf_delete, List.filter_eq_self]
  intro r hr
  rw [decide_eq_true_iff]
  intro hmem
  obtain ⟨a, ha, rfl⟩ := List.mem_map.1 hr
  obtain ⟨b', hb', hid⟩ := List.mem_map.1 (hids hmem)
  obtain ⟨b, hb, rfl⟩ := List.mem_map.1 hb'
  obtain ⟨ha, haunit⟩ := List.mem_filter.1 ha
  obtain ⟨hb, hbunit⟩ := List.mem_filter.1 hb
  have hab : b = a := List.inj_on_of_nodup_map t.ids hb ha hid
  rw [hab] at hbunit
  exact hunit ((of_decide_eq_true hbunit).symm.trans (of_decide_eq_true haunit))

end PeriodTable

/-! ### A batch -/

/-- `rows` have been taken from one level and counted in the periods of a unit. -/
structure Compacts (dbType : DbType) (source : Level) (unit : PeriodUnit) (rows : List SourceRow)
    (s s' : CompactionState) : Prop where
  taken : rowsAt s source ~ rows ++ rowsAt s' source
  counted : ∀ P, sumOf P (rowsAt s' (.period unit)) =
    sumOf P (rowsAt s (.period unit)) + sumIn dbType unit P rows
  starts : ∀ start, start ∈ (rowsAt s' (.period unit)).map (·.periodStart) ↔
    start ∈ (rowsAt s (.period unit)).map (·.periodStart) ∨
      ∃ r ∈ rows, getPeriodStartExpr dbType unit r.periodStart = start
  others : ∀ level, level ≠ source → level ≠ .period unit → rowsAt s' level = rowsAt s level

namespace Compacts

variable {dbType : DbType} {source : Level} {unit : PeriodUnit} {rows rows' : List SourceRow}
  {s s' s'' : CompactionState}

theorem refl (dbType : DbType) (source : Level) (unit : PeriodUnit)
    (hlevels : ∀ level, rowsAt s' level = rowsAt s level) :
    Compacts dbType source unit [] s s' := by
  refine ⟨?_, fun P => ?_, fun start => ?_, fun level _ _ => hlevels level⟩
  · rw [hlevels, List.nil_append]
  · rw [hlevels, sumIn, tally_nil, add_zero]
  · rw [hlevels]
    simp

theorem trans (h : Compacts dbType source unit rows s s')
    (h' : Compacts dbType source unit rows' s' s'') :
    Compacts dbType source unit (rows ++ rows') s s'' := by
  refine ⟨?_, fun P => ?_, fun start => ?_, fun level hsource hunit => ?_⟩
  · rw [List.append_assoc]
    exact h.taken.trans (h'.taken.append_left rows)
  · rw [h'.counted, h.counted, sumIn, sumIn, sumIn, tally_append, add_assoc]
  · rw [h'.starts, h.starts, or_assoc]
    simp only [List.mem_append, or_and_right, exists_or]
  · rw [h'.others level hsource hunit, h.others level hsource hunit]

end Compacts

/-- What is compacted first of a level, and where it is deleted. -/
def Level.table : Level → SourceTable
  | .raw => .insightsRaw
  | .period _ => .insightsByPeriod

variable {db : Database} {s : CompactionState}

theorem sumIn_eq_groups (P : ℕ → InsightType → ℤ → Bool) (unit : PeriodUnit)
    (rows : List SourceRow) :
    tally Prod.snd (fun g => P g.1.1 g.1.2.1 g.1.2.2) (getAggregationQuery db unit rows) =
      sumIn db.dbType unit P rows :=
  tally_groups (fun k : ℕ × InsightType × ℤ => P k.1 k.2.1 k.2.2) rows

/-- The state after a batch of rows. -/
def afterBatch (db : Database) (source : SourceTable) (unit : PeriodUnit) (rows : List SourceRow)
    (s : CompactionState) : CompactionState :=
  let byPeriod := s.byPeriod.upsertAll unit (getAggregationQuery db unit rows)
  { s with
    raw := if source = .insightsRaw then s.raw.delete (rows.map (·.id)) else s.raw
    byPeriod :=
      if source = .insightsByPeriod then byPeriod.delete (rows.map (·.id)) else byPeriod
    batches := s.batches + 1 }

/-- **A batch of some rows of a level.** -/
theorem compacts_afterBatch (hne : source ≠ .period unit) {rest : List SourceRow}
    (hrows : rowsAt s source ~ rows ++ rest) :
    Compacts db.dbType source unit rows s (afterBatch db source.table unit rows s) := by
  have hids : rows.map (·.id) ⊆ (rowsAt s source).map (·.id) := by
    intro id hid
    rw [(hrows.map _).mem_iff, List.map_append]
    exact List.mem_append_left _ hid
  have htarget : ∀ P, sumOf P
      ((s.byPeriod.upsertAll unit (getAggregationQuery db unit rows)).rowsOf unit) =
        sumOf P (s.byPeriod.rowsOf unit) + sumIn db.dbType unit P rows := by
    intro P
    rw [PeriodTable.sumOf_upsertAll, sumIn_eq_groups]
  have hstarts : ∀ start, start ∈
      ((s.byPeriod.upsertAll unit (getAggregationQuery db unit rows)).rowsOf unit).map
        (·.periodStart) ↔ start ∈ (s.byPeriod.rowsOf unit).map (·.periodStart) ∨
          ∃ r ∈ rows, getPeriodStartExpr db.dbType unit r.periodStart = start := by
    intro start
    rw [PeriodTable.mem_starts_upsertAll]
    simp only [getAggregationQuery, mem_keys_groups]
    simp
  cases source with
  | raw =>
    refine ⟨?_, htarget, hstarts, fun level hsource hunit => ?_⟩
    · have hnodup : ((rowsAt s .raw).map (·.id)).Nodup := by
        rw [rowsAt, List.map_map]
        exact s.raw.ids
      have hperm := perm_append_filter_notMem hnodup hrows
      rwa [show rowsAt (afterBatch db Level.raw.table unit rows s) .raw =
        (rowsAt s .raw).filter fun r => r.id ∉ rows.map (·.id) by
          simp only [rowsAt, List.filter_map]
          rfl]
    · cases level with
      | raw => exact absurd rfl hsource
      | period unit' =>
        exact PeriodTable.rowsOf_upsertAll_of_ne (fun h => hunit (congrArg Level.period h.symm)) _
  | period from' =>
    have hfrom : unit ≠ from' := fun h => hne (h ▸ rfl)
    have hrowsOf := PeriodTable.rowsOf_upsertAll_of_ne (t := s.byPeriod) hfrom
      (getAggregationQuery db unit rows)
    have hids' : rows.map (·.id) ⊆
        ((s.byPeriod.upsertAll unit (getAggregationQuery db unit rows)).rowsOf from').map
          (·.id) := by
      rw [hrowsOf]
      exact hids
    refine ⟨?_, fun P => ?_, fun start => ?_, fun level hsource hunit => ?_⟩
    · have hperm := perm_append_filter_notMem (s.byPeriod.nodup_ids_rowsOf from') hrows
      show _ ~ rows ++ PeriodTable.rowsOf (PeriodTable.delete _ _) from'
      rw [PeriodTable.rowsOf_delete, hrowsOf]
      exact hperm
    · show sumOf P (PeriodTable.rowsOf (PeriodTable.delete _ _) unit) = _
      rw [PeriodTable.rowsOf_delete_of_ne hfrom.symm hids']
      exact htarget P
    · show start ∈ (PeriodTable.rowsOf (PeriodTable.delete _ _) unit).map _ ↔ _
      rw [PeriodTable.rowsOf_delete_of_ne hfrom.symm hids']
      exact hstarts start
    · cases level with
      | raw => rfl
      | period unit' =>
        show PeriodTable.rowsOf (PeriodTable.delete _ _) unit' = _
        rw [PeriodTable.rowsOf_delete_of_ne (fun h => hsource (congrArg Level.period h.symm)) hids']
        exact PeriodTable.rowsOf_upsertAll_of_ne (fun h => hunit (congrArg Level.period h.symm)) _

/-! ### The loops -/

theorem limit_eq_ok {l : List SourceRow} (h : limit dbType n l = .ok rows) :
    ∃ rest, l = rows ++ rest := by
  unfold limit at h
  split at h
  · cases h
    exact ⟨[], (List.append_nil _).symm⟩
  split at h
  · cases h
    exact ⟨l.drop n.toNat, (List.take_append_drop _ _).symm⟩
  split at h
  · cases h
    exact ⟨[], (List.append_nil _).symm⟩
  · cases h

theorem getRawInsightsBatchQuery_ok (h : getRawInsightsBatchQuery db n s = .ok rows) :
    ∃ rest, rowsAt s .raw ~ rows ++ rest := by
  obtain ⟨rest, hrest⟩ := limit_eq_ok h
  exact ⟨rest, hrest ▸ (db.perm _ _).symm⟩

theorem getPeriodInsightsBatchQuery_ok {maxAge : ℤ}
    (h : getPeriodInsightsBatchQuery db unit n maxAge s = .ok rows) :
    ∃ rest, rowsAt s (.period unit) ~ rows ++ rest := by
  obtain ⟨rest, hrest⟩ := limit_eq_ok h
  have hold := (db.perm _ _).symm.trans (List.Perm.of_eq hrest)
  refine ⟨rest ++ (rowsAt s (.period unit)).filter
    fun r => !isOld db s.batches maxAge r.periodStart, ?_⟩
  rw [← List.append_assoc]
  refine (List.filter_append_perm (fun r => isOld db s.batches maxAge r.periodStart) _).symm.trans
    ?_
  refine List.Perm.append_right _ (List.Perm.trans (List.Perm.of_eq ?_) hold)
  rw [rowsAt, PeriodTable.rowsOf, List.filter_map, List.filter_filter]
  refine congrArg (List.map _) (List.filter_congr fun r _ => ?_)
  rw [Bool.and_comm, Bool.decide_and, Bool.decide_eq_true]
  rfl

/-- What a batch of a loop does. -/
def IsBatch (db : Database) (source : Level) (unit : PeriodUnit)
    (compact : CompactionState → CompactionState × Except String ℕ) : Prop :=
  ∀ s, ∃ rows, Compacts db.dbType source unit rows s (compact s).1 ∧
    ∀ n, (compact s).2 = .ok n → n = rows.length

theorem isBatch_compactSource (hne : source ≠ .period unit)
    {query : CompactionState → Except String (List SourceRow)}
    (hquery : ∀ s rows, query s = .ok rows → ∃ rest, rowsAt s source ~ rows ++ rest) :
    IsBatch db source unit (compactSourceDataIntoInsightPeriod db query source.table unit) := by
  intro s
  unfold compactSourceDataIntoInsightPeriod
  split
  · refine ⟨[], Compacts.refl _ _ _ fun _ => rfl, ?_⟩
    rintro n ⟨⟩
    rfl
  split
  case h_1 e he =>
    refine ⟨[], Compacts.refl _ _ _ fun level => by cases level <;> rfl, ?_⟩
    rintro n ⟨⟩
  case h_2 rows hrows =>
    obtain ⟨rest, hrest⟩ := hquery s rows hrows
    refine ⟨rows, compacts_afterBatch hne hrest, ?_⟩
    rintro n ⟨⟩
    rfl

variable {config : InsightsConfig}

theorem isBatch_compactRawToHour : IsBatch db .raw .hour (compactRawToHour db config) :=
  isBatch_compactSource (by simp) fun _ _ => getRawInsightsBatchQuery_ok

theorem isBatch_compactHourToDay : IsBatch db (.period .hour) .day (compactHourToDay db config) :=
  isBatch_compactSource (by simp) fun _ _ => getPeriodInsightsBatchQuery_ok

theorem isBatch_compactDayToWeek : IsBatch db (.period .day) .week (compactDayToWeek db config) :=
  isBatch_compactSource (by simp) fun _ _ => getPeriodInsightsBatchQuery_ok

/-- **A loop compacts rows of its level**, whatever its batches are. -/
theorem IsBatch.run (h : IsBatch db source unit compact) {fuel : ℕ}
    {r : CompactionState × Except String ℕ}
    (hrun : DoWhile.run compact (isFull config) fuel s = some r) :
    ∃ rows, Compacts db.dbType source unit rows s r.1 := by
  refine DoWhile.run_invariant (I := fun s' => ∃ rows, Compacts db.dbType source unit rows s s')
    ?_ ⟨[], Compacts.refl _ _ _ fun _ => rfl⟩ hrun
  rintro s' ⟨rows, hrows⟩
  obtain ⟨rows', hrows', -⟩ := h s'
  exact ⟨rows ++ rows', hrows.trans hrows'⟩

/-- With a batch size other than 0 a full batch takes rows away, so that the loop ends. -/
theorem IsBatch.exists_run (h : IsBatch db source unit compact)
    (hsize : config.compactionBatchSize ≠ 0) (s : CompactionState) : ∃ fuel,
    (DoWhile.run compact (isFull config) fuel s).isSome = true := by
  refine DoWhile.exists_run (fun s => (rowsAt s source).length) (fun s hfull => ?_) s
  obtain ⟨rows, hrows, hcount⟩ := h s
  have hlength := hrows.taken.length_eq
  rw [List.length_append] at hlength
  cases hresult : (compact s).2 with
  | error e =>
    rw [hresult] at hfull
    cases hfull
  | ok n =>
    have hn := hcount n hresult
    rw [hresult] at hfull
    have hfull' : (n : ℤ) = config.compactionBatchSize := of_decide_eq_true hfull
    show (rowsAt (compact s).1 source).length < (rowsAt s source).length
    omega

end Insights

end N8n
