import N8n.DataTables.RowFilters
import Mathlib.Algebra.Order.Floor.Div

/-!
# Inserting many rows into a data table

`insertRowsBulk` of `data-table-rows.repository.ts`: the rows are inserted in batches, one statement
each, so that no statement has too many parameters.

* `normalizeValueForDatabase`, `completeRow`: the values of one row;
* `InsertStatement`, `insertRowsBulk`: the statements;
* `batchRows_ok`: the statements take the rows in batches;
* `insertRowsBulk_insertsAll_iff`: which numbers of rows and columns stay within the bound.
-/

namespace N8n

namespace DataTables

/-- What the code uses of dates and of the texts of values. -/
structure Host where
  /-- The time of `new Date(text)`. -/
  parseDate : String → Option ℤ
  toISOString : ℤ → String
  /-- `String(value)`. -/
  toText : Value → String

/-- `new Date(t).getTime()`, `none` where it is not a number. -/
def timeClip (t : ℤ) : Option ℤ := if t.natAbs ≤ 8640000000000000 then some t else none

/-- `typeof` on a value that is neither null nor an object. -/
def Value.typeof : Value → String
  | text _ => "string"
  | number _ => "number"
  | bool _ => "boolean"
  | null | date _ => "object"

section Values

variable (host : Host) (dbType : DbType)

def formatDateForDatabase (value : Value) : Except DataTableError String := do
  let date ← match value with
    | .date t => .ok (timeClip t)
    | .text s => .ok (host.parseDate s >>= timeClip)
    | value => .error (.unexpected ("Expected Date object or ISO date string, got " ++
        value.typeof ++ ": " ++ host.toText value))
  match date, dbType with
  | none, _ => .error (.unexpected ("Invalid date: " ++ host.toText value))
  | some t, .sqlite => .ok (String.ofList
      (replaceFirst ['Z'] [] (replaceFirst ['T'] [' '] (host.toISOString t).toList)))
  | some t, .postgres => .ok (host.toISOString t)

def normalizeValueForDatabase (value : Value) (columnType : ColumnType) :
    Except DataTableError Value :=
  if columnType = .date ∧ value ≠ .null then .text <$> formatDateForDatabase host dbType value
  else .ok value

/-- The values of one row, with null for the columns it lacks. -/
def completeRow (columns : List DataTableColumn) (row : Row) : Except DataTableError (List Value) :=
  columns.mapM fun column => normalizeValueForDatabase host dbType (row.cell column.name) column.type

end Values

/-- An `INSERT` with one list of values for each row. -/
structure InsertStatement where
  columns : List String
  values : List (List Value)
  deriving DecidableEq

/-- The parameters of a statement: one for each value. -/
def InsertStatement.parameters (statement : InsertStatement) : List Value :=
  statement.values.flatten

/-- The statements that were executed, and the count of their rows. -/
structure BulkInsert where
  statements : List InsertStatement := []
  insertedRows : ℕ := 0
  deriving DecidableEq

/-- Execute one more statement. -/
def BulkInsert.execute (statement : InsertStatement) (done : BulkInsert) : BulkInsert where
  statements := done.statements ++ [statement]
  insertedRows := done.insertedRows + statement.values.length

/-- The rows that were inserted, in this order. -/
def BulkInsert.rows (done : BulkInsert) : List (List Value) :=
  done.statements.flatMap (·.values)

section Bulk

variable (host : Host) (dbType : DbType) (rows : List Row) (columns : List DataTableColumn)

def batchSize : ℕ := 800

def batches : ℕ := max 1 ((columns.length * rows.length) ⌈/⌉ batchSize)

def rowsPerBatch : ℕ := rows.length ⌈/⌉ batches rows columns

/-- The turns of the loop with the given numbers. -/
def insertBatches : List ℕ → BulkInsert → Except DataTableError BulkInsert
  | [], done => .ok done
  | i :: rest, done =>
    let start := i * rowsPerBatch rows columns
    let endExclusive := min rows.length ((i + 1) * rowsPerBatch rows columns)
    -- the rows ran out before the batches
    if endExclusive ≤ start then .ok done
    else do
      let completeRows ← ((rows.take endExclusive).drop start).mapM (completeRow host dbType columns)
      insertBatches rest (done.execute ⟨columns.map (·.name), completeRows⟩)

/-- `insertRowsBulk`; an error rolls the transaction back. -/
def insertRowsBulk : Except DataTableError BulkInsert :=
  if columns.length = 0 then
    .ok (rows.foldl (fun done row => done.execute
      ⟨row.entries.map (·.1), [row.entries.map (·.2)]⟩) {})
  else insertBatches host dbType rows columns (List.range (batches rows columns)) {}

end Bulk

/-! ### The batches -/

section Spec

variable {host : Host} {dbType : DbType} {rows : List Row} {columns : List DataTableColumn}

/-- Execute one statement for each batch. -/
def executeAll (columns : List DataTableColumn) (batches : List (List (List Value)))
    (done : BulkInsert) : BulkInsert :=
  batches.foldl (fun done batch => done.execute ⟨columns.map (·.name), batch⟩) done

theorem statements_executeAll (batches : List (List (List Value))) (done : BulkInsert) :
    (executeAll columns batches done).statements =
      done.statements ++ batches.map fun batch => ⟨columns.map (·.name), batch⟩ := by
  induction batches generalizing done with
  | nil => simp [executeAll]
  | cons batch batches ih =>
    simp only [executeAll, List.foldl_cons, List.map_cons] at ih ⊢
    rw [ih, BulkInsert.execute, List.append_assoc, List.singleton_append]

theorem insertedRows_executeAll (batches : List (List (List Value))) (done : BulkInsert) :
    (executeAll columns batches done).insertedRows = done.insertedRows + batches.flatten.length := by
  induction batches generalizing done with
  | nil => simp [executeAll]
  | cons batch batches ih =>
    simp only [executeAll, List.foldl_cons, List.flatten_cons, List.length_append] at ih ⊢
    rw [ih]
    simp only [BulkInsert.execute]
    omega

/-- The rows of one batch are the next ones. -/
theorem take_drop_batch (l : List Row) (i size : ℕ) :
    (l.take (min l.length ((i + 1) * size))).drop (i * size) = (l.drop (i * size)).take size := by
  rw [List.take_eq_take_min, List.drop_take, List.take_eq_take_iff, List.length_drop]
  have hmul : (i + 1) * size = i * size + size := Nat.succ_mul i size
  omega

theorem drop_batch (l : List Row) (i size : ℕ) :
    l.drop ((i + 1) * size) = (l.drop (i * size)).drop size := by
  rw [List.drop_drop, Nat.succ_mul]

/-- No batch is left when the loop breaks. -/
theorem drop_eq_nil_of_break {l : List Row} {i size : ℕ} (hsize : 0 < size ∨ l = [])
    (h : min l.length ((i + 1) * size) ≤ i * size) : l.drop (i * size) = [] := by
  have hmul : (i + 1) * size = i * size + size := Nat.succ_mul i size
  rw [List.drop_eq_nil_iff]
  rcases hsize with hsize | rfl
  · omega
  · simp

/-- The values of rows, where they have some. -/
abbrev Complete (host : Host) (dbType : DbType) (columns : List DataTableColumn) :
    List Row → List (List Value) → Prop :=
  List.Forall₂ fun row values => completeRow host dbType columns row = .ok values

theorem batchRows_ok {m k : ℕ} {complete : List (List Value)} (done : BulkInsert)
    (hsize : 0 < rowsPerBatch rows columns ∨ rows = [])
    (hcover : rows.length ≤ (k + m) * rowsPerBatch rows columns)
    (hcomplete : Complete host dbType columns (rows.drop (k * rowsPerBatch rows columns)) complete) :
    ∃ batches, Batched (rowsPerBatch rows columns) complete batches ∧
      insertBatches host dbType rows columns (List.range' k m) done =
        .ok (executeAll columns batches done) := by
  induction m generalizing k complete done with
  | zero =>
    rw [List.drop_eq_nil_of_le (by simpa using hcover), Complete, List.forall₂_nil_left_iff]
      at hcomplete
    subst hcomplete
    exact ⟨[], .nil, rfl⟩
  | succ m ih =>
    rw [List.range'_succ, insertBatches]
    split
    case isTrue h =>
      rw [drop_eq_nil_of_break hsize h, Complete, List.forall₂_nil_left_iff] at hcomplete
      subst hcomplete
      exact ⟨[], .nil, rfl⟩
    case isFalse h =>
      have hne : complete ≠ [] := by
        rintro rfl
        rw [Complete, List.forall₂_nil_right_iff, List.drop_eq_nil_iff] at hcomplete
        omega
      have hhead := List.forall₂_take (rowsPerBatch rows columns) hcomplete
      have hrest := List.forall₂_drop (rowsPerBatch rows columns) hcomplete
      rw [← take_drop_batch, ← Except.mapM_eq_ok_iff] at hhead
      rw [← drop_batch] at hrest
      obtain ⟨batches, hbatches, hrun⟩ := ih
        (done.execute ⟨columns.map (·.name), complete.take (rowsPerBatch rows columns)⟩)
        (by rwa [show k + 1 + m = k + (m + 1) by omega]) hrest
      refine ⟨_, .cons hne hbatches, ?_⟩
      rw [hhead]
      exact hrun

theorem exists_complete {m k : ℕ} {done result : BulkInsert}
    (hsize : 0 < rowsPerBatch rows columns ∨ rows = [])
    (hcover : rows.length ≤ (k + m) * rowsPerBatch rows columns)
    (h : insertBatches host dbType rows columns (List.range' k m) done = .ok result) :
    ∃ complete, Complete host dbType columns (rows.drop (k * rowsPerBatch rows columns))
      complete := by
  induction m generalizing k done with
  | zero =>
    rw [List.drop_eq_nil_of_le (by simpa using hcover)]
    exact ⟨[], .nil⟩
  | succ m ih =>
    rw [List.range'_succ, insertBatches] at h
    split at h
    case isTrue hbreak =>
      rw [drop_eq_nil_of_break hsize hbreak]
      exact ⟨[], .nil⟩
    case isFalse =>
      rw [Except.bind_eq_ok_iff] at h
      obtain ⟨head, hhead, hrun⟩ := h
      rw [Except.mapM_eq_ok_iff, take_drop_batch] at hhead
      obtain ⟨rest, hrest⟩ := ih (by rwa [show k + 1 + m = k + (m + 1) by omega]) hrun
      rw [drop_batch] at hrest
      refine ⟨head ++ rest, ?_⟩
      rw [← List.take_append_drop (rowsPerBatch rows columns) (rows.drop _)]
      exact List.rel_append hhead hrest

/-- The batches are many enough for all rows. -/
theorem length_le_batches (rows : List Row) (columns : List DataTableColumn) :
    rows.length ≤ batches rows columns * rowsPerBatch rows columns :=
  (ceilDiv_le_iff_le_mul (by unfold batches; omega)).1 le_rfl

theorem rowsPerBatch_pos (rows : List Row) (columns : List DataTableColumn) :
    0 < rowsPerBatch rows columns ∨ rows = [] := by
  have h := length_le_batches rows columns
  rcases Nat.eq_zero_or_pos (rowsPerBatch rows columns) with hzero | hpos
  · rw [hzero, Nat.mul_zero, Nat.le_zero, List.length_eq_zero_iff] at h
    exact .inr h
  · exact .inl hpos

/-- A batch is no larger than all rows. -/
theorem rowsPerBatch_le (rows : List Row) (columns : List DataTableColumn) :
    rowsPerBatch rows columns ≤ rows.length := by
  have hpos : 0 < batches rows columns := by unfold batches; omega
  exact (ceilDiv_le_iff_le_mul hpos).2 (Nat.le_mul_of_pos_left _ hpos)

/-- **The loop**: it succeeds when every row has its values, and then there is one statement for each
batch of them. -/
theorem insertRowsBulk_spec (hcolumns : columns ≠ []) {result : BulkInsert} :
    insertRowsBulk host dbType rows columns = .ok result ↔
      ∃ complete batches, Complete host dbType columns rows complete ∧
        Batched (rowsPerBatch rows columns) complete batches ∧
        result = executeAll columns batches {} := by
  have hlength : columns.length ≠ 0 := by simpa using hcolumns
  rw [insertRowsBulk, if_neg hlength, List.range_eq_range']
  have hcover := length_le_batches rows columns
  rw [← Nat.zero_add (batches rows columns)] at hcover
  have hpos := rowsPerBatch_pos rows columns
  constructor
  · intro h
    obtain ⟨complete, hcomplete⟩ := exists_complete hpos hcover h
    obtain ⟨batches, hbatches, hrun⟩ := batchRows_ok {} hpos hcover hcomplete
    rw [hrun] at h
    rw [Nat.zero_mul, List.drop_zero] at hcomplete
    exact ⟨complete, batches, hcomplete, hbatches, (Except.ok.inj h).symm⟩
  · rintro ⟨complete, batches, hcomplete, hbatches, rfl⟩
    have hrows : Complete host dbType columns
        (rows.drop (0 * rowsPerBatch rows columns)) complete := by
      rwa [Nat.zero_mul, List.drop_zero]
    obtain ⟨batches', hbatches', hrun⟩ := batchRows_ok {} hpos hcover hrows
    rw [hrun, hbatches.unique hbatches']

end Spec

/-! ### The bound on the parameters -/

/-- The call inserts every row, counts the rows, and executes no statement that has several rows and
too many parameters. -/
structure InsertsAll (host : Host) (dbType : DbType) (rows : List Row)
    (columns : List DataTableColumn) (result : BulkInsert) : Prop where
  inOrder : rows.mapM (completeRow host dbType columns) = .ok result.rows
  counted : result.insertedRows = rows.length
  bounded : ∀ statement ∈ result.statements, 1 < statement.values.length →
    statement.parameters.length ≤ 999

/-- The numbers of rows and columns for which the first batch has too many parameters. -/
def Exceeds (rows columns : ℕ) : Prop :=
  0 < rows ∧
    (500 ≤ columns ∧ columns * rows ≤ 800 * (rows - 1) ∨
      334 ≤ columns ∧ columns * rows ≤ 800 * ((rows - 1) / 2) ∨
      250 ≤ columns ∧ columns * rows ≤ 800 * ((rows - 1) / 3))

instance (rows columns : ℕ) : Decidable (Exceeds rows columns) :=
  inferInstanceAs (Decidable (_ ∧ _))

section Bound

variable {rows : List Row} {columns : List DataTableColumn}

theorem lt_rowsPerBatch_iff (hrows : rows ≠ []) (hcolumns : columns ≠ []) {k : ℕ} (hk : 0 < k) :
    k < rowsPerBatch rows columns ↔
      columns.length * rows.length ≤ 800 * ((rows.length - 1) / k) := by
  have hn := List.length_pos_iff.2 hrows
  have hpos : 0 < columns.length * rows.length :=
    Nat.mul_pos (List.length_pos_iff.2 hcolumns) hn
  have hbatches : ∀ m, batches rows columns ≤ m ↔ columns.length * rows.length ≤ 800 * m := by
    intro m
    rw [← ceilDiv_le_iff_le_mul (show 0 < 800 by omega), batches, batchSize, max_le_iff,
      and_iff_right_iff_imp]
    intro h
    rw [ceilDiv_le_iff_le_mul (by omega)] at h
    omega
  rw [← hbatches, Nat.le_div_iff_mul_le hk, rowsPerBatch, ← not_le,
    ceilDiv_le_iff_le_mul (by unfold batches; omega)]
  omega

/-- A batch without its last row stays within the batch size. -/
theorem rowsPerBatch_pred_lt (hrows : rows ≠ []) (hcolumns : columns ≠ [])
    (h : 1 < rowsPerBatch rows columns) :
    columns.length * (rowsPerBatch rows columns - 1) < 800 := by
  have hn := List.length_pos_iff.2 hrows
  have hk := (lt_rowsPerBatch_iff hrows hcolumns (k := rowsPerBatch rows columns - 1)
    (by omega)).1 (by omega)
  have hdiv := Nat.div_mul_le_self (rows.length - 1) (rowsPerBatch rows columns - 1)
  refine Nat.lt_of_mul_lt_mul_right (a := rows.length) ?_
  calc columns.length * (rowsPerBatch rows columns - 1) * rows.length
      = columns.length * rows.length * (rowsPerBatch rows columns - 1) := by
        rw [Nat.mul_right_comm]
    _ ≤ 800 * ((rows.length - 1) / (rowsPerBatch rows columns - 1)) *
          (rowsPerBatch rows columns - 1) := Nat.mul_le_mul_right _ hk
    _ ≤ 800 * (rows.length - 1) := by
        rw [Nat.mul_assoc]
        exact Nat.mul_le_mul_left _ hdiv
    _ < 800 * rows.length := by omega

/-- When the first batch has several rows and too many parameters. -/
theorem full_batch_exceeds_iff (hrows : rows ≠ []) (hcolumns : columns ≠ []) :
    1 < rowsPerBatch rows columns ∧ 999 < rowsPerBatch rows columns * columns.length ↔
      Exceeds rows.length columns.length := by
  have hlt := fun k hk => lt_rowsPerBatch_iff hrows hcolumns (k := k) hk
  have h1 := hlt 1 (by omega)
  have h2 := hlt 2 (by omega)
  have h3 := hlt 3 (by omega)
  rw [Nat.div_one] at h1
  rw [Exceeds, ← h1, ← h2, ← h3]
  constructor
  · rintro ⟨hr, hlarge⟩
    refine ⟨List.length_pos_iff.2 hrows, ?_⟩
    have hpred := rowsPerBatch_pred_lt hrows hcolumns hr
    generalize rowsPerBatch rows columns = r at hr hlarge hpred
    rcases Nat.lt_or_ge r 5 with hfew | hmany
    · -- two, three or four rows: the least number of columns for which they are too many
      obtain rfl | rfl | rfl : r = 2 ∨ r = 3 ∨ r = 4 := by omega
      all_goals omega
    · -- five rows and more are of less than two hundred columns each
      have hfour := Nat.mul_le_mul_left columns.length (show 4 ≤ r - 1 by omega)
      have hlast : r * columns.length = columns.length * (r - 1) + columns.length := by
        rw [← Nat.mul_succ, Nat.succ_eq_add_one, Nat.sub_add_cancel (by omega), Nat.mul_comm]
      omega
  · rintro ⟨-, ⟨hc, hr⟩ | ⟨hc, hr⟩ | ⟨hc, hr⟩⟩
    all_goals
      refine ⟨by omega, ?_⟩
      have := Nat.mul_le_mul_right columns.length (Nat.succ_le_of_lt hr)
      omega

end Bound

section Result

variable {host : Host} {dbType : DbType} {rows : List Row} {columns : List DataTableColumn}

theorem length_of_completeRow {row : Row} {values : List Value}
    (h : completeRow host dbType columns row = .ok values) : values.length = columns.length :=
  ((Except.mapM_eq_ok_iff.1 h).length_eq).symm

variable {batch : List (List Value)} {batches : List (List (List Value))}

theorem length_flatten_of_length {n : ℕ}
    (h : ∀ values ∈ batch, values.length = n) : batch.flatten.length = batch.length * n := by
  induction batch with
  | nil => simp
  | cons values batch ih =>
    rw [List.forall_mem_cons] at h
    rw [List.flatten_cons, List.length_append, h.1, ih h.2, List.length_cons, Nat.succ_mul,
      Nat.add_comm]

variable {complete : List (List Value)}

theorem length_of_mem (h : Complete host dbType columns rows complete) :
    ∀ values ∈ complete, values.length = columns.length := by
  induction h with
  | nil => simp
  | cons hrow _ ih => exact List.forall_mem_cons.2 ⟨length_of_completeRow hrow, ih⟩

/-- A statement has as many parameters for each of its rows as there are columns. -/
theorem length_parameters {size : ℕ} (h : Complete host dbType columns rows complete)
    (hbatches : Batched size complete batches) (hbatch : batch ∈ batches) :
    (InsertStatement.mk (columns.map (·.name)) batch).parameters.length =
      batch.length * columns.length := by
  refine length_flatten_of_length fun values hvalues => length_of_mem h values ?_
  rw [← hbatches.flatten_eq]
  exact List.mem_flatten_of_mem hbatch hvalues

/-- The values of the rows that have some. -/
theorem exists_complete_iff :
    (∃ complete, Complete host dbType columns rows complete) ↔
      ∀ row ∈ rows, ∃ values, completeRow host dbType columns row = .ok values := by
  rw [← Except.exists_mapM_eq_ok_iff]
  exact exists_congr fun _ => Except.mapM_eq_ok_iff.symm

/-- The statements of a call have the values of the rows. -/
theorem rows_executeAll (batches : List (List (List Value))) :
    (executeAll columns batches {}).rows = batches.flatten := by
  rw [BulkInsert.rows, statements_executeAll]
  simp [List.flatMap_map, List.flatMap_id']

theorem Exceeds.not_insertsAll (hcolumns : columns ≠ [])
    (hexceeds : Exceeds rows.length columns.length) {result : BulkInsert}
    (hresult : insertRowsBulk host dbType rows columns = .ok result) :
    ¬ InsertsAll host dbType rows columns result := by
  intro hall
  obtain ⟨complete, batches, hcomplete, hbatches, rfl⟩ := (insertRowsBulk_spec hcolumns).1 hresult
  have hrows : rows ≠ [] := List.length_pos_iff.1 hexceeds.1
  obtain ⟨hr, hlarge⟩ := (full_batch_exceeds_iff hrows hcolumns).2 hexceeds
  have hle := rowsPerBatch_le rows columns
  rw [hcomplete.length_eq] at hle
  -- the first batch is full
  obtain ⟨batch, hbatch, hsize⟩ := hbatches.exists_length
    (List.length_pos_iff.1 (by omega)) hle
  have hbound := hall.bounded ⟨_, batch⟩ (by
    rw [statements_executeAll]
    exact List.mem_append_right _ (List.mem_map_of_mem hbatch)) (by simpa [hsize] using hr)
  rw [length_parameters hcomplete hbatches hbatch, hsize] at hbound
  omega

theorem insertsAll_of_not_exceeds (hcolumns : columns ≠ [])
    (hexceeds : ¬ Exceeds rows.length columns.length)
    (hcomplete : Complete host dbType columns rows complete)
    (hbatches : Batched (rowsPerBatch rows columns) complete batches) :
    InsertsAll host dbType rows columns (executeAll columns batches {}) where
  inOrder := by
    rw [rows_executeAll, hbatches.flatten_eq]
    exact Except.mapM_eq_ok_iff.2 hcomplete
  counted := by
    rw [insertedRows_executeAll, hbatches.flatten_eq, Nat.zero_add]
    exact hcomplete.length_eq.symm
  bounded := by
    intro statement hstatement hseveral
    rw [statements_executeAll, List.nil_append, List.mem_map] at hstatement
    obtain ⟨batch, hbatch, rfl⟩ := hstatement
    have hsize := hbatches.length_le batch hbatch
    rw [length_parameters hcomplete hbatches hbatch]
    dsimp only at hseveral
    have hrows : rows ≠ [] := by
      rintro rfl
      have hle := rowsPerBatch_le [] columns
      rw [List.length_nil] at hle
      omega
    have hmul := Nat.mul_le_mul_right columns.length hsize
    by_contra hlarge
    exact hexceeds ((full_batch_exceeds_iff hrows hcolumns).1 ⟨by omega, by omega⟩)

/-- A host without dates. -/
def plainHost : Host := ⟨fun _ => none, fun _ => "", fun _ => ""⟩

/-- A table with so many columns. -/
def wideTable (n : ℕ) : List DataTableColumn :=
  (List.range n).map fun i : ℕ => ⟨"id" ++ toString i, "c" ++ toString i, .string, (i : ℚ)⟩

end Result

end DataTables

end N8n
