import N8n.Expressions.FromAi
import N8n.Lib.Numbered
import N8n.Lib.Lts
import Mathlib.Algebra.Order.Field.Rat

/-!
# The columns of a data table

`data-table-column.repository.ts` and the creation of a table in `data-table.repository.ts`.  Every
operation is one transaction: an error leaves the table as it was.

* `Columns`, `DataTable`: the rows of the columns, with their keys, and the table they belong to;
* `createDataTable`, `addColumn`, `deleteColumn`, `moveColumn`, `renameColumn`: the operations;
* `Call`, `step`: calls of the service on one table.
-/

namespace N8n

namespace DataTables

/-- Why an operation on a data table fails. -/
inductive DataTableError where
  | systemColumnName (columnName type : String)
  | columnNameConflict (columnName dataTableName : String)
  | columnNotFound (dataTableId columnId : String)
  | validation (msg : String)
  | unexpected (msg : String)
  | database
  deriving DecidableEq

/-- The text of an error. -/
def DataTableError.message : DataTableError → String
  | systemColumnName columnName type =>
    "Column name \"" ++ columnName ++ "\" is reserved as a " ++ type ++ " column name."
  | columnNameConflict columnName dataTableName =>
    "Data table column with name '" ++ columnName ++ "' already exists in data table '" ++
      dataTableName ++ "'"
  | columnNotFound dataTableId columnId =>
    "Could not find the column '" ++ columnId ++ "' in the data table: " ++ dataTableId
  | validation msg => "Validation error with data table request: " ++ msg
  | unexpected msg => msg
  | database => "query failed"

inductive ColumnType where
  | string
  | number
  | boolean
  | date
  deriving DecidableEq

/-- `DataTableCreateColumnSchema`: any number is taken as an index. -/
structure CreateColumn where
  name : String
  type : ColumnType
  index : Option ℚ := none
  deriving DecidableEq

/-- A row of the column table. -/
structure DataTableColumn where
  id : String
  name : String
  type : ColumnType
  index : ℚ
  deriving DecidableEq

/-- The column rows of one data table, with their primary key and their unique names. -/
structure Columns where
  rows : List DataTableColumn
  ids : (rows.map (·.id)).Nodup
  names : (rows.map (·.name)).Nodup
  deriving DecidableEq

/-- A data table. -/
structure DataTable where
  id : String
  name : String
  columns : Columns
  deriving DecidableEq

/-! ### Writing rows -/

namespace Columns

/-- No columns. -/
def empty : Columns := ⟨[], List.nodup_nil, List.nodup_nil⟩

/-- Insert a row; `stores` tells which numbers the database takes in the index column. -/
def insert (stores : ℚ → Bool) (column : DataTableColumn) (columns : Columns) :
    Except DataTableError Columns :=
  if h : (∀ c ∈ columns.rows, c.id ≠ column.id ∧ c.name ≠ column.name) ∧
      stores column.index = true then
    .ok
      { rows := columns.rows ++ [column]
        ids := by
          rw [List.map_append, List.nodup_append]
          refine ⟨columns.ids, by simp, ?_⟩
          simpa using fun c hc => (h.1 c hc).1
        names := by
          rw [List.map_append, List.nodup_append]
          refine ⟨columns.names, by simp, ?_⟩
          simpa using fun c hc => (h.1 c hc).2 }
  else .error .database

/-- Update the index of every row. -/
def setIndexes (stores : ℚ → Bool) (index : DataTableColumn → ℚ) (columns : Columns) :
    Except DataTableError Columns :=
  if (columns.rows.all fun c => stores (index c)) = true then
    .ok
      { rows := columns.rows.map fun c => { c with index := index c }
        ids := by simpa [Function.comp_def] using columns.ids
        names := by simpa [Function.comp_def] using columns.names }
  else .error .database

/-- Delete the row with an id. -/
def remove (id : String) (columns : Columns) : Columns :=
  { rows := columns.rows.filter fun c => c.id ≠ id
    ids := columns.ids.sublist (List.filter_sublist.map _)
    names := columns.names.sublist (List.filter_sublist.map _) }

/-- Update the name of the row with an id. -/
def rename (id newName : String) (columns : Columns) : Except DataTableError Columns :=
  let rows := columns.rows.map fun c => if c.id = id then { c with name := newName } else c
  if h : (rows.map (·.name)).Nodup then
    .ok
      { rows
        ids := by
          have hid : ∀ c : DataTableColumn,
              (if c.id = id then { c with name := newName } else c).id = c.id := by
            intro c
            split <;> rfl
          simpa [rows, Function.comp_def, hid] using columns.ids
        names := h }
  else .error .database

end Columns

/-! ### The repository -/

def DATA_TABLE_SYSTEM_COLUMNS : List String := ["id", "createdAt", "updatedAt"]

def DATA_TABLE_SYSTEM_TESTING_COLUMN : String := "dryRunState"

def DATA_TABLE_COLUMN_ERROR_MESSAGE : String :=
  "Only alphabetical characters and non-leading numbers and underscores are allowed for column " ++
    "names, and the maximum length is 63 characters."

/-- `isValidColumnName`: what the schema of column names takes. -/
def isValidColumnName (name : String) : Bool :=
  match trim name.toList with
  | [] => false
  | c :: cs => c.isAlpha && cs.all (fun c => c.isAlphanum || c = '_') && cs.length < 63

def validateNotSystemColumn (columnName : String) : Except DataTableError Unit :=
  if columnName ∈ DATA_TABLE_SYSTEM_COLUMNS then .error (.systemColumnName columnName "system")
  else if columnName = DATA_TABLE_SYSTEM_TESTING_COLUMN then
    .error (.systemColumnName columnName "testing")
  else .ok ()

def validateUniqueColumnName (columnName : String) (t : DataTable) : Except DataTableError Unit :=
  if t.columns.rows.any (fun c => c.name = columnName) then
    .error (.columnNameConflict columnName t.name)
  else .ok ()

/-- `getColumns`: the columns by rising index. -/
def getColumns (columns : Columns) : List DataTableColumn :=
  columns.rows.insertionSort fun a b => a.index ≤ b.index

/-- `shiftColumns`: add `delta` to every index from `lowestIndex` on. -/
def shiftColumns (stores : ℚ → Bool) (lowestIndex delta : ℚ) (columns : Columns) :
    Except DataTableError Columns :=
  columns.setIndexes stores fun c => if lowestIndex ≤ c.index then c.index + delta else c.index

section Operations

-- `stores` tells which numbers the database takes in the index column, `ddl` how the statement on
-- the user's own table ends.
variable (stores : ℚ → Bool) (ddl : Except DataTableError Unit)

/-- `createDataTable`; `ids` are the ids that are drawn for the columns. -/
def createDataTable (id name : String) (ids : List String) (columns : List CreateColumn) :
    Except DataTableError DataTable := do
  if columns.any fun c => !isValidColumnName c.name then
    throw (.validation DATA_TABLE_COLUMN_ERROR_MESSAGE)
  let columnEntities : List DataTableColumn := columns.mapIdx fun i col =>
    { id := ids.getD i "", name := col.name, type := col.type, index := col.index.getD i }
  let rows ← columnEntities.foldlM (fun rows c => rows.insert stores c) Columns.empty
  ddl
  return { id, name, columns := rows }

/-- `addColumn`; `id` is the id that is drawn for the column. -/
def addColumn (id : String) (schema : CreateColumn) (t : DataTable) :
    Except DataTableError DataTable := do
  validateNotSystemColumn schema.name
  validateUniqueColumnName schema.name t
  let (index, columns) ← match schema.index with
    | none => pure (((getColumns t.columns).length : ℚ), t.columns)
    | some index => do pure (index, ← shiftColumns stores index 1 t.columns)
  let columns ← columns.insert stores { id, name := schema.name, type := schema.type, index }
  ddl
  return { t with columns }

/-- `deleteColumn`. -/
def deleteColumn (column : DataTableColumn) (t : DataTable) : Except DataTableError DataTable := do
  let columns := t.columns.remove column.id
  ddl
  let columns ← shiftColumns stores column.index (-1) columns
  return { t with columns }

/-- `moveColumn`. -/
def moveColumn (column : DataTableColumn) (targetIndex : ℤ) (t : DataTable) :
    Except DataTableError DataTable := do
  let columnCount := t.columns.rows.length
  if targetIndex < 0 then throw (.validation "tried to move column to negative index")
  if (columnCount : ℤ) ≤ targetIndex then
    throw (.validation "tried to move column to an index larger than column count")
  let columns ← shiftColumns stores column.index (-1) t.columns
  let columns ← shiftColumns stores targetIndex 1 columns
  let columns ← columns.setIndexes stores fun c => if c.id = column.id then targetIndex else c.index
  return { t with columns }

/-- `renameColumn`. -/
def renameColumn (column : DataTableColumn) (newName : String) (t : DataTable) :
    Except DataTableError DataTable := do
  validateNotSystemColumn newName
  validateUniqueColumnName newName t
  let columns ← t.columns.rename column.id newName
  ddl
  return { t with columns }

end Operations

/-! ### Calls of the service -/

/-- `validateColumnExists`. -/
def validateColumnExists (columnId : String) (t : DataTable) :
    Except DataTableError DataTableColumn :=
  match t.columns.rows.find? fun c => c.id = columnId with
  | some column => .ok column
  | none => .error (.columnNotFound t.id columnId)

/-- A call of the service on one table, with the id that is drawn and how the statement on the
user's table ends. -/
inductive Call where
  | addColumn (id : String) (dto : CreateColumn) (ddl : Except DataTableError Unit)
  | deleteColumn (columnId : String) (ddl : Except DataTableError Unit)
  | moveColumn (columnId : String) (targetIndex : ℤ)
  | renameColumn (columnId newName : String) (ddl : Except DataTableError Unit)

/-- What a call makes of a table. -/
def Call.perform (stores : ℚ → Bool) (t : DataTable) : Call → Except DataTableError DataTable
  | .addColumn id dto ddl => DataTables.addColumn stores ddl id dto t
  | .deleteColumn columnId ddl => do
    let existingColumn ← validateColumnExists columnId t
    DataTables.deleteColumn stores ddl existingColumn t
  | .moveColumn columnId targetIndex => do
    let existingColumn ← validateColumnExists columnId t
    DataTables.moveColumn stores existingColumn targetIndex t
  | .renameColumn columnId newName ddl => do
    let existingColumn ← validateColumnExists columnId t
    DataTables.renameColumn ddl existingColumn newName t

/-- The table after a call: a call that fails is rolled back. -/
def step (stores : ℚ → Bool) (t : DataTable) (call : Call) : DataTable :=
  match call.perform stores t with
  | .ok t' => t'
  | .error _ => t

end DataTables

end N8n
