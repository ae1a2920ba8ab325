import N8n.DataTables.Columns
import N8n.Lib.Dict
import N8n.Lib.SqlCondition

/-!
# Reading the rows of a data table

`getManyAndCount` of `data-table-rows.repository.ts`: the conditions of a filter and a search are
appended to one list of conditions of the query.

* `Value`, `Row`, `Database`: rows, and what the database does with values and letters;
* `getConditionAndParams`, `applyFilters`, `applySearch`, `getManyAndCount`: the query;
* `RowFilter.Holds`, `TableFilter.Satisfied`, `SearchHolds`: what filters and searches ask for.
-/

namespace N8n

namespace DataTables

/-- A value of a row or a filter; a date is a number of milliseconds. -/
inductive Value where
  | null
  | text (s : String)
  | number (q : ℚ)
  | bool (b : Bool)
  | date (t : ℤ)
  deriving DecidableEq

/-- A row, by column name. -/
abbrev Row := Dict String Value

/-- The value in a column. -/
def Row.cell (row : Row) (column : String) : Value := (Dict.get? row column).getD .null

/-- The databases that the configuration admits. -/
inductive DbType where
  | sqlite
  | postgres
  deriving DecidableEq

/-- What a database does with values and letters: how it compares values that are not null, the text
of a value, upper case, and the comparison of letters that ignores case. -/
structure Database where
  type : DbType
  compare : Value → Value → Ordering
  text : Value → List Char
  upper : Char → Char
  ignoringCase : Char → Char → Bool
  /-- Upper case is about letters. -/
  upper_eq_iff : ∀ c, ∀ special ∈ ['%', '_', '\\'], upper c = special ↔ c = special

/-! ### Queries -/

/-- A comparison of the language. -/
inductive SqlOperator where
  | eq
  | neq
  | gt
  | gte
  | lt
  | lte
  deriving DecidableEq

/-- What a comparison makes of the order of two values. -/
def SqlOperator.holds : SqlOperator → Ordering → Bool
  | eq, o => o = .eq
  | neq, o => o ≠ .eq
  | gt, o => o = .gt
  | gte, o => o ≠ .lt
  | lt, o => o = .lt
  | lte, o => o ≠ .gt

/-- A test of one column; patterns come with the escape character `\`. -/
inductive Test where
  | isNull (column : String)
  | isNotNull (column : String)
  | compare (column : String) (operator : SqlOperator) (param : Value)
  | like (column : String) (param : List Char)
  | upperLike (column : String) (param : List Char)
  | ilike (column : String) (param : List Char)
  | glob (column : String) (param : List Char)
  deriving DecidableEq

/-- One condition of a query: tests in parentheses, joined by `OR`. -/
abbrev Clause := List Test

/-- The truth of a test on a row: unknown when it compares with null. -/
def Test.truth (db : Database) (row : Row) : Test → Sql.Truth
  | isNull column => some (row.cell column = .null)
  | isNotNull column => some (row.cell column ≠ .null)
  | compare column operator param =>
    if row.cell column = .null ∨ param = .null then none
    else some (operator.holds (db.compare (row.cell column) param))
  | like column param => onText column fun text =>
    Wildcard.fits (· == ·) (Wildcard.readLike param) text
  | upperLike column param => onText column fun text =>
    Wildcard.fits db.ignoringCase (Wildcard.readLike (param.map db.upper)) (text.map db.upper)
  | ilike column param => onText column fun text =>
    Wildcard.fits db.ignoringCase (Wildcard.readLike param) text
  | glob column param => onText column fun text =>
    Wildcard.fits (· == ·) (Wildcard.readGlob param) text
where
  onText (column : String) (holds : List Char → Bool) : Sql.Truth :=
    if row.cell column = .null then none else some (holds (db.text (row.cell column)))

/-- The truth of a condition on a row. -/
def clauseTruth (db : Database) (row : Row) (clause : Clause) : Sql.Truth :=
  Sql.Truth.any (clause.map (Test.truth db row))

/-! ### Filters -/

inductive FilterCondition where
  | eq
  | neq
  | like
  | ilike
  | gt
  | gte
  | lt
  | lte
  deriving DecidableEq

/-- `DataTableFilter['filters'][number]`. -/
structure RowFilter where
  columnName : String
  condition : FilterCondition := .eq
  value : Value
  deriving DecidableEq

inductive FilterType where
  | and
  | or
  deriving DecidableEq

/-- `DataTableFilter`. -/
structure TableFilter where
  type : FilterType := .and
  filters : List RowFilter := []
  deriving DecidableEq

/-- What of `ListDataTableContentQueryDto` the query reads. -/
structure ContentQuery where
  take : Option ℕ := none
  skip : Option ℕ := none
  filter : Option TableFilter := none
  sortBy : Option (String × Bool) := none
  search : Option String := none

/-- `escapeLikeSpecials`. -/
def escapeLikeSpecials (input : List Char) : List Char :=
  (input.flatMap fun c => if c = '\\' then ['\\', '\\'] else [c]).flatMap fun c =>
    if c = '_' then ['\\', '_'] else [c]

/-- `toSqliteGlobFromPercent`. -/
def toSqliteGlobFromPercent (input : List Char) : List Char :=
  input.flatMap fun ch =>
    if ch = '%' then ['*']
    else if ch = '[' then ['[', '[', ']']
    else if ch = ']' then ['[', ']', ']']
    else if ch = '*' then ['[', '*', ']']
    else if ch = '?' then ['[', '?', ']']
    else [ch]

/-- `getConditionAndParams`; none when a pattern is no text, which the service refuses before. -/
def getConditionAndParams (db : Database) (filter : RowFilter) : Option Clause :=
  let columnRef := filter.columnName
  match filter.condition, filter.value with
  | .eq, .null => some [.isNull columnRef]
  | .neq, .null => some [.isNotNull columnRef]
  | .eq, value => some [.compare columnRef .eq value]
  | .gt, value => some [.compare columnRef .gt value]
  | .gte, value => some [.compare columnRef .gte value]
  | .lt, value => some [.compare columnRef .lt value]
  | .lte, value => some [.compare columnRef .lte value]
  | .neq, value => some [.compare columnRef .neq value, .isNull columnRef]
  | .like, .text value =>
    match db.type with
    | .sqlite => some [.glob columnRef (toSqliteGlobFromPercent value.toList)]
    | .postgres => some [.like columnRef (escapeLikeSpecials value.toList)]
  | .ilike, .text value =>
    match db.type with
    | .sqlite => some [.upperLike columnRef (escapeLikeSpecials value.toList)]
    | .postgres => some [.ilike columnRef (escapeLikeSpecials value.toList)]
  | .like, _ | .ilike, _ => none

/-- The conditions of a query, each with how it was appended. -/
abbrev Wheres := List (Sql.Connective × Clause)

/-- `applyFilters`. -/
def applyFilters (db : Database) (query : Wheres) (filter : TableFilter) : Option Wheres := do
  let conditions ← filter.filters.mapM (getConditionAndParams db)
  if conditions.length = 1 then
    return query ++ conditions.map (Sql.Connective.and, ·)
  else
    return conditions.foldl (fun query condition =>
      match filter.type with
      | .or => query ++ [(.or, condition)]
      | .and => query ++ [(.and, condition)]) query

/-- The test of one column in a search. -/
def searchTest (db : Database) (column : String) (search : List Char) : Test :=
  match db.type with
  | .sqlite => .upperLike column search
  | .postgres => .ilike column search

/-- `applySearch`. -/
def applySearch (db : Database) (query : Wheres) (rawSearch : List Char) (columns : List String) :
    Wheres :=
  let searchTerm := if '%' ∈ rawSearch then rawSearch else ['%'] ++ rawSearch ++ ['%']
  if columns.length = 0 then query
  else query ++
    [(.and, columns.map fun col => searchTest db col (escapeLikeSpecials searchTerm))]

/-- The conditions of the filter, if there is one. -/
def filterWheres (db : Database) (dto : ContentQuery) : Option Wheres :=
  match dto.filter with
  | some filter => applyFilters db [] filter
  | none => some []

/-- The conditions that `getManyQuery` puts together. -/
def getManyWheres (db : Database) (dto : ContentQuery) (columns : List String) : Option Wheres := do
  let query ← filterWheres db dto
  match dto.search with
  | some search =>
    if (trim search.toList).length > 0 then return applySearch db query search.toList columns
    else return query
  | none => return query

/-- One page of rows; `order` is how the database sorts rows by a column. -/
def page (order : String × Bool → List Row → List Row) (dto : ContentQuery) (rows : List Row) :
    List Row :=
  let rows := match dto.sortBy with
    | some sortBy => order sortBy rows
    | none => rows
  let rows := rows.drop (dto.skip.getD 0)
  match dto.take with
  | some (take + 1) => rows.take (take + 1)
  | _ => rows

/-- `applySorting` refuses what is no column name. -/
def sortable (dto : ContentQuery) : Bool := dto.sortBy.all fun sortBy => isValidColumnName sortBy.1

/-- `getManyAndCount`: the number of the rows that meet the conditions, and a page of them. -/
def getManyAndCount (db : Database) (order : String × Bool → List Row → List Row) (rows : List Row)
    (dto : ContentQuery) (columns : List String) : Option (ℕ × List Row) := do
  let wheres ← getManyWheres db dto columns
  guard (sortable dto)
  let selected := rows.filter fun row => Sql.truth (clauseTruth db row) wheres = some true
  return (selected.length, page order dto selected)

/-! ### What filters and searches ask for -/

/-- A text is of a pattern in which `%` is the only wildcard. -/
def OfPattern (same : Char → Char → Bool) (pattern text : List Char) : Prop :=
  Wildcard.fits same (pattern.map Wildcard.percentToken) text = true

/-- How the database compares letters in a test that ignores case. -/
def Database.sameLetter (db : Database) (c x : Char) : Bool :=
  match db.type with
  | .sqlite => db.ignoringCase (db.upper c) (db.upper x)
  | .postgres => db.ignoringCase c x

/-- A row meets one condition of a filter. -/
def RowFilter.Holds (db : Database) (row : Row) (filter : RowFilter) : Prop :=
  let cell := row.cell filter.columnName
  match filter.condition, filter.value with
  | .eq, .null => cell = .null
  | .neq, .null => cell ≠ .null
  | .eq, value => cell ≠ .null ∧ db.compare cell value = .eq
  | .neq, value => cell = .null ∨ db.compare cell value ≠ .eq
  | .gt, value => cell ≠ .null ∧ value ≠ .null ∧ db.compare cell value = .gt
  | .gte, value => cell ≠ .null ∧ value ≠ .null ∧ db.compare cell value ≠ .lt
  | .lt, value => cell ≠ .null ∧ value ≠ .null ∧ db.compare cell value = .lt
  | .lte, value => cell ≠ .null ∧ value ≠ .null ∧ db.compare cell value ≠ .gt
  | .like, .text pattern => cell ≠ .null ∧ OfPattern (· == ·) pattern.toList (db.text cell)
  | .ilike, .text pattern => cell ≠ .null ∧ OfPattern db.sameLetter pattern.toList (db.text cell)
  | .like, _ | .ilike, _ => False

/-- A row meets a filter as a whole: all of its conditions, or at least one. -/
def TableFilter.Satisfied (db : Database) (row : Row) (filter : TableFilter) : Prop :=
  match filter.type with
  | .and => ∀ f ∈ filter.filters, f.Holds db row
  | .or => ∃ f ∈ filter.filters, f.Holds db row

/-- A text contains a search text, up to case; a search text with `%` is a pattern. -/
def Contains (db : Database) (search text : List Char) : Prop :=
  if '%' ∈ search then OfPattern db.sameLetter search text
  else ∃ part, part <:+: text ∧ List.Forall₂ (fun c x => db.sameLetter c x = true) search part

/-- A row contains the search text in a column, if there is a text and a column. -/
def SearchHolds (db : Database) (columns : List String) (row : Row) (search : Option String) :
    Prop :=
  match search with
  | none => True
  | some search => trim search.toList ≠ [] → columns ≠ [] →
    ∃ column ∈ columns, row.cell column ≠ .null ∧
      Contains db search.toList (db.text (row.cell column))

end DataTables

end N8n
