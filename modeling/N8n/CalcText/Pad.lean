import N8n.Data.JsNumber

/-!
# Fields of a fixed width

`packages/nodes-base/nodes/U_CalcTextNode/U_CalcTextNode.node.ts`: a row of data is written as a
record, each field at its own width.

* `resolveDateFormat`: texts that stand for a date, read off a `Clock`;
* `pad`: a value as the text of a field;
* `detailRecord`: the text of a row.

What a field is filled with, by a path into the row or by an expression, is taken as given.
-/

namespace N8n

namespace CalcText

/-! ### Dates -/

/-- What the getters of a date answer; `NaN` for a date that is none. -/
structure LocalTime where
  date : JsNumber := .nan
  month : JsNumber := .nan
  fullYear : JsNumber := .nan
  hours : JsNumber := .nan
  minutes : JsNumber := .nan
  seconds : JsNumber := .nan

inductive TimeUnit
  | day
  | month
  | year
  | hour
  | minute
  | second
  deriving DecidableEq

/-- The clock of the host: the present, the present with an amount added to one of its parts, the
last day of the month before and the first day of the month after.  Months count from one. -/
structure Clock where
  now : LocalTime := {}
  added : TimeUnit → Option ℤ → LocalTime := fun _ _ => {}
  prevMonthLastDay : LocalTime := {}
  nextMonthFirstDay : LocalTime := {}

/-- Two digits at least. -/
def twoDigits (x : JsNumber) : JsString := JsString.padStart x.toText 2 (JsString.ofString "0")

def formatDateFull (dt : LocalTime) (fmt : JsString) : JsString :=
  let yyyy := dt.fullYear.toText
  let yy := yyyy.drop (yyyy.length - 2)
  [("dd", twoDigits dt.date), ("MM", twoDigits dt.month), ("yyyy", yyyy), ("yy", yy),
    ("HH", twoDigits dt.hours), ("mm", twoDigits dt.minutes), ("ss", twoDigits dt.seconds)].foldl
    (fun s e => JsString.replaceFirst (JsString.ofString e.1) e.2 s) fmt

/-- The present moved on as `Dateadd_` and `DateTimeadd_` say, with the units that they know. -/
def dateAdd (clock : Clock) (units : List (String × TimeUnit)) (str : JsString) : JsString :=
  let parts := JsString.splitAt 95 str
  let amount := parts[2]?.bind JsNumber.parseInt
  let fmt := JsString.join (JsString.ofString "_") (parts.drop 3)
  match units.find? fun e => parts[1]? = some (JsString.ofString e.1) with
  | some e => formatDateFull (clock.added e.2 amount) fmt
  | none => formatDateFull clock.now fmt

def resolveDateFormat (clock : Clock) (str : JsString) : JsString :=
  if str.startsWith (JsString.ofString "Date_") then
    formatDateFull clock.now (JsString.replaceFirst (JsString.ofString "Date_") [] str)
  else if str.startsWith (JsString.ofString "DateTime_") then
    formatDateFull clock.now (JsString.replaceFirst (JsString.ofString "DateTime_") [] str)
  else if str.startsWith (JsString.ofString "Dateadd_") then
    dateAdd clock [("Day", .day), ("Month", .month), ("Year", .year)] str
  else if str.startsWith (JsString.ofString "DateTimeadd_") then
    dateAdd clock [("Hour", .hour), ("Minute", .minute), ("Second", .second), ("Day", .day),
      ("Month", .month), ("Year", .year)] str
  else if str = JsString.ofString "PrevMonthLastDay" then
    formatDateFull clock.prevMonthLastDay (JsString.ofString "ddMMyyyy")
  else if str = JsString.ofString "NextMonthFirstDay" then
    formatDateFull clock.nextMonthFirstDay (JsString.ofString "ddMMyyyy")
  else str

/-! ### Fields -/

/-- What a field is filled with. -/
inductive FieldValue
  | undefined
  | null
  | str (s : JsString)
  | num (x : JsNumber)
  deriving DecidableEq

/-- `parseInt` of the attribute `decimals`, which may be missing or no number. -/
abbrev Decimals := Option (Option ℤ)

/-- What a schema says of the form of a field.  A missing or empty `padChar` is a blank, and a
`length` that is no number or negative counts as zero. -/
structure FieldSchema where
  length : ℕ
  align : JsString
  padChar : JsString
  padChar_ne : padChar ≠ []
  decimals : Decimals

/-- `replace(/\.0+$/, '')`. -/
def dropZeroFraction (str : JsString) : JsString :=
  let rest := str.reverse.dropWhile (· = 48)
  if rest.length < str.length then
    match rest with
    | 46 :: rest => rest.reverse
    | _ => str
  else str

/-- `replace(/(\.\d*?)0+$/, '$1')`. -/
def dropTrailingZeros (str : JsString) : JsString :=
  let rest := str.reverse.dropWhile (· = 48)
  match rest.dropWhile (JsNumber.isDigit 10) with
  | 46 :: _ => rest.reverse
  | _ => str

/-- A number as it is. -/
def plainText (x : JsNumber) : JsString :=
  let str := x.toText
  -- no number's text has zeros at the end of its fraction, but the test also finds exponents
  if ((JsString.splitAt 46 str)[1]?.bind List.getLast?) = some 48 then
    dropTrailingZeros (dropZeroFraction str)
  else str

/-- `Math.round(value * multiplier) / multiplier`; `none` stands for `NaN`. -/
def roundedTo (x : JsNumber) : Option ℤ → JsNumber
  | none => .nan
  | some dec =>
    let multiplier := JsNumber.ofRat ((10 : ℚ) ^ dec)
    (x.mul multiplier).round.div multiplier

/-- A number with decimals. -/
def decimalText (x : JsNumber) (decimals : Option ℤ) : Except JsError JsString :=
  (roundedTo x decimals).toFixed (decimals.getD 0)

def padTo (align : JsString) (s : JsString) (length : ℕ) (padChar : JsString) : JsString :=
  if align = JsString.ofString "left" then s.padEnd length padChar else s.padStart length padChar

def isDateFormat (s : JsString) : Bool :=
  s.startsWith (JsString.ofString "Date_") || s.startsWith (JsString.ofString "DateTime_") ||
    s.startsWith (JsString.ofString "Dateadd_") || s.startsWith (JsString.ofString "DateTimeadd_") ||
    s = JsString.ofString "PrevMonthLastDay" || s = JsString.ofString "NextMonthFirstDay"

def pad (clock : Clock) (value : FieldValue) (length : ℕ) (align padChar : JsString)
    (decimals : Decimals) : Except JsError JsString :=
  match value with
  | .num x =>
    match decimals with
    | none => .ok (padTo align (plainText x) length padChar)
    | some decimals => (decimalText x decimals).map fun s => padTo align s length padChar
  | .undefined | .null => padString []
  | .str s => padString (if isDateFormat s then resolveDateFormat clock s else s)
where
  /-- The rest of `pad` for a text. -/
  padString (s : JsString) : Except JsError JsString :=
    match decimals with
    | some decimals =>
      if JsNumber.ofText s ≠ .nan then
        (decimalText (JsNumber.ofText s) decimals).map fun s => padTo align s length padChar
      else .ok ((padTo align s length padChar).take length)
    | none => .ok ((padTo align s length padChar).take length)

/-! ### Records -/

/-- `Number`. -/
def FieldValue.toNumber : FieldValue → JsNumber
  | .undefined => .nan
  | .null => .finite 0
  | .str s => .ofText s
  | .num x => x

/-- What a field of a row is filled with when it has decimals. -/
def detailValue (f : FieldSchema) (value : FieldValue) : FieldValue :=
  match f.decimals with
  | none => value
  | some decimals =>
    if value ≠ .str [] ∧ value.toNumber ≠ .nan then .num (roundedTo value.toNumber decimals)
    else value

/-- The text of a row, given what its fields are filled with. -/
def detailRecord (clock : Clock) (fields : List (FieldSchema × FieldValue)) :
    Except JsError JsString :=
  (fields.mapM fun e =>
    pad clock (detailValue e.1 e.2) e.1.length e.1.align e.1.padChar e.1.decimals).map List.flatten

end CalcText

end N8n
