import N8n.Data.JsNumber
import N8n.Lib.Substring

/-!
# Dates from one format into another

`convertDateUniversal` of `packages/nodes-base/nodes/U_CalcTextNode/U_CalcTextNode.node.ts`: the
input format is turned into a regular expression, whose groups are the parts of the date.

* `CalcText.newDate`: the date that the constructor of dates answers for numbers;
* `CalcText.inputPattern`, `CalcText.matchGroups`: the regular expression, and its groups;
* `CalcText.convertDateUniversal`.

Dates are those of the calendar of the host, in which each day exists.
-/

namespace N8n

namespace CalcText

/-! ### Calendar -/

/-- A date; months and days count from one. -/
structure CalendarDate where
  year : ℕ
  month : ℕ
  day : ℕ
  deriving DecidableEq

def isLeapYear (year : ℕ) : Bool := year % 4 = 0 ∧ (year % 100 ≠ 0 ∨ year % 400 = 0)

def daysInMonth (year : ℕ) : ℕ → ℕ
  | 2 => if isLeapYear year then 29 else 28
  | 4 | 6 | 9 | 11 => 30
  | _ => 31

/-- The month with a number, counted from the first of the year zero. -/
def monthOf (months day : ℕ) : CalendarDate := ⟨months / 12, months % 12 + 1, day⟩

/-- Days past the end of a month are days of the next one.  Each step takes at least one off. -/
def carryDays : (fuel months day : ℕ) → CalendarDate
  | 0, months, day => monthOf months day
  | fuel + 1, months, day =>
    let days := daysInMonth (months / 12) (months % 12 + 1)
    if day ≤ days then monthOf months day else carryDays fuel (months + 1) (day - days)

/-- `new Date(year, month - 1, day)`.  Years of two digits are those of the last century, month zero
is the last of the year before, and day zero the last of the month before. -/
def newDate (year month day : ℕ) : CalendarDate :=
  let months := 12 * (if year ≤ 99 then 1900 + year else year) + month - 1
  if day = 0 then
    monthOf (months - 1) (daysInMonth ((months - 1) / 12) ((months - 1) % 12 + 1))
  else carryDays day months day

/-! ### Patterns -/

/-- `parts`: the tokens of a format in the order of the source, with the number of digits of the
group that each becomes. -/
def parts : List (JsString × ℕ) :=
  [("yyyy", 4), ("yy", 2), ("MM", 2), ("dd", 2)]

/-- A regular expression of units that stand for themselves and groups of digits. -/
abbrev DatePattern := Marked UInt16 ℕ

/-- The units that mean something in a regular expression. -/
def regexSyntax : JsString := ".*+?^$\x7b\x7d()|[]\\"

/-- An input format whose text outside of the tokens stands for itself. -/
abbrev PlainFormat := {fmt : JsString // ∀ u ∈ fmt, u ∉ regexSyntax}

/-- `regexStr`: of each token the first occurrence becomes a group. -/
def inputPattern (inputFmt : JsString) : DatePattern :=
  parts.foldl (fun regexStr e => regexStr.markFirst e.1 e.2) (inputFmt.map .inl)

/-- The groups of a text that the pattern matches as a whole. -/
def matchGroups : DatePattern → JsString → Option (List JsString)
  | [], s => if s = [] then some [] else none
  | .inl u :: regex, s => if s.head? = some u then matchGroups regex s.tail else none
  | .inr n :: regex, s =>
    if (s.take n).length = n ∧ (s.take n).all (JsNumber.isDigit 10) then
      (matchGroups regex (s.drop n)).map (s.take n :: ·)
    else none

/-- `extracted`: the tokens that occur in the format take the groups one after the other. -/
def extract (inputFmt : JsString) : List (JsString × ℕ) → List JsString → List (JsString × JsString)
  | k :: ks, groups =>
    if includes k.1 inputFmt then
      match groups with
      | [] => extract inputFmt ks []
      | v :: groups => (k.1, v) :: extract inputFmt ks groups
    else extract inputFmt ks groups
  | [], _ => []

/-! ### Conversion -/

/-- `Number` of a group. -/
def groupNumber (v : JsString) : ℕ := JsNumber.ofDigits 10 v

/-- `dt`: without a year there is no date. -/
def extractedDate (extracted : List (JsString × JsString)) : Option CalendarDate :=
  let get (k : JsString) : Option ℕ := (EntryList.lookup k extracted).map groupNumber
  let yyyy : Option ℕ :=
    match get "yyyy" with
    | some year => some year
    | none => (get "yy").map fun num => if 70 ≤ num then 1900 + num else 2000 + num
  yyyy.map fun year => newDate year ((get "MM").getD 1) ((get "dd").getD 1)

/-- The number of a getter as a text; a date that is none answers `NaN`. -/
def getterText (dt : Option CalendarDate) (get : CalendarDate → ℕ) : JsString :=
  match dt with
  | none => "NaN"
  | some dt => JsNumber.digits (get dt)

def outputText (dt : Option CalendarDate) (outputFmt : JsString) : JsString :=
  let year := getterText dt (·.year)
  let out := JsString.replaceFirst "yyyy" year outputFmt
  let out := JsString.replaceFirst "yy" (year.drop (year.length - 2)) out
  let out := JsString.replaceFirst "MM" (JsString.padStart (getterText dt (·.month)) 2 "0") out
  JsString.replaceFirst "dd" (JsString.padStart (getterText dt (·.day)) 2 "0") out

def convertDateUniversal (value : JsString) (inputFmt : PlainFormat) (outputFmt : JsString) :
    JsString :=
  if value = [] ∨ inputFmt.1 = [] ∨ outputFmt = [] then value
  else
    match matchGroups (inputPattern inputFmt.1) value with
    | none => value
    | some groups => outputText (extractedDate (extract inputFmt.1 parts groups)) outputFmt

end CalcText

end N8n
