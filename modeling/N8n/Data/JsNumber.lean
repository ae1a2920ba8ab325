import N8n.Data.Interfaces
import N8n.Data.JsString
import Mathlib.Data.Rat.Floor

/-!
# Numbers

The numbers of the script language are those of the binary format with 53 bits; a finite one is the
rational number that it stands for, and the two zeros, which nothing here tells apart, are one.

* `JsNumber.ofRat`: the nearest number;
* `JsNumber.toText`, `toFixed`: a number as a text, in the shortest form or with given decimals;
* `JsNumber.ofText`, `parseInt`: the number of a text.
-/

namespace N8n

inductive JsNumber
  | finite (q : ℚ)
  | infinity (negative : Bool)
  | nan
  deriving DecidableEq

namespace JsNumber

/-! ### Rounding -/

/-- The `e` with `2 ^ e ≤ q < 2 ^ (e + 1)`, for a positive `q`. -/
def binaryExponent (q : ℚ) : ℤ :=
  let e := (Nat.log2 q.num.natAbs : ℤ) - Nat.log2 q.den
  if (2 : ℚ) ^ e ≤ q then e else e - 1

/-- The nearest integer, of two the even one. -/
def roundHalfEven (q : ℚ) : ℤ :=
  if q - ⌊q⌋ < 1 / 2 ∨ q - ⌊q⌋ = 1 / 2 ∧ ⌊q⌋ % 2 = 0 then ⌊q⌋ else ⌊q⌋ + 1

/-- The nearest number. -/
def ofRat (q : ℚ) : JsNumber :=
  let quantum := (2 : ℚ) ^ max (binaryExponent |q| - 52) (-1074)
  let r := roundHalfEven (q / quantum) * quantum
  if q = 0 then finite 0 else if 2 ^ 1024 ≤ |r| then infinity (q < 0) else finite r

def add : JsNumber → JsNumber → JsNumber
  | finite a, finite b => ofRat (a + b)
  | infinity negative, finite _ | finite _, infinity negative => infinity negative
  | infinity negative, infinity negative' =>
    if negative = negative' then infinity negative else nan
  | _, _ => nan

/-- `<=`. -/
def le : JsNumber → JsNumber → Bool
  | finite a, finite b => a ≤ b
  | infinity negative, finite _ => negative
  | finite _, infinity negative => !negative
  | infinity negative, infinity negative' => negative || !negative'
  | _, _ => false

def mul : JsNumber → JsNumber → JsNumber
  | finite a, finite b => ofRat (a * b)
  | finite a, infinity negative | infinity negative, finite a =>
    if a = 0 then nan else infinity (negative ^^ a < 0)
  | infinity negative, infinity negative' => infinity (negative ^^ negative')
  | _, _ => nan

def div : JsNumber → JsNumber → JsNumber
  | finite a, finite b =>
    if b ≠ 0 then ofRat (a / b) else if a = 0 then nan else infinity (a < 0)
  | finite _, infinity _ => finite 0
  | infinity negative, finite b => infinity (negative ^^ b < 0)
  | _, _ => nan

/-- `Math.round`. -/
def round : JsNumber → JsNumber
  | finite q => finite ⌊q + 1 / 2⌋
  | x => x

/-! ### Numbers as texts -/

/-- The decimal digits. -/
def digits (n : ℕ) : JsString := (Nat.toDigits 10 n).flatMap JsString.unitsOf

/-- The `n` with `10 ^ (n - 1) ≤ q < 10 ^ n`, for a positive `q` that is a number. -/
def decimalExponent (q : ℚ) : ℤ :=
  if 1 ≤ q then (digits ⌊q⌋.toNat).length
  else 1 - ((List.range 324).find? fun m : ℕ => 1 ≤ q * 10 ^ (m + 1)).elim 324 (· + 1)

/-- The `k`-digit integer `s` for which `s * 10 ^ (n - k)` is nearest to `q`, of those that are
rounded to `q`. -/
def significand? (q : ℚ) (n : ℤ) (k : ℕ) : Option ℕ :=
  let unit := (10 : ℚ) ^ (n - k)
  let low := ⌊q / unit⌋
  let candidates := if q / unit - low ≤ 1 / 2 then [low, low + 1] else [low + 1, low]
  (candidates.find? fun s : ℤ => ofRat (s * unit) = finite q).map Int.toNat

/-- The shortest digits of `q`, how many of them, and where the decimal point comes. -/
def shortest (q : ℚ) : ℕ × ℕ × ℤ :=
  let n := decimalExponent q
  (((List.range 17).map (· + 1)).findSome? fun k => (significand? q n k).map fun s =>
    if s = 10 ^ k then (1, 1, n + 1) else (s, k, n)).getD
      (⌊q / (10 : ℚ) ^ (n - 17)⌋.toNat, 17, n)

/-- A positive number as a text. -/
def positiveText (q : ℚ) : JsString :=
  let (s, k, n) := shortest q
  let text := digits s
  if k ≤ n ∧ n ≤ 21 then text ++ List.replicate (n - k).toNat 48
  else if 0 < n ∧ n ≤ 21 then text.take n.toNat ++ JsString.ofString "." ++ text.drop n.toNat
  else if -6 < n ∧ n ≤ 0 then JsString.ofString "0." ++ List.replicate (-n).toNat 48 ++ text
  else
    let fraction := if k = 1 then [] else JsString.ofString "." ++ text.drop 1
    text.take 1 ++ fraction ++ JsString.ofString (if 0 < n then "e+" else "e-") ++
      digits (n - 1).natAbs

/-- `String`. -/
def toText : JsNumber → JsString
  | finite q =>
    if q = 0 then JsString.ofString "0"
    else if q < 0 then JsString.ofString "-" ++ positiveText (-q) else positiveText q
  | infinity negative => JsString.ofString (if negative then "-Infinity" else "Infinity")
  | nan => JsString.ofString "NaN"

/-- `toFixed` of a number that is not negative and below `10 ^ 21`. -/
def fixedText (q : ℚ) (decimals : ℕ) : JsString :=
  let text := digits ⌊q * 10 ^ decimals + 1 / 2⌋.toNat
  let text := List.replicate (decimals + 1 - text.length) 48 ++ text
  if decimals = 0 then text
  else text.take (text.length - decimals) ++ JsString.ofString "." ++
    text.drop (text.length - decimals)

/-- `toFixed`, for an integer number of decimals. -/
def toFixed (x : JsNumber) (decimals : ℤ) : Except JsError JsString :=
  if decimals < 0 ∨ 100 < decimals then .error .rangeError
  else
    match x with
    | finite q =>
      if 10 ^ 21 ≤ |q| then .ok x.toText
      else if q < 0 then .ok (JsString.ofString "-" ++ fixedText (-q) decimals.toNat)
      else .ok (fixedText q decimals.toNat)
    | x => .ok x.toText

/-! ### Texts as numbers -/

/-- The value of a digit, the letters counted on from ten. -/
def digitValue? (u : UInt16) : Option ℕ :=
  let n := u.toNat
  if 48 ≤ n ∧ n ≤ 57 then some (n - 48)
  else if 65 ≤ n ∧ n ≤ 90 then some (n - 55)
  else if 97 ≤ n ∧ n ≤ 122 then some (n - 87)
  else none

def isDigit (radix : ℕ) (u : UInt16) : Bool := (digitValue? u).any (· < radix)

def ofDigits (radix : ℕ) (s : JsString) : ℕ :=
  s.foldl (fun n u => radix * n + (digitValue? u).getD 0) 0

/-- The sign in front of a text, and the text behind it. -/
def sign : JsString → Bool × JsString
  | 43 :: s => (false, s)
  | 45 :: s => (true, s)
  | s => (false, s)

/-- The exponent that a decimal literal ends in, if it is one. -/
def exponent? : JsString → Option ℤ
  | [] => some 0
  | u :: s =>
    let (negative, digits) := sign s
    if (u = 101 ∨ u = 69) ∧ digits ≠ [] ∧ digits.all (isDigit 10) then
      some (if negative then -(ofDigits 10 digits : ℤ) else ofDigits 10 digits)
    else none

/-- An unsigned decimal literal. -/
def decimalLiteral? (s : JsString) : Option ℚ :=
  let whole := s.takeWhile (isDigit 10)
  let rest := s.dropWhile (isDigit 10)
  let (fraction, rest) :=
    match rest with
    | 46 :: rest => (rest.takeWhile (isDigit 10), rest.dropWhile (isDigit 10))
    | _ => ([], rest)
  if whole = [] ∧ fraction = [] then none
  else (exponent? rest).map fun e : ℤ =>
    (ofDigits 10 (whole ++ fraction) : ℚ) * (10 : ℚ) ^ (e - (fraction.length : ℤ))

def radixLiteral (radix : ℕ) (s : JsString) : JsNumber :=
  if s ≠ [] ∧ s.all (isDigit radix) then ofRat (ofDigits radix s) else nan

/-- `Number` of a text. -/
def ofText (text : JsString) : JsNumber :=
  match JsString.trim text with
  | [] => finite 0
  | 48 :: 120 :: s | 48 :: 88 :: s => radixLiteral 16 s
  | 48 :: 111 :: s | 48 :: 79 :: s => radixLiteral 8 s
  | 48 :: 98 :: s | 48 :: 66 :: s => radixLiteral 2 s
  | s =>
    let (negative, s) := sign s
    if s = JsString.ofString "Infinity" then infinity negative
    else
      match decimalLiteral? s with
      | some q => ofRat (if negative then -q else q)
      | none => nan

/-- `parseInt` with radix ten; `none` stands for `NaN`. -/
def parseInt (text : JsString) : Option ℤ :=
  let (negative, s) := sign (JsString.trimStart text)
  let digits := s.takeWhile (isDigit 10)
  if digits = [] then none
  else some (if negative then -(ofDigits 10 digits : ℤ) else ofDigits 10 digits)

end JsNumber

end N8n
