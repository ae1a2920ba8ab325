import Mathlib.Data.List.Basic

/-!
# Texts by code unit

The lengths and the positions of a text are counted in UTF-16 code units, so where a width matters a
text is the list of its units.

* `JsString.ofString`: the units of a text;
* `JsString.padStart`, `padEnd`, `replaceFirst`, `splitAt`: the methods of texts;
* `JsString.length_padStart`, `length_padEnd`: a padded text is as long as asked for, or as before.
-/

namespace N8n

/-- A text of the script language: its UTF-16 code units. -/
abbrev JsString := List UInt16

namespace JsString

/-- The code units of a character. -/
def unitsOf (c : Char) : JsString :=
  if c.toNat < 65536 then [UInt16.ofNat c.toNat]
  else [UInt16.ofNat (0xD800 + (c.toNat - 65536) / 1024),
    UInt16.ofNat (0xDC00 + (c.toNat - 65536) % 1024)]

def ofString (s : String) : JsString := s.toList.flatMap unitsOf

instance : Coe String JsString := ⟨ofString⟩

/-- Line ends and white space, which a conversion to a number trims. -/
def isSpace (u : UInt16) : Bool :=
  u.toNat ∈ [9, 10, 11, 12, 13, 32, 160, 0x1680, 0x2028, 0x2029, 0x202F, 0x205F, 0x3000, 0xFEFF] ||
    (0x2000 ≤ u.toNat && u.toNat ≤ 0x200A)

def trimStart (s : JsString) : JsString := s.dropWhile isSpace

def trim (s : JsString) : JsString := (trimStart (trimStart s).reverse).reverse

def startsWith (s start : JsString) : Bool := start.isPrefixOf s

/-- `replace` with a text as its pattern: the first occurrence is replaced. -/
def replaceFirst (pattern replacement : JsString) : JsString → JsString
  | [] => if pattern = [] then replacement else []
  | u :: s =>
    if pattern.isPrefixOf (u :: s) then replacement ++ (u :: s).drop pattern.length
    else u :: replaceFirst pattern replacement s

/-- `split` at a code unit. -/
def splitAt (separator : UInt16) : JsString → List JsString
  | [] => [[]]
  | u :: s =>
    if u = separator then [] :: splitAt separator s
    else
      match splitAt separator s with
      | [] => [[u]]
      | part :: parts => (u :: part) :: parts

def join (separator : JsString) (parts : List JsString) : JsString :=
  (parts.intersperse separator).flatten

/-- The first `n` units of the filler, repeated. -/
def filler (fillString : JsString) (n : ℕ) : JsString :=
  (List.replicate n fillString).flatten.take n

def padStart (s : JsString) (maxLength : ℕ) (fillString : JsString) : JsString :=
  filler fillString (maxLength - s.length) ++ s

def padEnd (s : JsString) (maxLength : ℕ) (fillString : JsString) : JsString :=
  s ++ filler fillString (maxLength - s.length)

theorem length_filler {fillString : JsString} (h : fillString ≠ []) (n : ℕ) :
    (filler fillString n).length = n := by
  have hpos : 0 < fillString.length := List.length_pos_iff.2 h
  have hle : n ≤ n * fillString.length := Nat.le_mul_of_pos_right n hpos
  simp only [filler, List.length_take, List.length_flatten, List.map_replicate,
    List.sum_replicate_nat]
  omega

theorem length_padStart (s : JsString) (maxLength : ℕ) {fillString : JsString}
    (h : fillString ≠ []) : (padStart s maxLength fillString).length = max s.length maxLength := by
  rw [padStart, List.length_append, length_filler h]
  omega

theorem length_padEnd (s : JsString) (maxLength : ℕ) {fillString : JsString}
    (h : fillString ≠ []) : (padEnd s maxLength fillString).length = max s.length maxLength := by
  rw [padEnd, List.length_append, length_filler h]
  omega

end JsString

end N8n
