import N8n.Expressions.ExpressionParser
import Mathlib.Data.List.DropRight

/-!
# The gate for `$fromAI` expressions

`isFromAIOnlyExpression` (`packages/workflow/src/from-ai-parse-utils.ts`) is to accept only
expressions that are one `$fromAI()` call with literal arguments.

* `isFromAIOnlyExpression`: the gate, with the walk over the arguments in `walkArguments`;
* `callArguments`, `argTokens`: the arguments of an expression, and their words and strings;
* `LiteralList`: the argument lists that consist of literals.
-/

namespace N8n

/-- The white space of the language: what `\s` matches and `trim` removes. -/
def isSpace (c : Char) : Bool :=
  c ∈ ['\t', '\n', '\x0b', '\x0c', '\r', ' ', '\u00a0', '\u1680', '\u2028', '\u2029', '\u202f',
      '\u205f', '\u3000', '\ufeff'] || ('\u2000' ≤ c && c ≤ '\u200a')

/-- `str.trim()`. -/
def trim (str : List Char) : List Char := (str.dropWhile isSpace).rdropWhile isSpace

/-- `FROM_AI_AUTO_GENERATED_MARKER`. -/
def FROM_AI_AUTO_GENERATED_MARKER : List Char := "/*n8n-auto-generated-fromAI-override*/".toList

/-- The template of an expression: what follows the leading `=`. -/
def template (expr : List Char) : List Char := if ['='] <+: expr then expr.drop 1 else expr

/-- What stands between the delimiters `{{ }}`, if the string has them at its ends. -/
def delimited (str : List Char) : Option (List Char) :=
  if ['{', '{'] <+: str ∧ ['}', '}'] <:+ str then some ((str.drop 2).dropLast.dropLast) else none

/-- The string without its auto-generated marker. -/
def stripMarker (str : List Char) : List Char :=
  if FROM_AI_AUTO_GENERATED_MARKER <+: str then
    trim (str.drop FROM_AI_AUTO_GENERATED_MARKER.length)
  else str

/-- The expression without its delimiters and its marker. -/
def callText (expr : List Char) : List Char :=
  let str := trim (template expr)
  match delimited str with
  | some str => stripMarker (trim str)
  | none => stripMarker str

/-- `/^\$fromAI\s*\(/i`: what follows the match. -/
def afterFromAI (str : List Char) : Option (List Char) :=
  if (str.take 7).map Char.toLower = "$fromai".toList then
    match (str.drop 7).dropWhile isSpace with
    | '(' :: rest => some rest
    | _ => none
  else none

def isQuote (c : Char) : Bool := c ∈ ['"', '\'', '\x60']

/-- `/[a-zA-Z0-9_]/`. -/
def isIdentifierChar (c : Char) : Bool := c.isAlphanum || c = '_'

/-- `/[a-zA-Z0-9.,\s-]/`. -/
def isAllowed (c : Char) : Bool := c.isAlphanum || c = '.' || c = ',' || isSpace c || c = '-'

/-- The walk over the arguments: what follows the closing `)`, or `none` where the walk rejects the
expression or runs out of it.  `inQuotes` holds the quote character of an open string. -/
def walkArguments (inQuotes lastOutsideChar : Option Char) : List Char → Option (List Char)
  | [] => none
  | char :: rest =>
    match inQuotes with
    | some quoteChar =>
      match char, rest with
      -- skip the escaped character
      | '\\', _ :: rest => walkArguments (some quoteChar) lastOutsideChar rest
      | char, rest =>
        if quoteChar = '\x60' ∧ char = '$' ∧ rest.head? = some '{' then none
        else if char = quoteChar then walkArguments none lastOutsideChar rest
        else walkArguments (some quoteChar) lastOutsideChar rest
    | none =>
      if isQuote char then
        if char = '\x60' ∧ lastOutsideChar.any isIdentifierChar then none
        else walkArguments (some char) (some char) rest
      -- the depth is 1 until here, since no `(` is allowed outside quotes
      else if char = ')' then some rest
      else if isAllowed char then
        walkArguments none (if isSpace char then lastOutsideChar else some char) rest
      else none

def isFromAIOnlyExpression (expr : List Char) : Bool :=
  match afterFromAI (callText expr) with
  | none => false
  | some args =>
    match walkArguments none none args with
    | none => false
    | some remainder => trim remainder = []

/-! ### Argument lists -/

/-- The arguments of an expression: what stands between its first `(` and the last character. -/
def callArguments (expr : List Char) : List Char :=
  ((callText expr).dropWhile (· ≠ '(')).tail.dropLast

/-- `expr` is white space only. -/
def Blank (expr : List Char) : Prop := ∀ c ∈ expr, isSpace c

/-- The inside of a string in quotes `q`, without interpolation. -/
inductive QuotedBody (q : Char) : List Char → Prop
  | nil : QuotedBody q []
  | escaped (c : Char) {l : List Char} (h : QuotedBody q l) : QuotedBody q ('\\' :: c :: l)
  | char {c : Char} {l : List Char} (hq : c ≠ q) (he : c ≠ '\\')
    (hi : ¬ (q = '\x60' ∧ c = '$' ∧ l.head? = some '{')) (h : QuotedBody q l) :
    QuotedBody q (c :: l)

/-- The digits of an exponent. -/
def isExponent : List Char → Bool
  | [] => true
  | c :: l =>
    let digits := if ['-'] <+: l then l.drop 1 else l
    (c = 'e' || c = 'E') && digits ≠ [] && digits.all Char.isDigit

/-- A decimal literal: digits with a point before, among or after them, and an exponent. -/
def isDecimal (w : List Char) : Bool :=
  let int := w.takeWhile Char.isDigit
  let rest := w.dropWhile Char.isDigit
  let frac := if ['.'] <+: rest then (rest.drop 1).takeWhile Char.isDigit else []
  let rest := if ['.'] <+: rest then (rest.drop 1).dropWhile Char.isDigit else rest
  (int ≠ [] || frac ≠ []) && isExponent rest

/-- A hexadecimal, octal or binary literal. -/
def isRadix : List Char → Bool
  | '0' :: x :: c :: digits =>
    ((x = 'x' || x = 'X') && (c :: digits).all fun d => d.isDigit || ('a' ≤ d && d ≤ 'f') ||
        ('A' ≤ d && d ≤ 'F')) ||
      ((x = 'o' || x = 'O') && (c :: digits).all fun d => '0' ≤ d && d ≤ '7') ||
      ((x = 'b' || x = 'B') && (c :: digits).all fun d => d = '0' || d = '1')
  | _ => false

/-- The characters that words are made of: neither white space nor a comma nor a quote. -/
def isWordChar (c : Char) : Bool := !isSpace c && c ≠ ',' && !isQuote c

/-- `true`, `false` or a number, perhaps negative. -/
def isLiteralWord (w : List Char) : Bool :=
  w ≠ [] && w.all isWordChar &&
    (w = "true".toList || w = "false".toList ||
      let w := if ['-'] <+: w then w.drop 1 else w
      isDecimal w || isRadix w)

/-- A literal: a quoted string without interpolation, a number or a truth value. -/
inductive Literal : List Char → Prop
  | quoted {q : Char} {body : List Char} (hq : isQuote q) (h : QuotedBody q body) :
    Literal (q :: (body ++ [q]))
  | word {w : List Char} (h : isLiteralWord w) : Literal w

/-- A literal with white space around it. -/
def LiteralItem (l : List Char) : Prop :=
  ∃ w₁ lit w₂, Blank w₁ ∧ Literal lit ∧ Blank w₂ ∧ l = w₁ ++ lit ++ w₂

/-- Literals with commas between them. -/
inductive LiteralItems : List Char → Prop
  | last {l : List Char} (h : LiteralItem l) : LiteralItems l
  | more {l ls : List Char} (h : LiteralItem l) (hs : LiteralItems ls) :
    LiteralItems (l ++ ',' :: ls)

/-- A comma-separated list of literals only, perhaps empty. -/
def LiteralList (args : List Char) : Prop := Blank args ∨ LiteralItems args

/-! ### Words and strings -/

/-- A string in quotes, a comma, or a run of other characters. -/
inductive ArgToken
  | quoted
  | comma
  | word (w : List Char)
  deriving DecidableEq

/-- What follows the string that is open in quotes `q`. -/
def skipQuoted (q : Char) : List Char → List Char
  | [] => []
  | '\\' :: _ :: l => skipQuoted q l
  | c :: l => if c = q then l else skipQuoted q l

theorem length_skipQuoted_le (q : Char) (l : List Char) : (skipQuoted q l).length ≤ l.length := by
  fun_induction skipQuoted q l with
  | case1 => exact le_rfl
  | case2 c l ih => exact ih.trans (by simp only [List.length_cons]; omega)
  | case3 l h => simp
  | case4 c l h hc ih => exact ih.trans (Nat.le_succ _)

/-- The strings, commas and words of an argument list, without the white space. -/
def argTokens : List Char → List ArgToken
  | [] => []
  | c :: l =>
    if isSpace c then argTokens l
    else if c = ',' then .comma :: argTokens l
    else if isQuote c then .quoted :: argTokens (skipQuoted c l)
    else .word (c :: l.takeWhile isWordChar) :: argTokens (l.dropWhile isWordChar)
termination_by l => l.length
decreasing_by
  all_goals simp only [List.length_cons]
  · omega
  · omega
  · exact Nat.lt_succ_of_le (length_skipQuoted_le c l)
  · exact Nat.lt_succ_of_le (List.dropWhile_suffix _).length_le

def ArgToken.isLiteral : ArgToken → Bool
  | quoted => true
  | comma => false
  | word w => isLiteralWord w

/-- The tokens are literals and commas in turn, a literal first and last. -/
def alternates : List ArgToken → Bool
  | [] => false
  | [t] => t.isLiteral
  | t :: .comma :: ts => t.isLiteral && alternates ts
  | _ => false

/-- Outside strings, an argument list has only truth values and numbers, and each string and word
is parted from the next by one comma. -/
def WordsLiteral (args : List Char) : Prop := argTokens args = [] ∨ alternates (argTokens args)

end N8n
