import N8n.Lib.Cut

/-!
# Splitting and joining expression templates

`packages/workflow/src/extensions/expression-parser.ts`: a template is split at its unescaped `{{`
and `}}` into chunks of text and code, and chunks are joined back into a template.

* `ExpressionChunk`, `splitExpression`, `joinExpression`, `escapeCode`, `escapeTmplExpression`;
* `splitLoop_eq`: the scanner, one chunk at a time.

A string is the list of its characters.  The scanner only ever compares with `\`, `{` and `}`, so
it acts alike on characters and on the code units of the language.
-/

namespace N8n

/-- A chunk of a template. -/
inductive ExpressionChunk
  | text (text : List Char)
  | code (text : List Char) (hasClosingBrackets : Bool)
  deriving DecidableEq

/-- `searchingFor`: the kind of bracket that ends the present chunk. -/
inductive SearchingFor
  | opening
  | closing
  deriving DecidableEq

/-- The letter of the bracket that `activeRegex` looks for. -/
def SearchingFor.bracket : SearchingFor → Char
  | opening => '{'
  | closing => '}'

/-- What follows once the bracket is found. -/
def SearchingFor.next : SearchingFor → SearchingFor
  | opening => closing
  | closing => opening

/-- `str.replace(pattern, replacement)` for a string pattern: its first occurrence only. -/
def replaceFirst (pattern replacement : List Char) : List Char → List Char
  | [] => []
  | c :: l =>
    if pattern <+: c :: l then replacement ++ (c :: l).drop pattern.length
    else c :: replaceFirst pattern replacement l

def escapeCode (text : List Char) : List Char := replaceFirst ['\\', '}', '}'] ['}', '}'] text

def escapeTmplExpression (part : List Char) : List Char :=
  replaceFirst ['}', '}'] ['\\', '}', '}'] part

/-- A match of `OPEN_BRACKET` or `CLOSE_BRACKET`: where it starts, and whether the group `escape`
holds a backslash. -/
structure BracketMatch where
  index : ℕ
  escape : Bool
  deriving DecidableEq

/-- `activeRegex.exec(expr)`: the leftmost match, the escaped form tried first at each position. -/
def execBracket (b : Char) : List Char → Option BracketMatch
  | [] => none
  | c :: l =>
    if ['\\', b, b] <+: c :: l then some ⟨0, true⟩
    else if [b, b] <+: c :: l then some ⟨0, false⟩
    else (execBracket b l).map fun res => { res with index := res.index + 1 }

/-- The chunk that `buffer` becomes. -/
def SearchingFor.chunk (buffer : List Char) (hasClosingBrackets : Bool) :
    SearchingFor → ExpressionChunk
  | opening => .text buffer
  | closing => .code (escapeCode buffer) hasClosingBrackets

/-- The loop of `splitExpression`; `expr` is `expression.slice(index)`. -/
def splitLoop (searchingFor : SearchingFor) (buffer expr : List Char) : List ExpressionChunk :=
  if expr = [] then []
  else
    match execBracket searchingFor.bracket expr with
    -- no more brackets: the rest is the last chunk
    | none => [searchingFor.chunk (buffer ++ expr) false]
    | some res =>
      if res.escape then
        splitLoop searchingFor (buffer ++ expr.take (res.index + 3)) (expr.drop (res.index + 3))
      else
        searchingFor.chunk (buffer ++ expr.take res.index) true ::
          splitLoop searchingFor.next [] (expr.drop (res.index + 2))
termination_by expr.length
decreasing_by
  all_goals
    have := List.length_pos_of_ne_nil ‹_›
    rw [List.length_drop]
    omega

def splitExpression (expression : List Char) : List ExpressionChunk :=
  splitLoop .opening [] expression

/-- The part of a template that a chunk stands for. -/
def joinChunk : ExpressionChunk → List Char
  | .text text => text
  | .code text hasClosingBrackets =>
    '{' :: '{' :: escapeTmplExpression text ++ if hasClosingBrackets then ['}', '}'] else []

def joinExpression (parts : List ExpressionChunk) : List Char := parts.flatMap joinChunk

/-! ### The scanner, chunk by chunk -/

variable {b : Char} {expr : List Char} {i : ℕ}

/-- A match splits the expression: nothing is cut before it. -/
theorem cut_of_exec_none (h : execBracket b expr = none) :
    cut '\\' b expr = none ∧ (stopsEscaped '\\' b expr ↔ expr = []) := by
  induction expr with
  | nil => simp [stopsEscaped]
  | cons c l ih =>
    rw [execBracket] at h
    split_ifs at h with he hb
    obtain ⟨hc, hs⟩ := ih (Option.map_eq_none_iff.1 h)
    refine ⟨by rw [cut_cons he hb, hc]; rfl, ?_⟩
    rw [stopsEscaped, if_neg he, if_neg hb]
    simp [hs]

theorem cut_of_exec_bare (hb : '\\' ≠ b) (h : execBracket b expr = some ⟨i, false⟩) :
    cut '\\' b expr = some (expr.take i, expr.drop (i + 2)) := by
  induction expr generalizing i with
  | nil => simp [execBracket] at h
  | cons c l ih =>
    rw [execBracket] at h
    split_ifs at h with he hp
    · simp at h
    · obtain ⟨l', hl⟩ := pair_prefix_iff.1 hp
      obtain ⟨rfl, rfl⟩ := List.cons.inj hl
      cases h
      exact cut_pair hb l'
    · obtain ⟨⟨j, e⟩, hj, he'⟩ := Option.map_eq_some_iff.1 h
      cases he'
      rw [cut_cons he hp, ih hj]
      rfl

theorem cut_of_exec_escaped (h : execBracket b expr = some ⟨i, true⟩) :
    cut '\\' b expr =
        (cut '\\' b (expr.drop (i + 3))).map (fun p => (expr.take (i + 3) ++ p.1, p.2)) ∧
      stopsEscaped '\\' b expr = stopsEscaped '\\' b (expr.drop (i + 3)) := by
  induction expr generalizing i with
  | nil => simp [execBracket] at h
  | cons c l ih =>
    rw [execBracket] at h
    split_ifs at h with he hp
    · obtain ⟨l', hl⟩ := escaped_prefix_iff.1 he
      obtain ⟨rfl, rfl⟩ := List.cons.inj hl
      cases h
      exact ⟨cut_escaped l', by rw [stopsEscaped, if_pos he]; rfl⟩
    · simp at h
    · obtain ⟨⟨j, e⟩, hj, he'⟩ := Option.map_eq_some_iff.1 h
      cases he'
      obtain ⟨hc, hs⟩ := ih hj
      have hl : l ≠ [] := by rintro rfl; simp [execBracket] at hj
      refine ⟨?_, ?_⟩
      · rw [cut_cons he hp, hc, Option.map_map]
        rfl
      · rw [stopsEscaped, if_neg he, if_neg hp, hs]
        simp [hl]

/-- **One chunk of the scanner**: it ends at the first unescaped bracket, or else with the template;
nothing is left of a template that stops at a bracket. -/
theorem splitLoop_eq (searchingFor : SearchingFor) (buffer expr : List Char) :
    splitLoop searchingFor buffer expr =
      match cut '\\' searchingFor.bracket expr with
      | some (t, rest) =>
        searchingFor.chunk (buffer ++ t) true :: splitLoop searchingFor.next [] rest
      | none =>
        if stopsEscaped '\\' searchingFor.bracket expr then []
        else [searchingFor.chunk (buffer ++ expr) false] := by
  have hb : '\\' ≠ searchingFor.bracket := by cases searchingFor <;> decide
  induction hn : expr.length using Nat.strong_induction_on generalizing buffer expr with
  | _ n ih =>
  subst hn
  rw [splitLoop]
  by_cases hnil : expr = []
  · subst hnil
    simp [stopsEscaped]
  · rw [if_neg hnil]
    cases hx : execBracket searchingFor.bracket expr with
    | none =>
      obtain ⟨hc, hs⟩ := cut_of_exec_none hx
      simp [hc, hs, hnil]
    | some res =>
      obtain ⟨i, e⟩ := res
      cases e with
      | false => simp [cut_of_exec_bare hb hx]
      | true =>
        obtain ⟨hc, hs⟩ := cut_of_exec_escaped hx
        have hlt : (expr.drop (i + 3)).length < expr.length := by
          have := List.length_pos_of_ne_nil hnil
          rw [List.length_drop]
          omega
        simp only [if_true, ih _ hlt _ _ rfl, hc, hs]
        cases cut '\\' searchingFor.bracket (expr.drop (i + 3)) with
        | none => simp [List.append_assoc]
        | some p => simp [List.append_assoc]

end N8n
