import N8n.Data.JsNumber
import N8n.Expressions.FromAiGate
import N8n.Lib.Escapes

/-!
# The `$fromAI` calls of a text

`extractFromAICalls` (`packages/workflow/src/from-ai-parse-utils.ts`) finds the calls in a text and
parses their arguments.

* `extractFromAICalls`: the loop over the matches, with `scanCall` and `parseArguments`;
* `fromAICall`: a call written out with quoted arguments;
* `HasFromAI`: where the pattern of a call matches;
* `extractFromAICalls_iff`: when the written call is read back.
-/

namespace N8n

/-! ### The parser -/

inductive FromAIDefault
  | str (s : List Char)
  | bool (b : Bool)
  | num (n : JsNumber)
  | json (value : JsValue)
  deriving DecidableEq

structure FromAIArgument where
  key : List Char
  description : Option (List Char)
  type : List Char
  defaultValue : Option FromAIDefault
  deriving DecidableEq

structure ParseError where
  message : List Char
  deriving DecidableEq

/-- `toLowerCase`, as far as a comparison with one of the words below can tell. -/
def lowerCase (value : List Char) : List Char := value.map Char.toLower

def isFromAIArgumentType (value : List Char) : Bool :=
  ["string", "number", "boolean", "json"].any fun type => lowerCase value = type.toList

/-- The state of the loop that splits the arguments; `quoteChar` is the quote that is open. -/
structure ArgumentScan where
  args : List (List Char) := []
  currentArg : List Char := []
  quoteChar : Option Char := none
  escapeNext : Bool := false

/-- One character of the loop that splits the arguments by commas outside of quotes. -/
def scanArgument (s : ArgumentScan) (char : Char) : ArgumentScan :=
  if s.escapeNext then { s with currentArg := s.currentArg ++ [char], escapeNext := false }
  else if char = '\\' then { s with escapeNext := true }
  else if isQuote char then
    let quoteChar := match s.quoteChar with
      | none => some char
      | some q => if char = q then none else some q
    { s with quoteChar := quoteChar, currentArg := s.currentArg ++ [char] }
  else if char = ',' ∧ s.quoteChar = none then
    { s with args := s.args ++ [trim s.currentArg], currentArg := [] }
  else { s with currentArg := s.currentArg ++ [char] }

def splitArguments (argsString : List Char) : List (List Char) :=
  let s := argsString.foldl scanArgument {}
  if s.currentArg = [] then s.args else s.args ++ [trim s.currentArg]

/-- The characters whose escapes the last pass replaces, in this order. -/
def unescapedChars : List Char := ['\'', '\x60', '"', '\\']

/-- Remove surrounding quotes, and the escapes between them. -/
def cleanArg (arg : List Char) : List Char :=
  let trimmed := trim arg
  if ['\'', '\x60', '"'].any fun q => trimmed.head? = some q ∧ trimmed.getLast? = some q then
    unescapedChars.foldl (fun s c => unescape '\\' c s) (trimmed.drop 1).dropLast
  else trimmed

section Parser

-- `JSON.parse`, `none` where it throws
variable (jsonParse : List Char → Option JsValue)

def parseDefaultValue (value type : List Char) : FromAIDefault :=
  if type = "string".toList then .str value
  else if type = "boolean".toList ∧
      (lowerCase value = "true".toList ∨ lowerCase value = "false".toList) then
    .bool (lowerCase value = "true".toList)
  else
    let number := JsNumber.ofText (JsString.ofString (String.ofList value))
    if type = "number".toList ∧ number ≠ .nan then .num number
    else
      match jsonParse value with
      | some parsed => .json parsed
      | none => .str value

def parseArguments (argsString : List Char) : Except ParseError FromAIArgument :=
  let cleanArgs := (splitArguments argsString).map cleanArg
  let type := cleanArgs[2]?.getD "string".toList
  if isFromAIArgumentType type then
    .ok { key := cleanArgs[0]?.getD []
          description := cleanArgs[1]?
          type := type
          defaultValue := cleanArgs[3]?.map (parseDefaultValue jsonParse · type) }
  else .error ⟨"Invalid type: ".toList ++ type⟩

/-- The arguments up to the closing parenthesis, or `none` where there is none. -/
def scanCall : (quoteChar : Option Char) → (parenthesesCount : ℕ) → (argsString : List Char) →
    List Char → Option (List Char)
  | _, _, _, [] => none
  | some quoteChar, parenthesesCount, argsString, char :: rest =>
    match char, rest with
    | '\\', next :: rest =>
      scanCall (some quoteChar) parenthesesCount (argsString ++ ['\\', next]) rest
    | char, rest =>
      scanCall (if char = quoteChar then none else some quoteChar) parenthesesCount
        (argsString ++ [char]) rest
  | none, parenthesesCount, argsString, char :: rest =>
    if isQuote char then scanCall (some char) parenthesesCount (argsString ++ [char]) rest
    else if char = '(' then scanCall none (parenthesesCount + 1) (argsString ++ [char]) rest
    else if char = ')' then
      if parenthesesCount = 1 then some argsString
      else scanCall none (parenthesesCount - 1) (argsString ++ [char]) rest
    else scanCall none parenthesesCount (argsString ++ [char]) rest

/-- `pattern.exec`: what follows the first match of `/\$fromAI\s*\(\s*/i`. -/
def execPattern : List Char → Option (List Char)
  | [] => none
  | c :: cs =>
    match afterFromAI (c :: cs) with
    | some rest => some (rest.dropWhile isSpace)
    | none => execPattern cs

/-- The loop over the matches.  The pattern goes on behind the parenthesis that a match ends with, so
that the arguments are searched again. -/
def extractFromAICallsFuel :
    ℕ → List Char → List FromAIArgument → Except ParseError (List FromAIArgument)
  | 0, _, args => .ok args
  | fuel + 1, str, args =>
    match execPattern str with
    | none => .ok args
    | some rest =>
      match scanCall none 1 [] rest with
      | none =>
        .error ⟨"Unbalanced parentheses while parsing $fromAI call: ".toList ++ rest⟩
      | some argsString =>
        match parseArguments jsonParse argsString with
        | .ok parsedArgs => extractFromAICallsFuel fuel rest (args ++ [parsedArgs])
        | .error error =>
          .error ⟨"Failed to parse $fromAI arguments: ".toList ++ argsString ++ ": Error: ".toList ++
            error.message⟩

def extractFromAICalls (str : List Char) : Except ParseError (List FromAIArgument) :=
  extractFromAICallsFuel jsonParse (str.length + 1) str []

end Parser

/-! ### Written calls -/

/-- A text in quotes, with a backslash before each backslash and each such quote in it. -/
def quoted (q : Char) (s : List Char) : List Char := q :: (escape '\\' q s ++ [q])

/-- `key, description, 'string', defaultValue`. -/
def writtenArguments (q₁ q₂ q₄ : Char) (key description defaultValue : List Char) : List Char :=
  quoted q₁ key ++ (", ".toList ++ (quoted q₂ description ++ (", ".toList ++
    (quoted '\'' "string".toList ++ (", ".toList ++ quoted q₄ defaultValue)))))

/-- `$fromAI(key, description, 'string', defaultValue)`. -/
def fromAICall (q₁ q₂ q₄ : Char) (key description defaultValue : List Char) : List Char :=
  "$fromAI(".toList ++ (writtenArguments q₁ q₂ q₄ key description defaultValue ++ [')'])

theorem fromAICall_append (q₁ q₂ q₄ : Char) (key description defaultValue after : List Char) :
    fromAICall q₁ q₂ q₄ key description defaultValue ++ after = "$fromAI(".toList ++
      (writtenArguments q₁ q₂ q₄ key description defaultValue ++ ')' :: after) := by
  unfold fromAICall
  generalize "$fromAI(".toList = word
  rw [List.append_assoc, List.append_assoc, List.singleton_append]

/-- The pattern matches somewhere in a text. -/
def HasFromAI (str : List Char) : Prop := ∃ l, l <:+ str ∧ (afterFromAI l).isSome

/-! ### Quoted arguments -/

variable {q q₁ q₂ q₄ c : Char} {l : List Char}

theorem ne_backslash_of_isQuote (hq : isQuote q) : q ≠ '\\' := fun h => by
  rw [h] at hq
  exact absurd hq (by decide)

/-- The scanner of the call reads a quoted argument to its end. -/
theorem scanCall_quoted (hq : isQuote q) (n : ℕ) (acc s rest : List Char) :
    scanCall none n acc (quoted q s ++ rest) = scanCall none n (acc ++ quoted q s) rest := by
  have hbody : ∀ (s acc : List Char), scanCall (some q) n acc (escape '\\' q s ++ q :: rest) =
      scanCall none n (acc ++ escape '\\' q s ++ [q]) rest := by
    intro s
    induction s with
    | nil =>
      intro acc
      rw [escape_nil, List.nil_append, scanCall, if_pos rfl, List.append_nil]
      exact fun next _ hslash _ => absurd hslash (ne_backslash_of_isQuote hq)
    | cons c s ih =>
      intro acc
      rw [escape_cons]
      split_ifs with hc
      · rw [List.append_assoc, List.cons_append, List.cons_append, List.nil_append, scanCall, ih]
        simp
      · rw [not_or] at hc
        rw [List.singleton_append, List.cons_append, scanCall, if_neg hc.2, ih]
        · simp
        · exact fun next _ hslash _ => absurd hslash hc.1
  rw [quoted, List.cons_append, List.append_assoc, List.singleton_append, scanCall, if_pos hq, hbody]
  simp

/-- The loop that splits the arguments keeps a quoted argument together, without its escapes. -/
theorem foldl_scanArgument_quoted (hq : isQuote q) (s : List Char) (args : List (List Char))
    (currentArg : List Char) :
    (quoted q s).foldl scanArgument { args := args, currentArg := currentArg } =
      { args := args, currentArg := currentArg ++ (q :: (s ++ [q])) } := by
  have hne := ne_backslash_of_isQuote hq
  have hbody : ∀ (s currentArg : List Char), (escape '\\' q s).foldl scanArgument
      { args := args, currentArg := currentArg, quoteChar := some q } =
        { args := args, currentArg := currentArg ++ s, quoteChar := some q } := by
    intro s
    induction s with
    | nil => simp
    | cons c s ih =>
      intro currentArg
      rw [escape_cons]
      split_ifs with hc
      · simp [scanArgument, ih]
      · rw [not_or] at hc
        have hstep :
    scanArgument { args := args, currentArg := currentArg, quoteChar := some q } c =
            { args := args, currentArg := currentArg ++ [c], quoteChar := some q } := by
          simp [scanArgument, hc]
        rw [List.singleton_append, List.foldl_cons, hstep, ih, List.append_assoc,
          List.singleton_append]
  rw [quoted, List.foldl_cons, List.foldl_append]
  simp [scanArgument, hq, hne, hbody]

/-- The same when a comma and a blank follow. -/
theorem foldl_scanArgument_item (hq : isQuote q) (s : List Char) (args : List (List Char))
    (currentArg rest : List Char) :
    (quoted q s ++ (", ".toList ++ rest)).foldl scanArgument { args := args, currentArg := currentArg } =
      rest.foldl scanArgument
        { args := args ++ [trim (currentArg ++ (q :: (s ++ [q])))], currentArg := [' '] } := by
  rw [List.foldl_append, foldl_scanArgument_quoted hq, List.foldl_append]
  rfl

theorem trim_quoted (hq : isQuote q) (s : List Char) :
    trim (q :: (s ++ [q])) = q :: (s ++ [q]) := by
  have hspace : isSpace q = false := Bool.not_eq_true _ ▸ not_isSpace_of_isQuote hq
  rw [trim, List.dropWhile_cons_of_neg (by simp [hspace]), ← List.cons_append,
    List.rdropWhile_concat_neg _ _ _ (by simp [hspace])]

theorem trim_blank_quoted (hq : isQuote q) (s : List Char) :
    trim ([' '] ++ (q :: (s ++ [q]))) = q :: (s ++ [q]) := by
  rw [trim, List.singleton_append, List.dropWhile_cons_of_pos (by decide)]
  exact trim_quoted hq s

/-- What is left of a text when its escapes are removed once more. -/
def unescapeAll (s : List Char) : List Char := unescapedChars.foldl (fun s c => unescape '\\' c s) s

theorem cleanArg_quoted (hq : isQuote q) (s : List Char) :
    cleanArg (q :: (s ++ [q])) = unescapeAll s := by
  have hany : (['\'', '\x60', '"'].any fun c => (q :: (s ++ [q])).head? = some c ∧
      (q :: (s ++ [q])).getLast? = some c) = true := by
    refine List.any_eq_true.2 ⟨q, ?_, decide_eq_true ⟨rfl, List.getLast?_concat (l := q :: s)⟩⟩
    rw [isQuote, decide_eq_true_iff] at hq
    simp only [List.mem_cons] at hq ⊢
    tauto
  rw [cleanArg, trim_quoted hq, if_pos hany]
  simp [unescapeAll]

/-- **The arguments of a written call**, without their escapes. -/
theorem parseArguments_written (jsonParse : List Char → Option JsValue) (hq₁ : isQuote q₁)
    (hq₂ : isQuote q₂) (hq₄ : isQuote q₄) (key description defaultValue : List Char) :
    parseArguments jsonParse (writtenArguments q₁ q₂ q₄ key description defaultValue) =
      .ok { key := unescapeAll key
            description := some (unescapeAll description)
            type := "string".toList
            defaultValue := some (.str (unescapeAll defaultValue)) } := by
  have hsplit : splitArguments (writtenArguments q₁ q₂ q₄ key description defaultValue) =
      [q₁ :: (key ++ [q₁]), q₂ :: (description ++ [q₂]), '\'' :: ("string".toList ++ ['\'']),
        q₄ :: (defaultValue ++ [q₄])] := by
    have hstring : isQuote '\'' = true := rfl
    rw [splitArguments, writtenArguments, foldl_scanArgument_item hq₁, foldl_scanArgument_item hq₂,
      foldl_scanArgument_item hstring, foldl_scanArgument_quoted hq₄]
    simp only [List.nil_append, trim_quoted hq₁, trim_blank_quoted hq₂, trim_blank_quoted hstring,
      trim_blank_quoted hq₄]
    rfl
  have hstring : unescapeAll "string".toList = "string".toList := by decide
  rw [parseArguments, hsplit]
  simp only [List.map_cons, List.map_nil, cleanArg_quoted hq₁, cleanArg_quoted hq₂,
    cleanArg_quoted hq₄, cleanArg_quoted (q := '\'') rfl, hstring]
  rfl

/-! ### Matches of the pattern -/

/-- A character that a match can only begin with. -/
def Stops (c : Char) : Prop := c.toLower ∉ "fromai".toList ∧ isSpace c = false ∧ c ≠ '('

theorem stops_dollar : Stops '$' := ⟨by decide, by decide, by decide⟩

theorem stops_backslash : Stops '\\' := ⟨by decide, by decide, by decide⟩

theorem stops_of_isQuote (hq : isQuote q) : Stops q := by
  rw [isQuote, decide_eq_true_iff] at hq
  simp only [List.mem_cons, List.not_mem_nil, or_false] at hq
  rcases hq with rfl | rfl | rfl <;> exact ⟨by decide, by decide, by decide⟩

/-- What follows the white space behind the word, if it is a parenthesis. -/
def afterParenthesis (l : List Char) : Option (List Char) :=
  match l.dropWhile isSpace with
  | '(' :: rest => some rest
  | _ => none

theorem afterParenthesis_append (hc : Stops c) (l r : List Char) :
    afterParenthesis (l ++ c :: r) = (afterParenthesis l).map (· ++ c :: r) := by
  rw [afterParenthesis, afterParenthesis, List.dropWhile_append]
  cases hl : l.dropWhile isSpace with
  | nil =>
    rw [List.isEmpty_nil, if_pos rfl, List.dropWhile_cons_of_neg (by simp [hc.2.1])]
    split
    · rename_i h
      exact absurd (List.cons.inj h).1 hc.2.2
    · rfl
  | cons a m =>
    rw [List.isEmpty_cons, if_neg (by simp), List.cons_append]
    by_cases ha : a = '('
    · subst ha
      rfl
    · split
      · rename_i h
        exact absurd (List.cons.inj h).1 ha
      · split
        · rename_i h
          exact absurd (List.cons.inj h).1 ha
        · rfl

/-- A match that starts before such a character ends before it. -/
theorem afterFromAI_append (hl : l ≠ []) (hc : Stops c) (r : List Char) :
    afterFromAI (l ++ c :: r) = (afterFromAI l).map (· ++ c :: r) := by
  have hafter : ∀ str, afterFromAI str = if (str.take 7).map Char.toLower = "$fromai".toList then
      afterParenthesis (str.drop 7) else none := fun _ => rfl
  rw [hafter, hafter]
  rcases Nat.lt_or_ge l.length 7 with hlen | hlen
  · have hpos : 0 < l.length := List.length_pos_iff.2 hl
    have hshort : (l.take 7).map Char.toLower ≠ "$fromai".toList := fun h => by
      have hlength := congrArg List.length h
      rw [List.length_map, List.length_take] at hlength
      change min 7 l.length = 7 at hlength
      omega
    have hlong : ((l ++ c :: r).take 7).map Char.toLower ≠ "$fromai".toList := fun h => by
      refine hc.1 ?_
      have hget : ("$fromai".toList)[l.length]? = some c.toLower := by
        rw [← h, List.getElem?_map, List.getElem?_take_of_lt hlen]
        simp
      obtain ⟨n, hn⟩ := Nat.exists_eq_succ_of_ne_zero hpos.ne'
      rw [hn] at hget
      exact List.mem_of_getElem? (l := "fromai".toList) hget
    rw [if_neg hshort, if_neg hlong]
    rfl
  · rw [List.take_append_of_le_length hlen, List.drop_append_of_le_length hlen,
      afterParenthesis_append hc]
    split_ifs <;> rfl

theorem hasFromAI_cons_iff : HasFromAI (c :: l) ↔ (afterFromAI (c :: l)).isSome ∨ HasFromAI l := by
  simp only [HasFromAI, List.suffix_cons_iff, or_and_right, exists_or, exists_eq_left]

theorem eq_dollar_of_toLower (h : c.toLower = '$') : c = '$' := by
  unfold Char.toLower at h
  split at h
  · rename_i hc
    have hlower : (c.val + ('a'.val - 'A'.val)).toNat = 36 := congrArg (·.val.toNat) h
    have hle : 65 ≤ c.val.toNat ∧ c.val.toNat ≤ 90 := ⟨hc.1, hc.2⟩
    have hshift : ('a'.val - 'A'.val).toNat = 32 := rfl
    rw [UInt32.toNat_add] at hlower
    omega
  · exact h

theorem afterFromAI_cons_of_ne (hc : c ≠ '$') (l : List Char) : afterFromAI (c :: l) = none :=
  if_neg fun h => hc (eq_dollar_of_toLower (List.cons.inj h).1)

theorem not_hasFromAI_nil : ¬HasFromAI [] := by
  rintro ⟨l, hl, h⟩
  rw [List.suffix_nil.1 hl] at h
  cases h

theorem hasFromAI_cons_of_ne (hc : c ≠ '$') : HasFromAI (c :: l) ↔ HasFromAI l := by
  rw [hasFromAI_cons_iff, afterFromAI_cons_of_ne hc]
  simp

/-- No match runs over a character that it can only begin with. -/
theorem hasFromAI_append_iff (hc : Stops c) {r : List Char} :
    HasFromAI (l ++ c :: r) ↔ HasFromAI l ∨ HasFromAI (c :: r) := by
  induction l with
  | nil => simp [not_hasFromAI_nil]
  | cons a l ih =>
    rw [List.cons_append, hasFromAI_cons_iff, ih, ← List.cons_append,
      afterFromAI_append (List.cons_ne_nil a l) hc, Option.isSome_map, ← or_assoc, ← hasFromAI_cons_iff]

theorem execPattern_cons (c : Char) (cs : List Char) : execPattern (c :: cs) =
    ((afterFromAI (c :: cs)).map (·.dropWhile isSpace)).or (execPattern cs) := by
  rw [execPattern]
  cases afterFromAI (c :: cs) <;> rfl

theorem execPattern_eq_none_iff {str : List Char} : execPattern str = none ↔ ¬HasFromAI str := by
  induction str with
  | nil => simp [execPattern, not_hasFromAI_nil]
  | cons c cs ih =>
    rw [execPattern_cons, hasFromAI_cons_iff]
    cases afterFromAI (c :: cs) with
    | none => simpa using ih
    | some rest => simp

/-- Escapes make no matches and break none. -/
theorem hasFromAI_escape_iff (hq : isQuote q) (s : List Char) :
    HasFromAI (escape '\\' q s) ↔ HasFromAI s := by
  have hstops : ∀ {c}, c = '\\' ∨ c = q → Stops c := fun hc =>
    hc.elim (fun h => h ▸ stops_backslash) fun h => h ▸ stops_of_isQuote hq
  have hafter : ∀ c s, (afterFromAI (c :: escape '\\' q s)).isSome = (afterFromAI (c :: s)).isSome := by
    intro c s
    rcases escape_cases '\\' q s with hs | ⟨t, a, u, ha, rfl, hs⟩
    · rw [hs]
    · rw [hs, ← List.cons_append, ← List.cons_append,
        afterFromAI_append (List.cons_ne_nil c t) stops_backslash,
        afterFromAI_append (List.cons_ne_nil c t) (hstops ha), Option.isSome_map, Option.isSome_map]
  induction s with
  | nil => rfl
  | cons c s ih =>
    rw [escape_cons]
    split_ifs with hc
    · have hne : c ≠ '$' := by
        rintro rfl
        rcases hc with hc | rfl
        · exact absurd hc (by decide)
        · exact absurd hq (by decide)
      rw [List.cons_append, List.singleton_append, hasFromAI_cons_of_ne (by decide),
        hasFromAI_cons_of_ne hne, hasFromAI_cons_of_ne hne]
      exact ih
    · rw [List.singleton_append, hasFromAI_cons_iff, hafter, hasFromAI_cons_iff]
      exact or_congr_right ih

/-- Where the text of a written call is searched after its match. -/
theorem hasFromAI_written_iff (hq₁ : isQuote q₁) (hq₂ : isQuote q₂) (hq₄ : isQuote q₄)
    (key description defaultValue after : List Char) :
    HasFromAI (writtenArguments q₁ q₂ q₄ key description defaultValue ++ ')' :: after) ↔
      HasFromAI key ∨ HasFromAI description ∨ HasFromAI defaultValue ∨ HasFromAI after := by
  have hquoted : ∀ {q : Char}, isQuote q → ∀ s rest, HasFromAI (quoted q s ++ rest) ↔
      HasFromAI s ∨ HasFromAI rest := fun {q} hq s rest => by
    have hne : q ≠ '$' := fun h => by
      rw [h] at hq
      exact absurd hq (by decide)
    rw [quoted, List.cons_append, hasFromAI_cons_of_ne hne, List.append_assoc, List.singleton_append,
      hasFromAI_append_iff (stops_of_isQuote hq), hasFromAI_escape_iff hq, hasFromAI_cons_of_ne hne]
  have hplain : ∀ {l : List Char}, '$' ∉ l → ∀ rest, HasFromAI (l ++ rest) ↔ HasFromAI rest := by
    intro l hl rest
    induction l with
    | nil => rfl
    | cons c l ih =>
      rw [List.mem_cons, not_or] at hl
      rw [List.cons_append, hasFromAI_cons_of_ne (Ne.symm hl.1), ih hl.2]
  simp only [writtenArguments, List.append_assoc]
  rw [hquoted hq₁, hplain (by decide), hquoted hq₂, hplain (by decide), hplain (by decide),
    hplain (by decide), hquoted hq₄, hasFromAI_cons_of_ne (by decide)]

theorem dropWhile_isSpace_append (hc : Stops c) (l r : List Char) :
    (l ++ c :: r).dropWhile isSpace = l.dropWhile isSpace ++ c :: r := by
  rw [List.dropWhile_append]
  cases hl : l.dropWhile isSpace with
  | nil =>
    rw [List.isEmpty_nil, if_pos rfl, List.dropWhile_cons_of_neg (by simp [hc.2.1]), List.nil_append]
  | cons a m => rfl

/-- The first match is behind a text without one. -/
theorem execPattern_append_of_not (h : ¬HasFromAI l) (hc : Stops c) (r : List Char) :
    execPattern (l ++ c :: r) = execPattern (c :: r) := by
  induction l with
  | nil => rfl
  | cons a l ih =>
    rw [hasFromAI_cons_iff, not_or, Option.not_isSome_iff_eq_none] at h
    rw [List.cons_append, execPattern_cons, ← List.cons_append,
      afterFromAI_append (List.cons_ne_nil a l) hc, h.1]
    exact ih h.2

/-- Or in the text before. -/
theorem execPattern_append_of_hasFromAI (h : HasFromAI l) (hc : Stops c) (r : List Char) :
    ∃ rest, execPattern (l ++ c :: r) = some (rest ++ c :: r) := by
  induction l with
  | nil => exact absurd h not_hasFromAI_nil
  | cons a l ih =>
    rw [List.cons_append, execPattern_cons, ← List.cons_append,
      afterFromAI_append (List.cons_ne_nil a l) hc]
    cases hafter : afterFromAI (a :: l) with
    | some rest => exact ⟨rest.dropWhile isSpace, by simp [dropWhile_isSpace_append hc]⟩
    | none =>
      rw [hasFromAI_cons_iff, hafter] at h
      exact ih (h.resolve_left (by simp))

/-! ### The loop -/

section Loop

variable {jsonParse : List Char → Option JsValue}

variable {fuel : ℕ} {str : List Char} {args r : List FromAIArgument}

/-- One turn of the loop: it stops where there is no match, or goes on with one argument more. -/
theorem extract_eq_ok_iff :
    extractFromAICallsFuel jsonParse (fuel + 1) str args = .ok r ↔
      execPattern str = none ∧ args = r ∨ ∃ rest argsString parsedArgs, execPattern str = some rest ∧
        scanCall none 1 [] rest = some argsString ∧
        parseArguments jsonParse argsString = .ok parsedArgs ∧
        extractFromAICallsFuel jsonParse fuel rest (args ++ [parsedArgs]) = .ok r := by
  rw [extractFromAICallsFuel]
  cases execPattern str with
  | none => simp
  | some rest =>
    cases hscan : scanCall none 1 [] rest with
    | none => simp [hscan]
    | some argsString => cases hparse : parseArguments jsonParse argsString <;> simp [hscan, hparse]

theorem length_le_of_extract (h : extractFromAICallsFuel jsonParse fuel str args = .ok r) :
    args.length ≤ r.length := by
  induction fuel generalizing str args with
  | zero =>
    cases h
    exact le_rfl
  | succ fuel ih =>
    rcases extract_eq_ok_iff.1 h with ⟨-, rfl⟩ | ⟨rest, argsString, parsedArgs, -, -, -, hrest⟩
    · exact le_rfl
    · have hle := ih hrest
      rw [List.length_append] at hle
      omega

/-- A match adds an argument. -/
theorem length_lt_of_extract (h : extractFromAICallsFuel jsonParse (fuel + 1) str args = .ok r)
    (hstr : HasFromAI str) : args.length < r.length := by
  rcases extract_eq_ok_iff.1 h with ⟨hnone, -⟩ | ⟨rest, argsString, parsedArgs, -, -, -, hrest⟩
  · exact absurd hstr (execPattern_eq_none_iff.1 hnone)
  · have hle := length_le_of_extract hrest
    rw [List.length_append, List.length_singleton] at hle
    omega

end Loop

/-! ### Reading back a written call -/

/-- A call that is written into a text is all that is read from it. -/
def ReadsBack (jsonParse : List Char → Option JsValue) (q₁ q₂ q₄ : Char)
    (key description defaultValue before after : List Char) : Prop :=
  extractFromAICalls jsonParse (before ++ (fromAICall q₁ q₂ q₄ key description defaultValue ++ after)) =
    .ok [{ key := key
           description := some description
           type := "string".toList
           defaultValue := some (.str defaultValue) }]

/-- The scanner of the call reads on over what stands between the arguments. -/
theorem scanCall_comma (n : ℕ) (acc rest : List Char) :
    scanCall none n acc (", ".toList ++ rest) = scanCall none n (acc ++ ", ".toList) rest := by
  have hcons : ", ".toList ++ rest = ',' :: ' ' :: rest := rfl
  rw [hcons, scanCall, if_neg (by decide), if_neg (by decide), if_neg (by decide), scanCall,
    if_neg (by decide), if_neg (by decide), if_neg (by decide), List.append_assoc]
  rfl

theorem scanCall_written (hq₁ : isQuote q₁) (hq₂ : isQuote q₂) (hq₄ : isQuote q₄)
    (key description defaultValue after : List Char) :
    scanCall none 1 [] (writtenArguments q₁ q₂ q₄ key description defaultValue ++ ')' :: after) =
      some (writtenArguments q₁ q₂ q₄ key description defaultValue) := by
  simp only [writtenArguments, List.append_assoc]
  rw [scanCall_quoted hq₁, scanCall_comma, scanCall_quoted hq₂, scanCall_comma,
    scanCall_quoted (q := '\'') rfl, scanCall_comma, scanCall_quoted hq₄, scanCall,
    if_neg (by decide), if_neg (by decide), if_pos rfl, if_pos rfl]
  simp

theorem execPattern_word (rest : List Char) :
    execPattern ("$fromAI(".toList ++ rest) = some (rest.dropWhile isSpace) := by
  have hcons : "$fromAI(".toList ++ rest = '$' :: ("fromAI(".toList ++ rest) := rfl
  have hafter : afterFromAI ('$' :: ("fromAI(".toList ++ rest)) = some rest := by
    have hword : ('$' :: ("fromAI(".toList ++ rest)).take 7 = "$fromAI".toList := rfl
    have htail : ('$' :: ("fromAI(".toList ++ rest)).drop 7 = '(' :: rest := rfl
    rw [afterFromAI, hword, htail, if_pos (by decide)]
    rfl
  rw [hcons, execPattern, hafter]

/-- The match of a written call. -/
theorem execPattern_written (hq₁ : isQuote q₁) (q₂ q₄ : Char)
    (key description defaultValue after : List Char) :
    execPattern (fromAICall q₁ q₂ q₄ key description defaultValue ++ after) =
      some (writtenArguments q₁ q₂ q₄ key description defaultValue ++ ')' :: after) := by
  have hquote : ∀ rest, (quoted q₁ key ++ rest).dropWhile isSpace = quoted q₁ key ++ rest :=
    fun rest => List.dropWhile_cons_of_neg (p := isSpace) (a := q₁) (not_isSpace_of_isQuote hq₁)
  have hspace : (writtenArguments q₁ q₂ q₄ key description defaultValue ++ ')' :: after).dropWhile
      isSpace = writtenArguments q₁ q₂ q₄ key description defaultValue ++ ')' :: after := by
    rw [writtenArguments, List.append_assoc, hquote]
  rw [fromAICall_append, execPattern_word, hspace]

/-- **When a written call is read back**: the pattern matches nowhere else, in the strings or around
the call, and no string has a backslash before a quote or another backslash. -/
theorem extractFromAICalls_iff (jsonParse : List Char → Option JsValue) {q₁ q₂ q₄ : Char}
    (hq₁ : isQuote q₁) (hq₂ : isQuote q₂) (hq₄ : isQuote q₄)
    (key description defaultValue before after : List Char) :
    ReadsBack jsonParse q₁ q₂ q₄ key description defaultValue before after ↔
      (∀ s ∈ [before, key, description, defaultValue, after], ¬HasFromAI s) ∧
      ∀ s ∈ [key, description, defaultValue], ∀ c ∈ unescapedChars, ¬['\\', c] <:+: s := by
  have hcall : fromAICall q₁ q₂ q₄ key description defaultValue ++ after =
      '$' :: ((fromAICall q₁ q₂ q₄ key description defaultValue).tail ++ after) := rfl
  obtain ⟨fuel, hfuel⟩ : ∃ fuel, (before ++ (fromAICall q₁ q₂ q₄ key description defaultValue ++
      after)).length + 1 = fuel + 2 := by
    rw [hcall]
    exact ⟨_, by rw [List.length_append, List.length_cons, ← Nat.add_assoc]⟩
  have hothers : (∀ s ∈ [before, key, description, defaultValue, after], ¬HasFromAI s) ↔
      ¬HasFromAI before ∧ ¬HasFromAI (writtenArguments q₁ q₂ q₄ key description defaultValue ++
        ')' :: after) := by
    rw [hasFromAI_written_iff hq₁ hq₂ hq₄]
    simp only [List.forall_mem_cons, not_or]
    simp
  have hescapes : (∀ s ∈ [key, description, defaultValue], ∀ c ∈ unescapedChars,
      ¬['\\', c] <:+: s) ↔ unescapeAll key = key ∧ unescapeAll description = description ∧
        unescapeAll defaultValue = defaultValue := by
    simp only [List.forall_mem_cons, unescapeAll, foldl_unescape_eq_self_iff]
    simp
  rw [ReadsBack, extractFromAICalls, hfuel, hothers, hescapes]
  by_cases hbefore : HasFromAI before
  · -- the first match is before the call, and the call is the second one at the earliest
    refine iff_of_false (fun h => ?_) fun h => h.1.1 hbefore
    obtain ⟨rest, hrest⟩ := execPattern_append_of_hasFromAI hbefore stops_dollar
      ((fromAICall q₁ q₂ q₄ key description defaultValue).tail ++ after)
    rw [← hcall] at hrest
    rcases extract_eq_ok_iff.1 h with ⟨hnone, -⟩ | ⟨rest', argsString, parsedArgs, hrest', -, -, hloop⟩
    · rw [hrest] at hnone
      cases hnone
    · obtain rfl : rest ++ _ = rest' := Option.some.inj (hrest.symm.trans hrest')
      have hfound :
    HasFromAI (rest ++ (fromAICall q₁ q₂ q₄ key description defaultValue ++ after)) := by
        rw [hcall, hasFromAI_append_iff stops_dollar, ← hcall]
        refine .inr (not_not.1 fun hnot => ?_)
        rw [← execPattern_eq_none_iff, execPattern_written hq₁] at hnot
        cases hnot
      have hlt := length_lt_of_extract hloop hfound
      simp at hlt
  · have hfirst : execPattern (before ++ (fromAICall q₁ q₂ q₄ key description defaultValue ++ after)) =
        some (writtenArguments q₁ q₂ q₄ key description defaultValue ++ ')' :: after) := by
      rw [hcall, execPattern_append_of_not hbefore stops_dollar, ← hcall, execPattern_written hq₁]
    have hturn : ∀ r, extractFromAICallsFuel jsonParse (fuel + 2)
        (before ++ (fromAICall q₁ q₂ q₄ key description defaultValue ++ after)) [] = .ok r ↔
          extractFromAICallsFuel jsonParse (fuel + 1)
            (writtenArguments q₁ q₂ q₄ key description defaultValue ++ ')' :: after)
            [{ key := unescapeAll key
               description := some (unescapeAll description)
               type := "string".toList
               defaultValue := some (.str (unescapeAll defaultValue)) }] = .ok r := by
      intro r
      rw [extractFromAICallsFuel, hfirst]
      simp only [scanCall_written hq₁ hq₂ hq₄, parseArguments_written jsonParse hq₁ hq₂ hq₄,
        List.nil_append]
    rw [hturn, and_iff_right hbefore]
    constructor
    · intro h
      have hnone :
    ¬HasFromAI (writtenArguments q₁ q₂ q₄ key description defaultValue ++ ')' :: after) :=
        fun hfound => by
          have hlt := length_lt_of_extract h hfound
          simp at hlt
      rw [extractFromAICallsFuel, execPattern_eq_none_iff.2 hnone] at h
      refine ⟨hnone, ?_⟩
      simpa using h
    · rintro ⟨hnone, hkey, hdescription, hdefault⟩
      rw [extractFromAICallsFuel, execPattern_eq_none_iff.2 hnone, hkey, hdescription, hdefault]

theorem extractFromAICalls_iff_plain :
    ReadsBack (fun _ => none) '\'' '"' '\x60' "key".toList "a, (b)".toList "it's".toList "= ".toList [] ↔
      (∀ s ∈ ["= ".toList, "key".toList, "a, (b)".toList, "it's".toList, []], ¬HasFromAI s) ∧
      ∀ s ∈ ["key".toList, "a, (b)".toList, "it's".toList], ∀ c ∈ unescapedChars, ¬['\\', c] <:+: s :=
  extractFromAICalls_iff _ rfl rfl rfl _ _ _ _ _

/-- Of two backslashes one is read back, and a string with the start of a call is searched for it. -/
theorem extractFromAICalls_backslashes :
    extractFromAICalls (fun _ => none) (fromAICall '"' '"' '"' ['k'] ['\\', '\\'] ['v']) =
      .ok [⟨['k'], some ['\\'], "string".toList, some (.str ['v'])⟩] ∧
    ¬ReadsBack (fun _ => none) '"' '"' '"' ['k'] ['\\', '\\'] ['v'] [] [] ∧
    ¬ReadsBack (fun _ => none) '"' '"' '"' ['k'] ['d'] "$fromAI(".toList [] [] := by
  unfold ReadsBack
  exact ⟨by decide, by decide, by decide⟩

end N8n
