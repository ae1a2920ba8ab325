import N8n.Expressions.FromAi
import N8n.Expressions.SplitJoin

/-!
# What the `$fromAI` gate lets through

The gate looks at characters: it checks what stands outside quotes letter by letter, and leaves the
inside of quotes alone.  The template splitter knows no quotes, and letters make up more than
literals.

* `Accepted`: the arguments that the walk of the gate runs through;
* `Accepted.literalItems`: accepted arguments are literals when their words are;
* `isFromAIOnlyExpression_sound_iff`: when an expression that passes the gate is one call on
  literals.
-/

namespace N8n

/-! ### White space -/

theorem exists_trim (l : List Char) : ∃ w₁ w₂, Blank w₁ ∧ Blank w₂ ∧ l = w₁ ++ trim l ++ w₂ := by
  refine ⟨l.takeWhile isSpace, (l.dropWhile isSpace).rtakeWhile isSpace, ?_, ?_, ?_⟩
  · exact fun c hc => List.mem_takeWhile_imp hc
  · exact fun c hc => List.mem_rtakeWhile_imp hc
  · rw [trim, List.append_assoc, List.rdropWhile_append_rtakeWhile, List.takeWhile_append_dropWhile]

variable {l w str : List Char} {t : ArgToken}

theorem blank_of_trim (h : trim l = []) : Blank l := by
  obtain ⟨w₁, w₂, h₁, h₂, hl⟩ := exists_trim l
  rw [h, List.append_nil] at hl
  rw [hl]
  exact fun c hc => (List.mem_append.1 hc).elim (h₁ c) (h₂ c)

theorem getLast_trim {c : Char} (h : c ∈ (trim l).getLast?) : ¬ isSpace c := by
  have hne : trim l ≠ [] := by
    intro hnil
    rw [hnil] at h
    cases h
  rw [List.getLast?_eq_some_getLast hne, Option.mem_some] at h
  exact h ▸ List.rdropWhile_last_not isSpace (l.dropWhile isSpace) hne

theorem Blank.not_mem (h : Blank w) {c : Char} (hc : isSpace c = false) : c ∉ w := by
  intro hm
  rw [h c hm] at hc
  cases hc

theorem not_isSpace_of_isQuote {c : Char} (h : isQuote c) : ¬ isSpace c := by
  rw [isQuote, decide_eq_true_iff, List.mem_cons, List.mem_cons, List.mem_singleton] at h
  rcases h with rfl | rfl | rfl <;> decide

theorem Blank.cons {c : Char} {w : List Char} (hc : isSpace c) (h : Blank w) : Blank (c :: w) :=
  fun d hd => (List.mem_cons.1 hd).elim (fun hd => hd ▸ hc) (h d)

theorem Blank.of_cons {c : Char} (h : Blank (c :: w)) : isSpace c ∧ Blank w :=
  ⟨h c List.mem_cons_self, fun d hd => h d (List.mem_cons_of_mem c hd)⟩

/-! ### The walk of the gate -/

/-- The arguments that the walk runs through, from inside a string or outside. -/
inductive Accepted : Option Char → List Char → Prop
  | nil : Accepted none []
  | opening {q : Char} {l : List Char} (hq : isQuote q) (h : Accepted (some q) l) :
    Accepted none (q :: l)
  | allowed {c : Char} {l : List Char} (hq : ¬ isQuote c) (ha : isAllowed c)
    (h : Accepted none l) : Accepted none (c :: l)
  | escaped {q : Char} (c : Char) {l : List Char} (h : Accepted (some q) l) :
    Accepted (some q) ('\\' :: c :: l)
  | inside {q c : Char} {l : List Char} (hq : c ≠ q) (he : c ≠ '\\')
    (hi : ¬ (q = '\x60' ∧ c = '$' ∧ l.head? = some '{')) (h : Accepted (some q) l) :
    Accepted (some q) (c :: l)
  | closing {q : Char} {l : List Char} (h : Accepted none l) : Accepted (some q) (q :: l)

theorem head?_append_of_eq {α : Type} {l r : List α} {a : α} (h : l.head? = some a) :
    (l ++ r).head? = some a := by
  cases l with
  | nil => cases h
  | cons b l => exact h

/-- The walk stops at the first `)` outside quotes, and has accepted what stands before it. -/
theorem accepted_of_walk {q last : Option Char} {s rem : List Char}
    (h : walkArguments q last s = some rem) : ∃ args, s = args ++ ')' :: rem ∧ Accepted q args := by
  fun_induction walkArguments q last s with
  | case1 => cases h
  | case2 last q c rest ih =>
    obtain ⟨args, rfl, ha⟩ := ih h
    exact ⟨'\\' :: c :: args, rfl, Accepted.escaped c ha⟩
  | case3 => cases h
  | case4 last q rest hx hc ih =>
    obtain ⟨args, rfl, ha⟩ := ih h
    exact ⟨q :: args, rfl, Accepted.closing ha⟩
  | case5 last q c rest hx hi hc ih =>
    have he : c ≠ '\\' := by
      rintro rfl
      cases rest with
      | nil => cases h
      | cons d rest => exact hx d rest rfl rfl
    obtain ⟨args, rfl, ha⟩ := ih h
    refine ⟨c :: args, rfl, Accepted.inside hc he (fun hi' => hi ?_) ha⟩
    exact ⟨hi'.1, hi'.2.1, head?_append_of_eq hi'.2.2⟩
  | case6 => cases h
  | case7 last c rest hq hl ih =>
    obtain ⟨args, rfl, ha⟩ := ih h
    exact ⟨c :: args, rfl, Accepted.opening hq ha⟩
  | case8 last rest hq => exact ⟨[], by cases h; rfl, Accepted.nil⟩
  | case9 last c rest hq hp ha ih =>
    obtain ⟨args, rfl, hargs⟩ := ih h
    exact ⟨c :: args, rfl, Accepted.allowed hq ha hargs⟩
  | case10 => cases h

/-- A string that the walk ran through is closed and has no interpolation. -/
theorem Accepted.quoted {q : Char} (hq : isQuote q) {l : List Char} (h : Accepted (some q) l) :
    ∃ body, QuotedBody q body ∧ l = body ++ q :: skipQuoted q l ∧
      Accepted none (skipQuoted q l) := by
  have hne : q ≠ '\\' := by
    rintro rfl
    exact absurd hq (by decide)
  generalize hs : some q = s at h
  induction h with
  | nil | opening | allowed => cases hs
  | escaped c h ih =>
    cases hs
    obtain ⟨body, hb, hl, ha⟩ := ih rfl
    refine ⟨'\\' :: c :: body, QuotedBody.escaped c hb, ?_, ?_⟩
    · rw [skipQuoted, List.cons_append, List.cons_append, ← hl]
    · rw [skipQuoted]
      exact ha
  | inside hc he hi h ih =>
    cases hs
    obtain ⟨body, hb, hl, ha⟩ := ih rfl
    rw [skipQuoted, if_neg hc]
    · refine ⟨_ :: body, QuotedBody.char hc he (fun hi' => hi ?_) hb, ?_, ha⟩
      · rw [hl]
        exact ⟨hi'.1, hi'.2.1, head?_append_of_eq hi'.2.2⟩
      · rw [List.cons_append, ← hl]
    · exact fun _ _ hc' _ => he hc'
  | closing h ih =>
    cases hs
    rw [skipQuoted, if_pos rfl]
    · exact ⟨[], QuotedBody.nil, rfl, h⟩
    · exact fun _ _ hc' _ => hne hc'

theorem Accepted.dropWhile (h : Accepted none l) : Accepted none (l.dropWhile isWordChar) := by
  generalize hs : none = s at h
  induction h with
  | nil => exact Accepted.nil
  | @opening q l hq h ih =>
    have hw : isWordChar q = false := by simp [isWordChar, hq]
    rw [List.dropWhile_cons, hw]
    exact Accepted.opening hq h
  | allowed hq ha h ih =>
    rw [List.dropWhile_cons]
    split
    · exact ih rfl
    · exact Accepted.allowed hq ha h
  | escaped | inside | closing => cases hs

/-! ### Tokens and literals -/

/-- The text that a token stands for. -/
def ArgToken.Spells : ArgToken → List Char → Prop
  | quoted, l => ∃ q body, isQuote q ∧ QuotedBody q body ∧ l = q :: (body ++ [q])
  | comma, l => l = [',']
  | word w, l => l = w

theorem ArgToken.Spells.literal (h : t.Spells l) (ht : t.isLiteral) : Literal l := by
  cases t with
  | quoted =>
    obtain ⟨q, body, hq, hb, rfl⟩ := h
    exact Literal.quoted hq hb
  | comma => cases ht
  | word w =>
    cases h
    exact Literal.word ht

/-- The first token of accepted arguments, and what follows it. -/
theorem Accepted.argTokens_eq_cons {ts : List ArgToken} (h : Accepted none l)
    (ht : argTokens l = t :: ts) :
    ∃ w lit l', Blank w ∧ t.Spells lit ∧ l = w ++ lit ++ l' ∧ argTokens l' = ts ∧
      Accepted none l' := by
  induction l with
  | nil => rw [argTokens] at ht; cases ht
  | cons c l ih =>
    rw [argTokens] at ht
    split_ifs at ht with hs hc hq
    · have hl : Accepted none l := by
        cases h with
        | opening hq h => exact absurd hs (not_isSpace_of_isQuote hq)
        | allowed _ _ h => exact h
      obtain ⟨w, lit, l', hw, hlit, rfl, htail, ha⟩ := ih hl ht
      exact ⟨c :: w, lit, l', hw.cons hs, hlit, rfl, htail, ha⟩
    · obtain ⟨rfl, rfl⟩ := List.cons.inj ht
      subst hc
      have hl : Accepted none l := by
        cases h with
        | opening hq h => exact absurd hq (by decide)
        | allowed _ _ h => exact h
      exact ⟨[], [','], l, by simp [Blank], rfl, rfl, rfl, hl⟩
    · obtain ⟨rfl, rfl⟩ := List.cons.inj ht
      have hl : Accepted (some c) l := by
        cases h with
        | opening _ h => exact h
        | allowed hn => exact absurd hq hn
      obtain ⟨body, hb, hl', ha⟩ := hl.quoted hq
      refine ⟨[], c :: (body ++ [c]), skipQuoted c l, by simp [Blank], ⟨c, body, hq, hb, rfl⟩, ?_,
        rfl, ha⟩
      conv_lhs => rw [hl']
      simp
    · obtain ⟨rfl, rfl⟩ := List.cons.inj ht
      have hl : Accepted none l := by
        cases h with
        | opening hn h => exact absurd hn hq
        | allowed _ _ h => exact h
      refine ⟨[], c :: l.takeWhile isWordChar, l.dropWhile isWordChar, by simp [Blank], rfl, ?_,
        rfl, hl.dropWhile⟩
      simp

theorem Accepted.blank (h : Accepted none l) (ht : argTokens l = []) : Blank l := by
  induction l with
  | nil => simp [Blank]
  | cons c l ih =>
    rw [argTokens] at ht
    split_ifs at ht with hs
    cases h with
    | opening hq h => exact absurd hs (not_isSpace_of_isQuote hq)
    | allowed _ _ h => exact (ih h ht).cons hs

/-- Accepted arguments whose tokens are literals and commas in turn are literals with commas
between them. -/
theorem Accepted.literalItems (h : Accepted none l) (ha : alternates (argTokens l)) : LiteralItems l := by
  generalize ht : argTokens l = ts at ha
  fun_induction alternates ts generalizing l with
  | case1 => cases ha
  | case2 t =>
    obtain ⟨w, lit, l', hw, hlit, rfl, htail, hl'⟩ := h.argTokens_eq_cons ht
    exact LiteralItems.last ⟨w, lit, l', hw, hlit.literal ha, hl'.blank htail, rfl⟩
  | case3 t ts ih =>
    obtain ⟨w, lit, l', hw, hlit, rfl, htail, hl'⟩ := h.argTokens_eq_cons ht
    obtain ⟨w', lit', l'', hw', hlit', rfl, htail', hl''⟩ := hl'.argTokens_eq_cons htail
    cases hlit'
    rw [Bool.and_eq_true] at ha
    have hitem : LiteralItem (w ++ lit ++ w') := ⟨w, lit, w', hw, hlit.literal ha.1, hw', rfl⟩
    have := LiteralItems.more hitem (ih hl'' htail' ha.2)
    simpa using this
  | case4 => cases ha

theorem argTokens_blank_append (hw : Blank w) (l : List Char) :
    argTokens (w ++ l) = argTokens l := by
  induction w with
  | nil => rfl
  | cons c w ih => rw [List.cons_append, argTokens, if_pos hw.of_cons.1, ih hw.of_cons.2]

theorem skipQuoted_append {q : Char} (hq : isQuote q) {body : List Char} (h : QuotedBody q body)
    (l : List Char) : skipQuoted q (body ++ q :: l) = l := by
  have hne : q ≠ '\\' := by
    rintro rfl
    exact absurd hq (by decide)
  induction h with
  | nil =>
    rw [List.nil_append, skipQuoted, if_pos rfl]
    exact fun _ _ hc _ => hne hc
  | escaped c h ih => rw [List.cons_append, List.cons_append, skipQuoted, ih]
  | char hc he hi h ih =>
    rw [List.cons_append, skipQuoted, if_neg hc, ih]
    exact fun _ _ hc' _ => he hc'

/-- What follows a literal in a list of literals does not continue a word. -/
def StopsWord (l : List Char) : Prop := ∀ c ∈ l.head?, isWordChar c = false

theorem argTokens_literal_append {lit : List Char} (h : Literal lit) (hl : StopsWord l) : ∃ t : ArgToken, t.isLiteral ∧ argTokens (lit ++ l) = t :: argTokens l := by
  cases h with
  | @quoted q body hq hb =>
    refine ⟨.quoted, rfl, ?_⟩
    have hc : q ≠ ',' := by
      rintro rfl
      exact absurd hq (by decide)
    have happ : q :: (body ++ [q]) ++ l = q :: (body ++ q :: l) := by simp
    rw [happ, argTokens, if_neg (not_isSpace_of_isQuote hq), if_neg hc, if_pos hq,
      skipQuoted_append hq hb]
  | word h =>
    cases lit with
    | nil => exact absurd h (by decide)
    | cons c w =>
      refine ⟨.word (c :: w), h, ?_⟩
      have hall : ∀ d ∈ c :: w, isWordChar d := by
        rw [isLiteralWord, Bool.and_eq_true, Bool.and_eq_true, List.all_eq_true] at h
        exact h.1.2
      have hc := hall c List.mem_cons_self
      have hw : ∀ d ∈ w, isWordChar d := fun d hd => hall d (List.mem_cons_of_mem c hd)
      simp only [isWordChar, Bool.and_eq_true, Bool.not_eq_true', decide_eq_true_eq] at hc
      have htake : l.takeWhile isWordChar = [] ∧ l.dropWhile isWordChar = l := by
        cases l with
        | nil => exact ⟨rfl, rfl⟩
        | cons d l => simp [hl d rfl]
      rw [List.cons_append, argTokens, hc.1.1, hc.2, if_neg (by simp), if_neg hc.1.2,
        if_neg (by simp), List.takeWhile_append_of_pos hw, List.dropWhile_append_of_pos hw,
        htake.1, htake.2, List.append_nil]

theorem LiteralItem.argTokens_append (h : LiteralItem l) {r : List Char} (hr : StopsWord r) : ∃ t : ArgToken, t.isLiteral ∧ argTokens (l ++ r) = t :: argTokens r := by
  obtain ⟨w₁, lit, w₂, hw₁, hlit, hw₂, rfl⟩ := h
  have hstop : StopsWord (w₂ ++ r) := by
    cases w₂ with
    | nil => exact hr
    | cons c w =>
      intro d hd
      cases hd
      simp [isWordChar, hw₂.of_cons.1]
  obtain ⟨t, ht, htok⟩ := argTokens_literal_append hlit hstop
  refine ⟨t, ht, ?_⟩
  rw [List.append_assoc, List.append_assoc, argTokens_blank_append hw₁, htok,
    argTokens_blank_append hw₂]

theorem LiteralItems.alternates (h : LiteralItems l) : alternates (argTokens l) := by
  induction h with
  | last h =>
    obtain ⟨t, ht, htok⟩ := h.argTokens_append (r := []) (by simp [StopsWord])
    rw [List.append_nil, argTokens] at htok
    rw [htok]
    exact ht
  | @more l ls h hs ih =>
    obtain ⟨t, ht, htok⟩ := h.argTokens_append (r := ',' :: ls) (by
      intro c hc
      cases hc
      decide)
    have hcomma : argTokens (',' :: ls) = .comma :: argTokens ls := by
      rw [argTokens, if_neg (by decide), if_pos rfl]
    rw [htok, hcomma, N8n.alternates, ht, ih]
    rfl

/-- **Accepted arguments are a list of literals** exactly when their words are literals. -/
theorem Accepted.literalList_iff (h : Accepted none l) : LiteralList l ↔ WordsLiteral l := by
  constructor
  · rintro (hb | hl)
    · have hnil := argTokens_blank_append hb []
      rw [List.append_nil] at hnil
      exact Or.inl (by rw [hnil, argTokens])
    · exact Or.inr hl.alternates
  · rintro (hn | ha)
    · exact Or.inl (h.blank hn)
    · exact Or.inr (h.literalItems ha)

/-! ### The gate and the splitter -/

/-- What the gate is for: the template holds at most one code chunk, which is all that stands
between its delimiters, and the arguments of its call are literals. -/
structure CallOnly (expr : List Char) : Prop where
  oneChunk : (codeTexts (splitExpression (template expr))).length ≤ 1
  delimited : ∀ c ∈ codeTexts (splitExpression (template expr)),
    ∃ s, delimited (trim (template expr)) = some s ∧ c = escapeCode s
  literals : LiteralList (callArguments expr)

/-- No bracket of the expression but its delimiters means anything to the splitter: there is no
unescaped `}}` between the delimiters, and no unescaped `{{` in an expression without them. -/
def BracketFree (expr : List Char) : Prop :=
  match delimited (trim (template expr)) with
  | some s => cut '\\' '}' s = none
  | none => cut '\\' '{' (template expr) = none

theorem Blank.cut (h : Blank w) {b : Char} (hb : isSpace b = false) : cut '\\' b w = none :=
  cut_of_not_mem (h.not_mem hb)

theorem Blank.endsPlain (h : Blank w) {b : Char} (hb : isSpace b = false) : EndsPlain '\\' b w := by
  intro c hc
  have hs := h c (List.mem_of_getLast? hc)
  refine ⟨?_, ?_⟩
  · rintro rfl
    exact absurd hs (by decide)
  · rintro rfl
    rw [hb] at hs
    cases hs

/-- The delimiters of a string, put back. -/
theorem delimited_eq_some {s : List Char} (h : delimited str = some s) :
    str = '{' :: '{' :: (s ++ ['}', '}']) := by
  rw [delimited] at h
  split_ifs at h with hd
  obtain ⟨⟨r, rfl⟩, hs⟩ := hd
  have hlen : 2 ≤ r.length := by
    match r, hs with
    | [], hs => exact absurd hs (by decide)
    | [x], hs => simp [List.suffix_cons_iff] at hs
    | x :: y :: r, _ => simp
  obtain ⟨p, rfl⟩ := List.suffix_of_suffix_length_le hs (List.suffix_append ['{', '{'] r) hlen
  cases h
  simp

theorem exists_stripMarker (l : List Char) :
    ∃ p w, Blank w ∧ l = p ++ stripMarker (trim l) ++ w := by
  obtain ⟨w₁, w₂, -, h₂, hl⟩ := exists_trim l
  rw [stripMarker]
  split_ifs with hm
  · obtain ⟨r, hr⟩ := hm
    obtain ⟨w₃, w₄, -, h₄, hr'⟩ := exists_trim r
    refine ⟨w₁ ++ FROM_AI_AUTO_GENERATED_MARKER ++ w₃, w₄ ++ w₂,
      fun c hc => (List.mem_append.1 hc).elim (h₄ c) (h₂ c), ?_⟩
    rw [← hr, List.drop_left]
    conv_lhs => rw [hl, ← hr, hr']
    simp [List.append_assoc]
  · exact ⟨w₁, w₂, h₂, hl⟩

theorem exists_callText_eq_trim (expr : List Char) : ∃ l, callText expr = trim l := by
  have hstrip : ∀ l, ∃ l', stripMarker (trim l) = trim l' := by
    intro l
    rw [stripMarker]
    split_ifs
    · exact ⟨_, rfl⟩
    · exact ⟨l, rfl⟩
  rw [callText]
  cases delimited (trim (template expr)) with
  | some s => exact hstrip s
  | none => exact hstrip _

theorem afterFromAI_eq_some {rest : List Char} (h : afterFromAI str = some rest) :
    ∃ p, str = p ++ '(' :: rest ∧ '(' ∉ p := by
  rw [afterFromAI] at h
  split_ifs at h with hf
  split at h
  · rename_i r hr
    cases h
    refine ⟨str.take 7 ++ (str.drop 7).takeWhile isSpace, ?_, ?_⟩
    · rw [List.append_assoc, ← hr, List.takeWhile_append_dropWhile, List.take_append_drop]
    · rw [List.mem_append, not_or]
      refine ⟨fun hm => ?_, fun hm => ?_⟩
      · have hm' := List.mem_map_of_mem (f := Char.toLower) hm
        rw [hf] at hm'
        exact absurd hm' (by decide)
      · exact absurd (List.mem_takeWhile_imp hm) (by decide)
  · cases h

/-- The call of an expression that passes the gate ends with `)`, and its arguments are accepted. -/
theorem callText_of_gate {expr : List Char} (h : isFromAIOnlyExpression expr) :
    (∃ p, callText expr = p ++ [')']) ∧ Accepted none (callArguments expr) := by
  rw [isFromAIOnlyExpression] at h
  split at h
  · cases h
  · rename_i args hargs
    obtain ⟨p, hp, hnot⟩ := afterFromAI_eq_some hargs
    split at h
    · cases h
    · rename_i rem hrem
      obtain ⟨l, rfl, hacc⟩ := accepted_of_walk hrem
      -- the call is trimmed, so no white space is left behind its `)`
      have hnil : rem = [] := by
        have hb := blank_of_trim (of_decide_eq_true h)
        by_contra hne
        obtain ⟨t, ht⟩ := exists_callText_eq_trim expr
        have hlast : rem.getLast hne ∈ (trim t).getLast? := by
          rw [← ht, hp, List.getLast?_append_of_ne_nil _ (by simp), List.getLast?_cons,
            List.getLast?_append_of_ne_nil _ (by simp), List.getLast?_cons,
            List.getLast?_eq_some_getLast hne]
          simp
        exact getLast_trim hlast (hb _ (List.getLast_mem hne))
      subst hnil
      refine ⟨⟨p ++ '(' :: l, by rw [hp]; simp⟩, ?_⟩
      have hdrop : (p ++ '(' :: (l ++ [')'])).dropWhile (· ≠ '(') = '(' :: (l ++ [')']) := by
        rw [List.dropWhile_append_of_pos (fun c hc => by
          simpa using fun heq : c = '(' => hnot (heq ▸ hc))]
        rfl
      rw [callArguments, hp, hdrop, List.tail_cons, List.dropLast_concat]
      exact hacc

theorem length_escapeCode_le (l : List Char) :
    (escapeCode l).length ≤ l.length ∧ l.length ≤ (escapeCode l).length + 1 := by
  induction l with
  | nil => simp [escapeCode, replaceFirst]
  | cons c l ih =>
    by_cases hp : ['\\', '}', '}'] <+: c :: l
    · obtain ⟨r, hr⟩ := escaped_prefix_iff.1 hp
      rw [hr, escapeCode_escaped]
      simp
    · rw [escapeCode, replaceFirst_cons hp, ← escapeCode, List.length_cons, List.length_cons]
      omega

theorem codeTexts_of_cut_none (h : cut '\\' '{' l = none) :
    codeTexts (splitLoop .opening [] l) = [] := by
  rw [splitLoop_eq]
  by_cases he : stopsEscaped '\\' '{' l = true
  · simp [SearchingFor.bracket, h, he, codeTexts]
  · simp [SearchingFor.bracket, h, he, codeTexts, SearchingFor.chunk]

/-- The code of a delimited template is what stands between the delimiters, or is cut short by the
first unescaped `}}` there. -/
theorem codeTexts_delimited {w₁ s w₂ : List Char} (h₁ : Blank w₁) (h₂ : Blank w₂)
    (hs : EndsPlain '\\' '}' s) :
    ∃ t cs, codeTexts (splitExpression (w₁ ++ '{' :: '{' :: (s ++ '}' :: '}' :: w₂))) =
        escapeCode t :: cs ∧
      (cut '\\' '}' s = none → t = s ∧ cs = []) ∧
      (cut '\\' '}' s ≠ none → (escapeCode t).length < (escapeCode s).length) := by
  have hcut : cut '\\' '{' (w₁ ++ '{' :: '{' :: (s ++ '}' :: '}' :: w₂)) =
      some (w₁, s ++ '}' :: '}' :: w₂) :=
    cut_append (by decide) _ (h₁.cut rfl) (h₁.endsPlain rfl)
  rw [splitExpression, splitLoop_eq]
  simp only [SearchingFor.bracket, hcut, SearchingFor.next, SearchingFor.chunk, codeTexts]
  rw [splitLoop_eq]
  cases hc : cut '\\' '}' s with
  | none =>
    simp only [SearchingFor.bracket, cut_append (by decide) w₂ hc hs, SearchingFor.chunk, codeTexts,
      List.nil_append, SearchingFor.next]
    exact ⟨s, _, rfl, fun _ => ⟨rfl, codeTexts_of_cut_none (h₂.cut rfl)⟩, fun hn => absurd rfl hn⟩
  | some p =>
    obtain ⟨t, r⟩ := p
    simp only [SearchingFor.bracket, cut_append_right (by decide) ('}' :: '}' :: w₂) hc,
      SearchingFor.chunk, codeTexts, List.nil_append]
    refine ⟨t, _, rfl, fun hn => absurd hn (by simp), fun _ => ?_⟩
    have ht := (length_escapeCode_le t).1
    have hs' := (length_escapeCode_le s).2
    rw [cut_eq_append hc] at hs' ⊢
    simp only [List.length_append, List.length_cons] at hs'
    omega

/-- A template whose last character is no brace has code as soon as it has an unescaped `{{`. -/
theorem codeTexts_ne_nil (h : cut '\\' '{' l ≠ none)
    (hl : ∀ c ∈ l.getLast?, c ≠ '{' ∧ c ≠ '}') : codeTexts (splitExpression l) ≠ [] := by
  obtain ⟨⟨t, r⟩, hc⟩ := Option.ne_none_iff_exists'.1 h
  rw [splitExpression, splitLoop_eq]
  simp only [SearchingFor.bracket, hc, SearchingFor.next, SearchingFor.chunk, codeTexts]
  rw [splitLoop_eq]
  cases hr : cut '\\' '}' r with
  | some p => simp [SearchingFor.bracket, hr, SearchingFor.chunk, codeTexts]
  | none =>
    have he : ¬ stopsEscaped '\\' '}' r = true := by
      intro he
      have hlast : l.getLast? = ('{' :: r).getLast? := by
        rw [cut_eq_append hc, List.getLast?_append_of_ne_nil _ (by simp), List.getLast?_cons_cons]
      rw [hlast] at hl
      cases r with
      | nil => exact (hl '{' rfl).1 rfl
      | cons d r =>
        rw [List.getLast?_cons_cons] at hl
        obtain ⟨c, hcl⟩ : ∃ c, c ∈ (d :: r).getLast? := ⟨_, List.getLast?_eq_some_getLast (by simp)⟩
        exact (hl c hcl).2 (getLast_of_stopsEscaped he c hcl)
    simp [SearchingFor.bracket, hr, he, SearchingFor.chunk, codeTexts]

/-- The last character of what an accepted expression was stripped from. -/
theorem getLast_of_callText {expr : List Char} (h : isFromAIOnlyExpression expr)
    (hl : callText expr = stripMarker (trim l)) : ∀ c ∈ l.getLast?, c = ')' ∨ isSpace c := by
  obtain ⟨⟨p, hp⟩, -⟩ := callText_of_gate h
  obtain ⟨p', w, hw, hl'⟩ := exists_stripMarker l
  rw [← hl, hp] at hl'
  intro c hc
  rw [hl'] at hc
  cases w with
  | nil =>
    rw [List.append_nil, ← List.append_assoc, List.getLast?_concat] at hc
    cases hc
    exact Or.inl rfl
  | cons d w =>
    rw [List.getLast?_append_of_ne_nil _ (by simp)] at hc
    exact Or.inr (hw c (List.mem_of_getLast? hc))

/-- **An expression that passes the gate is one call on literals** exactly when none of its inner
brackets means anything to the splitter and its words are literals. -/
theorem isFromAIOnlyExpression_sound_iff (expr : List Char) (h : isFromAIOnlyExpression expr) :
    CallOnly expr ↔ BracketFree expr ∧ WordsLiteral (callArguments expr) := by
  obtain ⟨-, hacc⟩ := callText_of_gate h
  have hsound : (∀ c ∈ codeTexts (splitExpression (template expr)),
      ∃ s, delimited (trim (template expr)) = some s ∧ c = escapeCode s) ∧
      (codeTexts (splitExpression (template expr))).length ≤ 1 ↔ BracketFree expr := by
    rw [BracketFree]
    cases hd : delimited (trim (template expr)) with
    | some s =>
      have hlast := getLast_of_callText h (l := s) (by rw [callText, hd])
      have hs : EndsPlain '\\' '}' s := by
        intro c hc
        rcases hlast c hc with rfl | hsp
        · decide
        · refine ⟨?_, ?_⟩ <;> (rintro rfl; exact absurd hsp (by decide))
      obtain ⟨w₁, w₂, h₁, h₂, ht⟩ := exists_trim (template expr)
      rw [delimited_eq_some hd] at ht
      have ht' : template expr = w₁ ++ '{' :: '{' :: (s ++ '}' :: '}' :: w₂) := by
        rw [ht]
        simp
      obtain ⟨t, cs, hcodes, hnone, hsome⟩ := codeTexts_delimited h₁ h₂ hs
      rw [ht', hcodes]
      constructor
      · rintro ⟨hall, -⟩
        by_contra hc
        obtain ⟨s', hs', heq⟩ := hall _ List.mem_cons_self
        cases hs'
        exact absurd (congrArg List.length heq) (hsome hc).ne
      · intro hc
        obtain ⟨rfl, rfl⟩ := hnone hc
        exact ⟨fun c hc => ⟨t, rfl, List.mem_singleton.1 hc⟩, le_rfl⟩
    | none =>
      have hlast := getLast_of_callText h (l := template expr) (by rw [callText, hd])
      constructor
      · rintro ⟨hall, -⟩
        by_contra hc
        have hne := codeTexts_ne_nil hc fun c hcl => by
          rcases hlast c hcl with rfl | hsp
          · decide
          · refine ⟨?_, ?_⟩ <;> (rintro rfl; exact absurd hsp (by decide))
        obtain ⟨c, hmem⟩ := List.exists_mem_of_ne_nil _ hne
        obtain ⟨s', hs', -⟩ := hall c hmem
        cases hs'
      · intro hc
        have hnil : codeTexts (splitExpression (template expr)) = [] := codeTexts_of_cut_none hc
        rw [hnil]
        exact ⟨by simp, by simp⟩
  constructor
  · rintro ⟨hone, hdel, hlit⟩
    exact ⟨hsound.1 ⟨hdel, hone⟩, hacc.literalList_iff.1 hlit⟩
  · rintro ⟨hfree, hwords⟩
    obtain ⟨hdel, hone⟩ := hsound.2 hfree
    exact ⟨hone, hdel, hacc.literalList_iff.2 hwords⟩

theorem isFromAIOnlyExpression_sound_key : CallOnly "=\x7b\x7b$fromAI('k', 5)\x7d\x7d".toList := by
  refine (isFromAIOnlyExpression_sound_iff _ (by decide +kernel)).2 ⟨?_, ?_⟩
  · have hd : delimited (trim (template "=\x7b\x7b$fromAI('k', 5)\x7d\x7d".toList)) =
        some "$fromAI('k', 5)".toList := by decide +kernel
    rw [BracketFree, hd]
    simp [cut]
  · have ha : callArguments "=\x7b\x7b$fromAI('k', 5)\x7d\x7d".toList = "'k', 5".toList := by
      decide +kernel
    rw [ha]
    refine Or.inr ?_
    simp [argTokens, isSpace, isQuote, skipQuoted, alternates, ArgToken.isLiteral]
    decide

/-- Brackets in a string end the call early and let other code in. -/
theorem isFromAIOnlyExpression_quoted_brackets :
    isFromAIOnlyExpression "=\x7b\x7b$fromAI('\x7d\x7d\x7b\x7bx\x7d\x7d\x7b\x7b')\x7d\x7d".toList ∧
      ¬ CallOnly "=\x7b\x7b$fromAI('\x7d\x7d\x7b\x7bx\x7d\x7d\x7b\x7b')\x7d\x7d".toList := by
  refine ⟨by decide, fun h => ?_⟩
  have hlen : (codeTexts (splitExpression
      (template "=\x7b\x7b$fromAI('\x7d\x7d\x7b\x7bx\x7d\x7d\x7b\x7b')\x7d\x7d".toList))).length = 3 := by
    decide +kernel
  have := h.oneChunk
  omega

end N8n
