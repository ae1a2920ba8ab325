import N8n.Expressions.ExpressionParser

/-!
# Splitting and joining undo each other

Escaping and unescaping both act on one occurrence per chunk, and the scanner stops at the end of
the template even when a chunk is open.

* `joinExpression_splitExpression_iff`: the templates that come back from their chunks;
* `splitExpression_joinExpression_iff`: the chunks that come back from their template.
-/

namespace N8n

theorem replaceFirst_of_prefix {pattern replacement r : List Char} {c : Char} :
    replaceFirst (c :: pattern) replacement (c :: pattern ++ r) = replacement ++ r := by
  have hp : c :: pattern <+: c :: (pattern ++ r) := ⟨r, rfl⟩
  rw [List.cons_append, replaceFirst, if_pos hp, List.length_cons, List.drop_succ_cons,
    List.drop_left]

variable {l c : List Char}

theorem replaceFirst_cons {pattern replacement : List Char} {c : Char} (h : ¬ pattern <+: c :: l) :
    replaceFirst pattern replacement (c :: l) = c :: replaceFirst pattern replacement l := by
  rw [replaceFirst, if_neg h]

theorem escapeCode_escaped (l : List Char) :
    escapeCode ('\\' :: '}' :: '}' :: l) = '}' :: '}' :: l :=
  replaceFirst_of_prefix

theorem escapeTmplExpression_pair (l : List Char) :
    escapeTmplExpression ('}' :: '}' :: l) = '\\' :: '}' :: '}' :: l :=
  replaceFirst_of_prefix

/-! ### Joining what was split -/

/-- The first `\}}` of a code section, if there is one, does not directly follow a `}`. -/
def escapeApart : List Char → Bool
  | [] => true
  | c :: l =>
    if ['\\', '}', '}'] <+: c :: l then true
    else if ['}', '\\', '}', '}'] <+: c :: l then false
    else escapeApart l

/-- The templates whose last section does not stop at a bracket, and whose code sections keep
their first `\}}` apart from a `}`. -/
inductive Rejoinable : List Char → Prop
  | empty : Rejoinable []
  | text {s : List Char} (hs : cut '\\' '{' s = none) (he : stopsEscaped '\\' '{' s = false) :
    Rejoinable s
  | unclosed {s t c : List Char} (hs : cut '\\' '{' s = some (t, c)) (hc : cut '\\' '}' c = none)
    (he : stopsEscaped '\\' '}' c = false) (ha : escapeApart c) : Rejoinable s
  | code {s t r c r' : List Char} (hs : cut '\\' '{' s = some (t, r))
    (hc : cut '\\' '}' r = some (c, r')) (ha : escapeApart c) (hr : Rejoinable r') : Rejoinable s

/-- A code section starts with `}` after unescaping only if it did before, or starts escaped. -/
theorem escapeCode_eq_cons {m : List Char} (h : escapeCode l = '}' :: m) :
    (∃ m', l = '}' :: m') ∨ ['\\', '}', '}'] <+: l := by
  cases l with
  | nil => cases h
  | cons c l =>
    by_cases hp : ['\\', '}', '}'] <+: c :: l
    · exact Or.inr hp
    · rw [escapeCode, replaceFirst_cons hp] at h
      exact Or.inl ⟨l, by rw [(List.cons.inj h).1]⟩

/-- **Escaping undoes unescaping** exactly on the sections that keep their first escape apart, and
never changes their length. -/
theorem escapeTmplExpression_escapeCode (h : cut '\\' '}' c = none) :
    (escapeTmplExpression (escapeCode c)).length = c.length ∧
      (escapeTmplExpression (escapeCode c) = c ↔ escapeApart c) := by
  induction c with
  | nil => exact ⟨rfl, by simp [escapeApart, escapeCode, escapeTmplExpression, replaceFirst]⟩
  | cons x l ih =>
    by_cases he : ['\\', '}', '}'] <+: x :: l
    · obtain ⟨r, hr⟩ := escaped_prefix_iff.1 he
      rw [escapeApart, if_pos he, hr, escapeCode_escaped, escapeTmplExpression_pair]
      exact ⟨rfl, by simp⟩
    have hb : ¬ ['}', '}'] <+: x :: l := by
      intro hb
      rw [cut, if_neg he, if_pos hb] at h
      cases h
    rw [cut_cons he hb, Option.map_eq_none_iff] at h
    rw [escapeApart, if_neg he, escapeCode, replaceFirst_cons he, ← escapeCode]
    by_cases ha : ['}', '\\', '}', '}'] <+: x :: l
    · obtain ⟨r, hr⟩ := ha
      obtain ⟨rfl, rfl⟩ := List.cons.inj hr
      rw [if_pos ⟨r, rfl⟩]
      change (escapeTmplExpression ('}' :: escapeCode ('\\' :: '}' :: '}' :: r))).length = _ ∧
        (escapeTmplExpression ('}' :: escapeCode ('\\' :: '}' :: '}' :: r)) = _ ↔ _)
      rw [escapeCode_escaped, escapeTmplExpression_pair]
      exact ⟨rfl, by simp⟩
    · obtain ⟨hlen, hiff⟩ := ih h
      have hp : ¬ ['}', '}'] <+: x :: escapeCode l := by
        rintro ⟨r, hr⟩
        obtain ⟨rfl, hr'⟩ := List.cons.inj hr
        rcases escapeCode_eq_cons hr'.symm with ⟨m, rfl⟩ | ⟨m, rfl⟩
        · exact hb ⟨m, rfl⟩
        · exact ha ⟨m, rfl⟩
      rw [if_neg ha, escapeTmplExpression, replaceFirst_cons hp, ← escapeTmplExpression]
      exact ⟨by rw [List.length_cons, List.length_cons, hlen], by rw [List.cons_inj_right, hiff]⟩

theorem rejoinable_iff {s : List Char} :
    Rejoinable s ↔
      match cut '\\' '{' s with
      | none => s = [] ∨ stopsEscaped '\\' '{' s = false
      | some (_, r) =>
        match cut '\\' '}' r with
        | none => stopsEscaped '\\' '}' r = false ∧ escapeApart r
        | some (c, r') => escapeApart c ∧ Rejoinable r' := by
  constructor
  · rintro (_ | ⟨hs, he⟩ | ⟨hs, hc, he, ha⟩ | ⟨hs, hc, ha, hr⟩)
    · rw [cut_nil]
      exact Or.inl rfl
    · rw [hs]
      exact Or.inr he
    · simp only [hs, hc]
      exact ⟨he, ha⟩
    · simp only [hs, hc]
      exact ⟨ha, hr⟩
  · intro h
    cases hs : cut '\\' '{' s with
    | none =>
      rw [hs] at h
      rcases h with rfl | he
      · exact Rejoinable.empty
      · exact Rejoinable.text hs he
    | some p =>
      cases hc : cut '\\' '}' p.2 with
      | none =>
        simp only [hs, hc] at h
        exact Rejoinable.unclosed hs hc h.1 h.2
      | some q =>
        simp only [hs, hc] at h
        exact Rejoinable.code hs hc h.1 h.2

/-- **A template is joined back from its chunks** exactly when it does not stop at a bracket that
is still open and no code section has its first `\}}` right after a `}`. -/
theorem joinExpression_splitExpression_iff (s : List Char) :
    joinExpression (splitExpression s) = s ↔ Rejoinable s := by
  unfold splitExpression
  induction hn : s.length using Nat.strong_induction_on generalizing s with
  | _ n ih =>
  subst hn
  rw [splitLoop_eq]
  cases hs : cut '\\' '{' s with
  | none =>
    simp only [rejoinable_iff, SearchingFor.bracket, hs]
    by_cases he : stopsEscaped '\\' '{' s = true
    · simp [he, joinExpression, eq_comm]
    · simp [he, joinExpression, joinChunk, SearchingFor.chunk]
  | some p =>
    obtain ⟨t, r⟩ := p
    have hst : s = t ++ '{' :: '{' :: r := cut_eq_append hs
    have hcut : joinExpression (splitLoop .closing [] r) = '{' :: '{' :: r ↔ Rejoinable s := by
      rw [splitLoop_eq]
      cases hc : cut '\\' '}' r with
      | none =>
        obtain ⟨-, hiff⟩ := escapeTmplExpression_escapeCode hc
        simp only [rejoinable_iff, SearchingFor.bracket, hs, hc]
        by_cases he : stopsEscaped '\\' '}' r = true
        · simp [he, joinExpression]
        · simp [he, joinExpression, joinChunk, SearchingFor.chunk, hiff]
      | some q =>
        obtain ⟨c, r'⟩ := q
        obtain ⟨hlen, hiff⟩ := escapeTmplExpression_escapeCode (cut_left hc)
        have hlt : r'.length < s.length := (length_lt_of_cut hc).trans (length_lt_of_cut hs)
        have hjoin : joinExpression (.code (escapeCode c) true :: splitLoop .opening [] r') =
            '{' :: '{' :: (escapeTmplExpression (escapeCode c) ++ '}' :: '}' ::
              joinExpression (splitLoop .opening [] r')) := by
          simp [joinExpression, joinChunk]
        simp only [rejoinable_iff (s := s), SearchingFor.bracket, SearchingFor.chunk,
          SearchingFor.next, hs, hc, List.nil_append]
        rw [hjoin, cut_eq_append hc, List.cons_inj_right, List.cons_inj_right, ← ih _ hlt r' rfl]
        constructor
        · intro h
          obtain ⟨h₁, h₂⟩ := List.append_inj h hlen
          rw [List.cons_inj_right, List.cons_inj_right] at h₂
          exact ⟨hiff.1 h₁, h₂⟩
        · rintro ⟨ha, hr⟩
          rw [hiff.2 ha, hr]
    have hjoin : joinExpression (.text t :: splitLoop .closing [] r) =
        t ++ joinExpression (splitLoop .closing [] r) := rfl
    simp only [SearchingFor.bracket, SearchingFor.chunk, SearchingFor.next, hs, List.nil_append]
    rw [← hcut, hjoin]
    constructor
    · intro h
      exact List.append_cancel_left (h.trans hst)
    · intro h
      rw [h, ← hst]

/-- A template that stops at an opening bracket loses it. -/
theorem joinExpression_splitExpression_opening :
    joinExpression (splitExpression ['{', '{']) ≠ ['{', '{'] := by
  simp [splitExpression, splitLoop, execBracket, SearchingFor.bracket, SearchingFor.next,
    SearchingFor.chunk, joinExpression, joinChunk]

/-! ### Splitting what was joined -/

/-- The texts of the code chunks. -/
def codeTexts : List ExpressionChunk → List (List Char)
  | [] => []
  | .text _ :: parts => codeTexts parts
  | .code text _ :: parts => text :: codeTexts parts

/-- Text and closed code in turn, text first: no text chunk has an unescaped `{{` or ends in a
backslash or `{`, and no code chunk ends in a backslash or `}`. -/
def Alternating : List ExpressionChunk → Prop
  | [] => True
  | [.text t] => cut '\\' '{' t = none ∧ EndsPlain '\\' '{' t
  | .text t :: .code c true :: parts =>
    (cut '\\' '{' t = none ∧ EndsPlain '\\' '{' t) ∧ EndsPlain '\\' '}' c ∧ Alternating parts
  | _ => False

/-- Every `}}` of a code text after the first one stands behind a backslash. -/
def LaterEscaped : List Char → Prop
  | [] => True
  | c :: l =>
    if ['}', '}'] <+: c :: l then cut '\\' '}' (l.drop 1) = none else LaterEscaped l

theorem laterEscaped_pair (l : List Char) :
    LaterEscaped ('}' :: '}' :: l) ↔ cut '\\' '}' l = none := by
  rw [LaterEscaped, if_pos ⟨l, rfl⟩]
  rfl

theorem laterEscaped_cons {c : Char} (h : ¬ ['}', '}'] <+: c :: l) :
    LaterEscaped (c :: l) ↔ LaterEscaped l := by
  rw [LaterEscaped, if_neg h]

theorem escapeTmplExpression_cons {c : Char} (h : ¬ ['}', '}'] <+: c :: l) :
    escapeTmplExpression (c :: l) = c :: escapeTmplExpression l :=
  replaceFirst_cons h

/-- An escaped code text never starts with `}}`. -/
theorem not_prefix_escapeTmplExpression (l : List Char) :
    ¬ ['}', '}'] <+: escapeTmplExpression l := by
  cases l with
  | nil => simp [escapeTmplExpression, replaceFirst]
  | cons x l =>
    by_cases hp : ['}', '}'] <+: x :: l
    · obtain ⟨r, hr⟩ := pair_prefix_iff.1 hp
      rw [hr, escapeTmplExpression_pair]
      simp
    · rw [escapeTmplExpression_cons hp]
      rintro ⟨r, hr⟩
      obtain ⟨rfl, hr'⟩ := List.cons.inj hr
      cases l with
      | nil => cases hr'
      | cons y l =>
        by_cases hp' : ['}', '}'] <+: y :: l
        · obtain ⟨r', hr''⟩ := pair_prefix_iff.1 hp'
          rw [hr'', escapeTmplExpression_pair] at hr'
          simp at hr'
        · rw [escapeTmplExpression_cons hp'] at hr'
          obtain ⟨rfl, -⟩ := List.cons.inj hr'
          exact hp ⟨l, rfl⟩

/-- Behind a letter, an escaped code text is neither an escaped bracket nor a bracket, unless it
starts with the escape just written. -/
theorem not_escaped_prefix_escapeTmplExpression {x : Char} :
    ¬ ['\\', '}', '}'] <+: x :: escapeTmplExpression l := by
  rintro ⟨r, hr⟩
  obtain ⟨rfl, hr'⟩ := List.cons.inj hr
  exact not_prefix_escapeTmplExpression l ⟨r, hr'⟩

theorem getLast_escapeTmplExpression (h : EndsPlain '\\' '}' c) :
    (escapeTmplExpression c).getLast? = c.getLast? := by
  induction c with
  | nil => rfl
  | cons x l ih =>
    by_cases hp : ['}', '}'] <+: x :: l
    · obtain ⟨r, hr⟩ := pair_prefix_iff.1 hp
      rw [hr, escapeTmplExpression_pair, List.getLast?_cons_cons]
    · rw [escapeTmplExpression_cons hp, List.getLast?_cons, List.getLast?_cons, ih h.of_cons]

theorem endsPlain_escapeTmplExpression (h : EndsPlain '\\' '}' c) :
    EndsPlain '\\' '}' (escapeTmplExpression c) := by
  intro x hx
  rw [getLast_escapeTmplExpression h] at hx
  exact h x hx

/-- A code text whose later brackets are escaped goes through escaping and scanning whole. -/
theorem cut_escapeTmplExpression (h : LaterEscaped c) :
    cut '\\' '}' (escapeTmplExpression c) = none ∧ escapeCode (escapeTmplExpression c) = c := by
  induction c with
  | nil => simp [escapeTmplExpression, escapeCode, replaceFirst]
  | cons x l ih =>
    by_cases hp : ['}', '}'] <+: x :: l
    · obtain ⟨r, hr⟩ := pair_prefix_iff.1 hp
      rw [hr, laterEscaped_pair] at h
      rw [hr, escapeTmplExpression_pair, cut_escaped, h, escapeCode_escaped]
      exact ⟨rfl, rfl⟩
    · obtain ⟨hc, hs⟩ := ih ((laterEscaped_cons hp).1 h)
      have hpair := not_prefix_escapeTmplExpression (x :: l)
      have hesc := not_escaped_prefix_escapeTmplExpression (x := x) (l := l)
      rw [escapeTmplExpression_cons hp] at hpair ⊢
      refine ⟨by rw [cut_cons hesc hpair, hc]; rfl, ?_⟩
      rw [escapeCode, replaceFirst_cons hesc, ← escapeCode, hs]

/-- A code text with a later bracket bare is cut short by the scanner, whatever follows it. -/
theorem cut_escapeTmplExpression_short (hend : EndsPlain '\\' '}' c)
    (h : ¬ LaterEscaped c) (R : List Char) :
    ∃ t r, cut '\\' '}' (escapeTmplExpression c ++ R) = some (t, r) ∧
      (escapeCode t).length < c.length := by
  induction c with
  | nil => exact absurd trivial h
  | cons x l ih =>
    by_cases hp : ['}', '}'] <+: x :: l
    · obtain ⟨r, hr⟩ := pair_prefix_iff.1 hp
      obtain ⟨rfl, rfl⟩ := List.cons.inj hr
      rw [laterEscaped_pair, ← ne_eq, Option.ne_none_iff_exists'] at h
      obtain ⟨⟨t, s⟩, hc⟩ := h
      refine ⟨'\\' :: '}' :: '}' :: t, s ++ R, ?_, ?_⟩
      · rw [escapeTmplExpression_pair]
        change cut '\\' '}' ('\\' :: '}' :: '}' :: (r ++ R)) = _
        rw [cut_escaped, cut_append_right (by decide) R hc]
        rfl
      · rw [escapeCode_escaped, cut_eq_append hc]
        simp only [List.length_cons, List.length_append]
        omega
    · rw [laterEscaped_cons hp] at h
      obtain ⟨t, s, hc, hlt⟩ := ih hend.of_cons h
      have hend' := endsPlain_escapeTmplExpression hend
      have hpair := not_prefix_escapeTmplExpression (x :: l)
      have hesc := not_escaped_prefix_escapeTmplExpression (x := x) (l := l)
      rw [escapeTmplExpression_cons hp] at hpair hend' ⊢
      have hpair' := mt (hend'.pair_prefix (r := R)).1 hpair
      have hesc' := mt (hend'.escaped_prefix (r := R)).1 hesc
      refine ⟨x :: t, s, by rw [List.cons_append, cut_cons hesc' hpair', hc]; rfl, ?_⟩
      have hpre : x :: t <+: x :: (escapeTmplExpression l ++ R) :=
        ⟨'}' :: '}' :: s, by rw [cut_eq_append hc]; rfl⟩
      rw [escapeCode, replaceFirst_cons fun hx => hesc' (hx.trans hpre), ← escapeCode,
        List.length_cons, List.length_cons]
      omega

theorem joinExpression_cons (part : ExpressionChunk) (parts : List ExpressionChunk) :
    joinExpression (part :: parts) = joinChunk part ++ joinExpression parts := rfl

/-- **The code of joined chunks is split off again** exactly when every `}}` of a code chunk after
its first one is already escaped. -/
theorem splitExpression_joinExpression_iff (parts : List ExpressionChunk) (h : Alternating parts) :
    codeTexts (splitExpression (joinExpression parts)) = codeTexts parts ↔
      ∀ c ∈ codeTexts parts, LaterEscaped c := by
  unfold splitExpression
  match parts, h with
  | [], _ => simp [joinExpression, splitLoop, codeTexts]
  | [.text t], ⟨ht, _⟩ =>
    rw [splitLoop_eq]
    have hj : joinExpression [.text t] = t := by simp [joinExpression, joinChunk]
    by_cases he : stopsEscaped '\\' '{' t = true
    · simp [hj, SearchingFor.bracket, ht, he, codeTexts]
    · simp [hj, SearchingFor.bracket, ht, he, codeTexts, SearchingFor.chunk]
  | .text t :: .code c true :: parts, ⟨⟨ht, hte⟩, hce, hparts⟩ =>
    have hj : joinExpression (.text t :: .code c true :: parts) =
        t ++ '{' :: '{' :: (escapeTmplExpression c ++ '}' :: '}' :: joinExpression parts) := by
      simp [joinExpression_cons, joinChunk]
    have ih := splitExpression_joinExpression_iff parts hparts
    rw [splitLoop_eq, hj]
    simp only [SearchingFor.bracket, SearchingFor.next, cut_append (by decide) _ ht hte]
    rw [splitLoop_eq]
    by_cases hl : LaterEscaped c
    · obtain ⟨hc, hs⟩ := cut_escapeTmplExpression hl
      have hcut := cut_append (by decide) (joinExpression parts) hc (endsPlain_escapeTmplExpression hce)
      simp only [SearchingFor.bracket, SearchingFor.next, SearchingFor.chunk, hcut, codeTexts,
        List.nil_append, hs, List.cons_inj_right, List.forall_mem_cons, hl, true_and]
      exact ih
    · obtain ⟨u, r, hcut, hlt⟩ :=
        cut_escapeTmplExpression_short hce hl ('}' :: '}' :: joinExpression parts)
      simp only [SearchingFor.bracket, SearchingFor.next, SearchingFor.chunk, hcut, codeTexts,
        List.nil_append, List.forall_mem_cons, hl, false_and, iff_false]
      intro heq
      rw [(List.cons.inj heq).1] at hlt
      exact lt_irrefl _ hlt

theorem splitExpression_joinExpression_single :
    codeTexts (splitExpression (joinExpression [.text [], .code ['a', '}', '}', 'b'] true])) =
      [['a', '}', '}', 'b']] :=
  (splitExpression_joinExpression_iff [.text [], .code ['a', '}', '}', 'b'] true]
    ⟨⟨cut_nil, by simp [EndsPlain]⟩, by simp [EndsPlain], trivial⟩).2
    (by simp [codeTexts, LaterEscaped, cut])

/-- The second of two nested object literals cuts the code short. -/
theorem splitExpression_joinExpression_objects :
    codeTexts (splitExpression (joinExpression
      [.text [], .code ['{', '{', '}', '}', ',', '{', '{', '}', '}', ' '] true])) ≠
      [['{', '{', '}', '}', ',', '{', '{', '}', '}', ' ']] := by
  simp [splitExpression, splitLoop, execBracket, SearchingFor.bracket, SearchingFor.next,
    SearchingFor.chunk, joinExpression, joinChunk, escapeTmplExpression, replaceFirst, codeTexts,
    escapeCode]

end N8n
