import N8n.DataTables.FilteredRows
import N8n.Lib.Glob

/-!
# One pattern for two databases

A `like` condition becomes a `GLOB` pattern on SQLite and a `LIKE` pattern with the escape character
`\` on Postgres.

* `OfPercent`: the texts that a pattern is meant to take;
* `likeHolds`: the texts that a `LIKE` pattern takes;
* `tokens_toSqliteGlobFromPercent`, `patterns_agree`: both databases take those.
-/

namespace N8n

namespace DataTables

/-- A text is of a pattern in which `%` stands for any text and every other character for itself. -/
inductive OfPercent : List Char → List Char → Prop
  | nil : OfPercent [] []
  | any {pattern text : List Char} (skipped : List Char) (h : OfPercent pattern text) :
      OfPercent ('%' :: pattern) (skipped ++ text)
  | char {c : Char} {pattern text : List Char} (hc : c ≠ '%') (h : OfPercent pattern text) :
      OfPercent (c :: pattern) (c :: text)

/-- `text LIKE pattern ESCAPE '\'`. -/
def likeHolds (text pattern : List Char) : Bool :=
  Wildcard.fits (· == ·) (Wildcard.readLike pattern) text

section Percent

variable {pattern text : List Char} {c : Char}

theorem ofPercent_nil_iff : OfPercent [] text ↔ text = [] := by
  constructor
  · rintro ⟨⟩
    rfl
  · rintro rfl
    exact .nil

theorem ofPercent_any_iff :
    OfPercent ('%' :: pattern) text ↔ ∃ u v, u ++ v = text ∧ OfPercent pattern v := by
  constructor
  · intro h
    cases h with
    | any skipped h => exact ⟨skipped, _, rfl, h⟩
    | char hc => exact absurd rfl hc
  · rintro ⟨u, v, rfl, h⟩
    exact .any u h

theorem ofPercent_char_iff (hc : c ≠ '%') :
    OfPercent (c :: pattern) text ↔ ∃ rest, text = c :: rest ∧ OfPercent pattern rest := by
  constructor
  · intro h
    cases h with
    | any => exact absurd rfl hc
    | char _ h => exact ⟨_, rfl, h⟩
  · rintro ⟨rest, rfl, h⟩
    exact .char hc h

/-- The tokens of `LIKE` with `%` as the only wildcard take what is meant. -/
theorem fits_percentToken_iff :
    Wildcard.fits (· == ·) (pattern.map Wildcard.percentToken) text = true ↔
      OfPercent pattern text := by
  induction pattern generalizing text with
  | nil =>
    rw [ofPercent_nil_iff]
    exact List.isEmpty_iff
  | cons c pattern ih =>
    by_cases hc : c = '%'
    · subst hc
      rw [ofPercent_any_iff]
      refine Wildcard.fits_any_iff.trans ?_
      simp only [ih]
    · rw [ofPercent_char_iff hc, List.map_cons, Wildcard.percentToken, if_neg hc]
      cases text with
      | nil => simp [Wildcard.fits]
      | cons x text =>
        rw [Wildcard.fits, Bool.and_eq_true, beq_iff_eq, ih]
        constructor
        · rintro ⟨rfl, h⟩
          exact ⟨text, rfl, h⟩
        · rintro ⟨rest, hrest, h⟩
          cases hrest
          exact ⟨rfl, h⟩

/-- The token of a character in the pattern for SQLite. -/
def globToken (c : Char) : Glob.Token :=
  if c = '%' then .any
  else if c ∈ ['[', ']', '*', '?'] then .set false [(c, c)]
  else .char c

theorem tokens_of_plain (hopen : c ≠ '[') (hany : c ≠ '*') (hone : c ≠ '?') (rest : List Char) :
    Glob.tokens (c :: rest) = .char c :: Glob.tokens rest := by
  rw [Glob.tokens]
  · exact hany
  · exact hone
  · exact hopen

/-- **What SQLite reads** is the pattern, character by character. -/
theorem tokens_toSqliteGlobFromPercent (pattern : List Char) :
    Glob.tokens (toSqliteGlobFromPercent pattern) = pattern.map globToken := by
  rw [toSqliteGlobFromPercent_eq]
  induction pattern with
  | nil => rw [List.flatMap_nil, Glob.tokens, List.map_nil]
  | cons c pattern ih =>
    rw [List.flatMap_cons, List.map_cons, ← ih, globToken, Wildcard.escapeGlob]
    by_cases hpercent : c = '%'
    · rw [if_pos hpercent, if_pos hpercent, List.singleton_append, Glob.tokens]
    rw [if_neg hpercent, if_neg hpercent]
    by_cases hspecial : c ∈ ['[', ']', '*', '?']
    · rw [if_pos hspecial, if_pos hspecial]
      refine Glob.tokens_class_singleton ?_ _
      rintro rfl
      revert hspecial
      decide
    · rw [if_neg hspecial, if_neg hspecial, List.singleton_append]
      simp only [List.mem_cons, List.not_mem_nil, or_false, not_or] at hspecial
      exact tokens_of_plain hspecial.1 hspecial.2.2.1 hspecial.2.2.2 _

/-- The tokens of SQLite take what is meant. -/
theorem fits_globToken_iff :
    Glob.fits (pattern.map globToken) text = true ↔ OfPercent pattern text := by
  induction pattern generalizing text with
  | nil =>
    rw [ofPercent_nil_iff]
    exact List.isEmpty_iff
  | cons c pattern ih =>
    rw [List.map_cons, globToken]
    by_cases hc : c = '%'
    · subst hc
      rw [if_pos rfl, ofPercent_any_iff, Glob.fits_any_iff]
      simp only [ih]
    · rw [if_neg hc, ofPercent_char_iff hc]
      have hfits : Glob.fits ((if c ∈ ['[', ']', '*', '?'] then .set false [(c, c)] else .char c) ::
          pattern.map globToken) text = true ↔
          ∃ rest, text = c :: rest ∧ Glob.fits (pattern.map globToken) rest = true := by
        split_ifs
        · exact Glob.fits_set_singleton_iff
        · exact Glob.fits_char_iff
      rw [hfits]
      simp only [ih]

end Percent

/-- **A pattern means the same on both databases**: the pattern that SQLite gets under the rules of
`GLOB`, and the one that Postgres gets under the rules of `LIKE`, take exactly the texts in which `%`
stands for any text and every other character for itself. -/
theorem patterns_agree (pattern text : List Char) :
    (Glob.holds text (toSqliteGlobFromPercent pattern) = true ↔ OfPercent pattern text) ∧
      (likeHolds text (escapeLikeSpecials pattern) = true ↔ OfPercent pattern text) := by
  constructor
  · rw [Glob.holds, tokens_toSqliteGlobFromPercent, fits_globToken_iff]
  · rw [likeHolds, escapeLikeSpecials_eq, Wildcard.readLike_escape, fits_percentToken_iff]

end DataTables

end N8n
