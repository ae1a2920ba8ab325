import Mathlib.Data.List.Infix
import Mathlib.Data.List.Forall2

/-!
# Conditions and patterns of a query

* `Sql.Truth`: the three truth values, and when a conjunction or disjunction is true;
* `Sql.Connective`, `Sql.truth`: a flat list of conditions, each joined to those before it, read
  with the precedence of the language;
* `Sql.truth_of_ands`, `Sql.truth_of_ors_ands`: when such a list is true;
* `Wildcard.Token`, `Wildcard.fits`: patterns, once their escapes are read, and the texts they take;
  characters are compared by a relation, equality or equality up to case;
* `Wildcard.fits_contains_iff`: the pattern that asks for a text inside;
* `Wildcard.readLike`, `Wildcard.readGlob`: the two notations of patterns, and
  `Wildcard.readLike_escape`, `Wildcard.readGlob_escape`: a text written in them with `%` as its
  only wildcard.
-/

namespace Sql

/-- A truth value; `none` is unknown. -/
abbrev Truth := Option Bool

namespace Truth

def and : Truth → Truth → Truth
  | some false, _ => some false
  | _, some false => some false
  | some true, some true => some true
  | _, _ => none

def or : Truth → Truth → Truth
  | some true, _ => some true
  | _, some true => some true
  | some false, some false => some false
  | _, _ => none

theorem and_eq_true_iff {a b : Truth} : a.and b = some true ↔ a = some true ∧ b = some true := by
  rcases a with _ | _ | _ <;> rcases b with _ | _ | _ <;> simp [and]

theorem or_eq_true_iff {a b : Truth} : a.or b = some true ↔ a = some true ∨ b = some true := by
  rcases a with _ | _ | _ <;> rcases b with _ | _ | _ <;> simp [or]

def all (l : List Truth) : Truth := l.foldr and (some true)

def any (l : List Truth) : Truth := l.foldr or (some false)

theorem all_eq_true_iff {l : List Truth} : all l = some true ↔ ∀ a ∈ l, a = some true := by
  induction l with
  | nil => simp [all]
  | cons a l ih => rw [List.forall_mem_cons, ← ih, ← and_eq_true_iff]; rfl

theorem any_eq_true_iff {l : List Truth} : any l = some true ↔ ∃ a ∈ l, a = some true := by
  induction l with
  | nil => simp [any]
  | cons a l ih => rw [List.exists_mem_cons_iff, ← ih, ← or_eq_true_iff]; rfl

end Truth

/-- How a condition is joined to those before it. -/
inductive Connective where
  | and
  | or
  deriving DecidableEq

variable {ε : Type*} {eval : ε → Truth}

/-- The conjunctions of a list of conditions: `and` binds stronger than `or`. -/
def conjunctions (current : List ε) : List (Connective × ε) → List (List ε)
  | [] => [current]
  | (.and, e) :: rest => conjunctions (current ++ [e]) rest
  | (.or, e) :: rest => current :: conjunctions [e] rest

/-- The truth of a list of conditions; the first one is joined to nothing. -/
def truth (eval : ε → Truth) : List (Connective × ε) → Truth
  | [] => some true
  | (_, e) :: rest =>
    Truth.any ((conjunctions [e] rest).map fun conjunction => Truth.all (conjunction.map eval))

theorem truth_cons_iff {c : Connective} {e : ε} {rest : List (Connective × ε)} :
    truth eval ((c, e) :: rest) = some true ↔
      ∃ conjunction ∈ conjunctions [e] rest, ∀ e ∈ conjunction, eval e = some true := by
  simp [truth, Truth.any_eq_true_iff, Truth.all_eq_true_iff]

theorem conjunctions_ands (current es : List ε) :
    conjunctions current (es.map (Connective.and, ·)) = [current ++ es] := by
  induction es generalizing current with
  | nil => simp [conjunctions]
  | cons e es ih => simp [conjunctions, ih]

/-- **Conditions that are all joined by `and`.** -/
theorem truth_of_ands {es : List ε} :
    truth eval (es.map (Connective.and, ·)) = some true ↔ ∀ e ∈ es, eval e = some true := by
  cases es with
  | nil => simp [truth]
  | cons e es =>
    rw [List.map_cons, truth_cons_iff, conjunctions_ands]
    simp

theorem exists_conjunction_ors_ands {current ors ands : List ε} :
    (∃ conjunction ∈ conjunctions current
        (ors.map (Connective.or, ·) ++ ands.map (Connective.and, ·)),
      ∀ e ∈ conjunction, eval e = some true) ↔
    match ors.getLast? with
    | none => ∀ e ∈ current ++ ands, eval e = some true
    | some last => (∀ e ∈ current, eval e = some true) ∨
        (∃ e ∈ ors.dropLast, eval e = some true) ∨ ∀ e ∈ last :: ands, eval e = some true := by
  induction ors generalizing current with
  | nil => simp [conjunctions_ands]
  | cons o ors ih =>
    rw [List.map_cons, List.cons_append, conjunctions, List.exists_mem_cons_iff, ih]
    cases ors with
    | nil => simp
    | cons o' ors =>
      obtain ⟨last, hlast⟩ : ∃ last, (o' :: ors).getLast? = some last :=
        ⟨_, List.getLast?_eq_some_getLast (List.cons_ne_nil _ _)⟩
      have hlast' : (o :: o' :: ors).getLast? = some last := by
        rw [List.getLast?_cons_cons, hlast]
      simp only [hlast, hlast', List.dropLast_cons_cons, List.exists_mem_cons_iff,
        List.mem_singleton, forall_eq, or_assoc]

/-- **Conditions joined by `or`, then some joined by `and`**: the last of the former is tied to
those that follow it. -/
theorem truth_of_ors_ands {ors ands : List ε} {last : ε} (hlast : ors.getLast? = some last) :
    truth eval (ors.map (Connective.or, ·) ++ ands.map (Connective.and, ·)) = some true ↔
      (∃ e ∈ ors.dropLast, eval e = some true) ∨ ∀ e ∈ last :: ands, eval e = some true := by
  cases ors with
  | nil => cases hlast
  | cons o ors =>
    rw [List.map_cons, List.cons_append, truth_cons_iff, exists_conjunction_ors_ands]
    cases ors with
    | nil =>
      obtain rfl : o = last := by simpa using hlast
      simp
    | cons o' ors =>
      rw [List.getLast?_cons_cons] at hlast
      simp only [hlast, List.dropLast_cons_cons, List.exists_mem_cons_iff, List.mem_singleton,
        forall_eq, or_assoc]

end Sql

namespace Wildcard

/-- A token of a pattern. -/
inductive Token where
  | any
  | one
  | char (c : Char)
  deriving DecidableEq

/-- Whether a pattern takes a text. -/
def fits (same : Char → Char → Bool) : List Token → List Char → Bool
  | [], text => text.isEmpty
  | .any :: pattern, text => text.tails.any (fits same pattern)
  | .one :: _, [] => false
  | .one :: pattern, _ :: text => fits same pattern text
  | .char _ :: _, [] => false
  | .char c :: pattern, x :: text => same c x && fits same pattern text

section Fits

variable {same : Char → Char → Bool} {pattern : List Token} {text s : List Char}

theorem fits_any_iff : fits same (.any :: pattern) text = true ↔
    ∃ u v, u ++ v = text ∧ fits same pattern v = true := by
  simp only [fits, List.any_eq_true, List.mem_tails]
  constructor
  · rintro ⟨v, ⟨u, huv⟩, hv⟩
    exact ⟨u, v, huv, hv⟩
  · rintro ⟨u, v, huv, hv⟩
    exact ⟨v, ⟨u, huv⟩, hv⟩

theorem fits_chars_append_iff : fits same (s.map .char ++ pattern) text = true ↔
    ∃ u v, u ++ v = text ∧ List.Forall₂ (fun c x => same c x = true) s u ∧
      fits same pattern v = true := by
  induction s generalizing text with
  | nil =>
    constructor
    · exact fun h => ⟨[], text, rfl, .nil, h⟩
    · rintro ⟨u, v, rfl, hu, hv⟩
      cases hu
      exact hv
  | cons c s ih =>
    cases text with
    | nil =>
      refine iff_of_false (by simp [fits]) ?_
      rintro ⟨u, v, huv, hu, -⟩
      obtain ⟨rfl, rfl⟩ := List.append_eq_nil_iff.1 huv
      cases hu
    | cons x text =>
      rw [List.map_cons, List.cons_append, fits, Bool.and_eq_true, ih]
      constructor
      · rintro ⟨hcx, u, v, rfl, hu, hv⟩
        exact ⟨x :: u, v, rfl, .cons hcx hu, hv⟩
      · rintro ⟨u, v, huv, hu, hv⟩
        cases hu with
        | cons hcx hu =>
          obtain ⟨rfl, rfl⟩ := List.cons.inj huv
          exact ⟨hcx, _, v, rfl, hu, hv⟩

/-- **A text between two wildcards** is asked for anywhere inside. -/
theorem fits_contains_iff : fits same (.any :: (s.map .char ++ [.any])) text = true ↔
    ∃ part, part <:+: text ∧ List.Forall₂ (fun c x => same c x = true) s part := by
  rw [fits_any_iff]
  constructor
  · rintro ⟨u, v, rfl, hv⟩
    obtain ⟨part, w, rfl, hpart, -⟩ := fits_chars_append_iff.1 hv
    exact ⟨part, ⟨u, w, by simp⟩, hpart⟩
  · rintro ⟨part, ⟨u, w, rfl⟩, hpart⟩
    refine ⟨u, part ++ w, by simp, fits_chars_append_iff.2 ⟨part, w, rfl, hpart, ?_⟩⟩
    exact fits_any_iff.2 ⟨w, [], by simp, rfl⟩

/-- The pattern with `f` applied to its characters. -/
def Token.map (f : Char → Char) : Token → Token
  | .any => .any
  | .one => .one
  | .char c => .char (f c)

theorem fits_map {f g : Char → Char} : fits same (pattern.map (Token.map f)) (text.map g) =
    fits (fun c x => same (f c) (g x)) pattern text := by
  induction pattern generalizing text with
  | nil => simp [fits]
  | cons token pattern ih =>
    cases token with
    | any =>
      rw [Bool.eq_iff_iff, List.map_cons, Token.map, fits_any_iff, fits_any_iff]
      constructor
      · rintro ⟨u, v, huv, hfits⟩
        obtain ⟨u, v, rfl, rfl, rfl⟩ := List.map_eq_append_iff.1 huv.symm
        exact ⟨u, v, rfl, by rwa [← ih]⟩
      · rintro ⟨u, v, rfl, hfits⟩
        exact ⟨u.map g, v.map g, by simp, by rwa [ih]⟩
    | one => cases text <;> simp [Token.map, fits, ih]
    | char c => cases text <;> simp [Token.map, fits, ih]

end Fits

/-! ### Notations -/

/-- `%` as the only wildcard. -/
def percentToken (c : Char) : Token := if c = '%' then .any else .char c

/-- A `LIKE` pattern with the escape character `\`. -/
def readLike : List Char → List Token
  | '%' :: cs => .any :: readLike cs
  | '_' :: cs => .one :: readLike cs
  | '\\' :: c :: cs => .char c :: readLike cs
  | c :: cs => .char c :: readLike cs
  | [] => []

/-- A `GLOB` pattern whose classes have one member. -/
def readGlob : List Char → List Token
  | '*' :: cs => .any :: readGlob cs
  | '?' :: cs => .one :: readGlob cs
  | '[' :: c :: ']' :: cs => .char c :: readGlob cs
  | c :: cs => .char c :: readGlob cs
  | [] => []

/-- `%` stays a wildcard, the other special characters of `LIKE` are escaped. -/
def escapeLike (c : Char) : List Char := if c = '\\' ∨ c = '_' then ['\\', c] else [c]

/-- `%` becomes the wildcard of `GLOB`, its special characters are put in classes. -/
def escapeGlob (c : Char) : List Char :=
  if c = '%' then ['*'] else if c ∈ ['[', ']', '*', '?'] then ['[', c, ']'] else [c]

theorem readLike_escape (s : List Char) : readLike (s.flatMap escapeLike) = s.map percentToken := by
  induction s with
  | nil => rfl
  | cons c s ih =>
    rw [List.flatMap_cons, List.map_cons, ← ih]
    by_cases hpercent : c = '%'
    · subst hpercent
      rfl
    by_cases hspecial : c = '\\' ∨ c = '_'
    · rcases hspecial with rfl | rfl <;> rfl
    · rw [not_or] at hspecial
      simp only [escapeLike, hspecial, or_self, if_false, List.singleton_append, percentToken,
        hpercent]
      rw [readLike.eq_4]
      · exact fun h => hpercent h
      · exact fun h => hspecial.2 h
      · exact fun _ _ h => absurd h hspecial.1

theorem readGlob_escape (s : List Char) : readGlob (s.flatMap escapeGlob) = s.map percentToken := by
  induction s with
  | nil => rfl
  | cons c s ih =>
    rw [List.flatMap_cons, List.map_cons, ← ih]
    by_cases hpercent : c = '%'
    · subst hpercent
      rfl
    by_cases hspecial : c ∈ ['[', ']', '*', '?']
    · simp only [escapeGlob, hpercent, if_false, hspecial, if_true, percentToken]
      rfl
    · simp only [escapeGlob, hpercent, if_false, hspecial, List.singleton_append, percentToken]
      simp only [List.mem_cons, List.not_mem_nil, or_false, not_or] at hspecial
      rw [readGlob.eq_4]
      · exact fun h => hspecial.2.2.1 h
      · exact fun h => hspecial.2.2.2 h
      · exact fun _ _ h => absurd h hspecial.1

end Wildcard
