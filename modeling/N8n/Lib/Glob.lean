import Mathlib.Data.List.Infix
import Mathlib.Data.Char

/-!
# Patterns of `GLOB`

The patterns of the `GLOB` operator of SQL: `*` takes any text, `?` one character, and a class in
brackets one character of the class. A class can be negated by `^`, has ranges, and its first member
can be a bracket.

* `Glob.readItems`, `Glob.readClass`, `Glob.tokens`: the tokens of a pattern;
* `Glob.fits`, `Glob.holds`: the texts it takes;
* `Glob.tokens_class_singleton`: a class of one special character.
-/

namespace Glob

/-- A token of a pattern; a class lists its ranges. -/
inductive Token where
  | any
  | one
  | char (c : Char)
  | set (negated : Bool) (items : List (Char × Char))
  | unterminated
  deriving DecidableEq

/-- The members of a class up to its bracket, with the rest of the pattern; `prior` is the character
that a range can start from. -/
def readItems : Option Char → List Char → Option (List (Char × Char) × List Char)
  | _, [] => none
  | _, ']' :: rest => some ([], rest)
  | some lo, '-' :: hi :: rest =>
    if hi = ']' then some ([('-', '-')], rest)
    else (readItems none rest).map fun r => ((lo, hi) :: r.1, r.2)
  | _, c :: rest => (readItems (some c) rest).map fun r => ((c, c) :: r.1, r.2)

/-- The members of a class: a bracket that comes first is one of them. -/
def readMembers : List Char → Option (List (Char × Char) × List Char)
  | ']' :: rest => (readItems none rest).map fun r => ((']', ']') :: r.1, r.2)
  | rest => readItems none rest

/-- A class after its opening bracket. -/
def readClass : List Char → Option (Bool × List (Char × Char) × List Char)
  | '^' :: rest => (readMembers rest).map fun r => (true, r.1, r.2)
  | rest => (readMembers rest).map fun r => (false, r.1, r.2)

variable {l text : List Char} {pattern : List Token} {c : Char}

theorem length_lt_of_readItems {prior : Option Char} {r : List (Char × Char) × List Char}
    (h : readItems prior l = some r) : r.2.length < l.length := by
  fun_induction readItems prior l generalizing r with
  | case1 => cases h
  | case2 prior rest =>
    cases h
    simp
  | case3 lo rest =>
    cases h
    simp only [List.length_cons]
    omega
  | case4 lo hi rest hne ih =>
    obtain ⟨r', hr', rfl⟩ := Option.map_eq_some_iff.1 h
    have hlt := ih hr'
    simp only [List.length_cons]
    omega
  | case5 prior c rest _ _ ih =>
    obtain ⟨r', hr', rfl⟩ := Option.map_eq_some_iff.1 h
    have hlt := ih hr'
    simp only [List.length_cons]
    omega

theorem length_lt_of_readMembers {r : List (Char × Char) × List Char} (h : readMembers l = some r) :
    r.2.length < l.length := by
  unfold readMembers at h
  split at h
  · obtain ⟨r', hr', rfl⟩ := Option.map_eq_some_iff.1 h
    have hlt := length_lt_of_readItems hr'
    simp only [List.length_cons]
    omega
  · exact length_lt_of_readItems h

theorem length_lt_of_readClass {r : Bool × List (Char × Char) × List Char}
    (h : readClass l = some r) : r.2.2.length < l.length := by
  unfold readClass at h
  split at h
  · obtain ⟨r', hr', rfl⟩ := Option.map_eq_some_iff.1 h
    have hlt := length_lt_of_readMembers hr'
    simp only [List.length_cons]
    omega
  · obtain ⟨r', hr', rfl⟩ := Option.map_eq_some_iff.1 h
    exact length_lt_of_readMembers hr'

/-- The tokens of a pattern; a class without an end takes nothing. -/
def tokens : List Char → List Token
  | [] => []
  | '*' :: rest => .any :: tokens rest
  | '?' :: rest => .one :: tokens rest
  | '[' :: rest =>
    match _h : readClass rest with
    | none => [.unterminated]
    | some (negated, items, rest') =>
      .set negated items :: tokens rest'
  | c :: rest => .char c :: tokens rest
termination_by l => l.length
decreasing_by
  · simp
  · simp
  · exact (length_lt_of_readClass ‹_›).trans (Nat.lt_succ_self _)
  · simp

/-- Whether a character is of a class. -/
def member (negated : Bool) (items : List (Char × Char)) (x : Char) : Bool :=
  (items.any fun r => r.1 ≤ x ∧ x ≤ r.2) ^^ negated

/-- Whether the tokens of a pattern take a text. -/
def fits : List Token → List Char → Bool
  | [], text => text.isEmpty
  | .any :: pattern, text => text.tails.any (fits pattern)
  | .one :: pattern, _ :: text => fits pattern text
  | .char c :: pattern, x :: text => c = x && fits pattern text
  | .set negated items :: pattern, x :: text => member negated items x && fits pattern text
  | .one :: _, [] | .char _ :: _, [] | .set _ _ :: _, [] => false
  | .unterminated :: _, _ => false

/-- `text GLOB pattern`. -/
def holds (text pattern : List Char) : Bool := fits (tokens pattern) text

theorem fits_any_iff :
    fits (.any :: pattern) text = true ↔ ∃ u v, u ++ v = text ∧ fits pattern v = true := by
  simp only [fits, List.any_eq_true, List.mem_tails]
  constructor
  · rintro ⟨v, ⟨u, huv⟩, hv⟩
    exact ⟨u, v, huv, hv⟩
  · rintro ⟨u, v, huv, hv⟩
    exact ⟨v, ⟨u, huv⟩, hv⟩

/-- A class with one member takes that character. -/
theorem member_singleton (c x : Char) : member false [(c, c)] x = true ↔ c = x := by
  simp only [member, List.any_cons, List.any_nil, Bool.or_false, Bool.xor_false, decide_eq_true_eq]
  exact (le_antisymm_iff (a := c) (b := x)).symm

theorem fits_char_iff :
    fits (.char c :: pattern) text = true ↔ ∃ rest, text = c :: rest ∧ fits pattern rest = true := by
  cases text with
  | nil => simp [fits]
  | cons x text =>
    rw [fits, Bool.and_eq_true, decide_eq_true_eq]
    constructor
    · rintro ⟨rfl, h⟩
      exact ⟨text, rfl, h⟩
    · rintro ⟨rest, hrest, h⟩
      cases hrest
      exact ⟨rfl, h⟩

theorem fits_set_singleton_iff :
    fits (.set false [(c, c)] :: pattern) text = true ↔
      ∃ rest, text = c :: rest ∧ fits pattern rest = true := by
  rw [← fits_char_iff]
  cases text with
  | nil => rfl
  | cons x text =>
    rw [fits, fits, Bool.and_eq_true, Bool.and_eq_true, member_singleton, decide_eq_true_eq]

/-- **A class of one character** is how a special character stands for itself. -/
theorem tokens_class_singleton (hc : c ≠ '^') (rest : List Char) :
    tokens ('[' :: c :: ']' :: rest) = .set false [(c, c)] :: tokens rest := by
  have hclass : readClass (c :: ']' :: rest) = some (false, [(c, c)], rest) := by
    rw [readClass.eq_2 _ fun _ h => hc (List.cons.inj h).1]
    by_cases hclose : c = ']'
    · subst hclose
      rfl
    · rw [readMembers.eq_2 _ fun _ h => hclose (List.cons.inj h).1, readItems]
      · rfl
      · exact hclose
      · exact fun _ _ _ h => nomatch h
  rw [tokens]
  split
  · rename_i h
    rw [hclass] at h
    cases h
  · rename_i h
    rw [hclass] at h
    cases h
    rfl

end Glob
