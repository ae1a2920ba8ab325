import N8n.CalcText.ConvertDate

/-!
# Which dates survive a conversion

* `JsNumber.ofDigits_digits`: the digits of a number are read as the number;
* `CalcText.Format`: the formats with each token once, and the dates written in them;
* `CalcText.convert_write`: the date that is made of the groups as the source assigns them;
* `CalcText.convert_eq_iff`: when this is the date that was written, which is seldom: the groups are
  handed to the year, the short year and the month, whatever they stand for in the format.
-/

namespace N8n

/-! ### Digits -/

namespace JsNumber

/-- The digit of a number below ten. -/
def digitUnit (n : ℕ) : UInt16 := UInt16.ofNat (48 + n)

theorem digitValue?_digitUnit : ∀ {n : ℕ}, n < 10 → digitValue? (digitUnit n) = some n := by
  decide

variable (n : ℕ)

theorem digits_eq_if :
    digits n = if n < 10 then [digitUnit n] else digits (n / 10) ++ [digitUnit (n % 10)] := by
  have hunit : ∀ d < 10, JsString.unitsOf d.digitChar = [digitUnit d] := by decide
  unfold digits
  rw [Nat.toDigits_eq_if (by decide)]
  split_ifs with h
  · rw [List.flatMap_singleton, hunit n h]
  · rw [List.flatMap_append, List.flatMap_singleton, hunit _ (Nat.mod_lt _ (by decide))]

theorem ofDigits_append_digitUnit (s : JsString) {n : ℕ} (h : n < 10) :
    ofDigits 10 (s ++ [digitUnit n]) = 10 * ofDigits 10 s + n := by
  rw [ofDigits, List.foldl_append, List.foldl_cons, List.foldl_nil, digitValue?_digitUnit h]
  rfl

theorem ofDigits_digits : ofDigits 10 (digits n) = n := by
  induction n using Nat.strong_induction_on with
  | _ n ih =>
    rw [digits_eq_if]
    split_ifs with h
    · have hone := ofDigits_append_digitUnit [] h
      exact hone.trans (by simp [ofDigits])
    · rw [ofDigits_append_digitUnit _ (Nat.mod_lt _ (by decide)), ih _ (by omega)]
      omega

theorem isDigit_of_mem_digits {n : ℕ} {u : UInt16} (h : u ∈ digits n) : isDigit 10 u := by
  induction n using Nat.strong_induction_on with
  | _ n ih =>
    have hunit : ∀ d, d < 10 → isDigit 10 (digitUnit d) := fun d hd => by
      rw [isDigit, digitValue?_digitUnit hd]
      exact decide_eq_true hd
    rw [digits_eq_if] at h
    split_ifs at h with hn
    · exact List.mem_singleton.1 h ▸ hunit n hn
    · rcases List.mem_append.1 h with h | h
      · exact ih _ (by omega) h
      · exact List.mem_singleton.1 h ▸ hunit _ (Nat.mod_lt _ (by decide))

theorem length_digits_le_iff {n k : ℕ} (hk : 0 < k) : (digits n).length ≤ k ↔ n < 10 ^ k := by
  have hlength : (digits n).length = (Nat.toDigits 10 n).length := by
    induction n using Nat.strong_induction_on with
    | _ n ih =>
      rw [digits_eq_if, Nat.toDigits_eq_if (by decide)]
      split_ifs with h
      · rfl
      · rw [List.length_append, List.length_append, ih _ (by omega)]
        rfl
  rw [hlength, Nat.length_toDigits_le_iff (by decide) hk]

theorem digits_ne_nil : digits n ≠ [] := by
  rw [digits_eq_if]
  split_ifs <;> simp

end JsNumber

namespace CalcText

/-! ### Tokens and formats -/

inductive Token
  | yyyy
  | MM
  | dd
  deriving DecidableEq

namespace Token

def text : Token → JsString
  | yyyy => "yyyy"
  | MM => "MM"
  | dd => "dd"

def letter : Token → UInt16
  | yyyy => 121
  | MM => 77
  | dd => 100

def width : Token → ℕ
  | yyyy => 4
  | MM | dd => 2

/-- The number that a token stands for in a date. -/
def number (date : CalendarDate) : Token → ℕ
  | yyyy => date.year
  | MM => date.month
  | dd => date.day

/-- The part of a date in the place of a token. -/
def write (date : CalendarDate) : Token → JsString
  | yyyy => JsNumber.digits date.year
  | MM => JsString.padStart (JsNumber.digits date.month) 2 "0"
  | dd => JsString.padStart (JsNumber.digits date.day) 2 "0"

end Token

open Marked

/-- A format that contains each token exactly once; its other units have no meaning in a regular
expression and are no letters of tokens. -/
structure Format where
  parts : Marked UInt16 Token
  once : ∀ t, (marks parts).count t = 1
  separators : ∀ u, .inl u ∈ parts → u ∉ regexSyntax ∧ ∀ t : Token, u ≠ t.letter

def Format.text (fmt : Format) : JsString := Marked.text Token.text fmt.parts

/-- The date written in the format. -/
def Format.write (fmt : Format) (date : CalendarDate) : JsString :=
  Marked.text (Token.write date) fmt.parts

variable (fmt : Format)

theorem Format.text_plain : ∀ u ∈ fmt.text, u ∉ regexSyntax := by
  intro u hu
  obtain ⟨p, hp, hup⟩ := List.mem_flatMap.1 hu
  cases p with
  | inl v => exact List.mem_singleton.1 hup ▸ (fmt.separators v hp).1
  | inr t =>
    have htoken : ∀ t : Token, t.text.all (· ∉ regexSyntax) = true := by
      intro t
      cases t <;> decide
    exact of_decide_eq_true (List.all_eq_true.1 (htoken t) u hup)

/-- The format as an input format. -/
def Format.input (fmt : Format) : PlainFormat := ⟨fmt.text, fmt.text_plain⟩

/-- A day of the calendar in the years that are written with four digits. -/
structure IsDate (date : CalendarDate) : Prop where
  year : 1000 ≤ date.year ∧ date.year ≤ 9999
  month : 1 ≤ date.month ∧ date.month ≤ 12
  day : 1 ≤ date.day ∧ date.day ≤ daysInMonth date.year date.month

/-! ### Output -/

theorem Format.exists_placeholder (t : Token) :
    ∃ before after, Placeholder fmt.parts t before after :=
  Marked.exists_placeholder (fmt.once t)

theorem Token.exists_text_eq (t : Token) : ∃ pat, t.text = t.letter :: pat := by
  cases t <;> exact ⟨_, rfl⟩

variable {f : Token → JsString} {pat s : JsString} {date : CalendarDate}

variable {t t₁ t₂ t₃ : Token} {pre post : JsString}

/-- Before its placeholder the letter of a token does not occur. -/
theorem Format.letter_not_mem {before after : Marked UInt16 Token}
    (h : Placeholder fmt.parts t before after) (hother : ∀ t' ≠ t, t.letter ∉ f t') :
    t.letter ∉ Marked.text f before := by
  refine not_mem_text (fun hmem => ?_) fun t' ht' => hother t' fun he => ?_
  · have hparts : .inl t.letter ∈ fmt.parts := by
      rw [h.eq_append]
      exact List.mem_append_left _ hmem
    exact (fmt.separators _ hparts).2 t rfl
  · exact h.not_mem_before (he ▸ ht')

theorem replaceFirst_of_split (new : JsString) (h : splitAtFirst pat s = some (pre, post)) :
    JsString.replaceFirst pat new s = pre ++ (new ++ post) := by
  induction s generalizing pre with
  | nil => cases h
  | cons u s ih =>
    rw [splitAtFirst] at h
    rw [JsString.replaceFirst]
    by_cases hp : pat <+: u :: s
    · rw [if_pos hp] at h
      obtain ⟨rfl, rfl⟩ := Prod.mk.inj (Option.some.inj h)
      rw [if_pos (List.isPrefixOf_iff_prefix.2 hp), List.nil_append]
    · rw [if_neg hp] at h
      rw [if_neg fun hq => hp (List.isPrefixOf_iff_prefix.1 hq)]
      obtain ⟨⟨pre', post'⟩, hs, he⟩ := Option.map_eq_some_iff.1 h
      obtain ⟨rfl, rfl⟩ := Prod.mk.inj he
      rw [ih hs, List.cons_append]

theorem replaceFirst_of_not_mem {c : UInt16} (new : JsString) (hc : c ∈ pat) (h : c ∉ s) :
    JsString.replaceFirst pat new s = s := by
  induction s with
  | nil => exact if_neg (List.ne_nil_of_mem hc)
  | cons u s ih =>
    have hprefix : ¬pat.isPrefixOf (u :: s) := fun hp =>
      h ((List.isPrefixOf_iff_prefix.1 hp).subset hc)
    rw [JsString.replaceFirst, if_neg hprefix, ih fun hs => h (List.mem_cons_of_mem u hs)]

/-- Replacing a token that stands for itself. -/
theorem Format.replaceFirst_text (t : Token) (new : JsString) (hf : f t = t.text)
    (hother : ∀ t' ≠ t, t.letter ∉ f t') :
    JsString.replaceFirst t.text new (Marked.text f fmt.parts) =
      Marked.text (Function.update f t new) fmt.parts := by
  obtain ⟨before, after, h⟩ := fmt.exists_placeholder t
  obtain ⟨pat, hpat⟩ := t.exists_text_eq
  have hsplit := h.split (hf.trans hpat) (fmt.letter_not_mem h hother)
  rw [hf] at hsplit
  rw [replaceFirst_of_split new hsplit, h.text_update]

/-- The letters of tokens are no digits. -/
theorem Token.letter_not_mem_digits (t : Token) (n : ℕ) : t.letter ∉ JsNumber.digits n := by
  intro h
  have hdigit := JsNumber.isDigit_of_mem_digits h
  cases t <;> exact absurd hdigit (by decide)

theorem Token.letter_not_mem_padStart (t : Token) (n : ℕ) :
    t.letter ∉ JsString.padStart (JsNumber.digits n) 2 "0" := by
  have hzero : ∀ u ∈ JsString.filler "0" (2 - (JsNumber.digits n).length), u = 48 := by
    intro u hu
    obtain ⟨s, hs, hus⟩ := List.mem_flatten.1 (List.mem_of_mem_take hu)
    rw [List.eq_of_mem_replicate hs] at hus
    exact List.mem_singleton.1 hus
  intro h
  rcases List.mem_append.1 h with h | h
  · have h48 := hzero _ h
    cases t <;> exact absurd h48 (by decide)
  · exact t.letter_not_mem_digits n h

/-- **What is written in the output format is the date.** -/
theorem Format.outputText_eq (dt : CalendarDate) :
    outputText (some dt) fmt.text = fmt.write dt := by
  -- the tokens that are replaced already stand for their numbers
  let year := Function.update Token.text .yyyy (Token.write dt .yyyy)
  let month := Function.update year .MM (Token.write dt .MM)
  have hyear := fmt.replaceFirst_text (f := Token.text) .yyyy (Token.write dt .yyyy) rfl fun t ht => by
    cases t
    · exact absurd rfl ht
    · decide
    · decide
  have hyy : ∀ new, JsString.replaceFirst "yy" new (Marked.text year fmt.parts) =
      Marked.text year fmt.parts := by
    intro new
    refine replaceFirst_of_not_mem (c := Token.letter .yyyy) new (by decide) (not_mem_text
      (fun hmem => (fmt.separators _ hmem).2 .yyyy rfl) fun t _ => ?_)
    cases t
    · exact Token.letter_not_mem_digits _ _
    · show _ ∉ Token.text .MM
      decide
    · show _ ∉ Token.text .dd
      decide
  have hmonth := fmt.replaceFirst_text (f := year) .MM (Token.write dt .MM) rfl fun t ht => by
    cases t
    · exact Token.letter_not_mem_digits _ _
    · exact absurd rfl ht
    · show _ ∉ Token.text .dd
      decide
  have hday := fmt.replaceFirst_text (f := month) .dd (Token.write dt .dd) rfl fun t ht => by
    cases t
    · exact Token.letter_not_mem_digits _ _
    · exact Token.letter_not_mem_padStart _ _
    · exact absurd rfl ht
  have hwrite : Function.update month .dd (Token.write dt .dd) = Token.write dt := by
    funext t
    cases t <;> rfl
  unfold outputText Format.write
  rw [← hwrite, ← hday, ← hmonth, ← hyy, ← hyear]
  rfl

/-! ### Input -/

/-- A token that is part of the pattern as a text. -/
def Token.literal (t : Token) : DatePattern := t.text.map .inl

/-- A token that has become a group. -/
def Token.group (t : Token) : DatePattern := [.inr t.width]

theorem Token.letter_not_mem_literal {t' : Token} (h : t' ≠ t) : .inl t.letter ∉ t'.literal := by
  intro hmem
  obtain ⟨u, hu, he⟩ := List.mem_map.1 hmem
  rw [Sum.inl.inj he] at hu
  have hletter : ∀ t t' : Token, t.letter ∈ t'.text → t' = t := by
    intro t t'
    cases t <;> cases t' <;> decide
  exact h (hletter t t' hu)

theorem Token.letter_not_mem_group (t t' : Token) : .inl t.letter ∉ t'.group := by
  simp [Token.group]

/-- What a format becomes in a pattern, the tokens in it still marks. -/
def Format.regex (fmt : Format) : Marked (UInt16 ⊕ ℕ) Token := fmt.parts.mapElements .inl

theorem Format.markFirst_text {f : Token → DatePattern} (t : Token)
    (hf : f t = t.literal) (hother : ∀ t' ≠ t, .inl t.letter ∉ f t') :
    Marked.markFirst t.text t.width (Marked.text f fmt.regex) =
      Marked.text (Function.update f t t.group) fmt.regex := by
  obtain ⟨before, after, h⟩ := fmt.exists_placeholder t
  obtain ⟨pat, hpat⟩ := t.exists_text_eq
  have hnot : .inl t.letter ∉ Marked.text f (before.mapElements .inl) := by
    refine not_mem_text (fun hmem => ?_) fun t' ht' => hother t' fun he => ?_
    · obtain ⟨p, hp, hletter⟩ := List.mem_map.1 hmem
      cases p with
      | inl u =>
        have hu : u = t.letter := Sum.inl.inj (Sum.inl.inj hletter)
        refine (fmt.separators u ?_).2 t hu
        rw [h.eq_append]
        exact List.mem_append_left _ hp
      | inr t' => cases hletter
    · rw [marks_mapElements, he] at ht'
      exact h.not_mem_before ht'
  have hliteral : f t = .inl t.letter :: pat.map .inl := by
    rw [hf, Token.literal, hpat, List.map_cons]
  have hsplit := (h.mapElements .inl).split hliteral hnot
  rw [hf] at hsplit
  rw [Format.regex, markFirst_of_split hsplit]
  exact ((h.mapElements (.inl : UInt16 → UInt16 ⊕ ℕ)).text_update t.group).symm

/-- **The pattern of a format**: each token is a group. -/
theorem Format.inputPattern_eq : inputPattern fmt.text = Marked.text Token.group fmt.regex := by
  let year := Function.update Token.literal .yyyy (Token.group .yyyy)
  let month := Function.update year .MM (Token.group .MM)
  have hyear := fmt.markFirst_text (f := Token.literal) .yyyy rfl
    fun t ht => Token.letter_not_mem_literal ht
  have hyy : Marked.markFirst "yy" 2 (Marked.text year fmt.regex) =
      Marked.text year fmt.regex := by
    refine markFirst_of_none (splitAtFirst_eq_none_of_not_mem (c := .inl (Token.letter .yyyy))
      List.mem_cons_self (not_mem_text (fun hmem => ?_) fun t _ => ?_))
    · obtain ⟨p, hp, hletter⟩ := List.mem_map.1 hmem
      cases p with
      | inl u => exact (fmt.separators u hp).2 .yyyy (Sum.inl.inj (Sum.inl.inj hletter))
      | inr t' => cases hletter
    · cases t
      · exact Token.letter_not_mem_group _ _
      · exact Token.letter_not_mem_literal (by decide)
      · exact Token.letter_not_mem_literal (by decide)
  have hmonth := fmt.markFirst_text (f := year) .MM rfl fun t ht => by
    cases t
    · exact Token.letter_not_mem_group _ _
    · exact absurd rfl ht
    · exact Token.letter_not_mem_literal ht
  have hday := fmt.markFirst_text (f := month) .dd rfl fun t ht => by
    cases t
    · exact Token.letter_not_mem_group _ _
    · exact Token.letter_not_mem_group _ _
    · exact absurd rfl ht
  have hgroup : Function.update month .dd (Token.group .dd) = Token.group := by
    funext t
    cases t <;> rfl
  have htext : fmt.text.map .inl = Marked.text Token.literal fmt.regex :=
    (text_mapElements (.inl : UInt16 → UInt16 ⊕ ℕ) Token.text fmt.parts).symm
  unfold inputPattern
  rw [htext, ← hgroup, ← hday, ← hmonth, ← hyy, ← hyear]
  rfl

/-- A text with groups of the right form is matched, and its groups are these parts. -/
theorem matchGroups_text (ps : Marked UInt16 Token) (hlength : ∀ t, (f t).length = t.width)
    (hdigits : ∀ t, (f t).all (JsNumber.isDigit 10)) :
    matchGroups (Marked.text Token.group (ps.mapElements .inl)) (Marked.text f ps) =
      some ((marks ps).map f) := by
  induction ps with
  | nil => rfl
  | cons p ps ih =>
    cases p with
    | inl u =>
      change matchGroups (.inl u :: Marked.text Token.group (mapElements .inl ps))
        (u :: Marked.text f ps) = _
      rw [matchGroups, List.head?_cons, if_pos rfl, List.tail_cons, ih]
      rfl
    | inr t =>
      have htake : (f t ++ Marked.text f ps).take t.width = f t := by
        rw [← hlength, List.take_left]
      have hdrop : (f t ++ Marked.text f ps).drop t.width = Marked.text f ps := by
        rw [← hlength, List.drop_left]
      change matchGroups (.inr t.width :: Marked.text Token.group (mapElements .inl ps))
        (f t ++ Marked.text f ps) = _
      rw [matchGroups, htake, hdrop, if_pos ⟨hlength t, hdigits t⟩, ih]
      rfl

/-! ### The date that is made of the groups -/

theorem includes_of_eq_append (hpat : pat ≠ [])
    (h : s = pre ++ (pat ++ post)) : includes pat s = true := by
  rw [h]
  exact includes_append hpat pre post

/-- All tokens are found in a format, and so is the short year. -/
theorem Format.includes_parts : ∀ k ∈ CalcText.parts, includes k.1 fmt.text = true := by
  have htoken : ∀ t : Token, ∃ pre post, fmt.text = pre ++ (t.text ++ post) := fun t => by
    obtain ⟨before, after, h⟩ := fmt.exists_placeholder t
    exact ⟨_, _, h.text_eq⟩
  intro k hk
  simp only [CalcText.parts, List.mem_cons, List.not_mem_nil, or_false] at hk
  rcases hk with rfl | rfl | rfl | rfl
  · obtain ⟨pre, post, h⟩ := htoken .yyyy
    exact includes_of_eq_append (by decide) h
  · obtain ⟨pre, post, h⟩ := htoken .yyyy
    have hyy : fmt.text = pre ++ (("yy" : JsString) ++ ("yy" ++ post)) := h
    exact includes_of_eq_append (by decide) hyy
  · obtain ⟨pre, post, h⟩ := htoken .MM
    exact includes_of_eq_append (by decide) h
  · obtain ⟨pre, post, h⟩ := htoken .dd
    exact includes_of_eq_append (by decide) h

/-- **How the groups are assigned**: the first one is the year and the third one the month. -/
theorem Format.extractedDate_eq (v₁ v₂ v₃ : JsString) :
    extractedDate (extract fmt.text CalcText.parts [v₁, v₂, v₃]) =
      some (newDate (groupNumber v₁) (groupNumber v₃) 1) := by
  have hextract : extract fmt.text CalcText.parts [v₁, v₂, v₃] =
      [(("yyyy" : JsString), v₁), (("yy" : JsString), v₂), (("MM" : JsString), v₃)] := by
    have hincludes := fmt.includes_parts
    simp only [CalcText.parts, List.forall_mem_cons] at hincludes
    obtain ⟨hyyyy, hyy, hMM, hdd, -⟩ := hincludes
    simp only [CalcText.parts, extract, hyyyy, hyy, hMM, hdd, if_true]
  rw [hextract]
  rfl

variable (year month : ℕ)

theorem one_le_daysInMonth : 1 ≤ daysInMonth year month := by
  unfold daysInMonth
  split <;> (try split_ifs) <;> decide

/-- The first day of a month. -/
theorem newDate_one : newDate year month 1 =
    monthOf (12 * (if year ≤ 99 then 1900 + year else year) + month - 1) 1 := by
  rw [newDate, if_neg one_ne_zero, carryDays, if_pos (one_le_daysInMonth _ _)]

/-! ### Dates in a format -/

theorem filler_zero (n : ℕ) : JsString.filler "0" n = List.replicate n 48 := by
  have hflatten : (List.replicate n (JsString.ofString "0")).flatten = List.replicate n 48 := by
    induction n with
    | zero => rfl
    | succ n ih => rw [List.replicate_succ, List.flatten_cons, ih, List.replicate_succ]; rfl
  rw [JsString.filler, hflatten, List.take_replicate, min_self]

theorem ofDigits_padStart (s : JsString) (n : ℕ) :
    JsNumber.ofDigits 10 (JsString.padStart s n "0") = JsNumber.ofDigits 10 s := by
  rw [JsString.padStart, filler_zero]
  induction n - s.length with
  | zero => rfl
  | succ k ih => rw [List.replicate_succ]; exact ih

/-- A part that is written is read as its number. -/
theorem Token.groupNumber_write (date : CalendarDate) (t : Token) :
    groupNumber (t.write date) = t.number date := by
  cases t
  · exact JsNumber.ofDigits_digits _
  · exact (ofDigits_padStart _ 2).trans (JsNumber.ofDigits_digits _)
  · exact (ofDigits_padStart _ 2).trans (JsNumber.ofDigits_digits _)

theorem Token.all_isDigit_write (date : CalendarDate) (t : Token) :
    (t.write date).all (JsNumber.isDigit 10) := by
  have hpad : ∀ n, (JsString.padStart (JsNumber.digits n) 2 "0").all (JsNumber.isDigit 10) := by
    intro n
    rw [JsString.padStart, filler_zero, List.all_append, Bool.and_eq_true, List.all_eq_true,
      List.all_eq_true]
    exact ⟨fun u hu => List.eq_of_mem_replicate hu ▸ rfl,
      fun u hu => JsNumber.isDigit_of_mem_digits hu⟩
  cases t
  · exact List.all_eq_true.2 fun u hu => JsNumber.isDigit_of_mem_digits hu
  · exact hpad _
  · exact hpad _

theorem length_twoDigits {n : ℕ} (h : n < 100) :
    (JsString.padStart (JsNumber.digits n) 2 "0").length = 2 := by
  rw [JsString.length_padStart _ _ (by decide)]
  exact max_eq_right ((JsNumber.length_digits_le_iff (by decide)).2 h)

theorem length_digits_year {year : ℕ} (h : 1000 ≤ year ∧ year ≤ 9999) :
    (JsNumber.digits year).length = 4 := by
  have hle := (JsNumber.length_digits_le_iff (n := year) (k := 4) (by decide)).2 (by omega)
  have hlt := (JsNumber.length_digits_le_iff (n := year) (k := 3) (by decide)).not.2 (by omega)
  omega

theorem daysInMonth_le : daysInMonth year month ≤ 31 := by
  unfold daysInMonth
  split <;> (try split_ifs) <;> decide

theorem IsDate.length_write (h : IsDate date) (t : Token) : (t.write date).length = t.width := by
  have hmonth := h.month
  have hday := h.day
  have hdays := daysInMonth_le date.year date.month
  cases t
  · exact length_digits_year h.year
  · exact length_twoDigits (by omega)
  · exact length_twoDigits (by omega)

theorem Format.marks_perm : (marks fmt.parts).Perm [.yyyy, .MM, .dd] := by
  rw [List.perm_iff_count]
  intro t
  rw [fmt.once]
  cases t <;> rfl

theorem Format.mem_marks (t : Token) : t ∈ marks fmt.parts :=
  List.count_pos_iff.1 (by rw [fmt.once]; exact one_pos)

/-- A text with a date tells the date. -/
theorem Format.write_inj {dt : CalendarDate} (hdate : IsDate date)
    (hmonth : dt.month < 100) (hday : dt.day < 100) :
    fmt.write dt = fmt.write date ↔ dt = date := by
  refine ⟨fun h => ?_, fun h => h ▸ rfl⟩
  have hlength : ∀ t : Token, (t.write dt).length = (t.write date).length := by
    have htotal := congrArg List.length h
    unfold Format.write at htotal
    rw [length_text (Token.write dt), length_text (Token.write date), Nat.add_left_cancel_iff,
      (fmt.marks_perm.map _).sum_eq, (fmt.marks_perm.map _).sum_eq] at htotal
    simp only [List.map_cons, List.map_nil, List.sum_cons, List.sum_nil, hdate.length_write] at htotal
    have hMM : (Token.write dt .MM).length = 2 := length_twoDigits hmonth
    have hdd : (Token.write dt .dd).length = 2 := length_twoDigits hday
    intro t
    rw [hdate.length_write]
    cases t
    · simp only [Token.width] at htotal ⊢
      omega
    · exact hMM
    · exact hdd
  have htexts := (text_inj fun t _ => hlength t).1 h
  have hnumber : ∀ t : Token, t.number dt = t.number date := fun t => by
    rw [← t.groupNumber_write, ← t.groupNumber_write, htexts t (fmt.mem_marks t)]
  obtain ⟨year, month, day⟩ := dt
  obtain ⟨year', month', day'⟩ := date
  obtain rfl : year = year' := hnumber .yyyy
  obtain rfl : month = month' := hnumber .MM
  obtain rfl : day = day' := hnumber .dd
  rfl

theorem Format.write_ne_nil (date : CalendarDate) : fmt.write date ≠ [] := by
  obtain ⟨before, after, h⟩ := fmt.exists_placeholder .yyyy
  rw [Format.write, h.text_eq]
  simp [Token.write, JsNumber.digits_ne_nil]

theorem Format.text_ne_nil : fmt.text ≠ [] := by
  obtain ⟨before, after, h⟩ := fmt.exists_placeholder .yyyy
  have hyyyy : Token.text .yyyy ≠ [] := by decide
  rw [Format.text, h.text_eq]
  simp [hyyyy]

/-- **What becomes of a date**: the first part of its text is taken for the year, the last one for
the month, and the day is the first. -/
theorem convert_write (input output : Format) (hdate : IsDate date)
    (hmarks : marks input.parts = [t₁, t₂, t₃]) :
    convertDateUniversal (input.write date) input.input output.text =
      output.write (newDate (t₁.number date) (t₃.number date) 1) := by
  have hnonempty : ¬(input.write date = [] ∨ input.input.1 = [] ∨ output.text = []) := by
    rintro (h | h | h)
    · exact input.write_ne_nil date h
    · exact input.text_ne_nil h
    · exact output.text_ne_nil h
  have hmatch := matchGroups_text input.parts hdate.length_write
    fun t => t.all_isDigit_write date
  rw [hmarks] at hmatch
  rw [convertDateUniversal, if_neg hnonempty, show input.input.1 = input.text from rfl]
  rw [input.inputPattern_eq, Format.write, Format.regex, hmatch]
  simp only [List.map_cons, List.map_nil]
  rw [input.extractedDate_eq, output.outputText_eq, t₁.groupNumber_write, t₃.groupNumber_write]

/-- The dates that are read as themselves, by the order of the tokens. -/
def ReadAsItself (date : CalendarDate) : List Token → Prop
  | [.yyyy, .MM, .dd] => date.month = 1 ∧ date.day = 1
  | [.yyyy, .dd, .MM] => date.day = 1
  | [.MM, .yyyy, .dd] => date = ⟨1901, 1, 1⟩
  | [.dd, .yyyy, .MM] => date.year = 1901 ∧ date.day = 1
  | [.dd, .MM, .yyyy] => date = ⟨2073, 9, 1⟩
  | _ => False

theorem Format.exists_order : ∃ t₁ t₂ t₃, marks fmt.parts = [t₁, t₂, t₃] ∧
    t₁ ≠ t₂ ∧ t₁ ≠ t₃ ∧ t₂ ≠ t₃ := by
  obtain ⟨t₁, t₂, t₃, hmarks⟩ := List.length_eq_three.1 fmt.marks_perm.length_eq
  have hnodup : (marks fmt.parts).Nodup := fmt.marks_perm.nodup_iff.2 (by decide)
  rw [hmarks] at hnodup
  simp only [List.nodup_cons, List.mem_cons, List.not_mem_nil, or_false, not_or] at hnodup
  exact ⟨t₁, t₂, t₃, hmarks, hnodup.1.1, hnodup.1.2, hnodup.2.1⟩

/-- The order of three distinct tokens is decided by the first and the last. -/
theorem readAsItself_iff (hdate : IsDate date) (h₁₂ : t₁ ≠ t₂) (h₁₃ : t₁ ≠ t₃) (h₂₃ : t₂ ≠ t₃) :
    newDate (t₁.number date) (t₃.number date) 1 = date ↔ ReadAsItself date [t₁, t₂, t₃] := by
  obtain ⟨year, month, day⟩ := date
  obtain ⟨hyear, hmonth, hday⟩ := hdate
  have hdays := daysInMonth_le year month
  dsimp only at hyear hmonth hday hdays
  rw [newDate_one]
  cases t₁ with
  | yyyy =>
    rw [if_neg (by simp only [Token.number]; omega)]
    cases t₃ with
    | yyyy => exact absurd rfl h₁₃
    | MM =>
      obtain rfl : t₂ = .dd := by cases t₂ <;> simp at h₁₂ h₂₃ ⊢
      simp only [monthOf, ReadAsItself, Token.number, CalendarDate.mk.injEq]
      omega
    | dd =>
      obtain rfl : t₂ = .MM := by cases t₂ <;> simp at h₁₂ h₂₃ ⊢
      simp only [monthOf, ReadAsItself, Token.number, CalendarDate.mk.injEq]
      omega
  | MM =>
    rw [if_pos (by simp only [Token.number]; omega)]
    cases t₃ with
    | yyyy =>
      obtain rfl : t₂ = .dd := by cases t₂ <;> simp at h₁₂ h₂₃ ⊢
      simp only [monthOf, ReadAsItself, Token.number, CalendarDate.mk.injEq]
      refine iff_of_false ?_ not_false
      rintro ⟨hyear', hmonth', -⟩
      -- otherwise eleven years would be 22800 and eleven months
      have hsplit := Nat.div_add_mod (12 * (1900 + month) + year - 1) 12
      omega
    | MM => exact absurd rfl h₁₃
    | dd =>
      obtain rfl : t₂ = .yyyy := by cases t₂ <;> simp at h₁₂ h₂₃ ⊢
      simp only [monthOf, ReadAsItself, Token.number, CalendarDate.mk.injEq]
      omega
  | dd =>
    rw [if_pos (by simp only [Token.number]; omega)]
    cases t₃ with
    | yyyy =>
      obtain rfl : t₂ = .MM := by cases t₂ <;> simp at h₁₂ h₂₃ ⊢
      simp only [monthOf, ReadAsItself, Token.number, CalendarDate.mk.injEq]
      omega
    | MM =>
      obtain rfl : t₂ = .yyyy := by cases t₂ <;> simp at h₁₂ h₂₃ ⊢
      simp only [monthOf, ReadAsItself, Token.number, CalendarDate.mk.injEq]
      omega
    | dd => exact absurd rfl h₁₃

/-- **Which dates survive**: whatever the output format, a text is converted into the same date
exactly if the date is read as itself in the order of the tokens of the input format. -/
theorem convert_eq_iff (input output : Format) {date : CalendarDate} (hdate : IsDate date) :
    convertDateUniversal (input.write date) input.input output.text = output.write date ↔
      ReadAsItself date (marks input.parts) := by
  obtain ⟨t₁, t₂, t₃, hmarks, h₁₂, h₁₃, h₂₃⟩ := input.exists_order
  have hmonth : (newDate (t₁.number date) (t₃.number date) 1).month < 100 := by
    rw [newDate_one]
    exact (Nat.succ_le_succ (Nat.mod_lt _ (by decide : 0 < 12)).le).trans_lt (by decide)
  have hday : (newDate (t₁.number date) (t₃.number date) 1).day < 100 := by
    rw [newDate_one]
    exact Nat.one_lt_succ_succ 98
  rw [convert_write input output hdate hmarks, output.write_inj hdate hmonth hday, hmarks]
  exact readAsItself_iff hdate h₁₂ h₁₃ h₂₃

/-- `yyyy-MM-dd`. -/
def isoFormat : Format where
  parts := [.inr .yyyy, .inl 45, .inr .MM, .inl 45, .inr .dd]
  once t := by cases t <;> rfl
  separators u hu := by
    have hdash : u = 45 := by simpa using hu
    subst hdash
    exact ⟨by decide, fun t => by cases t <;> decide⟩

/-- `ddMMyyyy`. -/
def compactFormat : Format where
  parts := [.inr .dd, .inr .MM, .inr .yyyy]
  once t := by cases t <;> rfl
  separators u hu := by simp at hu

theorem convert_eq_iff_newYear : convertDateUniversal (isoFormat.write ⟨2024, 1, 1⟩)
    isoFormat.input compactFormat.text = compactFormat.write ⟨2024, 1, 1⟩ :=
  (convert_eq_iff isoFormat compactFormat ⟨by decide, by decide, by decide⟩).2 ⟨rfl, rfl⟩

/-- The day is taken for a month. -/
theorem convert_isoFormat :
    isoFormat.text = "yyyy-MM-dd" ∧ isoFormat.write ⟨2024, 3, 15⟩ = "2024-03-15" ∧
    IsDate ⟨2024, 3, 15⟩ ∧ compactFormat.text = "ddMMyyyy" ∧
    compactFormat.write ⟨2024, 3, 15⟩ = "15032024" ∧
    convertDateUniversal (isoFormat.write ⟨2024, 3, 15⟩) isoFormat.input compactFormat.text =
      "01032025" ∧
    convertDateUniversal (isoFormat.write ⟨2024, 3, 15⟩) isoFormat.input compactFormat.text ≠
      compactFormat.write ⟨2024, 3, 15⟩ := by
  refine ⟨?_, ?_, ⟨by decide, by decide, by decide⟩, ?_, ?_, ?_, ?_⟩ <;> decide +kernel

end CalcText

end N8n
