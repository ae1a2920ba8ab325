import Mathlib.Data.List.Basic
import Mathlib.Tactic.NormNum

/-!
# UTF-8

The encoder, and the decoder of the Encoding Standard, which answers any bytes: it reads one byte at
a time and writes the replacement character for each error.

* `encode`, `Decoder.step`, `decode`;
* `decode_encode`: what the encoder writes is read back.
-/

namespace Utf8

/-- The bytes of a text. -/
def encode (s : List Char) : List UInt8 := s.flatMap String.utf8EncodeChar

/-- What is known of the character that is read: its code point so far, the number of bytes that are
still needed, and the bounds of the next one. -/
structure Decoder where
  codePoint : ℕ
  needed : ℕ
  lower : ℕ
  upper : ℕ
  deriving DecidableEq

namespace Decoder

/-- Between two characters. -/
def start : Decoder := ⟨0, 0, 0x80, 0xbf⟩

/-- The character that stands for an error. -/
def replacement : Char := Char.ofNat 0xfffd

/-- The first byte of a character. -/
def lead (b : ℕ) : List Char × Decoder :=
  if b ≤ 0x7f then ([Char.ofNat b], start)
  else if 0xc2 ≤ b ∧ b ≤ 0xdf then ([], ⟨b % 0x20, 1, 0x80, 0xbf⟩)
  else if 0xe0 ≤ b ∧ b ≤ 0xef then
    ([], ⟨b % 0x10, 2, if b = 0xe0 then 0xa0 else 0x80, if b = 0xed then 0x9f else 0xbf⟩)
  else if 0xf0 ≤ b ∧ b ≤ 0xf4 then
    ([], ⟨b % 0x08, 3, if b = 0xf0 then 0x90 else 0x80, if b = 0xf4 then 0x8f else 0xbf⟩)
  else ([replacement], start)

/-- One byte: the characters that it completes, and the decoder after it. -/
def step (d : Decoder) (b : ℕ) : List Char × Decoder :=
  if d.needed = 0 then lead b
  else if b < d.lower ∨ d.upper < b then
    -- the byte that does not belong here is read again, as a first one
    (replacement :: (lead b).1, (lead b).2)
  else if d.needed = 1 then ([Char.ofNat (d.codePoint * 0x40 + b % 0x40)], start)
  else ([], ⟨d.codePoint * 0x40 + b % 0x40, d.needed - 1, 0x80, 0xbf⟩)

/-- The characters that are read from the rest of the bytes. -/
def run : Decoder → List UInt8 → List Char
  | d, [] => if d.needed = 0 then [] else [replacement]
  | d, b :: bs => (d.step b.toNat).1 ++ run (d.step b.toNat).2 bs

end Decoder

/-- The text of any bytes. -/
def decode (bs : List UInt8) : List Char := Decoder.start.run bs

namespace Decoder

theorem toNat_ofNat {n : ℕ} (h : n < 256) : (UInt8.ofNat n).toNat = n :=
  UInt8.toNat_ofNat_of_lt' h

theorem run_lead {n : ℕ} (h : n < 256) (bs : List UInt8) :
    start.run (UInt8.ofNat n :: bs) = (lead n).1 ++ (lead n).2.run bs := by
  rw [run, toNat_ofNat h]
  rfl

/-- The last byte of a character. -/
theorem run_last {codePoint lower upper n : ℕ} (bs : List UInt8)
    (hlower : lower ≤ n % 0x40 + 0x80) (hupper : n % 0x40 + 0x80 ≤ upper) :
    (Decoder.mk codePoint 1 lower upper).run (UInt8.ofNat (n % 0x40 + 0x80) :: bs) =
      Char.ofNat (codePoint * 0x40 + n % 0x40) :: start.run bs := by
  have hrange : ¬(n % 0x40 + 0x80 < lower ∨ upper < n % 0x40 + 0x80) := by omega
  have hbits : (n % 0x40 + 0x80) % 0x40 = n % 0x40 := by omega
  rw [run, toNat_ofNat (by omega)]
  simp only [step, hrange, hbits]
  rfl

/-- A byte that is neither the first nor the last of its character. -/
theorem run_middle {codePoint needed lower upper n : ℕ} (bs : List UInt8)
    (hlower : lower ≤ n % 0x40 + 0x80) (hupper : n % 0x40 + 0x80 ≤ upper) :
    (Decoder.mk codePoint (needed + 2) lower upper).run (UInt8.ofNat (n % 0x40 + 0x80) :: bs) =
      (Decoder.mk (codePoint * 0x40 + n % 0x40) (needed + 1) 0x80 0xbf).run bs := by
  have hrange : ¬(n % 0x40 + 0x80 < lower ∨ upper < n % 0x40 + 0x80) := by omega
  have hbits : (n % 0x40 + 0x80) % 0x40 = n % 0x40 := by omega
  rw [run, toNat_ofNat (by omega)]
  simp only [step, hrange, hbits]
  rfl

/-- The bytes of a character by its code point. -/
theorem utf8EncodeChar_eq (c : Char) : String.utf8EncodeChar c =
    if c.toNat ≤ 0x7f then [UInt8.ofNat c.toNat]
    else if c.toNat ≤ 0x7ff then [UInt8.ofNat (c.toNat / 0x40 % 0x20 + 0xc0),
      UInt8.ofNat (c.toNat % 0x40 + 0x80)]
    else if c.toNat ≤ 0xffff then [UInt8.ofNat (c.toNat / 0x1000 % 0x10 + 0xe0),
      UInt8.ofNat (c.toNat / 0x40 % 0x40 + 0x80), UInt8.ofNat (c.toNat % 0x40 + 0x80)]
    else [UInt8.ofNat (c.toNat / 0x40000 % 0x08 + 0xf0),
      UInt8.ofNat (c.toNat / 0x1000 % 0x40 + 0x80), UInt8.ofNat (c.toNat / 0x40 % 0x40 + 0x80),
      UInt8.ofNat (c.toNat % 0x40 + 0x80)] := rfl

/-- The decoder reads the bytes of a character as that character. -/
theorem run_utf8EncodeChar (c : Char) (bs : List UInt8) :
    start.run (String.utf8EncodeChar c ++ bs) = c :: start.run bs := by
  have hvalid : c.toNat < 0xd800 ∨ 0xdfff < c.toNat ∧ c.toNat < 0x110000 := c.valid
  have hofNat : ∀ n, n = c.toNat → Char.ofNat n = c := fun n hn => hn ▸ Char.ofNat_toNat c
  rw [utf8EncodeChar_eq]
  generalize c.toNat = v at hvalid hofNat ⊢
  split_ifs with h1 h2 h3 <;> simp only [List.cons_append, List.nil_append]
  · rw [run_lead (by omega), lead, if_pos h1, hofNat _ rfl, List.singleton_append]
  · rw [run_lead (by omega), lead, if_neg (by omega), if_pos (by omega), List.nil_append]
    rw [run_last _ (by omega) (by omega), hofNat _ (by omega)]
  · -- the bounds of the second byte leave out the shorter forms and the surrogates
    rw [run_lead (by omega), lead, if_neg (by omega), if_neg (by omega), if_pos (by omega),
      List.nil_append]
    rw [run_middle _ (by split_ifs <;> omega) (by split_ifs <;> omega)]
    rw [run_last _ (by omega) (by omega), hofNat _ (by omega)]
  · rw [run_lead (by omega), lead, if_neg (by omega), if_neg (by omega), if_neg (by omega),
      if_pos (by omega), List.nil_append]
    rw [run_middle _ (by split_ifs <;> omega) (by split_ifs <;> omega)]
    rw [run_middle _ (by omega) (by omega)]
    rw [run_last _ (by omega) (by omega), hofNat _ (by omega)]

end Decoder

theorem encode_cons (c : Char) (s : List Char) :
    encode (c :: s) = String.utf8EncodeChar c ++ encode s := rfl

/-- **What the encoder writes is read back.** -/
theorem decode_encode (s : List Char) : decode (encode s) = s := by
  induction s with
  | nil => rfl
  | cons c s ih => rw [decode, encode_cons, Decoder.run_utf8EncodeChar, ← decode, ih]

end Utf8
