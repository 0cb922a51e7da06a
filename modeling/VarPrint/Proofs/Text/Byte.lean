/-
# Classes of bytes as ranges of codes

The classes of ASCII bytes are Boolean tests on bytes. Here each one is a range of codes, so that
what one class says of another is arithmetic.
-/

import VarPrint.Token.Scan

namespace VarPrint.Byte

variable {b : UInt8}

theorem isDigit_iff : isDigit b = true ↔ 0x30 ≤ b.toNat ∧ b.toNat ≤ 0x39 := by
  simp [isDigit, UInt8.le_iff_toNat_le]

theorem isLetter_iff :
    isLetter b = true ↔
      (0x61 ≤ b.toNat ∧ b.toNat ≤ 0x7A) ∨ (0x41 ≤ b.toNat ∧ b.toNat ≤ 0x5A) := by
  simp [isLetter, isLower, isUpper, UInt8.le_iff_toNat_le]

theorem isOctal_iff : isOctal b = true ↔ 0x30 ≤ b.toNat ∧ b.toNat ≤ 0x37 := by
  simp [isOctal, UInt8.le_iff_toNat_le]

/-- A hexadecimal digit of either case is in ASCII. -/
theorem lt_of_hexValue? {value : Nat} (digit : hexValue? b = some value) : b < 0x80 := by
  rw [UInt8.lt_iff_toNat_lt]
  show b.toNat < 0x80
  simp only [hexValue?, isDigit_iff, Bool.and_eq_true, decide_eq_true_eq,
    UInt8.le_iff_toNat_le, UInt8.reduceToNat] at digit
  split at digit
  · omega
  · split at digit
    · omega
    · split at digit
      · omega
      · cases digit

theorem isNameByte_iff :
    Lexeme.isNameByte b = true ↔
      isLetter b = true ∨ isDigit b = true ∨ b = underscore := by
  simp [Lexeme.isNameByte, isAlphanumeric, or_assoc]

/-- A byte that is shown in print, in the range of ASCII. -/
def IsVisible (b : UInt8) : Prop :=
  0x20 < b.toNat ∧ b.toNat < 0x80

instance : DecidablePred IsVisible :=
  fun b => inferInstanceAs (Decidable (0x20 < b.toNat ∧ b.toNat < 0x80))

theorem isVisible_of_isLetter (letter : isLetter b = true) : IsVisible b := by
  have range := isLetter_iff.mp letter
  unfold IsVisible
  omega

theorem isVisible_of_isDigit (digit : isDigit b = true) : IsVisible b := by
  have range := isDigit_iff.mp digit
  unfold IsVisible
  omega

theorem isDigit_of_isLetter (letter : isLetter b = true) : isDigit b = false := by
  have range := isLetter_iff.mp letter
  rw [← Bool.not_eq_true, isDigit_iff]
  omega

/-- A byte outside a class differs from every byte inside. -/
theorem ne_of_class {p : UInt8 → Bool} {inside outside : UInt8} (isIn : p inside = true)
    (isOut : p outside = false) : inside ≠ outside := by
  rintro rfl
  rw [isIn] at isOut
  cases isOut

end VarPrint.Byte
