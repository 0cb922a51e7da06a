/-
# Decimal numerals and their values

The value of a run of digits is that of their places. The canonical numeral of a number has that
number as its value, consists of digits, and begins with a zero only if it is a zero. A run of
digits, leading zeros included, is read as a word exactly when its value is below the sign bit.
-/

import VarPrint.Proofs.Token.Shape
import VarPrint.Program.Basic
import Mathlib.Algebra.Group.Nat.Defs
import Mathlib.Data.List.Induction
import Mathlib.Data.Nat.Digits.Defs

namespace VarPrint.Numeral

open Lexeme (IsDigits)

theorem toNat_digit {value : Nat} (small : value < 10) : (digit value).toNat = 0x30 + value := by
  rw [digit, UInt8.toNat_ofNat']
  omega

theorem isDigit_digit {value : Nat} (small : value < 10) : Byte.isDigit (digit value) = true := by
  rw [Byte.isDigit_iff, toNat_digit small]
  omega

theorem digitValue_digit {value : Nat} (small : value < 10) : digitValue (digit value) = value := by
  rw [digitValue, toNat_digit small]
  omega

/-- One more digit is worth ten times what stands before it, and its own value. -/
theorem value_append_singleton (digits : Bytes) (b : UInt8) :
    value (digits ++ [b]) = 10 * value digits + digitValue b := by
  rw [value, List.foldl_append]
  rfl

/-- The value of digits by their places: each counts by a power of ten, the last one by itself. -/
def positional (digits : Bytes) : Nat :=
  Nat.ofDigits 10 (digits.reverse.map digitValue)

/-- Digits that are added up from the left have the value of their places. -/
theorem value_eq_positional (digits : Bytes) : value digits = positional digits := by
  induction digits using List.reverseRecOn with
  | nil => rfl
  | append_singleton digits b ih =>
      rw [value_append_singleton, ih, positional, positional, List.reverse_append,
        List.reverse_singleton, List.singleton_append, List.map_cons, Nat.ofDigits_cons,
        Nat.add_comm]

/-- The canonical numeral of a number denotes it. -/
theorem value_ofNat (n : Nat) : value (ofNat n) = n := by
  fun_induction ofNat n with
  | case1 n small =>
      show 10 * 0 + digitValue (digit n) = n
      rw [digitValue_digit small]
      omega
  | case2 n large ih =>
      rw [value_append_singleton, ih, digitValue_digit (Nat.mod_lt n (by decide))]
      omega

theorem isDigits_ofNat (n : Nat) : IsDigits (ofNat n) := by
  fun_induction ofNat n with
  | case1 n small =>
      refine ⟨by simp, fun b member => ?_⟩
      rw [List.mem_singleton.mp member]
      exact isDigit_digit small
  | case2 n large ih =>
      refine ⟨by simp, fun b member => ?_⟩
      obtain before | last := List.mem_append.mp member
      · exact ih.2 b before
      · rw [List.mem_singleton.mp last]
        exact isDigit_digit (Nat.mod_lt n (by decide))

/-- Only the numeral of zero begins with a zero. -/
theorem head?_ofNat_ne_zero {n : Nat} (positive : 0 < n) : (ofNat n).head? ≠ some 0x30 := by
  fun_induction ofNat n with
  | case1 n small =>
      intro isZero
      have same := congrArg UInt8.toNat (Option.some.inj isZero)
      rw [toNat_digit small] at same
      have : (0x30 : UInt8).toNat = 0x30 := rfl
      omega
  | case2 n large ih =>
      have nonempty := (isDigits_ofNat (n / 10)).1
      rw [List.head?_append, Option.or_of_isSome (List.isSome_head?.mpr nonempty)]
      exact ih (by omega)

/-- The digits of a number without a zero in front, unless the number is zero. -/
structure IsCanonical (numeral : Bytes) (n : Nat) : Prop where
  digits : IsDigits numeral
  value : positional numeral = n
  zero : numeral.head? = some 0x30 → n = 0 ∧ numeral = [0x30]

theorem isCanonical_ofNat (n : Nat) : IsCanonical (ofNat n) n where
  digits := isDigits_ofNat n
  value := by rw [← value_eq_positional, value_ofNat]
  zero := by
    intro beginsZero
    by_cases isZero : n = 0
    · rw [isZero, ofNat]
      exact ⟨rfl, rfl⟩
    · exact absurd beginsZero (head?_ofNat_ne_zero (Nat.pos_of_ne_zero isZero))

/-- A text that begins with digits has no sign to be split off. -/
theorem splitSign_digits_append {digits : Bytes} (isDigits : IsDigits digits) (rest : Bytes) :
    splitSign (digits ++ rest) = (false, digits ++ rest) := by
  cases digits with
  | nil => exact absurd rfl isDigits.1
  | cons b digits =>
      have digit := isDigits.2 b List.mem_cons_self
      rw [List.cons_append, splitSign, if_neg (Byte.ne_of_class digit rfl),
        if_neg (Byte.ne_of_class digit rfl)]

/-- A run of digits has no sign to be split off. -/
theorem splitSign_digits {digits : Bytes} (isDigits : IsDigits digits) :
    splitSign digits = (false, digits) := by
  have whole := splitSign_digits_append isDigits []
  rwa [List.append_nil] at whole

theorem readInt?_digits {digits : Bytes} (isDigits : IsDigits digits) :
    readInt? digits = some (value digits : Int) := by
  have all : digits.all Byte.isDigit = true := List.all_eq_true.mpr isDigits.2
  have nonempty : digits.isEmpty = false := by simp [isDigits.1]
  unfold readInt?
  rw [splitSign_digits isDigits]
  simp [all, nonempty]

/-- A run of digits is read as a word exactly when its value is below the sign bit. -/
theorem readWord?_digits {digits : Bytes} (isDigits : IsDigits digits) (bits : Nat) :
    readWord? bits digits =
      if value digits < 2 ^ (bits - 1) then some (value digits : Int) else none := by
  have fits : fitsWord bits (value digits) = decide (value digits < 2 ^ (bits - 1)) := by
    have low : -(Nat.pow 2 (bits - 1) : Int) ≤ value digits := by omega
    unfold fitsWord
    rw [decide_eq_true low, Bool.true_and]
    exact decide_eq_decide.mpr Int.ofNat_lt
  rw [readWord?, readInt?_digits isDigits, Option.filter_some, fits]
  simp only [decide_eq_true_eq]

theorem ofNumeral_digits {digits : Bytes} (isDigits : IsDigits digits) :
    Ty.ofNumeral digits false = if value digits < 2 ^ 31 then .integer else .long := by
  rw [Ty.ofNumeral, if_neg Bool.false_ne_true, readWord?_digits isDigits]
  by_cases small : value digits < 2 ^ 31
  · rw [if_pos small, if_pos small]
    rfl
  · rw [if_neg small, if_neg small]
    rfl

end VarPrint.Numeral
