/-
# Numerals with a point

A numeral with a point is read as all its digits over a power of ten. Its magnitude is compared with
the ends of the range of binary64 by whole numbers alone, so the comparison is that of exact
fractions, whatever the length of the numeral. The test for zero looks at the text: it is written
with zeros and a point exactly when its value is zero. The numerals that are accepted are then those
whose value, rounded to binary64, stays finite and does not vanish.
-/

import VarPrint.Proofs.Number.Binary64
import VarPrint.Proofs.Program.Grammar
import VarPrint.Proofs.Program.Meaning

namespace VarPrint

open Lexeme (IsDigits)

namespace Numeral

theorem digitValue_eq_zero_iff {b : UInt8} (digit : Byte.isDigit b = true) :
    digitValue b = 0 ↔ b = 0x30 := by
  have atLeast := (Byte.isDigit_iff.mp digit).1
  have zero : (0x30 : UInt8).toNat = 0x30 := rfl
  rw [digitValue, ← UInt8.toNat_inj, zero]
  omega

/-- Digits are worth nothing exactly if all of them are zeros. -/
theorem value_eq_zero_iff {digits : Bytes} (areDigits : ∀ b ∈ digits, Byte.isDigit b = true) :
    value digits = 0 ↔ ∀ b ∈ digits, b = 0x30 := by
  induction digits using List.reverseRecOn with
  | nil => simp [value]
  | append_singleton digits b ih =>
      rw [List.forall_mem_append, List.forall_mem_singleton] at areDigits ⊢
      rw [← ih areDigits.1, ← digitValue_eq_zero_iff areDigits.2, value_append_singleton]
      omega

end Numeral

namespace Magnitude

/-- The fraction that a magnitude stands for. -/
def toRat (m : Magnitude) : ℚ :=
  m.mantissa * (m.base : ℚ) ^ m.exponent

variable {m : Magnitude}

theorem denominator_pos (base : 0 < m.base) : (0 : ℚ) < m.denominator := by
  exact_mod_cast Nat.pow_pos base

theorem toRat_eq_div (m : Magnitude) : m.toRat = m.numerator / m.denominator := by
  rw [toRat, numerator, denominator, Nat.pow_eq, Nat.pow_eq]
  push_cast
  obtain ⟨n, positive | negative⟩ := Int.eq_nat_or_neg m.exponent
  · have noDenominator : (-(n : ℤ)).toNat = 0 := Int.toNat_eq_zero.mpr (by omega)
    rw [positive, Int.toNat_natCast, noDenominator, zpow_natCast, pow_zero, div_one]
  · have noFactor : (-(n : ℤ)).toNat = 0 := Int.toNat_eq_zero.mpr (by omega)
    rw [negative, noFactor, neg_neg, Int.toNat_natCast, zpow_neg, zpow_natCast, pow_zero, mul_one,
      div_eq_mul_inv]

theorem cast_two_pow_sub {k n : ℕ} (less : k ≤ n) :
    ((2 ^ n - 2 ^ k : ℕ) : ℚ) = 2 ^ n - 2 ^ k := by
  rw [Nat.cast_sub (Nat.pow_le_pow_right two_pos less), Nat.cast_pow, Nat.cast_pow, Nat.cast_ofNat]

theorem sub_mul_denominator_le_iff (base : 0 < m.base) {k n : ℕ} (less : k ≤ n) :
    (Nat.pow 2 n - Nat.pow 2 k) * m.denominator ≤ m.numerator ↔
      (2 : ℚ) ^ n - 2 ^ k ≤ m.toRat := by
  rw [toRat_eq_div, le_div_iff₀ (denominator_pos base), ← cast_two_pow_sub less, ← Nat.cast_mul,
    Nat.cast_le, Nat.pow_eq, Nat.pow_eq]

theorem numerator_mul_le_iff (base : 0 < m.base) (n : ℕ) :
    m.numerator * Nat.pow 2 n ≤ m.denominator ↔ m.toRat ≤ (2 : ℚ) ^ (-n : ℤ) := by
  have limit : (2 : ℚ) ^ (-n : ℤ) = ((Nat.pow 2 n : ℕ) : ℚ)⁻¹ := by
    rw [zpow_neg, zpow_natCast, Nat.pow_eq, Nat.cast_pow, Nat.cast_ofNat]
  have positive : (0 : ℚ) < (Nat.pow 2 n : ℕ) := Nat.cast_pos.mpr (Nat.two_pow_pos n)
  rw [toRat_eq_div, div_le_iff₀ (denominator_pos base), limit, le_inv_mul_iff₀ positive, mul_comm,
    ← Nat.cast_mul, Nat.cast_le]

/-- The two comparisons of whole numbers are those of the fraction with the ends of the range. -/
theorem inRange_toRat_iff (base : 0 < m.base) :
    Binary64.InRange m.toRat ↔ m.isInfinite = false ∧ (m.toRat = 0 ∨ m.isZero = false) := by
  have upper : m.isInfinite = true ↔ (2 : ℚ) ^ 1024 - 2 ^ 970 ≤ m.toRat := by
    simp only [isInfinite, decide_eq_true_iff, sub_mul_denominator_le_iff base, Nat.reduceLeDiff]
  have lower : m.isZero = true ↔ m.toRat ≤ (2 : ℚ) ^ (-1075 : ℤ) := by
    simp only [isZero, decide_eq_true_iff, numerator_mul_le_iff base, Nat.cast_ofNat]
  rw [Binary64.InRange, ← not_le, ← not_le, ← upper, ← lower, Bool.not_eq_true, Bool.not_eq_true]

/-! Reading -/

/-- A text of digits and points has no mark of another radix. -/
theorem splitRadix_decimal {text : Bytes} (plain : ∀ b ∈ text, Lexeme.isNumeralByte b = true) :
    splitRadix text = (.decimal, text) := by
  unfold splitRadix
  split
  · next zero letter rest =>
      have letterPlain := plain letter (by simp)
      rw [if_neg]
      rintro ⟨_, rfl | rfl⟩
      · cases letterPlain
      · cases letterPlain
  · rfl

theorem isSeparated_plain {text : Bytes} (plain : ∀ b ∈ text, Lexeme.isNumeralByte b = true)
    (afterDigit : Bool) : isSeparated .decimal afterDigit text = true := by
  induction text generalizing afterDigit with
  | nil => rfl
  | cons b rest ih =>
      rw [List.forall_mem_cons] at plain
      rw [isSeparated, if_neg (Byte.ne_of_class plain.1 rfl)]
      exact ih plain.2 _

theorem filter_plain {text : Bytes} (plain : ∀ b ∈ text, Lexeme.isNumeralByte b = true) :
    text.filter (· ≠ Byte.underscore) = text := by
  apply List.filter_eq_self.mpr
  intro b member
  exact decide_eq_true (Byte.ne_of_class (plain b member) rfl)

/-- Digits around a point as one whole number over a power of ten. -/
def ofDigits (whole fraction : Bytes) : Magnitude :=
  ⟨Numeral.value (whole ++ fraction), 10, -fraction.length⟩

variable {whole fraction : Bytes}

/-- A run of digits is cut off where the text behind it stops. -/
theorem span_digits {digits rest : Bytes} (isDigits : IsDigits digits)
    (stops : Bytes.Stops Byte.isDigit rest) :
    (digits ++ rest).span Byte.isDigit = (digits, rest) := by
  have taken := stops.takeWhile_append isDigits.2
  have all := List.takeWhile_append_dropWhile (p := Byte.isDigit) (l := digits ++ rest)
  rw [taken, List.append_right_inj] at all
  rw [List.span_eq_takeWhile_dropWhile, taken, all]

theorem readDigits?_decimal (isWhole : IsDigits whole) (isFraction : IsDigits fraction) :
    readDigits? .decimal (whole ++ Byte.dot :: fraction) = some (ofDigits whole fraction) := by
  have dotStops : Bytes.Stops Byte.isDigit (Byte.dot :: fraction) := .cons rfl fraction
  have endStops : Bytes.Stops Byte.isDigit [] := by simp [Bytes.Stops]
  have before : (whole ++ Byte.dot :: fraction).span (Radix.isDigit .decimal) =
      (whole, Byte.dot :: fraction) := span_digits isWhole dotStops
  have behind : splitFraction .decimal (Byte.dot :: fraction) = (fraction, []) := by
    have taken := span_digits isFraction endStops
    rw [List.append_nil] at taken
    rw [splitFraction, if_pos rfl]
    exact taken
  have nonempty : whole.isEmpty = false := by simp [isWhole.1]
  have exponent : 0 - (Radix.digitWeight .decimal : Int) * fraction.length = -fraction.length := by
    rw [Radix.digitWeight]
    omega
  rw [readDigits?, before]
  dsimp only
  rw [behind]
  dsimp only
  rw [nonempty, Bool.false_and, if_neg Bool.false_ne_true, readExponent?, if_pos rfl,
    Option.map_some, exponent]
  rfl

theorem isNumeralByte_of_digits (isWhole : IsDigits whole) (isFraction : IsDigits fraction) :
    ∀ b ∈ whole ++ Byte.dot :: fraction, Lexeme.isNumeralByte b = true := by
  have digit {b : UInt8} (isDigit : Byte.isDigit b = true) : Lexeme.isNumeralByte b = true :=
    Bool.or_eq_true_iff.mpr (.inl isDigit)
  rw [List.forall_mem_append, List.forall_mem_cons]
  exact ⟨fun b member => digit (isWhole.2 b member), rfl,
    fun b member => digit (isFraction.2 b member)⟩

theorem read?_decimal (isWhole : IsDigits whole) (isFraction : IsDigits fraction) :
    read? (whole ++ Byte.dot :: fraction) = some (ofDigits whole fraction) := by
  have plain := isNumeralByte_of_digits isWhole isFraction
  rw [read?, Numeral.splitSign_digits_append isWhole]
  dsimp only
  rw [splitRadix_decimal plain]
  dsimp only
  rw [if_pos (isSeparated_plain plain _), filter_plain plain]
  exact readDigits?_decimal isWhole isFraction

/-- Each side of the point is worth its digits, those behind it as a part of a power of ten. -/
theorem toRat_ofDigits (whole fraction : Bytes) :
    (ofDigits whole fraction).toRat =
      Numeral.positional whole + Numeral.positional fraction / 10 ^ fraction.length := by
  have power : (10 : ℚ) ^ fraction.length ≠ 0 := by positivity
  rw [toRat, ofDigits, Numeral.value_append, Numeral.value_eq_positional,
    Numeral.value_eq_positional, zpow_neg, zpow_natCast, ← div_eq_mul_inv]
  push_cast
  rw [add_div, mul_div_cancel_right₀ _ power]

/-- The text has only zeros and a point exactly if the fraction is zero. -/
theorem toRat_ofDigits_eq_zero_iff (isWhole : IsDigits whole) (isFraction : IsDigits fraction) :
    (ofDigits whole fraction).toRat = 0 ↔
      ((whole ++ Byte.dot :: fraction).all fun b => b == 0x30 || b == Byte.dot) = true := by
  have both : ∀ b ∈ whole ++ fraction, Byte.isDigit b = true :=
    List.forall_mem_append.mpr ⟨isWhole.2, isFraction.2⟩
  have zeros : Numeral.value (whole ++ fraction) = 0 ↔
      ∀ b ∈ whole ++ fraction, (b == 0x30 || b == Byte.dot) = true := by
    rw [Numeral.value_eq_zero_iff both]
    apply forall₂_congr
    intro b member
    have notDot : (b == Byte.dot) = false :=
      beq_eq_false_iff_ne.mpr (Byte.ne_of_class (both b member) rfl)
    rw [notDot, Bool.or_false, beq_iff_eq]
  have power : (10 : ℚ) ^ (-fraction.length : ℤ) ≠ 0 := by positivity
  rw [toRat, ofDigits, Nat.cast_ofNat, mul_eq_zero, or_iff_left power, Nat.cast_eq_zero, zeros,
    List.all_eq_true, List.forall_mem_append, List.forall_mem_append, List.forall_mem_cons]
  -- the point itself is among the bytes that are allowed
  exact and_congr_right' (and_iff_right rfl).symm

/-- The range test accepts the fractions that are in range. -/
theorem isInRange_decimal (isWhole : IsDigits whole) (isFraction : IsDigits fraction) :
    isInRange (whole ++ Byte.dot :: fraction) = true ↔
      Binary64.InRange (ofDigits whole fraction).toRat := by
  have base : 0 < (ofDigits whole fraction).base := Nat.succ_pos 9
  rw [inRange_toRat_iff base, toRat_ofDigits_eq_zero_iff isWhole isFraction, isInRange,
    read?_decimal isWhole isFraction]
  dsimp only
  rw [Bool.and_eq_true, Bool.or_eq_true, Bool.not_eq_true', Bool.not_eq_true', or_comm]

end Magnitude

open Numeral (positional)

/-- What becomes of a numeral with a point that denotes a fraction. -/
structure IsExactDecimal (numeral : Bytes) (q : ℚ) : Prop where
  /-- Exactly the fractions in the range of binary64 are accepted, as numbers with a point. -/
  accepted : ∀ (token : Token) (expr : Expr), token.value = numeral →
    (Parse.readNumber token = .ok expr ↔
      Binary64.InRange q ∧ expr = .number numeral true token)
  /-- They are those that rounding leaves finite, and that it leaves above zero unless they are
  zero. -/
  kept : Binary64.InRange q ↔ ∃ r, Binary64.nearest? q = some r ∧ (r = 0 → q = 0)
  /-- Rounding takes a fraction to a value of binary64 that no other one is nearer than. -/
  nearest : ∀ r, Binary64.nearest? q = some r →
    Binary64.IsValue r ∧ ∀ v, Binary64.IsValue v → |q - r| ≤ |q - v|

/-- Digits around a point are accepted exactly if their exact value is in the range of binary64,
however many they are. -/
theorem isExactDecimal_of_isDigits {whole fraction : Bytes} (isWhole : IsDigits whole)
    (isFraction : IsDigits fraction) :
    IsExactDecimal (whole ++ Byte.dot :: fraction)
      (positional whole + positional fraction / 10 ^ fraction.length) := by
  have nonneg : (0 : ℚ) ≤ positional whole + positional fraction / 10 ^ fraction.length := by
    positivity
  refine ⟨?_, ?_, ?_⟩
  · intro token expr spelled
    have hasDot : token.value.contains Byte.dot = true := by
      simp [spelled]
    rw [Grammar.readNumber_eq_ok_iff, hasDot, if_pos rfl, spelled,
      Magnitude.isInRange_decimal isWhole isFraction, Magnitude.toRat_ofDigits]
  · exact Binary64.inRange_iff_exists_nearest? nonneg
  · intro r rounds
    obtain ⟨_, rfl⟩ := Binary64.nearest?_eq_some_iff.mp rounds
    exact ⟨Binary64.isValue_round nonneg, fun v isValue => Binary64.abs_sub_round_le nonneg isValue⟩

/-- The least fraction that is rounded to infinity is halfway between the greatest value and the
power above it, and is refused. -/
theorem isExactDecimal_of_isDigits_halfway :
    IsDigits (Numeral.ofNat (2 ^ 1024 - 2 ^ 970)) ∧ IsDigits (utf8 "0") ∧
      IsExactDecimal (Numeral.ofNat (2 ^ 1024 - 2 ^ 970) ++ Byte.dot :: utf8 "0")
        (2 ^ 1024 - 2 ^ 970) ∧
      ¬ Binary64.InRange (2 ^ 1024 - 2 ^ 970) := by
  have isWhole := Numeral.isDigits_ofNat (2 ^ 1024 - 2 ^ 970)
  have isFraction : IsDigits (utf8 "0") := ⟨by decide, List.all_eq_true.mp (by decide)⟩
  have less : 970 ≤ 1024 := by decide
  have noFraction : positional (utf8 "0") = 0 := rfl
  have isExact := isExactDecimal_of_isDigits isWhole isFraction
  rw [(Numeral.isCanonical_ofNat _).value, Magnitude.cast_two_pow_sub less, noFraction,
    Nat.cast_zero, zero_div, add_zero] at isExact
  refine ⟨isWhole, isFraction, isExact, ?_⟩
  intro inRange
  exact lt_irrefl _ inRange.1

end VarPrint
