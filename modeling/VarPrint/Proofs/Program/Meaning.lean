/-
# What a program means

The reference meaning of the language. A declaration binds a name to a value, printing adds a value
to the output, and an expression denotes the value of its literal or the one bound to its name. A
numeral without a point is read in base ten, whatever zeros it begins with, a numeral with a point
denotes an exact fraction, and a text its content as it is written. A program whose names are not
all bound has no meaning.
-/

import VarPrint.Proofs.Number.Numeral
import Mathlib.Data.List.Induction
import Mathlib.Data.Rat.Lemmas
import Mathlib.Tactic.Ring

namespace VarPrint

namespace Numeral

/-- The fraction that a numeral with a point denotes: all its digits over a power of ten. -/
def decimalValue (numeral : Bytes) : Rat :=
  let whole := numeral.takeWhile (· ≠ Byte.dot)
  let fraction := numeral.drop (whole.length + 1)
  mkRat (value (whole ++ fraction)) (10 ^ fraction.length)

/-- Digits in front of others are worth a power of ten more for each of these. -/
theorem value_append (first second : Bytes) :
    value (first ++ second) = value first * 10 ^ second.length + value second := by
  induction second using List.reverseRecOn with
  | nil => simp [value]
  | append_singleton second b ih =>
      rw [← List.append_assoc, value_append_singleton, ih, value_append_singleton,
        List.length_append, List.length_singleton, Nat.pow_succ]
      ring

/-- The digits on both sides of the point are worth their own values, those after it as a part of a
power of ten. -/
theorem decimalValue_digits {whole fraction : Bytes} (isWhole : Lexeme.IsDigits whole) :
    decimalValue (whole ++ Byte.dot :: fraction) =
      value whole + value fraction / 10 ^ fraction.length := by
  have beforeDot : (whole ++ Byte.dot :: fraction).takeWhile (· ≠ Byte.dot) = whole := by
    have outside (b : UInt8) (member : b ∈ whole) : decide (b ≠ Byte.dot) = true :=
      decide_eq_true (Byte.ne_of_class (isWhole.2 b member) rfl)
    exact (Bytes.Stops.cons (p := fun b => decide (b ≠ Byte.dot)) rfl fraction).takeWhile_append
      outside
  have afterDot : (whole ++ Byte.dot :: fraction).drop (whole.length + 1) = fraction := by
    simp
  unfold decimalValue
  rw [beforeDot]
  dsimp only
  rw [afterDot, Rat.mkRat_eq_div, value_append]
  push_cast
  rw [add_div, mul_div_cancel_right₀ _ (pow_ne_zero _ (by decide))]

end Numeral

/-- What an expression denotes and what printing adds to the output. -/
inductive Value where
  | whole (n : Nat)
  | decimal (q : Rat)
  | text (content : Bytes)
deriving DecidableEq

/-- The values of the names that are bound, the latest binding first. -/
abbrev Environment := List (Bytes × Value)

/-- The value of an expression, if its name is bound. -/
def Expr.eval? (environment : Environment) : Expr → Option Value
  | number numeral false _ => some (.whole (Numeral.value numeral))
  | number numeral true _ => some (.decimal (Numeral.decimalValue numeral))
  | text content _ => some (.text content)
  | reference name _ => environment.lookup name

/-- The output of a program, if every name is bound where it is used. -/
def Program.run? (environment : Environment) : Program → Option (List Value)
  | [] => some []
  | .declare name value _ _ :: rest => do
    let bound ← value.eval? environment
    run? ((name, bound) :: environment) rest
  | .print argument _ :: rest => do
    let printed ← argument.eval? environment
    let others ← run? environment rest
    return printed :: others

end VarPrint
