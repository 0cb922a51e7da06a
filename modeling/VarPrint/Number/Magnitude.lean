/-
# Numerals with a fraction and the range of binary64

A numeral with a point or an exponent denotes an exact rational number. Its digits are decimal, with
an exponent that counts powers of ten, or hexadecimal after `0x`, with one that counts powers of
two. Low lines may separate digits. Rounded to the nearest binary64 value, ties to even, a magnitude
becomes infinite from `2 ^ 1024 - 2 ^ 970` on and zero up to `2 ^ -1075`. Both tests are made in
exact arithmetic, whatever the length of the numeral.
-/

import VarPrint.Number.Numeral

namespace VarPrint

/-- The radix of the digits of a numeral. -/
inductive Radix where
  | decimal
  | hexadecimal
deriving DecidableEq, Repr

namespace Radix

/-- The factor between neighbouring digits. -/
def base : Radix → Nat
  | decimal => 10
  | hexadecimal => 16

/-- The number whose powers an exponent counts. -/
def exponentBase : Radix → Nat
  | decimal => 10
  | hexadecimal => 2

/-- How much one digit of a fraction takes from the exponent. -/
def digitWeight : Radix → Nat
  | decimal => 1
  | hexadecimal => 4

/-- The letter in front of an exponent. -/
def isMark : Radix → UInt8 → Bool
  | decimal, b => b == 0x65 || b == 0x45
  | hexadecimal, b => b == 0x70 || b == 0x50

/-- A digit of the radix. -/
def isDigit : Radix → UInt8 → Bool
  | decimal, b => Byte.isDigit b
  | hexadecimal, b => (Byte.hexValue? b).isSome

/-- The value of a digit. -/
def digitValue : Radix → UInt8 → Nat
  | decimal, b => Numeral.digitValue b
  | hexadecimal, b => (Byte.hexValue? b).getD 0

/-- The value of a run of digits, leading zeros included. -/
def value (radix : Radix) (digits : Bytes) : Nat :=
  digits.foldl (fun total b => radix.base * total + radix.digitValue b) 0

end Radix

/-- The magnitude `mantissa * base ^ exponent`; the sign plays no part in the range. -/
structure Magnitude where
  mantissa : Nat
  base : Nat
  exponent : Int
deriving DecidableEq, Repr

namespace Magnitude

/-- The numerator of the magnitude over a power of its base. -/
def numerator (m : Magnitude) : Nat :=
  m.mantissa * Nat.pow m.base m.exponent.toNat

/-- The power of the base below the numerator. -/
def denominator (m : Magnitude) : Nat :=
  Nat.pow m.base (-m.exponent).toNat

/-- The magnitude rounds to infinity. -/
def isInfinite (m : Magnitude) : Bool :=
  (Nat.pow 2 1024 - Nat.pow 2 970) * m.denominator ≤ m.numerator

/-- The magnitude rounds to zero. -/
def isZero (m : Magnitude) : Bool :=
  m.numerator * Nat.pow 2 1075 ≤ m.denominator

/-- The value of the digits of an exponent; from ten thousand on further digits are ignored, since
no mantissa of a practical length brings such a number back into range. -/
def exponentValue (digits : Bytes) : Nat :=
  digits.foldl (fun total b => if total < 10000 then 10 * total + Numeral.digitValue b else total) 0

/-- The exponent after a mantissa: a mark, an optional sign and decimal digits. Only a decimal
numeral may go without. -/
def readExponent? (radix : Radix) : Bytes → Option Int
  | [] => if radix = .decimal then some 0 else none
  | b :: rest =>
    if radix.isMark b then
      let (negative, digits) := Numeral.splitSign rest
      if digits.isEmpty || !digits.all Byte.isDigit then none
      else if negative then some (-(exponentValue digits : Int))
      else some (exponentValue digits : Int)
    else none

/-- The digits of a fraction after its point, if there is a point, and what follows. -/
def splitFraction (radix : Radix) : Bytes → Bytes × Bytes
  | [] => ([], [])
  | b :: rest => if b = Byte.dot then rest.span radix.isDigit else ([], b :: rest)

/-- Reads digits with at most one point among or beside them, and an exponent. -/
def readDigits? (radix : Radix) (text : Bytes) : Option Magnitude :=
  let (whole, afterWhole) := text.span radix.isDigit
  let (fraction, afterFraction) := splitFraction radix afterWhole
  if whole.isEmpty && fraction.isEmpty then none
  else (readExponent? radix afterFraction).map fun exponent =>
    ⟨radix.value (whole ++ fraction), radix.exponentBase,
      exponent - radix.digitWeight * fraction.length⟩

/-- The radix of an unsigned numeral and what follows the mark of the radix. -/
def splitRadix : Bytes → Radix × Bytes
  | zero :: letter :: rest =>
    if zero = 0x30 ∧ (letter = 0x78 ∨ letter = 0x58) then (.hexadecimal, rest)
    else (.decimal, zero :: letter :: rest)
  | text => (.decimal, text)

/-- Every low line stands right after a digit and right before one. -/
def isSeparated (radix : Radix) : (afterDigit : Bool) → Bytes → Bool
  | _, [] => true
  | afterDigit, b :: rest =>
    if b = Byte.underscore then
      afterDigit && rest.head?.any radix.isDigit && isSeparated radix false rest
    else isSeparated radix (radix.isDigit b) rest

/-- Reads a numeral with an optional sign. The mark of a radix counts as a digit for the low line
after it. -/
def read? (text : Bytes) : Option Magnitude :=
  let (_, unsigned) := Numeral.splitSign text
  let (radix, body) := splitRadix unsigned
  if isSeparated radix (radix = .hexadecimal) body then
    readDigits? radix (body.filter (· ≠ Byte.underscore))
  else none

/-- The numeral is read, stays finite, and becomes zero only if it is written with zeros and a point
alone. -/
def isInRange (text : Bytes) : Bool :=
  match read? text with
  | none => false
  | some m => !m.isInfinite && (!m.isZero || text.all fun b => b == 0x30 || b == Byte.dot)

end Magnitude

end VarPrint
