/-
# Decimal numerals

The canonical numeral of a number, the value of a run of digits, and the reading of a signed
numeral of any length. Whether a value fits a machine word is a separate question, so a numeral is
never cut off while it is read.
-/

import VarPrint.Text.Bytes

namespace VarPrint.Numeral

/-- The digit with a value below ten. -/
def digit (value : Nat) : UInt8 :=
  UInt8.ofNat (0x30 + value)

/-- The value of an ASCII digit. -/
def digitValue (b : UInt8) : Nat :=
  b.toNat - 0x30

/-- The base-ten value of a run of digits, leading zeros included. -/
def value (digits : Bytes) : Nat :=
  digits.foldl (fun total b => 10 * total + digitValue b) 0

/-- The canonical numeral: no leading zero unless the number is zero. -/
def ofNat (n : Nat) : Bytes :=
  if n < 10 then [digit n] else ofNat (n / 10) ++ [digit (n % 10)]

/-- The canonical numeral of an integer, with a minus sign in front of a negative one. -/
def ofInt : Int → Bytes
  | .ofNat n => ofNat n
  | .negSucc n => Byte.minus :: ofNat (n + 1)

/-- The hexadecimal numeral in lower case, without leading zeros. -/
def hexOfNat (n : Nat) : Bytes :=
  if n < 16 then [Bytes.hexDigit n] else hexOfNat (n / 16) ++ [Bytes.hexDigit (n % 16)]

/-- An optional sign in front of a text: whether it is negative, and what follows it. -/
def splitSign : Bytes → Bool × Bytes
  | [] => (false, [])
  | b :: rest =>
    if b = Byte.minus then (true, rest)
    else if b = 0x2B then (false, rest)
    else (false, b :: rest)

/-- The integer that an optional sign and one or more digits denote. -/
def readInt? (text : Bytes) : Option Int :=
  let (negative, digits) := splitSign text
  if digits.isEmpty || !digits.all Byte.isDigit then none
  else if negative then some (-(value digits : Int))
  else some (value digits : Int)

/-- The integer is a two's-complement word of the given number of bits. -/
def fitsWord (bits : Nat) (n : Int) : Bool :=
  -(Nat.pow 2 (bits - 1) : Int) ≤ n && n < (Nat.pow 2 (bits - 1) : Int)

/-- The word of the given number of bits that agrees with an integer in its lowest bits. -/
def toWord (bits : Nat) (n : Int) : Int :=
  n.bmod (Nat.pow 2 bits)

/-- A signed numeral whose value is a word of the given number of bits. -/
def readWord? (bits : Nat) (text : Bytes) : Option Int :=
  (readInt? text).filter (fitsWord bits)

end VarPrint.Numeral
