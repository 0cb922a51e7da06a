/-
# Escapes in texts

The content of a text may hold the escapes that Java accepts in a string literal. Java reads Unicode
escapes before it looks for literals, so one that stands for a line end, a quote or a backslash
would break the literal and is refused here.
-/

import VarPrint.Text.Rune

namespace VarPrint.Escape

/-- What stands after a backslash: an escape or not, and how many bytes it takes. -/
inductive Reading where
  | valid (length : Nat)
  | invalid (length : Nat)
deriving DecidableEq, Repr

/-- The bytes that make an escape with a backslash alone. -/
def letters : Bytes := utf8 "btnfrs\"'\\"

/-- The value of four hexadecimal digits. -/
def hexQuad? : Bytes → Option Nat
  | [a, b, c, d] => do
    let a ← Byte.hexValue? a
    let b ← Byte.hexValue? b
    let c ← Byte.hexValue? c
    let d ← Byte.hexValue? d
    return ((a * 16 + b) * 16 + c) * 16 + d
  | _ => none

/-- A UTF-16 unit that may not be written as a Unicode escape: line feed, carriage return, quote
and backslash. -/
def isForbiddenUnit (unit : Nat) : Bool :=
  unit == 0x0A || unit == 0x0D || unit == 0x22 || unit == 0x5C

/-- Reads a Unicode escape from its first letter on: any number of that letter and four digits. -/
def readUnicode (input : Bytes) : Reading :=
  let marks := (input.takeWhile (· = 0x75)).length
  let digits := input.drop marks
  if digits.length < 4 then .invalid input.length
  else match hexQuad? (digits.take 4) with
    | some unit => if isForbiddenUnit unit then .invalid (marks + 4) else .valid (marks + 4)
    | none => .invalid (marks + 4)

/-- Reads what stands after a backslash. An octal escape takes up to three digits, but only two when
the first is above three. A backslash at the very end is left alone. -/
def read : Bytes → Reading
  | [] => .valid 0
  | b :: rest =>
    if b ∈ letters then .valid 1
    else if Byte.isOctal b then
      let more := rest.take (if b ≤ 0x33 then 2 else 1)
      .valid (1 + (more.takeWhile Byte.isOctal).length)
    else if b = 0x75 then readUnicode (b :: rest)
    else .invalid (Rune.width (b :: rest))

/-- An escape that is refused: where its backslash stands, and its bytes. -/
structure Bad where
  start : Nat
  bytes : Bytes
deriving DecidableEq, Repr

/-- The same escape in a longer content. -/
def Bad.shift (bad : Bad) (count : Nat) : Bad :=
  { bad with start := bad.start + count }

/-- The first escape in the content of a text that is refused. -/
def findBad? : Bytes → Option Bad
  | [] => none
  | b :: rest =>
    if b = Byte.backslash then
      match read rest with
      | .valid length => (findBad? (rest.drop length)).map (·.shift (1 + length))
      | .invalid length => some ⟨0, b :: rest.take length⟩
    else (findBad? rest).map (·.shift 1)
termination_by content => content.length

end VarPrint.Escape
