/-
# Byte strings

Sources, names, paths and messages are strings of bytes, valid UTF-8 or not. This file fixes the
type, the bytes that the formats name, the ASCII classes, and the few operations that every format
shares: literals, citations, the order of byte strings, and hexadecimal digits.
-/

namespace VarPrint

/-- A string of bytes; nothing is assumed about its encoding. -/
abbrev Bytes := List UInt8

/-- The UTF-8 bytes of a text, used to write literals. -/
def utf8 (text : String) : Bytes :=
  text.toList.flatMap String.utf8EncodeChar

namespace Byte

/-- Line feed, the only byte that ends a line of a source. -/
abbrev lineFeed : UInt8 := 0x0A

/-- Double quote. -/
abbrev quote : UInt8 := 0x22

/-- Backslash. -/
abbrev backslash : UInt8 := 0x5C

/-- Full stop. -/
abbrev dot : UInt8 := 0x2E

/-- Slash, the separator of paths. -/
abbrev slash : UInt8 := 0x2F

/-- Space. -/
abbrev space : UInt8 := 0x20

/-- Low line. -/
abbrev underscore : UInt8 := 0x5F

/-- Hyphen-minus. -/
abbrev minus : UInt8 := 0x2D

/-- An ASCII digit. -/
def isDigit (b : UInt8) : Bool :=
  0x30 ≤ b && b ≤ 0x39

/-- An ASCII lower-case letter. -/
def isLower (b : UInt8) : Bool :=
  0x61 ≤ b && b ≤ 0x7A

/-- An ASCII upper-case letter. -/
def isUpper (b : UInt8) : Bool :=
  0x41 ≤ b && b ≤ 0x5A

/-- An ASCII letter. -/
def isLetter (b : UInt8) : Bool :=
  isLower b || isUpper b

/-- An ASCII letter or digit. -/
def isAlphanumeric (b : UInt8) : Bool :=
  isLetter b || isDigit b

/-- An octal digit. -/
def isOctal (b : UInt8) : Bool :=
  0x30 ≤ b && b ≤ 0x37

/-- The value of a hexadecimal digit of either case. -/
def hexValue? (b : UInt8) : Option Nat :=
  if isDigit b then some (b.toNat - 0x30)
  else if 0x61 ≤ b && b ≤ 0x66 then some (b.toNat - 0x61 + 10)
  else if 0x41 ≤ b && b ≤ 0x46 then some (b.toNat - 0x41 + 10)
  else none

/-- The upper-case form of an ASCII letter; any other byte is left alone. -/
def toUpper (b : UInt8) : UInt8 :=
  if isLower b then b - 0x20 else b

end Byte

namespace Bytes

/-- The bytes between single quotes, as messages cite a piece of the source. -/
def cited (text : Bytes) : Bytes :=
  utf8 "'" ++ text ++ utf8 "'"

/-- A run of spaces. -/
def spaces (count : Nat) : Bytes :=
  List.replicate count Byte.space

/-- Byte strings in lexicographic order of their bytes. -/
def le : Bytes → Bytes → Bool
  | [], _ => true
  | _ :: _, [] => false
  | a :: first, b :: second => a < b || (a == b && le first second)

/-- The lower-case hexadecimal digit with a value below sixteen. -/
def hexDigit (value : Nat) : UInt8 :=
  if value < 10 then UInt8.ofNat (0x30 + value) else UInt8.ofNat (0x57 + value)

/-- The lowest hexadecimal digits of a number, most significant first, in lower case. -/
def hexDigits : (count : Nat) → Nat → Bytes
  | 0, _ => []
  | count + 1, value => hexDigits count (value / 16) ++ [hexDigit (value % 16)]

end Bytes

end VarPrint
