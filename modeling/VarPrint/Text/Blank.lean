/-
# Blank runes and white space

Blank runes separate tokens: some controls, and every rune of the separator categories. White space
is a class of its own, a property that Unicode gives by ranges of codes; trimming removes it from
both ends of a text.
-/

import VarPrint.Text.Rune

namespace VarPrint

/-- Tab, line feed, vertical tab, form feed, carriage return, U+0085, and the separators: spaces
of every width, the line separator and the paragraph separator. -/
def Rune.isBlank (c : Char) : Bool :=
  let code := c.toNat
  (0x09 ≤ code && code ≤ 0x0D) || code == 0x20 || code == 0x85 || code == 0xA0 ||
    code == 0x1680 || (0x2000 ≤ code && code ≤ 0x200A) || code == 0x2028 || code == 0x2029 ||
    code == 0x202F || code == 0x205F || code == 0x3000

/-- The property White_Space of Unicode: the first and the last code of each range. -/
def Rune.spaceRanges : List (Nat × Nat) :=
  [(0x0009, 0x000D), (0x0020, 0x0020), (0x0085, 0x0085), (0x00A0, 0x00A0), (0x1680, 0x1680),
    (0x2000, 0x200A), (0x2028, 0x2028), (0x2029, 0x2029), (0x202F, 0x202F), (0x205F, 0x205F),
    (0x3000, 0x3000)]

/-- White space, which trimming removes. -/
def Rune.isSpace (c : Char) : Bool :=
  spaceRanges.any fun range => range.1 ≤ c.toNat && c.toNat ≤ range.2

namespace Bytes

/-- The number of bytes in the longest run of blank runes at the front. -/
def blankLength : Bytes → Nat
  | [] => 0
  | b :: rest =>
    if Rune.isBlank (Rune.first (b :: rest)) then
      let extra := Rune.width (b :: rest) - 1
      1 + extra + blankLength (rest.drop extra)
    else 0
termination_by input => input.length

/-- The text without the white space at either end. -/
def trimSpace (input : Bytes) : Bytes :=
  let front := (runePieces input).dropWhile fun piece => Rune.isSpace piece.1
  let both := (front.reverse.dropWhile fun piece => Rune.isSpace piece.1).reverse
  both.flatMap Prod.snd

end Bytes

end VarPrint
