/-
# Quoted texts

Any byte string can be written between quotes with escapes. Printable runes stay as they are; the
quote, the backslash and the common controls have short escapes; other controls and bytes outside
every encoding are written as bytes; all other runes are written by their code point. Reading back
takes only the escapes that a configuration file may use.
-/

import VarPrint.Text.Printable

namespace VarPrint.Quoted

/-- The controls that have a letter of their own, with that letter. -/
def letterEscapes : List (Char × Char) :=
  [('\x07', 'a'), ('\x08', 'b'), ('\x0c', 'f'), ('\n', 'n'), ('\r', 'r'), ('\t', 't'),
    ('\x0b', 'v')]

/-- A byte by its two hexadecimal digits. -/
def byteEscape (value : Nat) : Bytes :=
  utf8 "\\x" ++ Bytes.hexDigits 2 value

/-- A rune inside quotes. -/
def encodeRune (c : Char) : Bytes :=
  if c = '"' ∨ c = '\\' then utf8 "\\" ++ Bytes.ofRunes [c]
  else if Rune.isPrintable c then Bytes.ofRunes [c]
  else match letterEscapes.lookup c with
    | some letter => utf8 "\\" ++ Bytes.ofRunes [letter]
    | none =>
      if c.toNat < 0x20 ∨ c.toNat = 0x7F then byteEscape c.toNat
      else if c.toNat < 0x10000 then utf8 "\\u" ++ Bytes.hexDigits 4 c.toNat
      else utf8 "\\U" ++ Bytes.hexDigits 8 c.toNat

/-- A rune with the bytes that it takes; a byte that is no valid encoding is written as a byte. -/
def encodePiece (piece : Char × Bytes) : Bytes :=
  match piece.2, Rune.first? piece.2 with
  | [b], none => byteEscape b.toNat
  | _, _ => encodeRune piece.1

/-- A byte string between quotes. -/
def encode (text : Bytes) : Bytes :=
  utf8 "\"" ++ text.runePieces.flatMap encodePiece ++ utf8 "\""

/-- The value of a hexadecimal digit of either case. -/
def hexValue? (c : Char) : Option Nat :=
  if c.toNat < 0x80 then Byte.hexValue? c.toUInt8 else none

/-- The value of a run of hexadecimal digits. -/
def hexNumber? (digits : List Char) : Option Nat :=
  digits.foldlM (fun total c => (hexValue? c).map (16 * total + ·)) 0

/-- The rune with a code point; there is none for a surrogate or past the last plane. -/
def runeOfCode? (code : Nat) : Option Char :=
  if code.isValidChar then some (Char.ofNat code) else none

/-- The rune of an escape of one letter. -/
def letterRune? : Char → Option Char
  | 'b' => some '\x08'
  | 't' => some '\t'
  | 'n' => some '\n'
  | 'f' => some '\x0c'
  | 'r' => some '\r'
  | '"' => some '"'
  | '\\' => some '\\'
  | _ => none

/-- The runes that the inside of a quoted text stands for. -/
def decode? : List Char → Option (List Char)
  | [] => some []
  | '\\' :: 'u' :: a :: b :: c :: d :: rest => do
    let rune ← runeOfCode? (← hexNumber? [a, b, c, d])
    return rune :: (← decode? rest)
  | '\\' :: 'U' :: a :: b :: c :: d :: e :: f :: g :: h :: rest => do
    let rune ← runeOfCode? (← hexNumber? [a, b, c, d, e, f, g, h])
    return rune :: (← decode? rest)
  | '\\' :: letter :: rest => do
    let rune ← letterRune? letter
    return rune :: (← decode? rest)
  | c :: rest => if c = '\\' then none else (decode? rest).map (c :: ·)

end VarPrint.Quoted
