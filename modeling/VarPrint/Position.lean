/-
# Positions in a source

A position has a line and a column, both counted from one, and an offset in bytes. Columns count
runes. Only a line feed starts a new line. The fields are integers because token lists may come
from anywhere; the positions of a scanned source are never negative.
-/

import VarPrint.Text.Rune
import VarPrint.Number.Numeral

namespace VarPrint

/-- A place in a source: line and column in runes from one, offset in bytes from zero. -/
structure Position where
  line : Int
  column : Int
  offset : Int
deriving DecidableEq, Repr

namespace Position

/-- Where every source starts. -/
def start : Position := ⟨1, 1, 0⟩

/-- The place of nothing at all, below every place of a source. -/
def nowhere : Position := ⟨0, 0, 0⟩

/-- Line and column after one more rune. -/
def step (place : Position) (c : Char) : Position :=
  if c = '\n' then { place with line := place.line + 1, column := 1 }
  else { place with column := place.column + 1 }

/-- The place after a text that begins here. -/
def advance (place : Position) (text : Bytes) : Position :=
  { text.runes.foldl step place with offset := place.offset + text.length }

/-- Strictly earlier by line, then by column. -/
def isBefore (first second : Position) : Bool :=
  if first.line ≠ second.line then first.line < second.line else first.column < second.column

/-- Line and column as they are shown. -/
def text (place : Position) : Bytes :=
  utf8 "linha " ++ Numeral.ofInt place.line ++ utf8 ", coluna " ++ Numeral.ofInt place.column

end Position

end VarPrint
