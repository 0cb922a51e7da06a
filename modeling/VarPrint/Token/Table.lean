/-
# Token tables

Tokens are listed in a bordered table with a column each for kind, value and place. Columns are as
wide as their widest line, where the escape sequences that colour a terminal take no room. Lines
that look like numbers stand to the right.
-/

import VarPrint.Text.Blank
import VarPrint.Text.Width
import VarPrint.Token.Basic

namespace VarPrint

namespace Table

/-- The parameters of a colour sequence: nothing, or numbers of one to three digits between
semicolons. -/
def isColourParameters (text : Bytes) : Bool :=
  text.isEmpty || (List.splitOn 0x3B text).all fun number =>
    1 ≤ number.length && number.length ≤ 3 && number.all Byte.isDigit

/-- The length of the colour sequence at the front, zero if there is none: escape, bracket,
parameters and a final `m`, `|` or `K`. -/
def colourLength : Bytes → Nat
  | escape :: bracket :: rest =>
    let parameters := rest.takeWhile fun b => Byte.isDigit b || b == 0x3B
    let final := (rest.drop parameters.length).head?
    if escape = 0x1B ∧ bracket = 0x5B ∧ isColourParameters parameters ∧
        (final = some 0x6D ∨ final = some 0x7C ∨ final = some 0x4B) then
      parameters.length + 3
    else 0
  | _ => 0

/-- A text without its colour sequences. -/
def dropColours : Bytes → Bytes
  | [] => []
  | b :: rest =>
    let length := colourLength (b :: rest)
    if length = 0 then b :: dropColours rest else dropColours (rest.drop (length - 1))
termination_by text => text.length

/-- The number of columns that a line of a cell takes. -/
def lineColumns (line : Bytes) : Nat :=
  Bytes.columns (dropColours line)

/-- Digits alone, or groups of three of them between commas after a first group of at most three. -/
def isWholePart (text : Bytes) : Bool :=
  (!text.isEmpty && text.all Byte.isDigit) ||
    match List.splitOn 0x2C text with
    | [] => false
    | first :: groups =>
      1 ≤ first.length && first.length ≤ 3 && first.all Byte.isDigit &&
        groups.all fun group => group.length == 3 && group.all Byte.isDigit

/-- A line that looks like a number: an optional minus, a whole part, and an optional fraction. -/
def looksNumeric (line : Bytes) : Bool :=
  let trimmed := Bytes.trimSpace line
  let unsigned := if trimmed.head? = some Byte.minus then trimmed.drop 1 else trimmed
  let (whole, fraction) := unsigned.span (· ≠ Byte.dot)
  isWholePart whole && match fraction with
    | [] => true
    | _ :: digits => !digits.isEmpty && digits.all Byte.isDigit

/-- A line filled up to a width: numbers to the right, all else to the left. -/
def align (width : Nat) (line : Bytes) : Bytes :=
  let gap := Bytes.spaces (width - lineColumns line)
  if looksNumeric line then gap ++ line else line ++ gap

/-- A line in the middle of a width; an odd column goes to the right. -/
def centre (width : Nat) (line : Bytes) : Bytes :=
  let gap := width - lineColumns line
  Bytes.spaces (gap / 2) ++ line ++ Bytes.spaces (gap - gap / 2)

/-- The horizontal line between columns of the given widths. -/
def rule (widths : List Nat) : Bytes :=
  utf8 "+" ++ (widths.flatMap fun width => List.replicate (width + 2) Byte.minus ++ utf8 "+") ++
    utf8 "\n"

/-- One line of a table from the filled lines of its columns. -/
def line (cells : List Bytes) : Bytes :=
  utf8 "|" ++ (cells.flatMap fun cell => utf8 " " ++ cell ++ utf8 " |") ++ utf8 "\n"

/-- The lines of a cell. -/
def cellLines (cell : Bytes) : List Bytes :=
  List.splitOn Byte.lineFeed cell

/-- The lines of a row: as many as its tallest cell has. -/
def row (widths : List Nat) (cells : List Bytes) : Bytes :=
  let columns := cells.map cellLines
  let height := columns.foldl (fun height lines => max height lines.length) 0
  (List.range height).flatMap fun index =>
    line ((widths.zip columns).map fun (width, lines) => align width (lines.getD index (utf8 "  ")))

/-- The width of each column: that of its heading or of its widest line. -/
def columnWidths (headings : List Bytes) (rows : List (List Bytes)) : List Nat :=
  rows.foldl
    (fun widths cells => (widths.zip cells).map fun (width, cell) =>
      (cellLines cell).foldl (fun width line => max width (lineColumns line)) width)
    (headings.map lineColumns)

/-- A table with headings and rows. -/
def render (headings : List Bytes) (rows : List (List Bytes)) : Bytes :=
  let widths := columnWidths headings rows
  rule widths ++ line ((widths.zip headings).map fun (width, heading) => centre width heading) ++
    rule widths ++ rows.flatMap (row widths) ++ rule widths

end Table

/-- The table of a list of tokens; end tokens are left out. -/
def Token.table (tokens : List Token) : Bytes :=
  let listed := tokens.filter fun token => token.kind ≠ .endOfInput
  Table.render [utf8 "Tipo", utf8 "Valor", utf8 "Posição"] <| listed.map fun token =>
    [token.kind.name, token.value,
      Numeral.ofInt token.position.line ++ utf8 ":" ++ Numeral.ofInt token.position.column]

end VarPrint
