/-
# The grammar of configuration texts

The rules by which a configuration text is read. A text that the rules do not cover as a whole is
malformed; where in it they fail plays no part.
-/

import VarPrint.Number.Numeral
import VarPrint.Toml.Basic
import VarPrint.Toml.Rule

namespace VarPrint.Toml

namespace Grammar

open Rule

/-- A space or a tab. -/
def isBlank (c : Char) : Bool :=
  c == ' ' || c == '\t'

/-- A tab or anything from the space on. -/
def isTextChar (c : Char) : Bool :=
  c == '\t' || ' ' ≤ c

/-- A character that stands for itself between quotes. -/
def isPlainChar (c : Char) : Bool :=
  ' ' ≤ c && c != '"' && c != '\\'

/-- A letter behind a backslash that stands for one character. -/
def isEscapeLetter (c : Char) : Bool :=
  ['b', 't', 'n', 'f', 'r', '"', '/', '\\'].contains c

/-- A decimal digit. -/
def isDigit (c : Char) : Bool :=
  '0' ≤ c && c ≤ '9'

/-- A decimal digit other than zero. -/
def isPositiveDigit (c : Char) : Bool :=
  '1' ≤ c && c ≤ '9'

/-- A hexadecimal digit of either case. -/
def isHexDigit (c : Char) : Bool :=
  isDigit c || ('a' ≤ c && c ≤ 'f') || ('A' ≤ c && c ≤ 'F')

/-- A sign of a number. -/
def isSign (c : Char) : Bool :=
  c == '-' || c == '+'

/-- A letter, a digit, a hyphen or a low line. -/
def isBareKeyChar (c : Char) : Bool :=
  isDigit c || ('a' ≤ c && c ≤ 'z') || ('A' ≤ c && c ≤ 'Z') || c == '-' || c == '_'

/-- Spaces and tabs. -/
def blanks : Rule Unit := do
  let _ ← many (satisfy isBlank)

/-- Spaces, tabs and line ends. -/
def blankLines : Rule Unit := do
  let _ ← many (satisfy fun c => isBlank c || isNewline c)

/-- One or more line ends. -/
def newlines : Rule (List Char) :=
  many1 (satisfy isNewline)

/-- A comment, up to the end of its line. -/
def comment : Rule Unit := do
  char '#'
  let _ ← many (satisfy isTextChar)

/-- A decimal digit. -/
def digit : Rule Char :=
  satisfy isDigit

/-- A hexadecimal digit. -/
def hexDigit : Rule Char :=
  satisfy isHexDigit

/-- The rest of an escape behind its backslash, given as the whole escape. -/
def escape : Rule (List Char) :=
  (do
    let letter ← satisfy isEscapeLetter
    return ['\\', letter])
  <|> (do
    char 'u'
    return '\\' :: 'u' :: (← times 4 hexDigit))
  <|> (do
    char 'U'
    return '\\' :: 'U' :: (← times 8 hexDigit))

/-- A character of a quoted text, or an escape with its backslash. -/
def basicChar : Rule (List Char) :=
  (do
    let c ← satisfy isPlainChar
    return [c])
  <|> (do
    char '\\'
    escape)

/-- The inside of a text between quotes on one line. -/
def quotedBody : Rule (List Char) := do
  char '"'
  let body ← many basicChar
  char '"'
  return body.flatten

/-- A character of a key without quotes. -/
def bareKeyChar : Rule Char :=
  satisfy isBareKeyChar

/-- A key, bare or quoted. -/
def key : Rule Key :=
  (do
    let body ← many1 bareKeyChar
    return ⟨body, false, ← currentLine⟩)
  <|> (do
    let body ← quotedBody
    return ⟨body, true, ← currentLine⟩)

/-- A digit, possibly after a low line. -/
def laterDigit : Rule Char :=
  digit <|> (do
    char '_'
    digit)

/-- An optional sign. -/
def sign : Rule Unit := do
  let _ ← perhaps (satisfy isSign)

/-- Two digits or more, the first of them not zero. -/
def severalDigits : Rule Unit := do
  let _ ← satisfy isPositiveDigit
  let _ ← many1 laterDigit

/-- A whole number; only a single digit may be zero in front. -/
def integer : Rule Unit := do
  sign
  severalDigits <|> (do let _ ← digit)

/-- Digits after a point. -/
def fraction : Rule Unit := do
  char '.'
  let _ ← digit
  let _ ← many laterDigit

/-- A power of ten. -/
def exponent : Rule Unit := do
  let _ ← satisfy fun c => c == 'e' || c == 'E'
  sign
  let _ ← digit
  let _ ← many laterDigit

/-- A number with a fraction, an exponent or both. -/
def float : Rule Unit := do
  integer
  (do
    fraction
    let _ ← perhaps exponent)
  <|> (do
    let _ ← perhaps fraction
    exponent)

/-- The number that the given count of digits denotes. -/
def number (count : Nat) : Rule Nat := do
  let digits ← times count digit
  return Numeral.value (Bytes.ofRunes digits)

/-- Hours, minutes and seconds, with an optional fraction. -/
def clock : Rule Clock := do
  let hour ← number 2
  char ':'
  let minute ← number 2
  char ':'
  let second ← number 2
  let _ ← perhaps (do
    char '.'
    let _ ← many1 digit)
  return ⟨hour, minute, second⟩

/-- The hours and minutes to universal time. -/
def distance : Rule (Nat × Nat) :=
  (do
    char 'Z'
    return (0, 0))
  <|> (do
    let _ ← satisfy isSign
    let hours ← number 2
    char ':'
    return (hours, ← number 2))

/-- The distance to universal time as written. -/
def zone : Rule Zone := do
  let (written, hours, minutes) ← captured distance
  return ⟨written, hours, minutes⟩

/-- Year, month and day. -/
def date : Rule Date := do
  let year ← number 4
  char '-'
  let month ← number 2
  char '-'
  return ⟨year, month, ← number 2⟩

/-- A date, a date with a time, or a time. -/
def moment : Rule Moment :=
  (do
    let date ← date
    let time ← perhaps (do
      char 'T'
      return (← clock, ← perhaps zone))
    match time with
    | none => return .date date
    | some (clock, zone) => return .both date clock zone)
  <|> (do return .clock (← clock))

/-- A text as written in apostrophes on one line. -/
def literalText : Rule (List Char) := do
  char '\''
  let body ← many (satisfy fun c => isTextChar c && c != '\'')
  char '\''
  return body

/-- The three apostrophes around a text of several lines. -/
def literalMark : Rule Unit :=
  word ['\'', '\'', '\'']

/-- A text as written in triple apostrophes; line ends in front of it are dropped. -/
def literalLines : Rule (List Char) := do
  literalMark
  let body ← many (do
    absent literalMark
    (do return [← satisfy isTextChar]) <|> newlines)
  literalMark
  return body.flatten.dropWhile isNewline

/-- The three quotes around a text of several lines. -/
def quotedMark : Rule Unit :=
  word ['"', '"', '"']

/-- A text in triple quotes; line ends in front of it are dropped, and a backslash at the end of a
line drops that line end with all blanks after it. -/
def quotedLines : Rule (List Char) := do
  quotedMark
  let body ← many (basicChar <|> newlines <|> (do
    char '\\'
    let _ ← newlines
    blankLines
    return []))
  quotedMark
  return body.flatten.dropWhile isNewline

/-- A text of any of the four forms. -/
def text : Rule Value := do
  let (body, hasEscapes) ←
    (do return (← literalLines, false))
    <|> (do return (← literalText, false))
    <|> (do return (← quotedLines, true))
    <|> (do return (← quotedBody, true))
  return .text body hasEscapes (← currentLine)

/-- A truth value. -/
def boolean : Rule Value :=
  (do
    word ['t', 'r', 'u', 'e']
    return .boolean true)
  <|> (do
    word ['f', 'a', 'l', 's', 'e']
    return .boolean false)

/-- A value that holds no other value. -/
def scalar : Rule Value :=
  (do
    let (written, moment) ← captured moment
    return .datetime written moment)
  <|> (do
    let (numeral, _) ← captured float
    return .float numeral)
  <|> (do
    let (numeral, _) ← captured integer
    return .integer numeral)
  <|> text
  <|> boolean

/-- A key, an equals sign and a value. -/
def pair (value : Rule Value) : Rule Pair := do
  let key ← key
  blanks
  char '='
  blanks
  let value ← value
  return .mk key value (← currentLine)

/-- Values in brackets between commas; line ends and comments may stand around them. -/
def array (value : Rule Value) : Rule Value := do
  char '['
  blankLines
  let items ← perhaps (do
    let first ← value
    let later ← many (do
      blankLines
      let _ ← perhaps comment
      blankLines
      char ','
      blankLines
      let _ ← perhaps comment
      blankLines
      value)
    blankLines
    let _ ← perhaps (char ',')
    blankLines
    let _ ← perhaps comment
    return first :: later)
  blankLines
  char ']'
  return .array (items.getD [])

/-- Pairs in braces; a comma may follow each. -/
def inlineTable (value : Rule Value) : Rule Value := do
  char '\x7b'
  let line ← currentLine
  blanks
  let pairs ← many (do
    let pair ← pair value
    let _ ← perhaps (do
      blanks
      char ','
      blanks)
    return pair)
  blanks
  char '\x7d'
  return .table line pairs

/-- A value. Those inside it are read from a shorter text. -/
def value (cursor : Cursor) : Option (Value × Cursor) :=
  let inner : Rule Value := fun next =>
    if next.rest.length < cursor.rest.length then value next else none
  (scalar <|> array inner <|> inlineTable inner) cursor
termination_by cursor.rest.length

/-- The name of a table: keys between points. -/
def tableName : Rule (List Key) := do
  let first ← key
  let later ← many (do
    blanks
    char '.'
    blanks
    key)
  return first :: later

/-- The header of a table between the given brackets. -/
def headerWithin (isArray : Bool) (opening closing : List Char) : Rule Header := do
  word opening
  blanks
  let (name, keys) ← captured tableName
  blanks
  word closing
  return ⟨isArray, keys, name, ← currentLine⟩

/-- The header of a table or of a table in an array. -/
def header : Rule Header :=
  headerWithin false ['['] [']'] <|> headerWithin true ['[', '['] [']', ']']

/-- Blanks and a comment at the end of a line. -/
def lineEnd : Rule Unit := do
  blanks
  let _ ← perhaps comment

/-- A header with the pairs below it, a pair, or nothing. -/
def expression : Rule Item :=
  (do
    blanks
    let header ← header
    lineEnd
    let pairs ← many (do
      blankLines
      let pair ← pair value
      lineEnd
      return pair)
    return .table header pairs)
  <|> (do
    blanks
    let pair ← pair value
    lineEnd
    return .pair pair)
  <|> (do
    lineEnd
    return .nothing)

/-- Line ends, and the expression on the line behind them. -/
def laterLine : Rule Item := do
  let _ ← newlines
  expression

/-- A whole text. -/
def items : Rule (List Item) := do
  let first ← expression
  let later ← many laterLine
  let _ ← perhaps newlines
  finish
  return first :: later

end Grammar

/-- The items of a text, if the grammar covers it. -/
def items? (text : List Char) : Option (List Item) :=
  (Grammar.items ⟨text, 1⟩).map Prod.fst

end VarPrint.Toml
