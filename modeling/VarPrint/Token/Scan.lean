/-
# Scanning a source

A source is cut into lexemes from left to right. At each place a table of recognisers is asked, in
order, how many bytes of the input they take; the first that takes any decides the kind. What no
recogniser takes is an unknown token: a quote that is never closed takes the rest of its line, and
anything else takes one rune. Scanning therefore never fails, and the lexemes written one after the
other are the source again.
-/

import VarPrint.Token.Basic
import VarPrint.Text.Blank

namespace VarPrint

namespace Lexeme

/-- The length of the line that the input begins with, its line feed not counted. -/
def lineLength (input : Bytes) : Nat :=
  (input.takeWhile (· ≠ Byte.lineFeed)).length

/-- A comment: two slashes and the rest of the line. -/
def commentLength : Bytes → Nat
  | first :: second :: rest =>
    if first = Byte.slash ∧ second = Byte.slash then 2 + lineLength rest else 0
  | _ => 0

/-- The number of bytes up to and including the quote that closes a text. A backslash takes the
next byte with it, and a text ends on the line where it begins. -/
def closingQuote? : Bytes → Option Nat
  | [] => none
  | b :: rest =>
    if b = Byte.quote then some 1
    else if b = Byte.lineFeed then none
    else if b = Byte.backslash then
      match rest with
      | [] => none
      | escaped :: rest =>
        if escaped = Byte.lineFeed then none else (closingQuote? rest).map (· + 2)
    else (closingQuote? rest).map (· + 1)

/-- A text literal with both its quotes. -/
def textLength : Bytes → Nat
  | [] => 0
  | b :: rest => if b = Byte.quote then ((closingQuote? rest).map (· + 1)).getD 0 else 0

/-- The number of digits that the input begins with. -/
def digitsLength (input : Bytes) : Nat :=
  (input.takeWhile Byte.isDigit).length

/-- The point and the digits after it, when at least one digit follows. -/
def fractionLength : Bytes → Nat
  | [] => 0
  | b :: rest => if b = Byte.dot ∧ 0 < digitsLength rest then 1 + digitsLength rest else 0

/-- A number: digits, then a fraction if there is one. -/
def numberLength (input : Bytes) : Nat :=
  let whole := digitsLength input
  if whole = 0 then 0 else whole + fractionLength (input.drop whole)

/-- A byte that may continue a name. -/
def isNameByte (b : UInt8) : Bool :=
  Byte.isAlphanumeric b || b = Byte.underscore

/-- A word: a letter, then letters, digits and low lines. -/
def wordLength : Bytes → Nat
  | [] => 0
  | b :: rest => if Byte.isLetter b then 1 + (rest.takeWhile isNameByte).length else 0

/-- A symbol of one byte. -/
def symbolLength (symbol : UInt8) : Bytes → Nat
  | [] => 0
  | b :: _ => if b = symbol then 1 else 0

/-- The recognisers in the order in which they are asked; each gives the number of bytes that it
takes from the front of the input, zero when it takes none. -/
def recognizers : List (TokenKind × (Bytes → Nat)) :=
  [(.comment, commentLength), (.blank, Bytes.blankLength), (.text, textLength),
    (.number, numberLength), (.identifier, wordLength), (.assign, symbolLength 0x3D),
    (.leftParen, symbolLength 0x28), (.rightParen, symbolLength 0x29),
    (.semicolon, symbolLength 0x3B)]

/-- The length of an unknown lexeme: the rest of the line after a quote, else one rune. -/
def unknownLength (input : Bytes) : Nat :=
  if input.head? = some Byte.quote then lineLength input else Rune.width input

/-- The kind and the length of the lexeme at the front of a non-empty input. -/
def first (input : Bytes) : TokenKind × Nat :=
  match recognizers.find? fun entry => 0 < entry.2 input with
  | some (.identifier, length) => (.ofWord (input.take (length input)), length input)
  | some (kind, length) => (kind, length input)
  | none => (.unknown, unknownLength input)

end Lexeme

/-- A place in a source with the input that is left from there on. -/
structure Scanner where
  position : Position
  rest : Bytes
deriving DecidableEq, Repr

namespace Scanner

/-- A scanner in front of a whole source. -/
def start (source : Bytes) : Scanner := ⟨.start, source⟩

/-- Every lexeme from a place on, blanks and comments included, and the end. -/
def lexemesFrom (place : Position) : Bytes → List Token
  | [] => [.finish place]
  | b :: rest =>
    let (kind, length) := Lexeme.first (b :: rest)
    let value := b :: rest.take (length - 1)
    { kind, value, position := place } ::
      lexemesFrom (place.advance value) (rest.drop (length - 1))
termination_by input => input.length

/-- Every lexeme that is left, and the end. -/
def lexemes (scanner : Scanner) : List Token :=
  lexemesFrom scanner.position scanner.rest

/-- The significant tokens that are left, and the end. -/
def tokens (scanner : Scanner) : List Token :=
  scanner.lexemes.filter fun token => token.kind.isSignificant

/-- The scanner once all its tokens have been taken. -/
def finished (scanner : Scanner) : Scanner :=
  ⟨scanner.position.advance scanner.rest, []⟩

/-- The tokens of several readings with one scanner; each goes on where the one before it
stopped. -/
def rounds : (count : Nat) → Scanner → List (List Token)
  | 0, _ => []
  | count + 1, scanner => scanner.tokens :: rounds count scanner.finished

end Scanner

/-- The significant tokens of a source, ended by the only end token. -/
def tokenize (source : Bytes) : List Token :=
  (Scanner.start source).tokens

end VarPrint
