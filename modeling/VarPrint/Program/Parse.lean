/-
# Reading a program from tokens

Both commands take exactly five tokens, so a command is read slot by slot: the first token chooses
the command, each later slot has its own requirement, and slots past the end of the list hold the
end token. The first slot that does not fit ends the reading, and the reading says how many tokens
had been consumed by then, so that another reading can go on from there.
-/

import VarPrint.Number.Magnitude
import VarPrint.Problem
import VarPrint.Program.Basic
import VarPrint.Program.Escape

namespace VarPrint

namespace Parse

/-- A token of no known kind: a quote without its partner or a stray character. -/
def unknownToken (token : Token) : SyntaxError :=
  if token.value.head? = some Byte.quote then (Problem.unclosedText token.value).atToken token
  else (Problem.unknownCharacter token.value).atToken token

/-- A numeral is decimal if it has a point; it has to be in the range of its type. -/
def readNumber (token : Token) : Except Fault Expr :=
  let isDecimal := token.value.contains Byte.dot
  let inRange :=
    if isDecimal then Magnitude.isInRange token.value
    else (Numeral.readWord? 64 token.value).isSome
  if inRange then .ok (.number token.value isDecimal token)
  else .error (.syntaxError ((Problem.numberOutOfRange token.value).atToken token))

/-- The content of a text between its first and its last byte. -/
def textContent? (value : Bytes) : Option Bytes :=
  if value.length < 2 then none else some ((value.drop 1).dropLast)

/-- A text loses its quotes; its escapes have to be acceptable. The error points at the backslash.
-/
def readText (token : Token) : Except Fault Expr :=
  match textContent? token.value with
  | none => .error .unquotedText
  | some content =>
    match Escape.findBad? content with
    | none => .ok (.text content token)
    | some bad => .error <| .syntaxError
      { problem := .invalidEscape bad.bytes
        line := token.position.line
        column := token.position.column + 1 + Bytes.runeCount (content.take bad.start) }

/-- An expression is one token. -/
def readExpr (token : Token) : Except Fault Expr :=
  match token.kind with
  | .number => readNumber token
  | .text => readText token
  | .identifier => .ok (.reference token.value token)
  | .unknown => .error (.syntaxError (unknownToken token))
  | _ => .error (.syntaxError ((Problem.notExpression token.toLexeme).atToken token))

/-- A token of a required kind. -/
def readKind (kind : TokenKind) (token : Token) : Except Fault Token :=
  if token.kind = kind then .ok token
  else if token.kind = .unknown then .error (.syntaxError (unknownToken token))
  else .error (.syntaxError ((Problem.unexpected kind token.toLexeme).atToken token))

/-- Why a reading ended, and how many tokens it had consumed. -/
structure Stop where
  fault : Fault
  consumed : Nat
deriving DecidableEq, Repr

/-- Reads the token in one slot. A slot that does not fit is consumed if it is in the list. -/
def slot {α : Type} (finish : Token) (tokens : List Token) (index : Nat)
    (read : Token → Except Fault α) : Except Stop α :=
  (read (tokens.getD index finish)).mapError fun fault =>
    ⟨fault, min (index + 1) tokens.length⟩

/-- Reads the command at the front of the tokens; it takes five of them. -/
def command (finish : Token) (tokens : List Token) : Except Stop (Command Expr) :=
  let first := tokens.getD 0 finish
  match first.kind with
  | .varWord => do
    let name ← slot finish tokens 1 (readKind .identifier)
    let _ ← slot finish tokens 2 (readKind .assign)
    let value ← slot finish tokens 3 readExpr
    let _ ← slot finish tokens 4 (readKind .semicolon)
    return .declare name.value value .unknown name
  | .printWord => do
    let _ ← slot finish tokens 1 (readKind .leftParen)
    let argument ← slot finish tokens 2 readExpr
    let _ ← slot finish tokens 3 (readKind .rightParen)
    let _ ← slot finish tokens 4 (readKind .semicolon)
    return .print argument first
  | .unknown => .error ⟨.syntaxError (unknownToken first), 0⟩
  | _ => .error ⟨.syntaxError ((Problem.notCommand first.toLexeme).atToken first), 0⟩

/-- What a reading gave, and how many tokens it consumed. -/
structure Reading where
  result : Except Fault Program
  consumed : Nat

/-- The reading of one more command in front of another reading. -/
def Reading.prepend (first : Command Expr) (rest : Reading) : Reading :=
  ⟨rest.result.map (first :: ·), rest.consumed + 5⟩

/-- Reads commands up to an end token or the end of the list. -/
def commands (finish : Token) : List Token → Reading
  | [] => ⟨.ok [], 0⟩
  | token :: rest =>
    if token.kind = .endOfInput then ⟨.ok [], 0⟩
    else match command finish (token :: rest) with
      | .error stop => ⟨.error stop.fault, stop.consumed⟩
      | .ok first => (commands finish (rest.drop 4)).prepend first
termination_by tokens => tokens.length

/-- The end token of a list: at its last token, or nowhere if the list is empty. -/
def finishOf (tokens : List Token) : Token :=
  .finish ((tokens.getLast?.map (·.position)).getD .nowhere)

/-- Several readings of one list; each goes on where the one before it stopped. -/
def roundsFrom (finish : Token) : (count : Nat) → List Token → List (Except Fault Program)
  | 0, _ => []
  | count + 1, tokens =>
    let reading := commands finish tokens
    reading.result :: roundsFrom finish count (tokens.drop reading.consumed)

/-- Several readings of a list from its start. -/
def rounds (count : Nat) (tokens : List Token) : List (Except Fault Program) :=
  roundsFrom (finishOf tokens) count tokens

end Parse

/-- The program that a list of tokens spells. -/
def parse (tokens : List Token) : Except Fault Program :=
  (Parse.commands (Parse.finishOf tokens) tokens).result

end VarPrint
