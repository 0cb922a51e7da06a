/-
# Problems, diagnostics and faults

A problem is the cause of a rejected source, without a place. A syntax error is a problem with the
line and the column to which it points. A diagnostic is what is shown of it. A fault is any reason
why an operation gives no result; besides syntax errors there are those that only malformed tokens,
incomplete programs and bad settings can bring about.
-/

import VarPrint.Token.Basic

namespace VarPrint

/-- What is wrong with a source. -/
inductive Problem where
  /-- A command begins with neither reserved word. -/
  | notCommand (found : Lexeme)
  /-- A token of one kind was required and another one met. -/
  | unexpected (expected : TokenKind) (found : Lexeme)
  /-- An expression was required and something else met. -/
  | notExpression (found : Lexeme)
  /-- A quote is not closed on its line. -/
  | unclosedText (rest : Bytes)
  /-- A character that begins no token. -/
  | unknownCharacter (character : Bytes)
  /-- A numeral outside the range of its type. -/
  | numberOutOfRange (numeral : Bytes)
  /-- An escape that a text may not hold. -/
  | invalidEscape (escape : Bytes)
  /-- A variable is used before any declaration of it. -/
  | undeclared (name : Bytes)
  /-- A variable is declared a second time. -/
  | redeclared (name : Bytes)
  /-- Two variables would have one name in Java. -/
  | nameClash (name earlier javaName : Bytes)
deriving DecidableEq, Repr

namespace Problem

/-- The message of a mismatch, which differs at the end of the input. -/
private def mismatchMessage (found : Lexeme) (message : String) : Bytes :=
  if found.kind = .endOfInput then utf8 "fim inesperado do arquivo" else utf8 message

/-- What is wrong, in a few words. -/
def message : Problem → Bytes
  | notCommand _ => utf8 "comando inválido"
  | unexpected _ found => mismatchMessage found "token inesperado"
  | notExpression found => mismatchMessage found "expressão inválida"
  | unclosedText _ => utf8 "string não terminada"
  | unknownCharacter character => utf8 "caractere inválido " ++ character.cited
  | numberOutOfRange _ => utf8 "literal numérico fora do intervalo"
  | invalidEscape _ => utf8 "sequência de escape inválida"
  | undeclared name => utf8 "variável " ++ name.cited ++ utf8 " não declarada"
  | redeclared name => utf8 "variável " ++ name.cited ++ utf8 " já declarada"
  | nameClash name earlier _ =>
    utf8 "variável " ++ name.cited ++ utf8 " conflita com " ++ earlier.cited

/-- What was expected and what was met. -/
private def expectation (expected : Bytes) (found : Lexeme) : Bytes :=
  utf8 "esperado " ++ expected ++ utf8 ", encontrado " ++ found.found

/-- What the message leaves open; may be empty. -/
def details : Problem → Bytes
  | notCommand found => expectation (utf8 "'var' ou 'print'") found
  | unexpected expected found => expectation expected.description found
  | notExpression found => expectation (utf8 "número, texto ou variável") found
  | unclosedText rest => rest
  | unknownCharacter _ => []
  | numberOutOfRange numeral => numeral
  | invalidEscape escape => escape
  | undeclared _ => []
  | redeclared _ => []
  | nameClash _ _ javaName => utf8 "ambas viram " ++ javaName.cited ++ utf8 " em Java"

end Problem

/-- A problem and the line and column to which it points. -/
structure SyntaxError where
  problem : Problem
  line : Int
  column : Int
deriving DecidableEq, Repr

/-- A problem at the place where a token begins. -/
def Problem.atToken (problem : Problem) (token : Token) : SyntaxError :=
  ⟨problem, token.position.line, token.position.column⟩

/-- What is shown of an error in a source. -/
structure Diagnostic where
  message : Bytes
  line : Int
  column : Int
  details : Bytes
deriving DecidableEq, Repr

/-- The message, the place if it is one in a source, and the details if there are any. -/
def Diagnostic.text (diagnostic : Diagnostic) : Bytes :=
  diagnostic.message ++
    (if 0 < diagnostic.line ∧ 0 < diagnostic.column then
      utf8 " em linha " ++ Numeral.ofInt diagnostic.line ++ utf8 ", coluna " ++
        Numeral.ofInt diagnostic.column
    else []) ++
    (if diagnostic.details = [] then [] else utf8 " (" ++ diagnostic.details ++ utf8 ")")

/-- A syntax error as it is shown; line and column are words of 64 bits. -/
def SyntaxError.diagnostic (error : SyntaxError) : Diagnostic where
  message := error.problem.message
  line := Numeral.toWord 64 error.line
  column := Numeral.toWord 64 error.column
  details := error.problem.details

/-- A message and, after a colon, its details if there are any. -/
def labelled (message details : Bytes) : Bytes :=
  if details = [] then message else message ++ utf8 ": " ++ details

/-- Why an operation gives no result. -/
inductive Fault where
  /-- The source is wrong. -/
  | syntaxError (error : SyntaxError)
  /-- A text token lacks one of its quotes. -/
  | unquotedText
  /-- A command of the program is missing. -/
  | missingCommand
  /-- An expression of a command is missing. -/
  | missingExpr
  /-- Something of a program is missing where all of it is needed. -/
  | incomplete
  /-- The indentation is negative. -/
  | negativeIndent
deriving DecidableEq, Repr

/-- What is shown of a fault. -/
def Fault.text : Fault → Bytes
  | syntaxError error => error.diagnostic.text
  | unquotedText => utf8 "texto sem aspas"
  | missingCommand => utf8 "comando desconhecido: <nil>"
  | missingExpr => utf8 "expressão desconhecida: <nil>"
  | incomplete => utf8 "programa incompleto"
  | negativeIndent => utf8 "indentação negativa"

end VarPrint
