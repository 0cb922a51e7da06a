/-
# Tokens

A lexeme has a kind and the exact bytes that it covers; a token is a lexeme with the place where it
begins. The kinds are numbered, and a number outside the known ones is a kind of its own that
nothing else treats specially.
-/

import VarPrint.Position

namespace VarPrint

/-- The kinds of token, in the order of their numbers. -/
inductive TokenKind where
  | varWord
  | printWord
  | identifier
  | assign
  | number
  | text
  | leftParen
  | rightParen
  | semicolon
  | comment
  | blank
  | endOfInput
  | unknown
  /-- A number that names no kind. -/
  | other (code : Int)
deriving DecidableEq, Repr

namespace TokenKind

/-- The known kinds; the index of each is its number. -/
def known : List TokenKind :=
  [varWord, printWord, identifier, assign, number, text, leftParen, rightParen, semicolon, comment,
    blank, endOfInput, unknown]

/-- The kind with a given number. -/
def ofCode : Int → TokenKind
  | .ofNat n => known[n]?.getD (other n)
  | .negSucc n => other (.negSucc n)

/-- The name under which a kind is listed. -/
def name : TokenKind → Bytes
  | varWord => utf8 "KEYWORD_VAR"
  | printWord => utf8 "KEYWORD_PRINT"
  | identifier => utf8 "IDENTIFIER"
  | assign => utf8 "OPERATOR_ASSIGN"
  | number => utf8 "LITERAL_NUMBER"
  | text => utf8 "LITERAL_STRING"
  | leftParen => utf8 "PUNCT_LPAREN"
  | rightParen => utf8 "PUNCT_RPAREN"
  | semicolon => utf8 "PUNCT_SEMICOLON"
  | comment => utf8 "COMMENT"
  | blank => utf8 "WHITESPACE"
  | endOfInput => utf8 "EOF"
  | unknown => utf8 "UNKNOWN"
  | other code => utf8 "TokenType(" ++ Numeral.ofInt code ++ utf8 ")"

/-- The known kind with a given name. -/
def ofName? (wanted : Bytes) : Option TokenKind :=
  known.find? fun kind => kind.name == wanted

/-- What a message says when it asks for a token of this kind. -/
def description : TokenKind → Bytes
  | varWord => utf8 "'var'"
  | printWord => utf8 "'print'"
  | identifier => utf8 "identificador"
  | assign => utf8 "'='"
  | number => utf8 "número"
  | text => utf8 "texto"
  | leftParen => utf8 "'('"
  | rightParen => utf8 "')'"
  | semicolon => utf8 "';'"
  | endOfInput => utf8 "fim do arquivo"
  | kind => kind.name

/-- A token of this kind can be an expression. -/
def isOperand : TokenKind → Bool
  | number | text | identifier => true
  | _ => false

/-- A token of this kind means something; blanks and comments do not. -/
def isSignificant : TokenKind → Bool
  | blank | comment => false
  | _ => true

/-- The kind of a word: one of the two reserved words, or a name. -/
def ofWord (word : Bytes) : TokenKind :=
  if word = utf8 "var" then varWord
  else if word = utf8 "print" then printWord
  else identifier

end TokenKind

/-- A piece of a source with its kind, wherever it stands. -/
structure Lexeme where
  kind : TokenKind
  value : Bytes
deriving DecidableEq, Repr

/-- How a message names the lexeme that it met. -/
def Lexeme.found (lexeme : Lexeme) : Bytes :=
  if lexeme.kind = .endOfInput then TokenKind.endOfInput.description else lexeme.value.cited

/-- A lexeme and the place where it begins. -/
structure Token extends Lexeme where
  position : Position
deriving DecidableEq, Repr

namespace Token

/-- The token that stands for the end of the input at a place. -/
def finish (place : Position) : Token where
  kind := .endOfInput
  value := []
  position := place

/-- A token as one line of text. -/
def text (token : Token) : Bytes :=
  token.kind.name ++ utf8 "(" ++ token.value.cited ++ utf8 ") em " ++ token.position.text

end Token

end VarPrint
