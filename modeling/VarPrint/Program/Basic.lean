/-
# Programs

A program is a list of commands, each of which declares a variable or prints a value. A command is
parametric in what stands for its expression, so that a draft, whose expressions may be missing, has
the same commands as a program. Literals keep the exact bytes of the source.
-/

import VarPrint.Token.Basic

namespace VarPrint

/-- The type of a value; a declaration has an unknown one until it is checked. -/
inductive Ty where
  | unknown
  | integer
  | long
  | decimal
  | text
deriving DecidableEq, Repr

namespace Ty

/-- The type with a given number; any other number is unknown. -/
def ofCode : Int → Ty
  | 1 => integer
  | 2 => long
  | 3 => decimal
  | 4 => text
  | _ => unknown

/-- The name of a type in the language. -/
def name : Ty → Bytes
  | unknown => utf8 "desconhecido"
  | integer => utf8 "inteiro"
  | long => utf8 "longo"
  | decimal => utf8 "decimal"
  | text => utf8 "texto"

end Ty

/-- An expression: a literal or a variable, with the token that it comes from. -/
inductive Expr where
  /-- A numeral, with or without a point. -/
  | number (numeral : Bytes) (isDecimal : Bool) (token : Token)
  /-- A text without its quotes; escapes stay as they are written. -/
  | text (content : Bytes) (token : Token)
  /-- The use of a variable. -/
  | reference (name : Bytes) (token : Token)
deriving DecidableEq, Repr

/-- The type of a numeral: decimal if it has a point, integer if it is a word of 32 bits, and long
otherwise. -/
def Ty.ofNumeral (numeral : Bytes) (isDecimal : Bool) : Ty :=
  if isDecimal then decimal
  else if (Numeral.readWord? 32 numeral).isSome then integer
  else long

/-- A command over a type of expressions. -/
inductive Command (ε : Type) where
  /-- Declares a variable; the token is that of its name. -/
  | declare (name : Bytes) (value : ε) (ty : Ty) (token : Token)
  /-- Prints a value; the token is that of the reserved word. -/
  | print (argument : ε) (token : Token)
deriving DecidableEq, Repr

/-- Commands in the order of the source. -/
abbrev Program := List (Command Expr)

end VarPrint
