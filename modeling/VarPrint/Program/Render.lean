/-
# Programs as source text

The canonical text of a program: one command to a line, single spaces, literals as they were
written.
-/

import VarPrint.Program.Basic

namespace VarPrint

/-- An expression as source text. -/
def Expr.render : Expr → Bytes
  | number numeral _ _ => numeral
  | text content _ => utf8 "\"" ++ content ++ utf8 "\""
  | reference name _ => name

/-- A command as source text, without the end of its line. -/
def Command.render : Command Expr → Bytes
  | declare name value _ _ => utf8 "var " ++ name ++ utf8 " = " ++ value.render ++ utf8 ";"
  | print argument _ => utf8 "print(" ++ argument.render ++ utf8 ");"

/-- A program as source text, every command on a line of its own. -/
def Program.render (program : Program) : Bytes :=
  program.flatMap fun command => command.render ++ utf8 "\n"

end VarPrint
