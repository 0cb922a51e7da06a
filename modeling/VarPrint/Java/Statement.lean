/-
# Java statements

Every command becomes one Java statement on a line of its own. Whole numbers are written in
canonical form, since a leading zero would make them octal, and long ones carry a suffix.
-/

import VarPrint.Java.Name

namespace VarPrint.Java

/-- A numeral in Java. One with a point, or one that is no word of 64 bits, stays as it is. -/
def number (numeral : Bytes) (isDecimal : Bool) : Bytes :=
  if isDecimal then numeral
  else match Numeral.readWord? 64 numeral with
    | none => numeral
    | some value =>
      let suffix := if Ty.ofNumeral numeral isDecimal = .long then utf8 "L" else []
      Numeral.ofInt value ++ suffix

/-- An expression in Java. -/
def expression : Expr → Bytes
  | .number numeral isDecimal _ => number numeral isDecimal
  | .text content _ => utf8 "\"" ++ content ++ utf8 "\""
  | .reference name _ => variableName name

/-- A command in Java, without the end of its line. -/
def statement : Command Expr → Bytes
  | .declare name value ty _ =>
    typeName ty ++ utf8 " " ++ variableName name ++ utf8 " = " ++ expression value ++ utf8 ";"
  | .print argument _ => utf8 "System.out.println(" ++ expression argument ++ utf8 ");"

/-- A program in Java, every statement on a line of its own. -/
def statements (program : Program) : Bytes :=
  program.flatMap fun command => statement command ++ utf8 "\n"

end VarPrint.Java
