/-
# Compilation

From the bytes of a source to the bytes of Java statements: tokens, program, scope check,
statements. A source of white space alone gives an empty result at once.
-/

import VarPrint.Java.Statement
import VarPrint.Program.Parse
import VarPrint.Program.Scope
import VarPrint.Token.Scan

namespace VarPrint

/-- A program that passed the check, and the scope after it. -/
structure Analysis where
  program : Program
  scope : Scope
deriving DecidableEq, Repr

/-- Checks a program in an empty scope. -/
def analyzeProgram (program : Program) : Except Fault Analysis :=
  let outcome := Scope.empty.check program
  match outcome.error? with
  | some error => .error (.syntaxError error)
  | none => .ok ⟨outcome.program, outcome.scope⟩

/-- Reads and checks a source. -/
def analyze (source : Bytes) : Except Fault Analysis := do
  analyzeProgram (← parse (tokenize source))

/-- The Java statements of a source. -/
def compile (source : Bytes) : Except Fault Bytes :=
  if source.trimSpace = [] then .ok []
  else (analyze source).map fun analysis => Java.statements analysis.program

end VarPrint
