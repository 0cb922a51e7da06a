/-
# Drafts

A draft is a program in which commands and expressions may be missing. It can be checked command by
command like a program; anything else needs it complete.
-/

import VarPrint.Program.Scope

namespace VarPrint

/-- A program in which commands and expressions may be missing. -/
abbrev Draft := List (Option (Command (Option Expr)))

/-- The command, if its expression is there. -/
def Command.complete? : Command (Option Expr) → Option (Command Expr)
  | declare name value ty token => value.map fun value => declare name value ty token
  | print argument token => argument.map fun argument => print argument token

/-- A command as one whose expression might have been missing. -/
def Command.toDraft : Command Expr → Command (Option Expr)
  | declare name value ty token => declare name (some value) ty token
  | print argument token => print (some argument) token

/-- A program as a draft in which nothing is missing. -/
def Program.toDraft (program : Program) : Draft :=
  program.map fun command => some command.toDraft

namespace Draft

/-- The program, if nothing is missing. -/
def complete (draft : Draft) : Except Fault Program :=
  match draft.mapM fun command => command.bind Command.complete? with
  | some program => .ok program
  | none => .error .incomplete

/-- Checks the commands of a draft in order; one that is missing, or lacks its expression, fails. -/
def check (scope : Scope) : Draft → Except Fault (Scope × Program)
  | [] => .ok (scope, [])
  | none :: _ => .error .missingCommand
  | some command :: rest => do
    let some command := command.complete? | throw .missingExpr
    let (next, checked) ← (scope.checkCommand command).mapError Fault.syntaxError
    let (final, program) ← check next rest
    return (final, checked :: program)

end Draft

end VarPrint
