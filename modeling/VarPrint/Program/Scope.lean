/-
# Scopes

A scope holds the declared variables with their types, and which variable owns each Java name. A
command is checked against the scope before it: its expression must be known, and a declaration
needs a name that is new both in the language and in Java. Only a command that passes changes the
scope.
-/

import VarPrint.Java.Name
import VarPrint.Problem

namespace VarPrint

/-- The variables declared so far, latest first, and the owners of their Java names. -/
structure Scope where
  types : List (Bytes × Ty)
  owners : List (Bytes × Bytes)
deriving DecidableEq, Repr

namespace Scope

/-- Nothing is declared. -/
def empty : Scope := ⟨[], []⟩

/-- The type of a declared variable. -/
def typeOf? (scope : Scope) (name : Bytes) : Option Ty :=
  scope.types.lookup name

/-- The variable that has a Java name. -/
def owner? (scope : Scope) (javaName : Bytes) : Option Bytes :=
  scope.owners.lookup javaName

/-- One more variable. -/
def declare (scope : Scope) (name : Bytes) (ty : Ty) : Scope :=
  ⟨(name, ty) :: scope.types, (Java.variableName name, name) :: scope.owners⟩

/-- The type of an expression; a variable has to be declared. -/
def infer (scope : Scope) : Expr → Except SyntaxError Ty
  | .number numeral isDecimal _ => .ok (.ofNumeral numeral isDecimal)
  | .text _ _ => .ok .text
  | .reference name token =>
    match scope.typeOf? name with
    | some ty => .ok ty
    | none => .error ((Problem.undeclared name).atToken token)

/-- Checks one command: the scope after it, and the command with its type filled in. -/
def checkCommand (scope : Scope) : Command Expr → Except SyntaxError (Scope × Command Expr)
  | .declare name value _ token => do
    let ty ← scope.infer value
    if (scope.typeOf? name).isSome then throw ((Problem.redeclared name).atToken token)
    match scope.owner? (Java.variableName name) with
    | some earlier =>
      throw ((Problem.nameClash name earlier (Java.variableName name)).atToken token)
    | none => return (scope.declare name ty, .declare name value ty token)
  | .print argument token => do
    let _ ← scope.infer argument
    return (scope, .print argument token)

/-- What checking a program gives: the scope and the program as far as the check came, and the error
that ended it. -/
structure Outcome where
  scope : Scope
  program : Program
  error? : Option SyntaxError
deriving DecidableEq, Repr

/-- Checks the commands of a program in order, up to the first that fails. -/
def check (scope : Scope) : Program → Outcome
  | [] => ⟨scope, [], none⟩
  | command :: rest =>
    match scope.checkCommand command with
    | .error error => ⟨scope, command :: rest, some error⟩
    | .ok (next, checked) =>
      let outcome := next.check rest
      { outcome with program := checked :: outcome.program }

/-- The declared variables in the order of their names. -/
def listing (scope : Scope) : List (Bytes × Ty) :=
  scope.types.mergeSort fun first second => Bytes.le first.1 second.1

end Scope

end VarPrint
