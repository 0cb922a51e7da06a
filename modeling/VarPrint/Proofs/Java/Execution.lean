/-
# Running the Java text

The lines of the Java fragment are executed over local variables. A literal of whole digits is octal
after a leading zero and has to fit its type, a local must be declared before it is used and only
once, and its type must be the one that its value has; where a rule is broken, execution is stuck.
The main statement is that compiled code is never stuck and prints the values that the program of
the source means. The two runs go side by side: at every command the locals and the environment hold
the same values under the Java names and under the names of the source.
-/

import VarPrint.Proofs.Java.Typing
import VarPrint.Proofs.Program.Meaning

namespace VarPrint

namespace Java

/-- A value of one of the four types. -/
inductive Value where
  | int (n : Nat)
  | long (n : Nat)
  | double (q : Rat)
  | string (content : Bytes)
deriving DecidableEq

namespace Value

/-- The type that a value has. -/
def type : Value → LocalType
  | int _ => .int
  | long _ => .long
  | double _ => .double
  | string _ => .string

/-- The value without its type. -/
def meaning : Value → VarPrint.Value
  | int n => .whole n
  | long n => .whole n
  | double q => .decimal q
  | string content => .text content

end Value

/-- Why an execution cannot go on. -/
inductive Stuck where
  | undeclared (name : Bytes)
  | declaredTwice (name : Bytes)
  | notLiteral (digits : Bytes)
  | otherType (name : Bytes)
deriving DecidableEq, Repr

/-- The local variables with their values, the latest declaration first. -/
abbrev Locals := List (Bytes × Value)

/-- The value of an expression. -/
def Term.eval (locals : Locals) : Term → Except Stuck Value
  | whole digits isLong =>
    match literalValue? digits with
    | none => .error (.notLiteral digits)
    | some n =>
      if isLong then if n < 2 ^ 63 then .ok (.long n) else .error (.notLiteral digits)
      else if n < 2 ^ 31 then .ok (.int n) else .error (.notLiteral digits)
  | point before after =>
    .ok (.double (Numeral.value before + Numeral.value after / 10 ^ after.length))
  | text content => .ok (.string content)
  | reference name =>
    match locals.lookup name with
    | none => .error (.undeclared name)
    | some value => .ok value

/-- What the lines print. -/
def execute (locals : Locals) : List Line → Except Stuck (List Value)
  | [] => .ok []
  | .declare type name init :: rest => do
    let value ← init.eval locals
    if (locals.lookup name).isSome then throw (.declaredTwice name)
    if type ≠ value.type.name then throw (.otherType name)
    execute ((name, value) :: locals) rest
  | .println argument :: rest => do
    let printed ← argument.eval locals
    let others ← execute locals rest
    return printed :: others

theorem Term.eval_int (locals : Locals) {n : Nat} (fits : n < 2 ^ 31) :
    (Term.whole (Numeral.ofNat n) false).eval locals = .ok (.int n) := by
  rw [eval, literalValue?_ofNat]
  dsimp only
  rw [if_neg Bool.false_ne_true, if_pos fits]

theorem Term.eval_long (locals : Locals) {n : Nat} (fits : n < 2 ^ 63) :
    (Term.whole (Numeral.ofNat n) true).eval locals = .ok (.long n) := by
  rw [eval, literalValue?_ofNat]
  dsimp only
  rw [if_pos rfl, if_pos fits]

/-- A declaration with a new name and the type of its value goes on with one more local. -/
theorem execute_declare {locals : Locals} {name : Bytes} {init : Term} {value : Value}
    (evaluates : init.eval locals = .ok value) (fresh : name ∉ locals.map Prod.fst)
    (rest : List Line) :
    execute locals (.declare value.type.name name init :: rest) =
      execute ((name, value) :: locals) rest := by
  rw [execute, evaluates, lookup_eq_none_iff_not_mem.mpr fresh]
  simp [bind, Except.bind]

end Java

/-- The environment in which the variables of the source have the values of the locals. -/
def Environment.ofLocals (entries : Java.Locals) : Environment :=
  entries.map (Prod.map id Java.Value.meaning)

section Simulation

variable {scope : Scope} {entries : List (Bytes × Java.Value)}

/-- A variable has one value in the environment and, under its Java name, among the locals. -/
theorem Scope.Lists.lookup (lists : scope.Lists Java.Value.type entries)
    (consistent : scope.Consistent) {name : Bytes} {value : Java.Value}
    (member : (name, value) ∈ entries) :
    (Java.named entries).lookup (Java.variableName name) = some value ∧
      (Environment.ofLocals entries).lookup name = some value.meaning := by
  constructor
  · rw [lookup_eq_some_iff_mem (lists.javaNames_eq ▸ consistent.distinct)]
    exact List.mem_map_of_mem (f := Prod.map Java.variableName id) member
  · have names : (Environment.ofLocals entries).map Prod.fst = entries.map Prod.fst := by
      rw [Environment.ofLocals, List.map_map]
      rfl
    have distinct := consistent.distinct_names
    rw [lists.names_eq, ← names] at distinct
    rw [lookup_eq_some_iff_mem distinct]
    exact List.mem_map_of_mem (f := Prod.map id Java.Value.meaning) member

/-- An expression has the same value in the language and, as it is written, in Java. -/
theorem Expr.Translates.eval {value : Expr} {term : Java.Term} {ty : Ty}
    (translates : value.Translates term) (typed : scope.HasType value ty)
    (lists : scope.Lists Java.Value.type entries) (consistent : scope.Consistent) :
    ∃ result : Java.Value, ty = result.type.ty ∧
      term.eval (Java.named entries) = .ok result ∧
      value.eval? (.ofLocals entries) = some result.meaning := by
  cases translates with
  | int isDigits small =>
      cases typed with
      | number =>
          rw [Numeral.ofNumeral_digits isDigits, if_pos small]
          exact ⟨.int _, rfl, Java.Term.eval_int _ small, rfl⟩
  | long isDigits large small =>
      cases typed with
      | number =>
          rw [Numeral.ofNumeral_digits isDigits, if_neg (Nat.not_lt.mpr large)]
          exact ⟨.long _, rfl, Java.Term.eval_long _ small, rfl⟩
  | double isWhole isFraction =>
      cases typed with
      | number =>
          refine ⟨.double _, rfl, rfl, ?_⟩
          rw [Expr.eval?, Numeral.decimalValue_digits isWhole]
          rfl
  | string isBody =>
      cases typed with
      | text => exact ⟨.string _, rfl, rfl, rfl⟩
  | reference isName =>
      cases typed with
      | reference declared =>
          obtain ⟨result, member, rfl⟩ := lists.exists_mem declared
          obtain ⟨inJava, inSource⟩ := lists.lookup consistent member
          refine ⟨result, rfl, ?_, inSource⟩
          rw [Java.Term.eval, inJava]

/-- A program that passes the check and its lines run side by side: the lines are not stuck, and
they print the values that the program means. -/
theorem Scope.Run.execute {last : Scope} {program checked : Program} {lines : List Java.Line}
    (run : Scope.Run scope program last checked) (translates : checked.Translates lines)
    (lists : scope.Lists Java.Value.type entries) (consistent : scope.Consistent) :
    ∃ printed, Java.execute (Java.named entries) lines = .ok printed ∧
      program.run? (.ofLocals entries) = some (printed.map Java.Value.meaning) := by
  -- Along the run of the check: a declaration adds one entry, which both sides then hold.
  induction run generalizing entries lines with
  | nil =>
      cases translates
      exact ⟨[], rfl, rfl⟩
  | cons step run ih =>
      obtain _ | ⟨command, rest⟩ := translates
      have next := consistent.step step
      cases step with
      | @declare name value noted ty token typed fresh =>
          cases command with
          | declare isName inits =>
              obtain ⟨bound, rfl, evaluates, means⟩ := inits.eval typed lists consistent
              obtain ⟨printed, executes, prints⟩ := ih rest (lists.declare name bound) next
              rw [lists.javaNames_eq] at fresh
              refine ⟨printed, ?_, ?_⟩
              · rw [Java.LocalType.typeName_ty, Java.execute_declare evaluates fresh]
                exact executes
              · rw [Program.run?, means]
                exact prints
      | print typed =>
          cases command with
          | print arguments =>
              obtain ⟨value, rfl, evaluates, means⟩ := arguments.eval typed lists consistent
              obtain ⟨printed, executes, prints⟩ := ih rest lists consistent
              refine ⟨value :: printed, ?_, ?_⟩
              · rw [Java.execute, evaluates, executes]
                rfl
              · rw [Program.run?, means, prints]
                rfl

end Simulation

/-- Compiled code is read completely, is never stuck, and prints what the program of the source
means. -/
theorem execute_of_compile {source code : Bytes} (compiled : compile source = .ok code) :
    ∃ program lines printed, parse (tokenize source) = .ok program ∧
      Java.readText? code = some lines ∧ Java.execute [] lines = .ok printed ∧
      program.run? [] = some (printed.map Java.Value.meaning) := by
  obtain ⟨program, last, checked, lines, parsed, run, translates, read⟩ :=
    exists_lines_of_compile compiled
  obtain ⟨printed, executes, prints⟩ := run.execute translates .empty Scope.consistent_empty
  exact ⟨program, lines, printed, parsed, read, executes, prints⟩

/-- A reserved name, leading zeros and a long in one source. -/
theorem execute_of_compile_leading_zeros :
    ∃ source code, source = utf8 "var int=007;var n=2147483648;print(n);print(int);" ∧
      code = utf8 "int int_ = 7;\nlong n = 2147483648L;\n" ++
        utf8 "System.out.println(n);\nSystem.out.println(int_);\n" ∧
      compile source = .ok code ∧
      ∃ program lines printed, parse (tokenize source) = .ok program ∧
        Java.readText? code = some lines ∧ Java.execute [] lines = .ok printed ∧
        program.run? [] = some (printed.map Java.Value.meaning) := by
  have compiled : compile (utf8 "var int=007;var n=2147483648;print(n);print(int);") =
      .ok (utf8 "int int_ = 7;\nlong n = 2147483648L;\n" ++
        utf8 "System.out.println(n);\nSystem.out.println(int_);\n") := by
    decide +kernel
  exact ⟨_, _, rfl, rfl, compiled, execute_of_compile compiled⟩

end VarPrint
