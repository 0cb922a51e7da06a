/-
# Types of the Java text

The static rules of the Java fragment, for lines in their order. A declaration carries the name of
one of four types, which is the type of its initial value, and a name that is an identifier, is not
reserved, and was not declared before. A variable can be used only after its declaration and has the
type that it was declared with. The main statement is that compiled code obeys these rules. The
types of the scope and the types of Java agree along the whole program, which is the invariant of
the induction.
-/

import VarPrint.Proofs.Java.Translation

namespace VarPrint

namespace Java

/-- The types that a local variable may have. -/
inductive LocalType where
  | int
  | long
  | double
  | string
deriving DecidableEq, Repr

namespace LocalType

/-- How a type is written. -/
def name : LocalType → Bytes
  | int => utf8 "int"
  | long => utf8 "long"
  | double => utf8 "double"
  | string => utf8 "String"

/-- The type of the language that a Java type stands for. -/
def ty : LocalType → Ty
  | int => .integer
  | long => .long
  | double => .decimal
  | string => .text

theorem typeName_ty (type : LocalType) : typeName type.ty = type.name := by
  cases type <;> rfl

end LocalType

/-- The value of a run of octal digits. -/
def octalValue (digits : Bytes) : Nat :=
  digits.foldl (fun total b => 8 * total + Numeral.digitValue b) 0

/-- The value of the digits of a literal: octal if a zero stands in front of more digits, and base
ten otherwise. -/
def literalValue? (digits : Bytes) : Option Nat :=
  if digits.head? = some 0x30 ∧ 1 < digits.length then
    if digits.all Byte.isOctal then some (octalValue digits) else none
  else some (Numeral.value digits)

/-- The canonical numeral of a number is a literal of that value. -/
theorem literalValue?_ofNat (n : Nat) : literalValue? (Numeral.ofNat n) = some n := by
  have notOctal : ¬ ((Numeral.ofNat n).head? = some 0x30 ∧ 1 < (Numeral.ofNat n).length) := by
    rintro ⟨zero, long⟩
    cases n with
    | zero =>
        rw [Numeral.ofNat] at long
        exact absurd long (by decide)
    | succ n => exact Numeral.head?_ofNat_ne_zero n.succ_pos zero
  rw [literalValue?, if_neg notOctal, Numeral.value_ofNat]

/-- The type of an expression after some declarations. -/
inductive HasType (context : List (Bytes × LocalType)) : Term → LocalType → Prop
  | int {digits : Bytes} {value : Nat} (denotes : literalValue? digits = some value)
      (fits : value ≤ 2147483647) : HasType context (.whole digits false) .int
  | long {digits : Bytes} {value : Nat} (denotes : literalValue? digits = some value)
      (large : 2147483648 ≤ value) (fits : value ≤ 9223372036854775807) :
      HasType context (.whole digits true) .long
  | double {whole fraction : Bytes} : HasType context (.point whole fraction) .double
  | string {content : Bytes} : HasType context (.text content) .string
  | reference {name : Bytes} {type : LocalType} (declared : (name, type) ∈ context) :
      HasType context (.reference name) type

/-- The lines that may follow some declarations. -/
inductive WellFormed : List (Bytes × LocalType) → List Line → Prop
  | nil {context : List (Bytes × LocalType)} : WellFormed context []
  | declare {context : List (Bytes × LocalType)} {type : LocalType} {name : Bytes} {init : Term}
      {rest : List Line} (typed : HasType context init type) (isName : isIdentifier name = true)
      (notReserved : name ∉ reserved) (fresh : name ∉ context.map Prod.fst)
      (others : WellFormed ((name, type) :: context) rest) :
      WellFormed context (.declare type.name name init :: rest)
  | println {context : List (Bytes × LocalType)} {type : LocalType} {argument : Term}
      {rest : List Line} (typed : HasType context argument type)
      (others : WellFormed context rest) : WellFormed context (.println argument :: rest)

/-- The name that a line declares. -/
def Line.declared? : Line → Option Bytes
  | declare _ name _ => some name
  | println _ => none

/-- The names that well-formed lines declare are new and differ from each other. -/
theorem WellFormed.distinct {context : List (Bytes × LocalType)} {lines : List Line}
    (formed : WellFormed context lines) :
    (∀ name ∈ lines.filterMap Line.declared?, name ∉ context.map Prod.fst) ∧
      (lines.filterMap Line.declared?).Nodup := by
  induction formed with
  | nil => exact ⟨by simp, List.nodup_nil⟩
  | @declare context type name init rest _ _ _ fresh _ ih =>
      have names : (Line.declare type.name name init :: rest).filterMap Line.declared? =
          name :: rest.filterMap Line.declared? := rfl
      rw [names, List.forall_mem_cons, List.nodup_cons]
      obtain ⟨outside, nodup⟩ := ih
      simp only [List.map_cons, List.mem_cons, not_or] at outside
      refine ⟨⟨fresh, fun other later => (outside other later).2⟩, fun later => ?_, nodup⟩
      exact (outside name later).1 rfl
  | println _ _ ih => exact ih

end Java

/-- Data of variables under their Java names. -/
def Java.named {α : Type} (entries : List (Bytes × α)) : List (Bytes × α) :=
  entries.map (Prod.map Java.variableName id)

/-- The variables of a scope in its order, each with a datum that has its Java type. -/
def Scope.Lists {α : Type} (scope : Scope) (type : α → Java.LocalType)
    (entries : List (Bytes × α)) : Prop :=
  scope.types = entries.map (Prod.map id fun datum => (type datum).ty)

namespace Scope.Lists

variable {α : Type} {scope : Scope} {type : α → Java.LocalType} {entries : List (Bytes × α)}

theorem empty : Scope.empty.Lists type [] :=
  rfl

theorem declare (lists : scope.Lists type entries) (name : Bytes) (datum : α) :
    (scope.declare name (type datum).ty).Lists type ((name, datum) :: entries) :=
  congrArg (List.cons _) lists

theorem names_eq (lists : scope.Lists type entries) :
    scope.types.map Prod.fst = entries.map Prod.fst := by
  rw [lists, List.map_map]
  rfl

theorem javaNames_eq (lists : scope.Lists type entries) :
    scope.javaNames = (Java.named entries).map Prod.fst := by
  rw [javaNames, lists, Java.named, List.map_map, List.map_map]
  rfl

theorem exists_mem (lists : scope.Lists type entries) {name : Bytes} {ty : Ty}
    (declared : (name, ty) ∈ scope.types) :
    ∃ datum, (name, datum) ∈ entries ∧ ty = (type datum).ty := by
  rw [lists] at declared
  obtain ⟨⟨name, datum⟩, member, same⟩ := List.mem_map.mp declared
  cases same
  exact ⟨datum, member, rfl⟩

end Scope.Lists

section Typing

variable {scope : Scope} {context : List (Bytes × Java.LocalType)}

/-- An expression that has a type in the scope becomes a Java expression of that type. -/
theorem Expr.Translates.hasType {value : Expr} {term : Java.Term} {ty : Ty}
    (translates : value.Translates term) (typed : scope.HasType value ty)
    (lists : scope.Lists id context) :
    ∃ type : Java.LocalType, ty = type.ty ∧ Java.HasType (Java.named context) term type := by
  cases translates with
  | int isDigits small =>
      cases typed with
      | number =>
          rw [Numeral.ofNumeral_digits isDigits, if_pos small]
          exact ⟨.int, rfl, .int (Java.literalValue?_ofNat _) (Nat.le_of_lt_succ small)⟩
  | long isDigits large small =>
      cases typed with
      | number =>
          rw [Numeral.ofNumeral_digits isDigits, if_neg (Nat.not_lt.mpr large)]
          exact ⟨.long, rfl, .long (Java.literalValue?_ofNat _) large (Nat.le_of_lt_succ small)⟩
  | double isWhole isFraction =>
      cases typed with
      | number => exact ⟨.double, rfl, .double⟩
  | string isBody =>
      cases typed with
      | text => exact ⟨.string, rfl, .string⟩
  | reference isName =>
      cases typed with
      | reference declared =>
          obtain ⟨type, member, rfl⟩ := lists.exists_mem declared
          exact ⟨type, rfl, .reference (List.mem_map_of_mem member)⟩

/-- The lines of a program that passes the check are well formed in the context of its scope. -/
theorem Scope.Run.wellFormed {last : Scope} {program checked : Program} {lines : List Java.Line}
    (run : Scope.Run scope program last checked) (translates : checked.Translates lines)
    (lists : scope.Lists id context) : Java.WellFormed (Java.named context) lines := by
  -- Along the run of the check: the scope and the context grow by the same declarations.
  induction run generalizing context lines with
  | nil =>
      cases translates
      exact .nil
  | cons step run ih =>
      obtain _ | ⟨command, rest⟩ := translates
      cases step with
      | @declare name value noted ty token typed fresh =>
          cases command with
          | declare isName inits =>
              obtain ⟨type, rfl, initTyped⟩ := inits.hasType typed lists
              rw [Java.LocalType.typeName_ty]
              rw [lists.javaNames_eq] at fresh
              exact .declare initTyped (Java.isIdentifier_variableName isName)
                (Java.variableName_not_mem_reserved name) fresh
                (ih rest (lists.declare name type))
      | print typed =>
          cases command with
          | print arguments =>
              obtain ⟨type, rfl, argumentTyped⟩ := arguments.hasType typed lists
              exact .println argumentTyped (ih rest lists)

end Typing

/-- Compiled code is read completely, and is statically well formed: every declaration has one of
the four types, which is that of its initial value, a name that is an identifier, free and new, and
no variable is used before its declaration. -/
theorem wellFormed_of_compile {source code : Bytes} (compiled : compile source = .ok code) :
    ∃ lines, Java.readText? code = some lines ∧ Java.WellFormed [] lines ∧
      (lines.filterMap Java.Line.declared?).Nodup := by
  obtain ⟨program, last, checked, lines, _, run, translates, read⟩ :=
    exists_lines_of_compile compiled
  have formed : Java.WellFormed [] lines := run.wellFormed translates .empty
  exact ⟨lines, read, formed, formed.distinct.2⟩

/-- A text with a quote inside, a variable that takes its type from another, and a decimal. -/
theorem wellFormed_of_compile_text :
    ∃ source code, source = utf8 "var s=\"a\\\"b\";var t=s;var d=01.50;print(t);print(d);" ∧
      code = utf8 "String s = \"a\\\"b\";\nString t = s;\ndouble d = 01.50;\n" ++
        utf8 "System.out.println(t);\nSystem.out.println(d);\n" ∧
      compile source = .ok code ∧
      ∃ lines, Java.readText? code = some lines ∧ Java.WellFormed [] lines ∧
        (lines.filterMap Java.Line.declared?).Nodup := by
  have compiled : compile (utf8 "var s=\"a\\\"b\";var t=s;var d=01.50;print(t);print(d);") =
      .ok (utf8 "String s = \"a\\\"b\";\nString t = s;\ndouble d = 01.50;\n" ++
        utf8 "System.out.println(t);\nSystem.out.println(d);\n") := by
    decide +kernel
  exact ⟨_, _, rfl, rfl, compiled, wellFormed_of_compile compiled⟩

end VarPrint
