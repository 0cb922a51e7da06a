/-
# The scope check as rules

In a consistent scope no two variables share a Java name, every Java name has its variable as owner,
and no type is unknown. There the check of a command is a rule with two premises: the expression has
a type, and the Java name of a declaration is new. A name that is new in Java is also new in the
language, so the three refusals of the check are two. The rule keeps the scope consistent, and a
program that passes is a run of such steps from the empty scope.
-/

import VarPrint.Proofs.Lookup
import VarPrint.Proofs.Program.Layout

namespace VarPrint

/-- The expression of a command. -/
def Command.expr : Command Expr → Expr
  | declare _ value _ _ => value
  | print argument _ => argument

namespace Scope

/-- The Java names of the declared variables, latest first. -/
def javaNames (scope : Scope) : List Bytes :=
  scope.types.map fun entry => Java.variableName entry.1

/-- The Java names are distinct, each is owned by its variable, and every type is known. -/
structure Consistent (scope : Scope) : Prop where
  owners_eq : scope.owners = scope.types.map fun entry => (Java.variableName entry.1, entry.1)
  distinct : scope.javaNames.Nodup
  known : ∀ entry ∈ scope.types, entry.2 ≠ .unknown

/-- An expression has a type in a scope. -/
inductive HasType (scope : Scope) : Expr → Ty → Prop
  | number {numeral : Bytes} {isDecimal : Bool} {token : Token} :
      HasType scope (.number numeral isDecimal token) (.ofNumeral numeral isDecimal)
  | text {content : Bytes} {token : Token} : HasType scope (.text content token) .text
  | reference {name : Bytes} {ty : Ty} {token : Token} (declared : (name, ty) ∈ scope.types) :
      HasType scope (.reference name token) ty

/-- One step of the check: the command before it, the scope after it, and the command with its type
filled in. -/
inductive Step (scope : Scope) : Command Expr → Scope → Command Expr → Prop
  | declare {name : Bytes} {value : Expr} {noted ty : Ty} {token : Token}
      (typed : scope.HasType value ty) (fresh : Java.variableName name ∉ scope.javaNames) :
      Step scope (.declare name value noted token) (scope.declare name ty)
        (.declare name value ty token)
  | print {argument : Expr} {ty : Ty} {token : Token} (typed : scope.HasType argument ty) :
      Step scope (.print argument token) scope (.print argument token)

/-- The steps of a program that passes the check. -/
inductive Run : Scope → Program → Scope → Program → Prop
  | nil {scope : Scope} : Run scope [] scope []
  | cons {scope next last : Scope} {command checked : Command Expr} {rest others : Program}
      (step : Step scope command next checked) (run : Run next rest last others) :
      Run scope (command :: rest) last (checked :: others)

theorem ofNumeral_ne_unknown (numeral : Bytes) (isDecimal : Bool) :
    Ty.ofNumeral numeral isDecimal ≠ .unknown := by
  unfold Ty.ofNumeral
  split
  · decide
  · split <;> decide

theorem consistent_empty : empty.Consistent where
  owners_eq := rfl
  distinct := List.nodup_nil
  known := by simp [empty]

namespace Consistent

variable {scope : Scope} {name : Bytes}

theorem distinct_names (consistent : scope.Consistent) : (scope.types.map Prod.fst).Nodup := by
  apply List.Nodup.of_map Java.variableName
  rw [List.map_map]
  exact consistent.distinct

theorem owner?_eq_none_iff (consistent : scope.Consistent) :
    scope.owner? name = none ↔ name ∉ scope.javaNames := by
  rw [owner?, lookup_eq_none_iff_not_mem, consistent.owners_eq, List.map_map, javaNames]
  rfl

/-- A name that is new in Java is new in the language. -/
theorem typeOf?_eq_none (fresh : Java.variableName name ∉ scope.javaNames) :
    scope.typeOf? name = none := by
  rw [typeOf?, lookup_eq_none_iff_not_mem]
  intro member
  obtain ⟨entry, declared, rfl⟩ := List.mem_map.mp member
  exact fresh (List.mem_map_of_mem declared)

theorem type_ne_unknown (consistent : scope.Consistent) {value : Expr} {ty : Ty}
    (typed : scope.HasType value ty) : ty ≠ .unknown := by
  cases typed with
  | number => exact ofNumeral_ne_unknown _ _
  | text => decide
  | reference declared => exact consistent.known _ declared

theorem declare (consistent : scope.Consistent) {ty : Ty} (known : ty ≠ .unknown)
    (fresh : Java.variableName name ∉ scope.javaNames) : (scope.declare name ty).Consistent where
  owners_eq := congrArg (List.cons _) consistent.owners_eq
  distinct := List.nodup_cons.mpr ⟨fresh, consistent.distinct⟩
  known := List.forall_mem_cons.mpr ⟨known, consistent.known⟩

theorem infer_eq_ok_iff (consistent : scope.Consistent) {value : Expr} {ty : Ty} :
    scope.infer value = .ok ty ↔ scope.HasType value ty := by
  cases value with
  | number numeral isDecimal token =>
      constructor
      · intro inferred
        cases inferred
        exact .number
      · intro typed
        cases typed
        rfl
  | text content token =>
      constructor
      · intro inferred
        cases inferred
        exact .text
      · intro typed
        cases typed
        rfl
  | reference name token =>
      have found : scope.typeOf? name = some ty ↔ (name, ty) ∈ scope.types :=
        lookup_eq_some_iff_mem consistent.distinct_names
      constructor
      · intro inferred
        rw [infer] at inferred
        cases declared : scope.typeOf? name with
        | none =>
            rw [declared] at inferred
            cases inferred
        | some noted =>
            rw [declared] at inferred
            cases inferred
            exact .reference (found.mp declared)
      · intro typed
        cases typed with
        | reference declared => rw [infer, found.mpr declared]

/-- In a consistent scope a command passes exactly by the rules. -/
theorem checkCommand_eq_ok_iff (consistent : scope.Consistent) {command checked : Command Expr}
    {next : Scope} :
    scope.checkCommand command = .ok (next, checked) ↔ scope.Step command next checked := by
  cases command with
  | declare name value noted token =>
      constructor
      · intro passed
        obtain ⟨ty, inferred, passed⟩ := bind_eq_ok_iff.mp passed
        cases declared : scope.typeOf? name with
        | some noted =>
            rw [declared] at passed
            cases passed
        | none =>
            rw [declared] at passed
            cases owned : scope.owner? (Java.variableName name) with
            | some earlier =>
                rw [owned] at passed
                cases passed
            | none =>
                rw [owned] at passed
                cases passed
                exact .declare (consistent.infer_eq_ok_iff.mp inferred)
                  (consistent.owner?_eq_none_iff.mp owned)
      · intro step
        cases step with
        | declare typed fresh =>
            -- The test for a second declaration passes because the test for a clash does.
            refine bind_eq_ok_iff.mpr ⟨_, consistent.infer_eq_ok_iff.mpr typed, ?_⟩
            rw [typeOf?_eq_none fresh, consistent.owner?_eq_none_iff.mpr fresh]
            rfl
  | print argument token =>
      constructor
      · intro passed
        obtain ⟨ty, inferred, passed⟩ := bind_eq_ok_iff.mp passed
        cases passed
        exact .print (consistent.infer_eq_ok_iff.mp inferred)
      · intro step
        cases step with
        | print typed =>
            exact bind_eq_ok_iff.mpr ⟨_, consistent.infer_eq_ok_iff.mpr typed, rfl⟩

/-- A step leaves a consistent scope. -/
theorem step (consistent : scope.Consistent) {command checked : Command Expr} {next : Scope}
    (step : scope.Step command next checked) : next.Consistent := by
  cases step with
  | declare typed fresh => exact consistent.declare (consistent.type_ne_unknown typed) fresh
  | print typed => exact consistent

end Consistent

/-- A program that passes in a consistent scope passes step by step. -/
theorem run_of_check {scope : Scope} (consistent : scope.Consistent) {program : Program}
    (passed : (scope.check program).error? = none) :
    Run scope program (scope.check program).scope (scope.check program).program := by
  induction program generalizing scope with
  | nil => exact .nil
  | cons command rest ih =>
      cases checking : scope.checkCommand command with
      | error error =>
          rw [check, checking] at passed
          cases passed
      | ok result =>
          obtain ⟨next, checked⟩ := result
          rw [check, checking] at passed ⊢
          have step := consistent.checkCommand_eq_ok_iff.mp checking
          exact .cons step (ih (consistent.step step) passed)

end Scope

/-- Compiled code comes from a program that was read and that passed in the empty scope. -/
theorem exists_run_of_compile {source code : Bytes} (compiled : compile source = .ok code) :
    ∃ program scope checked, parse (tokenize source) = .ok program ∧
      Scope.Run .empty program scope checked ∧ code = Java.statements checked := by
  obtain ⟨program, parsed, passed, isCode⟩ := exists_passed_of_compile compiled
  exact ⟨program, _, _, parsed, Scope.run_of_check Scope.consistent_empty passed, isCode⟩

end VarPrint
