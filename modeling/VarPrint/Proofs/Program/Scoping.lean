/-
# What the scope check decides

A program obeys the rules of scoping if every variable that a command uses is declared by an earlier
command, and the Java names of all declarations are distinct. The rules speak of the program alone.
The check decides them: it passes exactly the programs that obey, and otherwise its error is about
the first command that breaks a rule. The scope after a program that obeys has the declared names,
each with the type of the literal at the end of its chain of initialisers.

The scope that the check carries models the commands which it has passed, and every statement here
is about the commands that follow them.
-/

import VarPrint.Program.Draft
import VarPrint.Proofs.Program.Scope

namespace VarPrint

/-- The type of a literal. -/
def Expr.literalType? : Expr → Option Ty
  | number numeral isDecimal _ => some (.ofNumeral numeral isDecimal)
  | text _ _ => some .text
  | reference _ _ => none

namespace Command

/-- The variable that a command declares, and its initialiser. -/
def binding? : Command Expr → Option (Bytes × Expr)
  | declare name value _ _ => some (name, value)
  | print _ _ => none

/-- The command with the type that the scope has for its variable, whatever type it had. -/
def note (scope : Scope) : Command Expr → Command Expr
  | declare name value _ token => declare name value ((scope.typeOf? name).getD .unknown) token
  | print argument token => print argument token

end Command

namespace Program

/-- The declared variables with their initialisers, in order. -/
def bindings (program : Program) : List (Bytes × Expr) :=
  program.filterMap Command.binding?

/-- The declared variables, in order. -/
def names (program : Program) : List Bytes :=
  program.bindings.map Prod.fst

/-- The Java names of the declared variables, in order. -/
def javaNames (program : Program) : List Bytes :=
  program.names.map Java.variableName

/-- A variable stands for the literal that its initialiser stands for. -/
inductive StandsFor (program : Program) : Expr → Expr → Prop
  | literal {value : Expr} {ty : Ty} (typed : value.literalType? = some ty) :
      StandsFor program value value
  | reference {name : Bytes} {value literal : Expr} {token : Token}
      (declared : (name, value) ∈ program.bindings) (chain : StandsFor program value literal) :
      StandsFor program (.reference name token) literal

/-- The type of a variable is that of the literal at the end of its chain of initialisers. -/
def Types (program : Program) (name : Bytes) (ty : Ty) : Prop :=
  ∃ value literal, (name, value) ∈ program.bindings ∧ program.StandsFor value literal ∧
    literal.literalType? = some ty

/-- If the expression is a variable, it is declared. -/
def Knows (program : Program) (value : Expr) : Prop :=
  ∀ name token, value = .reference name token → name ∈ program.names

/-- The rules of scoping: a variable is declared before it is used, and no two declarations have one
name in Java. -/
structure Obeys (program : Program) : Prop where
  declared : ∀ (index : Nat) (command : Command Expr), program[index]? = some command →
    Knows (program.take index) command.expr
  distinct : program.javaNames.Nodup

/-- A command that keeps the rules behind other commands. -/
structure Admits (before : Program) (command : Command Expr) : Prop where
  declared : before.Knows command.expr
  fresh : ∀ binding ∈ command.binding?, Java.variableName binding.1 ∉ before.javaNames

/-- A command that breaks a rule behind other commands, with the error for it. A use of what is not
declared comes first, then a second declaration of one name, then a clash of Java names. -/
inductive Breaks (before : Program) : Command Expr → SyntaxError → Prop
  | undeclared {command : Command Expr} {name : Bytes} {token : Token}
      (uses : command.expr = .reference name token) (absent : name ∉ before.names) :
      Breaks before command ((Problem.undeclared name).atToken token)
  | redeclared {name : Bytes} {value : Expr} {ty : Ty} {token : Token}
      (known : before.Knows value) (again : name ∈ before.names) :
      Breaks before (.declare name value ty token) ((Problem.redeclared name).atToken token)
  | nameClash {name earlier : Bytes} {value : Expr} {ty : Ty} {token : Token}
      (known : before.Knows value) (fresh : name ∉ before.names) (declared : earlier ∈ before.names)
      (clash : Java.variableName earlier = Java.variableName name) :
      Breaks before (.declare name value ty token)
        ((Problem.nameClash name earlier (Java.variableName name)).atToken token)

/-- The first command of a program that breaks a rule, behind other commands, breaks it with the
error. -/
def FirstBreak (before program : Program) (error : SyntaxError) : Prop :=
  ∃ passed command after, program = passed ++ command :: after ∧
    Program.Obeys (before ++ passed) ∧ Program.Breaks (before ++ passed) command error

variable {before after program : Program} {command : Command Expr} {value literal : Expr}

theorem bindings_append : Program.bindings (before ++ after) = before.bindings ++ after.bindings :=
  List.filterMap_append

theorem names_append : Program.names (before ++ after) = before.names ++ after.names := by
  rw [names, bindings_append, List.map_append]
  rfl

theorem javaNames_append :
    Program.javaNames (before ++ after) = before.javaNames ++ after.javaNames := by
  rw [javaNames, names_append, List.map_append]
  rfl

theorem StandsFor.append (chain : before.StandsFor value literal) (after : Program) :
    Program.StandsFor (before ++ after) value literal := by
  induction chain with
  | literal typed => exact .literal typed
  | reference declared _ ih =>
      refine .reference ?_ ih
      rw [bindings_append]
      exact List.mem_append_left _ declared

theorem Types.append {name : Bytes} {ty : Ty} (types : before.Types name ty) (after : Program) :
    Program.Types (before ++ after) name ty := by
  obtain ⟨value, literal, declared, chain, typed⟩ := types
  refine ⟨value, literal, ?_, chain.append after, typed⟩
  rw [bindings_append]
  exact List.mem_append_left _ declared

/-- Where no name is declared twice, a variable has one initialiser. -/
theorem binding_unique (distinct : program.names.Nodup) {name : Bytes} {other : Expr}
    (declared : (name, value) ∈ program.bindings) (again : (name, other) ∈ program.bindings) :
    value = other := by
  have found := (lookup_eq_some_iff_mem distinct).mpr declared
  rw [(lookup_eq_some_iff_mem distinct).mpr again, Option.some.injEq] at found
  exact found.symm

/-- Where no name is declared twice, an expression stands for one literal at most. -/
theorem StandsFor.unique (distinct : program.names.Nodup) {other : Expr}
    (chain : program.StandsFor value literal) (otherChain : program.StandsFor value other) :
    literal = other := by
  induction chain with
  | literal typed =>
      cases otherChain with
      | literal => rfl
      | reference => cases typed
  | reference declared _ ih =>
      cases otherChain with
      | literal typed => cases typed
      | reference otherDeclared otherChain =>
          cases binding_unique distinct declared otherDeclared
          exact ih otherChain

theorem Types.unique (distinct : program.names.Nodup) {name : Bytes} {ty other : Ty}
    (types : program.Types name ty) (otherTypes : program.Types name other) : ty = other := by
  obtain ⟨value, literal, declared, chain, typed⟩ := types
  obtain ⟨otherValue, otherLiteral, otherDeclared, otherChain, otherTyped⟩ := otherTypes
  cases binding_unique distinct declared otherDeclared
  rw [chain.unique distinct otherChain, otherTyped, Option.some.injEq] at typed
  exact typed.symm

theorem obeys_nil : Program.Obeys [] where
  declared _ _ found := by simp at found
  distinct := List.nodup_nil

theorem Obeys.of_append (obeys : Program.Obeys (before ++ after)) : before.Obeys where
  declared index command found := by
    have bound := (List.getElem?_eq_some_iff.mp found).1
    have known := obeys.declared index command
    rw [List.getElem?_append_left bound,
      List.take_append_of_le_length (Nat.le_of_lt bound)] at known
    exact known found
  distinct := by
    have distinct := obeys.distinct
    rw [javaNames_append] at distinct
    exact distinct.of_append_left

/-- Only a declaration has a Java name, which has to be new. -/
theorem nodup_javaNames_concat_iff : (Program.javaNames (before ++ [command])).Nodup ↔
    before.javaNames.Nodup ∧
      ∀ binding ∈ command.binding?, Java.variableName binding.1 ∉ before.javaNames := by
  rw [javaNames_append]
  cases command with
  | declare name value ty token =>
      rw [show Program.javaNames [.declare name value ty token] = [Java.variableName name] from rfl,
        List.nodup_append_comm, List.singleton_append, List.nodup_cons, and_comm]
      simp [Command.binding?]
  | print argument token =>
      rw [show Program.javaNames [.print argument token] = [] from rfl, List.append_nil]
      simp [Command.binding?]

/-- The rules are kept command by command. -/
theorem obeys_concat_iff :
    Program.Obeys (before ++ [command]) ↔ before.Obeys ∧ before.Admits command := by
  constructor
  · intro obeys
    refine ⟨obeys.of_append, ?_, (nodup_javaNames_concat_iff.mp obeys.distinct).2⟩
    have known := obeys.declared before.length command (by simp)
    rwa [List.take_left] at known
  · rintro ⟨obeys, admits⟩
    refine ⟨?_, nodup_javaNames_concat_iff.mpr ⟨obeys.distinct, admits.fresh⟩⟩
    intro index other found
    by_cases inside : index < before.length
    · rw [List.getElem?_append_left inside] at found
      rw [List.take_append_of_le_length (Nat.le_of_lt inside)]
      exact obeys.declared index other found
    · have bound := (List.getElem?_eq_some_iff.mp found).1
      rw [List.length_append, List.length_singleton] at bound
      have atEnd : index = before.length := by omega
      rw [atEnd, List.getElem?_concat_length, Option.some.injEq] at found
      rw [atEnd, List.take_left, ← found]
      exact admits.declared

/-- A command keeps the rules or breaks one. -/
theorem admits_or_breaks (before : Program) (command : Command Expr) :
    before.Admits command ∨ ∃ error, before.Breaks command error := by
  by_cases known : before.Knows command.expr
  · cases command with
    | print argument token => exact .inl ⟨known, by simp [Command.binding?]⟩
    | declare name value ty token =>
        by_cases again : name ∈ before.names
        · exact .inr ⟨_, .redeclared known again⟩
        · by_cases taken : Java.variableName name ∈ before.javaNames
          · obtain ⟨earlier, declared, clash⟩ := List.mem_map.mp taken
            exact .inr ⟨_, .nameClash known again declared clash⟩
          · exact .inl ⟨known, by simpa [Command.binding?] using taken⟩
  · simp only [Knows, not_forall] at known
    obtain ⟨name, token, uses, absent⟩ := known
    exact .inr ⟨_, .undeclared uses absent⟩

theorem not_firstBreak_nil {error : SyntaxError} : ¬ before.FirstBreak [] error := by
  rintro ⟨passed, command, after, split, _⟩
  simp at split

/-- The first break is that of the first command, or it comes later. -/
theorem firstBreak_cons_iff (obeys : before.Obeys) {rest : Program} {error : SyntaxError} :
    before.FirstBreak (command :: rest) error ↔
      before.Breaks command error ∨ Program.FirstBreak (before ++ [command]) rest error := by
  constructor
  · rintro ⟨passed, breaker, after, split, obeys, breaks⟩
    cases passed with
    | nil =>
        obtain ⟨rfl, rfl⟩ := List.cons.inj split
        rw [List.append_nil] at breaks
        exact .inl breaks
    | cons first passed =>
        obtain ⟨rfl, rfl⟩ := List.cons.inj split
        rw [List.append_cons] at obeys breaks
        exact .inr ⟨passed, breaker, after, rfl, obeys, breaks⟩
  · rintro (breaks | ⟨passed, breaker, after, rfl, obeys, breaks⟩)
    · refine ⟨[], command, rest, rfl, ?_, ?_⟩
      · rwa [List.append_nil]
      · rwa [List.append_nil]
    · rw [← List.append_cons] at obeys breaks
      exact ⟨command :: passed, breaker, after, rfl, obeys, breaks⟩

end Program

namespace Scope

/-- The scope is what the check has after the commands of a program: it has their names, each with
the type of the literal that it stands for. -/
structure Models (scope : Scope) (program : Program) : Prop where
  consistent : scope.Consistent
  names_eq : scope.types.map Prod.fst = program.names.reverse
  types : ∀ entry ∈ scope.types, program.Types entry.1 entry.2

theorem models_empty : empty.Models [] where
  consistent := consistent_empty
  names_eq := rfl
  types _ member := by cases member

namespace Models

variable {scope : Scope} {before : Program} {name javaName : Bytes} {command : Command Expr}
  {value : Expr} {ty : Ty} {error : SyntaxError}

theorem typeOf?_eq_none_iff (models : scope.Models before) :
    scope.typeOf? name = none ↔ name ∉ before.names := by
  rw [typeOf?, lookup_eq_none_iff_not_mem, models.names_eq, List.mem_reverse]

theorem javaNames_eq (models : scope.Models before) :
    scope.javaNames = before.javaNames.reverse := by
  rw [javaNames, Program.javaNames, ← List.map_reverse, ← models.names_eq, List.map_map]
  rfl

theorem owner?_eq_some_iff (models : scope.Models before) {earlier : Bytes} :
    scope.owner? javaName = some earlier ↔
      earlier ∈ before.names ∧ Java.variableName earlier = javaName := by
  have distinct : (scope.owners.map Prod.fst).Nodup := by
    rw [models.consistent.owners_eq, List.map_map]
    exact models.consistent.distinct
  have listed : earlier ∈ before.names ↔ ∃ entry ∈ scope.types, entry.1 = earlier := by
    rw [← List.mem_reverse, ← models.names_eq, List.mem_map]
  rw [owner?, lookup_eq_some_iff_mem distinct, models.consistent.owners_eq, List.mem_map, listed]
  constructor
  · rintro ⟨entry, member, same⟩
    obtain ⟨rfl, rfl⟩ := Prod.mk.inj same
    exact ⟨⟨entry, member, rfl⟩, rfl⟩
  · rintro ⟨⟨entry, member, rfl⟩, rfl⟩
    exact ⟨entry, member, rfl⟩

theorem exists_infer_of_knows (models : scope.Models before) (known : before.Knows value) :
    ∃ ty, scope.infer value = .ok ty := by
  cases value with
  | number numeral isDecimal token => exact ⟨_, rfl⟩
  | text content token => exact ⟨_, rfl⟩
  | reference name token =>
      cases found : scope.typeOf? name with
      | none => exact absurd (known name token rfl) (models.typeOf?_eq_none_iff.mp found)
      | some ty => exact ⟨ty, by rw [infer, found]⟩

theorem infer_of_absent (models : scope.Models before) (absent : name ∉ before.names)
    (token : Token) :
    scope.infer (.reference name token) = .error ((Problem.undeclared name).atToken token) := by
  rw [infer, models.typeOf?_eq_none_iff.mpr absent]

/-- A command that keeps the rules passes. -/
theorem exists_step_of_admits (models : scope.Models before) (admits : before.Admits command) :
    ∃ next checked, scope.Step command next checked := by
  obtain ⟨ty, inferred⟩ := models.exists_infer_of_knows admits.declared
  have typed := models.consistent.infer_eq_ok_iff.mp inferred
  cases command with
  | print argument token => exact ⟨_, _, .print typed⟩
  | declare name value noted token =>
      refine ⟨_, _, .declare typed ?_⟩
      rw [models.javaNames_eq, List.mem_reverse]
      exact admits.fresh (name, value) rfl

/-- A command that breaks a rule fails with the error for it. -/
theorem checkCommand_of_breaks (models : scope.Models before)
    (breaks : before.Breaks command error) : scope.checkCommand command = .error error := by
  cases breaks with
  | @undeclared command name token uses absent =>
      have failed := models.infer_of_absent absent token
      cases command with
      | declare target value noted place =>
          obtain rfl : value = .reference name token := uses
          rw [checkCommand, failed]
          rfl
      | print argument place =>
          obtain rfl : argument = .reference name token := uses
          rw [checkCommand, failed]
          rfl
  | @redeclared name value noted token known again =>
      obtain ⟨ty, inferred⟩ := models.exists_infer_of_knows known
      have found : (scope.typeOf? name).isSome = true := by
        rw [Option.isSome_iff_ne_none, ne_eq, models.typeOf?_eq_none_iff, not_not]
        exact again
      rw [checkCommand, inferred]
      show (if (scope.typeOf? name).isSome = true then _ else _) = _
      rw [if_pos found]
      rfl
  | @nameClash name earlier value noted token known fresh declared clash =>
      obtain ⟨ty, inferred⟩ := models.exists_infer_of_knows known
      rw [checkCommand, inferred]
      show (if (scope.typeOf? name).isSome = true then _ else _) = _
      rw [models.typeOf?_eq_none_iff.mpr fresh, models.owner?_eq_some_iff.mpr ⟨declared, clash⟩]
      rfl

/-- The check of a command fails exactly if the command breaks a rule, and with the error for it. -/
theorem checkCommand_eq_error_iff (models : scope.Models before) :
    scope.checkCommand command = .error error ↔ before.Breaks command error := by
  constructor
  · intro failed
    rcases before.admits_or_breaks command with admits | ⟨other, breaks⟩
    · obtain ⟨next, checked, step⟩ := models.exists_step_of_admits admits
      rw [models.consistent.checkCommand_eq_ok_iff.mpr step] at failed
      cases failed
    · rw [models.checkCommand_of_breaks breaks] at failed
      cases failed
      exact breaks
  · exact models.checkCommand_of_breaks

/-- The type of an expression is that of the literal for which it stands. -/
theorem exists_chain (models : scope.Models before) (typed : scope.HasType value ty) :
    ∃ literal, before.StandsFor value literal ∧ literal.literalType? = some ty := by
  cases typed with
  | number => exact ⟨_, .literal rfl, rfl⟩
  | text => exact ⟨_, .literal rfl, rfl⟩
  | reference declared =>
      obtain ⟨value, literal, bound, chain, literalTyped⟩ := models.types _ declared
      exact ⟨literal, .reference bound chain, literalTyped⟩

/-- After a step the scope models one command more. -/
theorem step (models : scope.Models before) {next : Scope} {checked : Command Expr}
    (step : scope.Step command next checked) : next.Models (before ++ [command]) := by
  have consistent := models.consistent.step step
  have earlier : ∀ entry ∈ scope.types, Program.Types (before ++ [command]) entry.1 entry.2 :=
    fun entry member => (models.types entry member).append _
  cases step with
  | @declare name value noted ty token typed fresh =>
      refine ⟨consistent, ?_, List.forall_mem_cons.mpr ⟨?_, earlier⟩⟩
      · rw [Program.names_append, List.reverse_append, ← models.names_eq]
        rfl
      · obtain ⟨literal, chain, literalTyped⟩ := models.exists_chain typed
        refine ⟨value, literal, ?_, chain.append _, literalTyped⟩
        rw [Program.bindings_append]
        exact List.mem_append_right _ (List.mem_singleton_self _)
  | print typed =>
      refine ⟨consistent, ?_, earlier⟩
      rw [Program.names_append, models.names_eq]
      exact congrArg List.reverse (List.append_nil _).symm

/-- After a run the scope models all its commands. -/
theorem run (models : scope.Models before) {program checked : Program} {last : Scope}
    (run : Run scope program last checked) : last.Models (before ++ program) := by
  induction run generalizing before with
  | nil => rwa [List.append_nil]
  | cons step _ ih =>
      rw [List.append_cons]
      exact ih (models.step step)

/-- A scope that models a program has each variable with its type. -/
theorem typeOf?_eq_some_iff (models : scope.Models before) :
    scope.typeOf? name = some ty ↔ before.Types name ty := by
  have listed (ty : Ty) : scope.typeOf? name = some ty ↔ (name, ty) ∈ scope.types :=
    lookup_eq_some_iff_mem models.consistent.distinct_names
  constructor
  · intro found
    exact models.types _ ((listed ty).mp found)
  · intro types
    cases found : scope.typeOf? name with
    | none =>
        obtain ⟨value, literal, declared, _⟩ := types
        exact absurd (List.mem_map_of_mem declared) (models.typeOf?_eq_none_iff.mp found)
    | some other =>
        have distinct : before.names.Nodup := by
          rw [← List.nodup_reverse, ← models.names_eq]
          exact models.consistent.distinct_names
        exact congrArg some ((models.types _ ((listed other).mp found)).unique distinct types)

theorem not_obeys_of_checkCommand (models : scope.Models before)
    (failed : scope.checkCommand command = .error error) :
    ¬ Program.Obeys (before ++ [command]) := by
  intro obeys
  obtain ⟨next, checked, step⟩ :=
    models.exists_step_of_admits (Program.obeys_concat_iff.mp obeys).2
  rw [models.consistent.checkCommand_eq_ok_iff.mpr step] at failed
  cases failed

theorem obeys_of_step (models : scope.Models before) (obeys : before.Obeys) {next : Scope}
    {checked : Command Expr} (step : scope.Step command next checked) :
    Program.Obeys (before ++ [command]) := by
  refine Program.obeys_concat_iff.mpr ⟨obeys, ?_⟩
  rcases before.admits_or_breaks command with admits | ⟨error, breaks⟩
  · exact admits
  · have failed := models.checkCommand_of_breaks breaks
    rw [models.consistent.checkCommand_eq_ok_iff.mpr step] at failed
    cases failed

/-- Behind commands that obey, the check passes exactly what still obeys. -/
theorem check_eq_none_iff (models : scope.Models before) (obeys : before.Obeys)
    (program : Program) :
    (scope.check program).error? = none ↔ Program.Obeys (before ++ program) := by
  induction program generalizing scope before with
  | nil =>
      rw [List.append_nil]
      exact ⟨fun _ => obeys, fun _ => rfl⟩
  | cons command rest ih =>
      rw [List.append_cons]
      cases checking : scope.checkCommand command with
      | error cause =>
          rw [check, checking]
          constructor
          · intro passed
            cases passed
          · intro all
            exact absurd all.of_append (models.not_obeys_of_checkCommand checking)
      | ok result =>
          obtain ⟨next, checked⟩ := result
          have step := models.consistent.checkCommand_eq_ok_iff.mp checking
          rw [check, checking]
          exact ih (models.step step) (models.obeys_of_step obeys step)

/-- Behind commands that obey, the error of the check is about the first command that breaks a
rule. -/
theorem check_eq_some_iff (models : scope.Models before) (obeys : before.Obeys)
    (program : Program) :
    (scope.check program).error? = some error ↔ before.FirstBreak program error := by
  induction program generalizing scope before with
  | nil =>
      constructor
      · intro failed
        cases failed
      · intro breaks
        exact absurd breaks Program.not_firstBreak_nil
  | cons command rest ih =>
      rw [Program.firstBreak_cons_iff obeys, ← models.checkCommand_eq_error_iff]
      cases checking : scope.checkCommand command with
      | error cause =>
          rw [check, checking]
          constructor
          · rintro ⟨⟩
            exact .inl rfl
          · rintro (⟨⟨⟩⟩ | ⟨passed, breaker, after, _, later, _⟩)
            · rfl
            · exact absurd later.of_append (models.not_obeys_of_checkCommand checking)
      | ok result =>
          obtain ⟨next, checked⟩ := result
          have step := models.consistent.checkCommand_eq_ok_iff.mp checking
          rw [check, checking, ← ih (models.step step) (models.obeys_of_step obeys step)]
          simp

end Models

/-- A run only adds variables. -/
theorem Run.types_subset {scope last : Scope} {program checked : Program}
    (run : Run scope program last checked) : scope.types ⊆ last.types := by
  induction run with
  | nil => exact List.Subset.refl _
  | cons step _ ih =>
      cases step with
      | declare => exact List.Subset.trans (List.subset_cons_self _ _) ih
      | print => exact ih

/-- A run notes in each declaration the type that its variable has in the end. -/
theorem Run.checked_eq {scope last : Scope} {program checked : Program}
    (run : Run scope program last checked) (consistent : last.Consistent) :
    checked = program.map (Command.note last) := by
  induction run with
  | nil => rfl
  | @cons scope next last command checked rest others step later ih =>
      rw [List.map_cons, ← ih consistent]
      cases step with
      | @declare name value noted ty token =>
          have found : last.typeOf? name = some ty :=
            (lookup_eq_some_iff_mem consistent.distinct_names).mpr
              (later.types_subset List.mem_cons_self)
          rw [Command.note, found, Option.getD_some]
      | print => rfl

/-- The scope and the program with its types, or the error that ended the check. -/
def Outcome.result (outcome : Outcome) : Except Fault (Scope × Program) :=
  match outcome.error? with
  | none => .ok (outcome.scope, outcome.program)
  | some error => .error (.syntaxError error)

/-- What the check of a whole program comes to. -/
structure IsVerdict (program : Program) (outcome : Outcome) : Prop where
  passes_iff : outcome.error? = none ↔ program.Obeys
  /-- If the program obeys, the scope has exactly the declared names, latest first. -/
  names_eq : program.Obeys → outcome.scope.types.map Prod.fst = program.names.reverse
  typeOf?_iff : program.Obeys → ∀ name ty,
    outcome.scope.typeOf? name = some ty ↔ program.Types name ty
  /-- Each declaration then has the type of its variable, whatever type it had before. -/
  noted : program.Obeys → outcome.program = program.map (Command.note outcome.scope)
  /-- The error is about the first command that breaks a rule. -/
  fails_iff : ∀ error, outcome.error? = some error ↔ Program.FirstBreak [] program error

end Scope

theorem Command.complete?_toDraft (command : Command Expr) :
    command.toDraft.complete? = some command := by
  cases command <;> rfl

/-- A draft in which nothing is missing is checked as the program that it is. -/
theorem Draft.check_toDraft (scope : Scope) (program : Program) :
    Draft.check scope program.toDraft = (scope.check program).result := by
  induction program generalizing scope with
  | nil => rfl
  | cons command rest ih =>
      have later (next : Scope) : Draft.check next (rest.map fun command => some command.toDraft) =
          (next.check rest).result := ih next
      rw [Program.toDraft, List.map_cons, Draft.check, Command.complete?_toDraft, Scope.check]
      dsimp only
      cases scope.checkCommand command with
      | error error => rfl
      | ok result =>
          obtain ⟨next, checked⟩ := result
          simp only [Except.mapError, bind, Except.bind, later, Scope.Outcome.result]
          cases (next.check rest).error? <;> rfl

/-- The check of a program in the empty scope decides the rules of scoping, and so does that of a
draft in which nothing is missing. -/
theorem check_isVerdict (program : Program) :
    Scope.IsVerdict program (Scope.empty.check program) ∧
      Draft.check .empty program.toDraft = (Scope.empty.check program).result := by
  have passes := Scope.models_empty.check_eq_none_iff Program.obeys_nil program
  have run (obeys : program.Obeys) := Scope.run_of_check Scope.consistent_empty (passes.mpr obeys)
  refine ⟨⟨passes, ?_, ?_, ?_, ?_⟩, Draft.check_toDraft .empty program⟩
  · intro obeys
    exact (Scope.models_empty.run (run obeys)).names_eq
  · intro obeys name ty
    exact (Scope.models_empty.run (run obeys)).typeOf?_eq_some_iff
  · intro obeys
    exact (run obeys).checked_eq (Scope.models_empty.run (run obeys)).consistent
  · intro error
    exact Scope.models_empty.check_eq_some_iff Program.obeys_nil program

end VarPrint
