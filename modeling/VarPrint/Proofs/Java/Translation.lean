/-
# What a statement says in Java

Every command that a source can hold is written as one line of the Java fragment. The relation
between the two is stated here without the writer: a whole number becomes its canonical numeral,
with the suffix of a long exactly from the sign bit of an int on, a decimal and a text stay as they
are, and a variable takes its Java name. The main statement is that the text of a program is read
back, completely, as the lines that its commands are related to.
-/

import VarPrint.Proofs.Java.Reader
import VarPrint.Proofs.Program.Scope

namespace VarPrint

open Bytes (Stops)
open Lexeme (IsDigits IsName IsTextBody IsWord)

/-- The Java expression that an expression becomes. -/
inductive Expr.Translates : Expr → Java.Term → Prop
  | int {numeral : Bytes} {token : Token} (isDigits : IsDigits numeral)
      (small : Numeral.value numeral < 2 ^ 31) :
      Translates (.number numeral false token)
        (.whole (Numeral.ofNat (Numeral.value numeral)) false)
  | long {numeral : Bytes} {token : Token} (isDigits : IsDigits numeral)
      (large : 2 ^ 31 ≤ Numeral.value numeral) (small : Numeral.value numeral < 2 ^ 63) :
      Translates (.number numeral false token)
        (.whole (Numeral.ofNat (Numeral.value numeral)) true)
  | double {whole fraction : Bytes} {token : Token} (isWhole : IsDigits whole)
      (isFraction : IsDigits fraction) :
      Translates (.number (whole ++ Byte.dot :: fraction) true token) (.point whole fraction)
  | string {content : Bytes} {token : Token} (isBody : IsTextBody content) :
      Translates (.text content token) (.text content)
  | reference {name : Bytes} {token : Token} (isName : IsName name) :
      Translates (.reference name token) (.reference (Java.variableName name))

/-- The Java line that a command becomes. -/
inductive Command.Translates : Command Expr → Java.Line → Prop
  | declare {name : Bytes} {value : Expr} {ty : Ty} {token : Token} {init : Java.Term}
      (isName : IsName name) (inits : value.Translates init) :
      Translates (.declare name value ty token)
        (.declare (Java.typeName ty) (Java.variableName name) init)
  | print {value : Expr} {token : Token} {argument : Java.Term}
      (arguments : value.Translates argument) :
      Translates (.print value token) (.println argument)

/-- The Java lines that a program becomes. -/
abbrev Program.Translates (program : Program) (lines : List Java.Line) : Prop :=
  List.Forall₂ Command.Translates program lines

namespace Java

/-! Names -/

theorem isIdentifierStart_of_isLetter {b : UInt8} (letter : Byte.isLetter b = true) :
    isIdentifierStart b = true := by
  rw [isIdentifierStart, letter, Bool.true_or, Bool.true_or]

theorem isIdentifierPart_of_isNameByte {b : UInt8} (inName : Lexeme.isNameByte b = true) :
    isIdentifierPart b = true := by
  obtain letter | digit | rfl := Byte.isNameByte_iff.mp inName
  · rw [isIdentifierPart, isIdentifierStart_of_isLetter letter, Bool.true_or]
  · rw [isIdentifierPart, digit, Bool.or_true]
  · rfl

theorem isIdentifier_of_isWord {word : Bytes} (isWord : IsWord word) :
    isIdentifier word = true := by
  cases word with
  | nil => cases isWord
  | cons b rest =>
      rw [isIdentifier, isIdentifierStart_of_isLetter isWord.1, Bool.true_and, List.all_eq_true]
      exact fun c member => isIdentifierPart_of_isNameByte (isWord.2 c member)

/-- The Java name of a variable is a word again. -/
theorem isWord_variableName {name : Bytes} (isWord : IsWord name) :
    IsWord (variableName name) := by
  unfold variableName
  split
  · cases name with
    | nil => cases isWord
    | cons b rest =>
        refine ⟨isWord.1, fun c member => ?_⟩
        obtain inside | last := List.mem_append.mp member
        · exact isWord.2 c inside
        · rw [List.mem_singleton.mp last]
          rfl
  · exact isWord

theorem isIdentifier_variableName {name : Bytes} (isName : IsName name) :
    isIdentifier (variableName name) = true :=
  isIdentifier_of_isWord (isWord_variableName isName.1)

/-- No reserved name ends in a low line, so the one that is added makes a reserved name free. -/
theorem variableName_not_mem_reserved (name : Bytes) : variableName name ∉ reserved := by
  have noLowLine : ∀ word ∈ reserved, word.getLast? ≠ some Byte.underscore := by decide +kernel
  unfold variableName
  split
  · intro member
    exact noLowLine _ member List.getLast?_concat
  · assumption

theorem isIdentifier_typeName (ty : Ty) : isIdentifier (typeName ty) = true := by
  cases ty <;> decide

/-! Numerals -/

theorem number_int {numeral : Bytes} (isDigits : IsDigits numeral)
    (small : Numeral.value numeral < 2 ^ 31) :
    number numeral false = Numeral.ofNat (Numeral.value numeral) := by
  have fits : Numeral.value numeral < 2 ^ (64 - 1) := by omega
  rw [number, if_neg Bool.false_ne_true, Numeral.readWord?_digits isDigits, if_pos fits]
  dsimp only
  rw [Numeral.ofNumeral_digits isDigits, if_pos small, if_neg (by decide), List.append_nil]
  rfl

theorem number_long {numeral : Bytes} (isDigits : IsDigits numeral)
    (large : 2 ^ 31 ≤ Numeral.value numeral) (small : Numeral.value numeral < 2 ^ 63) :
    number numeral false = Numeral.ofNat (Numeral.value numeral) ++ [longSuffix] := by
  rw [number, if_neg Bool.false_ne_true, Numeral.readWord?_digits isDigits, if_pos small]
  dsimp only
  rw [Numeral.ofNumeral_digits isDigits, if_neg (Nat.not_lt.mpr large), if_pos rfl]
  rfl

end Java

/-- Every expression of a source becomes some Java expression. -/
theorem Expr.WellFormed.exists_translates {value : Expr} (formed : value.WellFormed) :
    ∃ term, value.Translates term := by
  cases formed with
  | @whole numeral _ isDigits small =>
      by_cases fits : Numeral.value numeral < 2 ^ 31
      · exact ⟨_, .int isDigits fits⟩
      · exact ⟨_, .long isDigits (Nat.le_of_not_lt fits) small⟩
  | decimal isWhole isFraction _ => exact ⟨_, .double isWhole isFraction⟩
  | text isBody _ => exact ⟨_, .string isBody⟩
  | reference isName => exact ⟨_, .reference isName⟩

theorem not_mem_digits {digits : Bytes} (isDigits : IsDigits digits) {b : UInt8}
    (other : Byte.isDigit b = false) : b ∉ digits := by
  intro member
  exact Bool.noConfusion ((isDigits.2 b member).symm.trans other)

theorem not_mem_variableName {name : Bytes} (isName : IsName name) {b : UInt8}
    (other : Java.isIdentifierPart b = false) : b ∉ Java.variableName name := by
  intro member
  have isPart := Java.isIdentifierPart_of_isIdentifier (Java.isIdentifier_variableName isName)
  exact Bool.noConfusion ((isPart b member).symm.trans other)

namespace Expr.Translates

variable {value : Expr} {term : Java.Term}

/-- A written expression is read back. -/
theorem readTerm?_expression (translates : value.Translates term) {rest : Bytes}
    (stops : Stops Java.isTermByte rest) :
    Java.readTerm? (Java.expression value ++ rest) = some (term, rest) := by
  cases translates with
  | int isDigits small =>
      rw [Java.expression, Java.number_int isDigits small]
      exact Java.readTerm?_int (Numeral.isDigits_ofNat _) stops
  | long isDigits large small =>
      rw [Java.expression, Java.number_long isDigits large small, List.append_assoc]
      exact Java.readTerm?_long (Numeral.isDigits_ofNat _) rest
  | double isWhole isFraction => exact Java.readTerm?_point isWhole isFraction stops
  | string isBody => exact Java.readTerm?_text isBody rest
  | reference isName =>
      exact Java.readTerm?_reference (Java.isIdentifier_variableName isName)
        (Java.stops_isIdentifierPart stops)

/-- A written expression stays on its line. -/
theorem lineFeed_not_mem (translates : value.Translates term) :
    Byte.lineFeed ∉ Java.expression value := by
  cases translates with
  | int isDigits small =>
      rw [Java.expression, Java.number_int isDigits small]
      exact not_mem_digits (Numeral.isDigits_ofNat _) rfl
  | long isDigits large small =>
      rw [Java.expression, Java.number_long isDigits large small, List.mem_append, not_or]
      exact ⟨not_mem_digits (Numeral.isDigits_ofNat _) rfl, by decide⟩
  | double isWhole isFraction =>
      rw [Java.expression, Java.number, if_pos rfl, List.mem_append, List.mem_cons, not_or, not_or]
      exact ⟨not_mem_digits isWhole rfl, by decide, not_mem_digits isFraction rfl⟩
  | string isBody =>
      rw [Java.expression, List.mem_append, List.mem_append, not_or, not_or]
      exact ⟨⟨by decide, isBody.lineFeed_not_mem⟩, by decide⟩
  | reference isName => exact not_mem_variableName isName rfl

end Expr.Translates

namespace Command.Translates

variable {command : Command Expr} {line : Java.Line}

/-- A written command is read back. -/
theorem readLine?_statement (translates : command.Translates line) :
    Java.readLine? (Java.statement command) = some line := by
  cases translates with
  | @declare name value ty token init isName inits =>
      -- No type name begins as the call does.
      have noCall (rest : Bytes) : (utf8 "System.out.println(").isPrefixOf?
          (Java.typeName ty ++ (utf8 " " ++ rest)) = none := by
        cases ty <;> rfl
      have afterType (rest : Bytes) : Stops Java.isIdentifierPart (utf8 " " ++ rest) :=
        .cons rfl rest
      have afterName (rest : Bytes) : Stops Java.isIdentifierPart (utf8 " = " ++ rest) :=
        .cons rfl (utf8 "= " ++ rest)
      have afterInit : Stops Java.isTermByte (utf8 ";") := .cons rfl []
      have isVariable := Java.isIdentifier_variableName isName
      simp only [Java.statement, List.append_assoc]
      rw [Java.readLine?, noCall]
      dsimp only
      rw [Java.readIdentifier?_append (Java.isIdentifier_typeName ty) (afterType _)]
      simp only [Option.bind_eq_bind, Option.bind_some, Java.isPrefixOf?_append]
      rw [Java.readIdentifier?_append isVariable (afterName _)]
      simp only [Option.bind_some, Java.isPrefixOf?_append]
      rw [inits.readTerm?_expression afterInit]
      rfl
  | @print value token argument arguments =>
      have afterArgument : Stops Java.isTermByte (utf8 ");") := .cons rfl (utf8 ";")
      simp only [Java.statement, List.append_assoc]
      rw [Java.readLine?, Java.isPrefixOf?_append]
      dsimp only
      rw [arguments.readTerm?_expression afterArgument]
      rfl

/-- A written command takes one line. -/
theorem lineFeed_not_mem (translates : command.Translates line) :
    Byte.lineFeed ∉ Java.statement command := by
  cases translates with
  | @declare name value ty token init isName inits =>
      have noType : Byte.lineFeed ∉ Java.typeName ty := by cases ty <;> decide
      simp only [Java.statement, List.mem_append, not_or]
      exact ⟨⟨⟨⟨⟨noType, by decide⟩, not_mem_variableName isName rfl⟩, by decide⟩,
        inits.lineFeed_not_mem⟩, by decide⟩
  | print arguments =>
      simp only [Java.statement, List.mem_append, not_or]
      exact ⟨⟨by decide, arguments.lineFeed_not_mem⟩, by decide⟩

end Command.Translates

theorem Command.WellFormed.exists_translates {command : Command Expr}
    (formed : command.WellFormed) : ∃ line, command.Translates line := by
  cases formed with
  | declare isName isValue =>
      obtain ⟨init, inits⟩ := isValue.exists_translates
      exact ⟨_, .declare isName inits⟩
  | print isArgument =>
      obtain ⟨argument, arguments⟩ := isArgument.exists_translates
      exact ⟨_, .print arguments⟩

theorem Java.statements_cons (command : Command Expr) (rest : Program) :
    Java.statements (command :: rest) =
      Java.statement command ++ Byte.lineFeed :: Java.statements rest := by
  rw [Java.statements, List.flatMap_cons, List.append_assoc]
  rfl

/-- The text of a program is read back, to its last byte, as the lines of its commands. -/
theorem Program.Translates.readText?_statements {program : Program} {lines : List Java.Line}
    (translates : program.Translates lines) :
    Java.readText? (Java.statements program) = some lines := by
  induction translates with
  | nil => rfl
  | @cons command line rest lines commands rests ih =>
      unfold Java.readText? at ih ⊢
      rw [Java.statements_cons, List.splitOn_append_cons_self_of_not_mem commands.lineFeed_not_mem,
        Java.readPieces?_cons (List.splitOn_ne_nil _ _), commands.readLine?_statement, ih]
      rfl

/-- Checking a command changes neither its name nor its expression. -/
theorem Scope.Step.wellFormed {scope next : Scope} {command checked : Command Expr}
    (step : scope.Step command next checked) (formed : command.WellFormed) :
    checked.WellFormed := by
  cases step with
  | declare typed fresh =>
      cases formed with
      | declare isName isValue => exact .declare isName isValue
  | print typed => exact formed

/-- A program of a source that passes the check becomes some lines. -/
theorem Scope.Run.exists_translates {scope last : Scope} {program checked : Program}
    (run : Scope.Run scope program last checked)
    (formed : ∀ command ∈ program, command.WellFormed) :
    ∃ lines, checked.Translates lines := by
  induction run with
  | nil => exact ⟨[], .nil⟩
  | cons step _ ih =>
      rw [List.forall_mem_cons] at formed
      obtain ⟨line, commands⟩ := (step.wellFormed formed.1).exists_translates
      obtain ⟨lines, rests⟩ := ih formed.2
      exact ⟨line :: lines, .cons commands rests⟩

/-- Compiled code is read back as the lines of the program that the source holds. -/
theorem exists_lines_of_compile {source code : Bytes} (compiled : compile source = .ok code) :
    ∃ program last checked lines, parse (tokenize source) = .ok program ∧
      Scope.Run .empty program last checked ∧ checked.Translates lines ∧
      Java.readText? code = some lines := by
  obtain ⟨program, last, checked, parsed, run, rfl⟩ := exists_run_of_compile compiled
  obtain ⟨lines, translates⟩ := run.exists_translates (wellFormed_of_parse parsed)
  exact ⟨program, last, checked, lines, parsed, run, translates, translates.readText?_statements⟩

end VarPrint
