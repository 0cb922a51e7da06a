/-
# Layout plays no part

Tokens may stand anywhere. When two lists agree token by token up to a relation under which tokens
are spelled alike, the readings agree as well: both succeed with the same commands, whose tokens are
related, or both fail with the same problem, at the same distance behind two related tokens. The
same holds of the check of two programs that differ in their tokens only, and so of compilation.
-/

import VarPrint.Compile
import VarPrint.Proofs.Outcome
import VarPrint.Proofs.Program.WellFormed
import VarPrint.Program.Render
import Mathlib.Data.List.Forall2

namespace VarPrint

/-- The same expression, from linked tokens. -/
inductive Expr.Linked (Link : Token → Token → Prop) : Expr → Expr → Prop
  | number {numeral : Bytes} {isDecimal : Bool} {first second : Token} (link : Link first second) :
      Linked Link (.number numeral isDecimal first) (.number numeral isDecimal second)
  | text {content : Bytes} {first second : Token} (link : Link first second) :
      Linked Link (.text content first) (.text content second)
  | reference {name : Bytes} {first second : Token} (link : Link first second) :
      Linked Link (.reference name first) (.reference name second)

/-- The same command, from linked tokens. -/
inductive Command.Linked (Link : Token → Token → Prop) : Command Expr → Command Expr → Prop
  | declare {name : Bytes} {value value' : Expr} {ty : Ty} {first second : Token}
      (values : Expr.Linked Link value value') (link : Link first second) :
      Linked Link (.declare name value ty first) (.declare name value' ty second)
  | print {argument argument' : Expr} {first second : Token}
      (arguments : Expr.Linked Link argument argument') (link : Link first second) :
      Linked Link (.print argument first) (.print argument' second)

/-- The same commands in the same order, from linked tokens. -/
abbrev Program.Linked (Link : Token → Token → Prop) : Program → Program → Prop :=
  List.Forall₂ (Command.Linked Link)

/-- The same problem, the same number of columns behind linked tokens. -/
inductive SyntaxError.Linked (Link : Token → Token → Prop) : SyntaxError → SyntaxError → Prop
  | within (problem : Problem) (distance : Nat) {first second : Token} (link : Link first second) :
      Linked Link ⟨problem, first.position.line, first.position.column + distance⟩
        ⟨problem, second.position.line, second.position.column + distance⟩

/-- The same fault; a syntax error may point elsewhere. -/
inductive Fault.Linked (Link : Token → Token → Prop) : Fault → Fault → Prop
  | syntaxError {first second : SyntaxError} (errors : SyntaxError.Linked Link first second) :
      Linked Link (.syntaxError first) (.syntaxError second)
  | unquotedText : Linked Link .unquotedText .unquotedText

/-- Faults that are linked, after the same number of tokens. -/
def Parse.Stop.Linked (Link : Token → Token → Prop) (first second : Parse.Stop) : Prop :=
  Fault.Linked Link first.fault second.fault ∧ first.consumed = second.consumed

/-- Tokens that differ at most in their places. -/
def Token.Alike (first second : Token) : Prop :=
  first.toLexeme = second.toLexeme

section Reading

variable {Link : Token → Token → Prop} (alike : ∀ first second, Link first second →
  Token.Alike first second)

theorem SyntaxError.Linked.atToken (problem : Problem) {first second : Token}
    (link : Link first second) :
    SyntaxError.Linked Link (problem.atToken first) (problem.atToken second) := by
  simpa [Problem.atToken] using SyntaxError.Linked.within problem 0 link

theorem Fault.Linked.atToken (problem : Problem) {first second : Token} (link : Link first second) :
    Fault.Linked Link (.syntaxError (problem.atToken first))
      (.syntaxError (problem.atToken second)) :=
  .syntaxError (.atToken problem link)

namespace Parse

include alike

theorem unknownToken_linked {first second : Token} (link : Link first second) :
    Fault.Linked Link (.syntaxError (unknownToken first)) (.syntaxError (unknownToken second)) := by
  have sameValue : first.value = second.value := congrArg Lexeme.value (alike _ _ link)
  unfold unknownToken
  rw [sameValue]
  split
  · exact .atToken _ link
  · exact .atToken _ link

theorem readNumber_matched {first second : Token} (link : Link first second) :
    Matched (Fault.Linked Link) (Expr.Linked Link) (readNumber first) (readNumber second) := by
  have sameValue : first.value = second.value := congrArg Lexeme.value (alike _ _ link)
  unfold readNumber
  rw [sameValue]
  dsimp only
  generalize (if second.value.contains Byte.dot = true then Magnitude.isInRange second.value
    else (Numeral.readWord? 64 second.value).isSome) = inRange
  cases inRange with
  | true => exact .ok (.number link)
  | false => exact .error (.atToken _ link)

theorem readText_matched {first second : Token} (link : Link first second) :
    Matched (Fault.Linked Link) (Expr.Linked Link) (readText first) (readText second) := by
  have sameValue : first.value = second.value := congrArg Lexeme.value (alike _ _ link)
  unfold readText
  rw [sameValue]
  cases textContent? second.value with
  | none => exact .error .unquotedText
  | some content =>
      dsimp only
      cases Escape.findBad? content with
      | none => exact .ok (.text link)
      | some bad =>
          -- The distance of the backslash from the token is counted in the content alone.
          have errors := SyntaxError.Linked.within (.invalidEscape bad.bytes)
            (1 + Bytes.runeCount (content.take bad.start)) link
          refine .error (.syntaxError ?_)
          simpa [Int.add_assoc] using errors

theorem readExpr_matched {first second : Token} (link : Link first second) :
    Matched (Fault.Linked Link) (Expr.Linked Link) (readExpr first) (readExpr second) := by
  have same := alike _ _ link
  have sameKind : first.kind = second.kind := congrArg Lexeme.kind same
  have sameValue : first.value = second.value := congrArg Lexeme.value same
  unfold readExpr
  rw [sameKind]
  split
  · exact readNumber_matched alike link
  · exact readText_matched alike link
  · rw [sameValue]
    exact .ok (.reference link)
  · exact .error (unknownToken_linked alike link)
  · rw [same]
    exact .error (.atToken _ link)

theorem readKind_matched (kind : TokenKind) {first second : Token} (link : Link first second) :
    Matched (Fault.Linked Link) Link (readKind kind first) (readKind kind second) := by
  have same := alike _ _ link
  have sameKind : first.kind = second.kind := congrArg Lexeme.kind same
  unfold readKind
  rw [sameKind]
  split
  · exact .ok link
  · split
    · exact .error (unknownToken_linked alike link)
    · rw [same]
      exact .error (.atToken _ link)

omit alike

variable {finish finish' : Token} {tokens tokens' : List Token}

theorem getD_linked (links : List.Forall₂ Link tokens tokens') (finishes : Link finish finish')
    (index : Nat) : Link (tokens.getD index finish) (tokens'.getD index finish') := by
  induction links generalizing index with
  | nil => exact finishes
  | cons link _ ih =>
      cases index with
      | zero => exact link
      | succ index => exact ih index

/-- A slot is matched as soon as its token is. -/
theorem slot_matched {α : Type} {Values : α → α → Prop} {read : Token → Except Fault α}
    (reads : ∀ first second, Link first second →
      Matched (Fault.Linked Link) Values (read first) (read second))
    (links : List.Forall₂ Link tokens tokens') (finishes : Link finish finish') (index : Nat) :
    Matched (Stop.Linked Link) Values (slot finish tokens index read)
      (slot finish' tokens' index read) := by
  refine (reads _ _ (getD_linked links finishes index)).mapError fun fault fault' faults => ?_
  exact ⟨faults, by rw [links.length_eq]⟩

include alike

theorem command_matched (links : List.Forall₂ Link tokens tokens')
    (finishes : Link finish finish') :
    Matched (Stop.Linked Link) (Command.Linked Link) (command finish tokens)
      (command finish' tokens') := by
  have firsts := getD_linked links finishes 0
  have same := alike _ _ firsts
  have sameKind : (tokens.getD 0 finish).kind = (tokens'.getD 0 finish').kind :=
    congrArg Lexeme.kind same
  have kinds (kind : TokenKind) (index : Nat) :=
    slot_matched (fun _ _ => readKind_matched alike kind) links finishes index
  have exprs (index : Nat) :=
    slot_matched (fun _ _ => readExpr_matched alike) links finishes index
  unfold command
  dsimp only
  rw [sameKind]
  split
  · refine (kinds .identifier 1).bind fun name name' names => ?_
    refine (kinds .assign 2).bind fun _ _ _ => ?_
    refine (exprs 3).bind fun value value' values => ?_
    refine (kinds .semicolon 4).bind fun _ _ _ => ?_
    have sameName : name.value = name'.value := congrArg Lexeme.value (alike _ _ names)
    rw [sameName]
    exact .ok (.declare values names)
  · refine (kinds .leftParen 1).bind fun _ _ _ => ?_
    refine (exprs 2).bind fun argument argument' arguments => ?_
    refine (kinds .rightParen 3).bind fun _ _ _ => ?_
    refine (kinds .semicolon 4).bind fun _ _ _ => ?_
    exact .ok (.print arguments firsts)
  · exact .error ⟨unknownToken_linked alike firsts, rfl⟩
  · rw [same]
    exact .error ⟨.atToken _ firsts, rfl⟩

/-- Readings of linked lists go through the same commands and stop at linked tokens. -/
theorem commands_matched (links : List.Forall₂ Link tokens tokens')
    (finishes : Link finish finish') :
    Matched (Fault.Linked Link) (Program.Linked Link) (commands finish tokens).result
      (commands finish' tokens').result := by
  fun_induction commands finish tokens generalizing tokens' with
  | case1 =>
      cases links
      rw [commands]
      exact .ok .nil
  | case2 token rest isEnd =>
      cases links with
      | cons link _ =>
          have isEnd' : _ = TokenKind.endOfInput :=
            (congrArg Lexeme.kind (alike _ _ link)).symm.trans isEnd
          rw [commands, if_pos isEnd']
          exact .ok .nil
  | case3 token rest notEnd stop failed =>
      have step := command_matched alike links finishes
      rw [failed] at step
      cases links with
      | @cons _ token' _ rest' link _ =>
          have sameKind : token.kind = token'.kind := congrArg Lexeme.kind (alike _ _ link)
          rw [commands, if_neg (sameKind ▸ notEnd)]
          generalize command finish' (token' :: rest') = result at step
          cases step with
          | error faults => exact .error faults.1
  | case4 token rest notEnd first firstRead ih =>
      have step := command_matched alike links finishes
      rw [firstRead] at step
      cases links with
      | @cons _ token' _ rest' link links =>
          have sameKind : token.kind = token'.kind := congrArg Lexeme.kind (alike _ _ link)
          rw [commands, if_neg (sameKind ▸ notEnd)]
          generalize command finish' (token' :: rest') = result at step
          cases step with
          | ok firsts =>
              exact (ih (List.forall₂_drop 4 links)).map fun _ _ others => .cons firsts others

end Parse

end Reading

/-- Lists of tokens that are spelled alike agree token by token. -/
theorem forall₂_alike {tokens tokens' : List Token}
    (same : tokens.map Token.toLexeme = tokens'.map Token.toLexeme) :
    List.Forall₂ Token.Alike tokens tokens' := by
  have related : List.Forall₂ Eq (tokens.map Token.toLexeme) (tokens'.map Token.toLexeme) := by
    rw [List.forall₂_eq_eq_eq]
    exact same
  rwa [List.forall₂_map_left_iff, List.forall₂_map_right_iff] at related

/-- Tokens that are spelled alike are read alike. -/
theorem parse_matched {tokens tokens' : List Token}
    (same : tokens.map Token.toLexeme = tokens'.map Token.toLexeme) :
    Matched (Fault.Linked Token.Alike) (Program.Linked Token.Alike) (parse tokens)
      (parse tokens') :=
  Parse.commands_matched (fun _ _ => id) (forall₂_alike same) rfl

section Checking

variable {Link : Token → Token → Prop}

namespace Scope

theorem infer_matched (scope : Scope) {first second : Expr}
    (linked : Expr.Linked Link first second) :
    Matched (SyntaxError.Linked Link) Eq (scope.infer first) (scope.infer second) := by
  cases linked with
  | number link => exact .ok rfl
  | text link => exact .ok rfl
  | @reference name _ _ link =>
      unfold infer
      dsimp only
      cases scope.typeOf? name with
      | none => exact .error (.atToken _ link)
      | some ty => exact .ok rfl

/-- A command is checked without regard to where its tokens stand. -/
theorem checkCommand_matched (scope : Scope) {first second : Command Expr}
    (linked : Command.Linked Link first second) :
    Matched (SyntaxError.Linked Link)
      (fun result result' => result.1 = result'.1 ∧ Command.Linked Link result.2 result'.2)
      (scope.checkCommand first) (scope.checkCommand second) := by
  cases linked with
  | @declare name value value' ty token token' values link =>
      unfold checkCommand
      dsimp only
      refine (scope.infer_matched values).bind ?_
      rintro inferred _ rfl
      split
      · exact .error (.atToken _ link)
      · cases scope.owner? (Java.variableName name) with
        | none => exact .ok ⟨rfl, .declare values link⟩
        | some earlier => exact .error (.atToken _ link)
  | @print argument argument' token token' arguments link =>
      unfold checkCommand
      dsimp only
      refine (scope.infer_matched arguments).bind fun _ _ _ => ?_
      exact .ok ⟨rfl, .print arguments link⟩

/-- Checks of linked programs come equally far, and leave the same scope. -/
theorem check_linked (scope : Scope) {first second : Program}
    (linked : Program.Linked Link first second) :
    (scope.check first).scope = (scope.check second).scope ∧
      Program.Linked Link (scope.check first).program (scope.check second).program ∧
      Option.Rel (SyntaxError.Linked Link) (scope.check first).error?
        (scope.check second).error? := by
  induction linked generalizing scope with
  | nil => exact ⟨rfl, .nil, .none⟩
  | @cons command command' rest rest' commands rests ih =>
      have step := scope.checkCommand_matched commands
      simp only [check]
      generalize scope.checkCommand command = result at step
      generalize scope.checkCommand command' = result' at step
      cases step with
      | error errors => exact ⟨rfl, .cons commands rests, .some errors⟩
      | @ok result result' related =>
          obtain ⟨next, checked⟩ := result
          obtain ⟨next', checked'⟩ := result'
          obtain ⟨rfl, checkeds⟩ := related
          obtain ⟨scopes, programs, errors⟩ := ih next
          exact ⟨scopes, .cons checkeds programs, errors⟩

end Scope

theorem analyzeProgram_matched {first second : Program}
    (linked : Program.Linked Link first second) :
    Matched (Fault.Linked Link)
      (fun analysis analysis' => analysis.scope = analysis'.scope ∧
        Program.Linked Link analysis.program analysis'.program)
      (analyzeProgram first) (analyzeProgram second) := by
  obtain ⟨scopes, programs, errors⟩ := Scope.empty.check_linked linked
  unfold analyzeProgram
  dsimp only
  generalize (Scope.empty.check first).error? = error at errors
  generalize (Scope.empty.check second).error? = error' at errors
  cases errors with
  | none => exact .ok ⟨scopes, programs⟩
  | some errors => exact .error (.syntaxError errors)

end Checking

section Writing

variable {Link : Token → Token → Prop}

theorem Expr.Linked.render_eq {first second : Expr} (linked : Expr.Linked Link first second) :
    first.render = second.render := by
  cases linked <;> rfl

theorem Expr.Linked.expression_eq {first second : Expr} (linked : Expr.Linked Link first second) :
    Java.expression first = Java.expression second := by
  cases linked <;> rfl

/-- Linked programs are written alike if each of their commands is. -/
theorem Program.Linked.flatMap_eq {first second : Program}
    (linked : Program.Linked Link first second) {write : Command Expr → Bytes}
    (same : ∀ command command', Command.Linked Link command command' →
      write command = write command') :
    first.flatMap write = second.flatMap write := by
  induction linked with
  | nil => rfl
  | cons commands _ ih => rw [List.flatMap_cons, List.flatMap_cons, same _ _ commands, ih]

/-- Linked programs have one canonical text. -/
theorem Program.Linked.render_eq {first second : Program}
    (linked : Program.Linked Link first second) : first.render = second.render := by
  apply linked.flatMap_eq
  intro command command' commands
  cases commands with
  | declare values link => simp only [Command.render, values.render_eq]
  | print arguments link => simp only [Command.render, arguments.render_eq]

/-- Linked programs become the same Java text. -/
theorem Program.Linked.statements_eq {first second : Program}
    (linked : Program.Linked Link first second) :
    Java.statements first = Java.statements second := by
  apply linked.flatMap_eq
  intro command command' commands
  cases commands with
  | declare values link => simp only [Java.statement, values.expression_eq]
  | print arguments link => simp only [Java.statement, arguments.expression_eq]

end Writing

/-- White space needs no rule of its own: the full analysis finds the empty program in it. -/
theorem compile_eq_map_analyze (source : Bytes) :
    compile source = (analyze source).map fun analysis => Java.statements analysis.program := by
  unfold compile
  split
  · next empty =>
      rw [analyze, parse_of_trimSpace empty]
      rfl
  · rfl

/-- Compiling a source that has been read is checking its program and writing what passes. -/
theorem compile_of_parse {source : Bytes} {program : Program}
    (parsed : parse (tokenize source) = .ok program) :
    compile source = match (Scope.empty.check program).error? with
      | some error => .error (.syntaxError error)
      | none => .ok (Java.statements (Scope.empty.check program).program) := by
  rw [compile_eq_map_analyze, analyze, parsed]
  change (analyzeProgram program).map _ = _
  unfold analyzeProgram
  dsimp only
  cases (Scope.empty.check program).error? <;> rfl

/-- A source that cannot be read fails as its reading does. -/
theorem compile_of_parse_error {source : Bytes} {fault : Fault}
    (failed : parse (tokenize source) = .error fault) : compile source = .error fault := by
  rw [compile_eq_map_analyze, analyze, failed]
  rfl

/-- Compiled code comes from a program that was read and that passed the check. -/
theorem exists_passed_of_compile {source code : Bytes} (compiled : compile source = .ok code) :
    ∃ program, parse (tokenize source) = .ok program ∧
      (Scope.empty.check program).error? = none ∧
      code = Java.statements (Scope.empty.check program).program := by
  obtain ⟨program, parsed⟩ : ∃ program, parse (tokenize source) = .ok program := by
    rw [compile_eq_map_analyze] at compiled
    obtain ⟨analysis, analyzed, _⟩ := map_eq_ok_iff.mp compiled
    obtain ⟨program, parsed, _⟩ := bind_eq_ok_iff.mp analyzed
    exact ⟨program, parsed⟩
  rw [compile_of_parse parsed] at compiled
  split at compiled
  · cases compiled
  · next passed =>
      cases compiled
      exact ⟨program, parsed, passed, rfl⟩

/-- Once a source has been read, compiling it can only fail in the check, with a syntax error. -/
theorem exists_syntaxError_of_compile {source : Bytes} {program : Program} {fault : Fault}
    (parsed : parse (tokenize source) = .ok program) (failed : compile source = .error fault) :
    ∃ error, fault = .syntaxError error := by
  rw [compile_of_parse parsed] at failed
  split at failed
  · next error _ =>
      cases failed
      exact ⟨error, rfl⟩
  · cases failed

/-- Sources with linked tokens, and linked ends, compile to the same text, or fail with the same
problem at linked tokens. -/
theorem compile_linked {Link : Token → Token → Prop} {first second : Bytes}
    (alike : ∀ token token', Link token token' → Token.Alike token token')
    (links : List.Forall₂ Link (tokenize first) (tokenize second))
    (finishes : Link (Parse.finishOf (tokenize first)) (Parse.finishOf (tokenize second))) :
    Matched (Fault.Linked Link) Eq (compile first) (compile second) := by
  rw [compile_eq_map_analyze, compile_eq_map_analyze]
  have readings := Parse.commands_matched alike links finishes
  have analyses := readings.bind fun _ _ linked => analyzeProgram_matched linked
  exact analyses.map fun _ _ related => related.2.statements_eq

/-- Sources that are spelled alike compile to the same text, or fail with the same problem. -/
theorem compile_matched {first second : Bytes} (same : spelling first = spelling second) :
    Matched (Fault.Linked Token.Alike) Eq (compile first) (compile second) :=
  compile_linked (fun _ _ => id) (forall₂_alike same) rfl

end VarPrint
