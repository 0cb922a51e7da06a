/-
# More text behind a source

Text that is added to a source on lines of its own does not disturb what was there. The tokens of
the longer source begin with those of the shorter one, so its commands are read again, the check
comes to the new commands with the scope that the old ones left, and the code of the old commands is
the front of the code. If the longer source fails, then at a token of the added lines.
-/

import VarPrint.Proofs.Program.Blame
import VarPrint.Proofs.Program.Layout
import VarPrint.Proofs.Token.Joining

namespace VarPrint

namespace Grammar

/-- Commands one after the other with nothing behind them, and the program that they are. -/
inductive SpellsAll : List Token → Program → Prop
  | nil : SpellsAll [] []
  | cons {piece rest : List Token} {first : Command Expr} {program : Program}
      (spells : Spells piece first) (others : SpellsAll rest program) :
      SpellsAll (piece ++ rest) (first :: program)

variable {front rest tokens : List Token} {program : Program}

theorem Derives.exists_spellsAll (derives : Derives tokens program) :
    ∃ front rest, tokens = front ++ rest ∧ SpellsAll front program ∧ AtEnd rest := by
  induction derives with
  | finish ended => exact ⟨[], _, rfl, .nil, ended⟩
  | @command piece rest first program spells _ ih =>
      obtain ⟨front, rest, rfl, others, ended⟩ := ih
      exact ⟨piece ++ front, rest, (List.append_assoc _ _ _).symm, .cons spells others, ended⟩

theorem SpellsAll.kind_ne_endOfInput (spells : SpellsAll front program) :
    ∀ token ∈ front, token.kind ≠ .endOfInput := by
  induction spells with
  | nil => simp
  | cons spells _ ih =>
      rw [List.forall_mem_append]
      exact ⟨spells.kind_ne_endOfInput, ih⟩

/-- In a list that ends with its only end, all tokens but that one are the commands. -/
theorem Derives.spellsAll_dropLast (derives : Derives tokens program)
    (ends : Lexeme.EndsOnce (tokens.map Token.toLexeme)) :
    SpellsAll tokens.dropLast program := by
  obtain ⟨front, rest, rfl, spells, ended⟩ := derives.exists_spellsAll
  rw [List.map_append,
    Lexeme.endsOnce_append_iff (by simpa using spells.kind_ne_endOfInput)] at ends
  obtain rfl | ⟨last, after, rfl, isEnd⟩ := ended
  · cases ends
  · rw [List.map_cons, Lexeme.EndsOnce, if_pos isEnd, List.map_eq_nil_iff] at ends
    rw [ends, List.dropLast_concat]
    exact spells

/-- Commands in front of a list are read first, and the reading goes on right behind them. -/
theorem commands_of_spellsAll {finish : Token} (isEnd : finish.kind = .endOfInput)
    (spells : SpellsAll front program) :
    (Parse.commands finish (front ++ rest)).result =
      (Parse.commands finish rest).result.map (program ++ ·) := by
  induction spells with
  | nil =>
      rw [List.nil_append]
      cases (Parse.commands finish rest).result <;> rfl
  | cons spells _ ih =>
      rw [List.append_assoc, commands_of_spells isEnd spells, Parse.Reading.prepend, ih]
      cases (Parse.commands finish rest).result <;> rfl

end Grammar

/-- The end token of a list stands where a token of its last part does. -/
theorem Parse.exists_position_finishOf (front : List Token) {rest : List Token}
    (nonempty : rest ≠ []) :
    ∃ token ∈ rest, (finishOf (front ++ rest)).position = token.position := by
  refine ⟨rest.getLast nonempty, List.getLast_mem nonempty, ?_⟩
  rw [finishOf, List.getLast?_append, List.getLast?_eq_getLast_of_ne_nil nonempty]
  rfl

/-- The check of two programs in a row is the check of the second behind that of the first. -/
theorem Scope.check_append {scope : Scope} {first : Program}
    (passed : (scope.check first).error? = none) (second : Program) :
    scope.check (first ++ second) =
      { (scope.check first).scope.check second with
        program := (scope.check first).program ++
          ((scope.check first).scope.check second).program } := by
  induction first generalizing scope with
  | nil => rfl
  | cons command rest ih =>
      cases checking : scope.checkCommand command with
      | error error =>
          rw [check, checking] at passed
          cases passed
      | ok result =>
          obtain ⟨next, checked⟩ := result
          rw [check, checking] at passed
          rw [List.cons_append, check, check, checking]
          dsimp only
          rw [ih passed]
          rfl

theorem Java.statements_append (first second : Program) :
    statements (first ++ second) = statements first ++ statements second :=
  List.flatMap_append

/-- A source that begins with commands which pass has their code at the front of its own, or fails at
a token behind them. -/
theorem compile_behind {source : Bytes} {front rest : List Token} {program : Program}
    (cut : tokenize source = front ++ rest) (nonempty : rest ≠ [])
    (spells : Grammar.SpellsAll front program)
    (passed : (Scope.empty.check program).error? = none) :
    (∃ more, compile source = .ok (Java.statements (Scope.empty.check program).program ++ more)) ∨
      ∃ error, compile source = .error (.syntaxError error) ∧
        ∃ token ∈ rest, error.PointsInto token := by
  obtain ⟨last, isLast, samePlace⟩ := Parse.exists_position_finishOf front nonempty
  have parsed : parse (tokenize source) = Except.map (program ++ ·)
      (Parse.commands (Parse.finishOf (front ++ rest)) rest).result := by
    rw [parse, cut]
    exact Grammar.commands_of_spellsAll rfl spells
  cases reading : (Parse.commands (Parse.finishOf (front ++ rest)) rest).result with
  | error fault =>
      have quoted : ∀ token ∈ Parse.finishOf (front ++ rest) :: rest, token.IsQuoted := by
        rw [List.forall_mem_cons]
        constructor
        · intro isText
          cases isText
        · intro token member
          have ofSource : token ∈ tokenize source := cut ▸ List.mem_append_right front member
          exact isQuoted_of_mem_tokenize token ofSource
      obtain ⟨token, member, error, rfl, points⟩ :=
        (Parse.commands_faults quoted).allowed_of_eq_error reading
      rw [reading] at parsed
      refine .inr ⟨error, compile_of_parse_error parsed, ?_⟩
      rcases List.mem_cons.mp member with rfl | inside
      · rw [SyntaxError.PointsInto, samePlace] at points
        exact ⟨last, isLast, points⟩
      · exact ⟨token, inside, points⟩
  | ok more =>
      rw [reading] at parsed
      rw [compile_of_parse parsed, Scope.check_append passed]
      dsimp only
      cases failed : ((Scope.empty.check program).scope.check more).error? with
      | none => exact .inl ⟨_, congrArg Except.ok (Java.statements_append _ _)⟩
      | some error =>
          have derives := (Grammar.commands_eq_ok_iff rfl).mp reading
          obtain ⟨token, member, points⟩ := Scope.exists_pointsInto_of_check failed
          exact .inr ⟨error, rfl, token, derives.tokens_subset member, points⟩

/-- Text on new lines behind a source that compiles leaves its code as it is: what compiles begins
with that code, and what fails does so on one of the new lines. -/
theorem compile_append_lineFeed {first code : Bytes} (compiled : compile first = .ok code)
    (rest : Bytes) :
    (∃ more, compile (first ++ Byte.lineFeed :: rest) = .ok (code ++ more)) ∨
      ∃ error, compile (first ++ Byte.lineFeed :: rest) = .error (.syntaxError error) ∧
        1 + (first.count Byte.lineFeed : Int) < error.line := by
  obtain ⟨program, parsed, passed, rfl⟩ := exists_passed_of_compile compiled
  have derives := (Grammar.commands_eq_ok_iff rfl).mp parsed
  have spells := derives.spellsAll_dropLast (endsOnce_spelling first)
  have cut := Scanner.tokens_append_lineFeed .start first rest
  rcases compile_behind cut (Scanner.tokens_ne_nil _ rest) spells passed with
    compiles | ⟨error, failed, token, member, points⟩
  · exact .inl compiles
  · refine .inr ⟨error, failed, ?_⟩
    have firstLine : Position.start.line = 1 := rfl
    have below := Scanner.line_le_of_mem_tokens member
    rw [Position.line_advance, List.count_append, List.count_singleton_self, firstLine] at below
    rw [points.1]
    omega

/-- A comment at the end of the source ends with its line, and the error lies behind it. -/
theorem compile_append_lineFeed_after_comment :
    compile (utf8 "var x = 1; // nota") = .ok (utf8 "int x = 1;\n") ∧
      ((∃ more, compile (utf8 "var x = 1; // nota" ++ Byte.lineFeed :: utf8 "print(y);") =
          .ok (utf8 "int x = 1;\n" ++ more)) ∨
        ∃ error, compile (utf8 "var x = 1; // nota" ++ Byte.lineFeed :: utf8 "print(y);") =
            .error (.syntaxError error) ∧
          1 + ((utf8 "var x = 1; // nota").count Byte.lineFeed : Int) < error.line) := by
  have compiled : compile (utf8 "var x = 1; // nota") = .ok (utf8 "int x = 1;\n") := by
    decide +kernel
  exact ⟨compiled, compile_append_lineFeed compiled (utf8 "print(y);")⟩

end VarPrint
