/-
# Rendering and reading again

The canonical text of a program that came from a source is spelled like that source: each literal
and each name is found again whole, because what the text puts behind it cannot continue it. So the
text is read as the same program, and compiles as the source does.
-/

import VarPrint.Proofs.Program.Layout

namespace VarPrint

open Bytes Lexeme

theorem spelling_word {word : Bytes} (isWord : IsWord word) {b : UInt8}
    (outside : isNameByte b = false) (rest : Bytes) :
    spelling (word ++ b :: rest) = ⟨.ofWord word, word⟩ :: spelling (b :: rest) := by
  have significant : (TokenKind.ofWord word).isSignificant = true := by
    unfold TokenKind.ofWord
    split_ifs <;> rfl
  exact spelling_append isWord.ne_nil (first_word isWord (.cons outside rest)) significant

theorem spelling_symbol {kind : TokenKind} {symbol : UInt8}
    (entry : (kind, symbolLength symbol) ∈ recognizers) (noWord : kind ≠ .identifier)
    (significant : kind.isSignificant = true) (rest : Bytes) :
    spelling (symbol :: rest) = ⟨kind, [symbol]⟩ :: spelling rest :=
  spelling_append (List.cons_ne_nil symbol []) (first_symbol entry noWord rest) significant

/-- A well-formed expression is one lexeme of its text, if what follows can be part neither of a
name nor of a numeral. -/
theorem spelling_render_expr {expr : Expr} (wellFormed : expr.WellFormed) {b : UInt8}
    (noName : isNameByte b = false) (noNumeral : isNumeralByte b = false) (rest : Bytes) :
    spelling (expr.render ++ b :: rest) = expr.lexeme :: spelling (b :: rest) := by
  have number {numeral : Bytes} (isNumeral : IsNumeral numeral) :
      spelling (numeral ++ b :: rest) = ⟨.number, numeral⟩ :: spelling (b :: rest) :=
    spelling_append isNumeral.ne_nil (first_numeral isNumeral (.cons noNumeral rest)) rfl
  cases wellFormed with
  | whole isDigits _ => exact number (.whole isDigits)
  | decimal isWhole isFraction _ => exact number (.decimal isWhole isFraction)
  | @text content token isBody _ =>
      have isQuoted : (Expr.text content token).render = quoted content := rfl
      rw [isQuoted]
      exact spelling_append (by simp [quoted]) (first_quoted isBody _) rfl
  | @reference name token isName =>
      have spelled := spelling_word isName.1 noName rest
      rw [isName.2] at spelled
      exact spelled

/-- A command and the end of its line are spelled with the five lexemes of the command. -/
theorem spelling_render_command {command : Command Expr} (wellFormed : command.WellFormed)
    (rest : Bytes) :
    spelling (command.render ++ utf8 "\n" ++ rest) = command.spelling ++ spelling rest := by
  have space (rest : Bytes) : spelling (0x20 :: rest) = spelling rest :=
    spelling_blank (by decide) (by decide) rest
  have lineFeed (rest : Bytes) : spelling (0x0A :: rest) = spelling rest :=
    spelling_blank (by decide) (by decide) rest
  have equals (rest : Bytes) : spelling (0x3D :: rest) = ⟨.assign, utf8 "="⟩ :: spelling rest :=
    spelling_symbol (by simp [recognizers]) (by decide) rfl rest
  have opening (rest : Bytes) : spelling (0x28 :: rest) = ⟨.leftParen, utf8 "("⟩ :: spelling rest :=
    spelling_symbol (by simp [recognizers]) (by decide) rfl rest
  have closing (rest : Bytes) :
      spelling (0x29 :: rest) = ⟨.rightParen, utf8 ")"⟩ :: spelling rest :=
    spelling_symbol (by simp [recognizers]) (by decide) rfl rest
  have stop (rest : Bytes) : spelling (0x3B :: rest) = ⟨.semicolon, utf8 ";"⟩ :: spelling rest :=
    spelling_symbol (by simp [recognizers]) (by decide) rfl rest
  cases wellFormed with
  | @declare name value ty token isName isValue =>
      have text : (Command.declare name value ty token).render ++ utf8 "\n" ++ rest =
          utf8 "var" ++ 0x20 :: (name ++ 0x20 :: 0x3D :: 0x20 ::
            (value.render ++ 0x3B :: 0x0A :: rest)) := by
        simp only [Command.render, List.append_assoc]
        rfl
      rw [text, spelling_word isWord_var (by decide), space, spelling_word isName.1 (by decide),
        space, equals, space, spelling_render_expr isValue (by decide) (by decide), stop, lineFeed,
        isName.2]
      rfl
  | @print argument token isArgument =>
      have text : (Command.print argument token).render ++ utf8 "\n" ++ rest =
          utf8 "print" ++ 0x28 :: (argument.render ++ 0x29 :: 0x3B :: 0x0A :: rest) := by
        simp only [Command.render, List.append_assoc]
        rfl
      rw [text, spelling_word isWord_print (by decide), opening,
        spelling_render_expr isArgument (by decide) (by decide), closing, stop, lineFeed]
      rfl

/-- The canonical text of a well-formed program is spelled as the program says. -/
theorem spelling_render {program : Program}
    (wellFormed : ∀ command ∈ program, command.WellFormed) :
    spelling program.render = program.spelling := by
  induction program with
  | nil => exact spelling_nil
  | cons command rest ih =>
      rw [List.forall_mem_cons] at wellFormed
      have text : Program.render (command :: rest) =
          command.render ++ utf8 "\n" ++ Program.render rest := rfl
      rw [text, spelling_render_command wellFormed.1, ih wellFormed.2, Program.spelling,
        Program.spelling, List.flatMap_cons, List.append_assoc]

/-- A program that was read from a source is read again from its canonical text, up to the places
of its tokens; that text is then its own canonical text, and it compiles to the same Java text as
the source or fails with the same message and details. -/
theorem parse_tokenize_render {source : Bytes} {program : Program}
    (parsed : parse (tokenize source) = .ok program) :
    ∃ again, parse (tokenize program.render) = .ok again ∧
      Program.Linked Token.Alike program again ∧
      again.render = program.render ∧
      ((∃ code, compile program.render = .ok code ∧ compile source = .ok code) ∨
        ∃ first second, compile program.render = .error (.syntaxError first) ∧
          compile source = .error (.syntaxError second) ∧
          first.diagnostic.message = second.diagnostic.message ∧
          first.diagnostic.details = second.diagnostic.details) := by
  have same : spelling source = spelling program.render :=
    (spelling_of_parse parsed).trans (spelling_render (wellFormed_of_parse parsed)).symm
  have readings := parse_matched same
  have results := compile_matched same.symm
  rw [parsed] at readings
  generalize parse (tokenize program.render) = reading at readings
  cases readings with
  | @ok _ again linked =>
      refine ⟨again, rfl, linked, linked.render_eq.symm, ?_⟩
      generalize compile program.render = recompiled at results
      generalize compiled : compile source = result at results
      cases results with
      | ok sameCode => exact .inl ⟨_, rfl, congrArg Except.ok sameCode.symm⟩
      | error faults =>
          obtain ⟨error, isError⟩ := exists_syntaxError_of_compile parsed compiled
          cases faults with
          | syntaxError errors =>
              cases errors
              exact .inr ⟨_, _, rfl, rfl, rfl, rfl⟩
          | unquotedText => cases isError

/-- A text with a quote inside, among blanks and in front of a comment. -/
theorem parse_tokenize_render_text :
    ∃ source program, source = utf8 "print ( \"a\\\"b\" ) ; // nota" ∧
      program.render = utf8 "print(\"a\\\"b\");\n" ∧ parse (tokenize source) = .ok program ∧
      ∃ again, parse (tokenize program.render) = .ok again ∧
        Program.Linked Token.Alike program again ∧
        again.render = program.render ∧
        ((∃ code, compile program.render = .ok code ∧ compile source = .ok code) ∨
          ∃ first second, compile program.render = .error (.syntaxError first) ∧
            compile source = .error (.syntaxError second) ∧
            first.diagnostic.message = second.diagnostic.message ∧
            first.diagnostic.details = second.diagnostic.details) := by
  have parsed : parse (tokenize (utf8 "print ( \"a\\\"b\" ) ; // nota")) =
      .ok [.print (.text (utf8 "a\\\"b") ⟨⟨.text, utf8 "\"a\\\"b\""⟩, ⟨1, 9, 8⟩⟩)
        ⟨⟨.printWord, utf8 "print"⟩, ⟨1, 1, 0⟩⟩] := by
    decide +kernel
  exact ⟨_, _, rfl, rfl, parsed, parse_tokenize_render parsed⟩

end VarPrint
