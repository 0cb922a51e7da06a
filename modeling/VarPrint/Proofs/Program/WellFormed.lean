/-
# Programs that come from a source

A program that was read from a source has more structure than its type shows: its names are words
that are not reserved, its numerals are digits in range with or without a point, and its texts are
what may stand between quotes. Its commands also say again how the source was spelled, so the
program determines the tokens that it came from, except for their places.
-/

import VarPrint.Proofs.Number.Numeral
import VarPrint.Proofs.Program.Grammar
import VarPrint.Proofs.Token.Spelling

namespace VarPrint

open Lexeme (IsDigits IsTextBody IsWord)

/-- A word that is not reserved. -/
def Lexeme.IsName (name : Bytes) : Prop :=
  IsWord name ∧ TokenKind.ofWord name = .identifier

open Lexeme (IsName)

/-- An expression that a source can hold. -/
inductive Expr.WellFormed : Expr → Prop
  | whole {numeral : Bytes} {token : Token} (isDigits : IsDigits numeral)
      (small : Numeral.value numeral < 2 ^ 63) : WellFormed (.number numeral false token)
  | decimal {whole fraction : Bytes} {token : Token} (isWhole : IsDigits whole)
      (isFraction : IsDigits fraction)
      (inRange : Magnitude.isInRange (whole ++ Byte.dot :: fraction) = true) :
      WellFormed (.number (whole ++ Byte.dot :: fraction) true token)
  | text {content : Bytes} {token : Token} (isBody : IsTextBody content)
      (clean : Escape.findBad? content = none) : WellFormed (.text content token)
  | reference {name : Bytes} {token : Token} (isName : IsName name) :
      WellFormed (.reference name token)

/-- A command that a source can hold. -/
inductive Command.WellFormed : Command Expr → Prop
  | declare {name : Bytes} {value : Expr} {ty : Ty} {token : Token} (isName : IsName name)
      (isValue : value.WellFormed) : WellFormed (.declare name value ty token)
  | print {argument : Expr} {token : Token} (isArgument : argument.WellFormed) :
      WellFormed (.print argument token)

/-- The one lexeme that an expression is written with. -/
def Expr.lexeme : Expr → Lexeme
  | number numeral _ _ => ⟨.number, numeral⟩
  | text content _ => ⟨.text, Lexeme.quoted content⟩
  | reference name _ => ⟨.identifier, name⟩

/-- The five lexemes that a command is written with. -/
def Command.spelling : Command Expr → List Lexeme
  | declare name value _ _ =>
    [⟨.varWord, utf8 "var"⟩, ⟨.identifier, name⟩, ⟨.assign, utf8 "="⟩, value.lexeme,
      ⟨.semicolon, utf8 ";"⟩]
  | print argument _ =>
    [⟨.printWord, utf8 "print"⟩, ⟨.leftParen, utf8 "("⟩, argument.lexeme, ⟨.rightParen, utf8 ")"⟩,
      ⟨.semicolon, utf8 ";"⟩]

/-- The lexemes that a program is written with, and the end. -/
def Program.spelling (program : Program) : List Lexeme :=
  program.flatMap Command.spelling ++ [⟨.endOfInput, []⟩]

namespace Grammar

/-- A lexeme is given by its kind and its bytes. -/
private theorem toLexeme_eq {token : Token} {kind : TokenKind} {value : Bytes}
    (sameKind : token.kind = kind) (sameValue : token.value = value) :
    token.toLexeme = ⟨kind, value⟩ := by
  rw [← sameKind, ← sameValue]

private theorem shape_of_kind {token : Token} {kind : TokenKind}
    (shape : token.toLexeme.WellShaped) (isKind : token.kind = kind) :
    Lexeme.WellShaped ⟨kind, token.value⟩ := by
  rw [← isKind]
  exact shape

theorem contains_dot_of_isDigits {digits : Bytes} (isDigits : IsDigits digits) :
    digits.contains Byte.dot = false := by
  rw [← Bool.not_eq_true, List.contains_iff_mem]
  intro member
  exact absurd (isDigits.2 _ member) (by decide)

/-- An accepted numeral of a source is a whole number below the sign bit or a decimal in range. -/
theorem wellFormed_of_readNumber {token : Token} {value : Expr}
    (isNumeral : Lexeme.IsNumeral token.value) (read : Parse.readNumber token = .ok value) :
    (Expr.number token.value (token.value.contains Byte.dot) token).WellFormed := by
  obtain ⟨inRange, _⟩ := readNumber_eq_ok_iff.mp read
  generalize token.value = numeral at isNumeral inRange
  cases isNumeral with
  | whole isDigits =>
      have noDot := contains_dot_of_isDigits isDigits
      rw [noDot, if_neg Bool.false_ne_true, Numeral.readWord?_digits isDigits] at inRange
      rw [noDot]
      refine .whole isDigits ?_
      by_contra large
      rw [if_neg large] at inRange
      cases inRange
  | @decimal whole fraction isWhole isFraction =>
      have hasDot : (whole ++ Byte.dot :: fraction).contains Byte.dot = true := by
        rw [List.contains_iff_mem]
        simp
      rw [hasDot, if_pos rfl] at inRange
      rw [hasDot]
      exact .decimal isWhole isFraction inRange

theorem dropLast_quoted (content : Bytes) :
    ((Lexeme.quoted content).drop 1).dropLast = content := by
  rw [Lexeme.quoted, List.drop_one, List.tail_cons, List.dropLast_concat]

/-- The expression of an operand is well formed, and is written with the operand. -/
theorem Operand.wellFormed {token : Token} {value : Expr} (operand : Operand token value)
    (shape : token.toLexeme.WellShaped) : value.WellFormed ∧ token.toLexeme = value.lexeme := by
  cases operand with
  | reference kind => exact ⟨.reference (shape_of_kind shape kind), toLexeme_eq kind rfl⟩
  | number kind accepted =>
      obtain ⟨value, read⟩ := accepted
      exact ⟨wellFormed_of_readNumber (shape_of_kind shape kind) read, toLexeme_eq kind rfl⟩
  | text kind _ clean =>
      obtain ⟨content, isBody, isQuoted⟩ := shape_of_kind shape kind
      dsimp only at isQuoted
      rw [isQuoted, dropLast_quoted] at clean ⊢
      exact ⟨.text isBody clean, toLexeme_eq kind isQuoted⟩

/-- A command of the grammar is well formed, and is written with its own tokens. -/
theorem Spells.wellFormed {piece : List Token} {command : Command Expr}
    (spells : Spells piece command) (shapes : ∀ token ∈ piece, token.toLexeme.WellShaped) :
    command.WellFormed ∧ piece.map Token.toLexeme = command.spelling := by
  cases spells with
  | @declare word name equals operand stop value isWord isName isEquals isOperand isStop =>
      simp only [List.mem_cons, List.not_mem_nil, or_false, forall_eq_or_imp, forall_eq] at shapes
      obtain ⟨wordShape, nameShape, equalsShape, operandShape, stopShape⟩ := shapes
      obtain ⟨isValue, operandLexeme⟩ := isOperand.wellFormed operandShape
      refine ⟨.declare (shape_of_kind nameShape isName) isValue, ?_⟩
      simp only [List.map_cons, List.map_nil, Command.spelling, operandLexeme]
      rw [toLexeme_eq isWord (shape_of_kind wordShape isWord), toLexeme_eq isName rfl,
        toLexeme_eq isEquals (shape_of_kind equalsShape isEquals),
        toLexeme_eq isStop (shape_of_kind stopShape isStop)]
  | @print word opening operand closing stop argument isWord isOpening isOperand isClosing isStop =>
      simp only [List.mem_cons, List.not_mem_nil, or_false, forall_eq_or_imp, forall_eq] at shapes
      obtain ⟨wordShape, openingShape, operandShape, closingShape, stopShape⟩ := shapes
      obtain ⟨isArgument, operandLexeme⟩ := isOperand.wellFormed operandShape
      refine ⟨.print isArgument, ?_⟩
      simp only [List.map_cons, List.map_nil, Command.spelling, operandLexeme]
      rw [toLexeme_eq isWord (shape_of_kind wordShape isWord),
        toLexeme_eq isOpening (shape_of_kind openingShape isOpening),
        toLexeme_eq isClosing (shape_of_kind closingShape isClosing),
        toLexeme_eq isStop (shape_of_kind stopShape isStop)]

/-- No token of a command is an end. -/
theorem Spells.kind_ne_endOfInput {piece : List Token} {command : Command Expr}
    (spells : Spells piece command) : ∀ token ∈ piece, token.kind ≠ .endOfInput := by
  have ofOperand {token : Token} {value : Expr} (operand : Operand token value) :
      token.kind ≠ .endOfInput := by
    cases operand <;> simp_all
  cases spells with
  | declare isWord isName isEquals isOperand isStop =>
      simp [isWord, isName, isEquals, ofOperand isOperand, isStop]
  | print isWord isOpening isOperand isClosing isStop =>
      simp [isWord, isOpening, ofOperand isOperand, isClosing, isStop]

/-- Every command of a derived program is well formed. -/
theorem Derives.wellFormed {tokens : List Token} {program : Program}
    (derives : Derives tokens program) (shapes : ∀ token ∈ tokens, token.toLexeme.WellShaped) :
    ∀ command ∈ program, command.WellFormed := by
  induction derives with
  | finish ended => simp
  | command spells _ ih =>
      rw [List.forall_mem_append] at shapes
      rw [List.forall_mem_cons]
      exact ⟨(spells.wellFormed shapes.1).1, ih shapes.2⟩

/-- A list of tokens with one end, at the end, is how the program that it derives is written. -/
theorem Derives.spelling_eq {tokens : List Token} {program : Program}
    (derives : Derives tokens program) (shapes : ∀ token ∈ tokens, token.toLexeme.WellShaped)
    (ends : Lexeme.EndsOnce (tokens.map Token.toLexeme)) :
    tokens.map Token.toLexeme = program.spelling := by
  induction derives with
  | finish ended =>
      obtain rfl | ⟨last, after, rfl, isEnd⟩ := ended
      · cases ends
      · rw [List.map_cons, Lexeme.EndsOnce, if_pos isEnd, List.map_eq_nil_iff] at ends
        rw [ends, List.map_cons, List.map_nil,
          toLexeme_eq isEnd (shape_of_kind (shapes last List.mem_cons_self) isEnd)]
        rfl
  | command spells _ ih =>
      rw [List.forall_mem_append] at shapes
      have noEnd := spells.kind_ne_endOfInput
      rw [List.map_append, Lexeme.endsOnce_append_iff (by simpa using noEnd)] at ends
      rw [List.map_append, ih shapes.2 ends, (spells.wellFormed shapes.1).2, Program.spelling,
        Program.spelling, List.flatMap_cons, List.append_assoc]

end Grammar

theorem wellShaped_of_mem_tokenize {source : Bytes} :
    ∀ token ∈ tokenize source, token.toLexeme.WellShaped :=
  fun _ member => wellShaped_of_mem_spelling (List.mem_map_of_mem member)

/-- What is read from a source is well formed. -/
theorem wellFormed_of_parse {source : Bytes} {program : Program}
    (parsed : parse (tokenize source) = .ok program) : ∀ command ∈ program, command.WellFormed :=
  ((Grammar.commands_eq_ok_iff rfl).mp parsed).wellFormed wellShaped_of_mem_tokenize

/-- What is read from a source spells the source again. -/
theorem spelling_of_parse {source : Bytes} {program : Program}
    (parsed : parse (tokenize source) = .ok program) : spelling source = program.spelling :=
  ((Grammar.commands_eq_ok_iff rfl).mp parsed).spelling_eq wellShaped_of_mem_tokenize
    (endsOnce_spelling source)

/-- A source of which trimming leaves nothing is the empty program. -/
theorem parse_of_trimSpace {source : Bytes} (empty : source.trimSpace = []) :
    parse (tokenize source) = .ok [] := by
  have spelled : (tokenize source).map Token.toLexeme = [⟨.endOfInput, []⟩] :=
    spelling_of_trimSpace empty
  obtain ⟨last, tokens, isLast⟩ := List.map_eq_singleton_iff.mp spelled
  rw [tokens]
  refine (Grammar.commands_eq_ok_iff rfl).mpr (.finish (.inr ⟨last, [], rfl, ?_⟩))
  rw [isLast]

end VarPrint
