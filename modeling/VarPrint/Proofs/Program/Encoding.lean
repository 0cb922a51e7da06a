/-
# The encoding of what a compilation returns

A source is cut at bytes: into tokens, behind the quotes of a text, and around an escape that is
refused. From a well-encoded source every token is well encoded, since no rune reaches over the end
of a lexeme, and so is the content of a text, since quotes are in ASCII. What is put together from
such pieces is well encoded: the statements of a program and the message of an error.

The details of an error can fail to be. A refused Unicode escape is cited with the four bytes behind
its marks, and these may end inside a character. Every other escape is cited up to the end of a
character or of its text.
-/

import VarPrint.Proofs.Program.Escape
import VarPrint.Proofs.Program.Location
import VarPrint.Proofs.Text.Encoding

namespace VarPrint

open Bytes (IsUtf8 isUtf8_utf8)

variable {source : Bytes} {token : Token}

/-! Tokens and programs -/

/-- A lexeme and what it leaves of a well-encoded text are well encoded. -/
theorem Scanner.isUtf8_of_mem_tokens {input : Bytes} {place : Position} (isUtf8 : IsUtf8 input)
    (member : token ∈ (Scanner.mk place input).tokens) : IsUtf8 token.value := by
  induction input using Lexeme.rule_induction generalizing place with
  | nil =>
      rw [tokens_nil, List.mem_singleton] at member
      rw [member]
      exact Bytes.isUtf8_nil
  | step kind value rest rule ih =>
      obtain ⟨first, others⟩ := rule.apart.isUtf8_append_iff.mp isUtf8
      rw [tokens_of_rule rule, List.mem_append] at member
      rcases member with here | later
      · split at here
        · rw [List.mem_singleton.mp here]
          exact first
        · cases here
      · exact ih others later

theorem isUtf8_of_mem_tokenize (isUtf8 : IsUtf8 source) (member : token ∈ tokenize source) :
    IsUtf8 token.value :=
  Scanner.isUtf8_of_mem_tokens isUtf8 member

theorem Lexeme.isUtf8_quoted_iff {content : Bytes} : IsUtf8 (quoted content) ↔ IsUtf8 content := by
  have behind : Bytes.Apart [Byte.quote] (content ++ [Byte.quote]) :=
    Bytes.apart_concat (by decide) [] _
  have inside : Bytes.Apart content [Byte.quote] :=
    Bytes.apart_of_isBoundary (Bytes.isBoundary_cons (by decide) []) content
  have isQuote : IsUtf8 [Byte.quote] := isUtf8_utf8 "\""
  have split : quoted content = [Byte.quote] ++ (content ++ [Byte.quote]) := rfl
  rw [split, behind.isUtf8_append_iff, inside.isUtf8_append_iff]
  simp only [isQuote, true_and, and_true]

theorem isUtf8_content_of_mem_tokenize (isUtf8 : IsUtf8 source) (member : token ∈ tokenize source)
    (isText : token.kind = .text) : IsUtf8 (token.value.drop 1).dropLast := by
  have isValue := isUtf8_of_mem_tokenize isUtf8 member
  have shape := wellShaped_of_mem_tokenize token member
  rw [Lexeme.WellShaped, isText] at shape
  obtain ⟨content, _, value⟩ := shape
  rw [value] at isValue ⊢
  rw [Grammar.dropLast_quoted]
  exact Lexeme.isUtf8_quoted_iff.mp isValue

/-- What an expression keeps of a source is well encoded. -/
def Expr.IsEncoded : Expr → Prop
  | number numeral _ _ => IsUtf8 numeral
  | text content _ => IsUtf8 content
  | reference name _ => IsUtf8 name

/-- What a command keeps of a source is well encoded. -/
def Command.IsEncoded : Command Expr → Prop
  | declare name value _ _ => IsUtf8 name ∧ value.IsEncoded
  | print argument _ => argument.IsEncoded

theorem Grammar.Operand.isEncoded {value : Expr} (operand : Operand token value)
    (isUtf8 : IsUtf8 source) (member : token ∈ tokenize source) : value.IsEncoded := by
  cases operand with
  | reference => exact isUtf8_of_mem_tokenize isUtf8 member
  | number => exact isUtf8_of_mem_tokenize isUtf8 member
  | text isText => exact isUtf8_content_of_mem_tokenize isUtf8 member isText

theorem isEncoded_of_parse {program : Program} (isUtf8 : IsUtf8 source)
    (parsed : parse (tokenize source) = .ok program) : ∀ command ∈ program, command.IsEncoded := by
  have derives := (Grammar.commands_eq_ok_iff rfl).mp parsed
  intro command member
  obtain ⟨piece, inside, spells⟩ := derives.exists_spells member
  cases spells with
  | declare _ _ _ isOperand =>
      exact ⟨isUtf8_of_mem_tokenize isUtf8 (inside (by simp)),
        isOperand.isEncoded isUtf8 (inside (by simp))⟩
  | print _ _ isOperand => exact isOperand.isEncoded isUtf8 (inside (by simp))

/-- Checking a program only adds types. -/
theorem Scope.Run.isEncoded {scope last : Scope} {program checked : Program}
    (run : Scope.Run scope program last checked)
    (encoded : ∀ command ∈ program, command.IsEncoded) :
    ∀ command ∈ checked, command.IsEncoded := by
  induction run with
  | nil => exact encoded
  | cons step _ ih =>
      rw [List.forall_mem_cons] at encoded ⊢
      refine ⟨?_, ih encoded.2⟩
      cases step with
      | declare => exact encoded.1
      | print => exact encoded.1

/-! Code -/

theorem Numeral.isUtf8_ofInt (value : Int) : IsUtf8 (ofInt value) := by
  apply Bytes.isUtf8_of_ascii
  cases value with
  | ofNat n => exact (isDigits_ofNat n).ascii
  | negSucc n => exact List.forall_mem_cons.mpr ⟨by decide, (isDigits_ofNat (n + 1)).ascii⟩

namespace Java

theorem isUtf8_variableName {name : Bytes} (isUtf8 : IsUtf8 name) : IsUtf8 (variableName name) := by
  rw [variableName]
  split
  · exact isUtf8.append (isUtf8_utf8 "_")
  · exact isUtf8

theorem isUtf8_typeName (ty : Ty) : IsUtf8 (typeName ty) := by
  cases ty <;> exact isUtf8_utf8 _

theorem isUtf8_number {numeral : Bytes} (isUtf8 : IsUtf8 numeral) (isDecimal : Bool) :
    IsUtf8 (number numeral isDecimal) := by
  rw [number]
  split
  · exact isUtf8
  · split
    · exact isUtf8
    · refine (Numeral.isUtf8_ofInt _).append ?_
      split
      · exact isUtf8_utf8 "L"
      · exact Bytes.isUtf8_nil

theorem isUtf8_expression {value : Expr} (encoded : value.IsEncoded) :
    IsUtf8 (expression value) := by
  cases value with
  | number numeral isDecimal token => exact isUtf8_number encoded isDecimal
  | text content token => exact ((isUtf8_utf8 "\"").append encoded).append (isUtf8_utf8 "\"")
  | reference name token => exact isUtf8_variableName encoded

theorem isUtf8_statement {command : Command Expr} (encoded : command.IsEncoded) :
    IsUtf8 (statement command) := by
  cases command with
  | declare name value ty token =>
      have left := ((isUtf8_typeName ty).append (isUtf8_utf8 " ")).append
        (isUtf8_variableName encoded.1)
      have right := (isUtf8_expression encoded.2).append (isUtf8_utf8 ";")
      have whole := (left.append (isUtf8_utf8 " = ")).append right
      rwa [← List.append_assoc] at whole
  | print argument token =>
      exact ((isUtf8_utf8 "System.out.println(").append (isUtf8_expression encoded)).append
        (isUtf8_utf8 ");")

theorem isUtf8_statements {program : Program} (encoded : ∀ command ∈ program, command.IsEncoded) :
    IsUtf8 (statements program) := by
  apply Bytes.isUtf8_flatMap
  intro command member
  exact (isUtf8_statement (encoded command member)).append (isUtf8_utf8 "\n")

end Java

/-- The code for a well-encoded source is well encoded. -/
theorem isUtf8_of_compile {code : Bytes} (isUtf8 : IsUtf8 source)
    (compiled : compile source = .ok code) : IsUtf8 code := by
  obtain ⟨program, scope, checked, parsed, run, rfl⟩ := exists_run_of_compile compiled
  exact Java.isUtf8_statements (run.isEncoded (isEncoded_of_parse isUtf8 parsed))

/-! Errors -/

namespace Escape

/-- A backslash, marks and four bytes behind them, whatever these are. -/
def HasFourBytes (escape : Bytes) : Prop :=
  ∃ more quad, quad.length = 4 ∧
    escape = Byte.backslash :: mark :: (List.replicate more mark ++ quad)

theorem take_eq_or_hasFourBytes_of_readUnicode {rest : Bytes} {length : Nat}
    (invalid : readUnicode (mark :: rest) = .invalid length) :
    (mark :: rest).take length = mark :: rest ∨
      HasFourBytes (Byte.backslash :: (mark :: rest).take length) := by
  have marks := takeWhile_marks rest
  unfold readUnicode at invalid
  dsimp only at invalid
  split at invalid
  · cases invalid
    exact .inl List.take_length
  · next room =>
      have isLength : length = ((mark :: rest).takeWhile (· = 0x75)).length + 4 := by
        split at invalid
        · split at invalid
          · cases invalid
            rfl
          · cases invalid
        · cases invalid
          rfl
      refine .inr ⟨(rest.takeWhile (· = 0x75)).length, _,
        List.length_take_of_le (Nat.le_of_not_lt room), ?_⟩
      rw [isLength, List.take_add, take_length_takeWhile, marks]
      rfl

/-- What is refused in a well-encoded text is well encoded, unless it is cut behind four bytes. -/
theorem isUtf8_or_hasFourBytes_of_read {rest : Bytes} {length : Nat} (isUtf8 : IsUtf8 rest)
    (invalid : read rest = .invalid length) :
    IsUtf8 (Byte.backslash :: rest.take length) ∨
      HasFourBytes (Byte.backslash :: rest.take length) := by
  have withBackslash {text : Bytes} (isText : IsUtf8 text) : IsUtf8 (Byte.backslash :: text) :=
    (isUtf8_utf8 "\\").append isText
  cases rest with
  | nil => cases invalid
  | cons b rest =>
      rw [read] at invalid
      split at invalid
      · cases invalid
      · split at invalid
        · cases invalid
        · split at invalid
          · next isMark =>
              cases isMark
              rcases take_eq_or_hasFourBytes_of_readUnicode invalid with whole | four
              · rw [whole]
                exact .inl (withBackslash isUtf8)
              · exact .inr four
          · -- One rune is refused as a whole.
            cases invalid
            obtain ⟨characters, whole⟩ := isUtf8
            cases characters with
            | nil => cases whole
            | cons c characters =>
                rw [Bytes.ofRunes, List.flatMap_cons] at whole
                rw [whole, Rune.width_encoding, List.take_left]
                exact .inl (withBackslash (Bytes.isUtf8_encoding c))

end Escape

theorem TokenKind.isUtf8_description (kind : TokenKind) : IsUtf8 kind.description := by
  cases kind with
  | other code =>
      exact ((isUtf8_utf8 "TokenType(").append (Numeral.isUtf8_ofInt code)).append (isUtf8_utf8 ")")
  | _ => exact isUtf8_utf8 _

theorem Lexeme.isUtf8_found {lexeme : Lexeme} (isUtf8 : IsUtf8 lexeme.value) :
    IsUtf8 lexeme.found := by
  rw [found]
  split
  · exact TokenKind.isUtf8_description .endOfInput
  · exact isUtf8.cited

namespace SyntaxError

/-- The message of an error is well encoded, and so are its details unless they are an escape with
four bytes, somewhere in the source. -/
structure IsEncoded (error : SyntaxError) (source : Bytes) : Prop where
  message : IsUtf8 error.problem.message
  details : IsUtf8 error.problem.details ∨
    ∃ escape offset, error.problem = .invalidEscape escape ∧ Escape.HasFourBytes escape ∧
      error.PointsTo source offset

theorem IsAbout.isText {error : SyntaxError} {escape : Bytes} (isAbout : error.IsAbout token)
    (isEscape : error.problem = .invalidEscape escape) : token.kind = .text := by
  cases isAbout with
  | invalidEscape isText => exact isText
  | _ => cases isEscape

/-- An error about a token is well encoded with the token, if an escape in it is. -/
theorem IsAbout.isEncoded {error : SyntaxError} (isAbout : error.IsAbout token)
    (member : token ∈ tokenize source) (isUtf8 : IsUtf8 token.value)
    (escapes : ∀ escape, error.problem = .invalidEscape escape →
      IsUtf8 escape ∨ Escape.HasFourBytes escape) : error.IsEncoded source := by
  obtain ⟨offset, pointsTo⟩ := isAbout.exists_pointsTo member
  have mismatch (message : String) : IsUtf8 (if token.kind = .endOfInput then
      utf8 "fim inesperado do arquivo" else utf8 message) := by
    split <;> exact isUtf8_utf8 _
  have expectation {expected : Bytes} (isExpected : IsUtf8 expected) :
      IsUtf8 (utf8 "esperado " ++ expected ++ utf8 ", encontrado " ++ token.toLexeme.found) :=
    (((isUtf8_utf8 _).append isExpected).append (isUtf8_utf8 _)).append
      (Lexeme.isUtf8_found isUtf8)
  cases isAbout with
  | notCommand => exact ⟨isUtf8_utf8 _, .inl (expectation (isUtf8_utf8 _))⟩
  | @unexpected kind => exact ⟨mismatch _, .inl (expectation kind.isUtf8_description)⟩
  | notExpression => exact ⟨mismatch _, .inl (expectation (isUtf8_utf8 _))⟩
  | unclosedText => exact ⟨isUtf8_utf8 _, .inl isUtf8⟩
  | unknownCharacter => exact ⟨(isUtf8_utf8 _).append isUtf8.cited, .inl Bytes.isUtf8_nil⟩
  | numberOutOfRange => exact ⟨isUtf8_utf8 _, .inl isUtf8⟩
  | invalidEscape =>
      refine ⟨isUtf8_utf8 _, ?_⟩
      rcases escapes _ rfl with isEscape | four
      · exact .inl isEscape
      · exact .inr ⟨_, offset, rfl, four, pointsTo⟩

end SyntaxError

/-- An escape is refused by the check of a text. -/
theorem Parse.Rejects.exists_bad {error : SyntaxError} {escape : Bytes}
    (rejects : Rejects token (.syntaxError error)) (isText : token.kind = .text)
    (isEscape : error.problem = .invalidEscape escape) :
    ∃ bad, Escape.findBad? (token.value.drop 1).dropLast = some bad ∧ bad.bytes = escape := by
  cases rejects with
  | notCommand other isFault =>
      cases isFault
      cases isEscape
  | ofKind kind failed =>
      have known : token.kind ≠ .unknown := by simp [isText]
      rw [readKind, if_neg known] at failed
      split at failed
      · cases failed
      · cases failed
        cases isEscape
  | operand failed =>
      have asText : readExpr token = readText token := by rw [readExpr, isText]
      rw [asText, readText] at failed
      split at failed
      · cases failed
      · next content isContent =>
          obtain ⟨_, isContent⟩ := Option.ite_none_left_eq_some.mp isContent
          cases isContent
          split at failed
          · cases failed
          · next bad found =>
              cases failed
              cases isEscape
              exact ⟨bad, found, rfl⟩

/-- An error of a reading is well encoded up to an escape with four bytes. -/
theorem exists_isEncoded_of_parse {fault : Fault} (isUtf8 : IsUtf8 source)
    (failed : parse (tokenize source) = .error fault) :
    ∃ error, fault = .syntaxError error ∧ error.IsEncoded source := by
  have inside : Parse.finishOf (tokenize source) :: tokenize source ⊆ tokenize source :=
    List.cons_subset.mpr ⟨finishOf_mem_tokenize source, List.Subset.refl _⟩
  obtain ⟨token, isRead, rejects⟩ := (Parse.commands_rejects _ _).allowed_of_eq_error failed
  have member := inside isRead
  obtain ⟨error, rfl, isAbout⟩ := rejects.isAbout (isQuoted_of_mem_tokenize token member)
  refine ⟨error, rfl, isAbout.isEncoded member (isUtf8_of_mem_tokenize isUtf8 member) ?_⟩
  intro escape isEscape
  have isText := isAbout.isText isEscape
  obtain ⟨bad, found, rfl⟩ := rejects.exists_bad isText isEscape
  have isContent := isUtf8_content_of_mem_tokenize isUtf8 member isText
  obtain ⟨before, rest, length, split, _, invalid, bytes⟩ := Escape.exists_read_of_findBad? found
  -- What follows the backslash is well encoded, since the backslash is in ASCII.
  have apart : Bytes.Apart (before ++ [Byte.backslash]) rest := Bytes.apart_concat (by decide) _ _
  rw [split, ← List.singleton_append, ← List.append_assoc, apart.isUtf8_append_iff] at isContent
  rw [bytes]
  exact Escape.isUtf8_or_hasFourBytes_of_read isContent.2 invalid

/-- An error of the check names variables, which are well encoded. -/
theorem Program.Breaks.isEncoded {before : Program} {command : Command Expr} {error : SyntaxError}
    (breaks : before.Breaks command error) (encoded : ∀ command ∈ before, command.IsEncoded)
    (isEncoded : command.IsEncoded) : error.IsEncoded source := by
  have named {name : Bytes} (isName : IsUtf8 name) : IsUtf8 (utf8 "variável " ++ name.cited) :=
    (isUtf8_utf8 _).append isName.cited
  have earlier : ∀ name ∈ before.names, IsUtf8 name := by
    intro name member
    obtain ⟨binding, isBinding, rfl⟩ := List.mem_map.mp member
    obtain ⟨command, inside, binds⟩ := List.mem_filterMap.mp isBinding
    have isEncoded := encoded command inside
    cases command with
    | declare =>
        cases binds
        exact isEncoded.1
    | print => cases binds
  cases breaks with
  | undeclared uses =>
      refine ⟨(named ?_).append (isUtf8_utf8 _), .inl Bytes.isUtf8_nil⟩
      cases command with
      | declare =>
          cases uses
          exact isEncoded.2
      | print =>
          cases uses
          exact isEncoded
  | redeclared => exact ⟨(named isEncoded.1).append (isUtf8_utf8 _), .inl Bytes.isUtf8_nil⟩
  | nameClash _ _ declared =>
      have isEarlier := (earlier _ declared).cited
      have isJavaName := (Java.isUtf8_variableName isEncoded.1).cited
      exact ⟨((named isEncoded.1).append (isUtf8_utf8 _)).append isEarlier,
        .inl (((isUtf8_utf8 _).append isJavaName).append (isUtf8_utf8 _))⟩

/-- An error for a well-encoded source is well encoded up to an escape with four bytes. -/
theorem exists_isEncoded_of_compile {fault : Fault} (isUtf8 : IsUtf8 source)
    (failed : compile source = .error fault) :
    ∃ error, fault = .syntaxError error ∧ error.IsEncoded source := by
  cases parsed : parse (tokenize source) with
  | error found =>
      rw [compile_of_parse_error parsed] at failed
      cases failed
      exact exists_isEncoded_of_parse isUtf8 parsed
  | ok program =>
      have encoded := isEncoded_of_parse isUtf8 parsed
      rw [compile_of_parse parsed] at failed
      cases checked : (Scope.empty.check program).error? with
      | none =>
          rw [checked] at failed
          cases failed
      | some error =>
          rw [checked] at failed
          cases failed
          rw [Scope.models_empty.check_eq_some_iff Program.obeys_nil] at checked
          obtain ⟨passed, command, after, rfl, _, breaks⟩ := checked
          rw [List.forall_mem_append, List.forall_mem_cons] at encoded
          exact ⟨error, rfl, breaks.isEncoded encoded.1 encoded.2.1⟩

/-- An error cites an escape with four bytes, and the source goes on behind these with a byte that
is not the first of a character. -/
def SyntaxError.CutsCharacter (error : SyntaxError) (source : Bytes) : Prop :=
  ∃ escape offset b, error.problem = .invalidEscape escape ∧ Escape.HasFourBytes escape ∧
    error.PointsTo source offset ∧ source[offset + escape.length]? = some b ∧
      ¬ b.IsUTF8FirstByte

/-- An escape that is cited begins with its backslash, so only its end can be inside a character. -/
theorem SyntaxError.PointsTo.isUtf8_iff {error : SyntaxError} {escape : Bytes} {offset : Nat}
    (pointsTo : error.PointsTo source offset) (isEscape : error.problem = .invalidEscape escape)
    (isUtf8 : IsUtf8 source) :
    IsUtf8 error.problem.details ↔
      ∀ b ∈ source[offset + escape.length]?, b.IsUTF8FirstByte := by
  have fits := pointsTo.fits
  rw [isEscape] at fits ⊢
  obtain ⟨_, isBackslash, cited⟩ := fits
  rw [cited]
  apply isUtf8.extract_iff (Nat.le_add_right _ _)
  rw [isBackslash]
  rintro b ⟨⟩
  decide

theorem SyntaxError.IsEncoded.isUtf8_details_iff {error : SyntaxError}
    (isEncoded : error.IsEncoded source) (isUtf8 : IsUtf8 source) :
    IsUtf8 error.problem.details ↔ ¬ error.CutsCharacter source := by
  constructor
  · rintro isDetails ⟨escape, place, b, isEscape, _, pointsThere, behind, notFirst⟩
    exact notFirst ((pointsThere.isUtf8_iff isEscape isUtf8).mp isDetails b behind)
  · intro whole
    rcases isEncoded.details with isDetails | ⟨escape, offset, isEscape, four, pointsTo⟩
    · exact isDetails
    · rw [pointsTo.isUtf8_iff isEscape isUtf8]
      intro b behind
      by_contra notFirst
      exact whole ⟨escape, offset, b, isEscape, four, pointsTo, behind, notFirst⟩

/-- From a well-encoded source come well-encoded code, or an error with a well-encoded message, and
its details are well encoded unless they cut a character. -/
theorem isUtf8_of_source (isUtf8 : IsUtf8 source) :
    (∀ code, compile source = .ok code → IsUtf8 code) ∧
      ∀ fault, compile source = .error fault → ∃ error, fault = .syntaxError error ∧
        IsUtf8 error.diagnostic.message ∧
        (IsUtf8 error.diagnostic.details ↔ ¬ error.CutsCharacter source) := by
  refine ⟨fun code compiled => isUtf8_of_compile isUtf8 compiled, ?_⟩
  intro fault failed
  obtain ⟨error, rfl, isEncoded⟩ := exists_isEncoded_of_compile isUtf8 failed
  exact ⟨error, rfl, isEncoded.message, isEncoded.isUtf8_details_iff isUtf8⟩

/-- A refused escape of one rune that takes two bytes, behind another such rune. -/
theorem isUtf8_of_source_rune :
    IsUtf8 (utf8 "print(\"é\\é\");") ∧
      compile (utf8 "print(\"é\\é\");") =
        .error (.syntaxError ⟨.invalidEscape (utf8 "\\é"), 1, 9⟩) ∧
      (∀ code, compile (utf8 "print(\"é\\é\");") = .ok code → IsUtf8 code) ∧
      ∀ fault, compile (utf8 "print(\"é\\é\");") = .error fault →
        ∃ error, fault = .syntaxError error ∧ IsUtf8 error.diagnostic.message ∧
          (IsUtf8 error.diagnostic.details ↔
            ¬ error.CutsCharacter (utf8 "print(\"é\\é\");")) := by
  have isUtf8 : IsUtf8 (utf8 "print(\"é\\é\");") := isUtf8_utf8 _
  have failed : compile (utf8 "print(\"é\\é\");") =
      .error (.syntaxError ⟨.invalidEscape (utf8 "\\é"), 1, 9⟩) := by
    decide +kernel
  exact ⟨isUtf8, failed, isUtf8_of_source isUtf8⟩

/-- Four bytes behind a mark that end inside a character: the details are not well encoded. -/
theorem not_isUtf8_details_cut :
    IsUtf8 (utf8 "print(\"\\uabcé\");") ∧
      ∃ error, compile (utf8 "print(\"\\uabcé\");") = .error (.syntaxError error) ∧
        ¬ IsUtf8 error.diagnostic.details := by
  have failed : compile (utf8 "print(\"\\uabcé\");") =
      .error (.syntaxError ⟨.invalidEscape (utf8 "\\uabc" ++ [0xC3]), 1, 8⟩) := by
    decide +kernel
  have whole : IsUtf8 ((utf8 "\\uabc" ++ [0xC3]) ++ [0xA9]) := isUtf8_utf8 "\\uabcé"
  refine ⟨isUtf8_utf8 _, _, failed, ?_⟩
  intro isDetails
  exact absurd (whole.front_iff.mp isDetails 0xA9 rfl) (by decide)

end VarPrint
