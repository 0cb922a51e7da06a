/-
# Errors and their places in the source

The line and the column of an error come from the reader, from the check, or, for an escape, from a
count of runes inside a token. Wherever they come from, they are the line and the column that one
offset of the source has when the whole source is decoded. At that offset the source has what the
error is about: the backslash of the escape, the literal that is out of range or not closed, the
name of the variable, or the token that was met.
-/

import VarPrint.Proofs.Program.Alike
import VarPrint.Proofs.Program.Earliest
import VarPrint.Proofs.Program.Scoping
import VarPrint.Proofs.Token.Position

namespace VarPrint

open Bytes (Apart)

/-- A token of the source that begins at an offset, with the bytes that the source has there. -/
structure Token.StandsAt (token : Token) (source : Bytes) (offset : Nat) : Prop where
  member : token ∈ tokenize source
  start : token.start = offset
  value : token.value = source.extract offset (offset + token.value.length)

/-- What the source has at the offset to which a problem points. -/
def Problem.FitsAt (source : Bytes) (offset : Nat) (problem : Problem) : Prop :=
  match problem with
  | invalidEscape escape =>
    escape.head? = some Byte.backslash ∧ source[offset]? = some Byte.backslash ∧
      problem.details = source.extract offset (offset + escape.length)
  | numberOutOfRange _ =>
    ∃ token : Token, token.StandsAt source offset ∧ token.kind = .number ∧
      problem.details = token.value
  | unclosedText _ =>
    ∃ token : Token, token.StandsAt source offset ∧ token.kind = .unknown ∧
      problem.details = token.value
  | unknownCharacter character =>
    ∃ token : Token, token.StandsAt source offset ∧ token.kind = .unknown ∧
      token.value = character
  | undeclared name | redeclared name | nameClash name _ _ =>
    ∃ token : Token, token.StandsAt source offset ∧ token.kind = .identifier ∧ token.value = name
  | notCommand found | unexpected _ found | notExpression found =>
    ∃ token : Token, token.StandsAt source offset ∧ token.toLexeme = found

/-- An error points to an offset of the source: it has the line and the column of the offset, and
the source has there what the error is about. -/
structure SyntaxError.PointsTo (error : SyntaxError) (source : Bytes) (offset : Nat) : Prop where
  inside : offset ≤ source.length
  line : error.line = source.lineAt offset
  column : error.column = source.columnAt offset
  fits : error.problem.FitsAt source offset

/-! Places inside a token -/

namespace Token

variable {source : Bytes} {token : Token}

theorem value_eq_extract_of_mem (member : token ∈ tokenize source) :
    token.value = source.extract token.start token.stop := by
  have start : ([] : Bytes).length = 0 := rfl
  exact ((Lexeme.tiles_tokenize source).value_eq_extract start token member).2

/-- The bytes of a token stand in the source between what is read apart from them in front and
whatever follows. -/
theorem exists_split_of_mem (member : token ∈ tokenize source) :
    ∃ front back, source = front ++ (token.value ++ back) ∧ Apart front (token.value ++ back) ∧
      token.position = Position.start.advance front ∧ token.start = front.length := by
  obtain ⟨front, rest, split, apart, placed⟩ := Scanner.exists_apart_of_mem_tokenize member
  have start : token.start = front.length := by
    apply Token.start_eq
    rw [placed, Position.advance_start_of_apart apart]
  have value := value_eq_extract_of_mem member
  rw [Token.stop, start, split, List.extract_eq_take_drop, List.drop_left,
    Nat.add_sub_cancel_left] at value
  obtain ⟨back, rfl⟩ : token.value <+: rest := List.prefix_iff_eq_take.mpr value
  exact ⟨front, back, split, apart, placed, start⟩

/-- A place behind the beginning of a token and on its line is as many columns further as there are
runes between the two, if no rune reaches over either of them. -/
theorem place_inside {front inner rest : Bytes} (split : source = front ++ inner ++ rest)
    (apart : Apart front (inner ++ rest)) (apartThere : Apart (front ++ inner) rest)
    (placed : token.position = Position.start.advance front) (oneLine : Byte.lineFeed ∉ inner) :
    token.position.line = source.lineAt (front ++ inner).length ∧
      token.position.column + inner.runeCount = source.columnAt (front ++ inner).length := by
  have place := Position.advance_start_of_apart apartThere
  rw [Position.advance_append _ (apart.inside apartThere), ← placed, ← split] at place
  have line := congrArg Position.line place
  have column := congrArg Position.column place
  rw [Position.line_advance, List.count_eq_zero_of_not_mem oneLine, Int.natCast_zero,
    Int.add_zero] at line
  rw [Position.column_advance oneLine] at column
  exact ⟨line, column⟩

theorem standsAt_start (member : token ∈ tokenize source) : token.StandsAt source token.start where
  member := member
  start := rfl
  value := value_eq_extract_of_mem member

end Token

namespace SyntaxError

variable {source : Bytes} {token : Token}

/-- A problem at a token points to the first byte of the token. -/
theorem pointsTo_atToken {problem : Problem} (member : token ∈ tokenize source)
    (fits : problem.FitsAt source token.start) :
    (problem.atToken token).PointsTo source token.start := by
  obtain ⟨front, back, rfl, apart, placed, start⟩ := Token.exists_split_of_mem member
  have isPlaced := Token.isPlacedIn_of_apart apart placed
  refine ⟨?_, isPlaced.line, isPlaced.column, fits⟩
  rw [start, List.length_append]
  exact Nat.le_add_right _ _

/-- An escape that is refused points to its backslash: no rune reaches over the beginning of a token
or over a byte of ASCII, so the runes between the two can be counted by themselves. -/
theorem exists_pointsTo_invalidEscape {before escape after : Bytes}
    (member : token ∈ tokenize source) (isText : token.kind = .text)
    (content : (token.value.drop 1).dropLast = before ++ (Byte.backslash :: escape ++ after)) :
    ∃ offset, SyntaxError.PointsTo
      { problem := .invalidEscape (Byte.backslash :: escape)
        line := token.position.line
        column := token.position.column + 1 + before.runeCount } source offset := by
  obtain ⟨front, back, split, apart, placed, _⟩ := Token.exists_split_of_mem member
  have shape := wellShaped_of_mem_tokenize token member
  rw [Lexeme.WellShaped, isText] at shape
  obtain ⟨body, isBody, value⟩ := shape
  rw [value, Grammar.dropLast_quoted] at content
  have bytes : token.value ++ back = Byte.quote :: before ++
      (Byte.backslash :: escape ++ (after ++ Byte.quote :: back)) := by
    simp [value, Lexeme.quoted, content]
  rw [bytes] at split apart
  rw [← List.append_assoc] at split
  generalize after ++ Byte.quote :: back = rest at split apart
  have apartThere : Apart (front ++ Byte.quote :: before) (Byte.backslash :: escape ++ rest) :=
    Bytes.apart_of_isBoundary (Bytes.isBoundary_cons (by decide) _) _
  have oneLine : Byte.lineFeed ∉ Byte.quote :: before := by
    have noLineFeed := isBody.lineFeed_not_mem
    rw [content, List.mem_append, not_or] at noLineFeed
    rw [List.mem_cons, not_or]
    exact ⟨by decide, noLineFeed.1⟩
  have runes : Bytes.runeCount (Byte.quote :: before) = 1 + before.runeCount := by
    rw [Bytes.runeCount, Bytes.runePieces_cons (by decide), List.length_cons, Bytes.runeCount,
      Nat.add_comm]
  obtain ⟨line, column⟩ := Token.place_inside split apart apartThere placed oneLine
  rw [runes, Int.natCast_add, ← Int.add_assoc] at column
  refine ⟨(front ++ Byte.quote :: before).length, ?_, line, column, rfl, ?_, ?_⟩
  · rw [split]
    exact (List.prefix_append _ _).length_le
  · rw [split]
    simp
  · rw [split, Lexeme.extract_append]
    rfl

/-- An error about a token of a source points to an offset of the source. -/
theorem IsAbout.exists_pointsTo {error : SyntaxError} (isAbout : error.IsAbout token)
    (member : token ∈ tokenize source) : ∃ offset, error.PointsTo source offset := by
  have here := Token.standsAt_start member
  cases isAbout with
  | notCommand => exact ⟨_, pointsTo_atToken member ⟨token, here, rfl⟩⟩
  | unexpected => exact ⟨_, pointsTo_atToken member ⟨token, here, rfl⟩⟩
  | notExpression => exact ⟨_, pointsTo_atToken member ⟨token, here, rfl⟩⟩
  | unclosedText unknown => exact ⟨_, pointsTo_atToken member ⟨token, here, unknown, rfl⟩⟩
  | unknownCharacter unknown => exact ⟨_, pointsTo_atToken member ⟨token, here, unknown, rfl⟩⟩
  | numberOutOfRange isNumber => exact ⟨_, pointsTo_atToken member ⟨token, here, isNumber, rfl⟩⟩
  | invalidEscape isText content => exact exists_pointsTo_invalidEscape member isText content

end SyntaxError

/-! The tokens of names -/

namespace Grammar

variable {tokens : List Token} {program : Program} {command : Command Expr} {name : Bytes}
  {token : Token}

theorem Derives.exists_spells (derives : Derives tokens program) (member : command ∈ program) :
    ∃ piece, piece ⊆ tokens ∧ Spells piece command := by
  induction derives with
  | finish ended => cases member
  | @command piece rest first program spells _ ih =>
      rcases List.mem_cons.mp member with rfl | later
      · exact ⟨piece, List.subset_append_left _ _, spells⟩
      · obtain ⟨other, inside, otherSpells⟩ := ih later
        exact ⟨other, List.Subset.trans inside (List.subset_append_right _ _), otherSpells⟩

/-- The token of a variable that is used is its name. -/
theorem Spells.name_of_reference {piece : List Token} (spells : Spells piece command)
    (uses : command.expr = .reference name token) :
    token ∈ piece ∧ token.kind = .identifier ∧ token.value = name := by
  cases spells with
  | declare _ _ _ isOperand =>
      cases uses
      cases isOperand with
      | reference kind => simp [kind]
  | print _ _ isOperand =>
      cases uses
      cases isOperand with
      | reference kind => simp [kind]

/-- The token of a variable that is declared is its name. -/
theorem Spells.name_of_declare {piece : List Token} {value : Expr} {ty : Ty}
    (spells : Spells piece (.declare name value ty token)) :
    token ∈ piece ∧ token.kind = .identifier ∧ token.value = name := by
  cases spells with
  | declare _ isName => simp [isName]

end Grammar

/-- An error of the check is about the name of a variable. -/
theorem Program.Breaks.exists_pointsTo {before : Program} {command : Command Expr}
    {error : SyntaxError} {source : Bytes} {piece : List Token}
    (breaks : before.Breaks command error) (spells : Grammar.Spells piece command)
    (inside : piece ⊆ tokenize source) : ∃ offset, error.PointsTo source offset := by
  cases breaks with
  | undeclared uses =>
      obtain ⟨member, isName, value⟩ := spells.name_of_reference uses
      have here := Token.standsAt_start (inside member)
      exact ⟨_, SyntaxError.pointsTo_atToken (inside member) ⟨_, here, isName, value⟩⟩
  | redeclared =>
      obtain ⟨member, isName, value⟩ := spells.name_of_declare
      have here := Token.standsAt_start (inside member)
      exact ⟨_, SyntaxError.pointsTo_atToken (inside member) ⟨_, here, isName, value⟩⟩
  | nameClash =>
      obtain ⟨member, isName, value⟩ := spells.name_of_declare
      have here := Token.standsAt_start (inside member)
      exact ⟨_, SyntaxError.pointsTo_atToken (inside member) ⟨_, here, isName, value⟩⟩

/-- The end that the reading of a source may come to is a token of the source. -/
theorem finishOf_mem_tokenize (source : Bytes) :
    Parse.finishOf (tokenize source) ∈ tokenize source :=
  List.mem_of_getLast? (finishOf_tokenize source)

/-- Every error of a compilation points to a place in the source that has what the error says. -/
theorem exists_pointsTo_of_compile {source : Bytes} {fault : Fault}
    (failed : compile source = .error fault) :
    ∃ error offset, fault = .syntaxError error ∧ error.PointsTo source offset := by
  cases parsed : parse (tokenize source) with
  | error found =>
      rw [compile_of_parse_error parsed] at failed
      cases failed
      have inside : Parse.finishOf (tokenize source) :: tokenize source ⊆ tokenize source :=
        List.cons_subset.mpr ⟨finishOf_mem_tokenize source, List.Subset.refl _⟩
      obtain ⟨index, stopsAt, _⟩ := Parse.exists_stopsAt_of_commands rfl
        (fun token member => isQuoted_of_mem_tokenize token (inside member)) parsed
      obtain ⟨error, rfl, isAbout⟩ := stopsAt.about
      obtain ⟨offset, pointsTo⟩ := isAbout.exists_pointsTo (inside (Parse.getD_mem_cons _ _ index))
      exact ⟨error, offset, rfl, pointsTo⟩
  | ok program =>
      rw [compile_of_parse parsed] at failed
      cases checked : (Scope.empty.check program).error? with
      | none =>
          rw [checked] at failed
          cases failed
      | some error =>
          rw [checked] at failed
          cases failed
          rw [Scope.models_empty.check_eq_some_iff Program.obeys_nil] at checked
          obtain ⟨passed, command, after, rfl, _, breaks⟩ := checked
          have derives := (Grammar.commands_eq_ok_iff rfl).mp parsed
          obtain ⟨piece, inside, spells⟩ :=
            derives.exists_spells (List.mem_append_right passed List.mem_cons_self)
          obtain ⟨offset, pointsTo⟩ := breaks.exists_pointsTo spells inside
          exact ⟨error, offset, rfl, pointsTo⟩

/-- An escape behind a rune of two bytes and a byte that is no rune. -/
theorem exists_pointsTo_of_compile_escape :
    compile (utf8 "print(\"é" ++ 0xFF :: utf8 "\\q\");") =
        .error (.syntaxError ⟨.invalidEscape (utf8 "\\q"), 1, 10⟩) ∧
      ∃ error offset,
        Fault.syntaxError ⟨.invalidEscape (utf8 "\\q"), 1, 10⟩ = .syntaxError error ∧
          error.PointsTo (utf8 "print(\"é" ++ 0xFF :: utf8 "\\q\");") offset := by
  have failed : compile (utf8 "print(\"é" ++ 0xFF :: utf8 "\\q\");") =
      .error (.syntaxError ⟨.invalidEscape (utf8 "\\q"), 1, 10⟩) := by
    decide +kernel
  exact ⟨failed, exists_pointsTo_of_compile failed⟩

end VarPrint
