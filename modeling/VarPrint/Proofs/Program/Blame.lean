/-
# The token that an error points into

Whatever goes wrong in a reading goes wrong at one token, and what goes wrong in a check does so at
a token of one command. The error of a reading says what the token is and stands where the token
does, or behind its beginning where an escape inside a text is refused. The only other fault of a
reading comes from a text token without room for its quotes, and no source has such a token.
-/

import VarPrint.Program.Scope
import VarPrint.Proofs.Outcome
import VarPrint.Proofs.Program.Places
import VarPrint.Proofs.Program.WellFormed

namespace VarPrint

/-- On the line of a token, in its column or behind it. -/
def SyntaxError.PointsInto (error : SyntaxError) (token : Token) : Prop :=
  error.line = token.position.line ∧
    ∃ distance : Nat, error.column = token.position.column + distance

theorem SyntaxError.pointsInto_atToken (problem : Problem) (token : Token) :
    (problem.atToken token).PointsInto token :=
  ⟨rfl, 0, (Int.add_zero _).symm⟩

/-- An error that a reading can give at a token. It stands at the token, except that an escape
stands where its backslash does: behind the opening quote and the runes in front of it. -/
inductive SyntaxError.IsAbout (token : Token) : SyntaxError → Prop
  | notCommand (other : token.kind ∉ [.varWord, .printWord, .unknown]) :
      IsAbout token ((Problem.notCommand token.toLexeme).atToken token)
  | unexpected {kind : TokenKind} (other : token.kind ≠ kind) (known : token.kind ≠ .unknown) :
      IsAbout token ((Problem.unexpected kind token.toLexeme).atToken token)
  | notExpression (other : token.kind.isOperand = false) (known : token.kind ≠ .unknown) :
      IsAbout token ((Problem.notExpression token.toLexeme).atToken token)
  | unclosedText (unknown : token.kind = .unknown) (opens : token.value.head? = some Byte.quote) :
      IsAbout token ((Problem.unclosedText token.value).atToken token)
  | unknownCharacter (unknown : token.kind = .unknown)
      (other : token.value.head? ≠ some Byte.quote) :
      IsAbout token ((Problem.unknownCharacter token.value).atToken token)
  | numberOutOfRange (isNumber : token.kind = .number) :
      IsAbout token ((Problem.numberOutOfRange token.value).atToken token)
  | invalidEscape {before escape after : Bytes} (isText : token.kind = .text)
      (content : (token.value.drop 1).dropLast = before ++ (Byte.backslash :: escape ++ after)) :
      IsAbout token
        { problem := .invalidEscape (Byte.backslash :: escape)
          line := token.position.line
          column := token.position.column + 1 + before.runeCount }

theorem SyntaxError.IsAbout.pointsInto {token : Token} {error : SyntaxError}
    (isAbout : error.IsAbout token) : error.PointsInto token := by
  cases isAbout with
  | @invalidEscape before =>
      refine ⟨rfl, 1 + before.runeCount, ?_⟩
      rw [Int.natCast_add, ← Int.add_assoc]
      rfl
  | _ => exact pointsInto_atToken _ token

/-- A syntax error that points into a token. -/
def Fault.PointsInto (fault : Fault) (token : Token) : Prop :=
  ∃ error, fault = .syntaxError error ∧ error.PointsInto token

/-- A syntax error that a reading can give at a token. -/
def Fault.IsAbout (fault : Fault) (token : Token) : Prop :=
  ∃ error, fault = .syntaxError error ∧ error.IsAbout token

theorem Fault.IsAbout.pointsInto {fault : Fault} {token : Token} (isAbout : fault.IsAbout token) :
    fault.PointsInto token := by
  obtain ⟨error, isError, isAbout⟩ := isAbout
  exact ⟨error, isError, isAbout.pointsInto⟩

/-- A text has room for its two quotes. -/
def Token.IsQuoted (token : Token) : Prop :=
  token.kind = .text → 2 ≤ token.value.length

/-- The texts of a source have their quotes. -/
theorem isQuoted_of_mem_tokenize {source : Bytes} :
    ∀ token ∈ tokenize source, token.IsQuoted := by
  intro token member isText
  have shape := wellShaped_of_mem_tokenize token member
  rw [Lexeme.WellShaped, isText] at shape
  obtain ⟨content, _, isQuoted⟩ := shape
  rw [isQuoted, Lexeme.length_quoted]
  exact Nat.le_add_left 2 _

namespace Parse

variable {token finish : Token} {tokens : List Token}

theorem unknownToken_isAbout (unknown : token.kind = .unknown) :
    (Fault.syntaxError (unknownToken token)).IsAbout token := by
  unfold unknownToken
  split
  · next opens => exact ⟨_, rfl, .unclosedText unknown opens⟩
  · next other => exact ⟨_, rfl, .unknownCharacter unknown other⟩

theorem readNumber_faults (isNumber : token.kind = .number) :
    FaultsWithin (Fault.IsAbout · token) (readNumber token) := by
  unfold readNumber
  dsimp only
  generalize (if token.value.contains Byte.dot = true then Magnitude.isInRange token.value
    else (Numeral.readWord? 64 token.value).isSome) = inRange
  cases inRange with
  | true => exact .ok _
  | false => exact .error ⟨_, rfl, .numberOutOfRange isNumber⟩

theorem readText_faults (isText : token.kind = .text) (quoted : 2 ≤ token.value.length) :
    FaultsWithin (Fault.IsAbout · token) (readText token) := by
  rw [readText, textContent?, if_neg (Nat.not_lt.mpr quoted)]
  dsimp only
  cases found : Escape.findBad? (token.value.drop 1).dropLast with
  | none => exact .ok _
  | some bad =>
      obtain ⟨before, after, split, start⟩ := Escape.exists_of_findBad? found
      obtain ⟨escape, bytes⟩ := Escape.exists_backslash_of_findBad? found
      have front : (token.value.drop 1).dropLast.take bad.start = before := by
        rw [split, ← start, List.take_left]
      dsimp only
      rw [bytes] at split ⊢
      rw [front]
      exact .error ⟨_, rfl, .invalidEscape isText split⟩

theorem readExpr_faults (quoted : token.IsQuoted) :
    FaultsWithin (Fault.IsAbout · token) (readExpr token) := by
  unfold readExpr
  split
  · next isNumber => exact readNumber_faults isNumber
  · next isText => exact readText_faults isText (quoted isText)
  · exact .ok _
  · next unknown => exact .error (unknownToken_isAbout unknown)
  · next notNumber notText notName known =>
      have other : token.kind.isOperand = false := by
        unfold TokenKind.isOperand
        split <;> simp_all
      exact .error ⟨_, rfl, .notExpression other known⟩

theorem readKind_faults (kind : TokenKind) (token : Token) :
    FaultsWithin (Fault.IsAbout · token) (readKind kind token) := by
  unfold readKind
  split
  · exact .ok _
  · next other =>
      split
      · next unknown => exact .error (unknownToken_isAbout unknown)
      · next known => exact .error ⟨_, rfl, .unexpected other known⟩

theorem getD_mem_cons (finish : Token) (tokens : List Token) (index : Nat) :
    tokens.getD index finish ∈ finish :: tokens := by
  rw [List.getD_eq_getElem?_getD]
  cases found : tokens[index]? with
  | none => exact List.mem_cons_self
  | some token => exact List.mem_cons_of_mem _ (List.mem_of_getElem? found)

/-- A token that makes a reading fail: the place asks for another kind or for an expression, or a
command should begin. -/
inductive Rejects (token : Token) (fault : Fault) : Prop
  | ofKind (kind : TokenKind) (failed : readKind kind token = .error fault)
  | operand (failed : readExpr token = .error fault)
  | notCommand (other : token.kind ∉ [.varWord, .printWord, .unknown])
      (isFault : fault = .syntaxError ((Problem.notCommand token.toLexeme).atToken token))

theorem Rejects.isAbout {fault : Fault} (rejects : Rejects token fault) (quoted : token.IsQuoted) :
    fault.IsAbout token := by
  cases rejects with
  | ofKind kind failed => exact (readKind_faults kind token).allowed_of_eq_error failed
  | operand failed => exact (readExpr_faults quoted).allowed_of_eq_error failed
  | notCommand other isFault => exact ⟨_, isFault, .notCommand other⟩

theorem slot_rejects {α : Type} {read : Token → Except Fault α} (finish : Token)
    (tokens : List Token) (index : Nat)
    (reads : ∀ token fault, read token = .error fault → Rejects token fault) :
    FaultsWithin (fun stop : Stop => ∃ token ∈ finish :: tokens, Rejects token stop.fault)
      (slot finish tokens index read) := by
  unfold slot
  cases failed : read (tokens.getD index finish) with
  | ok value => exact .ok value
  | error fault => exact .error ⟨_, getD_mem_cons finish tokens index, reads _ _ failed⟩

theorem command_rejects (finish : Token) (tokens : List Token) :
    FaultsWithin (fun stop : Stop => ∃ token ∈ finish :: tokens, Rejects token stop.fault)
      (command finish tokens) := by
  have kinds (kind : TokenKind) (index : Nat) :=
    slot_rejects finish tokens index fun _ _ failed => .ofKind kind failed
  have exprs (index : Nat) :=
    slot_rejects finish tokens index fun _ _ failed => .operand failed
  have firsts := getD_mem_cons finish tokens 0
  unfold command
  dsimp only
  generalize tokens.getD 0 finish = first at firsts ⊢
  split
  · refine (kinds .identifier 1).bind fun name => ?_
    refine (kinds .assign 2).bind fun _ => ?_
    refine (exprs 3).bind fun value => ?_
    refine (kinds .semicolon 4).bind fun _ => ?_
    exact .ok _
  · refine (kinds .leftParen 1).bind fun _ => ?_
    refine (exprs 2).bind fun argument => ?_
    refine (kinds .rightParen 3).bind fun _ => ?_
    refine (kinds .semicolon 4).bind fun _ => ?_
    exact .ok _
  · next unknown =>
      have failed : readKind .varWord first = .error (.syntaxError (unknownToken first)) := by
        rw [readKind, if_neg (by simp [unknown]), if_pos unknown]
      exact .error ⟨_, firsts, .ofKind .varWord failed⟩
  · next notVar notPrint known =>
      have other : first.kind ∉ [.varWord, .printWord, .unknown] := by
        simp only [List.mem_cons, List.not_mem_nil, or_false, not_or]
        exact ⟨notVar, notPrint, known⟩
      exact .error ⟨_, firsts, .notCommand other rfl⟩

/-- A reading that fails is rejected by one of its tokens, or by the end. -/
theorem commands_rejects (finish : Token) (tokens : List Token) :
    FaultsWithin (fun fault => ∃ token ∈ finish :: tokens, Rejects token fault)
      (commands finish tokens).result := by
  fun_induction commands finish tokens with
  | case1 => exact .ok []
  | case2 token rest isEnd => exact .ok []
  | case3 token rest notEnd stop failed =>
      exact .error ((command_rejects finish (token :: rest)).allowed_of_eq_error failed)
  | case4 token rest notEnd first read ih =>
      have inside : finish :: rest.drop 4 ⊆ finish :: token :: rest :=
        List.cons_subset_cons finish
          (List.Subset.trans (List.drop_subset 4 rest) (List.subset_cons_self _ _))
      refine (ih.mono ?_).map
      rintro fault ⟨token, member, rejects⟩
      exact ⟨token, inside member, rejects⟩

/-- A fault at one of the tokens of a list, or at the end. -/
def StopsIn (finish : Token) (tokens : List Token) (fault : Fault) : Prop :=
  ∃ token ∈ finish :: tokens, fault.PointsInto token

/-- A reading that fails gives a syntax error at one of its tokens, or at the end. -/
theorem commands_faults (quoted : ∀ token ∈ finish :: tokens, token.IsQuoted) :
    FaultsWithin (StopsIn finish tokens) (commands finish tokens).result := by
  apply (commands_rejects finish tokens).mono
  rintro fault ⟨token, member, rejects⟩
  exact ⟨token, member, (rejects.isAbout (quoted token member)).pointsInto⟩

end Parse

/-- The token that an expression is. -/
def Expr.token : Expr → Token
  | number _ _ token => token
  | text _ token => token
  | reference _ token => token

/-- The tokens that a command keeps: its own and that of its expression. -/
def Command.tokens : Command Expr → List Token
  | declare _ value _ token => [token, value.token]
  | print argument token => [token, argument.token]

/-- The tokens that the commands of a program keep. -/
def Program.tokens (program : Program) : List Token :=
  program.flatMap Command.tokens

namespace Grammar

theorem Operand.token_eq {token : Token} {value : Expr} (operand : Operand token value) :
    value.token = token := by
  cases operand <;> rfl

theorem Spells.tokens_subset {piece : List Token} {command : Command Expr}
    (spells : Spells piece command) : command.tokens ⊆ piece := by
  cases spells with
  | declare _ _ _ isOperand => simp [Command.tokens, isOperand.token_eq]
  | print _ _ isOperand => simp [Command.tokens, isOperand.token_eq]

/-- A program keeps no token but those that it was derived from. -/
theorem Derives.tokens_subset {tokens : List Token} {program : Program}
    (derives : Derives tokens program) : program.tokens ⊆ tokens := by
  induction derives with
  | finish ended => exact List.nil_subset _
  | command spells _ ih =>
      rw [Program.tokens, List.flatMap_cons, List.append_subset]
      exact ⟨List.Subset.trans spells.tokens_subset (List.subset_append_left _ _),
        List.Subset.trans ih (List.subset_append_right _ _)⟩

end Grammar

namespace Scope

theorem infer_faults (scope : Scope) (value : Expr) :
    FaultsWithin (SyntaxError.PointsInto · value.token) (scope.infer value) := by
  cases value with
  | number numeral isDecimal token => exact .ok _
  | text content token => exact .ok _
  | reference name token =>
      unfold infer
      dsimp only
      cases scope.typeOf? name with
      | some ty => exact .ok ty
      | none => exact .error (SyntaxError.pointsInto_atToken _ token)

theorem checkCommand_faults (scope : Scope) (command : Command Expr) :
    FaultsWithin (fun error => ∃ token ∈ command.tokens, error.PointsInto token)
      (scope.checkCommand command) := by
  have infers (value : Expr) (member : value.token ∈ command.tokens) :
      FaultsWithin (fun error => ∃ token ∈ command.tokens, error.PointsInto token)
        (scope.infer value) :=
    (scope.infer_faults value).mono fun _ points => ⟨_, member, points⟩
  cases command with
  | declare name value ty token =>
      have atName (problem : Problem) : ∃ other ∈ [token, value.token],
          (problem.atToken token).PointsInto other :=
        ⟨token, List.mem_cons_self, SyntaxError.pointsInto_atToken problem token⟩
      unfold checkCommand
      dsimp only
      refine (infers value (by simp [Command.tokens])).bind fun inferred => ?_
      split
      · exact .error (atName _)
      · cases scope.owner? (Java.variableName name) with
        | none => exact .ok _
        | some earlier => exact .error (atName _)
  | print argument token =>
      exact (infers argument (by simp [Command.tokens])).bind fun _ => .ok _

/-- A check that fails gives an error at a token of the program. -/
theorem exists_pointsInto_of_check {scope : Scope} {program : Program} {error : SyntaxError}
    (failed : (scope.check program).error? = some error) :
    ∃ token ∈ program.tokens, error.PointsInto token := by
  induction program generalizing scope with
  | nil => cases failed
  | cons command rest ih =>
      rw [Program.tokens, List.flatMap_cons]
      cases checking : scope.checkCommand command with
      | error found =>
          rw [check, checking] at failed
          cases failed
          obtain ⟨token, member, points⟩ :=
            (scope.checkCommand_faults command).allowed_of_eq_error checking
          exact ⟨token, List.mem_append_left _ member, points⟩
      | ok result =>
          rw [check, checking] at failed
          obtain ⟨token, member, points⟩ := ih failed
          exact ⟨token, List.mem_append_right _ member, points⟩

end Scope

end VarPrint
