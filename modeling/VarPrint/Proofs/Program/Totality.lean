/-
# Compilation has an outcome for every source

A source compiles, or it is refused with a syntax error that says what is wrong. The other faults are
for tokens and programs that no source brings about. A text token of a source has both of its
quotes, so that every look-up by place in it has an answer. A program that was read lacks nothing,
so that stages which look for missing commands and expressions find none.
-/

import VarPrint.Proofs.Program.Extension
import VarPrint.Proofs.Program.Places
import VarPrint.Proofs.Program.Session

namespace VarPrint

/-- Compilation of a program in which something might be missing: the check fails at a command or an
expression that is missing, and statements are written only of what is complete. -/
def compileDraft (source : Bytes) : Except Fault Bytes := do
  let program ← parse (tokenize source)
  let (_, complete) ← (Draft.examine .empty program.toDraft).result
  return Java.statements complete

/-- Nothing is missing in a program that was read. -/
theorem compileDraft_eq_compile (source : Bytes) : compileDraft source = compile source := by
  unfold compileDraft
  cases parsed : parse (tokenize source) with
  | error fault => exact (compile_of_parse_error parsed).symm
  | ok program =>
      rw [compile_of_parse parsed]
      change (Draft.examine .empty program.toDraft).result >>= _ = _
      rw [Draft.result_examine, Draft.check_toDraft, Scope.Outcome.result]
      cases (Scope.empty.check program).error? <;> rfl

/-- Every problem has a message. -/
theorem Problem.message_ne_nil (problem : Problem) : problem.message ≠ [] := by
  have cut (found : Lexeme) {message : Bytes} (nonempty : message ≠ []) :
      (if found.kind = .endOfInput then utf8 "fim inesperado do arquivo" else message) ≠ [] := by
    split
    · decide
    · exact nonempty
  have named {message : Bytes} (rest : Bytes) : utf8 "variável " ++ message ++ rest ≠ [] :=
    List.append_ne_nil_of_left_ne_nil (List.append_ne_nil_of_left_ne_nil (by decide) message) rest
  cases problem with
  | notCommand | unclosedText | numberOutOfRange | invalidEscape =>
      rw [message]
      decide
  | unexpected expected found => exact cut found (by decide)
  | notExpression found => exact cut found (by decide)
  | unknownCharacter character => exact List.append_ne_nil_of_left_ne_nil (by decide) _
  | undeclared name => exact named _
  | redeclared name => exact named _
  | nameClash name earlier javaName =>
      exact List.append_ne_nil_of_left_ne_nil (named _) _

/-- What compiling a source comes to. -/
structure CompilesSafely (source : Bytes) : Prop where
  /-- No look-up by place in a text fails. -/
  inRange : ∀ token ∈ tokenize source, token.kind = .text →
    Parse.readTextAt? token = some (Parse.readText token)
  /-- No stage finds anything missing. -/
  complete : compileDraft source = compile source
  /-- There is code, or a syntax error with a message. -/
  outcome : (∃ code, compile source = .ok code) ∨
    ∃ error, compile source = .error (.syntaxError error) ∧ error.diagnostic.message ≠ []

/-- Every source compiles or is refused with a message. -/
theorem compilesSafely_of_source (source : Bytes) : CompilesSafely source where
  inRange := by
    intro token member isText
    rw [Parse.readTextAt?_eq, if_neg (Nat.not_lt.mpr (isQuoted_of_mem_tokenize token member isText))]
  complete := compileDraft_eq_compile source
  outcome := by
    -- No command has been read in front of the first token.
    rcases compile_behind rfl (Scanner.tokens_ne_nil .start source) .nil rfl with
      ⟨code, compiled⟩ | ⟨error, failed, _⟩
    · exact .inl ⟨code, compiled⟩
    · exact .inr ⟨error, failed, error.problem.message_ne_nil⟩

end VarPrint
