/-
# Sources without a command

A source of white space alone becomes an empty text at once, before anything is scanned. The scan
knows no white space, only blanks, and has to agree: such a source is skipped as a whole, so that
reading, checking and writing it gives the empty text too. Comments are skipped as well, but no
other lexeme is, and every command is written with at least one byte. So the text of a source is
empty exactly if the source is made of runs of blanks and of comments.
-/

import VarPrint.Proofs.Java.Translation
import VarPrint.Proofs.Token.Joining

namespace VarPrint

open Lexeme (Skipped)

variable {source : Bytes}

/-- What is skipped in front of a text has no tokens. -/
theorem Scanner.exists_tokens_of_skipped {gap rest : Bytes} (skipped : Skipped gap rest)
    (place : Position) :
    ∃ behind, (Scanner.mk place (gap ++ rest)).tokens = (Scanner.mk behind rest).tokens := by
  induction skipped generalizing place with
  | nil => exact ⟨place, rfl⟩
  | @cons kind piece more rest silent rule _ ih =>
      have notSignificant : ¬ kind.isSignificant = true := by
        rw [Lexeme.isSignificant_iff]
        intro significant
        exact silent.elim significant.1 significant.2
      obtain ⟨behind, others⟩ := ih (place.advance piece)
      refine ⟨behind, ?_⟩
      rw [List.append_assoc, tokens_of_rule rule, if_neg notSignificant, List.nil_append, others]

/-- A source is skipped as a whole exactly if the end is its only token. -/
theorem skipped_iff_exists_tokenize :
    Skipped source [] ↔ ∃ finish, tokenize source = [finish] := by
  constructor
  · intro skipped
    obtain ⟨behind, tokens⟩ := Scanner.exists_tokens_of_skipped skipped .start
    rw [List.append_nil, Scanner.tokens_nil] at tokens
    exact ⟨.finish behind, tokens⟩
  · rintro ⟨finish, tokens⟩
    have tiles := Lexeme.tiles_tokenize source
    rw [tokens] at tiles
    cases tiles with
    | finish skipped => exact skipped
    | token _ _ _ _ others => cases others

/-- The empty program is derived only from what is at its end. -/
theorem Grammar.Derives.atEnd {tokens : List Token} (derives : Grammar.Derives tokens []) :
    Grammar.AtEnd tokens := by
  cases derives with
  | finish ended => exact ended

/-- Only the end is read as the empty program. -/
theorem parse_eq_ok_nil_iff :
    parse (tokenize source) = .ok [] ↔ ∃ finish, tokenize source = [finish] := by
  obtain ⟨front, finish, tokens, isEnd, _, _, others⟩ :=
    (Lexeme.tiles_tokenize source).exists_finish
  constructor
  · intro parsed
    have ended := ((Grammar.commands_eq_ok_iff rfl).mp parsed).atEnd
    rw [tokens] at ended ⊢
    cases front with
    | nil => exact ⟨finish, rfl⟩
    | cons token front =>
        -- The first token would be an end with tokens behind it.
        rcases ended with none | ⟨early, after, split, isEarly⟩
        · cases none
        · obtain ⟨rfl, _⟩ := List.cons.inj split
          exact absurd (others token List.mem_cons_self).1 (by simp [isEarly])
  · rintro ⟨last, alone⟩
    rw [tokens] at alone ⊢
    obtain ⟨rfl, rfl⟩ : front = [] ∧ finish = last := by
      simpa [List.append_eq_singleton_iff] using alone
    exact (Grammar.commands_eq_ok_iff rfl).mpr (.finish (.inr ⟨finish, [], rfl, isEnd⟩))

/-- Every command is written with at least the end of its line. -/
theorem Java.statements_eq_nil_iff {program : Program} :
    Java.statements program = [] ↔ program = [] := by
  cases program with
  | nil => exact iff_of_true rfl rfl
  | cons command rest =>
      rw [Java.statements_cons]
      simp

/-- The text of a source is empty exactly if the source is read as the empty program. -/
theorem compile_eq_ok_nil_iff :
    compile source = .ok [] ↔ parse (tokenize source) = .ok [] := by
  constructor
  · intro compiled
    obtain ⟨program, scope, checked, parsed, run, noCode⟩ := exists_run_of_compile compiled
    obtain rfl := Java.statements_eq_nil_iff.mp noCode.symm
    cases run
    exact parsed
  · intro parsed
    rw [compile_of_parse parsed]
    rfl

/-- Compiling a source is reading it, checking it and writing it, whether or not there is anything
but white space in it. It gives the empty text exactly if the source is made of runs of blanks and
of comments. -/
theorem compile_eq_stages_and_eq_nil_iff (source : Bytes) :
    compile source = (do
      let program ← parse (tokenize source)
      let analysis ← analyzeProgram program
      return Java.statements analysis.program) ∧
    (compile source = .ok [] ↔ Skipped source []) := by
  constructor
  · rw [compile_eq_map_analyze, analyze]
    cases parse (tokenize source) with
    | error fault => rfl
    | ok program =>
        change (analyzeProgram program).map _ = analyzeProgram program >>= _
        cases analyzeProgram program <;> rfl
  · rw [compile_eq_ok_nil_iff, parse_eq_ok_nil_iff, skipped_iff_exists_tokenize]

end VarPrint
