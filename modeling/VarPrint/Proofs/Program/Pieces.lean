/-
# A session in pieces

The checks of a session are pieces of one check. Cut every draft in front of the entry that failed,
put what is left of the earlier drafts in front of a later one, and check the whole from the empty
scope: this ends in the same scope as the session at that point, with the same fault, and notes the
same types in the later draft. A check that fails therefore leaves no trace of the entry that failed
or of any behind it, neither in the scope nor in the draft.
-/

import VarPrint.Proofs.Program.Session

namespace VarPrint

namespace Draft

/-- The entries of several drafts that pass when these are checked one after the other: each draft
is cut in front of the entry that fails. -/
def passing (scope : Scope) : List Draft → Draft
  | [] => []
  | draft :: rest =>
    draft.take (examine scope draft).passed ++ passing (examine scope draft).scope rest

section Outcomes

variable (scope : Scope) (draft : Draft)

theorem passed_of_fault?_eq_none (all : (examine scope draft).fault? = none) :
    (examine scope draft).passed = draft.length := by
  induction draft generalizing scope with
  | nil => rfl
  | cons entry rest ih =>
      cases checking : checkEntry scope entry with
      | error fault =>
          rw [examine_of_error checking] at all
          cases all
      | ok result =>
          rw [examine_of_ok checking] at all ⊢
          exact congrArg Nat.succ (ih result.1 all)

/-- The fault is that of the entry behind those that passed, in the scope that these left. -/
theorem exists_entry_of_fault? {fault : Fault}
    (failed : (examine scope draft).fault? = some fault) :
    ∃ entry, draft[(examine scope draft).passed]? = some entry ∧
      checkEntry (examine scope draft).scope entry = .error fault := by
  induction draft generalizing scope with
  | nil => cases failed
  | cons entry rest ih =>
      cases checking : checkEntry scope entry with
      | error cause =>
          rw [examine_of_error checking] at failed ⊢
          cases failed
          exact ⟨entry, rfl, checking⟩
      | ok result =>
          rw [examine_of_ok checking] at failed ⊢
          exact ih result.1 failed

/-- The check does not touch the entry that fails, nor any behind it. -/
theorem drop_passed_examine :
    (examine scope draft).draft.drop (examine scope draft).passed =
      draft.drop (examine scope draft).passed := by
  induction draft generalizing scope with
  | nil => rfl
  | cons entry rest ih =>
      cases checking : checkEntry scope entry with
      | error fault => rw [examine_of_error checking]
      | ok result =>
          rw [examine_of_ok checking]
          exact ih result.1

/-- The entries that passed pass again by themselves, and leave the same scope. -/
theorem examine_take_passed :
    (examine scope (draft.take (examine scope draft).passed)).fault? = none ∧
      (examine scope (draft.take (examine scope draft).passed)).scope =
        (examine scope draft).scope := by
  induction draft generalizing scope with
  | nil => exact ⟨rfl, rfl⟩
  | cons entry rest ih =>
      cases checking : checkEntry scope entry with
      | error fault =>
          rw [examine_of_error checking]
          exact ⟨rfl, rfl⟩
      | ok result =>
          rw [examine_of_ok checking, Outcome.prepend, List.take_succ_cons, examine_of_ok checking]
          exact ih result.1

/-- Behind entries all of which pass, a check goes on as if it began in the scope that they leave.
-/
theorem examine_append (all : (examine scope draft).fault? = none) (more : Draft) :
    examine scope (draft ++ more) =
      { examine (examine scope draft).scope more with
        draft := (examine scope draft).draft ++ (examine (examine scope draft).scope more).draft
        passed := draft.length + (examine (examine scope draft).scope more).passed } := by
  induction draft generalizing scope with
  | nil => simp [examine]
  | cons entry rest ih =>
      cases checking : checkEntry scope entry with
      | error fault =>
          rw [examine_of_error checking] at all
          cases all
      | ok result =>
          rw [examine_of_ok checking] at all
          rw [List.cons_append, examine_of_ok checking, examine_of_ok checking, ih result.1 all]
          simp [Outcome.prepend, Nat.add_right_comm]

theorem length_draft_examine : (examine scope draft).draft.length = draft.length := by
  induction draft generalizing scope with
  | nil => rfl
  | cons entry rest ih =>
      cases checking : checkEntry scope entry with
      | error fault => rw [examine_of_error checking]
      | ok result =>
          rw [examine_of_ok checking]
          exact congrArg Nat.succ (ih result.1)

end Outcomes

/-- An outcome as the last piece of one check from the empty scope: that of the entries that passed
before, and of the draft behind them. -/
structure Outcome.IsPieceOf (before draft : Draft) (outcome : Outcome) : Prop where
  scope_eq : outcome.scope = (examine .empty (before ++ draft)).scope
  fault?_eq : outcome.fault? = (examine .empty (before ++ draft)).fault?
  draft_eq : outcome.draft = (examine .empty (before ++ draft)).draft.drop before.length
  /-- Without a fault all entries passed. -/
  whole : outcome.fault? = none → outcome.passed = draft.length
  /-- Otherwise the fault is that of the entry behind those that passed. -/
  offending : ∀ fault, outcome.fault? = some fault → ∃ entry,
    draft[outcome.passed]? = some entry ∧ checkEntry outcome.scope entry = .error fault
  /-- The entries in front of it pass, and the scope is the one that they leave. -/
  front : (examine .empty (before ++ draft.take outcome.passed)).fault? = none ∧
    (examine .empty (before ++ draft.take outcome.passed)).scope = outcome.scope
  /-- That entry and all behind it are as they were. -/
  untouched : outcome.draft.drop outcome.passed = draft.drop outcome.passed

/-- A check in the scope that passing entries leave is a piece of the check of everything. -/
theorem isPieceOf_examine {before : Draft} (all : (examine .empty before).fault? = none)
    (draft : Draft) :
    (examine (examine .empty before).scope draft).IsPieceOf before draft := by
  have front := examine_take_passed (examine .empty before).scope draft
  refine ⟨?_, ?_, ?_, passed_of_fault?_eq_none _ draft,
    fun fault => exists_entry_of_fault? _ draft, ?_, drop_passed_examine _ draft⟩
  · rw [examine_append _ _ all]
  · rw [examine_append _ _ all]
  · rw [examine_append _ _ all, List.drop_left' (length_draft_examine .empty before)]
  · rw [examine_append _ _ all]
    exact front

/-- The entries of a session that pass, pass one after the other in one check. -/
theorem examine_passing (scope : Scope) (drafts : List Draft) :
    (examine scope (passing scope drafts)).fault? = none := by
  induction drafts generalizing scope with
  | nil => rfl
  | cons draft rest ih =>
      obtain ⟨all, left⟩ := examine_take_passed scope draft
      rw [passing, examine_append _ _ all, left]
      exact ih (examine scope draft).scope

/-- Each draft of a session is checked in the scope that the entries which passed before it leave.
-/
theorem getElem?_examineEach (scope : Scope) (drafts : List Draft) (index : Nat) :
    (examineEach scope drafts)[index]? = drafts[index]?.map
      (examine (examine scope (passing scope (drafts.take index))).scope) := by
  induction drafts generalizing scope index with
  | nil => rfl
  | cons draft rest ih =>
      cases index with
      | zero => rfl
      | succ index =>
          obtain ⟨all, left⟩ := examine_take_passed scope draft
          rw [examineEach, List.getElem?_cons_succ, List.getElem?_cons_succ, ih,
            List.take_succ_cons, passing, examine_append _ _ all, left]

end Draft

/-- Each check of a session gives what one check of everything gives: of all that passed before, and
of the draft behind it. -/
theorem examineEach_isPieceOf (drafts : List Draft) (index : Nat) (draft : Draft)
    (called : drafts[index]? = some draft) :
    ∃ outcome, (Draft.examineEach .empty drafts)[index]? = some outcome ∧
      outcome.IsCheckOf
        (Draft.examine .empty (Draft.passing .empty (drafts.take index))).scope draft ∧
      outcome.IsPieceOf (Draft.passing .empty (drafts.take index)) draft := by
  have all := Draft.examine_passing .empty (drafts.take index)
  refine ⟨_, ?_, Draft.examine_isCheckOf _ draft, Draft.isPieceOf_examine all draft⟩
  rw [Draft.getElem?_examineEach, called]
  rfl

/-- The second draft fails at its second command, and the third one uses what the first command of
the second declared. -/
theorem examineEach_isPieceOf_after_redeclared :
    ∃ first second third : Draft,
      first = [some (.declare (utf8 "a") (some (.text (utf8 "x") (.finish .start))) .unknown
        (.finish .start))] ∧
      second = [some (.declare (utf8 "b") (some (.reference (utf8 "a") (.finish .start))) .unknown
          (.finish .start)),
        some (.declare (utf8 "a") (some (.reference (utf8 "b") (.finish .start))) .unknown
          (.finish .start)), none] ∧
      third = [some (.print (some (.reference (utf8 "b") (.finish .start))) (.finish .start))] ∧
      Draft.passing .empty [first, second] = first ++ second.take 1 ∧
      ∃ outcome, (Draft.examineEach .empty [first, second, third])[2]? = some outcome ∧
        outcome.fault? = none ∧
        outcome.IsPieceOf (Draft.passing .empty [first, second]) third := by
  refine ⟨_, _, _, rfl, rfl, rfl, by decide +kernel, ?_⟩
  refine (examineEach_isPieceOf [_, _, _] 2 _ rfl).imp fun outcome piece =>
    ⟨piece.1, ?_, piece.2.2⟩
  rw [piece.2.2.fault?_eq]
  decide +kernel

end VarPrint
