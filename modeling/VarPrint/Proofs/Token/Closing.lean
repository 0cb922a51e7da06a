/-
# The quote that closes a text

A quote is escaped when the backslashes right in front of it are odd in number, for then the last of
them has no partner. The scan for the closing quote goes forward and pairs backslashes on its way;
counting the run of backslashes in front of a quote gives the same answer. So a text ends at the
first quote of its line that is not escaped, and is open if there is none.
-/

import VarPrint.Proofs.Token.Shape
import Mathlib.Algebra.Ring.Parity
import Mathlib.Data.List.DropRight
import Mathlib.Data.List.Induction

namespace VarPrint.Lexeme

/-- The text ends with a backslash that is not the second of a pair. -/
def EndsUnpaired (text : Bytes) : Prop :=
  Odd (text.rtakeWhile (· = Byte.backslash)).length

/-- Every quote of the text has an unpaired backslash in front of it. -/
def AllEscaped (text : Bytes) : Prop :=
  ∀ before, before ++ [Byte.quote] <+: text → EndsUnpaired before

theorem not_endsUnpaired_nil : ¬ EndsUnpaired [] := by
  simp [EndsUnpaired]

theorem endsUnpaired_concat_iff {text : Bytes} {b : UInt8} :
    EndsUnpaired (text ++ [b]) ↔ b = Byte.backslash ∧ ¬ EndsUnpaired text := by
  rw [EndsUnpaired, List.rtakeWhile_concat]
  by_cases isBackslash : b = Byte.backslash
  · simp [isBackslash, EndsUnpaired, Nat.odd_add_one]
  · simp [isBackslash]

theorem endsUnpaired_backslash : EndsUnpaired [Byte.backslash] :=
  endsUnpaired_concat_iff.mpr ⟨rfl, not_endsUnpaired_nil⟩

/-- A byte that is no backslash has no influence on what follows it. -/
theorem endsUnpaired_plain_iff {b : UInt8} (other : b ≠ Byte.backslash) (text : Bytes) :
    EndsUnpaired (b :: text) ↔ EndsUnpaired text := by
  induction text using List.reverseRecOn with
  | nil =>
      have single : ¬ EndsUnpaired ([] ++ [b]) := fun ends =>
        other (endsUnpaired_concat_iff.mp ends).1
      exact iff_of_false single not_endsUnpaired_nil
  | append_singleton text c ih =>
      rw [← List.cons_append, endsUnpaired_concat_iff, endsUnpaired_concat_iff, ih]

/-- A backslash and the byte that it takes with it have no influence on what follows them. -/
theorem endsUnpaired_pair_iff (b : UInt8) (text : Bytes) :
    EndsUnpaired (Byte.backslash :: b :: text) ↔ EndsUnpaired text := by
  induction text using List.reverseRecOn with
  | nil =>
      have pair : ¬ EndsUnpaired ([Byte.backslash] ++ [b]) := fun ends =>
        (endsUnpaired_concat_iff.mp ends).2 endsUnpaired_backslash
      exact iff_of_false pair not_endsUnpaired_nil
  | append_singleton text c ih =>
      rw [← List.cons_append, ← List.cons_append, endsUnpaired_concat_iff, endsUnpaired_concat_iff,
        ih]

theorem allEscaped_nil : AllEscaped [] := by
  intro before inside
  simp at inside

theorem not_allEscaped_quote (text : Bytes) : ¬ AllEscaped (Byte.quote :: text) := by
  intro all
  exact not_endsUnpaired_nil (all [] (by simp))

theorem allEscaped_backslash : AllEscaped [Byte.backslash] := by
  intro before inside
  have length := inside.length_le
  cases before with
  | nil =>
      rw [List.nil_append, List.cons_prefix_cons] at inside
      exact absurd inside.1 (by decide)
  | cons b before => simp at length

theorem allEscaped_plain_iff {b : UInt8} (notQuote : b ≠ Byte.quote)
    (notBackslash : b ≠ Byte.backslash) (text : Bytes) :
    AllEscaped (b :: text) ↔ AllEscaped text := by
  constructor
  · intro all before inside
    rw [← endsUnpaired_plain_iff notBackslash]
    exact all (b :: before) (by simpa using inside)
  · intro all before inside
    cases before with
    | nil =>
        rw [List.nil_append, List.cons_prefix_cons] at inside
        exact absurd inside.1.symm notQuote
    | cons c before =>
        rw [List.cons_append, List.cons_prefix_cons] at inside
        rw [inside.1, endsUnpaired_plain_iff notBackslash]
        exact all before inside.2

theorem allEscaped_pair_iff (b : UInt8) (text : Bytes) :
    AllEscaped (Byte.backslash :: b :: text) ↔ AllEscaped text := by
  constructor
  · intro all before inside
    rw [← endsUnpaired_pair_iff b]
    exact all (Byte.backslash :: b :: before) (by simpa using inside)
  · intro all before inside
    match before with
    | [] =>
        rw [List.nil_append, List.cons_prefix_cons] at inside
        exact absurd inside.1 (by decide)
    | [c] =>
        rw [List.cons_append, List.cons_prefix_cons] at inside
        rw [inside.1]
        exact endsUnpaired_backslash
    | c :: d :: before =>
        simp only [List.cons_append, List.cons_prefix_cons] at inside
        rw [inside.1, inside.2.1, endsUnpaired_pair_iff]
        exact all before inside.2.2

/-- The induction that pairs backslashes on the way: a backslash takes the next byte with it. -/
theorem pair_induction {motive : Bytes → Prop} (nil : motive []) (lone : motive [Byte.backslash])
    (pair : ∀ b text, motive text → motive (Byte.backslash :: b :: text))
    (plain : ∀ b text, b ≠ Byte.backslash → motive text → motive (b :: text))
    (text : Bytes) : motive text := by
  match text with
  | [] => exact nil
  | [b] =>
      by_cases isBackslash : b = Byte.backslash
      · rw [isBackslash]
        exact lone
      · exact plain b [] isBackslash nil
  | b :: c :: text =>
      by_cases isBackslash : b = Byte.backslash
      · rw [isBackslash]
        exact pair c text (pair_induction nil lone pair plain text)
      · exact plain b (c :: text) isBackslash (pair_induction nil lone pair plain (c :: text))

/-- The content of a text is one line in which every quote is escaped and no backslash at the end
takes the closing quote with it. -/
theorem isTextBody_iff {content : Bytes} : IsTextBody content ↔
    Byte.lineFeed ∉ content ∧ ¬ EndsUnpaired content ∧ AllEscaped content := by
  constructor
  · intro isBody
    induction isBody with
    | nil => exact ⟨by simp, not_endsUnpaired_nil, allEscaped_nil⟩
    | plain notQuote notBackslash notLineFeed _ ih =>
        rw [endsUnpaired_plain_iff notBackslash, allEscaped_plain_iff notQuote notBackslash]
        exact ⟨by simp [Ne.symm notLineFeed, ih.1], ih.2⟩
    | escaped notLineFeed _ ih =>
        rw [endsUnpaired_pair_iff, allEscaped_pair_iff]
        refine ⟨?_, ih.2⟩
        simp only [List.mem_cons, not_or]
        exact ⟨by decide, Ne.symm notLineFeed, ih.1⟩
  · rintro ⟨oneLine, closed, all⟩
    induction content using pair_induction with
    | nil => exact .nil
    | lone => exact absurd endsUnpaired_backslash closed
    | pair b text ih =>
        simp only [List.mem_cons, not_or] at oneLine
        rw [endsUnpaired_pair_iff] at closed
        rw [allEscaped_pair_iff] at all
        exact .escaped (Ne.symm oneLine.2.1) (ih oneLine.2.2 closed all)
    | plain b text notBackslash ih =>
        have notQuote : b ≠ Byte.quote := by
          rintro rfl
          exact not_allEscaped_quote text all
        simp only [List.mem_cons, not_or] at oneLine
        rw [endsUnpaired_plain_iff notBackslash] at closed
        rw [allEscaped_plain_iff notQuote notBackslash] at all
        exact .plain notQuote notBackslash (Ne.symm oneLine.1) (ih oneLine.2 closed all)

/-- Nothing closes a text exactly when every quote on its line is escaped. -/
theorem closingQuote?_eq_none_iff {line rest : Bytes} (oneLine : Byte.lineFeed ∉ line)
    (ended : AtLineEnd rest) : closingQuote? (line ++ rest) = none ↔ AllEscaped line := by
  induction line using pair_induction with
  | nil =>
      refine iff_of_true ?_ allEscaped_nil
      cases rest with
      | nil => rfl
      | cons b rest =>
          rw [ended b rfl, List.nil_append, closingQuote?.eq_def]
          rfl
  | lone =>
      -- What the backslash would take is the end of the line.
      refine iff_of_true ?_ allEscaped_backslash
      cases rest with
      | nil => rfl
      | cons b rest =>
          rw [ended b rfl, closingQuote?.eq_def]
          rfl
  | pair b text ih =>
      simp only [List.mem_cons, not_or] at oneLine
      rw [List.cons_append, List.cons_append, closingQuote?_escaped (Ne.symm oneLine.2.1),
        Option.map_eq_none_iff, ih oneLine.2.2, allEscaped_pair_iff]
  | plain b text notBackslash ih =>
      simp only [List.mem_cons, not_or] at oneLine
      by_cases isQuote : b = Byte.quote
      · subst isQuote
        refine iff_of_false ?_ (not_allEscaped_quote text)
        simp [closingQuote?_quote]
      · rw [List.cons_append, closingQuote?_plain isQuote notBackslash (Ne.symm oneLine.1),
          Option.map_eq_none_iff, ih oneLine.2, allEscaped_plain_iff isQuote notBackslash]

end VarPrint.Lexeme
