/-
# Places behind a text

The place behind a text is found rune by rune. It has as many lines more as the text has line feeds,
and as many columns more as the text has runes if it stays on its line. The place behind two texts
is the one behind the second, from the place behind the first, wherever the two are read apart. The
place behind any text that is not empty is later, by line and then by column.
-/

import VarPrint.Position
import VarPrint.Proofs.Text.Boundary

namespace VarPrint.Position

theorem line_foldl_step (runes : List Char) (place : Position) :
    (runes.foldl step place).line = place.line + runes.count '\n' := by
  induction runes generalizing place with
  | nil => simp
  | cons c runes ih =>
      rw [List.foldl_cons, ih, List.count_cons, step]
      by_cases isLineFeed : c = '\n'
      · simp only [isLineFeed, if_pos, beq_self_eq_true, Int.natCast_add]
        omega
      · simp [isLineFeed]

/-- A step takes no account of the offset. -/
theorem foldl_step_offset (runes : List Char) (place : Position) (offset : Int) :
    runes.foldl step { place with offset := offset } =
      { runes.foldl step place with offset := offset } := by
  induction runes generalizing place with
  | nil => rfl
  | cons c runes ih =>
      have one : step { place with offset := offset } c =
          { step place c with offset := offset } := by
        unfold step
        split <;> rfl
      rw [List.foldl_cons, one, ih, List.foldl_cons]

/-- Every line feed of a text begins a line. -/
theorem line_advance (place : Position) (text : Bytes) :
    (place.advance text).line = place.line + text.count Byte.lineFeed := by
  rw [advance, line_foldl_step, Bytes.count_lineFeed_runes]

theorem advance_nil (place : Position) : place.advance [] = place := by
  rw [advance, Bytes.runes_nil]
  simp

theorem advance_append (place : Position) {text rest : Bytes}
    (apart : Bytes.Apart text rest) :
    place.advance (text ++ rest) = (place.advance text).advance rest := by
  simp only [advance, apart.runes_append, List.foldl_append, foldl_step_offset, List.length_append,
    Int.natCast_add, Int.add_assoc]

/-- The place in the same column, some lines and some bytes later. -/
def later (place : Position) (lines bytes : Nat) : Position :=
  { place with line := place.line + lines, offset := place.offset + bytes }

theorem step_later (place : Position) (lines bytes : Nat) (c : Char) :
    (place.later lines bytes).step c = (place.step c).later lines bytes := by
  unfold step
  split
  · simp only [later, mk.injEq, and_self, and_true]
    omega
  · rfl

theorem foldl_step_later (runes : List Char) (place : Position) (lines bytes : Nat) :
    runes.foldl step (place.later lines bytes) = (runes.foldl step place).later lines bytes := by
  induction runes generalizing place with
  | nil => rfl
  | cons c runes ih => rw [List.foldl_cons, step_later, ih, List.foldl_cons]

/-- A text leads equally far from two places in the same column. -/
theorem advance_later (place : Position) (lines bytes : Nat) (text : Bytes) :
    (place.later lines bytes).advance text = (place.advance text).later lines bytes := by
  rw [advance, foldl_step_later, advance]
  simp only [later, mk.injEq, true_and]
  omega

theorem column_foldl_step {runes : List Char} (noLineFeed : '\n' ∉ runes) (place : Position) :
    (runes.foldl step place).column = place.column + runes.length := by
  induction runes generalizing place with
  | nil => simp
  | cons c runes ih =>
      rw [List.mem_cons, not_or] at noLineFeed
      rw [List.foldl_cons, ih noLineFeed.2, step, if_neg (Ne.symm noLineFeed.1), List.length_cons]
      dsimp only
      omega

/-- A text without a line feed stays on its line and takes a column for each of its runes. -/
theorem column_advance {text : Bytes} (oneLine : Byte.lineFeed ∉ text) (place : Position) :
    (place.advance text).column = place.column + text.runeCount := by
  have noLineFeed : '\n' ∉ text.runes := by
    rw [← List.count_eq_zero, Bytes.count_lineFeed_runes, List.count_eq_zero]
    exact oneLine
  rw [advance, column_foldl_step noLineFeed, Bytes.runes, List.length_map, Bytes.runeCount]

/-- Behind a line feed a line begins. -/
theorem column_advance_concat (place : Position) (text : Bytes) :
    (place.advance (text ++ [Byte.lineFeed])).column = 1 := by
  have ends : Bytes.runes [Byte.lineFeed] = ['\n'] := by
    rw [Bytes.runes_cons (by decide), Bytes.runes_nil]
    rfl
  rw [advance, (Bytes.apart_of_isBoundary (Bytes.isBoundary_cons (by decide) []) text).runes_append,
    ends, List.foldl_append, List.foldl_cons, List.foldl_nil, step, if_pos rfl]

/-- A text and a line feed lead from the start of a source to the first column of a later line. -/
theorem advance_start_concat (text : Bytes) :
    start.advance (text ++ [Byte.lineFeed]) =
      start.later (1 + text.count Byte.lineFeed) (text.length + 1) := by
  have line := line_advance start (text ++ [Byte.lineFeed])
  have column := column_advance_concat start text
  rw [List.count_append, List.count_singleton_self] at line
  have offset : (start.advance (text ++ [Byte.lineFeed])).offset = ↑(text.length + 1) := by
    rw [advance, List.length_append, List.length_singleton]
    exact Int.zero_add _
  generalize start.advance (text ++ [Byte.lineFeed]) = place at line column offset ⊢
  obtain ⟨_, _, _⟩ := place
  simp only [later, start, mk.injEq] at line column offset ⊢
  omega

theorem isBefore_iff {first second : Position} : first.isBefore second = true ↔
    first.line < second.line ∨ first.line = second.line ∧ first.column < second.column := by
  by_cases sameLine : first.line = second.line
  · simp [isBefore, sameLine]
  · simp [isBefore, sameLine]

theorem isBefore_trans {first second third : Position} (earlier : first.isBefore second = true)
    (later : second.isBefore third = true) : first.isBefore third = true := by
  rw [isBefore_iff] at earlier later ⊢
  omega

theorem not_isBefore_of_isBefore {first second : Position}
    (earlier : first.isBefore second = true) : ¬ second.isBefore first = true := by
  rw [isBefore_iff] at earlier ⊢
  omega

/-- Every rune leads to a later place. -/
theorem isBefore_step (place : Position) (c : Char) : place.isBefore (place.step c) = true := by
  rw [isBefore_iff, step]
  split
  · exact .inl (Int.lt_succ _)
  · exact .inr ⟨rfl, Int.lt_succ _⟩

theorem isBefore_foldl_step (c : Char) (runes : List Char) (place : Position) :
    place.isBefore ((c :: runes).foldl step place) = true := by
  induction runes generalizing c place with
  | nil => exact isBefore_step place c
  | cons next runes ih => exact isBefore_trans (isBefore_step place c) (ih next (place.step c))

/-- A text that is not empty leads to a later place. -/
theorem isBefore_advance {text : Bytes} (nonempty : text ≠ []) (place : Position) :
    place.isBefore (place.advance text) = true := by
  have later := isBefore_foldl_step (Rune.first text)
    (Bytes.runes (text.drop (Rune.width text))) place
  rw [← Bytes.runes_of_ne_nil nonempty] at later
  exact later

end VarPrint.Position
