/-
# Pieces between separators

A text is cut at every occurrence of a byte. The pieces hold other bytes of the text and no
separator. Pieces that are put together again can be put together from the front or from the end.
-/

import VarPrint.Text.Bytes

namespace VarPrint.Bytes

variable {separator b : UInt8} {text piece : Bytes}

/-- The bytes of a piece stand in the text and do not separate. -/
theorem mem_of_mem_splitOn (isPiece : piece ∈ text.splitOn separator) (member : b ∈ piece) :
    b ∈ text ∧ b ≠ separator := by
  induction text generalizing piece with
  | nil =>
      rw [List.splitOn_nil, List.mem_singleton] at isPiece
      rw [isPiece] at member
      cases member
  | cons c text ih =>
      have later {other : Bytes} (isPiece : other ∈ text.splitOn separator) (member : b ∈ other) :
          b ∈ c :: text ∧ b ≠ separator :=
        ⟨List.mem_cons_of_mem c (ih isPiece member).1, (ih isPiece member).2⟩
      rw [List.splitOn_cons_eq_if_modifyHead] at isPiece
      split at isPiece
      · rcases List.mem_cons.mp isPiece with rfl | isPiece
        · cases member
        · exact later isPiece member
      next other =>
        -- The byte goes to the first piece of the rest, and there always is one.
        obtain ⟨first, more, pieces⟩ :=
          List.exists_cons_of_ne_nil (List.splitOn_ne_nil separator text)
        rw [pieces, List.modifyHead_cons] at isPiece
        rw [pieces] at later
        rcases List.mem_cons.mp isPiece with rfl | isPiece
        · rcases List.mem_cons.mp member with rfl | member
          · exact ⟨List.mem_cons_self, mt beq_iff_eq.mpr other⟩
          · exact later List.mem_cons_self member
        · exact later (List.mem_cons_of_mem _ isPiece) member

/-- One more piece at the end is written behind one more separator, if it is not the only one. -/
theorem intercalate_concat {pieces : List Bytes} (earlier : pieces ≠ []) (separator piece : Bytes) :
    separator.intercalate (pieces ++ [piece]) =
      separator.intercalate pieces ++ separator ++ piece := by
  induction pieces with
  | nil => exact absurd rfl earlier
  | cons first rest ih =>
      by_cases more : rest = []
      · rw [more, List.singleton_append, List.intercalate_cons_cons, List.intercalate_singleton,
          List.intercalate_singleton]
      · rw [List.cons_append,
          List.intercalate_cons_of_ne_nil (List.append_ne_nil_of_left_ne_nil more _), ih more,
          List.intercalate_cons_of_ne_nil more]
        simp only [List.append_assoc]

end VarPrint.Bytes
