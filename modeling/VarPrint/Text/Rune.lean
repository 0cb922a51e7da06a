/-
# Runes

A byte string is read as a sequence of runes: the longest valid UTF-8 reading from left to right,
where every byte that starts no valid encoding counts as one replacement rune of width one. The
reading is total, so every byte string has a rune count and a list of runes.
-/

import VarPrint.Text.Bytes

namespace VarPrint

namespace Rune

/-- The rune that stands for a byte outside every valid encoding. -/
def replacement : Char := '�'

/-- The character whose UTF-8 encoding begins the input, if there is one. -/
def first? (input : Bytes) : Option Char :=
  (input.take 4).toByteArray.utf8DecodeChar? 0

/-- Exactly the inputs that begin with the encoding of a character give that character. -/
theorem first?_eq_some_iff {input : Bytes} {c : Char} :
    first? input = some c ↔ String.utf8EncodeChar c <+: input := by
  constructor
  · intro h
    have bytes := congrArg (fun b => b.data.toList)
      (String.toByteArray_utf8EncodeChar_of_utf8DecodeChar?_eq_some h)
    simp only [ByteArray.data_extract, List.data_toByteArray, Array.toList_extract,
      List.extract_eq_take_drop, List.drop_zero, Nat.sub_zero] at bytes
    rw [bytes]
    exact (List.take_prefix _ _).trans (List.take_prefix _ _)
  · rintro ⟨rest, rfl⟩
    have short : (String.utf8EncodeChar c).length ≤ 4 :=
      String.length_utf8EncodeChar c ▸ c.utf8Size_le_four
    rw [first?, List.take_append, List.take_of_length_le short, List.toByteArray_append]
    exact ByteArray.utf8DecodeChar?_utf8EncodeChar_append

/-- The number of bytes that the first rune of a non-empty input takes. -/
def width (input : Bytes) : Nat :=
  match first? input with
  | some c => c.utf8Size
  | none => 1

/-- The first rune of a non-empty input. -/
def first (input : Bytes) : Char :=
  (first? input).getD replacement

theorem width_pos (input : Bytes) : 0 < width input := by
  unfold width
  split
  · exact Char.utf8Size_pos _
  · exact Nat.one_pos

theorem width_le_length {input : Bytes} (nonempty : input ≠ []) : width input ≤ input.length := by
  unfold width
  split
  next c h =>
    rw [← String.length_utf8EncodeChar c]
    exact (first?_eq_some_iff.1 h).length_le
  next => exact List.length_pos_iff.2 nonempty

theorem length_drop_width_lt {input : Bytes} (nonempty : input ≠ []) :
    (input.drop (width input)).length < input.length := by
  have positive := width_pos input
  have length := List.length_pos_iff.2 nonempty
  rw [List.length_drop]
  omega

end Rune

namespace Bytes

/-- The runes of a byte string, each with the bytes that it takes. -/
def runePieces : Bytes → List (Char × Bytes)
  | [] => []
  | b :: rest =>
    let extra := Rune.width (b :: rest) - 1
    (Rune.first (b :: rest), b :: rest.take extra) :: runePieces (rest.drop extra)
termination_by input => input.length

/-- The runes of a byte string. -/
def runes (input : Bytes) : List Char :=
  (runePieces input).map Prod.fst

/-- How many runes a byte string has. -/
def runeCount (input : Bytes) : Nat :=
  (runePieces input).length

@[simp]
theorem runePieces_nil : runePieces [] = [] := by
  rw [runePieces]

theorem runePieces_of_ne_nil {input : Bytes} (nonempty : input ≠ []) :
    runePieces input = (Rune.first input, input.take (Rune.width input)) ::
      runePieces (input.drop (Rune.width input)) := by
  obtain ⟨b, rest, rfl⟩ := List.exists_cons_of_ne_nil nonempty
  obtain ⟨extra, width_eq⟩ := Nat.exists_eq_add_of_lt (Rune.width_pos (b :: rest))
  rw [runePieces]
  simp [width_eq]

/-- Reading runes loses no byte. -/
theorem flatMap_runePieces (input : Bytes) :
    (runePieces input).flatMap Prod.snd = input := by
  fun_induction runePieces input with
  | case1 => rfl
  | case2 b rest extra ih => simp [ih]

/-- Runes written back as UTF-8. -/
def ofRunes (runes : List Char) : Bytes :=
  runes.flatMap String.utf8EncodeChar

/-- A byte string that is the UTF-8 encoding of some text. -/
def IsUtf8 (input : Bytes) : Prop :=
  ∃ text : List Char, input = ofRunes text

end Bytes

end VarPrint
