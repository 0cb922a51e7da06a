/-
# Blank runs in a text

Below 0x80 a byte is a rune of its own, whatever follows it, so on the bytes of ASCII the run of
blanks in front of a text can be read off byte by byte. On a text without any other rune the run is
the whole text. Blank runes and white space are the same runes, so this is exactly a text of which
trimming leaves nothing.
-/

import VarPrint.Proofs.Text.Byte
import VarPrint.Text.Blank
import Mathlib.Data.List.TakeWhile

namespace VarPrint

namespace Rune

theorem toNat_ofNat {b : UInt8} (ascii : b < 0x80) : (Char.ofNat b.toNat).toNat = b.toNat := by
  have small : b.toNat < 0x80 := UInt8.lt_iff_toNat_lt.mp ascii
  have valid : b.toNat.isValidChar := .inl (by omega)
  rw [Char.ofNat, dif_pos valid]
  rfl

/-- A byte of ASCII is the whole encoding of the character with its own code. -/
theorem utf8EncodeChar_ofNat {b : UInt8} (ascii : b < 0x80) :
    String.utf8EncodeChar (Char.ofNat b.toNat) = [b] := by
  have small : b.toNat < 0x80 := UInt8.lt_iff_toNat_lt.mp ascii
  have code := toNat_ofNat ascii
  have size : (Char.ofNat b.toNat).utf8Size = 1 := by
    rw [Char.utf8Size_eq_one_iff, UInt32.le_iff_toNat_le]
    show (Char.ofNat b.toNat).toNat ≤ 127
    omega
  rw [String.utf8EncodeChar_eq_singleton size, List.cons.injEq]
  refine ⟨UInt8.toNat.inj ?_, rfl⟩
  show (Char.ofNat b.toNat).toNat % 256 = b.toNat
  omega

theorem first?_cons {b : UInt8} (ascii : b < 0x80) (rest : Bytes) :
    first? (b :: rest) = some (Char.ofNat b.toNat) := by
  rw [first?_eq_some_iff, utf8EncodeChar_ofNat ascii]
  exact ⟨rest, rfl⟩

/-- A byte of ASCII is read as one rune of width one. -/
theorem width_cons {b : UInt8} (ascii : b < 0x80) (rest : Bytes) : width (b :: rest) = 1 := by
  rw [width, first?_cons ascii]
  dsimp only
  rw [← String.length_utf8EncodeChar, utf8EncodeChar_ofNat ascii]
  rfl

theorem first_cons {b : UInt8} (ascii : b < 0x80) (rest : Bytes) :
    first (b :: rest) = Char.ofNat b.toNat := by
  rw [first, first?_cons ascii, Option.getD_some]

theorem first?_encoding (c : Char) (rest : Bytes) :
    first? (String.utf8EncodeChar c ++ rest) = some c :=
  first?_eq_some_iff.mpr ⟨rest, rfl⟩

theorem first_encoding (c : Char) (rest : Bytes) :
    first (String.utf8EncodeChar c ++ rest) = c := by
  rw [first, first?_encoding, Option.getD_some]

theorem width_encoding (c : Char) (rest : Bytes) :
    width (String.utf8EncodeChar c ++ rest) = (String.utf8EncodeChar c).length := by
  simp [width, first?_encoding]

/-- Between the space and the end of ASCII no rune is blank. -/
theorem isBlank_ofNat_of_isVisible {b : UInt8} (visible : Byte.IsVisible b) :
    isBlank (Char.ofNat b.toNat) = false := by
  obtain ⟨low, high⟩ := visible
  unfold isBlank
  rw [toNat_ofNat (UInt8.lt_iff_toNat_lt.mpr high)]
  simp only [Bool.or_eq_false_iff, Bool.and_eq_false_iff, decide_eq_false_iff_not,
    beq_eq_false_iff_ne]
  omega

/-- White space, by the ranges of the property, has the same runes as the blanks, which are given by
controls and categories. -/
theorem isSpace_eq_isBlank (c : Char) : isSpace c = isBlank c := by
  rw [Bool.eq_iff_iff]
  simp only [isSpace, spaceRanges, isBlank, List.any_cons, List.any_nil, Bool.or_eq_true,
    Bool.and_eq_true, decide_eq_true_eq, beq_iff_eq, Bool.false_eq_true, or_false]
  omega

end Rune

namespace Bytes

@[simp]
theorem blankLength_nil : blankLength [] = 0 := by
  unfold blankLength
  rfl

/-- No run of blanks begins at a visible byte of ASCII. -/
theorem blankLength_of_isVisible {b : UInt8} (visible : Byte.IsVisible b) (rest : Bytes) :
    blankLength (b :: rest) = 0 := by
  have solid := Rune.isBlank_ofNat_of_isVisible visible
  unfold blankLength
  rw [Rune.first_cons (UInt8.lt_iff_toNat_lt.mpr visible.2), if_neg (by simp [solid])]

/-- A blank of ASCII lengthens the run of blanks behind it by one byte. -/
theorem blankLength_of_blank {b : UInt8} (ascii : b < 0x80)
    (blank : Rune.isBlank (Char.ofNat b.toNat) = true) (rest : Bytes) :
    blankLength (b :: rest) = 1 + blankLength rest := by
  rw [blankLength.eq_def]
  dsimp only
  rw [Rune.first_cons ascii, if_pos blank, Rune.width_cons ascii, Nat.sub_self, Nat.add_zero,
    List.drop_zero]

theorem snd_ne_nil_of_mem_runePieces (text : Bytes) : ∀ piece ∈ text.runePieces, piece.2 ≠ [] := by
  fun_induction runePieces text with
  | case1 => simp
  | case2 b rest extra ih =>
      rw [List.forall_mem_cons]
      exact ⟨List.cons_ne_nil _ _, ih⟩

/-- Cutting a class from the front and then from the back leaves nothing exactly of a list that has
no other members. -/
theorem dropWhile_reverse_dropWhile_eq_nil_iff {α : Type} (p : α → Bool) (list : List α) :
    (list.dropWhile p).reverse.dropWhile p = [] ↔ ∀ x ∈ list, p x = true := by
  simp only [List.dropWhile_eq_nil_iff, List.mem_reverse]
  constructor
  · intro left x member
    rw [← List.takeWhile_append_dropWhile (p := p) (l := list), List.mem_append] at member
    rcases member with taken | kept
    · exact List.mem_takeWhile_imp taken
    · exact left x kept
  · intro all x kept
    exact all x ((List.dropWhile_sublist p).subset kept)

/-- Trimming leaves nothing exactly where there is nothing but white space. -/
theorem trimSpace_eq_nil_iff {input : Bytes} :
    trimSpace input = [] ↔ ∀ c ∈ input.runes, Rune.isSpace c = true := by
  have nonempty := snd_ne_nil_of_mem_runePieces input
  rw [runes, List.forall_mem_map,
    ← dropWhile_reverse_dropWhile_eq_nil_iff fun piece : Char × Bytes => Rune.isSpace piece.1]
  rw [trimSpace, List.flatMap_eq_nil_iff]
  constructor
  · intro noBytes
    -- A piece that is left would have bytes.
    apply List.eq_nil_iff_forall_not_mem.mpr
    intro piece left
    have inFront := (List.dropWhile_sublist _).subset left
    have inside := (List.dropWhile_sublist _).subset (List.mem_reverse.mp inFront)
    exact nonempty piece inside (noBytes piece (List.mem_reverse.mpr left))
  · intro noneLeft piece left
    rw [noneLeft] at left
    cases left

/-- A text of blank runes only is one run of blanks. -/
theorem blankLength_of_forall_runes {input : Bytes}
    (blank : ∀ c ∈ input.runes, Rune.isBlank c = true) : blankLength input = input.length := by
  fun_induction blankLength input with
  | case1 => rfl
  | case2 b rest first extra ih =>
      have pieces : ∀ c ∈ runes (rest.drop extra), Rune.isBlank c = true := by
        rw [runes, runePieces, List.map_cons, List.forall_mem_cons] at blank
        exact blank.2
      have inside : extra ≤ rest.length := by
        have := Rune.width_le_length (List.cons_ne_nil b rest)
        rw [List.length_cons] at this
        omega
      rw [ih pieces, List.length_drop, List.length_cons]
      omega
  | case3 b rest first =>
      rw [runes, runePieces, List.map_cons, List.forall_mem_cons] at blank
      exact absurd blank.1 first

theorem blankLength_of_ne_nil {input : Bytes} (nonempty : input ≠ []) :
    blankLength input =
      if Rune.isBlank (Rune.first input) then
        Rune.width input + blankLength (input.drop (Rune.width input))
      else 0 := by
  obtain ⟨b, rest, rfl⟩ := List.exists_cons_of_ne_nil nonempty
  obtain ⟨extra, width_eq⟩ := Nat.exists_eq_add_of_lt (Rune.width_pos (b :: rest))
  rw [blankLength.eq_def]
  simp [width_eq, Nat.add_comm 1]

/-- A blank rune lengthens the run of blanks behind it by its own bytes. -/
theorem blankLength_encoding {c : Char} (blank : Rune.isBlank c = true) (rest : Bytes) :
    blankLength (String.utf8EncodeChar c ++ rest) =
      (String.utf8EncodeChar c).length + blankLength rest := by
  rw [blankLength_of_ne_nil (by simp [String.utf8EncodeChar_ne_nil]), Rune.first_encoding,
    if_pos blank, Rune.width_encoding, List.drop_left]

theorem ofRunes_ne_nil {runes : List Char} (nonempty : runes ≠ []) : ofRunes runes ≠ [] := by
  obtain ⟨c, runes, rfl⟩ := List.exists_cons_of_ne_nil nonempty
  simp [ofRunes, String.utf8EncodeChar_ne_nil]

theorem blankLength_ofRunes {blanks : List Char} (allBlank : ∀ c ∈ blanks, Rune.isBlank c = true)
    (rest : Bytes) :
    blankLength (ofRunes blanks ++ rest) = (ofRunes blanks).length + blankLength rest := by
  induction blanks with
  | nil => simp [ofRunes]
  | cons c blanks ih =>
      rw [List.forall_mem_cons] at allBlank
      have split : ofRunes (c :: blanks) = String.utf8EncodeChar c ++ ofRunes blanks := rfl
      rw [split, List.append_assoc, blankLength_encoding allBlank.1, ih allBlank.2,
        List.length_append, Nat.add_assoc]

/-- A text that begins with a blank rune begins with the encoding of a blank character. -/
theorem exists_encoding_of_isBlank {input : Bytes}
    (blank : Rune.isBlank (Rune.first input) = true) :
    ∃ c rest, Rune.isBlank c = true ∧ input = String.utf8EncodeChar c ++ rest := by
  cases decoded : Rune.first? input with
  | none =>
      rw [Rune.first, decoded, Option.getD_none] at blank
      cases blank
  | some c =>
      rw [Rune.first, decoded, Option.getD_some] at blank
      obtain ⟨rest, split⟩ := Rune.first?_eq_some_iff.mp decoded
      exact ⟨c, rest, blank, split.symm⟩

/-- The run of blanks in front of a text is the encoding of blank characters. -/
theorem exists_take_blankLength (input : Bytes) :
    ∃ runes, (∀ c ∈ runes, Rune.isBlank c = true) ∧
      input.take (blankLength input) = ofRunes runes := by
  by_cases empty : input = []
  · exact ⟨[], by simp, by simp [empty, ofRunes]⟩
  · by_cases blank : Rune.isBlank (Rune.first input) = true
    · obtain ⟨c, rest, isBlank, rfl⟩ := exists_encoding_of_isBlank blank
      have shorter : rest.length < (String.utf8EncodeChar c ++ rest).length := by
        have := List.length_pos_iff.mpr (String.utf8EncodeChar_ne_nil (c := c))
        rw [List.length_append]
        omega
      obtain ⟨runes, allBlank, taken⟩ := exists_take_blankLength rest
      refine ⟨c :: runes, List.forall_mem_cons.mpr ⟨isBlank, allBlank⟩, ?_⟩
      rw [blankLength_encoding isBlank, List.take_length_add_append, taken]
      rfl
    · refine ⟨[], by simp, ?_⟩
      rw [blankLength_of_ne_nil empty, if_neg blank, List.take_zero]
      rfl
termination_by input.length

end Bytes

end VarPrint
