/-
# Well-encoded texts

A text is well encoded if every rune that is read from it is a character with its encoding. Such
texts can be put together, and where no rune reaches from one text into the next, the two are well
encoded if they are so together.

A well-encoded text can also be cut at any byte. The part in front of the place is well encoded
exactly if the byte behind it is the first of an encoding, or none is there, since no later byte of
an encoding looks like a first one.
-/

import VarPrint.Proofs.Text.Boundary

namespace VarPrint

/-- The first byte of an encoding is told from the others by itself. -/
theorem Rune.isUTF8FirstByte_iff {c : Char} {front back : Bytes} {b : UInt8}
    (encoding : String.utf8EncodeChar c = front ++ b :: back) :
    b.IsUTF8FirstByte ↔ front = [] := by
  have inside : front.length < (String.utf8EncodeChar c).length := by simp [encoding]
  have isByte : (String.utf8EncodeChar c)[front.length] = b := by simp [encoding]
  rw [← isByte, UInt8.isUTF8FirstByte_getElem_utf8EncodeChar, List.length_eq_zero_iff]

namespace Bytes

variable {text rest : Bytes}

theorem isUtf8_nil : IsUtf8 [] :=
  ⟨[], rfl⟩

theorem isUtf8_encoding (c : Char) : IsUtf8 (String.utf8EncodeChar c) :=
  ⟨[c], (List.flatMap_singleton _ _).symm⟩

theorem isUtf8_utf8 (literal : String) : IsUtf8 (utf8 literal) :=
  ⟨literal.toList, rfl⟩

theorem IsUtf8.append (front : IsUtf8 text) (back : IsUtf8 rest) : IsUtf8 (text ++ rest) := by
  obtain ⟨characters, rfl⟩ := front
  obtain ⟨others, rfl⟩ := back
  exact ⟨characters ++ others, List.flatMap_append.symm⟩

theorem isUtf8_flatMap {α : Type} {items : List α} {spell : α → Bytes}
    (each : ∀ item ∈ items, IsUtf8 (spell item)) : IsUtf8 (items.flatMap spell) := by
  induction items with
  | nil => exact isUtf8_nil
  | cons item items ih =>
      rw [List.forall_mem_cons] at each
      rw [List.flatMap_cons]
      exact each.1.append (ih each.2)

theorem isUtf8_of_ascii (ascii : ∀ b ∈ text, b < 0x80) : IsUtf8 text := by
  induction text with
  | nil => exact isUtf8_nil
  | cons b text ih =>
      rw [List.forall_mem_cons] at ascii
      have first := isUtf8_encoding (Char.ofNat b.toNat)
      rw [Rune.utf8EncodeChar_ofNat ascii.1] at first
      exact first.append (ih ascii.2)

theorem IsUtf8.cited (isUtf8 : IsUtf8 text) : IsUtf8 text.cited :=
  ((isUtf8_utf8 "'").append isUtf8).append (isUtf8_utf8 "'")

theorem isUtf8_iff : IsUtf8 text ↔
    ∀ piece ∈ runePieces text, piece.2 = String.utf8EncodeChar piece.1 := by
  constructor
  · rintro ⟨characters, rfl⟩
    induction characters with
    | nil => simp [ofRunes]
    | cons c characters ih =>
        rw [ofRunes, List.flatMap_cons, runePieces_encoding_append, List.forall_mem_cons]
        exact ⟨rfl, ih⟩
  · intro encoded
    have bytes : (runePieces text).map Prod.snd = (runes text).map String.utf8EncodeChar := by
      rw [runes, List.map_map]
      exact List.map_congr_left encoded
    refine ⟨runes text, ?_⟩
    rw [ofRunes, List.flatMap_def, ← bytes, ← List.flatMap_def, flatMap_runePieces]

/-- A piece of a text is a rune with its encoding, or a byte by itself that begins none. -/
theorem encoded_or_undecoded_of_mem_runePieces {piece : Char × Bytes}
    (member : piece ∈ runePieces text) :
    piece.2 = String.utf8EncodeChar piece.1 ∨ ∃ b, piece.2 = [b] ∧ Rune.first? [b] = none := by
  fun_induction runePieces text with
  | case1 => cases member
  | case2 b rest extra ih =>
      obtain rfl | later := List.mem_cons.mp member
      · cases decoded : Rune.first? (b :: rest) with
        | none =>
            have noExtra : extra = 0 := by simp [extra, Rune.width, decoded]
            refine .inr ⟨b, by rw [noExtra, List.take_zero], ?_⟩
            rw [Option.eq_none_iff_forall_ne_some] at decoded ⊢
            intro c isFirst
            obtain ⟨after, encoding⟩ := Rune.first?_eq_some_iff.mp isFirst
            apply decoded c
            rw [Rune.first?_eq_some_iff]
            exact ⟨after ++ rest, by rw [← List.append_assoc, encoding, List.singleton_append]⟩
        | some c =>
            obtain ⟨after, encoding⟩ := Rune.first?_eq_some_iff.mp decoded
            have first : Rune.first (b :: rest) = c := by rw [Rune.first, decoded, Option.getD_some]
            have whole : b :: rest.take extra = (b :: rest).take (Rune.width (b :: rest)) := by
              obtain ⟨less, width_eq⟩ := Nat.exists_eq_add_of_lt (Rune.width_pos (b :: rest))
              simp [extra, width_eq]
            refine .inl ?_
            dsimp only
            rw [whole, first, ← encoding, Rune.width_encoding, List.take_left]
      · exact ih later

/-- Texts that are read one by one are well encoded together exactly if each of them is. -/
theorem Apart.isUtf8_append_iff (apart : Apart text rest) :
    IsUtf8 (text ++ rest) ↔ IsUtf8 text ∧ IsUtf8 rest := by
  rw [isUtf8_iff, isUtf8_iff, isUtf8_iff, apart, List.forall_mem_append]

theorem IsUtf8.isUTF8FirstByte (isUtf8 : IsUtf8 text) :
    ∀ b ∈ text.head?, b.IsUTF8FirstByte := by
  obtain ⟨characters, rfl⟩ := isUtf8
  intro b first
  cases characters with
  | nil => cases first
  | cons c characters =>
      obtain ⟨d, back, encoding⟩ : ∃ d back, String.utf8EncodeChar c = [] ++ d :: back :=
        List.exists_cons_of_ne_nil String.utf8EncodeChar_ne_nil
      rw [ofRunes, List.flatMap_cons, encoding] at first
      cases first
      exact (Rune.isUTF8FirstByte_iff encoding).mpr rfl

/-- The front of a well-encoded text is well encoded if it does not end inside a character. -/
theorem IsUtf8.front_iff (isUtf8 : IsUtf8 (text ++ rest)) :
    IsUtf8 text ↔ ∀ b ∈ rest.head?, b.IsUTF8FirstByte := by
  constructor
  · rintro ⟨characters, rfl⟩
    exact ((apart_ofRunes characters rest).isUtf8_append_iff.mp isUtf8).2.isUTF8FirstByte
  · intro begins
    obtain ⟨characters, whole⟩ := isUtf8
    induction characters generalizing text with
    | nil =>
        rw [(List.append_eq_nil_iff.mp whole).1]
        exact isUtf8_nil
    | cons c characters ih =>
        rw [ofRunes, List.flatMap_cons] at whole
        rcases List.append_eq_append_iff.mp whole with
          ⟨extra, encoding, isRest⟩ | ⟨more, rfl, later⟩
        · -- The text ends inside the encoding of the character or right behind it.
          cases extra with
          | nil =>
              rw [List.append_nil] at encoding
              rw [← encoding]
              exact isUtf8_encoding c
          | cons b extra =>
              have isFirst := begins b (by rw [isRest]; rfl)
              rw [(Rune.isUTF8FirstByte_iff encoding).mp isFirst]
              exact isUtf8_nil
        · exact (isUtf8_encoding c).append (ih later.symm)

/-- A stretch of a well-encoded text that begins at a character is well encoded if it does not end
inside one. -/
theorem IsUtf8.extract_iff (isUtf8 : IsUtf8 text) {start stop : Nat} (ordered : start ≤ stop)
    (begins : ∀ b ∈ text[start]?, b.IsUTF8FirstByte) :
    IsUtf8 (text.extract start stop) ↔ ∀ b ∈ text[stop]?, b.IsUTF8FirstByte := by
  have behind : IsUtf8 (text.drop start) := by
    rw [← List.take_append_drop start text] at isUtf8
    obtain ⟨characters, front⟩ := isUtf8.front_iff.mpr (by rwa [List.head?_drop])
    rw [front] at isUtf8
    exact ((apart_ofRunes characters _).isUtf8_append_iff.mp isUtf8).2
  rw [← List.take_append_drop (stop - start) (text.drop start)] at behind
  rw [List.extract_eq_take_drop, behind.front_iff, List.drop_drop, List.head?_drop,
    Nat.add_sub_cancel' ordered]

end Bytes

end VarPrint
