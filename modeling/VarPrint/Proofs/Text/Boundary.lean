/-
# Texts that are put together

Two texts, one behind the other, are read as the one and then the other, each rune with its own
bytes, provided that no encoding reaches from the first into the second. This is so if the second
begins in ASCII, if the first ends in ASCII, and if the first is the encoding of characters. Line
feeds in particular are found alike among the bytes of a text and among its runes.
-/

import VarPrint.Proofs.Text.Rune

namespace VarPrint

namespace Rune

variable {text rest : Bytes}

/-- An encoding at the front of a text does not reach over the boundary behind it. -/
theorem encoding_inside {c : Char} (nonempty : text ≠ []) (boundary : Bytes.IsBoundary rest)
    (encoded : String.utf8EncodeChar c <+: text ++ rest) : String.utf8EncodeChar c <+: text := by
  have positive := List.length_pos_iff.mpr nonempty
  have begins : text <+: text ++ rest := List.prefix_append text rest
  apply List.prefix_of_prefix_length_le encoded begins
  by_cases ascii : c.toNat < 0x80
  · rw [utf8EncodeChar_of_ascii ascii, List.length_singleton]
    exact positive
  · -- If it were longer than the text, its bytes behind the text would begin in ASCII.
    apply Nat.le_of_not_lt
    intro longer
    obtain ⟨extra, split⟩ := List.prefix_of_prefix_length_le begins encoded (Nat.le_of_lt longer)
    obtain ⟨after, whole⟩ := encoded
    rw [← split, List.append_assoc, List.append_cancel_left_eq] at whole
    cases extra with
    | nil =>
        rw [List.append_nil] at split
        rw [split] at longer
        exact absurd longer (Nat.lt_irrefl _)
    | cons b extra =>
        have small : b < 0x80 := boundary b (by rw [← whole]; rfl)
        have wide : 0x80 ≤ b :=
          le_of_mem_utf8EncodeChar (Nat.le_of_not_lt ascii) (by rw [← split]; simp)
        exact absurd small (UInt8.not_lt.mpr wide)

theorem first?_append (nonempty : text ≠ []) (boundary : Bytes.IsBoundary rest) :
    first? (text ++ rest) = first? text := by
  apply Option.ext
  intro c
  rw [first?_eq_some_iff, first?_eq_some_iff]
  exact ⟨encoding_inside nonempty boundary,
    fun encoded => encoded.trans (List.prefix_append text rest)⟩

theorem first_append (nonempty : text ≠ []) (boundary : Bytes.IsBoundary rest) :
    first (text ++ rest) = first text := by
  rw [first, first?_append nonempty boundary, first]

theorem width_append (nonempty : text ≠ []) (boundary : Bytes.IsBoundary rest) :
    width (text ++ rest) = width text := by
  rw [width, first?_append nonempty boundary, width]

end Rune

namespace Bytes

variable {rest : Bytes}

theorem isBoundary_nil : IsBoundary [] := by
  intro b head
  cases head

theorem runes_nil : runes [] = [] := by
  rw [runes, runePieces_nil, List.map_nil]

theorem runes_of_ne_nil {text : Bytes} (nonempty : text ≠ []) :
    runes text = Rune.first text :: runes (text.drop (Rune.width text)) := by
  rw [runes, runePieces_of_ne_nil nonempty, List.map_cons, runes]

/-- No rune reaches from a text into the one behind it, so that the two are read one by one. -/
def Apart (text rest : Bytes) : Prop :=
  runePieces (text ++ rest) = runePieces text ++ runePieces rest

theorem apart_nil (rest : Bytes) : Apart [] rest := by
  rw [Apart, runePieces_nil, List.nil_append, List.nil_append]

theorem Apart.runes_append {text : Bytes} (apart : Apart text rest) :
    runes (text ++ rest) = runes text ++ runes rest := by
  rw [runes, apart, List.map_append, runes, runes]

theorem runePieces_cons {b : UInt8} (ascii : b < 0x80) (rest : Bytes) :
    runePieces (b :: rest) = (Char.ofNat b.toNat, [b]) :: runePieces rest := by
  rw [runePieces_of_ne_nil (List.cons_ne_nil b rest), Rune.first_cons ascii, Rune.width_cons ascii]
  rfl

theorem runes_cons {b : UInt8} (ascii : b < 0x80) (rest : Bytes) :
    runes (b :: rest) = Char.ofNat b.toNat :: runes rest := by
  rw [runes, runePieces_cons ascii, List.map_cons, runes]

theorem runePieces_encoding_append (c : Char) (rest : Bytes) :
    runePieces (String.utf8EncodeChar c ++ rest) =
      (c, String.utf8EncodeChar c) :: runePieces rest := by
  rw [runePieces_of_ne_nil (List.append_ne_nil_of_left_ne_nil String.utf8EncodeChar_ne_nil rest),
    Rune.first_encoding, Rune.width_encoding, List.take_left, List.drop_left]

/-- A byte that begins no encoding is a rune of its own. -/
theorem runePieces_undecoded {b : UInt8} {rest : Bytes}
    (noEncoding : ∀ c, ¬ String.utf8EncodeChar c <+: b :: rest) :
    runePieces (b :: rest) = (Rune.replacement, [b]) :: runePieces rest := by
  have undecoded : Rune.first? (b :: rest) = none := by
    rw [Option.eq_none_iff_forall_ne_some]
    intro c decoded
    exact noEncoding c (Rune.first?_eq_some_iff.mp decoded)
  rw [runePieces_of_ne_nil (List.cons_ne_nil b rest), Rune.first, Rune.width, undecoded]
  rfl

/-- A boundary separates what is in front of it. -/
theorem apart_of_isBoundary (boundary : IsBoundary rest) (text : Bytes) : Apart text rest := by
  by_cases empty : text = []
  · rw [empty]
    exact apart_nil rest
  · have shorter := Rune.length_drop_width_lt empty
    have inside := Rune.width_le_length empty
    have later : Apart (text.drop (Rune.width text)) rest :=
      apart_of_isBoundary boundary (text.drop (Rune.width text))
    rw [Apart, runePieces_of_ne_nil (List.append_ne_nil_of_left_ne_nil empty rest),
      Rune.first_append empty boundary, Rune.width_append empty boundary,
      List.take_append_of_le_length inside, List.drop_append_of_le_length inside, later,
      runePieces_of_ne_nil empty, List.cons_append]
termination_by text.length
decreasing_by exact shorter

/-- Bytes of ASCII are separate from what is behind them. -/
theorem apart_of_ascii {text : Bytes} (ascii : ∀ b ∈ text, b < 0x80) (rest : Bytes) :
    Apart text rest := by
  induction text with
  | nil => exact apart_nil rest
  | cons b text ih =>
      rw [List.forall_mem_cons] at ascii
      rw [Apart, List.cons_append, runePieces_cons ascii.1, runePieces_cons ascii.1, ih ascii.2,
        List.cons_append]

/-- A text that ends in ASCII is separate from what is behind it. -/
theorem apart_concat {b : UInt8} (ascii : b < 0x80) (text rest : Bytes) :
    Apart (text ++ [b]) rest := by
  have alone (after : Bytes) : runePieces (text ++ b :: after) =
      runePieces text ++ (Char.ofNat b.toNat, [b]) :: runePieces after := by
    rw [apart_of_isBoundary (isBoundary_cons ascii after), runePieces_cons ascii]
  rw [Apart, List.append_assoc, List.singleton_append, alone, alone, runePieces_nil,
    List.append_assoc, List.singleton_append]

/-- The encoding of characters is separate from what is behind it. -/
theorem apart_ofRunes (characters : List Char) (rest : Bytes) : Apart (ofRunes characters) rest := by
  induction characters with
  | nil => exact apart_nil rest
  | cons c characters ih =>
      have split : ofRunes (c :: characters) = String.utf8EncodeChar c ++ ofRunes characters := rfl
      rw [Apart, split, List.append_assoc, runePieces_encoding_append, runePieces_encoding_append,
        ih, List.cons_append]

theorem runes_ofRunes (characters : List Char) : runes (ofRunes characters) = characters := by
  induction characters with
  | nil => exact runes_nil
  | cons c characters ih =>
      rw [ofRunes, List.flatMap_cons, runes, runePieces_encoding_append, List.map_cons]
      exact congrArg (c :: ·) ih

/-- What is read up to a rune of a text is read alike when the text ends there. -/
theorem runePieces_flatMap_of_append {text : Bytes} {before after : List (Char × Bytes)}
    (split : runePieces text = before ++ after) :
    runePieces (before.flatMap Prod.snd) = before := by
  induction before generalizing text with
  | nil => exact runePieces_nil
  | cons piece before ih =>
      have nonempty : text ≠ [] := by
        rintro rfl
        rw [runePieces_nil] at split
        cases split
      have whole : text = (piece :: before).flatMap Prod.snd ++ after.flatMap Prod.snd := by
        rw [← List.flatMap_append, ← split, flatMap_runePieces]
      rw [List.flatMap_cons] at whole ⊢
      cases decoded : Rune.first? text with
      | some c =>
          obtain ⟨rest, rfl⟩ := Rune.first?_eq_some_iff.mp decoded
          rw [runePieces_encoding_append] at split
          obtain ⟨rfl, later⟩ := List.cons.inj split
          rw [runePieces_encoding_append, ih later]
      | none =>
          obtain ⟨b, rest, rfl⟩ := List.exists_cons_of_ne_nil nonempty
          have noEncoding (c : Char) : ¬ String.utf8EncodeChar c <+: b :: rest := by
            intro encoded
            rw [Rune.first?_eq_some_iff.mpr encoded] at decoded
            cases decoded
          rw [runePieces_undecoded noEncoding] at split
          obtain ⟨rfl, later⟩ := List.cons.inj split
          have begins : b :: before.flatMap Prod.snd <+: b :: rest := ⟨_, whole.symm⟩
          rw [List.singleton_append, runePieces_undecoded fun c encoded =>
            noEncoding c (encoded.trans begins), ih later]

/-- Where two texts are apart from what is behind them, both together are. -/
theorem Apart.append {before text : Bytes} (first : Apart before (text ++ rest))
    (second : Apart text rest) : Apart (before ++ text) rest := by
  have split : runePieces (before ++ text ++ rest) =
      (runePieces before ++ runePieces text) ++ runePieces rest := by
    rw [List.append_assoc, first, second, List.append_assoc]
  have front := runePieces_flatMap_of_append split
  rw [List.flatMap_append, flatMap_runePieces, flatMap_runePieces] at front
  rw [Apart, split, front]

theorem apart_nil_right (text : Bytes) : Apart text [] := by
  rw [Apart, runePieces_nil, List.append_nil, List.append_nil]

/-- Of two places where no rune reaches over, the earlier one is such a place also in the text that
ends at the later one. -/
theorem Apart.inside {before text : Bytes} (first : Apart before (text ++ rest))
    (second : Apart (before ++ text) rest) : Apart before text := by
  have cuts : runePieces before ++ runePieces (text ++ rest) =
      runePieces (before ++ text) ++ runePieces rest := by
    rw [← first, ← second, List.append_assoc]
  rcases List.append_eq_append_iff.mp cuts with ⟨between, front, behind⟩ | ⟨extra, back, _⟩
  · -- The pieces between the two places are those of the text by itself.
    have bytes := congrArg (List.flatMap Prod.snd) front
    rw [List.flatMap_append, flatMap_runePieces, flatMap_runePieces,
      List.append_cancel_left_eq] at bytes
    have alone := runePieces_flatMap_of_append behind
    rw [← bytes] at alone
    rw [Apart, front, alone]
  · have bytes := congrArg (List.flatMap Prod.snd) back
    rw [List.flatMap_append, flatMap_runePieces, flatMap_runePieces, List.append_assoc] at bytes
    have empty : text = [] := (List.append_eq_nil_iff.mp (List.self_eq_append_right.mp bytes)).1
    rw [empty]
    exact apart_nil_right before

/-- A text has as many line feeds among its runes as among its bytes. -/
theorem count_lineFeed_runes (text : Bytes) :
    text.runes.count '\n' = text.count Byte.lineFeed := by
  induction text using rune_induction isBoundary_nil with
  | nil => rw [runes_nil, List.count_nil, List.count_nil]
  | ascii b tail small ih =>
      have same : Char.ofNat b.toNat = '\n' ↔ b = Byte.lineFeed := by
        constructor
        · intro isLineFeed
          have code := congrArg Char.toNat isLineFeed
          rw [Rune.toNat_ofNat small] at code
          exact UInt8.toNat.inj code
        · rintro rfl
          rfl
      rw [runes_cons small, List.count_cons, List.count_cons, ih]
      simp only [beq_iff_eq, same]
  | wide piece tail isWide ih =>
      rw [List.append_nil] at isWide
      have nonempty : piece ++ tail ≠ [] := List.append_ne_nil_of_left_ne_nil isWide.nonempty tail
      have notFirst : Rune.first (piece ++ tail) ≠ '\n' := isWide.first_ne (by decide)
      have absent : Byte.lineFeed ∉ piece := fun member =>
        absurd (isWide.bytes _ member) (by decide)
      rw [runes_of_ne_nil nonempty, isWide.width_eq, List.drop_left, List.count_append,
        List.count_eq_zero_of_not_mem absent, Nat.zero_add, ← ih,
        List.count_cons_of_ne notFirst]

end Bytes

end VarPrint
