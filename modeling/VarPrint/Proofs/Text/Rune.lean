/-
# Runes at the front of a text

A text begins in one of three ways: not at all, with a byte of ASCII, which is a rune of its own, or
with a wide rune. A wide rune has a code outside ASCII and takes only bytes outside ASCII, whether
it is the encoding of a character or a byte that begins none. What looks for bytes of ASCII can
therefore go byte by byte or rune by rune and finds the same places. Reading runes one after the
other is a relation here, so that a text can be cut at any rune.
-/

import VarPrint.Proofs.Text.Blank
import Mathlib.Tactic.SplitIfs

namespace VarPrint

namespace Rune

theorem utf8EncodeChar_of_ascii {c : Char} (ascii : c.toNat < 0x80) :
    String.utf8EncodeChar c = [UInt8.ofNat c.toNat] := by
  have small : c.toNat ≤ 127 := Nat.le_of_lt_succ ascii
  simp [String.utf8EncodeChar, small]

theorem exists_byte_of_ascii {c : Char} (ascii : c.toNat < 0x80) :
    ∃ b : UInt8, b < 0x80 ∧ Char.ofNat b.toNat = c := by
  have code : (UInt8.ofNat c.toNat).toNat = c.toNat := by
    rw [UInt8.toNat_ofNat']
    omega
  refine ⟨UInt8.ofNat c.toNat, ?_, ?_⟩
  · rw [UInt8.lt_iff_toNat_lt, code]
    exact ascii
  · rw [code, Char.ofNat_toNat]

/-- A character outside ASCII is encoded by bytes outside ASCII. -/
theorem le_of_mem_utf8EncodeChar {c : Char} (wide : 0x80 ≤ c.toNat) {b : UInt8}
    (member : b ∈ String.utf8EncodeChar c) : 0x80 ≤ b := by
  have large : ¬ c.val.toNat ≤ 127 := Nat.not_le.mpr wide
  rw [UInt8.le_iff_toNat_le]
  show 0x80 ≤ b.toNat
  simp only [String.utf8EncodeChar, if_neg large] at member
  split_ifs at member with two three
  all_goals
    simp only [List.mem_cons, List.not_mem_nil, or_false] at member
    rcases member with rfl | rfl | rfl | rfl <;> simp only [UInt8.toNat_ofNat'] <;> omega

/-- The first rune of a text is wide, and takes the first of two pieces. -/
structure IsWide (piece rest : Bytes) : Prop where
  nonempty : piece ≠ []
  bytes : ∀ b ∈ piece, 0x80 ≤ b
  code : 0x80 ≤ (first (piece ++ rest)).toNat
  width_eq : width (piece ++ rest) = piece.length

theorem IsWide.first_ne {piece rest : Bytes} (isWide : IsWide piece rest) {c : Char}
    (ascii : c.toNat < 0x80) : first (piece ++ rest) ≠ c := by
  rintro rfl
  exact absurd isWide.code (Nat.not_le.mpr ascii)

/-- A text that begins with a byte outside ASCII begins with a wide rune. -/
theorem exists_isWide {b : UInt8} (wide : 0x80 ≤ b) (tail : Bytes) :
    ∃ piece rest, b :: tail = piece ++ rest ∧ IsWide piece rest := by
  cases decoded : first? (b :: tail) with
  | none =>
      -- The byte begins no encoding and is a replacement rune by itself.
      refine ⟨[b], tail, rfl, by simp, by simpa using wide, ?_, ?_⟩
      · simp only [List.cons_append, List.nil_append, first, decoded]
        decide
      · simp [width, decoded]
  | some c =>
      obtain ⟨rest, split⟩ := first?_eq_some_iff.mp decoded
      have code : 0x80 ≤ c.toNat := by
        apply Nat.le_of_not_lt
        intro ascii
        rw [utf8EncodeChar_of_ascii ascii, List.cons_append, List.cons.injEq] at split
        have small : b.toNat < 0x80 := by
          rw [← split.1, UInt8.toNat_ofNat']
          omega
        exact absurd (UInt8.le_iff_toNat_le.mp wide) (Nat.not_le.mpr small)
      rw [← split] at decoded ⊢
      refine ⟨_, rest, rfl, String.utf8EncodeChar_ne_nil, fun b => le_of_mem_utf8EncodeChar code,
        ?_, ?_⟩
      · simpa [first, decoded] using code
      · simp [width, decoded]

end Rune

namespace Bytes

/-- No rune of a text reaches into what follows it: that is empty or begins with a byte of ASCII. -/
def IsBoundary (rest : Bytes) : Prop :=
  ∀ b ∈ rest.head?, b < 0x80

theorem isBoundary_cons {b : UInt8} (small : b < 0x80) (rest : Bytes) : IsBoundary (b :: rest) := by
  intro c head
  cases head
  exact small

/-- A wide rune that begins in front of a boundary ends there too. -/
theorem exists_isWide_append {b : UInt8} (wide : 0x80 ≤ b) (tail : Bytes) {rest : Bytes}
    (boundary : IsBoundary rest) :
    ∃ piece after, b :: tail = piece ++ after ∧ Rune.IsWide piece (after ++ rest) := by
  obtain ⟨piece, behind, split, isWide⟩ := Rune.exists_isWide wide (tail ++ rest)
  rw [← List.cons_append] at split
  rcases List.append_eq_append_iff.mp split with ⟨extra, rfl, inside⟩ | ⟨after, inside, rfl⟩
  · -- A piece that went on behind the boundary would hold a byte of ASCII.
    cases extra with
    | nil =>
        rw [List.append_nil] at isWide
        refine ⟨b :: tail, [], by simp, ?_⟩
        rw [List.nil_append, inside, List.nil_append]
        exact isWide
    | cons c extra =>
        have small : c < 0x80 := boundary c (by rw [inside]; rfl)
        have large : 0x80 ≤ c := isWide.bytes c (by simp)
        exact absurd small (UInt8.not_lt.mpr large)
  · exact ⟨piece, after, inside, isWide⟩

/-- What holds of the empty text, and of a text as soon as it holds of what the first rune leaves,
holds of every text. The text may stand in front of others, at a boundary. -/
theorem rune_induction {rest : Bytes} (boundary : IsBoundary rest) {motive : Bytes → Prop}
    (nil : motive []) (ascii : ∀ b tail, b < 0x80 → motive tail → motive (b :: tail))
    (wide : ∀ piece tail, Rune.IsWide piece (tail ++ rest) → motive tail → motive (piece ++ tail))
    (text : Bytes) : motive text := by
  match text with
  | [] => exact nil
  | b :: tail =>
      by_cases small : b < 0x80
      · exact ascii b tail small (rune_induction boundary nil ascii wide tail)
      · obtain ⟨piece, after, split, isWide⟩ :=
          exists_isWide_append (UInt8.not_lt.mp small) tail boundary
        have shorter : after.length < (b :: tail).length := by
          rw [split, List.length_append]
          have := List.length_pos_iff.mpr isWide.nonempty
          omega
        rw [split]
        exact wide piece after isWide (rune_induction boundary nil ascii wide after)
termination_by text.length
decreasing_by
  · simp
  · exact shorter

/-- Runes that are read one after the other from the front of a text, and what they leave. -/
inductive Reads : Bytes → List Char → Bytes → Prop
  | nil {text : Bytes} : Reads text [] text
  | cons {text rest : Bytes} {word : List Char} (nonempty : text ≠ [])
      (others : Reads (text.drop (Rune.width text)) word rest) :
      Reads text (Rune.first text :: word) rest

namespace Reads

variable {text middle rest : Bytes} {first second : List Char}

theorem nil_iff : Reads text [] rest ↔ text = rest := by
  constructor
  · intro reads
    cases reads
    rfl
  · rintro rfl
    exact .nil

theorem append (before : Reads text first middle) (after : Reads middle second rest) :
    Reads text (first ++ second) rest := by
  induction before with
  | nil => exact after
  | cons nonempty _ ih => exact .cons nonempty (ih after)

theorem append_iff : Reads text (first ++ second) rest ↔
    ∃ middle, Reads text first middle ∧ Reads middle second rest := by
  constructor
  · intro reads
    induction first generalizing text with
    | nil => exact ⟨text, .nil, reads⟩
    | cons c first ih =>
        cases reads with
        | cons nonempty others =>
            obtain ⟨middle, before, after⟩ := ih others
            exact ⟨middle, .cons nonempty before, after⟩
  · rintro ⟨middle, before, after⟩
    exact before.append after

theorem exists_append (reads : Reads text first rest) : ∃ value, text = value ++ rest := by
  induction reads with
  | nil => exact ⟨[], rfl⟩
  | @cons text rest word nonempty _ ih =>
      obtain ⟨value, split⟩ := ih
      refine ⟨text.take (Rune.width text) ++ value, ?_⟩
      rw [List.append_assoc, ← split, List.take_append_drop]

/-- One rune is the first one, and leaves what is behind its bytes. -/
theorem singleton_iff {c : Char} : Reads text [c] rest ↔
    text ≠ [] ∧ Rune.first text = c ∧ text.drop (Rune.width text) = rest := by
  constructor
  · intro reads
    cases reads with
    | cons nonempty others =>
        cases others
        exact ⟨nonempty, rfl, rfl⟩
  · rintro ⟨nonempty, rfl, rfl⟩
    exact .cons nonempty .nil

end Reads

end Bytes

end VarPrint
