/-
# The patterns of lexemes

Each recogniser stands for a pattern, a regular language of runes. A pattern matches a piece at the
front of an input when the runes of the piece are a word of the pattern; bytes that encode no
character count as replacement runes there. The patterns are written with union, concatenation and
repetition only and know nothing of the recognisers. What a combination of patterns matches is cut
into what its parts match, and a class of runes is brought down to bytes.
-/

import VarPrint.Proofs.Text.Rune
import VarPrint.Proofs.Token.Recognize
import Mathlib.Computability.Language

namespace VarPrint

open scoped Computability
open Bytes (Reads)

/-- The runes of the separator categories: spaces, the line and the paragraph separator. -/
def Rune.separators : List Char :=
  ['\u0020', '\u00A0', '\u1680', '\u2000', '\u2001', '\u2002', '\u2003', '\u2004', '\u2005',
    '\u2006', '\u2007', '\u2008', '\u2009', '\u200A', '\u2028', '\u2029', '\u202F', '\u205F',
    '\u3000']

/-- The controls that count as blank: tab, line feed, vertical tab, form feed, carriage return and
the next line. -/
def Rune.blankControls : List Char :=
  ['\t', '\n', '\x0B', '\x0C', '\r', '\u0085']

/-- A blank control or a separator. -/
def Rune.IsBlank (c : Char) : Prop :=
  c ∈ blankControls ∨ c ∈ separators

instance : DecidablePred Rune.IsBlank :=
  fun c => inferInstanceAs (Decidable (c ∈ Rune.blankControls ∨ c ∈ Rune.separators))

/-- The test for blank runes, by ranges of codes, accepts exactly the runes of the two lists. -/
theorem Rune.isBlank_iff {c : Char} : Rune.isBlank c = true ↔ Rune.IsBlank c := by
  have member (list : List Char) : c ∈ list ↔ c.toNat ∈ list.map Char.toNat := by
    refine ⟨List.mem_map_of_mem, fun inside => ?_⟩
    obtain ⟨d, inside, same⟩ := List.mem_map.mp inside
    rwa [Char.ext (UInt32.toNat_inj.mp same)] at inside
  rw [Rune.IsBlank, member, member]
  simp only [Rune.isBlank, Rune.blankControls, Rune.separators, Bool.or_eq_true, Bool.and_eq_true,
    decide_eq_true_eq, beq_iff_eq, List.map_cons, List.map_nil, Char.reduceToNat, List.mem_cons,
    List.not_mem_nil, or_false]
  omega

namespace Pattern

/-- One rune of a class. -/
def oneOf (p : Char → Prop) : Language Char :=
  {word | ∃ c, p c ∧ word = [c]}

/-- One or more of a pattern. -/
def many (pattern : Language Char) : Language Char :=
  pattern * pattern∗

/-- Any rune but a line feed. -/
def sameLine : Language Char :=
  oneOf fun c => c ≠ '\n'

def digit : Language Char :=
  oneOf fun c => c.isDigit

/-- Two slashes and anything up to the end of the line. -/
def comment : Language Char :=
  {['/', '/']} * sameLine∗

def blank : Language Char :=
  oneOf Rune.IsBlank

/-- A part of a text: a backslash with any rune of the line, or one rune of the line that is neither
a quote nor a backslash. -/
def textPart : Language Char :=
  {['\\']} * sameLine + oneOf fun c => c ≠ '"' ∧ c ≠ '\\' ∧ c ≠ '\n'

/-- Parts between two quotes. -/
def text : Language Char :=
  {['"']} * textPart∗ * {['"']}

/-- Digits, and perhaps a point and more digits. -/
def number : Language Char :=
  many digit * (1 + {['.']} * many digit)

/-- A letter, then letters, digits and low lines. -/
def word : Language Char :=
  (oneOf fun c => c.isAlpha) * (oneOf fun c => c.isAlphanum ∨ c = '_')∗

/-- The patterns with the kinds of their recognisers, in the order of the recognisers. -/
def table : List (TokenKind × Language Char) :=
  [(.comment, comment), (.blank, many blank), (.text, text), (.number, number), (.identifier, word),
    (.assign, {['=']}), (.leftParen, {['(']}), (.rightParen, {[')']}), (.semicolon, {[';']})]

/-- A pattern matches the first of two pieces of an input: the piece ends where a rune does, and its
runes are a word of the pattern. -/
def Matches (pattern : Language Char) (value rest : Bytes) : Prop :=
  ∃ word ∈ pattern, Reads (value ++ rest) word rest

section Combinators

variable {first second pattern : Language Char} {p : Char → Prop} {value rest : Bytes}

theorem matches_mul_iff : Matches (first * second) value rest ↔
    ∃ front back, value = front ++ back ∧ Matches first front (back ++ rest) ∧
      Matches second back rest := by
  constructor
  · rintro ⟨_, member, reads⟩
    obtain ⟨firstWord, inFirst, secondWord, inSecond, rfl⟩ := Language.mem_mul.mp member
    obtain ⟨middle, before, after⟩ := Reads.append_iff.mp reads
    obtain ⟨back, rfl⟩ := after.exists_append
    obtain ⟨front, split⟩ := before.exists_append
    rw [← List.append_assoc, List.append_left_inj] at split
    subst split
    rw [List.append_assoc] at before
    exact ⟨front, back, rfl, ⟨firstWord, inFirst, before⟩, secondWord, inSecond, after⟩
  · rintro ⟨front, back, rfl, ⟨firstWord, inFirst, before⟩, secondWord, inSecond, after⟩
    refine ⟨_, Language.append_mem_mul inFirst inSecond, ?_⟩
    rw [List.append_assoc]
    exact before.append after

theorem matches_add_iff : Matches (first + second) value rest ↔
    Matches first value rest ∨ Matches second value rest := by
  simp only [Matches, Language.mem_add, or_and_right, exists_or]

theorem matches_one_iff : Matches 1 value rest ↔ value = [] := by
  constructor
  · rintro ⟨word, empty, reads⟩
    rw [(Language.mem_one word).mp empty, Reads.nil_iff] at reads
    exact List.append_left_eq_self.mp reads
  · rintro rfl
    exact ⟨[], Language.nil_mem_one, .nil⟩

theorem matches_kstar_cons {front back : Bytes} (one : Matches pattern front (back ++ rest))
    (others : Matches pattern∗ back rest) : Matches pattern∗ (front ++ back) rest := by
  have both : Matches (pattern * pattern∗) (front ++ back) rest :=
    matches_mul_iff.mpr ⟨front, back, rfl, one, others⟩
  rw [← Language.one_add_self_mul_kstar_eq_kstar, matches_add_iff]
  exact .inr both

theorem matches_kstar_nil : Matches pattern∗ [] rest :=
  ⟨[], Language.nil_mem_kstar pattern, .nil⟩

/-- What holds of no piece at all, and of a piece in front of others as soon as it holds of these,
holds of every piece that a repetition matches. -/
theorem matches_kstar_induction {motive : Bytes → Prop} (nil : motive [])
    (step : ∀ front back, Matches pattern front (back ++ rest) → motive back →
      motive (front ++ back))
    (repeated : Matches pattern∗ value rest) : motive value := by
  obtain ⟨_, member, reads⟩ := repeated
  obtain ⟨words, rfl, each⟩ := Language.mem_kstar.mp member
  induction words generalizing value with
  | nil =>
      have empty : value = [] := matches_one_iff.mp ⟨[], Language.nil_mem_one, reads⟩
      rw [empty]
      exact nil
  | cons word words ih =>
      rw [List.forall_mem_cons] at each
      have product : Matches ({word} * {words.flatten}) value rest :=
        ⟨_, Language.append_mem_mul (Set.mem_singleton word) (Set.mem_singleton _), reads⟩
      obtain ⟨front, back, rfl, ⟨one, isOne, before⟩, other, isOther, after⟩ :=
        matches_mul_iff.mp product
      rw [Set.mem_singleton_iff.mp isOne] at before
      rw [Set.mem_singleton_iff.mp isOther] at after
      exact step front back ⟨word, each.1, before⟩
        (ih each.2 (Language.join_mem_kstar each.2) after)

end Combinators

section Classes

variable {p : Char → Prop} {q : UInt8 → Bool} {value rest : Bytes}

/-- One rune of a class is a byte of ASCII or a wide rune. -/
theorem matches_oneOf_iff : Matches (oneOf p) value rest ↔
    (∃ b, b < 0x80 ∧ p (Char.ofNat b.toNat) ∧ value = [b]) ∨
      Rune.IsWide value rest ∧ p (Rune.first (value ++ rest)) := by
  constructor
  · rintro ⟨_, ⟨c, inClass, rfl⟩, reads⟩
    obtain ⟨nonempty, rfl, left⟩ := Reads.singleton_iff.mp reads
    obtain ⟨b, tail, split⟩ := List.exists_cons_of_ne_nil nonempty
    by_cases small : b < 0x80
    · refine .inl ⟨b, small, ?_, ?_⟩
      · rwa [split, Rune.first_cons small] at inClass
      · rw [split, Rune.width_cons small, List.drop_one, List.tail_cons] at left
        rw [left] at split
        exact List.append_cancel_right (split : value ++ rest = [b] ++ rest)
    · obtain ⟨piece, after, pieces, isWide⟩ := Rune.exists_isWide (UInt8.not_lt.mp small) tail
      rw [split, pieces, isWide.width_eq, List.drop_left] at left
      rw [pieces, left] at split
      rw [List.append_cancel_right split] at inClass ⊢
      rw [left] at isWide
      exact .inr ⟨isWide, inClass⟩
  · rintro (⟨b, small, inClass, rfl⟩ | ⟨isWide, inClass⟩)
    · refine ⟨_, ⟨_, inClass, rfl⟩, Reads.singleton_iff.mpr ⟨by simp, ?_, ?_⟩⟩
      · exact Rune.first_cons small rest
      · simp [Rune.width_cons small]
    · refine ⟨_, ⟨_, inClass, rfl⟩, Reads.singleton_iff.mpr ⟨?_, rfl, ?_⟩⟩
      · simp [isWide.nonempty]
      · rw [isWide.width_eq, List.drop_left]

/-- A class of runes that is a class of bytes of ASCII. -/
structure IsAscii (p : Char → Prop) (q : UInt8 → Bool) : Prop where
  small : ∀ c, p c → c.toNat < 0x80
  agrees : ∀ b, q b = true ↔ b < 0x80 ∧ p (Char.ofNat b.toNat)

namespace IsAscii

theorem matches_iff (isAscii : IsAscii p q) :
    Matches (oneOf p) value rest ↔ ∃ b, q b = true ∧ value = [b] := by
  rw [matches_oneOf_iff]
  constructor
  · rintro (⟨b, small, inClass, rfl⟩ | ⟨isWide, inClass⟩)
    · exact ⟨b, (isAscii.agrees b).mpr ⟨small, inClass⟩, rfl⟩
    · exact absurd isWide.code (Nat.not_le.mpr (isAscii.small _ inClass))
  · rintro ⟨b, inClass, rfl⟩
    obtain ⟨small, inClass⟩ := (isAscii.agrees b).mp inClass
    exact .inl ⟨b, small, inClass, rfl⟩

theorem matches_kstar_iff (isAscii : IsAscii p q) :
    Matches (oneOf p)∗ value rest ↔ ∀ b ∈ value, q b = true := by
  constructor
  · intro repeated
    refine matches_kstar_induction (motive := fun value => ∀ b ∈ value, q b = true) ?_ ?_ repeated
    · simp
    · intro front back one others
      obtain ⟨b, inClass, rfl⟩ := isAscii.matches_iff.mp one
      simpa using ⟨inClass, others⟩
  · intro all
    induction value with
    | nil => exact matches_kstar_nil
    | cons b value ih =>
        rw [List.forall_mem_cons] at all
        exact matches_kstar_cons (isAscii.matches_iff.mpr ⟨b, all.1, rfl⟩) (ih all.2)

theorem matches_many_iff (isAscii : IsAscii p q) :
    Matches (many (oneOf p)) value rest ↔ value ≠ [] ∧ ∀ b ∈ value, q b = true := by
  rw [many, matches_mul_iff]
  simp only [isAscii.matches_iff, isAscii.matches_kstar_iff]
  constructor
  · rintro ⟨_, back, rfl, ⟨b, inClass, rfl⟩, others⟩
    simpa using ⟨inClass, others⟩
  · rintro ⟨nonempty, all⟩
    obtain ⟨b, back, rfl⟩ := List.exists_cons_of_ne_nil nonempty
    rw [List.forall_mem_cons] at all
    exact ⟨[b], back, rfl, ⟨b, all.1, rfl⟩, all.2⟩

end IsAscii

/-- Classes of runes and of bytes that are one set of codes in the range of ASCII. -/
theorem isAscii_of_codes (codes : Nat → Prop) (runes : ∀ c, p c ↔ codes c.toNat)
    (bytes : ∀ b, q b = true ↔ codes b.toNat) (small : ∀ code, codes code → code < 0x80) :
    IsAscii p q where
  small c inClass := small _ ((runes c).mp inClass)
  agrees b := by
    constructor
    · intro inClass
      rw [bytes] at inClass
      have ascii : b < 0x80 := UInt8.lt_iff_toNat_lt.mpr (small _ inClass)
      rw [runes, Rune.toNat_ofNat ascii]
      exact ⟨ascii, inClass⟩
    · rintro ⟨ascii, inClass⟩
      rw [runes, Rune.toNat_ofNat ascii] at inClass
      exact (bytes b).mpr inClass

theorem isAscii_isDigit : IsAscii (fun c => c.isDigit) Byte.isDigit := by
  refine isAscii_of_codes (fun code => 0x30 ≤ code ∧ code ≤ 0x39) ?_
    (fun b => Byte.isDigit_iff) (by omega)
  intro c
  simp [Char.isDigit, UInt32.le_iff_toNat_le]

theorem isAscii_isAlpha : IsAscii (fun c => c.isAlpha) Byte.isLetter := by
  refine isAscii_of_codes
    (fun code => (0x61 ≤ code ∧ code ≤ 0x7A) ∨ (0x41 ≤ code ∧ code ≤ 0x5A)) ?_
    (fun b => Byte.isLetter_iff) (by omega)
  intro c
  show (decide (0x41 ≤ c.val ∧ c.val ≤ 0x5A) || (decide (0x61 ≤ c.val) && decide (c.val ≤ 0x7A))) =
    true ↔ _
  simp only [UInt32.le_iff_toNat_le, UInt32.reduceToNat, Char.toNat_val, Bool.or_eq_true,
    Bool.and_eq_true, decide_eq_true_eq]
  exact or_comm

theorem IsAscii.or {p' : Char → Prop} {q' : UInt8 → Bool} (first : IsAscii p q)
    (second : IsAscii p' q') : IsAscii (fun c => p c ∨ p' c) (fun b => q b || q' b) where
  small c inClass := inClass.elim (first.small c) (second.small c)
  agrees b := by
    rw [Bool.or_eq_true, first.agrees, second.agrees, and_or_left]

theorem isAscii_eq {c : Char} (small : c.toNat < 0x80) :
    IsAscii (fun d => d = c) (fun b => b = UInt8.ofNat c.toNat) := by
  refine isAscii_of_codes (fun code => code = c.toNat) ?_ ?_ (by omega)
  · intro d
    exact ⟨congrArg Char.toNat, fun same => Char.ext (UInt32.toNat_inj.mp same)⟩
  · intro b
    simp only [← UInt8.toNat_inj, UInt8.toNat_ofNat', Nat.reducePow, decide_eq_true_eq]
    omega

theorem isAscii_nameRune : IsAscii (fun c => c.isAlphanum ∨ c = '_') Lexeme.isNameByte := by
  have classes : IsAscii (fun c => (c.isAlpha ∨ c.isDigit) ∨ c = '_') Lexeme.isNameByte :=
    (isAscii_isAlpha.or isAscii_isDigit).or (isAscii_eq (by decide))
  simpa [Char.isAlphanum] using classes

theorem ofNat_eq_iff {b : UInt8} {c : Char} (small : b < 0x80) (ascii : c.toNat < 0x80) :
    Char.ofNat b.toNat = c ↔ b = UInt8.ofNat c.toNat := by
  simpa [small] using ((isAscii_eq ascii).agrees b).symm

/-- A word of runes of ASCII matches its own bytes. -/
theorem matches_literal_iff (word : List Char) (ascii : ∀ c ∈ word, c.toNat < 0x80) :
    Matches {word} value rest ↔ value = word.map fun c => UInt8.ofNat c.toNat := by
  induction word generalizing value with
  | nil => exact matches_one_iff
  | cons c word ih =>
      rw [List.forall_mem_cons] at ascii
      have product : ({c :: word} : Language Char) = (oneOf fun d => d = c) * {word} := by
        ext other
        rw [Language.mem_mul]
        constructor
        · intro same
          exact ⟨[c], ⟨c, rfl, rfl⟩, word, rfl, same.symm⟩
        · rintro ⟨_, ⟨_, rfl, rfl⟩, _, rfl, rfl⟩
          rfl
      rw [product, matches_mul_iff]
      simp only [(isAscii_eq ascii.1).matches_iff, ih ascii.2]
      simp

end Classes

end Pattern

end VarPrint
