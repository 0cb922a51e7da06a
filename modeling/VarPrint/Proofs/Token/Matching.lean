/-
# What the patterns match

The pieces that each pattern matches, described in bytes, and the recognisers against the patterns.
A recogniser takes a piece that its pattern matches, and no piece that the pattern matches is
longer.
-/

import VarPrint.Proofs.Token.Pattern

namespace VarPrint

open scoped Computability
open Bytes (Reads IsBoundary ofRunes)
open Lexeme (IsDigits IsNumeral IsTextBody IsWord quoted)

namespace Pattern

section Shapes

variable {value rest : Bytes}

theorem matches_digits_iff : Matches (many digit) value rest ↔ IsDigits value :=
  isAscii_isDigit.matches_many_iff

theorem matches_number_iff : Matches number value rest ↔ IsNumeral value := by
  rw [number, matches_mul_iff]
  simp only [matches_digits_iff, matches_add_iff, matches_one_iff, matches_mul_iff,
    matches_literal_iff ['.'] (by simp)]
  constructor
  · rintro ⟨whole, back, rfl, isWhole, rfl | ⟨_, fraction, rfl, rfl, isFraction⟩⟩
    · rw [List.append_nil]
      exact .whole isWhole
    · exact .decimal isWhole isFraction
  · intro isNumeral
    cases isNumeral with
    | whole isDigits => exact ⟨value, [], by simp, isDigits, .inl rfl⟩
    | decimal isWhole isFraction =>
        exact ⟨_, _, rfl, isWhole, .inr ⟨[Byte.dot], _, rfl, rfl, isFraction⟩⟩

theorem matches_word_iff : Matches word value rest ↔ IsWord value := by
  rw [word, matches_mul_iff]
  simp only [isAscii_isAlpha.matches_iff, isAscii_nameRune.matches_kstar_iff]
  constructor
  · rintro ⟨_, back, rfl, ⟨b, letter, rfl⟩, others⟩
    exact ⟨letter, others⟩
  · intro isWord
    cases value with
    | nil => cases isWord
    | cons b back => exact ⟨[b], back, rfl, ⟨b, isWord.1, rfl⟩, isWord.2⟩

/-- One rune that is not a line feed holds no line feed. -/
theorem lineFeed_not_mem_of_sameLine (one : Matches sameLine value rest) :
    Byte.lineFeed ∉ value := by
  rcases matches_oneOf_iff.mp one with ⟨b, small, other, rfl⟩ | ⟨isWide, _⟩
  · rw [Ne, ofNat_eq_iff small (by decide)] at other
    simpa using Ne.symm other
  · intro member
    exact absurd (isWide.bytes _ member) (by decide)

theorem matches_sameLine_ascii {b : UInt8} (small : b < 0x80) (other : b ≠ Byte.lineFeed) :
    Matches sameLine [b] rest := by
  refine matches_oneOf_iff.mpr (.inl ⟨b, small, ?_, rfl⟩)
  rw [Ne, ofNat_eq_iff small (by decide)]
  exact other

theorem matches_sameLine_wide (isWide : Rune.IsWide value rest) : Matches sameLine value rest :=
  matches_oneOf_iff.mpr (.inr ⟨isWide, isWide.first_ne (by decide)⟩)

theorem lineFeed_not_mem_of_line (line : Matches sameLine∗ value rest) :
    Byte.lineFeed ∉ value := by
  refine matches_kstar_induction (motive := fun value => Byte.lineFeed ∉ value) ?_ ?_ line
  · simp
  · intro front back one others
    simp [lineFeed_not_mem_of_sameLine one, others]

theorem matches_line {line : Bytes} (oneLine : Byte.lineFeed ∉ line) (boundary : IsBoundary rest) :
    Matches sameLine∗ line rest := by
  induction line using Bytes.rune_induction boundary with
  | nil => exact matches_kstar_nil
  | ascii b tail small ih =>
      simp only [List.mem_cons, not_or] at oneLine
      exact matches_kstar_cons (matches_sameLine_ascii small (Ne.symm oneLine.1)) (ih oneLine.2)
  | wide piece tail isWide ih =>
      simp only [List.mem_append, not_or] at oneLine
      exact matches_kstar_cons (matches_sameLine_wide isWide) (ih oneLine.2)

theorem exists_of_matches_comment (isComment : Matches comment value rest) :
    ∃ body, value = Byte.slash :: Byte.slash :: body ∧ Byte.lineFeed ∉ body := by
  obtain ⟨front, body, rfl, slashes, line⟩ := matches_mul_iff.mp isComment
  rw [matches_literal_iff _ (by simp)] at slashes
  exact ⟨body, by rw [slashes]; rfl, lineFeed_not_mem_of_line line⟩

theorem matches_comment {body : Bytes} (oneLine : Byte.lineFeed ∉ body)
    (boundary : IsBoundary rest) : Matches comment (Byte.slash :: Byte.slash :: body) rest :=
  matches_mul_iff.mpr ⟨[Byte.slash, Byte.slash], body, rfl,
    (matches_literal_iff _ (by simp)).mpr rfl, matches_line oneLine boundary⟩

/-- Bytes outside ASCII in front of the content of a text make no difference. -/
theorem isTextBody_append_iff {piece : Bytes} (wide : ∀ b ∈ piece, 0x80 ≤ b) (tail : Bytes) :
    IsTextBody (piece ++ tail) ↔ IsTextBody tail :=
  Lexeme.isTextBody_plain_append_iff
    (fun b member => Lexeme.isPlainByte_of_wide (wide b member)) tail

theorem isTextBody_of_matches (parts : Matches textPart∗ value rest) : IsTextBody value := by
  refine matches_kstar_induction (motive := IsTextBody) .nil ?_ parts
  intro front back one isBody
  rcases matches_add_iff.mp one with escaped | plain
  · obtain ⟨mark, rune, rfl, isMark, one⟩ := matches_mul_iff.mp escaped
    rw [matches_literal_iff _ (by simp)] at isMark
    have oneLine := lineFeed_not_mem_of_sameLine one
    rcases matches_oneOf_iff.mp one with ⟨b, _, _, rfl⟩ | ⟨isWide, _⟩
    · rw [isMark]
      exact .escaped (Ne.symm (by simpa using oneLine)) isBody
    · obtain ⟨b, tail, rfl⟩ := List.exists_cons_of_ne_nil isWide.nonempty
      rw [isMark]
      have wide := isWide.bytes
      rw [List.forall_mem_cons] at wide
      refine .escaped (Ne.symm ?_) ((isTextBody_append_iff wide.2 back).mpr isBody)
      simp only [List.mem_cons, not_or] at oneLine
      exact oneLine.1
  · rcases matches_oneOf_iff.mp plain with ⟨b, small, other, rfl⟩ | ⟨isWide, _⟩
    · simp only [Ne, ofNat_eq_iff small (c := '"') (by decide),
        ofNat_eq_iff small (c := '\\') (by decide),
        ofNat_eq_iff small (c := '\n') (by decide)] at other
      exact .plain other.1 other.2.1 other.2.2 isBody
    · exact (isTextBody_append_iff isWide.bytes back).mpr isBody

theorem matches_plain_ascii {b : UInt8} (small : b < 0x80) (notQuote : b ≠ Byte.quote)
    (notBackslash : b ≠ Byte.backslash) (notLineFeed : b ≠ Byte.lineFeed) :
    Matches textPart [b] rest := by
  refine matches_add_iff.mpr (.inr (matches_oneOf_iff.mpr (.inl ⟨b, small, ?_, rfl⟩)))
  simp only [Ne, ofNat_eq_iff small (c := '"') (by decide),
    ofNat_eq_iff small (c := '\\') (by decide), ofNat_eq_iff small (c := '\n') (by decide)]
  exact ⟨notQuote, notBackslash, notLineFeed⟩

theorem matches_plain_wide (isWide : Rune.IsWide value rest) : Matches textPart value rest :=
  matches_add_iff.mpr (.inr (matches_oneOf_iff.mpr (.inr ⟨isWide, isWide.first_ne (by decide),
    isWide.first_ne (by decide), isWide.first_ne (by decide)⟩)))

/-- A backslash and the rune that it takes with it are a part of a text. -/
theorem matches_escaped {tail : Bytes} (one : Matches sameLine value (tail ++ rest))
    (others : Matches textPart∗ tail rest) :
    Matches textPart∗ (Byte.backslash :: (value ++ tail)) rest := by
  have part : Matches textPart (Byte.backslash :: value) (tail ++ rest) :=
    matches_add_iff.mpr (.inl (matches_mul_iff.mpr
      ⟨[Byte.backslash], value, rfl, (matches_literal_iff _ (by simp)).mpr rfl, one⟩))
  exact matches_kstar_cons part others

theorem matches_of_isTextBody {content : Bytes} (isBody : IsTextBody content)
    (boundary : IsBoundary rest) : Matches textPart∗ content rest := by
  -- By runes. A backslash takes one byte with it, but one whole rune of the pattern, so the
  -- induction also speaks of the bytes behind a backslash.
  have both : (IsTextBody content → Matches textPart∗ content rest) ∧
      (∀ b tail, content = b :: tail → b ≠ Byte.lineFeed → IsTextBody tail →
        Matches textPart∗ (Byte.backslash :: content) rest) := by
    clear isBody
    induction content using Bytes.rune_induction boundary with
    | nil => exact ⟨fun _ => matches_kstar_nil, by simp⟩
    | ascii b tail small ih =>
        constructor
        · intro isBody
          cases isBody with
          | plain notQuote notBackslash notLineFeed isBody =>
              exact matches_kstar_cons
                (matches_plain_ascii small notQuote notBackslash notLineFeed) (ih.1 isBody)
          | escaped notLineFeed isBody => exact ih.2 _ _ rfl notLineFeed isBody
        · intro c others same notLineFeed isBody
          cases same
          exact matches_escaped (matches_sameLine_ascii small notLineFeed) (ih.1 isBody)
    | wide piece tail isWide ih =>
        constructor
        · intro isBody
          rw [isTextBody_append_iff isWide.bytes] at isBody
          exact matches_kstar_cons (matches_plain_wide isWide) (ih.1 isBody)
        · intro c others same _ isBody
          obtain ⟨b, piece, rfl⟩ := List.exists_cons_of_ne_nil isWide.nonempty
          cases same
          have wide := (List.forall_mem_cons.mp isWide.bytes).2
          exact matches_escaped (matches_sameLine_wide isWide)
            (ih.1 ((isTextBody_append_iff wide tail).mp isBody))
  exact both.1 isBody

theorem matches_text_iff :
    Matches text value rest ↔ ∃ content, IsTextBody content ∧ value = quoted content := by
  constructor
  · intro isText
    obtain ⟨front, closing, rfl, opened, isClosing⟩ := matches_mul_iff.mp isText
    obtain ⟨opening, content, rfl, isOpening, parts⟩ := matches_mul_iff.mp opened
    rw [matches_literal_iff _ (by simp)] at isOpening isClosing
    refine ⟨content, isTextBody_of_matches parts, ?_⟩
    rw [isOpening, isClosing]
    rfl
  · rintro ⟨content, isBody, rfl⟩
    have quote (rest : Bytes) : Matches {['"']} [Byte.quote] rest :=
      (matches_literal_iff _ (by simp)).mpr rfl
    have parts : Matches textPart∗ content ([Byte.quote] ++ rest) :=
      matches_of_isTextBody isBody (Bytes.isBoundary_cons (by decide) rest)
    exact matches_mul_iff.mpr ⟨Byte.quote :: content, [Byte.quote], rfl,
      matches_mul_iff.mpr ⟨[Byte.quote], content, rfl, quote _, parts⟩, quote rest⟩

/-- A class without the replacement rune matches the encodings of its characters. -/
theorem matches_oneOf_iff_encoding {p : Char → Prop} (valid : ¬ p Rune.replacement) :
    Matches (oneOf p) value rest ↔ ∃ c, p c ∧ value = String.utf8EncodeChar c := by
  constructor
  · rintro ⟨_, ⟨c, inClass, rfl⟩, reads⟩
    obtain ⟨_, isFirst, left⟩ := Reads.singleton_iff.mp reads
    cases decoded : Rune.first? (value ++ rest) with
    | none =>
        rw [Rune.first, decoded, Option.getD_none] at isFirst
        exact absurd (isFirst ▸ inClass) valid
    | some d =>
        rw [Rune.first, decoded, Option.getD_some] at isFirst
        obtain ⟨after, split⟩ := Rune.first?_eq_some_iff.mp decoded
        rw [Rune.width, decoded, ← split] at left
        dsimp only at left
        rw [← String.length_utf8EncodeChar, List.drop_left] at left
        rw [left] at split
        exact ⟨c, inClass, by rw [← isFirst, List.append_cancel_right split]⟩
  · rintro ⟨c, inClass, rfl⟩
    refine ⟨_, ⟨c, inClass, rfl⟩, Reads.singleton_iff.mpr ⟨?_, Rune.first_encoding c rest, ?_⟩⟩
    · simp [String.utf8EncodeChar_ne_nil]
    · rw [Rune.width_encoding, List.drop_left]

theorem matches_blank_iff :
    Matches blank value rest ↔ ∃ c, Rune.isBlank c = true ∧ value = String.utf8EncodeChar c := by
  simp only [Rune.isBlank_iff]
  exact matches_oneOf_iff_encoding (by decide)

theorem matches_blank_kstar_iff : Matches blank∗ value rest ↔
    ∃ runes, (∀ c ∈ runes, Rune.isBlank c = true) ∧ value = ofRunes runes := by
  constructor
  · intro run
    refine matches_kstar_induction (motive := fun value => ∃ runes,
      (∀ c ∈ runes, Rune.isBlank c = true) ∧ value = ofRunes runes) ⟨[], by simp, rfl⟩ ?_ run
    rintro front _ one ⟨runes, allBlank, rfl⟩
    obtain ⟨c, isBlank, rfl⟩ := matches_blank_iff.mp one
    exact ⟨c :: runes, List.forall_mem_cons.mpr ⟨isBlank, allBlank⟩, rfl⟩
  · rintro ⟨runes, allBlank, rfl⟩
    induction runes with
    | nil => exact matches_kstar_nil
    | cons c runes ih =>
        rw [List.forall_mem_cons] at allBlank
        exact matches_kstar_cons (matches_blank_iff.mpr ⟨c, allBlank.1, rfl⟩) (ih allBlank.2)

theorem matches_blanks_iff : Matches (many blank) value rest ↔
    ∃ runes, runes ≠ [] ∧ (∀ c ∈ runes, Rune.isBlank c = true) ∧ value = ofRunes runes := by
  rw [many, matches_mul_iff]
  simp only [matches_blank_iff, matches_blank_kstar_iff]
  constructor
  · rintro ⟨_, _, rfl, ⟨c, isBlank, rfl⟩, runes, allBlank, rfl⟩
    exact ⟨c :: runes, by simp, List.forall_mem_cons.mpr ⟨isBlank, allBlank⟩, rfl⟩
  · rintro ⟨runes, nonempty, allBlank, rfl⟩
    obtain ⟨c, runes, rfl⟩ := List.exists_cons_of_ne_nil nonempty
    rw [List.forall_mem_cons] at allBlank
    exact ⟨_, _, rfl, ⟨c, allBlank.1, rfl⟩, runes, allBlank.2, rfl⟩

end Shapes

/-! The recognisers against the patterns -/

/-- A recogniser takes a piece that the pattern matches if there is one, and the longest of them. -/
structure Describes (pattern : Language Char) (length : Bytes → Nat) : Prop where
  taken : ∀ input, 0 < length input →
    Matches pattern (input.take (length input)) (input.drop (length input))
  longest : ∀ value rest, Matches pattern value rest →
    value ≠ [] ∧ value.length ≤ length (value ++ rest)

section Recognizers

open Lexeme

/-- A run of bytes of a class is part of the longest one. -/
theorem length_le_takeWhile {q : UInt8 → Bool} {run : Bytes} (all : ∀ b ∈ run, q b = true)
    (rest : Bytes) : run.length ≤ ((run ++ rest).takeWhile q).length := by
  rw [List.takeWhile_append_of_pos all, List.length_append]
  exact Nat.le_add_right _ _

theorem describes_comment : Describes comment commentLength where
  taken input taken := by
    obtain ⟨body, rest, rfl, oneLine, ended⟩ := exists_of_commentLength taken
    have boundary : IsBoundary rest := by
      intro b head
      rw [ended b head]
      decide
    rw [commentLength_append oneLine ended]
    simpa using matches_comment oneLine boundary
  longest value rest isComment := by
    obtain ⟨body, rfl, oneLine⟩ := exists_of_matches_comment isComment
    have inside : body.length ≤ lineLength (body ++ rest) := by
      apply length_le_takeWhile
      intro b member
      exact decide_eq_true fun isLineFeed => oneLine (isLineFeed ▸ member)
    refine ⟨by simp, ?_⟩
    simp only [List.cons_append, commentLength, List.length_cons, and_self, if_true]
    omega

theorem describes_blank : Describes (many blank) Bytes.blankLength where
  taken input taken := by
    obtain ⟨runes, allBlank, split⟩ := Bytes.exists_take_blankLength input
    refine matches_blanks_iff.mpr ⟨runes, ?_, allBlank, split⟩
    rintro rfl
    rcases List.take_eq_nil_iff.mp split with none | rfl
    · omega
    · simp at taken
  longest value rest isRun := by
    obtain ⟨runes, nonempty, allBlank, rfl⟩ := matches_blanks_iff.mp isRun
    refine ⟨Bytes.ofRunes_ne_nil nonempty, ?_⟩
    rw [Bytes.blankLength_ofRunes allBlank]
    exact Nat.le_add_right _ _

theorem describes_text : Describes text textLength where
  taken input taken := matches_text_iff.mpr (take_textLength taken)
  longest value rest isText := by
    obtain ⟨content, isBody, rfl⟩ := matches_text_iff.mp isText
    exact ⟨by simp [quoted], Nat.le_of_eq (textLength_append isBody rest).symm⟩

theorem describes_number : Describes number numberLength where
  taken input taken := matches_number_iff.mpr (isNumeral_take_numberLength taken)
  longest value rest isNumber := by
    have isNumeral := matches_number_iff.mp isNumber
    refine ⟨isNumeral.ne_nil, ?_⟩
    cases isNumeral with
    | whole isDigits =>
        have inside : value.length ≤ digitsLength (value ++ rest) :=
          length_le_takeWhile isDigits.2 rest
        have positive := List.length_pos_iff.mpr isDigits.1
        simp only [numberLength]
        rw [if_neg (by omega)]
        omega
    | @decimal whole fraction isWhole isFraction =>
        have inside : fraction.length ≤ digitsLength (fraction ++ rest) :=
          length_le_takeWhile isFraction.2 rest
        have positive := List.length_pos_iff.mpr isFraction.1
        rw [List.append_assoc, List.cons_append, numberLength_digits isWhole (.cons rfl _),
          fractionLength, if_pos ⟨rfl, by omega⟩, List.length_append, List.length_cons]
        omega

theorem describes_word : Describes word wordLength where
  taken input taken := matches_word_iff.mpr (isWord_take_wordLength taken)
  longest value rest isWord := by
    have isWord := matches_word_iff.mp isWord
    refine ⟨isWord.ne_nil, ?_⟩
    cases value with
    | nil => cases isWord
    | cons b tail =>
        have inside := length_le_takeWhile isWord.2 rest
        rw [List.cons_append, wordLength, if_pos isWord.1, List.length_cons]
        omega

theorem describes_symbol {c : Char} (ascii : c.toNat < 0x80) :
    Describes {[c]} (symbolLength (UInt8.ofNat c.toNat)) where
  taken input taken := by
    rw [matches_literal_iff [c] (by simpa using ascii)]
    exact take_symbolLength taken
  longest value rest isSymbol := by
    rw [matches_literal_iff [c] (by simpa using ascii)] at isSymbol
    subst isSymbol
    simp [symbolLength]

/-- Every recogniser is described by the pattern of its kind. -/
theorem describes_table : List.Forall₂
    (fun entry recognizer => entry.1 = recognizer.1 ∧ Describes entry.2 recognizer.2)
    table recognizers := by
  simp only [table, recognizers, List.forall₂_cons, List.forall₂_nil_left_iff, and_true, true_and]
  exact ⟨describes_comment, describes_blank, describes_text, describes_number, describes_word,
    describes_symbol (by decide), describes_symbol (by decide), describes_symbol (by decide),
    describes_symbol (by decide)⟩

end Recognizers

end Pattern

end VarPrint
