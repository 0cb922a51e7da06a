/-
# The lexical grammar

One rule for each form of lexeme says which bytes it has and what may follow it. The rules do not
say how an input is scanned. A comment ends with its line, a run of blanks and a word are as long as
they can be, a numeral takes a point only with a digit behind it, and a text ends at the first quote
that is not escaped. A quote without such a partner takes its line, and a rune that begins nothing
else stands by itself. Every input that is not empty begins with exactly one lexeme of the grammar,
and that is the one which the scan takes; where a pattern matches, it is the longest match of the
only pattern that does.
-/

import VarPrint.Proofs.Token.Closing
import VarPrint.Proofs.Token.Matching
import VarPrint.Proofs.Token.Spelling

namespace VarPrint

open Bytes (Stops ofRunes blankLength)

namespace Lexeme

/-- The symbols of one byte, with their kinds. -/
def symbols : List (TokenKind × UInt8) :=
  [(.assign, 0x3D), (.leftParen, 0x28), (.rightParen, 0x29), (.semicolon, 0x3B)]

/-- The kind and the bytes of a lexeme, in front of what is left of the input. -/
inductive Rule : TokenKind → Bytes → Bytes → Prop
  | comment {body rest : Bytes} (oneLine : Byte.lineFeed ∉ body) (ended : AtLineEnd rest) :
      Rule .comment (Byte.slash :: Byte.slash :: body) rest
  | blank {blanks : List Char} {rest : Bytes} (nonempty : blanks ≠ [])
      (allBlank : ∀ c ∈ blanks, Rune.IsBlank c)
      (ended : ∀ c ∈ rest.runes.head?, ¬ Rune.IsBlank c) : Rule .blank (ofRunes blanks) rest
  | whole {digits rest : Bytes} (isDigits : IsDigits digits) (ended : Stops Byte.isDigit rest)
      (noFraction : ∀ b after, rest = Byte.dot :: b :: after → Byte.isDigit b = false) :
      Rule .number digits rest
  | decimal {whole fraction rest : Bytes} (isWhole : IsDigits whole)
      (isFraction : IsDigits fraction) (ended : Stops Byte.isDigit rest) :
      Rule .number (whole ++ Byte.dot :: fraction) rest
  | varWord {rest : Bytes} (ended : Stops isNameByte rest) : Rule .varWord (utf8 "var") rest
  | printWord {rest : Bytes} (ended : Stops isNameByte rest) : Rule .printWord (utf8 "print") rest
  | name {word rest : Bytes} (isWord : IsWord word) (notVar : word ≠ utf8 "var")
      (notPrint : word ≠ utf8 "print") (ended : Stops isNameByte rest) : Rule .identifier word rest
  | text {content rest : Bytes} (oneLine : Byte.lineFeed ∉ content)
      (closed : ¬ EndsUnpaired content) (earliest : AllEscaped content) :
      Rule .text (quoted content) rest
  | openText {line rest : Bytes} (oneLine : Byte.lineFeed ∉ line) (neverClosed : AllEscaped line)
      (ended : AtLineEnd rest) : Rule .unknown (Byte.quote :: line) rest
  | symbol {kind : TokenKind} {b : UInt8} {rest : Bytes} (isSymbol : (kind, b) ∈ symbols) :
      Rule kind [b] rest
  | stray {c : Char} {rest : Bytes} (notBlank : ¬ Rune.IsBlank c) (notQuote : c ≠ '"')
      (notDigit : ¬ c.isDigit) (notLetter : ¬ c.isAlpha) (notSymbol : c ∉ ['=', '(', ')', ';'])
      (noComment : c = '/' → rest.head? ≠ some Byte.slash) :
      Rule .unknown (String.utf8EncodeChar c) rest
  | invalid {b : UInt8} {rest : Bytes}
      (noEncoding : ∀ c, ¬ String.utf8EncodeChar c <+: b :: rest) : Rule .unknown [b] rest

/-- A lexeme of the grammar is not empty. -/
theorem Rule.ne_nil {kind : TokenKind} {value rest : Bytes} (rule : Rule kind value rest) :
    value ≠ [] := by
  cases rule with
  | blank nonempty => exact Bytes.ofRunes_ne_nil nonempty
  | whole isDigits => exact isDigits.1
  | name isWord => exact isWord.ne_nil
  | stray => exact String.utf8EncodeChar_ne_nil
  | varWord => decide
  | printWord => decide
  | comment | decimal | text | openText | symbol | invalid => simp [quoted]

/-! From the rules to the scan -/

theorem head?_runes {input : Bytes} (nonempty : input ≠ []) :
    input.runes.head? = some (Rune.first input) := by
  rw [Bytes.runes, Bytes.runePieces_of_ne_nil nonempty]
  rfl

/-- There is no run of blanks exactly where no blank rune begins the input. -/
theorem blankLength_eq_zero_iff {input : Bytes} :
    blankLength input = 0 ↔ ∀ c ∈ input.runes.head?, ¬ Rune.IsBlank c := by
  by_cases empty : input = []
  · simp [empty, Bytes.runes]
  · rw [head?_runes empty, Bytes.blankLength_of_ne_nil empty]
    have positive := Rune.width_pos input
    simp only [Option.mem_some_iff, forall_eq', ← Rune.isBlank_iff]
    split_ifs with blank
    · simp only [blank, not_true_eq_false, iff_false]
      omega
    · simp [blank]

theorem numberLength_cons_eq_zero_iff {b : UInt8} {rest : Bytes} :
    numberLength (b :: rest) = 0 ↔ Byte.isDigit b = false := by
  by_cases digit : Byte.isDigit b = true
  · simp [numberLength, digitsLength, digit]
  · simp [numberLength, digitsLength, digit]

theorem wordLength_cons_eq_zero_iff {b : UInt8} {rest : Bytes} :
    wordLength (b :: rest) = 0 ↔ Byte.isLetter b = false := by
  by_cases letter : Byte.isLetter b = true
  · simp [wordLength, letter]
  · simp [wordLength, letter]

theorem symbolLength_cons_eq_zero_iff {symbol b : UInt8} {rest : Bytes} :
    symbolLength symbol (b :: rest) = 0 ↔ b ≠ symbol := by
  simp [symbolLength]

theorem textLength_cons_eq_zero_iff {b : UInt8} {rest : Bytes} :
    textLength (b :: rest) = 0 ↔ (b = Byte.quote → closingQuote? rest = none) := by
  by_cases isQuote : b = Byte.quote
  · cases closed : closingQuote? rest <;> simp [textLength, isQuote, closed]
  · simp [textLength, isQuote]

theorem commentLength_cons_eq_zero_iff {b : UInt8} {rest : Bytes} :
    commentLength (b :: rest) = 0 ↔ (b = Byte.slash → rest.head? ≠ some Byte.slash) := by
  cases rest with
  | nil => simp [commentLength]
  | cons second rest => simp [commentLength]

/-- No recogniser takes anything. -/
def NoneTakes (input : Bytes) : Prop :=
  ∀ entry ∈ recognizers, entry.2 input = 0

theorem noneTakes_cons_iff {b : UInt8} {rest : Bytes} : NoneTakes (b :: rest) ↔
    (b = Byte.slash → rest.head? ≠ some Byte.slash) ∧
      ¬ Rune.IsBlank (Rune.first (b :: rest)) ∧
      (b = Byte.quote → closingQuote? rest = none) ∧ Byte.isDigit b = false ∧
      Byte.isLetter b = false ∧ ∀ entry ∈ symbols, b ≠ entry.2 := by
  simp [NoneTakes, recognizers, symbols, commentLength_cons_eq_zero_iff, blankLength_eq_zero_iff,
    textLength_cons_eq_zero_iff, numberLength_cons_eq_zero_iff, wordLength_cons_eq_zero_iff,
    symbolLength_cons_eq_zero_iff, head?_runes]

theorem find?_recognizers_eq_none_iff {input : Bytes} :
    recognizers.find? (fun entry => 0 < entry.2 input) = none ↔ NoneTakes input := by
  simp [List.find?_eq_none, NoneTakes]

/-- What no recogniser takes is unknown. -/
theorem first_of_noneTakes {input : Bytes} (noneTakes : NoneTakes input) :
    first input = (.unknown, unknownLength input) := by
  rw [first, find?_recognizers_eq_none_iff.mpr noneTakes]

theorem unknownLength_quote (rest : Bytes) :
    unknownLength (Byte.quote :: rest) = lineLength (Byte.quote :: rest) :=
  if_pos rfl

/-- A byte outside ASCII can only begin a run of blanks. -/
theorem noneTakes_of_wide {b : UInt8} {rest : Bytes} (wide : 0x80 ≤ b)
    (notBlank : ¬ Rune.IsBlank (Rune.first (b :: rest))) : NoneTakes (b :: rest) := by
  have other {c : UInt8} (small : c < 0x80) : b ≠ c := by
    rintro rfl
    exact absurd small (UInt8.not_lt.mpr wide)
  have hidden : ¬ Byte.IsVisible b := fun visible =>
    absurd (UInt8.le_iff_toNat_le.mp wide) (Nat.not_le.mpr visible.2)
  refine noneTakes_cons_iff.mpr ⟨fun same => absurd same (other (by decide)), notBlank,
    fun same => absurd same (other (by decide)), ?_, ?_, ?_⟩
  · exact Bool.eq_false_iff.mpr (hidden ∘ Byte.isVisible_of_isDigit)
  · exact Bool.eq_false_iff.mpr (hidden ∘ Byte.isVisible_of_isLetter)
  · simp [symbols, other]

/-- A lexeme that is no word is the first one if its recogniser takes exactly its bytes. -/
theorem first_of_length {kind : TokenKind} (length : Bytes → Nat) {value rest : Bytes}
    (entry : (kind, length) ∈ recognizers) (noWord : kind ≠ .identifier) (nonempty : value ≠ [])
    (exactly : length (value ++ rest) = value.length) :
    first (value ++ rest) = (kind, value.length) := by
  have positive := List.length_pos_iff.mpr nonempty
  rw [first_of_taken entry noWord (by simp [nonempty]) (by omega), exactly]

theorem fractionLength_eq_zero {rest : Bytes}
    (noFraction : ∀ b after, rest = Byte.dot :: b :: after → Byte.isDigit b = false) :
    fractionLength rest = 0 := by
  match rest with
  | [] => rfl
  | [b] => simp [fractionLength, digitsLength]
  | b :: c :: rest =>
      rw [fractionLength, if_neg]
      rintro ⟨rfl, digits⟩
      have notDigit := noFraction c rest rfl
      simp [digitsLength, notDigit] at digits

/-- A rune that begins nothing else is taken by no recogniser. -/
theorem noneTakes_stray {c : Char} {rest : Bytes} (notBlank : ¬ Rune.IsBlank c)
    (notQuote : c ≠ '"') (notDigit : ¬ c.isDigit) (notLetter : ¬ c.isAlpha)
    (notSymbol : c ∉ ['=', '(', ')', ';']) (noComment : c = '/' → rest.head? ≠ some Byte.slash) :
    NoneTakes (String.utf8EncodeChar c ++ rest) := by
  have isFirst := Rune.first_encoding c rest
  by_cases ascii : c.toNat < 0x80
  · obtain ⟨b, small, rfl⟩ := Rune.exists_byte_of_ascii ascii
    rw [Rune.utf8EncodeChar_ofNat small] at isFirst ⊢
    refine noneTakes_cons_iff.mpr ⟨?_, by rwa [← isFirst] at notBlank, ?_, ?_, ?_, ?_⟩
    · rintro rfl
      exact noComment rfl
    · rintro rfl
      exact absurd rfl notQuote
    · exact Bool.eq_false_iff.mpr fun digit =>
        notDigit ((Pattern.isAscii_isDigit.agrees b).mp digit).2
    · exact Bool.eq_false_iff.mpr fun letter =>
        notLetter ((Pattern.isAscii_isAlpha.agrees b).mp letter).2
    · rintro entry member rfl
      simp only [symbols, List.mem_cons, List.not_mem_nil, or_false] at member
      rcases member with rfl | rfl | rfl | rfl <;> exact notSymbol (by decide)
  · have wide {b : UInt8} : b ∈ String.utf8EncodeChar c → 0x80 ≤ b :=
      Rune.le_of_mem_utf8EncodeChar (Nat.le_of_not_lt ascii)
    obtain ⟨b, tail, split⟩ :=
      List.exists_cons_of_ne_nil (String.utf8EncodeChar_ne_nil (c := c))
    rw [split, List.cons_append] at isFirst ⊢
    refine noneTakes_of_wide (wide (by simp [split])) ?_
    rwa [isFirst]

/-- A lexeme of the grammar is the first one that the scan takes. -/
theorem first_of_rule {kind : TokenKind} {value rest : Bytes} (rule : Rule kind value rest) :
    first (value ++ rest) = (kind, value.length) := by
  cases rule with
  | comment oneLine ended =>
      exact first_of_length commentLength (by simp [recognizers]) (by decide) (by simp)
        (commentLength_append oneLine ended)
  | @blank blanks _ nonempty allBlank ended =>
      simp only [← Rune.isBlank_iff] at allBlank
      refine first_of_length blankLength (by simp [recognizers]) (by decide)
        (Bytes.ofRunes_ne_nil nonempty) ?_
      rw [Bytes.blankLength_ofRunes allBlank, blankLength_eq_zero_iff.mpr ended, Nat.add_zero]
  | whole isDigits ended noFraction =>
      refine first_of_length numberLength (by simp [recognizers]) (by decide) isDigits.1 ?_
      rw [numberLength_digits isDigits ended, fractionLength_eq_zero noFraction, Nat.add_zero]
  | decimal isWhole isFraction ended =>
      refine first_of_length numberLength (by simp [recognizers]) (by decide) (by simp) ?_
      rw [List.append_assoc, List.cons_append, numberLength_digits isWhole (.cons rfl _),
        fractionLength_dot isFraction ended, List.length_append, List.length_cons, Nat.add_comm 1]
  | varWord ended => exact first_word isWord_var ended
  | printWord ended => exact first_word isWord_print ended
  | name isWord notVar notPrint ended =>
      rw [first_word isWord ended, TokenKind.ofWord, if_neg notVar, if_neg notPrint]
  | text oneLine closed earliest =>
      exact first_quoted (isTextBody_iff.mpr ⟨oneLine, closed, earliest⟩) rest
  | @openText line _ oneLine neverClosed ended =>
      have unclosed := (closingQuote?_eq_none_iff oneLine ended).mpr neverClosed
      have noneTakes : NoneTakes (Byte.quote :: (line ++ rest)) := by
        refine noneTakes_cons_iff.mpr ⟨fun same => absurd same (by decide), ?_, fun _ => unclosed,
          rfl, rfl, by decide⟩
        rw [Rune.first_cons (by decide)]
        decide
      have wholeLine : lineLength (Byte.quote :: line ++ rest) = (Byte.quote :: line).length := by
        refine lineLength_append ?_ ended
        simp only [List.mem_cons, not_or]
        exact ⟨by decide, oneLine⟩
      rw [List.cons_append] at wholeLine ⊢
      rw [first_of_noneTakes noneTakes, unknownLength_quote, wholeLine]
  | @symbol _ b _ isSymbol =>
      simp only [symbols, List.mem_cons, Prod.mk.injEq, List.not_mem_nil, or_false] at isSymbol
      rcases isSymbol with ⟨rfl, rfl⟩ | ⟨rfl, rfl⟩ | ⟨rfl, rfl⟩ | ⟨rfl, rfl⟩ <;>
        exact first_symbol (by simp [recognizers]) (by decide) rest
  | @stray c _ notBlank notQuote notDigit notLetter notSymbol noComment =>
      have noneTakes :=
        noneTakes_stray notBlank notQuote notDigit notLetter notSymbol noComment
      have notOpen : (String.utf8EncodeChar c ++ rest).head? ≠ some Byte.quote := by
        intro head
        obtain ⟨tail, split⟩ := List.head?_eq_some_iff.mp head
        have isFirst := Rune.first_encoding c rest
        rw [split, Rune.first_cons (by decide)] at isFirst
        exact notQuote isFirst.symm
      rw [first_of_noneTakes noneTakes, unknownLength, if_neg notOpen, Rune.width_encoding]
  | @invalid b _ noEncoding =>
      have undecoded : Rune.first? (b :: rest) = none := by
        rw [Option.eq_none_iff_forall_ne_some]
        intro c decoded
        exact noEncoding c (Rune.first?_eq_some_iff.mp decoded)
      have wide : 0x80 ≤ b := by
        apply UInt8.not_lt.mp
        intro small
        rw [Rune.first?_cons small] at undecoded
        cases undecoded
      have noneTakes : NoneTakes (b :: rest) := by
        refine noneTakes_of_wide wide ?_
        rw [Rune.first, undecoded]
        decide
      have notOpen : (b :: rest).head? ≠ some Byte.quote := by
        rintro ⟨⟩
        exact absurd wide (by decide)
      rw [List.singleton_append, first_of_noneTakes noneTakes, unknownLength, if_neg notOpen,
        Rune.width, undecoded]
      rfl

/-! From the scan to the rules -/

/-- What a recogniser leaves cannot continue what it took. -/
theorem not_matches_longer {pattern : Language Char} {length : Bytes → Nat}
    (describes : Pattern.Describes pattern length) {input : Bytes} (more after : Bytes)
    (left : input.drop (length input) = more ++ after) (nonempty : more ≠ []) :
    ¬ Pattern.Matches pattern (input.take (length input) ++ more) after := by
  intro longer
  have bound := (describes.longest _ _ longer).2
  rw [List.append_assoc, ← left, List.take_append_drop, List.length_append,
    List.length_take] at bound
  have positive := List.length_pos_iff.mpr nonempty
  have inside := congrArg List.length left
  rw [List.length_drop, List.length_append] at inside
  omega

/-- A text stops where no byte of the class can be taken from it. -/
theorem stops_of_forall {p : UInt8 → Bool} {rest : Bytes}
    (refused : ∀ b after, rest = b :: after → ¬ p b = true) : Stops p rest := by
  intro b head
  obtain ⟨after, split⟩ := List.head?_eq_some_iff.mp head
  exact Bool.eq_false_iff.mpr (refused b after split)

theorem IsDigits.concat {digits : Bytes} (isDigits : IsDigits digits) {b : UInt8}
    (digit : Byte.isDigit b = true) : IsDigits (digits ++ [b]) := by
  refine ⟨by simp, ?_⟩
  rw [List.forall_mem_append]
  exact ⟨isDigits.2, by simpa using digit⟩

theorem rule_comment {input : Bytes} (taken : 0 < commentLength input) :
    Rule .comment (input.take (commentLength input)) (input.drop (commentLength input)) := by
  obtain ⟨body, rest, rfl, oneLine, ended⟩ := exists_of_commentLength taken
  rw [commentLength_append oneLine ended]
  simpa using Rule.comment oneLine ended

theorem rule_blank {input : Bytes} (taken : 0 < blankLength input) :
    Rule .blank (input.take (blankLength input)) (input.drop (blankLength input)) := by
  obtain ⟨blanks, nonempty, allBlank, split⟩ :=
    Pattern.matches_blanks_iff.mp (Pattern.describes_blank.taken input taken)
  rw [split]
  refine .blank nonempty (fun c member => Rune.isBlank_iff.mp (allBlank c member)) ?_
  intro c head isBlank
  have left : input.drop (blankLength input) ≠ [] := by
    intro empty
    rw [empty] at head
    simp [Bytes.runes] at head
  rw [head?_runes left, Option.mem_some_iff] at head
  obtain ⟨d, after, next, rest⟩ :=
    Bytes.exists_encoding_of_isBlank (by rw [head]; exact Rune.isBlank_iff.mpr isBlank)
  apply not_matches_longer Pattern.describes_blank _ _ rest String.utf8EncodeChar_ne_nil
  refine Pattern.matches_blanks_iff.mpr ⟨blanks ++ [d], by simp, ?_, by simp [split, ofRunes]⟩
  rw [List.forall_mem_append]
  exact ⟨allBlank, by simpa using next⟩

theorem rule_number {input : Bytes} (taken : 0 < numberLength input) :
    Rule .number (input.take (numberLength input)) (input.drop (numberLength input)) := by
  have isNumeral := isNumeral_take_numberLength taken
  have ended (more after : Bytes) (left : input.drop (numberLength input) = more ++ after)
      (nonempty : more ≠ []) : ¬ IsNumeral (input.take (numberLength input) ++ more) :=
    mt Pattern.matches_number_iff.mpr
      (not_matches_longer Pattern.describes_number more after left nonempty)
  generalize input.take (numberLength input) = value at isNumeral ended
  generalize input.drop (numberLength input) = rest at ended
  cases isNumeral with
  | whole isDigits =>
      refine .whole isDigits (stops_of_forall ?_) ?_
      · intro b after left digit
        exact ended [b] after left (by simp) (.whole (isDigits.concat digit))
      · intro b after left
        refine Bool.eq_false_iff.mpr fun digit => ended [Byte.dot, b] after left (by simp) ?_
        exact .decimal isDigits ⟨by simp, by simpa using digit⟩
  | decimal isWhole isFraction =>
      refine .decimal isWhole isFraction (stops_of_forall ?_)
      intro b after left digit
      apply ended [b] after left (by simp)
      rw [List.append_assoc, List.cons_append]
      exact .decimal isWhole (isFraction.concat digit)

/-- A whole word follows the rule of its kind, which is that of a reserved word or of a name. -/
theorem rule_word {word rest : Bytes} (isWord : IsWord word) (ended : Stops isNameByte rest) :
    Rule (.ofWord word) word rest := by
  unfold TokenKind.ofWord
  split_ifs with isVar isPrint
  · rw [isVar]
    exact .varWord ended
  · rw [isPrint]
    exact .printWord ended
  · exact .name isWord isVar isPrint ended

theorem rule_wordLength {input : Bytes} (taken : 0 < wordLength input) :
    Rule (.ofWord (input.take (wordLength input))) (input.take (wordLength input))
      (input.drop (wordLength input)) := by
  have isWord := isWord_take_wordLength taken
  refine rule_word isWord (stops_of_forall ?_)
  intro b after left continues
  apply not_matches_longer Pattern.describes_word [b] after left (by simp)
  apply Pattern.matches_word_iff.mpr
  generalize input.take (wordLength input) = word at isWord
  cases word with
  | nil => cases isWord
  | cons c word =>
      refine ⟨isWord.1, ?_⟩
      show ∀ c ∈ word ++ [b], isNameByte c = true
      rw [List.forall_mem_append]
      exact ⟨isWord.2, by simpa using continues⟩

theorem rule_text {input : Bytes} (taken : 0 < textLength input) :
    Rule .text (input.take (textLength input)) (input.drop (textLength input)) := by
  obtain ⟨content, isBody, split⟩ := take_textLength taken
  rw [split]
  obtain ⟨oneLine, closed, earliest⟩ := isTextBody_iff.mp isBody
  exact .text oneLine closed earliest

theorem rule_symbol {kind : TokenKind} {symbol : UInt8} (isSymbol : (kind, symbol) ∈ symbols)
    {input : Bytes} (taken : 0 < symbolLength symbol input) :
    Rule kind (input.take (symbolLength symbol input))
      (input.drop (symbolLength symbol input)) := by
  rw [take_symbolLength taken]
  exact .symbol isSymbol

/-- What a recogniser takes follows a rule. -/
theorem exists_rule_of_taken {kind : TokenKind} {length : Bytes → Nat} {input : Bytes}
    (entry : (kind, length) ∈ recognizers) (taken : 0 < length input) :
    ∃ kind, Rule kind (input.take (length input)) (input.drop (length input)) := by
  simp only [recognizers, List.mem_cons, Prod.mk.injEq, List.not_mem_nil, or_false] at entry
  rcases entry with ⟨rfl, rfl⟩ | ⟨rfl, rfl⟩ | ⟨rfl, rfl⟩ | ⟨rfl, rfl⟩ | ⟨rfl, rfl⟩ | ⟨rfl, rfl⟩ |
    ⟨rfl, rfl⟩ | ⟨rfl, rfl⟩ | ⟨rfl, rfl⟩
  · exact ⟨_, rule_comment taken⟩
  · exact ⟨_, rule_blank taken⟩
  · exact ⟨_, rule_text taken⟩
  · exact ⟨_, rule_number taken⟩
  · exact ⟨_, rule_wordLength taken⟩
  · exact ⟨.assign, rule_symbol (by simp [symbols]) taken⟩
  · exact ⟨.leftParen, rule_symbol (by simp [symbols]) taken⟩
  · exact ⟨.rightParen, rule_symbol (by simp [symbols]) taken⟩
  · exact ⟨.semicolon, rule_symbol (by simp [symbols]) taken⟩

/-- A quote that no recogniser takes is open, and takes its line. -/
theorem exists_rule_openText {rest : Bytes} (noneTakes : NoneTakes (Byte.quote :: rest)) :
    ∃ line after, rest = line ++ after ∧ Rule .unknown (Byte.quote :: line) after := by
  obtain ⟨_, _, unclosed, _⟩ := noneTakes_cons_iff.mp noneTakes
  obtain ⟨line, after, rfl, oneLine, ended⟩ := exists_line rest
  have neverClosed := (closingQuote?_eq_none_iff oneLine ended).mp (unclosed rfl)
  exact ⟨line, after, rfl, .openText oneLine neverClosed ended⟩

/-- A character that no recogniser takes, and that is no quote, begins nothing else. -/
theorem rule_stray {c : Char} {rest : Bytes} (notQuote : c ≠ '"')
    (noneTakes : NoneTakes (String.utf8EncodeChar c ++ rest)) :
    Rule .unknown (String.utf8EncodeChar c) rest := by
  have isFirst := Rune.first_encoding c rest
  by_cases ascii : c.toNat < 0x80
  · obtain ⟨b, small, rfl⟩ := Rune.exists_byte_of_ascii ascii
    rw [Rune.utf8EncodeChar_ofNat small, List.singleton_append] at noneTakes isFirst
    obtain ⟨noComment, notBlank, _, notDigit, notLetter, notSymbol⟩ :=
      noneTakes_cons_iff.mp noneTakes
    rw [isFirst] at notBlank
    refine .stray notBlank notQuote ?_ ?_ ?_ ?_
    · intro digit
      exact Bool.eq_false_iff.mp notDigit ((Pattern.isAscii_isDigit.agrees b).mpr ⟨small, digit⟩)
    · intro letter
      exact Bool.eq_false_iff.mp notLetter ((Pattern.isAscii_isAlpha.agrees b).mpr ⟨small, letter⟩)
    · intro member
      simp only [List.mem_cons, List.not_mem_nil, or_false,
        Pattern.ofNat_eq_iff small (c := '=') (by decide),
        Pattern.ofNat_eq_iff small (c := '(') (by decide),
        Pattern.ofNat_eq_iff small (c := ')') (by decide),
        Pattern.ofNat_eq_iff small (c := ';') (by decide)] at member
      rcases member with rfl | rfl | rfl | rfl <;> exact absurd notSymbol (by decide)
    · intro isSlash
      exact noComment ((Pattern.ofNat_eq_iff small (by decide)).mp isSlash)
  · have notBlank : ¬ Rune.IsBlank c := by
      obtain ⟨b, tail, split⟩ :=
        List.exists_cons_of_ne_nil (String.utf8EncodeChar_ne_nil (c := c))
      rw [split, List.cons_append] at noneTakes isFirst
      rw [← isFirst]
      exact (noneTakes_cons_iff.mp noneTakes).2.1
    have symbolsSmall : ∀ d ∈ ['=', '(', ')', ';'], d.toNat < 0x80 := by simp
    refine .stray notBlank notQuote ?_ ?_ ?_ ?_
    · exact fun digit => ascii (Pattern.isAscii_isDigit.small c digit)
    · exact fun letter => ascii (Pattern.isAscii_isAlpha.small c letter)
    · exact fun member => ascii (symbolsSmall c member)
    · rintro rfl
      exact absurd (by decide) ascii

/-- Every input that is not empty begins with a lexeme of the grammar. -/
theorem exists_rule {input : Bytes} (nonempty : input ≠ []) :
    ∃ kind value rest, input = value ++ rest ∧ Rule kind value rest := by
  cases found : recognizers.find? (fun entry => 0 < entry.2 input) with
  | some entry =>
      obtain ⟨member, taken⟩ := of_find?_recognizers found
      obtain ⟨kind, rule⟩ := exists_rule_of_taken member taken
      exact ⟨kind, _, _, (List.take_append_drop _ _).symm, rule⟩
  | none =>
      have noneTakes := find?_recognizers_eq_none_iff.mp found
      obtain ⟨b, rest, rfl⟩ := List.exists_cons_of_ne_nil nonempty
      by_cases isQuote : b = Byte.quote
      · subst isQuote
        obtain ⟨line, after, rfl, rule⟩ := exists_rule_openText noneTakes
        exact ⟨.unknown, Byte.quote :: line, after, rfl, rule⟩
      · cases decoded : Rune.first? (b :: rest) with
        | none =>
            refine ⟨.unknown, [b], rest, rfl, .invalid ?_⟩
            intro c encoding
            rw [Rune.first?_eq_some_iff.mpr encoding] at decoded
            cases decoded
        | some c =>
            obtain ⟨after, split⟩ := Rune.first?_eq_some_iff.mp decoded
            rw [← split] at noneTakes
            refine ⟨.unknown, _, after, split.symm, rule_stray ?_ noneTakes⟩
            rintro rfl
            exact isQuote (List.cons.inj split).1.symm

/-! The scan against the grammar and the patterns -/

/-- The grammar begins an input in one way only. -/
theorem Rule.unique {kind kind' : TokenKind} {value value' rest rest' : Bytes}
    (rule : Rule kind value rest) (rule' : Rule kind' value' rest')
    (same : value ++ rest = value' ++ rest') : kind = kind' ∧ value = value' ∧ rest = rest' := by
  have isFirst := first_of_rule rule
  rw [same, first_of_rule rule', Prod.mk.injEq] at isFirst
  obtain ⟨sameKind, sameLength⟩ := isFirst
  exact ⟨sameKind.symm, List.append_inj same sameLength.symm⟩

/-- A lexeme of the grammar is scanned first, and the scan goes on behind it. -/
theorem lexemesFrom_of_rule {kind : TokenKind} {value rest : Bytes} (rule : Rule kind value rest)
    (place : Position) :
    Scanner.lexemesFrom place (value ++ rest) =
      { kind := kind, value := value, position := place } ::
        Scanner.lexemesFrom (place.advance value) rest := by
  rw [Scanner.lexemesFrom_of_ne_nil place (by simp [rule.ne_nil]), first_of_rule rule,
    List.take_left, List.drop_left]

end Lexeme

namespace Pattern

open Lexeme (recognizers)

/-- The pattern matches a piece at the front of the input that is not empty. -/
def Starts (pattern : Language Char) (input : Bytes) : Prop :=
  ∃ value rest, input = value ++ rest ∧ value ≠ [] ∧ Matches pattern value rest

/-- No piece at the front of the input that the pattern matches is longer than this one. -/
def IsLongest (pattern : Language Char) (value rest : Bytes) : Prop :=
  Matches pattern value rest ∧ ∀ other after, other ++ after = value ++ rest →
    Matches pattern other after → other.length ≤ value.length

/-- A pattern matches at the front of the input exactly if its recogniser takes something. -/
theorem Describes.starts_iff {pattern : Language Char} {length : Bytes → Nat}
    (describes : Describes pattern length) {input : Bytes} (nonempty : input ≠ []) :
    Starts pattern input ↔ 0 < length input := by
  constructor
  · rintro ⟨value, rest, rfl, someByte, isMatch⟩
    have positive := List.length_pos_iff.mpr someByte
    have bound := (describes.longest value rest isMatch).2
    omega
  · intro taken
    refine ⟨_, _, (List.take_append_drop _ _).symm, ?_, describes.taken input taken⟩
    simp [nonempty, Nat.pos_iff_ne_zero.mp taken]

theorem Describes.isLongest {pattern : Language Char} {length : Bytes → Nat}
    (describes : Describes pattern length) {input : Bytes} (taken : 0 < length input) :
    IsLongest pattern (input.take (length input)) (input.drop (length input)) := by
  refine ⟨describes.taken input taken, fun other after split isMatch => ?_⟩
  have bound := (describes.longest other after isMatch).2
  have inside := congrArg List.length split
  rw [split, List.take_append_drop] at bound
  rw [List.length_append, List.take_append_drop] at inside
  rw [List.length_take]
  omega

/-- In related lists, each member of the second is related to one of the first. -/
theorem exists_of_forall₂ {α β : Type} {R : α → β → Prop} {first : List α} {second : List β}
    (related : List.Forall₂ R first second) {b : β} (member : b ∈ second) :
    ∃ a ∈ first, R a b := by
  induction related with
  | nil => cases member
  | cons head _ ih =>
      obtain rfl | later := List.mem_cons.mp member
      · exact ⟨_, List.mem_cons_self, head⟩
      · obtain ⟨a, found, isRelated⟩ := ih later
        exact ⟨a, List.mem_cons_of_mem _ found, isRelated⟩

/-- Each pattern of the table describes the recogniser of its kind. -/
theorem exists_recognizer {kind : TokenKind} {pattern : Language Char}
    (entry : (kind, pattern) ∈ table) :
    ∃ length, (kind, length) ∈ recognizers ∧ Describes pattern length := by
  obtain ⟨⟨_, length⟩, found, rfl, describes⟩ := exists_of_forall₂ describes_table.flip entry
  exact ⟨length, found, describes⟩

/-- Each recogniser is described by the pattern of its kind. -/
theorem exists_pattern {kind : TokenKind} {length : Bytes → Nat}
    (entry : (kind, length) ∈ recognizers) :
    ∃ pattern, (kind, pattern) ∈ table ∧ Describes pattern length := by
  obtain ⟨⟨_, pattern⟩, found, rfl, describes⟩ := exists_of_forall₂ describes_table entry
  exact ⟨pattern, found, describes⟩

theorem map_fst_table : table.map Prod.fst = recognizers.map Prod.fst :=
  rfl

/-- At most one pattern of the table matches at the front of an input. -/
theorem eq_of_starts {input : Bytes} (nonempty : input ≠ [])
    {entry other : TokenKind × Language Char} (member : entry ∈ table) (otherMember : other ∈ table)
    (starts : Starts entry.2 input) (otherStarts : Starts other.2 input) : entry = other := by
  obtain ⟨length, found, describes⟩ := exists_recognizer member
  obtain ⟨otherLength, otherFound, otherDescribes⟩ := exists_recognizer otherMember
  have taken := (describes.starts_iff nonempty).mp starts
  have otherTaken := (otherDescribes.starts_iff nonempty).mp otherStarts
  obtain ⟨b, rest, rfl⟩ := List.exists_cons_of_ne_nil nonempty
  have sameKind : entry.1 = other.1 :=
    (Lexeme.opening_of_taken found taken).symm.trans (Lexeme.opening_of_taken otherFound otherTaken)
  have distinct : (table.map Prod.fst).Nodup := by
    rw [map_fst_table]
    exact Lexeme.recognizers_kinds_nodup
  exact List.inj_on_of_nodup_map distinct member otherMember sameKind

/-- The pattern that matches gives the first lexeme, as long as it can be. A word may be
reserved. -/
theorem first_of_starts {input : Bytes} (nonempty : input ≠ []) {kind : TokenKind}
    {pattern : Language Char} (entry : (kind, pattern) ∈ table) (starts : Starts pattern input) :
    (Lexeme.first input).1 =
        (if kind = .identifier then .ofWord (input.take (Lexeme.first input).2) else kind) ∧
      IsLongest pattern (input.take (Lexeme.first input).2)
        (input.drop (Lexeme.first input).2) := by
  obtain ⟨length, found, describes⟩ := exists_recognizer entry
  have taken := (describes.starts_iff nonempty).mp starts
  rw [Lexeme.first_eq_of_taken found nonempty taken]
  exact ⟨rfl, describes.isLongest taken⟩

/-- What no pattern matches is unknown. -/
theorem first_of_not_starts {input : Bytes} (nonempty : input ≠ [])
    (noneStarts : ∀ entry ∈ table, ¬ Starts entry.2 input) :
    (Lexeme.first input).1 = .unknown := by
  have noneTakes : Lexeme.NoneTakes input := by
    rintro ⟨kind, length⟩ member
    obtain ⟨pattern, found, describes⟩ := exists_pattern member
    have refused := noneStarts _ found
    rw [describes.starts_iff nonempty] at refused
    exact Nat.eq_zero_of_not_pos refused
  rw [Lexeme.first_of_noneTakes noneTakes]

end Pattern

/-- The lexeme at the front of an input, as the grammar, the scan and the patterns have it. -/
structure IsNextLexeme (input : Bytes) (kind : TokenKind) (value rest : Bytes) : Prop where
  split : input = value ++ rest
  nonempty : value ≠ []
  /-- The scan takes it from any place on, and goes on behind it. -/
  scanned : ∀ place, Scanner.lexemesFrom place input =
    { kind := kind, value := value, position := place } ::
      Scanner.lexemesFrom (place.advance value) rest
  /-- It is a lexeme of the grammar, and no other is. -/
  rule : Lexeme.Rule kind value rest
  unique : ∀ kind' value' rest', input = value' ++ rest' → Lexeme.Rule kind' value' rest' →
    kind' = kind ∧ value' = value
  /-- At most one pattern of the table matches, whatever the order of the table. -/
  onePattern : ∀ entry ∈ Pattern.table, ∀ other ∈ Pattern.table, Pattern.Starts entry.2 input →
    Pattern.Starts other.2 input → entry = other
  /-- If a pattern matches, the lexeme is its longest match; only a word may have another kind. -/
  longest : ∀ entry ∈ Pattern.table, Pattern.Starts entry.2 input →
    Pattern.IsLongest entry.2 value rest ∧
      kind = if entry.1 = .identifier then .ofWord value else entry.1
  unknown : (∀ entry ∈ Pattern.table, ¬ Pattern.Starts entry.2 input) → kind = .unknown

/-- Every input that is not empty begins with a lexeme of the grammar, which the scan takes. -/
theorem exists_isNextLexeme {input : Bytes} (nonempty : input ≠ []) :
    ∃ kind value rest, IsNextLexeme input kind value rest := by
  obtain ⟨kind, value, rest, split, rule⟩ := Lexeme.exists_rule nonempty
  have isFirst : Lexeme.first input = (kind, value.length) := by
    rw [split]
    exact Lexeme.first_of_rule rule
  have taken : input.take value.length = value := by rw [split, List.take_left]
  have left : input.drop value.length = rest := by rw [split, List.drop_left]
  refine ⟨kind, value, rest, split, rule.ne_nil, ?_, rule, ?_, ?_, ?_, ?_⟩
  · intro place
    rw [split]
    exact Lexeme.lexemesFrom_of_rule rule place
  · intro kind' value' rest' split' rule'
    obtain ⟨sameKind, sameValue, _⟩ := rule'.unique rule (split'.symm.trans split)
    exact ⟨sameKind, sameValue⟩
  · intro entry member other otherMember starts otherStarts
    exact Pattern.eq_of_starts nonempty member otherMember starts otherStarts
  · intro entry member starts
    obtain ⟨sameKind, isLongest⟩ := Pattern.first_of_starts nonempty member starts
    rw [isFirst, taken] at sameKind
    rw [isFirst, taken, left] at isLongest
    exact ⟨isLongest, sameKind⟩
  · intro noneStarts
    have unknown := Pattern.first_of_not_starts nonempty noneStarts
    rwa [isFirst] at unknown

/-- An escaped quote does not close a text. -/
theorem exists_isNextLexeme_text : Lexeme.quoted (utf8 "a\\\"b") ++ utf8 ";" ≠ [] ∧
    IsNextLexeme (Lexeme.quoted (utf8 "a\\\"b") ++ utf8 ";") .text
      (Lexeme.quoted (utf8 "a\\\"b")) (utf8 ";") := by
  have nonempty : Lexeme.quoted (utf8 "a\\\"b") ++ utf8 ";" ≠ [] := by decide
  have isText : Lexeme.first (Lexeme.quoted (utf8 "a\\\"b") ++ utf8 ";") =
      (.text, (Lexeme.quoted (utf8 "a\\\"b")).length) := by
    decide +kernel
  obtain ⟨kind, value, rest, next⟩ := exists_isNextLexeme nonempty
  have isFirst := Lexeme.first_of_rule next.rule
  rw [← next.split, isText, Prod.mk.injEq] at isFirst
  obtain ⟨rfl, length⟩ := isFirst
  obtain ⟨rfl, rfl⟩ := List.append_inj next.split length
  exact ⟨nonempty, next⟩

end VarPrint
