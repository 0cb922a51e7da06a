/-
# Shapes of lexemes

The bytes of a word, a numeral, a text and a comment are described here without a recogniser. For
each of them there are two facts: what the recogniser takes has the shape, and a piece of that shape
is taken whole when nothing behind it could continue it. The first lexeme of an input is then known
from its shape alone, because no two recognisers take inputs that begin with the same byte.
-/

import VarPrint.Token.Scan
import VarPrint.Proofs.Text.Blank
import Mathlib.Data.List.TakeWhile

namespace VarPrint

/-- The text does not begin with a byte of the class. -/
def Bytes.Stops (p : UInt8 → Bool) (text : Bytes) : Prop :=
  ∀ b ∈ text.head?, p b = false

namespace Bytes.Stops

variable {p : UInt8 → Bool} {text run : Bytes}

theorem cons {b : UInt8} (outside : p b = false) (rest : Bytes) : Stops p (b :: rest) := by
  intro c head
  cases head
  exact outside

theorem takeWhile_eq_nil (stops : Stops p text) : text.takeWhile p = [] := by
  cases text with
  | nil => rfl
  | cons b rest => rw [List.takeWhile_cons_of_neg (by simp [stops b rfl])]

/-- A run of bytes of the class ends where the text behind it stops. -/
theorem takeWhile_append (stops : Stops p text) (all : ∀ b ∈ run, p b = true) :
    (run ++ text).takeWhile p = run := by
  rw [List.takeWhile_append_of_pos all, stops.takeWhile_eq_nil, List.append_nil]

end Bytes.Stops

namespace Lexeme

open Bytes

/-- A letter, then letters, digits and low lines. -/
def IsWord : Bytes → Prop
  | [] => False
  | b :: rest => Byte.isLetter b = true ∧ ∀ c ∈ rest, isNameByte c = true

/-- One or more digits. -/
def IsDigits (text : Bytes) : Prop :=
  text ≠ [] ∧ ∀ b ∈ text, Byte.isDigit b = true

/-- Digits, or digits on both sides of a point. -/
inductive IsNumeral : Bytes → Prop
  | whole {digits : Bytes} (isDigits : IsDigits digits) : IsNumeral digits
  | decimal {whole fraction : Bytes} (isWhole : IsDigits whole) (isFraction : IsDigits fraction) :
      IsNumeral (whole ++ Byte.dot :: fraction)

/-- What may stand between two quotes on one line: plain bytes, and backslashes each of which takes
the next byte with it. -/
inductive IsTextBody : Bytes → Prop
  | nil : IsTextBody []
  | plain {b : UInt8} {rest : Bytes} (notQuote : b ≠ Byte.quote) (notBackslash : b ≠ Byte.backslash)
      (notLineFeed : b ≠ Byte.lineFeed) (isBody : IsTextBody rest) : IsTextBody (b :: rest)
  | escaped {b : UInt8} {rest : Bytes} (notLineFeed : b ≠ Byte.lineFeed)
      (isBody : IsTextBody rest) : IsTextBody (Byte.backslash :: b :: rest)

/-- The content of a text between quotes. -/
def quoted (content : Bytes) : Bytes :=
  Byte.quote :: (content ++ [Byte.quote])

/-- A byte that stands for itself in a text. -/
def IsPlainByte (b : UInt8) : Prop :=
  b ≠ Byte.quote ∧ b ≠ Byte.backslash ∧ b ≠ Byte.lineFeed

theorem isPlainByte_of_wide {b : UInt8} (wide : 0x80 ≤ b) : IsPlainByte b := by
  have other {c : UInt8} (small : c < 0x80) : b ≠ c := by
    rintro rfl
    exact absurd small (UInt8.not_lt.mpr wide)
  exact ⟨other (by decide), other (by decide), other (by decide)⟩

/-- Plain bytes in front of the content of a text make no difference. -/
theorem isTextBody_plain_append_iff {run : Bytes} (plain : ∀ b ∈ run, IsPlainByte b)
    (tail : Bytes) : IsTextBody (run ++ tail) ↔ IsTextBody tail := by
  induction run with
  | nil => rfl
  | cons b run ih =>
      rw [List.forall_mem_cons] at plain
      obtain ⟨⟨notQuote, notBackslash, notLineFeed⟩, others⟩ := plain
      rw [← ih others, List.cons_append]
      generalize run ++ tail = rest
      constructor
      · intro isBody
        cases isBody with
        | plain _ _ _ isBody => exact isBody
        | escaped => exact absurd rfl notBackslash
      · exact .plain notQuote notBackslash notLineFeed

/-- A text ends on the line where it begins. -/
theorem IsTextBody.lineFeed_not_mem {content : Bytes} (isBody : IsTextBody content) :
    Byte.lineFeed ∉ content := by
  induction isBody with
  | nil => simp
  | plain _ _ notLineFeed _ ih =>
      rw [List.mem_cons, not_or]
      exact ⟨notLineFeed.symm, ih⟩
  | escaped notLineFeed _ ih =>
      rw [List.mem_cons, List.mem_cons, not_or, not_or]
      exact ⟨by decide, notLineFeed.symm, ih⟩

theorem IsWord.ne_nil {word : Bytes} (isWord : IsWord word) : word ≠ [] := by
  rintro rfl
  exact isWord

theorem IsNumeral.ne_nil {numeral : Bytes} (isNumeral : IsNumeral numeral) : numeral ≠ [] := by
  cases isNumeral with
  | whole isDigits => exact isDigits.1
  | decimal => simp

/-! Words -/

theorem wordLength_append {word rest : Bytes} (isWord : IsWord word)
    (stops : Stops isNameByte rest) : wordLength (word ++ rest) = word.length := by
  cases word with
  | nil => cases isWord
  | cons b tail =>
      rw [List.cons_append, wordLength, if_pos isWord.1, stops.takeWhile_append isWord.2,
        List.length_cons, Nat.add_comm]

theorem isWord_take_wordLength {input : Bytes} (taken : 0 < wordLength input) :
    IsWord (input.take (wordLength input)) := by
  cases input with
  | nil => cases taken
  | cons b rest =>
      rw [wordLength] at taken ⊢
      split at taken
      · next letter =>
          rw [if_pos letter, Nat.add_comm, List.take_succ_cons]
          refine ⟨letter, fun c member => ?_⟩
          rw [← List.prefix_iff_eq_take.mp (List.takeWhile_prefix _)] at member
          exact List.mem_takeWhile_imp member
      · cases taken

/-! Numerals -/

theorem digitsLength_append {digits rest : Bytes} (isDigits : ∀ b ∈ digits, Byte.isDigit b = true)
    (stops : Stops Byte.isDigit rest) : digitsLength (digits ++ rest) = digits.length := by
  rw [digitsLength, stops.takeWhile_append isDigits]

theorem take_digitsLength (input : Bytes) :
    input.take (digitsLength input) = input.takeWhile Byte.isDigit :=
  (List.prefix_iff_eq_take.mp (List.takeWhile_prefix _)).symm

theorem isDigits_take_digitsLength {input : Bytes} (taken : 0 < digitsLength input) :
    IsDigits (input.take (digitsLength input)) := by
  rw [take_digitsLength]
  exact ⟨List.length_pos_iff.mp taken, fun b member => List.mem_takeWhile_imp member⟩

/-- A byte that could continue a numeral. -/
def isNumeralByte (b : UInt8) : Bool :=
  Byte.isDigit b || b == Byte.dot

theorem stops_isDigit {rest : Bytes} (stops : Stops isNumeralByte rest) :
    Stops Byte.isDigit rest :=
  fun b head => (Bool.or_eq_false_iff.mp (stops b head)).1

theorem fractionLength_of_stops {rest : Bytes} (stops : Stops isNumeralByte rest) :
    fractionLength rest = 0 := by
  cases rest with
  | nil => rfl
  | cons b tail =>
      have notDot := (Bool.or_eq_false_iff.mp (stops b rfl)).2
      rw [fractionLength, if_neg]
      rintro ⟨rfl, _⟩
      cases notDot

theorem fractionLength_dot {fraction rest : Bytes} (isFraction : IsDigits fraction)
    (stops : Stops Byte.isDigit rest) :
    fractionLength (Byte.dot :: (fraction ++ rest)) = 1 + fraction.length := by
  rw [fractionLength, digitsLength_append isFraction.2 stops,
    if_pos ⟨rfl, List.length_pos_iff.mpr isFraction.1⟩]

/-- The digits in front of an input, and what is left behind them. -/
theorem numberLength_digits {digits rest : Bytes} (isDigits : IsDigits digits)
    (stops : Stops Byte.isDigit rest) :
    numberLength (digits ++ rest) = digits.length + fractionLength rest := by
  have nonempty : digits.length ≠ 0 := mt List.length_eq_zero_iff.mp isDigits.1
  unfold numberLength
  rw [digitsLength_append isDigits.2 stops]
  dsimp only
  rw [if_neg nonempty, List.drop_left]

theorem numberLength_append {numeral rest : Bytes} (isNumeral : IsNumeral numeral)
    (stops : Stops isNumeralByte rest) : numberLength (numeral ++ rest) = numeral.length := by
  cases isNumeral with
  | whole isDigits =>
      rw [numberLength_digits isDigits (stops_isDigit stops), fractionLength_of_stops stops,
        Nat.add_zero]
  | @decimal whole fraction isWhole isFraction =>
      rw [List.append_assoc, List.cons_append, numberLength_digits isWhole (.cons rfl _),
        fractionLength_dot isFraction (stops_isDigit stops), List.length_append, List.length_cons,
        Nat.add_comm 1]

/-- A fraction is taken only if it is a point and digits. -/
theorem take_fractionLength {rest : Bytes} (taken : 0 < fractionLength rest) :
    ∃ fraction, IsDigits fraction ∧ rest.take (fractionLength rest) = Byte.dot :: fraction := by
  cases rest with
  | nil => cases taken
  | cons b tail =>
      rw [fractionLength] at taken ⊢
      split at taken
      · next fits =>
          obtain ⟨rfl, digits⟩ := fits
          refine ⟨_, isDigits_take_digitsLength digits, ?_⟩
          rw [if_pos ⟨rfl, digits⟩, Nat.add_comm, List.take_succ_cons]
      · cases taken

theorem isNumeral_take_numberLength {input : Bytes} (taken : 0 < numberLength input) :
    IsNumeral (input.take (numberLength input)) := by
  unfold numberLength at taken ⊢
  dsimp only at taken ⊢
  by_cases empty : digitsLength input = 0
  · rw [if_pos empty] at taken
    cases taken
  · rw [if_neg empty, List.take_add]
    have isWhole := isDigits_take_digitsLength (Nat.pos_of_ne_zero empty)
    by_cases noFraction : fractionLength (input.drop (digitsLength input)) = 0
    · rw [noFraction, List.take_zero, List.append_nil]
      exact .whole isWhole
    · obtain ⟨fraction, isFraction, split⟩ := take_fractionLength (Nat.pos_of_ne_zero noFraction)
      rw [split]
      exact .decimal isWhole isFraction

/-! Texts -/

theorem closingQuote?_quote (rest : Bytes) : closingQuote? (Byte.quote :: rest) = some 1 := by
  rw [closingQuote?.eq_def]
  dsimp only
  rw [if_pos rfl]

theorem closingQuote?_plain {b : UInt8} (notQuote : b ≠ Byte.quote)
    (notBackslash : b ≠ Byte.backslash) (notLineFeed : b ≠ Byte.lineFeed) (rest : Bytes) :
    closingQuote? (b :: rest) = (closingQuote? rest).map (· + 1) := by
  rw [closingQuote?.eq_def]
  dsimp only
  rw [if_neg notQuote, if_neg notLineFeed, if_neg notBackslash]

theorem closingQuote?_escaped {b : UInt8} (notLineFeed : b ≠ Byte.lineFeed) (rest : Bytes) :
    closingQuote? (Byte.backslash :: b :: rest) = (closingQuote? rest).map (· + 2) := by
  rw [closingQuote?.eq_def]
  dsimp only
  rw [if_neg (by decide), if_neg (by decide), if_pos rfl, if_neg notLineFeed]

/-- A text is closed by the first quote that no backslash takes. -/
theorem closingQuote?_append {content : Bytes} (isBody : IsTextBody content) (rest : Bytes) :
    closingQuote? (content ++ Byte.quote :: rest) = some (content.length + 1) := by
  induction isBody with
  | nil => exact closingQuote?_quote rest
  | plain notQuote notBackslash notLineFeed _ ih =>
      rw [List.cons_append, closingQuote?_plain notQuote notBackslash notLineFeed, ih]
      rfl
  | escaped notLineFeed _ ih =>
      rw [List.cons_append, List.cons_append, closingQuote?_escaped notLineFeed, ih]
      rfl

/-- What stands before the quote that closes a text is the content of a text. -/
theorem exists_of_closingQuote? {input : Bytes} {length : Nat}
    (closed : closingQuote? input = some length) :
    ∃ content rest, IsTextBody content ∧ input = content ++ Byte.quote :: rest ∧
      length = content.length + 1 := by
  fun_induction closingQuote? input generalizing length with
  | case1 => cases closed
  | case2 rest => exact ⟨[], rest, .nil, rfl, (Option.some.inj closed).symm⟩
  | case3 => cases closed
  | case4 => cases closed
  | case5 => cases closed
  | case6 escaped rest notLineFeed _ _ ih =>
      obtain ⟨inner, closedInside, rfl⟩ := Option.map_eq_some_iff.mp closed
      obtain ⟨content, after, isBody, rfl, rfl⟩ := ih closedInside
      exact ⟨_, after, .escaped notLineFeed isBody, rfl, rfl⟩
  | case7 b rest notQuote notLineFeed notBackslash ih =>
      obtain ⟨inner, closedInside, rfl⟩ := Option.map_eq_some_iff.mp closed
      obtain ⟨content, after, isBody, rfl, rfl⟩ := ih closedInside
      exact ⟨_, after, .plain notQuote notBackslash notLineFeed isBody, rfl, rfl⟩

theorem length_quoted (content : Bytes) : (quoted content).length = content.length + 2 := by
  simp [quoted]

theorem textLength_append {content : Bytes} (isBody : IsTextBody content) (rest : Bytes) :
    textLength (quoted content ++ rest) = (quoted content).length := by
  have split : quoted content ++ rest = Byte.quote :: (content ++ Byte.quote :: rest) := by
    simp [quoted]
  rw [split, textLength, if_pos rfl, closingQuote?_append isBody, length_quoted]
  rfl

theorem take_textLength {input : Bytes} (taken : 0 < textLength input) :
    ∃ content, IsTextBody content ∧ input.take (textLength input) = quoted content := by
  cases input with
  | nil => cases taken
  | cons b rest =>
      rw [textLength] at taken
      split at taken
      · next isQuote =>
          subst isQuote
          cases closed : closingQuote? rest with
          | none =>
              rw [closed] at taken
              cases taken
          | some length =>
              obtain ⟨content, after, isBody, rfl, rfl⟩ := exists_of_closingQuote? closed
              have split : Byte.quote :: (content ++ Byte.quote :: after) =
                  quoted content ++ after := by
                simp [quoted]
              rw [split, textLength_append isBody, List.take_left]
              exact ⟨content, isBody, rfl⟩
      · cases taken

/-! Lines -/

/-- A line ends here: nothing follows, or a line feed does. -/
def AtLineEnd (rest : Bytes) : Prop :=
  ∀ b ∈ rest.head?, b = Byte.lineFeed

theorem stops_of_atLineEnd {rest : Bytes} (ended : AtLineEnd rest) :
    Stops (fun b => b ≠ Byte.lineFeed) rest := by
  intro b head
  simp [ended b head]

theorem lineLength_append {line rest : Bytes} (oneLine : Byte.lineFeed ∉ line)
    (ended : AtLineEnd rest) : lineLength (line ++ rest) = line.length := by
  have inside : ∀ b ∈ line, decide (b ≠ Byte.lineFeed) = true := by
    intro b member
    exact decide_eq_true fun isLineFeed => oneLine (isLineFeed ▸ member)
  rw [lineLength, (stops_of_atLineEnd ended).takeWhile_append inside]

/-- The line in front of an input, and what is left behind it. -/
theorem exists_line (input : Bytes) :
    ∃ line rest, input = line ++ rest ∧ Byte.lineFeed ∉ line ∧ AtLineEnd rest := by
  refine ⟨input.takeWhile (· ≠ Byte.lineFeed), input.dropWhile (· ≠ Byte.lineFeed),
    List.takeWhile_append_dropWhile.symm, ?_, ?_⟩
  · intro member
    simpa using List.mem_takeWhile_imp member
  · intro b head
    have stopped := List.head?_dropWhile_not (· ≠ Byte.lineFeed) input
    rw [head] at stopped
    simpa using stopped

theorem commentLength_append {body rest : Bytes} (oneLine : Byte.lineFeed ∉ body)
    (ended : AtLineEnd rest) :
    commentLength (Byte.slash :: Byte.slash :: (body ++ rest)) = body.length + 2 := by
  rw [commentLength, if_pos ⟨rfl, rfl⟩, lineLength_append oneLine ended, Nat.add_comm]

/-- A comment is taken from two slashes to the end of their line. -/
theorem exists_of_commentLength {input : Bytes} (taken : 0 < commentLength input) :
    ∃ body rest, input = Byte.slash :: Byte.slash :: (body ++ rest) ∧ Byte.lineFeed ∉ body ∧
      AtLineEnd rest := by
  match input with
  | [] => cases taken
  | [b] => cases taken
  | first :: second :: tail =>
      rw [commentLength] at taken
      split at taken
      · next slashes =>
          obtain ⟨rfl, rfl⟩ := slashes
          obtain ⟨body, rest, rfl, oneLine, ended⟩ := exists_line tail
          exact ⟨body, rest, rfl, oneLine, ended⟩
      · cases taken

end Lexeme
end VarPrint
