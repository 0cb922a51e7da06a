/-
# Which recogniser takes the first lexeme

The first byte of an input decides which recogniser can take anything from it, so the order in
which they are asked never matters. A piece of a known shape that nothing behind it continues is
therefore the first lexeme, and the first lexeme of any input has the shape that its kind says.
-/

import VarPrint.Proofs.Text.Byte
import VarPrint.Proofs.Token.Shape
import Mathlib.Data.List.Nodup

namespace VarPrint.Lexeme

open Bytes

/-- The kind of the only recogniser that can take anything from an input that begins with a byte. -/
def opening (b : UInt8) : TokenKind :=
  if b = Byte.slash then .comment
  else if b = Byte.quote then .text
  else if Byte.isDigit b then .number
  else if Byte.isLetter b then .identifier
  else if b = 0x3D then .assign
  else if b = 0x28 then .leftParen
  else if b = 0x29 then .rightParen
  else if b = 0x3B then .semicolon
  else .blank

theorem opening_of_isDigit {b : UInt8} (digit : Byte.isDigit b = true) : opening b = .number := by
  unfold opening
  rw [if_neg (Byte.ne_of_class digit rfl), if_neg (Byte.ne_of_class digit rfl), if_pos digit]

theorem opening_of_isLetter {b : UInt8} (letter : Byte.isLetter b = true) :
    opening b = .identifier := by
  unfold opening
  rw [if_neg (Byte.ne_of_class letter rfl), if_neg (Byte.ne_of_class letter rfl),
    if_neg (by simp [Byte.isDigit_of_isLetter letter]), if_pos letter]

/-- A byte that is not visible opens nothing but a run of blanks. -/
theorem opening_of_not_isVisible {b : UInt8} (hidden : ¬ Byte.IsVisible b) :
    opening b = .blank := by
  have ne {c : UInt8} (visible : Byte.IsVisible c) : b ≠ c := by
    rintro rfl
    exact hidden visible
  unfold opening
  rw [if_neg (ne (by decide)), if_neg (ne (by decide)), if_neg (hidden ∘ Byte.isVisible_of_isDigit),
    if_neg (hidden ∘ Byte.isVisible_of_isLetter), if_neg (ne (by decide)), if_neg (ne (by decide)),
    if_neg (ne (by decide)), if_neg (ne (by decide))]

theorem opening_of_blankLength {b : UInt8} {rest : Bytes} (taken : 0 < blankLength (b :: rest)) :
    opening b = .blank := by
  apply opening_of_not_isVisible
  intro visible
  rw [blankLength_of_isVisible visible] at taken
  cases taken

theorem opening_of_commentLength {b : UInt8} {rest : Bytes}
    (taken : 0 < commentLength (b :: rest)) : opening b = .comment := by
  cases rest with
  | nil => cases taken
  | cons second tail =>
      rw [commentLength] at taken
      split at taken
      · next slashes =>
          rw [slashes.1]
          rfl
      · cases taken

theorem opening_of_textLength {b : UInt8} {rest : Bytes} (taken : 0 < textLength (b :: rest)) :
    opening b = .text := by
  rw [textLength] at taken
  split at taken
  · next isQuote =>
      rw [isQuote]
      rfl
  · cases taken

theorem opening_of_wordLength {b : UInt8} {rest : Bytes} (taken : 0 < wordLength (b :: rest)) :
    opening b = .identifier := by
  rw [wordLength] at taken
  split at taken
  · next letter => exact opening_of_isLetter letter
  · cases taken

theorem opening_of_numberLength {b : UInt8} {rest : Bytes} (taken : 0 < numberLength (b :: rest)) :
    opening b = .number := by
  apply opening_of_isDigit
  by_contra other
  have none : digitsLength (b :: rest) = 0 := by
    rw [digitsLength, List.takeWhile_cons_of_neg other, List.length_nil]
  unfold numberLength at taken
  dsimp only at taken
  rw [if_pos none] at taken
  cases taken

theorem opening_of_symbolLength {symbol b : UInt8} {rest : Bytes}
    (taken : 0 < symbolLength symbol (b :: rest)) : opening b = opening symbol := by
  rw [symbolLength] at taken
  split at taken
  · next same => rw [same]
  · cases taken

/-- The first byte of an input decides which recogniser can take anything from it. -/
theorem opening_of_taken {kind : TokenKind} {length : Bytes → Nat} {b : UInt8} {rest : Bytes}
    (entry : (kind, length) ∈ recognizers) (taken : 0 < length (b :: rest)) :
    opening b = kind := by
  simp only [recognizers, List.mem_cons, Prod.mk.injEq, List.not_mem_nil, or_false] at entry
  obtain ⟨rfl, rfl⟩ | ⟨rfl, rfl⟩ | ⟨rfl, rfl⟩ | ⟨rfl, rfl⟩ | ⟨rfl, rfl⟩ | ⟨rfl, rfl⟩ | ⟨rfl, rfl⟩ |
    ⟨rfl, rfl⟩ | ⟨rfl, rfl⟩ := entry
  · exact opening_of_commentLength taken
  · exact opening_of_blankLength taken
  · exact opening_of_textLength taken
  · exact opening_of_numberLength taken
  · exact opening_of_wordLength taken
  · exact opening_of_symbolLength taken
  · exact opening_of_symbolLength taken
  · exact opening_of_symbolLength taken
  · exact opening_of_symbolLength taken

theorem of_find?_recognizers {kind : TokenKind} {length : Bytes → Nat} {input : Bytes}
    (found : recognizers.find? (fun entry => 0 < entry.2 input) = some (kind, length)) :
    (kind, length) ∈ recognizers ∧ 0 < length input := by
  have taken := List.find?_some found
  exact ⟨List.mem_of_find?_eq_some found, of_decide_eq_true taken⟩

theorem recognizers_kinds_nodup : (recognizers.map Prod.fst).Nodup := by
  decide

/-- The recogniser that takes anything from an input is the one that is found. -/
theorem find?_recognizers {kind : TokenKind} {length : Bytes → Nat} {input : Bytes}
    (entry : (kind, length) ∈ recognizers) (nonempty : input ≠ []) (taken : 0 < length input) :
    recognizers.find? (fun entry => 0 < entry.2 input) = some (kind, length) := by
  obtain ⟨b, rest, rfl⟩ := List.exists_cons_of_ne_nil nonempty
  cases found : recognizers.find? (fun entry => 0 < entry.2 (b :: rest)) with
  | none =>
      have refused := List.find?_eq_none.mp found _ entry
      exact absurd (decide_eq_true taken) refused
  | some other =>
      obtain ⟨otherEntry, otherTaken⟩ := of_find?_recognizers found
      have sameKind : other.1 = kind :=
        (opening_of_taken otherEntry otherTaken).symm.trans (opening_of_taken entry taken)
      have same := List.inj_on_of_nodup_map recognizers_kinds_nodup otherEntry entry sameKind
      exact congrArg some same

/-- The first lexeme is what its recogniser takes. Only a word may have another kind. -/
theorem first_eq_of_taken {kind : TokenKind} {length : Bytes → Nat} {input : Bytes}
    (entry : (kind, length) ∈ recognizers) (nonempty : input ≠ []) (taken : 0 < length input) :
    first input =
      (if kind = .identifier then .ofWord (input.take (length input)) else kind, length input) := by
  rw [first, find?_recognizers entry nonempty taken]
  split
  · next same => cases same; rfl
  · next noWord same => cases same; rw [if_neg noWord]
  · next same => cases same

theorem first_of_taken {kind : TokenKind} {length : Bytes → Nat} {input : Bytes}
    (entry : (kind, length) ∈ recognizers) (noWord : kind ≠ .identifier) (nonempty : input ≠ [])
    (taken : 0 < length input) : first input = (kind, length input) := by
  rw [first_eq_of_taken entry nonempty taken, if_neg noWord]

theorem first_word {word rest : Bytes} (isWord : IsWord word) (stops : Stops isNameByte rest) :
    first (word ++ rest) = (.ofWord word, word.length) := by
  have length := wordLength_append isWord stops
  have nonempty := isWord.ne_nil
  have taken : 0 < wordLength (word ++ rest) := by
    rw [length]
    exact List.length_pos_iff.mpr nonempty
  have entry : (.identifier, wordLength) ∈ recognizers := by simp [recognizers]
  rw [first_eq_of_taken entry (by simp [nonempty]) taken, if_pos rfl, length, List.take_left]

theorem isWord_var : IsWord (utf8 "var") :=
  ⟨rfl, List.all_eq_true.mp rfl⟩

theorem isWord_print : IsWord (utf8 "print") :=
  ⟨rfl, List.all_eq_true.mp rfl⟩

theorem first_numeral {numeral rest : Bytes} (isNumeral : IsNumeral numeral)
    (stops : Stops isNumeralByte rest) : first (numeral ++ rest) = (.number, numeral.length) := by
  have length := numberLength_append isNumeral stops
  have nonempty := isNumeral.ne_nil
  rw [first_of_taken (by simp [recognizers] : (.number, numberLength) ∈ recognizers) (by decide)
    (by simp [nonempty]) (by rw [length]; exact List.length_pos_iff.mpr nonempty), length]

theorem first_quoted {content : Bytes} (isBody : IsTextBody content) (rest : Bytes) :
    first (quoted content ++ rest) = (.text, (quoted content).length) := by
  have length := textLength_append isBody rest
  rw [first_of_taken (by simp [recognizers] : (.text, textLength) ∈ recognizers) (by decide)
    (by simp [quoted]) (by rw [length, length_quoted]; omega), length]

/-- A symbol is a lexeme of its own, whatever follows it. -/
theorem first_symbol {kind : TokenKind} {symbol : UInt8}
    (entry : (kind, symbolLength symbol) ∈ recognizers) (noWord : kind ≠ .identifier)
    (rest : Bytes) : first (symbol :: rest) = (kind, 1) := by
  have length : symbolLength symbol (symbol :: rest) = 1 := by
    rw [symbolLength, if_pos rfl]
  rw [first_of_taken entry noWord (by simp) (by rw [length]; exact Nat.one_pos), length]

theorem first_blank {input : Bytes} (nonempty : input ≠ []) (taken : 0 < blankLength input) :
    first input = (.blank, blankLength input) :=
  first_of_taken (by simp [recognizers]) (by decide) nonempty taken

/-- The bytes of a lexeme are such as its kind says. Nothing is said here of blanks, comments and
what no recogniser takes. -/
def WellShaped (lexeme : Lexeme) : Prop :=
  match lexeme.kind with
  | .varWord => lexeme.value = utf8 "var"
  | .printWord => lexeme.value = utf8 "print"
  | .identifier => IsWord lexeme.value ∧ TokenKind.ofWord lexeme.value = .identifier
  | .assign => lexeme.value = utf8 "="
  | .number => IsNumeral lexeme.value
  | .text => ∃ content, IsTextBody content ∧ lexeme.value = quoted content
  | .leftParen => lexeme.value = utf8 "("
  | .rightParen => lexeme.value = utf8 ")"
  | .semicolon => lexeme.value = utf8 ";"
  | .endOfInput => lexeme.value = []
  | .comment | .blank | .unknown => True
  | .other _ => False

theorem wellShaped_word {word : Bytes} (isWord : IsWord word) :
    WellShaped ⟨.ofWord word, word⟩ := by
  unfold TokenKind.ofWord
  split
  · next isVar => exact isVar
  · next notVar =>
      split
      · next isPrint => exact isPrint
      · next notPrint => exact ⟨isWord, by rw [TokenKind.ofWord, if_neg notVar, if_neg notPrint]⟩

theorem take_symbolLength {symbol : UInt8} {input : Bytes} (taken : 0 < symbolLength symbol input) :
    input.take (symbolLength symbol input) = [symbol] := by
  cases input with
  | nil => cases taken
  | cons b rest =>
      rw [symbolLength] at taken ⊢
      split at taken
      · next same => rw [if_pos same, same, List.take_succ_cons, List.take_zero]
      · cases taken

/-- The first lexeme of an input takes something. -/
theorem first_pos {input : Bytes} (nonempty : input ≠ []) : 0 < (first input).2 := by
  rw [first]
  split
  · next found => exact (of_find?_recognizers found).2
  · next found => exact (of_find?_recognizers found).2
  · rw [unknownLength]
    split
    · next head =>
        obtain ⟨b, rest, rfl⟩ := List.exists_cons_of_ne_nil nonempty
        cases head
        rw [lineLength, List.takeWhile_cons_of_pos (by decide), List.length_cons]
        exact Nat.succ_pos _
    · exact Rune.width_pos input

/-- The first lexeme of an input has the shape that its kind says. -/
theorem wellShaped_first (input : Bytes) :
    WellShaped ⟨(first input).1, input.take (first input).2⟩ := by
  cases found : recognizers.find? (fun entry => 0 < entry.2 input) with
  | none =>
      rw [first, found]
      trivial
  | some entry =>
      obtain ⟨kind, length⟩ := entry
      obtain ⟨member, taken⟩ := of_find?_recognizers found
      rw [first, found]
      simp only [recognizers, List.mem_cons, Prod.mk.injEq, List.not_mem_nil, or_false] at member
      obtain ⟨rfl, rfl⟩ | ⟨rfl, rfl⟩ | ⟨rfl, rfl⟩ | ⟨rfl, rfl⟩ | ⟨rfl, rfl⟩ | ⟨rfl, rfl⟩ |
        ⟨rfl, rfl⟩ | ⟨rfl, rfl⟩ | ⟨rfl, rfl⟩ := member
      · trivial
      · trivial
      · exact take_textLength taken
      · exact isNumeral_take_numberLength taken
      · exact wellShaped_word (isWord_take_wordLength taken)
      · exact take_symbolLength taken
      · exact take_symbolLength taken
      · exact take_symbolLength taken
      · exact take_symbolLength taken

end VarPrint.Lexeme
