/-
# Values on a given text

The values that a configuration is written with are read from the front of their line: a text between
quotes, a whole number, and a truth value. The rules are tried in order, so each of these is reached
only where the rules before it fail. A text with an escape that reading refuses is no value at all.
-/

import VarPrint.Proofs.Text.Quoted
import VarPrint.Proofs.Toml.Rule
import VarPrint.Toml.Grammar

namespace VarPrint.Toml.Grammar

open Rule
open Bytes (asciiRunes)

theorem isNewline_of_le {c : Char} (visible : ' ' ≤ c) : isNewline c = false := by
  rw [isNewline, Bool.or_eq_false_iff, beq_eq_false_iff_ne, beq_eq_false_iff_ne]
  constructor
  · rintro rfl
    exact absurd visible (by decide)
  · rintro rfl
    exact absurd visible (by decide)

theorem isNewline_of_isDigit {c : Char} (isDigit : isDigit c = true) : isNewline c = false := by
  rw [Grammar.isDigit, Bool.and_eq_true, decide_eq_true_eq] at isDigit
  exact isNewline_of_le (Char.le_trans (by decide) isDigit.1)

theorem isDigit_of_isPositiveDigit {c : Char} (positive : isPositiveDigit c = true) :
    isDigit c = true := by
  rw [isPositiveDigit, Bool.and_eq_true, decide_eq_true_eq, decide_eq_true_eq] at positive
  rw [isDigit, Bool.and_eq_true, decide_eq_true_eq, decide_eq_true_eq]
  exact ⟨Char.le_trans (by decide) positive.1, positive.2⟩

theorem isPositiveDigit_of_ne {c : Char} (isDigit : isDigit c = true) (notZero : c ≠ '0') :
    isPositiveDigit c = true := by
  rw [Grammar.isDigit, Bool.and_eq_true, decide_eq_true_eq, decide_eq_true_eq] at isDigit
  rw [isPositiveDigit, Bool.and_eq_true, decide_eq_true_eq, decide_eq_true_eq]
  have other : '0' ≠ c := notZero.symm
  exact ⟨Nat.lt_of_le_of_ne isDigit.1 fun same => other (Char.toNat_inj.mp same), isDigit.2⟩

theorem ne_of_isDigit {c other : Char} (digit : isDigit c = true)
    (notDigit : isDigit other = false) : c ≠ other := by
  rintro rfl
  exact Bool.noConfusion (digit.symm.trans notDigit)

section OtherThanNumbers

variable {text : List Char} {line : Nat}

/-- No number begins here: no digit and no sign. -/
def NoNumber (text : List Char) : Prop :=
  ∀ c ∈ text.head?, isDigit c = false ∧ isSign c = false

theorem number_of_noNumber {count : Nat} (noNumber : NoNumber text) :
    number (count + 1) ⟨text, line⟩ = none := by
  have noDigit : digit ⟨text, line⟩ = none :=
    satisfy_of_stops (fun c isFirst => (noNumber c isFirst).1) line
  exact bind_of_none (bind_of_none noDigit)

theorem moment_of_noNumber (noNumber : NoNumber text) : moment ⟨text, line⟩ = none := by
  have noDate : date ⟨text, line⟩ = none := bind_of_none (number_of_noNumber noNumber)
  have noClock : clock ⟨text, line⟩ = none := bind_of_none (number_of_noNumber noNumber)
  rw [moment, orElse_of_none (bind_of_none noDate)]
  exact bind_of_none noClock

theorem sign_of_ne (noSign : ∀ c ∈ text.head?, isSign c = false) :
    sign ⟨text, line⟩ = some ((), ⟨text, line⟩) :=
  bind_of_some (perhaps_of_none (satisfy_of_stops noSign line))

theorem integer_of_noNumber (noNumber : NoNumber text) : integer ⟨text, line⟩ = none := by
  have noDigit : digit ⟨text, line⟩ = none :=
    satisfy_of_stops (fun c isFirst => (noNumber c isFirst).1) line
  have notPositive : satisfy isPositiveDigit ⟨text, line⟩ = none := by
    apply satisfy_of_stops
    intro c isFirst
    apply Bool.eq_false_iff.mpr
    intro positive
    exact absurd (isDigit_of_isPositiveDigit positive) (Bool.eq_false_iff.mp (noNumber c isFirst).1)
  have noSign : sign ⟨text, line⟩ = some ((), ⟨text, line⟩) :=
    sign_of_ne fun c isFirst => (noNumber c isFirst).2
  have noSeveral : severalDigits ⟨text, line⟩ = none := bind_of_none notPositive
  rw [integer, bind_of_some noSign, orElse_of_none noSeveral]
  exact bind_of_none noDigit

/-- Where no number begins, a scalar is a text or a truth value. -/
theorem scalar_of_noNumber (noNumber : NoNumber text) :
    scalar ⟨text, line⟩ = (Grammar.text <|> boolean) ⟨text, line⟩ := by
  have noInteger : integer ⟨text, line⟩ = none := integer_of_noNumber noNumber
  have noFloat : float ⟨text, line⟩ = none := bind_of_none noInteger
  have noMoment : moment ⟨text, line⟩ = none := moment_of_noNumber noNumber
  rw [scalar, orElse_of_none (bind_of_none (captured_of_none noMoment)),
    orElse_of_none (bind_of_none (captured_of_none noFloat)),
    orElse_of_none (bind_of_none (captured_of_none noInteger))]

end OtherThanNumbers

section Texts

variable {rest : List Char} {line : Nat}

/-- Behind a quote that is followed by something else, there is a text on one line or none. -/
theorem text_of_quote (single : rest.head? ≠ some '"') :
    text ⟨'"' :: rest, line⟩ = (quotedBody ⟨'"' :: rest, line⟩).map fun (body, after) =>
      (.text body true after.line, after) := by
  have noLiteralLines : literalLines ⟨'"' :: rest, line⟩ = none :=
    bind_of_none (word_of_ne (by simp) line)
  have noLiteralText : literalText ⟨'"' :: rest, line⟩ = none :=
    bind_of_none (char_of_ne (by simp) line)
  have noMark : quotedMark ⟨'"' :: rest, line⟩ = none := by
    rw [quotedMark, word, bind_of_some (char_self rfl rest line)]
    exact word_of_ne single line
  have noLines : quotedLines ⟨'"' :: rest, line⟩ = none := bind_of_none noMark
  rw [text, bind_eq, orElse_of_none (bind_of_none noLiteralLines),
    orElse_of_none (bind_of_none noLiteralText), orElse_of_none (bind_of_none noLines), bind_eq]
  cases quotedBody ⟨'"' :: rest, line⟩ <;> rfl

theorem text_of_noMark (noQuote : rest.head? ≠ some '"') (noApostrophe : rest.head? ≠ some '\'') :
    text ⟨rest, line⟩ = none := by
  have noLiteralLines : literalLines ⟨rest, line⟩ = none :=
    bind_of_none (word_of_ne noApostrophe line)
  have noLiteralText : literalText ⟨rest, line⟩ = none :=
    bind_of_none (char_of_ne noApostrophe line)
  have noLines : quotedLines ⟨rest, line⟩ = none := bind_of_none (word_of_ne noQuote line)
  have noBody : quotedBody ⟨rest, line⟩ = none := bind_of_none (char_of_ne noQuote line)
  apply bind_of_none
  rw [orElse_of_none (bind_of_none noLiteralLines), orElse_of_none (bind_of_none noLiteralText),
    orElse_of_none (bind_of_none noLines)]
  exact bind_of_none noBody

theorem hexDigit_hexDigits {count value : Nat} {c : Char}
    (member : c ∈ asciiRunes (Bytes.hexDigits count value)) :
    isHexDigit c = true ∧ isNewline c = false := by
  have table : ∀ digit < 16, isHexDigit (Char.ofNat (Bytes.hexDigit digit).toNat) = true ∧
      isNewline (Char.ofNat (Bytes.hexDigit digit).toNat) = false := by
    decide
  obtain ⟨b, isDigit, rfl⟩ := List.mem_map.mp member
  obtain ⟨digit, small, rfl⟩ := Bytes.exists_of_mem_hexDigits isDigit
  exact table digit small

theorem times_hexDigit (count value : Nat) :
    times count hexDigit ⟨asciiRunes (Bytes.hexDigits count value) ++ rest, line⟩ =
      some (asciiRunes (Bytes.hexDigits count value), ⟨rest, line⟩) := by
  have length : (asciiRunes (Bytes.hexDigits count value)).length = count := by
    rw [asciiRunes, List.length_map, Bytes.length_hexDigits]
  have taken := times_satisfy_of_le (fun _ => hexDigit_hexDigits) (Nat.le_of_eq length.symm)
    rest line
  rwa [List.take_of_length_le (Nat.le_of_eq length), List.drop_of_length_le (Nat.le_of_eq length)]
    at taken

/-- Behind a backslash, only the escapes are tried. -/
theorem basicChar_of_backslash : basicChar ⟨'\\' :: rest, line⟩ = escape ⟨rest, line⟩ := by
  have notPlain : satisfy isPlainChar ⟨'\\' :: rest, line⟩ = none := satisfy_of_neg rfl rest line
  rw [basicChar, orElse_of_none (bind_of_none notPlain)]
  exact bind_of_some (char_self rfl rest line)

/-- A chunk is taken as it is written. -/
theorem basicChar_chunk {c : Char} {chunk : List Char} (isChunk : Quoted.Chunk c chunk)
    (rest : List Char) (line : Nat) :
    basicChar ⟨chunk ++ rest, line⟩ = some (chunk, ⟨rest, line⟩) := by
  cases isChunk with
  | plain visible notQuote notBackslash =>
      have plain : isPlainChar c = true := by
        simp [isPlainChar, visible, notQuote, notBackslash]
      exact orElse_of_some (bind_of_some (satisfy_of_pos plain (isNewline_of_le visible) rest line))
  | @letter letter isLetter =>
      have known : isEscapeLetter letter = true ∧ isNewline letter = false := by
        revert isLetter
        unfold Quoted.letterRune?
        split <;> simp [isEscapeLetter, isNewline]
      show basicChar ⟨'\\' :: letter :: rest, line⟩ = _
      rw [basicChar_of_backslash]
      exact orElse_of_some (bind_of_some (satisfy_of_pos known.1 known.2 rest line))
  | short =>
      have notLetter : satisfy isEscapeLetter
          ⟨'u' :: (asciiRunes (Bytes.hexDigits 4 c.toNat) ++ rest), line⟩ = none :=
        satisfy_of_neg rfl _ line
      rw [List.cons_append, basicChar_of_backslash, List.cons_append, escape,
        orElse_of_none (bind_of_none notLetter)]
      apply orElse_of_some
      rw [bind_of_some (char_self rfl _ line), bind_of_some (times_hexDigit 4 _)]
      rfl
  | long =>
      have notLetter : satisfy isEscapeLetter
          ⟨'U' :: (asciiRunes (Bytes.hexDigits 8 c.toNat) ++ rest), line⟩ = none :=
        satisfy_of_neg rfl _ line
      rw [List.cons_append, basicChar_of_backslash, List.cons_append, escape,
        orElse_of_none (bind_of_none notLetter),
        orElse_of_none (bind_of_none (char_of_ne (by simp) line))]
      rw [bind_of_some (char_self rfl _ line), bind_of_some (times_hexDigit 8 _)]
      rfl

theorem basicChar_quote : basicChar ⟨'"' :: rest, line⟩ = none := by
  have notPlain : satisfy isPlainChar ⟨'"' :: rest, line⟩ = none := satisfy_of_neg rfl rest line
  rw [basicChar, orElse_of_none (bind_of_none notPlain)]
  exact bind_of_none (char_of_ne (by simp) line)

theorem basicChar_refused (refused : Quoted.Refused rest) : basicChar ⟨rest, line⟩ = none := by
  obtain ⟨letter, unknown, others, rfl⟩ := refused
  have other : isEscapeLetter letter = false ∧ letter ≠ 'u' ∧ letter ≠ 'U' := by
    simp only [List.mem_cons, List.not_mem_nil, or_false] at unknown
    obtain rfl | rfl | rfl := unknown <;> simp [isEscapeLetter]
  have notLetter : satisfy isEscapeLetter ⟨letter :: others, line⟩ = none :=
    satisfy_of_neg other.1 others line
  have notShort : char 'u' ⟨letter :: others, line⟩ = none :=
    char_of_ne (by simpa using other.2.1) line
  have notLong : char 'U' ⟨letter :: others, line⟩ = none :=
    char_of_ne (by simpa using other.2.2) line
  rw [basicChar_of_backslash, escape, orElse_of_none (bind_of_none notLetter),
    orElse_of_none (bind_of_none notShort)]
  exact bind_of_none notLong

section Chunks

variable {chunks : List (Char × List Char)} (areChunks : Quoted.AreChunks chunks)

include areChunks

/-- The chunks of a text are taken one by one, up to where their rule fails. -/
theorem many_basicChar (failed : basicChar ⟨rest, line⟩ = none) :
    many basicChar ⟨chunks.flatMap Prod.snd ++ rest, line⟩ =
      some (chunks.map Prod.snd, ⟨rest, line⟩) := by
  apply many_of_pieces _ failed
  intro chunk member
  have isChunk := areChunks chunk member
  exact ⟨isChunk.ne_nil, fun after => basicChar_chunk isChunk after line⟩

theorem quotedBody_chunks : quotedBody ⟨'"' :: (chunks.flatMap Prod.snd ++ '"' :: rest), line⟩ =
    some (chunks.flatMap Prod.snd, ⟨rest, line⟩) := by
  rw [quotedBody, bind_of_some (char_self rfl _ line),
    bind_of_some (many_basicChar areChunks basicChar_quote),
    bind_of_some (char_self rfl rest line), List.flatMap]
  rfl

theorem quotedBody_refused (refused : Quoted.Refused rest) :
    quotedBody ⟨'"' :: (chunks.flatMap Prod.snd ++ rest), line⟩ = none := by
  rw [quotedBody, bind_of_some (char_self rfl _ line),
    bind_of_some (many_basicChar areChunks (basicChar_refused refused))]
  obtain ⟨letter, _, others, rfl⟩ := refused
  exact bind_of_none (char_of_ne (by simp) line)

/-- No chunk begins with a quote. -/
theorem head?_chunks_ne_quote (noQuote : chunks = [] → rest.head? ≠ some '"') :
    (chunks.flatMap Prod.snd ++ rest).head? ≠ some '"' := by
  cases chunks with
  | nil => exact noQuote rfl
  | cons chunk chunks =>
      obtain ⟨c, written⟩ := chunk
      have isChunk : Quoted.Chunk c written := areChunks _ List.mem_cons_self
      cases isChunk with
      | plain _ notQuote _ => simpa using notQuote
      | letter => simp
      | short => simp
      | long => simp

end Chunks

end Texts

section Digits

variable {digits after : List Char} {line : Nat}

theorem digit_of_isDigit {c : Char} (isDigit : isDigit c = true) (rest : List Char) (line : Nat) :
    digit ⟨c :: rest, line⟩ = some (c, ⟨rest, line⟩) :=
  satisfy_of_pos isDigit (isNewline_of_isDigit isDigit) rest line

theorem laterDigit_of_isDigit {c : Char} (isDigit : isDigit c = true) (rest : List Char)
    (line : Nat) : laterDigit ⟨c :: rest, line⟩ = some (c, ⟨rest, line⟩) :=
  orElse_of_some (digit_of_isDigit isDigit rest line)

theorem laterDigit_newline : laterDigit ⟨'\n' :: after, line⟩ = none := by
  have noDigit : digit ⟨'\n' :: after, line⟩ = none := satisfy_of_neg rfl after line
  rw [laterDigit, orElse_of_none noDigit]
  exact bind_of_none (char_of_ne (by simp) line)

/-- A whole number is read up to the end of its line. -/
theorem integer_digits {first : Char} {later : List Char} (isDigit : isDigit first = true)
    (areDigits : ∀ c ∈ later, Grammar.isDigit c = true) (noZero : first = '0' → later = [])
    (after : List Char) (line : Nat) :
    integer ⟨first :: (later ++ '\n' :: after), line⟩ = some ((), ⟨'\n' :: after, line⟩) := by
  have noSign : ∀ c ∈ (first :: (later ++ '\n' :: after)).head?, isSign c = false := by
    rintro c ⟨⟩
    rw [isSign, Bool.or_eq_false_iff, beq_eq_false_iff_ne, beq_eq_false_iff_ne]
    exact ⟨ne_of_isDigit isDigit rfl, ne_of_isDigit isDigit rfl⟩
  rw [integer, bind_of_some (sign_of_ne noSign)]
  cases later with
  | nil =>
      -- Several digits are tried in vain, whether or not this one could be the first of them.
      have single : severalDigits ⟨first :: '\n' :: after, line⟩ = none := by
        by_cases positive : isPositiveDigit first = true
        · rw [severalDigits, bind_of_some (satisfy_of_pos positive (isNewline_of_isDigit isDigit) _ line)]
          exact bind_of_none (many1_of_none laterDigit_newline)
        · exact bind_of_none (satisfy_of_neg (Bool.eq_false_iff.mpr positive) _ line)
      rw [List.nil_append, orElse_of_none single]
      exact bind_of_some (digit_of_isDigit isDigit _ line)
  | cons second later =>
      rw [List.forall_mem_cons] at areDigits
      have positive : isPositiveDigit first = true :=
        isPositiveDigit_of_ne isDigit fun isZero => List.cons_ne_nil _ _ (noZero isZero)
      have taken : many laterDigit ⟨later ++ '\n' :: after, line⟩ =
          some (later, ⟨'\n' :: after, line⟩) :=
        many_of_runes (fun c member rest => laterDigit_of_isDigit (areDigits.2 c member) rest line)
          laterDigit_newline
      apply orElse_of_some
      rw [severalDigits,
        bind_of_some (satisfy_of_pos positive (isNewline_of_isDigit isDigit) _ line)]
      exact bind_of_some (many1_of_some (laterDigit_of_isDigit areDigits.1 _ line) taken)

/-- Behind a count of digits there is another digit or the end of the line, but no mark. -/
theorem number_bind_char {α : Type} {count : Nat} {mark : Char} {next : Nat → Unit → Rule α}
    (areDigits : ∀ c ∈ digits, isDigit c = true) (notDigit : isDigit mark = false)
    (notNewline : '\n' ≠ mark) :
    (number count >>= fun value => char mark >>= next value) ⟨digits ++ '\n' :: after, line⟩ =
      none := by
  have plain : ∀ c ∈ digits, isDigit c = true ∧ isNewline c = false :=
    fun c member => ⟨areDigits c member, isNewline_of_isDigit (areDigits c member)⟩
  by_cases enough : count ≤ digits.length
  · have noMark : (digits.drop count ++ '\n' :: after).head? ≠ some mark := by
      cases left : digits.drop count with
      | nil => simpa using notNewline
      | cons c rest =>
          have member : c ∈ digits := List.mem_of_mem_drop (left ▸ List.mem_cons_self)
          simpa using ne_of_isDigit (areDigits c member) notDigit
    have taken : times count digit ⟨digits ++ '\n' :: after, line⟩ =
        some (digits.take count, ⟨digits.drop count ++ '\n' :: after, line⟩) :=
      times_satisfy_of_le plain enough _ line
    rw [bind_of_some (bind_of_some taken)]
    exact bind_of_none (char_of_ne noMark line)
  · have failed : times count digit ⟨digits ++ '\n' :: after, line⟩ = none :=
      times_satisfy_of_lt plain (Nat.lt_of_not_le enough) (by rintro c ⟨⟩; rfl) line
    exact bind_of_none (bind_of_none failed)

theorem moment_digits (areDigits : ∀ c ∈ digits, isDigit c = true) :
    moment ⟨digits ++ '\n' :: after, line⟩ = none := by
  have noDate : date ⟨digits ++ '\n' :: after, line⟩ = none :=
    number_bind_char areDigits rfl (by decide)
  have noClock : clock ⟨digits ++ '\n' :: after, line⟩ = none :=
    number_bind_char areDigits rfl (by decide)
  rw [moment, orElse_of_none (bind_of_none noDate)]
  exact bind_of_none noClock

theorem float_of_integer {text : List Char}
    (read : integer ⟨text, line⟩ = some ((), ⟨'\n' :: after, line⟩)) :
    float ⟨text, line⟩ = none := by
  have noFraction : fraction ⟨'\n' :: after, line⟩ = none :=
    bind_of_none (char_of_ne (by simp) line)
  have noExponent : exponent ⟨'\n' :: after, line⟩ = none :=
    bind_of_none (satisfy_of_neg rfl after line)
  rw [float, bind_of_some read, orElse_of_none (bind_of_none noFraction),
    bind_of_some (perhaps_of_none noFraction)]
  exact noExponent

end Digits

section Values

variable {line : Nat}

theorem value_of_scalar {cursor after : Cursor} {read : Value}
    (isScalar : scalar cursor = some (read, after)) : value cursor = some (read, after) := by
  rw [value]
  exact orElse_of_some isScalar

theorem value_of_none {text : List Char} (noScalar : scalar ⟨text, line⟩ = none)
    (noArray : text.head? ≠ some '[') (noTable : text.head? ≠ some '\x7b') :
    value ⟨text, line⟩ = none := by
  have noBrackets : ∀ inner, array inner ⟨text, line⟩ = none :=
    fun _ => bind_of_none (char_of_ne noArray line)
  have noBraces : ∀ inner, inlineTable inner ⟨text, line⟩ = none :=
    fun _ => bind_of_none (char_of_ne noTable line)
  rw [value]
  dsimp only
  rw [orElse_of_none noScalar, orElse_of_none (noBrackets _)]
  exact noBraces _

/-- What is written is read as a value up to the end of its line. -/
def Reads (written : List Char) (read : Nat → Value) : Prop :=
  ∀ after line, value ⟨written ++ '\n' :: after, line⟩ = some (read line, ⟨'\n' :: after, line⟩)

theorem noNumber_cons {c : Char} {rest : List Char} (notDigit : isDigit c = false)
    (notSign : isSign c = false) : NoNumber (c :: rest) := by
  rintro d ⟨⟩
  exact ⟨notDigit, notSign⟩

theorem reads_chunks {chunks : List (Char × List Char)} (areChunks : Quoted.AreChunks chunks)
    (nonempty : chunks ≠ []) :
    Reads ('"' :: (chunks.flatMap Prod.snd ++ ['"'])) (.text (chunks.flatMap Prod.snd) true) := by
  intro after line
  rw [List.cons_append, List.append_assoc, List.singleton_append]
  apply value_of_scalar
  rw [scalar_of_noNumber (noNumber_cons rfl rfl)]
  apply orElse_of_some
  rw [text_of_quote (head?_chunks_ne_quote areChunks fun empty => absurd empty nonempty),
    quotedBody_chunks areChunks, Option.map_some]

theorem value_refused {chunks : List (Char × List Char)} {rest : List Char}
    (areChunks : Quoted.AreChunks chunks) (refused : Quoted.Refused rest) :
    value ⟨'"' :: (chunks.flatMap Prod.snd ++ rest), line⟩ = none := by
  have noQuote : rest.head? ≠ some '"' := by
    obtain ⟨letter, _, others, rfl⟩ := refused
    simp
  have noText : text ⟨'"' :: (chunks.flatMap Prod.snd ++ rest), line⟩ = none := by
    rw [text_of_quote (head?_chunks_ne_quote areChunks fun _ => noQuote),
      quotedBody_refused areChunks refused, Option.map_none]
  apply value_of_none
  · rw [scalar_of_noNumber (noNumber_cons rfl rfl), orElse_of_none noText, boolean,
      orElse_of_none (bind_of_none (word_of_ne (by simp) line))]
    exact bind_of_none (word_of_ne (by simp) line)
  · simp
  · simp

theorem reads_digits {first : Char} {later : List Char} (isDigit : isDigit first = true)
    (areDigits : ∀ c ∈ later, Grammar.isDigit c = true) (noZero : first = '0' → later = []) :
    Reads (first :: later) fun _ => .integer (first :: later) := by
  intro after line
  have isInteger : integer ⟨first :: later ++ '\n' :: after, line⟩ =
      some ((), ⟨'\n' :: after, line⟩) :=
    integer_digits isDigit areDigits noZero after line
  have noMoment : moment ⟨first :: later ++ '\n' :: after, line⟩ = none :=
    moment_digits (List.forall_mem_cons.mpr ⟨isDigit, areDigits⟩)
  apply value_of_scalar
  rw [scalar, orElse_of_none (bind_of_none (captured_of_none noMoment)),
    orElse_of_none (bind_of_none (captured_of_none (float_of_integer isInteger)))]
  exact orElse_of_some (bind_of_some (captured_of_some isInteger))

theorem reads_true : Reads ['t', 'r', 'u', 'e'] fun _ => .boolean true := by
  intro after line
  have noNumber : NoNumber (['t', 'r', 'u', 'e'] ++ '\n' :: after) := noNumber_cons rfl rfl
  have noText : text ⟨['t', 'r', 'u', 'e'] ++ '\n' :: after, line⟩ = none :=
    text_of_noMark (by simp) (by simp)
  apply value_of_scalar
  rw [scalar_of_noNumber noNumber, orElse_of_none noText]
  apply orElse_of_some
  exact bind_of_some (word_append (by simp [isNewline]) _ line)

theorem reads_false : Reads ['f', 'a', 'l', 's', 'e'] fun _ => .boolean false := by
  intro after line
  have noNumber : NoNumber (['f', 'a', 'l', 's', 'e'] ++ '\n' :: after) := noNumber_cons rfl rfl
  have noText : text ⟨['f', 'a', 'l', 's', 'e'] ++ '\n' :: after, line⟩ = none :=
    text_of_noMark (by simp) (by simp)
  apply value_of_scalar
  rw [scalar_of_noNumber noNumber, orElse_of_none noText, boolean,
    orElse_of_none (bind_of_none (word_of_ne (by simp) line))]
  exact bind_of_some (word_append (by simp [isNewline]) _ line)

end Values

end VarPrint.Toml.Grammar
