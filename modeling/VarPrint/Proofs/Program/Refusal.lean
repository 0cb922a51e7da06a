/-
# The first escape that is refused

The escapes that a text may hold form a language, written down here byte for byte: a backslash with
a letter, with an octal digit, or with marks and four hexadecimal digits for a unit that is not
forbidden. A text that is made of them and of bytes other than a backslash is accepted. In any other
text there is a backslash where that comes to an end: what is in front of it is accepted, and no
escape begins at it.

No escape is the beginning of another one. A text can therefore be taken apart in one way only, and
there is at most one such backslash, which the search finds although it moves on by steps of several
bytes and takes octal digits along that could as well be left to the rest of the text.
-/

import VarPrint.Proofs.Program.Escape
import VarPrint.Proofs.Program.Places
import VarPrint.Proofs.Program.WellFormed
import Mathlib.Computability.Language
import Mathlib.Data.Nat.Digits.Defs
import Mathlib.Order.Bounds.Defs
import Mathlib.Tactic.IntervalCases

namespace VarPrint.Escape

open scoped Computability
open Lexeme (IsTextBody)

/-- One of some bytes. -/
def oneOf (bytes : Bytes) : Language UInt8 :=
  {word | ∃ b ∈ bytes, word = [b]}

/-- The digit of either case that a number below sixteen is written with. -/
def IsHexDigit (b : UInt8) (value : Nat) : Prop :=
  value < 16 ∧ (b.toNat = (Nat.digitChar value).toNat ∨
    b.toNat = (Nat.digitChar value).toUpper.toNat)

/-- Four hexadecimal digits, but not those of a line feed, a carriage return, a quote or a
backslash. -/
def units : Language UInt8 :=
  {word | ∃ values : List Nat, word.length = 4 ∧ List.Forall₂ IsHexDigit word values ∧
    ∀ c ∈ ['\n', '\r', '"', '\\'], Nat.ofDigits 16 values.reverse ≠ c.toNat}

/-- The escapes that a text may hold. -/
def escapes : Language UInt8 :=
  {utf8 "\\"} *
    (oneOf (utf8 "btnfrs\"'\\") + oneOf (utf8 "01234567") + {utf8 "u"} * {utf8 "u"}∗ * units)

/-- One byte that is no backslash. -/
def plain : Language UInt8 :=
  {word | ∃ b ≠ Byte.backslash, word = [b]}

/-- Texts of escapes and of bytes that are no backslash. -/
def accepted : Language UInt8 :=
  (plain + escapes)∗

/-- A place where a text stops being accepted: there is a backslash, and it begins no escape, but
what is in front of it is accepted. -/
structure RefusedAt (content : Bytes) (start : Nat) : Prop where
  backslash : content[start]? = some Byte.backslash
  before : content.take start ∈ accepted
  noEscape : ∀ escape ∈ escapes, ¬ escape <+: content.drop start

/-- Where a refused escape ends. -/
def Bad.stop (bad : Bad) : Nat :=
  bad.start + bad.bytes.length

/-! The language and the rules -/

/-- The codes of the sixteen digits, in lower and in upper case. -/
theorem toNat_digitChar {value : Nat} (small : value < 16) :
    value < 10 ∧ (Nat.digitChar value).toNat = 0x30 + value ∧
        (Nat.digitChar value).toUpper.toNat = 0x30 + value ∨
      10 ≤ value ∧ (Nat.digitChar value).toNat = 0x57 + value ∧
        (Nat.digitChar value).toUpper.toNat = 0x37 + value := by
  interval_cases value <;> decide

theorem hexValue?_eq_some_iff {b : UInt8} {value : Nat} :
    Byte.hexValue? b = some value ↔ IsHexDigit b value := by
  simp only [Byte.hexValue?, Byte.isDigit_iff, Bool.and_eq_true, decide_eq_true_eq,
    UInt8.le_iff_toNat_le, UInt8.reduceToNat, IsHexDigit]
  constructor
  · intro digit
    have small : value < 16 := by
      split_ifs at digit <;> cases digit <;> omega
    have codes := toNat_digitChar small
    refine ⟨small, ?_⟩
    split_ifs at digit <;> cases digit <;> omega
  · rintro ⟨small, written⟩
    have codes := toNat_digitChar small
    split_ifs
    · exact Option.some_inj.mpr (by omega)
    · exact Option.some_inj.mpr (by omega)
    · exact Option.some_inj.mpr (by omega)
    · omega

/-- The value of four digits is the number that they are written for. -/
theorem hexQuad?_eq_some_iff {quad : Bytes} {unit : Nat} :
    hexQuad? quad = some unit ↔ ∃ values : List Nat, quad.length = 4 ∧
      List.Forall₂ IsHexDigit quad values ∧ Nat.ofDigits 16 values.reverse = unit := by
  constructor
  · intro value
    obtain ⟨a, b, c, d, rfl, w, x, y, z, first, second, third, fourth, rfl⟩ :=
      exists_of_hexQuad? value
    rw [hexValue?_eq_some_iff] at first second third fourth
    refine ⟨[w, x, y, z], rfl, ?_, ?_⟩
    · exact .cons first (.cons second (.cons third (.cons fourth .nil)))
    · simp only [List.reverse_cons, List.reverse_nil, List.nil_append, List.cons_append,
        Nat.ofDigits_cons, Nat.ofDigits_nil]
      omega
  · rintro ⟨values, length, digits, rfl⟩
    match quad, digits with
    | [a, b, c, d], .cons first (.cons second (.cons third (.cons fourth .nil))) =>
      rw [← hexValue?_eq_some_iff] at first second third fourth
      simp only [hexQuad?, first, second, third, fourth, Option.bind_eq_bind, Option.bind_some,
        Option.pure_def, Option.some.injEq, List.reverse_cons, List.reverse_nil, List.nil_append,
        List.cons_append, Nat.ofDigits_cons, Nat.ofDigits_nil]
      omega

theorem mem_units_iff {word : Bytes} :
    word ∈ units ↔ ∃ unit, hexQuad? word = some unit ∧ isForbiddenUnit unit = false := by
  have allowed (unit : Nat) : isForbiddenUnit unit = false ↔
      ∀ c ∈ ['\n', '\r', '"', '\\'], unit ≠ c.toNat := by
    simp [isForbiddenUnit, and_assoc]
  simp only [hexQuad?_eq_some_iff, allowed]
  constructor
  · rintro ⟨values, length, digits, other⟩
    exact ⟨_, ⟨values, length, digits, rfl⟩, other⟩
  · rintro ⟨_, ⟨values, length, digits, rfl⟩, other⟩
    exact ⟨values, length, digits, other⟩

theorem mem_marks_iff {word : Bytes} :
    word ∈ ({utf8 "u"} : Language UInt8)∗ ↔ ∃ more, word = List.replicate more mark := by
  have flatten (more : Nat) : (List.replicate more (utf8 "u")).flatten = List.replicate more mark :=
    List.flatten_replicate_singleton
  rw [Language.mem_kstar]
  constructor
  · rintro ⟨marks, rfl, all⟩
    refine ⟨marks.length, ?_⟩
    rw [← flatten, ← List.eq_replicate_of_mem all]
  · rintro ⟨more, rfl⟩
    exact ⟨_, (flatten more).symm, fun _ => List.eq_of_mem_replicate⟩

theorem mem_octal_iff {b : UInt8} : b ∈ utf8 "01234567" ↔ Byte.isOctal b = true := by
  have digits : utf8 "01234567" = [0x30, 0x31, 0x32, 0x33, 0x34, 0x35, 0x36, 0x37] := rfl
  simp only [digits, List.mem_cons, List.not_mem_nil, or_false, ← UInt8.toNat_inj,
    UInt8.reduceToNat, Byte.isOctal_iff]
  omega

/-- The language of escapes has the escapes that the rules give. -/
theorem mem_escapes_iff {escape : Bytes} : escape ∈ escapes ↔ IsEscape escape := by
  constructor
  · intro member
    obtain ⟨_, rfl, _, behind, rfl⟩ := Language.mem_mul.mp member
    rcases behind with (⟨b, isLetter, rfl⟩ | ⟨b, isDigit, rfl⟩) | unicode
    · exact .letter isLetter
    · exact .octal (mem_octal_iff.mp isDigit)
    · obtain ⟨_, isMarks, quad, isUnit, rfl⟩ := Language.mem_mul.mp unicode
      obtain ⟨_, rfl, _, isOthers, rfl⟩ := Language.mem_mul.mp isMarks
      obtain ⟨more, rfl⟩ := mem_marks_iff.mp isOthers
      obtain ⟨unit, value, allowed⟩ := mem_units_iff.mp isUnit
      exact .unicode more value allowed
  · intro isEscape
    cases isEscape with
    | letter isLetter =>
        refine Language.mem_mul.mpr ⟨utf8 "\\", rfl, _, ?_, rfl⟩
        exact .inl (.inl ⟨_, isLetter, rfl⟩)
    | octal isOctal =>
        refine Language.mem_mul.mpr ⟨utf8 "\\", rfl, _, ?_, rfl⟩
        exact .inl (.inr ⟨_, mem_octal_iff.mpr isOctal, rfl⟩)
    | unicode more value allowed =>
        have marks : utf8 "u" ++ List.replicate more mark ∈
            ({utf8 "u"} * {utf8 "u"}∗ : Language UInt8) :=
          Language.append_mem_mul rfl (mem_marks_iff.mpr ⟨more, rfl⟩)
        have isUnit := mem_units_iff.mpr ⟨_, value, allowed⟩
        refine Language.mem_mul.mpr ⟨utf8 "\\", rfl, _, ?_, rfl⟩
        exact .inr (Language.append_mem_mul marks isUnit)

/-- One more piece in front of an accepted text. -/
theorem append_mem_accepted {piece rest : Bytes} (isPiece : piece ∈ plain + escapes)
    (others : rest ∈ accepted) : piece ++ rest ∈ accepted := by
  have longer : (plain + escapes) * (plain + escapes)∗ ≤ (plain + escapes)∗ := mul_kstar_le_kstar
  exact longer (Language.append_mem_mul isPiece others)

/-- The accepted texts are the clean ones. -/
theorem mem_accepted_iff {content : Bytes} : content ∈ accepted ↔ IsClean content := by
  constructor
  · intro member
    obtain ⟨pieces, rfl, all⟩ := Language.mem_kstar.mp member
    clear member
    induction pieces with
    | nil => exact .nil
    | cons piece pieces ih =>
        rw [List.forall_mem_cons] at all
        rw [List.flatten_cons]
        rcases all.1 with ⟨b, notBackslash, rfl⟩ | isEscape
        · exact .plain notBackslash (ih all.2)
        · exact .escape (mem_escapes_iff.mp isEscape) (ih all.2)
  · intro clean
    induction clean with
    | nil => exact Language.nil_mem_kstar _
    | @plain b rest notBackslash _ ih =>
        exact append_mem_accepted (.inl ⟨b, notBackslash, rfl⟩) ih
    | escape isEscape _ ih => exact append_mem_accepted (.inr (mem_escapes_iff.mpr isEscape)) ih

/-! Escapes are a prefix code -/

theorem mark_not_mem_letters : mark ∉ letters := by decide

theorem mark_not_octal : ¬ Byte.isOctal mark = true := by decide

/-- Marks in front of a quad are followed by a digit, so both are found in a text. -/
theorem marks_unique {more more' : Nat} {quad quad' rest rest' : Bytes} {unit unit' : Nat}
    (value : hexQuad? quad = some unit) (value' : hexQuad? quad' = some unit')
    (same : List.replicate more mark ++ (quad ++ rest) =
      List.replicate more' mark ++ (quad' ++ rest')) : more = more' ∧ quad = quad' := by
  have noMark {quad rest tail : Bytes} {unit : Nat} (value : hexQuad? quad = some unit) :
      quad ++ rest ≠ mark :: tail := by
    obtain ⟨a, b, c, d, rfl, w, x, y, z, first, _⟩ := exists_of_hexQuad? value
    intro same
    rw [List.cons_append, List.cons.injEq] at same
    rw [same.1] at first
    cases first
  induction more generalizing more' with
  | zero =>
      rw [List.replicate_zero, List.nil_append] at same
      cases more' with
      | zero =>
          rw [List.replicate_zero, List.nil_append] at same
          obtain ⟨a, b, c, d, rfl, _⟩ := exists_of_hexQuad? value
          obtain ⟨a', b', c', d', rfl, _⟩ := exists_of_hexQuad? value'
          exact ⟨rfl, (List.append_inj same rfl).1⟩
      | succ more' => exact absurd same (noMark value)
  | succ more ih =>
      cases more' with
      | zero =>
          rw [List.replicate_zero, List.nil_append] at same
          exact absurd same.symm (noMark value')
      | succ more' =>
          obtain ⟨rfl, sameQuad⟩ := ih (List.cons.inj same).2
          exact ⟨rfl, sameQuad⟩

/-- An escape is two bytes without a mark, or it has marks and a quad. -/
theorem IsEscape.shape {escape : Bytes} (isEscape : IsEscape escape) :
    (∃ b, b ≠ mark ∧ escape = [Byte.backslash, b]) ∨
      ∃ more quad unit, hexQuad? quad = some unit ∧
        escape = Byte.backslash :: mark :: (List.replicate more mark ++ quad) := by
  cases isEscape with
  | letter isLetter =>
      exact .inl ⟨_, fun isMark => mark_not_mem_letters (isMark ▸ isLetter), rfl⟩
  | octal isOctal =>
      exact .inl ⟨_, fun isMark => mark_not_octal (isMark ▸ isOctal), rfl⟩
  | unicode more value => exact .inr ⟨more, _, _, value, rfl⟩

/-- No escape is the beginning of another one. -/
theorem IsEscape.eq_of_append_eq {first second rest rest' : Bytes} (isFirst : IsEscape first)
    (isSecond : IsEscape second) (same : first ++ rest = second ++ rest') : first = second := by
  rcases isFirst.shape with ⟨b, notMark, rfl⟩ | ⟨more, quad, unit, value, rfl⟩
  · rcases isSecond.shape with ⟨b', notMark', rfl⟩ | ⟨more', quad', unit', value', rfl⟩
    · exact (List.append_inj same rfl).1
    · exact absurd (List.cons.inj (List.cons.inj same).2).1 notMark
  · rcases isSecond.shape with ⟨b', notMark', rfl⟩ | ⟨more', quad', unit', value', rfl⟩
    · exact absurd (List.cons.inj (List.cons.inj same).2).1.symm notMark'
    · have behind := (List.cons.inj (List.cons.inj same).2).2
      rw [List.append_eq, List.append_eq, List.append_assoc, List.append_assoc] at behind
      obtain ⟨rfl, rfl⟩ := marks_unique value value' behind
      rfl

/-- Behind an escape a clean text is clean. -/
theorem isClean_escape_append_iff {escape rest : Bytes} (isEscape : IsEscape escape) :
    IsClean (escape ++ rest) ↔ IsClean rest := by
  constructor
  · intro clean
    generalize whole : escape ++ rest = text at clean
    cases clean with
    | nil => exact absurd (List.append_eq_nil_iff.mp whole).1 isEscape.ne_nil
    | plain notBackslash _ =>
        cases isEscape <;> exact absurd (List.cons.inj whole).1.symm notBackslash
    | escape isOther clean =>
        obtain rfl := isEscape.eq_of_append_eq isOther whole
        rwa [List.append_cancel_left whole]
  · exact .escape isEscape

/-- In a clean text, an escape begins at every backslash in front of which the text is clean. -/
theorem IsClean.exists_escape {front behind : Bytes} (before : IsClean front)
    (clean : IsClean (front ++ Byte.backslash :: behind)) :
    ∃ escape, IsEscape escape ∧ escape <+: Byte.backslash :: behind := by
  induction before with
  | nil =>
      generalize whole : [] ++ Byte.backslash :: behind = text at clean
      cases clean with
      | nil => cases whole
      | plain notBackslash _ => exact absurd (List.cons.inj whole).1.symm notBackslash
      | escape isEscape _ => exact ⟨_, isEscape, _, whole.symm⟩
  | plain notBackslash _ ih => exact ih ((isClean_cons_iff notBackslash).mp clean)
  | escape isEscape _ ih =>
      rw [List.append_assoc] at clean
      exact ih ((isClean_escape_append_iff isEscape).mp clean)

/-! What the search finds -/

/-- Marks and an allowed quad are read as an escape, whatever follows them. -/
theorem readUnicode_of_quad (more : Nat) {quad : Bytes} {unit : Nat}
    (value : hexQuad? quad = some unit) (allowed : isForbiddenUnit unit = false) (rest : Bytes) :
    readUnicode (List.replicate (more + 1) mark ++ (quad ++ rest)) = .valid (more + 1 + 4) := by
  obtain ⟨a, b, c, d, rfl, w, x, y, z, first, _⟩ := exists_of_hexQuad? value
  have stops : Bytes.Stops (· = 0x75) ([a, b, c, d] ++ rest) := by
    refine .cons (decide_eq_false ?_) _
    rintro rfl
    cases first
  have marks : (List.replicate (more + 1) mark ++ ([a, b, c, d] ++ rest)).takeWhile (· = 0x75) =
      List.replicate (more + 1) mark :=
    stops.takeWhile_append fun b member => decide_eq_true (List.eq_of_mem_replicate member)
  have enough : ¬ ([a, b, c, d] ++ rest).length < 4 := by simp
  have digits : ([a, b, c, d] ++ rest).take 4 = [a, b, c, d] := rfl
  rw [readUnicode, marks, List.drop_left, if_neg enough, digits, value, List.length_replicate]
  exact if_neg (Bool.eq_false_iff.mp allowed)

/-- Where an escape begins, one is read. -/
theorem IsEscape.exists_read {escape rest : Bytes} (isEscape : IsEscape escape)
    (begins : escape <+: Byte.backslash :: rest) : ∃ length, read rest = .valid length := by
  obtain ⟨after, split⟩ := begins
  cases isEscape with
  | @letter b isLetter =>
      obtain ⟨_, rfl⟩ := List.cons.inj split
      exact ⟨1, if_pos isLetter⟩
  | @octal b isOctal =>
      obtain ⟨_, rfl⟩ := List.cons.inj split
      show ∃ length, read (b :: after) = .valid length
      by_cases isLetter : b ∈ letters
      · exact ⟨1, if_pos isLetter⟩
      · rw [read, if_neg isLetter, if_pos isOctal]
        exact ⟨_, rfl⟩
  | @unicode more quad unit value allowed =>
      obtain ⟨_, rfl⟩ := List.cons.inj split
      have unicode := readUnicode_of_quad more value allowed after
      rw [← List.append_assoc] at unicode
      show ∃ length, read (mark :: (List.replicate more mark ++ quad ++ after)) = .valid length
      rw [read, if_neg mark_not_mem_letters, if_neg mark_not_octal, if_pos rfl]
      exact ⟨_, unicode⟩

/-- In front of a refused escape the content is clean, and no escape begins where it does. -/
theorem exists_clean_of_findBad? {content : Bytes} {bad : Bad} (isBody : IsTextBody content)
    (found : findBad? content = some bad) :
    ∃ front behind, content = front ++ Byte.backslash :: behind ∧ front.length = bad.start ∧
      IsClean front ∧ ∀ escape, IsEscape escape → ¬ escape <+: Byte.backslash :: behind := by
  fun_induction findBad? content generalizing bad with
  | case1 => cases found
  | case2 rest length valid ih =>
      obtain ⟨later, foundLater, rfl⟩ := Option.map_eq_some_iff.mp found
      obtain ⟨isBehind, joins⟩ := isTextBody_drop_of_read isBody valid
      obtain ⟨front, behind, split, start, clean, noEscape⟩ := ih isBehind foundLater
      have bounded := length_read_le rest
      rw [valid, Reading.length] at bounded
      refine ⟨Byte.backslash :: rest.take length ++ front, behind, ?_, ?_, joins front clean,
        noEscape⟩
      · rw [List.append_assoc, ← split, List.cons_append, List.take_append_drop]
      · rw [List.length_append, List.length_cons, List.length_take_of_le bounded, start]
        change length + 1 + later.start = later.start + (1 + length)
        omega
  | case3 rest length invalid =>
      cases found
      refine ⟨[], rest, rfl, rfl, .nil, ?_⟩
      intro escape isEscape begins
      obtain ⟨length, valid⟩ := isEscape.exists_read begins
      rw [invalid] at valid
      cases valid
  | case4 b rest notBackslash ih =>
      obtain ⟨later, foundLater, rfl⟩ := Option.map_eq_some_iff.mp found
      cases isBody with
      | escaped => exact absurd rfl notBackslash
      | plain _ _ _ isBody =>
          obtain ⟨front, behind, rfl, start, clean, noEscape⟩ := ih isBody foundLater
          refine ⟨b :: front, behind, rfl, ?_, .plain notBackslash clean, noEscape⟩
          rw [List.length_cons, start]
          rfl

theorem refusedAt_iff {content : Bytes} {start : Nat} :
    RefusedAt content start ↔
      ∃ front behind, content = front ++ Byte.backslash :: behind ∧ front.length = start ∧
        IsClean front ∧ ∀ escape, IsEscape escape → ¬ escape <+: Byte.backslash :: behind := by
  constructor
  · rintro ⟨backslash, before, noEscape⟩
    obtain ⟨inside, isBackslash⟩ := List.getElem?_eq_some_iff.mp backslash
    have split : content.drop start = Byte.backslash :: content.drop (start + 1) := by
      rw [List.drop_eq_getElem_cons inside, isBackslash]
    rw [split] at noEscape
    refine ⟨content.take start, content.drop (start + 1), ?_, ?_, mem_accepted_iff.mp before, ?_⟩
    · rw [← split, List.take_append_drop]
    · exact List.length_take_of_le (Nat.le_of_lt inside)
    · exact fun escape isEscape => noEscape escape (mem_escapes_iff.mpr isEscape)
  · rintro ⟨front, behind, rfl, rfl, clean, noEscape⟩
    refine ⟨by simp, ?_, ?_⟩
    · rw [List.take_left]
      exact mem_accepted_iff.mpr clean
    · rw [List.drop_left]
      exact fun escape isEscape => noEscape escape (mem_escapes_iff.mp isEscape)

/-- An accepted text is refused nowhere. -/
theorem RefusedAt.not_mem_accepted {content : Bytes} {start : Nat}
    (refused : RefusedAt content start) : content ∉ accepted := by
  obtain ⟨front, behind, rfl, _, clean, noEscape⟩ := refusedAt_iff.mp refused
  intro isAccepted
  obtain ⟨escape, isEscape, begins⟩ := clean.exists_escape (mem_accepted_iff.mp isAccepted)
  exact noEscape escape isEscape begins

/-- No text is refused at two places, since it is accepted up to the second one. -/
theorem RefusedAt.le {content : Bytes} {start other : Nat} (refused : RefusedAt content start)
    (also : RefusedAt content other) : start ≤ other := by
  obtain ⟨front, behind, rfl, rfl, clean, _⟩ := refusedAt_iff.mp refused
  obtain ⟨earlier, rest, split, rfl, cleanEarlier, noEscape⟩ := refusedAt_iff.mp also
  apply Nat.le_of_not_lt
  intro shorter
  rcases List.append_eq_append_iff.mp split with ⟨middle, longer, _⟩ | ⟨middle, rfl, tail⟩
  · rw [longer, List.length_append] at shorter
    omega
  · cases middle with
    | nil =>
        rw [List.append_nil] at shorter
        exact absurd shorter (Nat.lt_irrefl _)
    | cons b middle =>
        rw [List.cons_append, List.cons.injEq] at tail
        obtain ⟨rfl, rfl⟩ := tail
        obtain ⟨escape, isEscape, begins⟩ := cleanEarlier.exists_escape clean
        exact noEscape escape isEscape (begins.trans ⟨_, List.cons_append⟩)

/-- Between the quotes of a text token there is what may stand between quotes. -/
theorem isTextBody_of_mem_tokenize {source content : Bytes} {token : Token}
    (member : token ∈ tokenize source) (isText : token.kind = .text)
    (isContent : Parse.textContent? token.value = some content) : IsTextBody content := by
  have shape := wellShaped_of_mem_tokenize token member
  rw [Lexeme.WellShaped, isText] at shape
  obtain ⟨inner, isBody, isQuoted⟩ := shape
  have room : ¬ (Lexeme.quoted inner).length < 2 := by
    rw [Lexeme.length_quoted]
    omega
  rw [Parse.textContent?, isQuoted, if_neg room, Grammar.dropLast_quoted] at isContent
  rwa [← Option.some_inj.mp isContent]

/-- What a search for refused escapes has to answer for the content of a text. -/
structure IsSearchOf (content : Bytes) (answer : Option Bad) : Prop where
  /-- Nothing is reported exactly if the content is accepted. -/
  none_iff : answer = none ↔ content ∈ accepted
  /-- What is reported begins at the first place where the content is refused. -/
  isLeast : ∀ bad ∈ answer, IsLeast {start | RefusedAt content start} bad.start
  /-- It has at least one byte, and ends inside the content. -/
  inside : ∀ bad ∈ answer, bad.start < bad.stop ∧ bad.stop ≤ content.length ∧
    bad.bytes = content.extract bad.start bad.stop

/-- The search in a text of a source reports nothing exactly if the content is made of escapes and
other bytes, and reports the first backslash that keeps it from being so otherwise. -/
theorem isSearchOf_findBad? {source content : Bytes} {token : Token}
    (member : token ∈ tokenize source) (isText : token.kind = .text)
    (isContent : Parse.textContent? token.value = some content) :
    IsSearchOf content (findBad? content) := by
  have isBody := isTextBody_of_mem_tokenize member isText isContent
  have refused {bad : Bad} (found : findBad? content = some bad) : RefusedAt content bad.start :=
    refusedAt_iff.mpr (exists_clean_of_findBad? isBody found)
  refine ⟨?_, fun bad found => ?_, fun bad found => ?_⟩
  · constructor
    · intro noneBad
      exact mem_accepted_iff.mpr (isClean_of_findBad? isBody noneBad)
    · intro isAccepted
      cases found : findBad? content with
      | none => rfl
      | some bad => exact absurd isAccepted (refused found).not_mem_accepted
  · exact ⟨refused found, fun other also => (refused found).le also⟩
  · obtain ⟨before, after, split, start⟩ := exists_of_findBad? found
    obtain ⟨escape, bytes⟩ := exists_backslash_of_findBad? found
    refine ⟨?_, ?_, ?_⟩
    · rw [Bad.stop, bytes, List.length_cons]
      omega
    · rw [Bad.stop, ← start, split, List.length_append, List.length_append]
      omega
    · rw [Bad.stop, ← start, split]
      simp

/-- A pair of backslashes in front of a mark, an octal escape with a digit too many, several marks,
and a Unicode escape that the closing quote cuts short. -/
theorem isSearchOf_findBad?_cut_short :
    ∃ token ∈ tokenize (utf8 "print(\"\\\\u\\4777\\uu0041\\u002\");"), token.kind = .text ∧
      Parse.textContent? token.value = some (utf8 "\\\\u\\4777\\uu0041\\u002") ∧
      findBad? (utf8 "\\\\u\\4777\\uu0041\\u002") = some ⟨15, utf8 "\\u002"⟩ ∧
      IsSearchOf (utf8 "\\\\u\\4777\\uu0041\\u002")
        (findBad? (utf8 "\\\\u\\4777\\uu0041\\u002")) := by
  have member : (⟨⟨.text, utf8 "\"\\\\u\\4777\\uu0041\\u002\""⟩, ⟨1, 7, 6⟩⟩ : Token) ∈
      tokenize (utf8 "print(\"\\\\u\\4777\\uu0041\\u002\");") := by
    decide +kernel
  have isContent : Parse.textContent? (utf8 "\"\\\\u\\4777\\uu0041\\u002\"") =
      some (utf8 "\\\\u\\4777\\uu0041\\u002") := by
    decide +kernel
  refine ⟨_, member, rfl, isContent, ?_, isSearchOf_findBad? member rfl isContent⟩
  decide +kernel

end VarPrint.Escape
