/-
# The escapes of a text

An escape is a backslash with a letter, with an octal digit, or with marks and four hexadecimal
digits for a unit that Java may meet there. A text that passes the check of its escapes is made of
such escapes and of other bytes. More digits behind an octal one are bytes like others: the check
takes them with the escape, but a text without them is as good.
-/

import VarPrint.Program.Escape
import VarPrint.Proofs.Text.Byte
import VarPrint.Proofs.Token.Shape

namespace VarPrint.Escape

open Lexeme (IsTextBody IsPlainByte isTextBody_plain_append_iff)

/-- The letter that marks a Unicode escape. -/
abbrev mark : UInt8 := 0x75

/-- A backslash and what makes an escape with it. -/
inductive IsEscape : Bytes → Prop
  | letter {b : UInt8} (isLetter : b ∈ letters) : IsEscape [Byte.backslash, b]
  | octal {b : UInt8} (isOctal : Byte.isOctal b = true) : IsEscape [Byte.backslash, b]
  | unicode (more : Nat) {quad : Bytes} {unit : Nat} (value : hexQuad? quad = some unit)
      (allowed : isForbiddenUnit unit = false) :
      IsEscape (Byte.backslash :: mark :: (List.replicate more mark ++ quad))

/-- A text made of escapes and of bytes that are no backslash. -/
inductive IsClean : Bytes → Prop
  | nil : IsClean []
  | plain {b : UInt8} {rest : Bytes} (notBackslash : b ≠ Byte.backslash) (clean : IsClean rest) :
      IsClean (b :: rest)
  | escape {escape rest : Bytes} (isEscape : IsEscape escape) (clean : IsClean rest) :
      IsClean (escape ++ rest)

theorem IsEscape.ne_nil {escape : Bytes} (isEscape : IsEscape escape) : escape ≠ [] := by
  cases isEscape <;> simp

theorem isClean_cons_iff {b : UInt8} {rest : Bytes} (notBackslash : b ≠ Byte.backslash) :
    IsClean (b :: rest) ↔ IsClean rest := by
  constructor
  · intro clean
    generalize whole : b :: rest = text at clean
    cases clean with
    | nil => cases whole
    | plain _ clean =>
        cases whole
        exact clean
    | escape isEscape =>
        -- An escape begins with a backslash.
        cases isEscape <;> exact absurd (List.cons.inj whole).1 notBackslash
  · exact .plain notBackslash

/-- Bytes that are no backslash make no difference in front of a clean text. -/
theorem isClean_append_iff {run : Bytes} (plain : ∀ b ∈ run, b ≠ Byte.backslash) (rest : Bytes) :
    IsClean (run ++ rest) ↔ IsClean rest := by
  induction run with
  | nil => rfl
  | cons b run ih =>
      rw [List.forall_mem_cons] at plain
      rw [List.cons_append, isClean_cons_iff plain.1, ih plain.2]

/-- A byte that has a value as a hexadecimal digit stands for itself. -/
theorem isPlainByte_of_hexValue? {b : UInt8} {value : Nat} (digit : Byte.hexValue? b = some value) :
    IsPlainByte b := by
  refine ⟨?_, ?_, ?_⟩ <;> rintro rfl <;> cases digit

/-- Four digits are read one by one. -/
theorem exists_of_hexQuad? {quad : Bytes} {unit : Nat} (value : hexQuad? quad = some unit) :
    ∃ a b c d, quad = [a, b, c, d] ∧ ∃ w x y z, Byte.hexValue? a = some w ∧
      Byte.hexValue? b = some x ∧ Byte.hexValue? c = some y ∧ Byte.hexValue? d = some z ∧
      unit = ((w * 16 + x) * 16 + y) * 16 + z := by
  match quad with
  | [a, b, c, d] =>
      simp only [hexQuad?, Option.bind_eq_bind, Option.bind_eq_some_iff, Option.pure_def,
        Option.some.injEq] at value
      obtain ⟨w, first, x, second, y, third, z, fourth, rfl⟩ := value
      exact ⟨a, b, c, d, rfl, w, x, y, z, first, second, third, fourth, rfl⟩
  | [] | [_] | [_, _] | [_, _, _] | _ :: _ :: _ :: _ :: _ :: _ => simp [hexQuad?] at value

theorem exists_hexValue?_of_hexQuad? {quad : Bytes} {unit : Nat}
    (value : hexQuad? quad = some unit) : ∀ b ∈ quad, ∃ digit, Byte.hexValue? b = some digit := by
  obtain ⟨a, b, c, d, rfl, w, x, y, z, first, second, third, fourth, _⟩ := exists_of_hexQuad? value
  simp [first, second, third, fourth]

/-- An escape is written in ASCII. -/
theorem IsEscape.ascii {escape : Bytes} (isEscape : IsEscape escape) : ∀ b ∈ escape, b < 0x80 := by
  have letters_ascii : letters.all (· < 0x80) = true := rfl
  cases isEscape with
  | letter isLetter =>
      rw [List.forall_mem_cons, List.forall_mem_singleton]
      exact ⟨by decide, of_decide_eq_true (List.all_eq_true.mp letters_ascii _ isLetter)⟩
  | octal isOctal =>
      rw [List.forall_mem_cons, List.forall_mem_singleton]
      have range := Byte.isOctal_iff.mp isOctal
      exact ⟨by decide, UInt8.lt_iff_toNat_lt.mpr (Nat.lt_of_le_of_lt range.2 (by decide))⟩
  | unicode more value =>
      rw [List.forall_mem_cons, List.forall_mem_cons, List.forall_mem_append]
      refine ⟨by decide, by decide, ?_, ?_⟩
      · intro b member
        rw [List.eq_of_mem_replicate member]
        decide
      · intro b member
        obtain ⟨digit, hasValue⟩ := exists_hexValue?_of_hexQuad? value b member
        exact Byte.lt_of_hexValue? hasValue

/-- Behind an escape the content of a text goes on. -/
theorem IsEscape.isTextBody {escape rest : Bytes} (isEscape : IsEscape escape)
    (isBody : IsTextBody (escape ++ rest)) : IsTextBody rest := by
  have behind {b : UInt8} {rest : Bytes} (isBody : IsTextBody (Byte.backslash :: b :: rest)) :
      IsTextBody rest := by
    cases isBody with
    | plain _ notBackslash => exact absurd rfl notBackslash
    | escaped _ isBody => exact isBody
  cases isEscape with
  | letter => exact behind isBody
  | octal => exact behind isBody
  | @unicode more quad unit value =>
      have plain : ∀ b ∈ List.replicate more mark, IsPlainByte b := by
        intro b member
        rw [List.eq_of_mem_replicate member]
        exact ⟨by decide, by decide, by decide⟩
      have digits : ∀ b ∈ quad, IsPlainByte b := by
        intro b member
        obtain ⟨digit, hasValue⟩ := exists_hexValue?_of_hexQuad? value b member
        exact isPlainByte_of_hexValue? hasValue
      rw [List.cons_append, List.cons_append, List.append_assoc] at isBody
      have isBody := behind isBody
      rw [isTextBody_plain_append_iff plain,
        isTextBody_plain_append_iff digits] at isBody
      exact isBody

/-- The first bytes of a class are the front of a text. -/
theorem take_length_takeWhile (p : UInt8 → Bool) (text : Bytes) :
    text.take (text.takeWhile p).length = text.takeWhile p :=
  (List.prefix_iff_eq_take.mp (List.takeWhile_prefix p)).symm

theorem takeWhile_marks (rest : Bytes) : (mark :: rest).takeWhile (· = 0x75) =
    mark :: List.replicate (rest.takeWhile (· = 0x75)).length mark := by
  rw [List.takeWhile_cons_of_pos (by decide)]
  congr 1
  refine List.eq_replicate_iff.mpr ⟨rfl, fun b member => ?_⟩
  simpa using List.mem_takeWhile_imp member

/-- What is read as a Unicode escape is one. -/
theorem isEscape_of_readUnicode {rest : Bytes} {length : Nat}
    (valid : readUnicode (mark :: rest) = .valid length) :
    IsEscape (Byte.backslash :: (mark :: rest).take length) := by
  have marks := takeWhile_marks rest
  unfold readUnicode at valid
  dsimp only at valid
  split at valid
  · cases valid
  · split at valid
    · next unit value =>
        split at valid
        · cases valid
        · next allowed =>
            cases valid
            rw [List.take_add, take_length_takeWhile, marks]
            rw [marks] at value
            exact .unicode _ value (Bool.eq_false_iff.mpr allowed)
    · cases valid

/-- What is read as an escape is one, with octal digits behind it. -/
theorem exists_of_read {b : UInt8} {rest : Bytes} {length : Nat}
    (valid : read (b :: rest) = .valid length) :
    ∃ escape digits, IsEscape escape ∧ (∀ d ∈ digits, Byte.isOctal d = true) ∧
      Byte.backslash :: (b :: rest).take length = escape ++ digits := by
  rw [read] at valid
  split at valid
  · next isLetter =>
      cases valid
      exact ⟨[Byte.backslash, b], [], .letter isLetter, by simp, rfl⟩
  · split at valid
    · next isOctal =>
        dsimp only at valid
        cases valid
        generalize (if b ≤ 0x33 then 2 else 1) = limit
        refine ⟨[Byte.backslash, b], (rest.take limit).takeWhile Byte.isOctal, .octal isOctal,
          fun d member => List.mem_takeWhile_imp member, ?_⟩
        have inside : (rest.take limit).takeWhile Byte.isOctal <+: rest :=
          (List.takeWhile_prefix _).trans (List.take_prefix _ _)
        rw [Nat.add_comm, List.take_succ_cons, ← List.prefix_iff_eq_take.mp inside]
        rfl
    · split at valid
      · next isMark =>
          subst isMark
          exact ⟨_, [], isEscape_of_readUnicode valid, by simp, (List.append_nil _).symm⟩
      · cases valid

theorem isPlainByte_of_isOctal {b : UInt8} (isOctal : Byte.isOctal b = true) : IsPlainByte b := by
  refine ⟨?_, ?_, ?_⟩ <;> rintro rfl <;> cases isOctal

/-- Behind what is read as an escape the content of a text goes on, and what is read is clean in
front of a clean text. -/
theorem isTextBody_drop_of_read {rest : Bytes} {length : Nat}
    (isBody : IsTextBody (Byte.backslash :: rest)) (valid : read rest = .valid length) :
    IsTextBody (rest.drop length) ∧
      ∀ text, IsClean text → IsClean (Byte.backslash :: rest.take length ++ text) := by
  -- A backslash at the very end, which the check leaves alone, ends no text.
  obtain ⟨b, others, rfl⟩ : ∃ b others, rest = b :: others := by
    cases isBody with
    | plain _ notBackslash => exact absurd rfl notBackslash
    | escaped => exact ⟨_, _, rfl⟩
  obtain ⟨escape, digits, isEscape, octal, taken⟩ := exists_of_read valid
  have plain : ∀ d ∈ digits, IsPlainByte d := fun d member =>
    isPlainByte_of_isOctal (octal d member)
  have split : Byte.backslash :: b :: others =
      escape ++ (digits ++ (b :: others).drop length) := by
    rw [← List.append_assoc, ← taken, List.cons_append, List.take_append_drop]
  rw [split] at isBody
  refine ⟨(isTextBody_plain_append_iff plain _).mp (isEscape.isTextBody isBody), ?_⟩
  intro text clean
  rw [taken, List.append_assoc]
  refine .escape isEscape ((isClean_append_iff ?_ _).mpr clean)
  exact fun d member => (plain d member).2.1

/-- The content of a text in which no escape is refused is clean. -/
theorem isClean_of_findBad? {content : Bytes} (isBody : IsTextBody content)
    (noneBad : findBad? content = none) : IsClean content := by
  fun_induction findBad? content with
  | case1 => exact .nil
  | case2 rest length valid ih =>
      rw [Option.map_eq_none_iff] at noneBad
      obtain ⟨behind, joins⟩ := isTextBody_drop_of_read isBody valid
      have clean := joins _ (ih behind noneBad)
      rwa [List.cons_append, List.take_append_drop] at clean
  | case3 => cases noneBad
  | case4 b rest notBackslash ih =>
      rw [Option.map_eq_none_iff] at noneBad
      cases isBody with
      | plain _ _ _ isBody => exact .plain notBackslash (ih isBody noneBad)
      | escaped => exact absurd rfl notBackslash

end VarPrint.Escape
