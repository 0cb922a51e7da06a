/-
# Text literals under Java's own reading

Java reads a source in two passes. The first replaces Unicode escapes: a backslash behind an even
number of backslashes begins one if the letter u follows it, and four hexadecimal digits have to
come after one or more of that letter. What it puts there is not translated again. The second pass
reads literals, with the escapes that stand behind a backslash, up to the closing quote.

Both passes are written down here for UTF-16 units and know nothing of the check of escapes. The
main result is that they keep step with the check: from the literal of a text that was accepted, the
first pass loses no escape and makes none of the units that could break the literal, and the second
pass meets only escapes that it knows and closes the literal at its last unit.
-/

import VarPrint.Java.Statement
import VarPrint.Proofs.Program.Escape
import VarPrint.Proofs.Program.WellFormed
import VarPrint.Proofs.Text.Rune

namespace VarPrint

namespace Java

/-! UTF-16 units are numbers here. -/

namespace Unit16

/-- Double quote. -/
abbrev quote : Nat := 0x22

/-- Backslash. -/
abbrev backslash : Nat := 0x5C

/-- The letter that marks a Unicode escape. -/
abbrev mark : Nat := 0x75

/-- An octal digit. -/
def IsOctal (unit : Nat) : Prop :=
  0x30 ≤ unit ∧ unit ≤ 0x37

instance : DecidablePred IsOctal :=
  fun unit => inferInstanceAs (Decidable (0x30 ≤ unit ∧ unit ≤ 0x37))

/-- The value of a hexadecimal digit of either case. -/
def hexValue? (unit : Nat) : Option Nat :=
  if 0x30 ≤ unit ∧ unit ≤ 0x39 then some (unit - 0x30)
  else if 0x61 ≤ unit ∧ unit ≤ 0x66 then some (unit - 0x61 + 10)
  else if 0x41 ≤ unit ∧ unit ≤ 0x46 then some (unit - 0x41 + 10)
  else none

/-- The unit that four hexadecimal digits stand for. -/
def ofQuad? : List Nat → Option Nat
  | [a, b, c, d] => do
    let a ← hexValue? a
    let b ← hexValue? b
    let c ← hexValue? c
    let d ← hexValue? d
    return 0x1000 * a + 0x100 * b + 0x10 * c + d
  | _ => none

end Unit16

/-- The units that would break a literal if a Unicode escape stood for them: line feed, carriage
return, quote and backslash. -/
def breakingUnits : List Nat :=
  [0x0A, 0x0D, Unit16.quote, Unit16.backslash]

/-- The units of a character: one, or two surrogates. -/
def utf16 (c : Char) : List Nat :=
  if c.toNat < 0x10000 then [c.toNat]
  else [0xD800 + (c.toNat - 0x10000) / 0x400, 0xDC00 + (c.toNat - 0x10000) % 0x400]

/-- The units of a text. -/
def units (text : Bytes) : List Nat :=
  text.runes.flatMap utf16

/-- A unit after the first pass: one that stood in the text, or one that was written as a Unicode
escape. -/
inductive Symbol where
  | raw (unit : Nat)
  | escape (unit : Nat)
deriving DecidableEq, Repr

/-- The unit, wherever it comes from. -/
def Symbol.unit : Symbol → Nat
  | raw unit | escape unit => unit

/-- The first pass, behind a number of backslashes. There is no result if a backslash begins a
Unicode escape that is not complete. -/
def translateFrom? (backslashes : Nat) : List Nat → Option (List Symbol)
  | [] => some []
  | unit :: rest =>
    if unit ≠ Unit16.backslash then (translateFrom? 0 rest).map (.raw unit :: ·)
    else if backslashes % 2 = 1 ∨ rest.head? ≠ some Unit16.mark then
      (translateFrom? (backslashes + 1) rest).map (.raw unit :: ·)
    else
      let digits := rest.dropWhile (· = Unit16.mark)
      match Unit16.ofQuad? (digits.take 4) with
      | some translated => (translateFrom? 0 (digits.drop 4)).map (.escape translated :: ·)
      | none => none
termination_by units => units.length
decreasing_by
  · simp
  · simp
  · have shorter := (List.dropWhile_suffix (l := rest) (· = Unit16.mark)).length_le
    simp only [List.length_drop, List.length_cons]
    omega

/-- The first pass. -/
def translate? (text : List Nat) : Option (List Symbol) :=
  translateFrom? 0 text

/-- The units that make an escape with a backslash alone. -/
def escapeUnits : List Nat :=
  ['b', 't', 'n', 'f', 'r', 's', '"', '\'', '\\'].map Char.toNat

/-- How many digits an octal escape takes behind its first: up to two, but only one when the first
is above three. -/
def moreOctal (first : Nat) (rest : List Nat) : Nat :=
  ((rest.take (if first ≤ 0x33 then 2 else 1)).takeWhile fun unit => Unit16.IsOctal unit).length

/-- The second pass inside a literal: what is left behind its closing quote. There is no result if
an escape is unknown or the literal is not closed. Where a line ends is not asked here. -/
def afterText? : List Nat → Option (List Nat)
  | [] => none
  | unit :: rest =>
    if unit = Unit16.quote then some rest
    else if unit ≠ Unit16.backslash then afterText? rest
    else match rest with
      | [] => none
      | escaped :: rest =>
        if escaped ∈ escapeUnits then afterText? rest
        else if Unit16.IsOctal escaped then afterText? (rest.drop (moreOctal escaped rest))
        else none
termination_by text => text.length
decreasing_by
  all_goals
    simp only [List.length_drop, List.length_cons]
    omega

/-! The content of a text in units -/

theorem units_nil : units [] = [] := by
  simp [units, Bytes.runes]

theorem units_of_ne_nil {text : Bytes} (nonempty : text ≠ []) :
    units text = utf16 (Rune.first text) ++ units (text.drop (Rune.width text)) := by
  rw [units, Bytes.runes, Bytes.runePieces_of_ne_nil nonempty]
  rfl

theorem units_cons {b : UInt8} (small : b < 0x80) (rest : Bytes) :
    units (b :: rest) = b.toNat :: units rest := by
  have code := Rune.toNat_ofNat small
  have bound : b.toNat < 0x80 := UInt8.lt_iff_toNat_lt.mp small
  rw [units_of_ne_nil (by simp), Rune.first_cons small, Rune.width_cons small, utf16, code,
    if_pos (by omega)]
  rfl

/-- A byte of ASCII is a unit of its own. -/
theorem units_append {run : Bytes} (ascii : ∀ b ∈ run, b < 0x80) (rest : Bytes) :
    units (run ++ rest) = run.map UInt8.toNat ++ units rest := by
  induction run with
  | nil => rfl
  | cons b run ih =>
      rw [List.forall_mem_cons] at ascii
      rw [List.cons_append, units_cons ascii.1, ih ascii.2]
      rfl

/-- A wide rune gives units outside ASCII only. -/
theorem exists_units_of_isWide {piece rest : Bytes} (isWide : Rune.IsWide piece rest) :
    ∃ wide, (∀ unit ∈ wide, 0x80 ≤ unit) ∧ units (piece ++ rest) = wide ++ units rest := by
  refine ⟨utf16 (Rune.first (piece ++ rest)), ?_, ?_⟩
  · have code := isWide.code
    unfold utf16
    split
    · simpa using code
    · simp only [List.mem_cons, List.not_mem_nil, or_false, forall_eq_or_imp, forall_eq]
      omega
  · rw [units_of_ne_nil (by simp [isWide.nonempty]), isWide.width_eq, List.drop_left]

theorem Unit16.hexValue?_toNat (b : UInt8) : Unit16.hexValue? b.toNat = Byte.hexValue? b := by
  simp only [Unit16.hexValue?, Byte.hexValue?, Byte.isDigit_iff, Bool.and_eq_true,
    decide_eq_true_eq, UInt8.le_iff_toNat_le, UInt8.reduceToNat]

theorem Unit16.ofQuad?_map {quad : Bytes} {unit : Nat} (value : Escape.hexQuad? quad = some unit) :
    Unit16.ofQuad? (quad.map UInt8.toNat) = some unit := by
  obtain ⟨a, b, c, d, rfl, w, x, y, z, first, second, third, fourth, rfl⟩ :=
    Escape.exists_of_hexQuad? value
  simp only [List.map_cons, List.map_nil, Unit16.ofQuad?, Unit16.hexValue?_toNat, first, second,
    third, fourth, Option.bind_eq_bind, Option.bind_some, Option.pure_def, Option.some.injEq]
  omega

/-- The units of a content, and what the first pass makes of them: units that stand for themselves,
escapes with a backslash alone, of which an octal one has its first digit here, and Unicode escapes.
-/
inductive Spells : List Nat → List Symbol → Prop
  | nil : Spells [] []
  | plain {unit : Nat} {text : List Nat} {symbols : List Symbol}
      (notBackslash : unit ≠ Unit16.backslash) (notQuote : unit ≠ Unit16.quote)
      (others : Spells text symbols) : Spells (unit :: text) (.raw unit :: symbols)
  | simple {unit : Nat} {text : List Nat} {symbols : List Symbol}
      (known : unit ∈ escapeUnits ∨ Unit16.IsOctal unit) (others : Spells text symbols) :
      Spells (Unit16.backslash :: unit :: text) (.raw Unit16.backslash :: .raw unit :: symbols)
  | unicode (more : Nat) {quad text : List Nat} {symbols : List Symbol} {unit : Nat}
      (value : Unit16.ofQuad? quad = some unit) (allowed : unit ∉ breakingUnits)
      (others : Spells text symbols) :
      Spells
        (Unit16.backslash :: Unit16.mark :: (List.replicate more Unit16.mark ++ (quad ++ text)))
        (.escape unit :: symbols)

theorem Spells.exists_plain_append {wide text : List Nat} {symbols : List Symbol}
    (large : ∀ unit ∈ wide, 0x80 ≤ unit) (others : Spells text symbols) :
    ∃ symbols, Spells (wide ++ text) symbols := by
  induction wide with
  | nil => exact ⟨symbols, others⟩
  | cons unit wide ih =>
      rw [List.forall_mem_cons] at large
      have other {c : Nat} (small : c < 0x80) : unit ≠ c := by
        rintro rfl
        exact absurd large.1 (Nat.not_le.mpr small)
      obtain ⟨rest, spells⟩ := ih large.2
      exact ⟨.raw unit :: rest, .plain (other (by decide)) (other (by decide)) spells⟩

theorem Spells.exists_escape_append {escape : Bytes} (isEscape : Escape.IsEscape escape)
    {text : List Nat} {symbols : List Symbol} (others : Spells text symbols) :
    ∃ symbols, Spells (escape.map UInt8.toNat ++ text) symbols := by
  cases isEscape with
  | letter isLetter =>
      have letters_known : Escape.letters.all (·.toNat ∈ escapeUnits) = true := rfl
      have known := of_decide_eq_true (List.all_eq_true.mp letters_known _ isLetter)
      exact ⟨_, .simple (.inl known) others⟩
  | octal isOctal => exact ⟨_, .simple (.inr (Byte.isOctal_iff.mp isOctal)) others⟩
  | @unicode more quad unit value allowed =>
      have allowed : unit ∉ breakingUnits := by
        simpa [Escape.isForbiddenUnit, breakingUnits, and_assoc] using allowed
      refine ⟨.escape unit :: symbols, ?_⟩
      simp only [List.map_cons, List.map_append, List.map_replicate, List.cons_append,
        List.append_assoc]
      exact .unicode more (Unit16.ofQuad?_map value) allowed others

/-- The content of an accepted text, in units, is spelled so. -/
theorem exists_spells {content rest : Bytes} (boundary : Bytes.IsBoundary rest)
    (isBody : Lexeme.IsTextBody content) (clean : Escape.IsClean content) :
    ∃ text symbols, Spells text symbols ∧ units (content ++ rest) = text ++ units rest := by
  -- The induction is on the length because a wide rune takes several bytes at once.
  induction size : content.length using Nat.strongRecOn generalizing content with
  | _ size ih =>
  subst size
  cases clean with
  | nil => exact ⟨[], [], .nil, rfl⟩
  | @plain b tail notBackslash clean =>
      by_cases small : b < 0x80
      · cases isBody with
        | escaped => exact absurd rfl notBackslash
        | plain notQuote _ _ isBody =>
            obtain ⟨text, symbols, spells, split⟩ := ih tail.length (by simp) isBody clean rfl
            refine ⟨b.toNat :: text, .raw b.toNat :: symbols, .plain ?_ ?_ spells, ?_⟩
            · exact fun same => notBackslash (UInt8.toNat_inj.mp same)
            · exact fun same => notQuote (UInt8.toNat_inj.mp same)
            · rw [List.cons_append, units_cons small, split]
              rfl
      · obtain ⟨piece, after, split, isWide⟩ :=
          Bytes.exists_isWide_append (UInt8.not_lt.mp small) tail boundary
        have plain : ∀ b ∈ piece, Lexeme.IsPlainByte b := fun b member =>
          Lexeme.isPlainByte_of_wide (isWide.bytes b member)
        have whole : Escape.IsClean (b :: tail) := .plain notBackslash clean
        have shorter : after.length < (b :: tail).length := by
          have nonempty := List.length_pos_iff.mpr isWide.nonempty
          rw [split, List.length_append]
          omega
        rw [split] at isBody whole ⊢
        rw [Lexeme.isTextBody_plain_append_iff plain] at isBody
        rw [Escape.isClean_append_iff fun b member => (plain b member).2.1] at whole
        obtain ⟨text, symbols, spells, behind⟩ := ih after.length shorter isBody whole rfl
        obtain ⟨wide, large, front⟩ := exists_units_of_isWide isWide
        obtain ⟨all, spells⟩ := spells.exists_plain_append large
        refine ⟨_, all, spells, ?_⟩
        rw [List.append_assoc, front, behind, List.append_assoc]
  | @escape escape tail isEscape clean =>
      have shorter : tail.length < (escape ++ tail).length := by
        have nonempty := List.length_pos_iff.mpr isEscape.ne_nil
        rw [List.length_append]
        omega
      obtain ⟨text, symbols, spells, split⟩ :=
        ih tail.length shorter (isEscape.isTextBody isBody) clean rfl
      obtain ⟨all, spells⟩ := spells.exists_escape_append isEscape
      refine ⟨_, all, spells, ?_⟩
      rw [List.append_assoc, units_append isEscape.ascii, split, List.append_assoc]

/-! The first pass over a spelled content -/

section Translation

variable {unit backslashes : Nat} {rest : List Nat}

theorem translateFrom?_plain (notBackslash : unit ≠ Unit16.backslash) :
    translateFrom? backslashes (unit :: rest) = (translateFrom? 0 rest).map (.raw unit :: ·) := by
  rw [translateFrom?, if_pos notBackslash]

theorem translateFrom?_backslash
    (noEscape : backslashes % 2 = 1 ∨ rest.head? ≠ some Unit16.mark) :
    translateFrom? backslashes (Unit16.backslash :: rest) =
      (translateFrom? (backslashes + 1) rest).map (.raw Unit16.backslash :: ·) := by
  rw [translateFrom?, if_neg (not_not.mpr rfl), if_pos noEscape]

theorem translateFrom?_unicode (even : backslashes % 2 = 0) (more : Nat) {quad : List Nat}
    (value : Unit16.ofQuad? quad = some unit) :
    translateFrom? backslashes
        (Unit16.backslash :: Unit16.mark :: (List.replicate more Unit16.mark ++ (quad ++ rest))) =
      (translateFrom? 0 rest).map (.escape unit :: ·) := by
  -- A quad begins with a digit, which ends the run of marks.
  obtain ⟨a, b, c, d, rfl, notMark⟩ : ∃ a b c d, quad = [a, b, c, d] ∧ a ≠ Unit16.mark := by
    match quad with
    | [a, b, c, d] =>
        refine ⟨a, b, c, d, rfl, ?_⟩
        rintro rfl
        have noDigit : Unit16.hexValue? Unit16.mark = none := rfl
        simp [Unit16.ofQuad?, noDigit] at value
    | [] | [_] | [_, _] | [_, _, _] | _ :: _ :: _ :: _ :: _ :: _ => simp [Unit16.ofQuad?] at value
  have digits :
      (Unit16.mark :: (List.replicate more Unit16.mark ++ ([a, b, c, d] ++ rest))).dropWhile
        (· = Unit16.mark) = [a, b, c, d] ++ rest := by
    rw [List.dropWhile_cons_of_pos (by decide),
      List.dropWhile_append_of_pos (by simp [List.mem_replicate]), List.cons_append,
      List.dropWhile_cons_of_neg (by simpa using notMark)]
  have front : ([a, b, c, d] ++ rest).take 4 = [a, b, c, d] := rfl
  have behind : ([a, b, c, d] ++ rest).drop 4 = rest := rfl
  rw [translateFrom?, if_neg (not_not.mpr rfl), if_neg (by simp [even])]
  dsimp only
  rw [digits, front, behind, value]

/-- Where the content has a Unicode escape, its backslash stands behind an even number of others,
and nowhere else does the letter u follow such a backslash. -/
theorem Spells.translateFrom?_eq {text : List Nat} {symbols : List Symbol}
    (spells : Spells text symbols) (even : backslashes % 2 = 0) :
    translateFrom? backslashes (text ++ [Unit16.quote]) =
      some (symbols ++ [.raw Unit16.quote]) := by
  induction spells generalizing backslashes with
  | nil => simp [translateFrom?]
  | plain notBackslash _ _ ih =>
      rw [List.cons_append, translateFrom?_plain notBackslash, ih rfl]
      rfl
  | @simple unit text symbols known _ ih =>
      have notMark : unit ≠ Unit16.mark := by
        have letters_other : ∀ unit ∈ escapeUnits, unit ≠ Unit16.mark := by decide
        rcases known with letter | octal
        · exact letters_other unit letter
        · rintro rfl
          exact absurd octal (by decide)
      rw [List.cons_append, List.cons_append,
        translateFrom?_backslash (.inr (by simpa using notMark))]
      by_cases again : unit = Unit16.backslash
      · rw [again, translateFrom?_backslash (.inl (by omega)), ih (by omega)]
        rfl
      · rw [translateFrom?_plain again, ih rfl]
        rfl
  | @unicode more quad text symbols unit value _ _ ih =>
      rw [List.cons_append, List.cons_append, List.append_assoc, List.append_assoc,
        translateFrom?_unicode even more value, ih rfl]
      rfl

end Translation

/-! The second pass over a spelled content -/

/-- The units of Unicode escapes in a spelled content are allowed. -/
theorem Spells.allowed {text : List Nat} {symbols : List Symbol} (spells : Spells text symbols) :
    ∀ unit, .escape unit ∈ symbols → unit ∉ breakingUnits := by
  induction spells with
  | nil => simp
  | plain _ _ _ ih => simpa using ih
  | simple _ _ ih => simpa using ih
  | unicode _ _ allowed _ ih => simpa [allowed] using ih

section Literal

variable {unit : Nat} {rest : List Nat}

theorem afterText?_quote : afterText? (Unit16.quote :: rest) = some rest := by
  rw [afterText?.eq_def]
  exact if_pos rfl

theorem afterText?_plain (notBackslash : unit ≠ Unit16.backslash)
    (notQuote : unit ≠ Unit16.quote) : afterText? (unit :: rest) = afterText? rest := by
  rw [afterText?.eq_def]
  dsimp only
  rw [if_neg notQuote, if_pos notBackslash]

theorem afterText?_letter (letter : unit ∈ escapeUnits) :
    afterText? (Unit16.backslash :: unit :: rest) = afterText? rest := by
  rw [afterText?, if_neg (by decide), if_neg (not_not.mpr rfl), if_pos letter]

theorem afterText?_octal (octal : Unit16.IsOctal unit) :
    afterText? (Unit16.backslash :: unit :: rest) =
      afterText? (rest.drop (moreOctal unit rest)) := by
  have letters_other : ∀ unit ∈ escapeUnits, ¬ Unit16.IsOctal unit := by decide
  rw [afterText?, if_neg (by decide), if_neg (not_not.mpr rfl),
    if_neg fun letter => letters_other unit letter octal, if_pos octal]

/-- The digits that an octal escape takes in front of a closing quote do not reach the quote. -/
theorem exists_drop_moreOctal (first : Nat) (text : List Nat) :
    ∃ digits behind, text = digits ++ behind ∧ (∀ unit ∈ digits, Unit16.IsOctal unit) ∧
      (text ++ [Unit16.quote]).drop (moreOctal first (text ++ [Unit16.quote])) =
        behind ++ [Unit16.quote] := by
  unfold moreOctal
  generalize (if first ≤ 0x33 then 2 else 1) = limit
  generalize taken : ((text ++ [Unit16.quote]).take limit).takeWhile
    (fun unit => decide (Unit16.IsOctal unit)) = digits
  have octal : ∀ unit ∈ digits, Unit16.IsOctal unit := by
    intro unit member
    rw [← taken] at member
    simpa using List.mem_takeWhile_imp member
  have inside : digits <+: text ++ [Unit16.quote] := by
    rw [← taken]
    exact (List.takeWhile_prefix _).trans (List.take_prefix _ _)
  rcases List.prefix_concat_iff.mp inside with whole | ⟨behind, rfl⟩
  · exact absurd (octal Unit16.quote (by simp [whole])) (by decide)
  · refine ⟨digits, behind, rfl, octal, ?_⟩
    rw [List.append_assoc, List.drop_left]

/-- Behind any octal digits at its front, a spelled content closes at the quote behind it. The
digits are those that an octal escape in front of the content may take from it. -/
theorem Spells.afterText?_eq {text : List Nat} {symbols : List Symbol}
    (spells : Spells text symbols) {digits behind : List Nat}
    (split : symbols.map Symbol.unit = digits ++ behind)
    (octal : ∀ unit ∈ digits, Unit16.IsOctal unit) :
    afterText? (behind ++ [Unit16.quote]) = some [] := by
  induction spells generalizing digits behind with
  | nil =>
      obtain ⟨rfl, rfl⟩ := List.nil_eq_append_iff.mp split
      exact afterText?_quote
  | @plain unit text symbols notBackslash notQuote _ ih =>
      cases digits with
      | nil =>
          rw [List.nil_append] at split
          rw [← split]
          show afterText? (unit :: (symbols.map Symbol.unit ++ [Unit16.quote])) = _
          rw [afterText?_plain notBackslash notQuote]
          exact ih (List.nil_append _).symm (by simp)
      | cons digit digits =>
          exact ih (List.cons.inj split).2 (List.forall_mem_cons.mp octal).2
  | @simple unit text symbols known _ ih =>
      cases digits with
      | nil =>
          rw [List.nil_append] at split
          rw [← split]
          show afterText? (Unit16.backslash :: unit ::
            (symbols.map Symbol.unit ++ [Unit16.quote])) = _
          rcases known with letter | octal
          · rw [afterText?_letter letter]
            exact ih (List.nil_append _).symm (by simp)
          · obtain ⟨digits, behind, taken, allOctal, left⟩ :=
              exists_drop_moreOctal unit (symbols.map Symbol.unit)
            rw [afterText?_octal octal, left]
            exact ih taken allOctal
      | cons digit digits =>
          rw [← (List.cons.inj split).1] at octal
          exact absurd (octal Unit16.backslash List.mem_cons_self) (by decide)
  | @unicode more quad text symbols unit value allowed _ ih =>
      cases digits with
      | nil =>
          rw [List.nil_append] at split
          rw [← split]
          show afterText? (unit :: (symbols.map Symbol.unit ++ [Unit16.quote])) = _
          simp only [breakingUnits, List.mem_cons, List.not_mem_nil, or_false, not_or] at allowed
          rw [afterText?_plain allowed.2.2.2 allowed.2.2.1]
          exact ih (List.nil_append _).symm (by simp)
      | cons digit digits =>
          exact ih (List.cons.inj split).2 (List.forall_mem_cons.mp octal).2

end Literal

/-- The literal of a clean content, in units, is translated and closes at its last unit. -/
theorem exists_translate?_quoted {content : Bytes} (isBody : Lexeme.IsTextBody content)
    (clean : Escape.IsClean content) :
    ∃ symbols, translate? (units (Lexeme.quoted content)) = some (.raw Unit16.quote :: symbols) ∧
      (∀ unit, .escape unit ∈ symbols → unit ∉ breakingUnits) ∧
      afterText? (symbols.map Symbol.unit) = some [] := by
  have boundary : Bytes.IsBoundary [Byte.quote] := Bytes.isBoundary_cons (by decide) []
  obtain ⟨text, symbols, spells, split⟩ := exists_spells boundary isBody clean
  have closing : units [Byte.quote] = [Unit16.quote] := by
    rw [units_cons (by decide), units_nil]
    rfl
  refine ⟨symbols ++ [.raw Unit16.quote], ?_, ?_, ?_⟩
  · rw [translate?, Lexeme.quoted, units_cons (by decide), split, closing,
      translateFrom?_plain (by decide), spells.translateFrom?_eq rfl]
    rfl
  · simpa using spells.allowed
  · rw [List.map_append]
    exact spells.afterText?_eq (List.nil_append _).symm (by simp)

end Java

/-- The literal of a text that was accepted keeps its boundaries and its escapes under Java's own
reading. The first pass finds every Unicode escape complete, and none stands for a unit that could
break the literal. The second pass, from behind the opening quote on, meets only escapes that it
knows, and the first quote that closes the literal is the last unit. -/
theorem exists_translate?_of_readText {source : Bytes} {token : Token} {value : Expr}
    (member : token ∈ tokenize source) (isText : token.kind = .text)
    (accepted : Parse.readText token = .ok value) :
    ∃ symbols, Java.translate? (Java.units (Java.expression value)) =
        some (.raw Java.Unit16.quote :: symbols) ∧
      (∀ unit, .escape unit ∈ symbols → unit ∉ Java.breakingUnits) ∧
      Java.afterText? (symbols.map Java.Symbol.unit) = some [] := by
  obtain ⟨isQuoted, noneBad, rfl⟩ := Grammar.readText_eq_ok_iff.mp accepted
  have operand : Grammar.Operand token _ := .text isText isQuoted noneBad
  cases (operand.wellFormed (wellShaped_of_mem_tokenize token member)).1 with
  | text isBody noneBad =>
      exact Java.exists_translate?_quoted isBody (Escape.isClean_of_findBad? isBody noneBad)

/-- In this literal a Unicode escape follows a pair of backslashes, and another one makes the octal
escape in front of it longer. -/
theorem exists_translate?_of_readText_octal :
    ∃ token ∈ tokenize (utf8 "\"\\\\\\u0041\\1\\u0032\""), token.kind = .text ∧
      ∃ value, Parse.readText token = .ok value ∧
        Java.expression value = utf8 "\"\\\\\\u0041\\1\\u0032\"" ∧
        ∃ symbols, Java.translate? (Java.units (Java.expression value)) =
            some (.raw Java.Unit16.quote :: symbols) ∧
          (∀ unit, .escape unit ∈ symbols → unit ∉ Java.breakingUnits) ∧
          Java.afterText? (symbols.map Java.Symbol.unit) = some [] := by
  have member : (⟨⟨.text, utf8 "\"\\\\\\u0041\\1\\u0032\""⟩, .start⟩ : Token) ∈
      tokenize (utf8 "\"\\\\\\u0041\\1\\u0032\"") := by
    decide +kernel
  have accepted : Parse.readText ⟨⟨.text, utf8 "\"\\\\\\u0041\\1\\u0032\""⟩, .start⟩ =
      .ok (.text (utf8 "\\\\\\u0041\\1\\u0032")
        ⟨⟨.text, utf8 "\"\\\\\\u0041\\1\\u0032\""⟩, .start⟩) := by
    decide +kernel
  exact ⟨_, member, rfl, _, accepted, rfl, exists_translate?_of_readText member rfl accepted⟩

end VarPrint
