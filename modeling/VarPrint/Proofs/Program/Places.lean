/-
# Texts that are read by places

The check of a text can be carried out with a place in the text that moves on, where bytes and
stretches are looked up by their places. A look-up has no answer behind the end of the text, and
none for a stretch that ends in front of its beginning. Here the whole check is written with such
look-ups, each behind the test that should protect it. No look-up fails in a token that has room for
two quotes, and the answer is that of the check which needs no places. In any shorter token the
first look-up fails, and such tokens are the ones that lack a quote.
-/

import VarPrint.Program.Parse
import Mathlib.Tactic.SplitIfs

namespace VarPrint

namespace Bytes

/-- The bytes from one place up to another, if both lie in the text and in this order. -/
def slice? (text : Bytes) (start stop : Nat) : Option Bytes :=
  if start ≤ stop ∧ stop ≤ text.length then some ((text.drop start).take (stop - start)) else none

theorem slice?_of_le {text : Bytes} {start stop : Nat} (ordered : start ≤ stop)
    (inside : stop ≤ text.length) :
    text.slice? start stop = some ((text.drop start).take (stop - start)) :=
  if_pos ⟨ordered, inside⟩

/-- A stretch between two others is found at its own place. -/
theorem slice?_append (before piece after : Bytes) :
    slice? (before ++ (piece ++ after)) before.length (before.length + piece.length) =
      some piece := by
  rw [slice?_of_le (Nat.le_add_right _ _) (by simp), List.drop_left, Nat.add_sub_cancel_left,
    List.take_left]

end Bytes

namespace Escape

open Bytes (slice?)

/-- The number of bytes of a class from a place on, up to a limit. -/
def runAt? (p : UInt8 → Bool) (content : Bytes) : (limit place : Nat) → Option Nat
  | 0, _ => some 0
  | limit + 1, place =>
    if place < content.length then
      content[place]?.bind fun b =>
        if p b then (runAt? p content limit (place + 1)).map (· + 1) else some 0
    else some 0

/-- A Unicode escape from the place of its first letter on. -/
def readUnicodeAt? (content : Bytes) (place : Nat) : Option Reading :=
  (runAt? (· = 0x75) content content.length place).bind fun marks =>
    if content.length < place + marks + 4 then some (.invalid (content.length - place))
    else (slice? content (place + marks) (place + marks + 4)).map fun digits =>
      match hexQuad? digits with
      | some unit => if isForbiddenUnit unit then .invalid (marks + 4) else .valid (marks + 4)
      | none => .invalid (marks + 4)

/-- What stands at a place behind a backslash. -/
def readAt? (content : Bytes) (place : Nat) : Option Reading :=
  if place < content.length then
    content[place]?.bind fun b =>
      if b ∈ letters then some (.valid 1)
      else if Byte.isOctal b then
        (runAt? Byte.isOctal content (if b ≤ 0x33 then 2 else 1) (place + 1)).map fun more =>
          .valid (1 + more)
      else if b = 0x75 then readUnicodeAt? content place
      else (slice? content place content.length).map fun rest => .invalid (Rune.width rest)
  else some (.valid 0)

/-- Where the first escape that is refused begins and ends, from a place on. -/
def refusedAt? (content : Bytes) (place : Nat) : Option (Option (Nat × Nat)) :=
  if inside : place < content.length then
    content[place]?.bind fun b =>
      if b = Byte.backslash then
        (readAt? content (place + 1)).bind fun reading =>
          match reading with
          | .valid length => refusedAt? content (place + 1 + length)
          | .invalid length => some (some (place, place + 1 + length))
      else refusedAt? content (place + 1)
  else some none
termination_by content.length - place

/-! No look-up fails -/

theorem runAt?_eq (p : UInt8 → Bool) (content : Bytes) (limit place : Nat) :
    runAt? p content limit place =
      some (((content.drop place).take limit).takeWhile p).length := by
  induction limit generalizing place with
  | zero => rfl
  | succ limit ih =>
      by_cases inside : place < content.length
      · rw [runAt?, if_pos inside, List.getElem?_eq_getElem inside, Option.bind_some, ih,
          List.drop_eq_getElem_cons inside, List.take_succ_cons, List.takeWhile_cons]
        split <;> rfl
      · rw [runAt?, if_neg inside, List.drop_eq_nil_of_le (Nat.le_of_not_lt inside)]
        rfl

theorem readUnicodeAt?_eq (content : Bytes) (place : Nat) :
    readUnicodeAt? content place = some (readUnicode (content.drop place)) := by
  have whole : (content.drop place).take content.length = content.drop place :=
    List.take_of_length_le (by simp)
  rw [readUnicodeAt?, runAt?_eq, Option.bind_some, whole, readUnicode]
  generalize ((content.drop place).takeWhile (· = 0x75)).length = marks
  have room : content.length < place + marks + 4 ↔
      ((content.drop place).drop marks).length < 4 := by
    rw [List.length_drop, List.length_drop]
    omega
  by_cases short : content.length < place + marks + 4
  · rw [if_pos short, if_pos (room.mp short), List.length_drop]
  · rw [if_neg short, if_neg (mt room.mpr short),
      Bytes.slice?_of_le (Nat.le_add_right _ 4) (Nat.le_of_not_lt short), Nat.add_sub_cancel_left,
      List.drop_drop]
    rfl

theorem readAt?_eq (content : Bytes) (place : Nat) :
    readAt? content place = some (read (content.drop place)) := by
  by_cases inside : place < content.length
  · have whole : slice? content place content.length = some (content.drop place) := by
      rw [Bytes.slice?_of_le (Nat.le_of_lt inside) (Nat.le_refl _),
        List.take_of_length_le (by simp)]
    rw [readAt?, if_pos inside, List.getElem?_eq_getElem inside, Option.bind_some,
      readUnicodeAt?_eq, runAt?_eq, whole, List.drop_eq_getElem_cons inside, read]
    split_ifs <;> rfl
  · rw [readAt?, if_neg inside, List.drop_eq_nil_of_le (Nat.le_of_not_lt inside)]
    rfl

/-- The number of bytes behind the backslash. -/
def Reading.length : Reading → Nat
  | valid length => length
  | invalid length => length

theorem length_readUnicode_le (input : Bytes) : (readUnicode input).length ≤ input.length := by
  rw [readUnicode]
  split
  · exact Nat.le_refl _
  · next room =>
      rw [List.length_drop] at room
      have fits : (input.takeWhile (· = 0x75)).length + 4 ≤ input.length := by omega
      split
      · split_ifs
        · exact fits
        · exact fits
      · exact fits

/-- What is read behind a backslash lies in the text. -/
theorem length_read_le (input : Bytes) : (read input).length ≤ input.length := by
  cases input with
  | nil => exact Nat.le_refl 0
  | cons b rest =>
      rw [read]
      generalize (if b ≤ 0x33 then 2 else 1) = limit
      split_ifs with isLetter isOctal isMark
      · exact Nat.le_add_left 1 rest.length
      · have run : (rest.take limit).takeWhile Byte.isOctal <+: rest :=
          (List.takeWhile_prefix _).trans (List.take_prefix _ _)
        have shorter := run.length_le
        rw [List.length_cons, Reading.length]
        omega
      · exact length_readUnicode_le (b :: rest)
      · exact Rune.width_le_length (List.cons_ne_nil b rest)

/-- No look-up of the check fails in any text, and it finds the escape that the check finds. -/
theorem refusedAt?_eq (content : Bytes) (place : Nat) :
    refusedAt? content place = some ((findBad? (content.drop place)).map fun bad =>
      (place + bad.start, place + bad.start + bad.bytes.length)) := by
  by_cases inside : place < content.length
  · rw [refusedAt?, dif_pos inside, List.getElem?_eq_getElem inside, Option.bind_some,
      List.drop_eq_getElem_cons inside, findBad?]
    by_cases isBackslash : content[place] = Byte.backslash
    · rw [if_pos isBackslash, if_pos isBackslash, readAt?_eq, Option.bind_some]
      cases reading : read (content.drop (place + 1)) with
      | valid length =>
          have later := refusedAt?_eq content (place + 1 + length)
          dsimp only
          rw [later, List.drop_drop, Option.map_map]
          congr 2
          funext bad
          simp only [Function.comp_apply, Bad.shift, Prod.mk.injEq]
          omega
      | invalid length =>
          have bounded := length_read_le (content.drop (place + 1))
          rw [reading, Reading.length] at bounded
          simp only [Option.map_some, List.length_cons, List.length_take_of_le bounded,
            Nat.add_zero, Option.some.injEq, Prod.mk.injEq, true_and]
          omega
    · have later := refusedAt?_eq content (place + 1)
      rw [if_neg isBackslash, if_neg isBackslash, later, Option.map_map]
      congr 2
      funext bad
      simp only [Function.comp_apply, Bad.shift, Prod.mk.injEq]
      omega
  · rw [refusedAt?, dif_neg inside, List.drop_eq_nil_of_le (Nat.le_of_not_lt inside), findBad?]
    rfl
termination_by content.length - place
decreasing_by all_goals omega

/-- The escape that is refused is read behind a backslash of the text, where the check says. -/
theorem exists_read_of_findBad? {content : Bytes} {bad : Bad}
    (found : findBad? content = some bad) :
    ∃ before rest length, content = before ++ Byte.backslash :: rest ∧
      before.length = bad.start ∧ read rest = .invalid length ∧
      bad.bytes = Byte.backslash :: rest.take length := by
  fun_induction findBad? content generalizing bad with
  | case1 => cases found
  | case2 rest length valid ih =>
      obtain ⟨later, foundLater, rfl⟩ := Option.map_eq_some_iff.mp found
      obtain ⟨before, behind, count, split, start, reading⟩ := ih foundLater
      have bounded := length_read_le rest
      rw [valid, Reading.length] at bounded
      refine ⟨Byte.backslash :: (rest.take length ++ before), behind, count, ?_, ?_, reading⟩
      · rw [List.cons_append, List.append_assoc, ← split, List.take_append_drop]
      · rw [List.length_cons, List.length_append, List.length_take_of_le bounded, start]
        change length + later.start + 1 = later.start + (1 + length)
        omega
  | case3 rest length invalid =>
      cases found
      exact ⟨[], rest, length, rfl, rfl, invalid, rfl⟩
  | case4 b rest notBackslash ih =>
      obtain ⟨later, foundLater, rfl⟩ := Option.map_eq_some_iff.mp found
      obtain ⟨before, behind, count, split, start, reading⟩ := ih foundLater
      refine ⟨b :: before, behind, count, congrArg (List.cons b) split, ?_, reading⟩
      rw [List.length_cons, start]
      rfl

/-- The escape that is refused stands in the text where the check says. -/
theorem exists_of_findBad? {content : Bytes} {bad : Bad} (found : findBad? content = some bad) :
    ∃ before after, content = before ++ (bad.bytes ++ after) ∧ before.length = bad.start := by
  obtain ⟨before, rest, length, split, start, _, bytes⟩ := exists_read_of_findBad? found
  refine ⟨before, rest.drop length, ?_, start⟩
  rw [bytes, List.cons_append, List.take_append_drop, split]

theorem exists_backslash_of_findBad? {content : Bytes} {bad : Bad}
    (found : findBad? content = some bad) : ∃ escape, bad.bytes = Byte.backslash :: escape := by
  obtain ⟨_, rest, length, _, _, _, bytes⟩ := exists_read_of_findBad? found
  exact ⟨rest.take length, bytes⟩

end Escape

namespace Parse

open Bytes (slice?)

/-- Reads a text token by places. -/
def readTextAt? (token : Token) : Option (Except Fault Expr) :=
  (slice? token.value 1 (token.value.length - 1)).bind fun content =>
    (Escape.refusedAt? content 0).bind fun refused =>
      match refused with
      | none => some (.ok (.text content token))
      | some (start, stop) =>
        (slice? content 0 start).bind fun before =>
          (slice? content start stop).map fun bytes => .error <| .syntaxError
            { problem := .invalidEscape bytes
              line := token.position.line
              column := token.position.column + 1 + Bytes.runeCount before }

/-- The first look-up fails in a token that lacks a quote, and none fails in any other. -/
theorem readTextAt?_eq (token : Token) :
    readTextAt? token = if token.value.length < 2 then none else some (readText token) := by
  by_cases short : token.value.length < 2
  · have outside : ¬ (1 ≤ token.value.length - 1 ∧ token.value.length - 1 ≤ token.value.length) := by
      omega
    rw [if_pos short, readTextAt?, slice?, if_neg outside, Option.bind_none]
  · have sliced : slice? token.value 1 (token.value.length - 1) =
        some ((token.value.drop 1).dropLast) := by
      rw [Bytes.slice?_of_le (by omega) (by omega), List.dropLast_eq_take, List.length_drop]
    rw [if_neg short, readTextAt?, sliced, Option.bind_some, Escape.refusedAt?_eq, Option.bind_some,
      List.drop_zero, readText, textContent?, if_neg short]
    generalize (token.value.drop 1).dropLast = content
    dsimp only
    cases found : Escape.findBad? content with
    | none => rfl
    | some bad =>
        obtain ⟨before, after, split, start⟩ := Escape.exists_of_findBad? found
        have front := Bytes.slice?_append [] before (bad.bytes ++ after)
        have middle := Bytes.slice?_append before bad.bytes after
        have taken : content.take bad.start = before := by
          rw [split, ← start, List.take_left]
        rw [List.nil_append, ← split, List.length_nil, Nat.zero_add, start] at front
        rw [← split, start] at middle
        simp only [Option.map_some, Nat.zero_add, front, middle, Option.bind_some, taken]

end Parse

end VarPrint
