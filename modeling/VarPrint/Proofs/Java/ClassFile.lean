/-
# Lines of a class

A class is a header, the body of its main method and a footer. The body comes line by line, each
line behind the same margin, and nothing else is added to it. The lines of a text are described here
without a word on how they are found: each of them ends with its line feed, which only the last may
lack. Every text has such lines, and in one way only. The margin stands in front of exactly these
lines, so taking it away again gives the body back, and no two bodies make the same class.
-/

import VarPrint.Java.ClassFile
import Mathlib.Logic.ExistsUnique
import Mathlib.Logic.Function.Defs

namespace VarPrint

namespace Bytes

/-- The lines of a text, each with the line feed that ends it. Only the last one may lack it, and it
is not empty then. -/
inductive IsLinesOf : List Bytes → Bytes → Prop
  | nil : IsLinesOf [] []
  | last {line : Bytes} (nonempty : line ≠ []) (oneLine : Byte.lineFeed ∉ line) :
      IsLinesOf [line] line
  | ended {line rest : Bytes} {lines : List Bytes} (oneLine : Byte.lineFeed ∉ line)
      (others : IsLinesOf lines rest) :
      IsLinesOf ((line ++ [Byte.lineFeed]) :: lines) (line ++ Byte.lineFeed :: rest)

theorem exists_isLinesOf (text : Bytes) : ∃ lines, IsLinesOf lines text := by
  induction text with
  | nil => exact ⟨[], .nil⟩
  | cons b text ih =>
      obtain ⟨lines, isLines⟩ := ih
      by_cases isEnd : b = Byte.lineFeed
      · rw [isEnd]
        exact ⟨_, .ended List.not_mem_nil isLines⟩
      · have longer {line : Bytes} (oneLine : Byte.lineFeed ∉ line) :
            Byte.lineFeed ∉ b :: line :=
          List.not_mem_cons_of_ne_of_not_mem (Ne.symm isEnd) oneLine
        -- The byte joins the first line, if there is one.
        cases isLines with
        | nil => exact ⟨_, .last (List.cons_ne_nil b []) (longer List.not_mem_nil)⟩
        | last _ oneLine => exact ⟨_, .last (List.cons_ne_nil b _) (longer oneLine)⟩
        | ended oneLine others => exact ⟨_, .ended (longer oneLine) others⟩

/-- What stands in front of the first line feed is found in one way only. -/
theorem line_unique {line line' rest rest' : Bytes} (oneLine : Byte.lineFeed ∉ line)
    (oneLine' : Byte.lineFeed ∉ line')
    (same : line ++ Byte.lineFeed :: rest = line' ++ Byte.lineFeed :: rest') :
    line = line' ∧ rest = rest' := by
  induction line generalizing line' with
  | nil =>
      cases line' with
      | nil => exact ⟨rfl, (List.cons.inj same).2⟩
      | cons b line' =>
          rw [(List.cons.inj same).1] at oneLine'
          exact absurd List.mem_cons_self oneLine'
  | cons b line ih =>
      cases line' with
      | nil =>
          rw [(List.cons.inj same).1] at oneLine
          exact absurd List.mem_cons_self oneLine
      | cons b' line' =>
          obtain ⟨rfl, behind⟩ := List.cons.inj same
          obtain ⟨rfl, rfl⟩ := ih (List.not_mem_of_not_mem_cons oneLine)
            (List.not_mem_of_not_mem_cons oneLine') behind
          exact ⟨rfl, rfl⟩

namespace IsLinesOf

variable {lines lines' : List Bytes} {text margin : Bytes}

theorem unique (isLines : IsLinesOf lines text) (isLines' : IsLinesOf lines' text) :
    lines = lines' := by
  induction isLines generalizing lines' with
  | nil =>
      generalize whole : [] = text at isLines'
      cases isLines' with
      | nil => rfl
      | last nonempty => exact absurd whole.symm nonempty
      | ended =>
          exact absurd whole.symm (List.append_ne_nil_of_right_ne_nil _ (List.cons_ne_nil _ _))
  | last nonempty oneLine =>
      cases isLines' with
      | nil => exact absurd rfl nonempty
      | last => rfl
      | ended => exact absurd (List.mem_append_right _ List.mem_cons_self) oneLine
  | @ended line rest lines oneLine others ih =>
      generalize whole : line ++ Byte.lineFeed :: rest = text at isLines'
      cases isLines' with
      | nil => exact absurd whole (List.append_ne_nil_of_right_ne_nil _ (List.cons_ne_nil _ _))
      | last _ oneLine' =>
          rw [← whole] at oneLine'
          exact absurd (List.mem_append_right _ List.mem_cons_self) oneLine'
      | ended oneLine' others' =>
          obtain ⟨rfl, rfl⟩ := line_unique oneLine oneLine' whole
          rw [ih others']

end IsLinesOf

/-- A text without some bytes at its start and behind each of its line feeds: as many as are still
to be skipped, and then as many as the margin is wide. -/
def removeMargins (width : Nat) : (skip : Nat) → Bytes → Bytes
  | _, [] => []
  | skip + 1, _ :: rest => removeMargins width skip rest
  | 0, b :: rest => b :: removeMargins width (if b = Byte.lineFeed then width else 0) rest

variable {width : Nat} {line : Bytes}

theorem removeMargins_margin (margin rest : Bytes) :
    removeMargins width margin.length (margin ++ rest) = removeMargins width 0 rest := by
  induction margin with
  | nil => rfl
  | cons b margin ih => exact ih

theorem removeMargins_line (oneLine : Byte.lineFeed ∉ line) (rest : Bytes) :
    removeMargins width 0 (line ++ rest) = line ++ removeMargins width 0 rest := by
  induction line with
  | nil => rfl
  | cons b line ih =>
      rw [List.mem_cons, not_or] at oneLine
      rw [List.cons_append, removeMargins, if_neg (Ne.symm oneLine.1), ih oneLine.2,
        List.cons_append]

theorem removeMargins_lineFeed (rest : Bytes) :
    removeMargins width 0 (Byte.lineFeed :: rest) =
      Byte.lineFeed :: removeMargins width width rest := by
  rw [removeMargins, if_pos rfl]

theorem removeMargins_nil (skip : Nat) : removeMargins width skip [] = [] := by
  cases skip <;> rfl

/-- Lines behind a margin are the lines again when the margin is removed. -/
theorem IsLinesOf.removeMargins_eq {lines : List Bytes} {text : Bytes}
    (isLines : IsLinesOf lines text) (margin : Bytes) :
    removeMargins margin.length margin.length (lines.flatMap (margin ++ ·)) = text := by
  induction isLines with
  | nil => exact removeMargins_nil _
  | @last line _ oneLine =>
      rw [List.flatMap_singleton, removeMargins_margin, ← List.append_nil line,
        removeMargins_line oneLine, removeMargins_nil]
  | ended oneLine _ ih =>
      rw [List.flatMap_cons, List.append_assoc, removeMargins_margin, List.append_assoc,
        removeMargins_line oneLine, List.singleton_append, removeMargins_lineFeed, ih]

end Bytes

namespace Java

open Bytes (IsLinesOf)

variable {margin line : Bytes}

theorem indentAfterLines_line (oneLine : Byte.lineFeed ∉ line) (rest : Bytes) :
    indentAfterLines margin (line ++ rest) = line ++ indentAfterLines margin rest := by
  induction line with
  | nil => rfl
  | cons b line ih =>
      rw [List.mem_cons, not_or] at oneLine
      rw [List.cons_append, indentAfterLines, if_neg (fun isEnd => oneLine.1 isEnd.1.symm),
        ih oneLine.2, List.cons_append]

/-- Behind a line feed another line is indented, if there is one. -/
theorem indentAfterLines_lineFeed (rest : Bytes) :
    indentAfterLines margin (Byte.lineFeed :: rest) =
      Byte.lineFeed :: indentLines margin rest := by
  rw [indentAfterLines, indentLines]
  cases rest with
  | nil => rfl
  | cons b rest => rw [if_pos ⟨rfl, List.cons_ne_nil b rest⟩, if_neg (List.cons_ne_nil b rest)]

/-- The margin stands in front of every line, and nothing else is added. -/
theorem indentLines_eq {lines : List Bytes} {text : Bytes} (isLines : IsLinesOf lines text)
    (margin : Bytes) : indentLines margin text = lines.flatMap (margin ++ ·) := by
  induction isLines with
  | nil => rfl
  | @last line nonempty oneLine =>
      have ending : indentAfterLines margin (line ++ []) = line ++ [] :=
        indentAfterLines_line oneLine []
      rw [List.append_nil] at ending
      rw [indentLines, if_neg nonempty, ending, List.flatMap_singleton]
  | @ended line rest lines oneLine _ ih =>
      have nonempty : line ++ Byte.lineFeed :: rest ≠ [] :=
        List.append_ne_nil_of_right_ne_nil _ (List.cons_ne_nil _ _)
      rw [indentLines, if_neg nonempty, indentAfterLines_line oneLine, indentAfterLines_lineFeed,
        ih, List.flatMap_cons, List.append_assoc, List.append_assoc, List.singleton_append]

/-- What is left of a class without its header, its footer and the margin of its lines. -/
def classBody (indent : Nat) (name code : Bytes) : Bytes :=
  Bytes.removeMargins (2 * indent) (2 * indent) <|
    code.extract (classHeader indent name).length (code.length - (classFooter indent).length)

/-- A class that has the lines of a body in it and only indents them. -/
structure OnlyIndents (indent : Nat) (name body code : Bytes) : Prop where
  /-- The body has lines, and in one way only. -/
  lines : ∃! lines, IsLinesOf lines body
  /-- Each line stands behind two levels of spaces, between a header and a footer that do not depend
  on the body. -/
  text : ∀ lines, IsLinesOf lines body →
    code = utf8 "public class " ++ name ++ utf8 " \x7b\n" ++
      Bytes.spaces indent ++ utf8 "public static void main(String[] _args) \x7b\n" ++
      lines.flatMap (Bytes.spaces (2 * indent) ++ ·) ++
      Bytes.spaces indent ++ utf8 "\x7d\n\x7d\n"
  /-- The body can be read off the class. -/
  body : classBody indent name code = body

theorem spaces_append_spaces (indent : Nat) :
    Bytes.spaces indent ++ Bytes.spaces indent = Bytes.spaces (2 * indent) := by
  rw [Bytes.spaces, Bytes.spaces, List.replicate_append_replicate, Nat.two_mul]

/-- Between the header and the footer of a class there are the indented lines of the body. -/
theorem classBody_classText (indent : Nat) (name body : Bytes) :
    classBody indent name (classText indent name body) = body := by
  obtain ⟨lines, isLines⟩ := Bytes.exists_isLinesOf body
  have width : (Bytes.spaces (2 * indent)).length = 2 * indent := List.length_replicate
  have inner (header middle footer : Bytes) :
      (header ++ middle ++ footer).extract header.length
        ((header ++ middle ++ footer).length - footer.length) = middle := by
    rw [List.length_append, Nat.add_sub_cancel, List.length_append, List.extract_eq_take_drop,
      List.append_assoc, List.drop_left, Nat.add_sub_cancel_left, List.take_left]
  have removed := isLines.removeMargins_eq (Bytes.spaces (2 * indent))
  rw [width] at removed
  rw [classBody, classText, inner, spaces_append_spaces, indentLines_eq isLines, removed]

theorem onlyIndents_classText (indent : Nat) (name body : Bytes) :
    OnlyIndents indent name body (classText indent name body) where
  lines := by
    obtain ⟨lines, isLines⟩ := Bytes.exists_isLinesOf body
    exact ⟨lines, isLines, fun other isOther => isOther.unique isLines⟩
  text := by
    intro lines isLines
    rw [classText, indentLines_eq isLines, spaces_append_spaces, classHeader, classFooter]
    simp only [List.append_assoc]
  body := classBody_classText indent name body

/-- For every indentation, name and body there is a class. It only indents the body, and no other
body makes the same class. -/
theorem exists_onlyIndents_and_injective (indent : Nat) (name : Bytes) :
    (∀ body, ∃ code, wrapClass indent name body = .ok code ∧
        OnlyIndents indent name body code) ∧
      Function.Injective (wrapClass indent name) := by
  have wraps (body : Bytes) : wrapClass indent name body = .ok (classText indent name body) := rfl
  constructor
  · intro body
    exact ⟨_, wraps body, onlyIndents_classText indent name body⟩
  · intro body other same
    rw [wraps, wraps] at same
    rw [← classBody_classText indent name body, Except.ok.inj same, classBody_classText]

/-- An empty line is indented too, and no line feed is added behind the last line. -/
example : classText 1 (utf8 "A") (utf8 "x\n\n y") =
    utf8 "public class A \x7b\n public static void main(String[] _args) \x7b\n" ++
      utf8 "  x\n  \n   y \x7d\n\x7d\n" := by
  decide

end Java

end VarPrint
