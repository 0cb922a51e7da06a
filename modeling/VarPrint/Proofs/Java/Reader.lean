/-
# Reading Java text

The fragment of Java that the statements use, read back from bytes without regard to how they were
made. A text is cut at its line feeds. A line declares a local variable or prints, and its
expression is a literal or the name of a variable. The reader keeps type names, numerals and names
as they stand, so that it decides nothing about types or values. For every part there is one fact:
what is read from the written part is the part, when nothing behind it could continue it.
-/

import VarPrint.Java.Name
import VarPrint.Proofs.Token.Shape

namespace VarPrint.Java

open Bytes (Stops)
open Lexeme (IsDigits IsTextBody)

/-- An expression of the fragment. -/
inductive Term where
  /-- Digits without a point, and whether the suffix of a long follows them. -/
  | whole (digits : Bytes) (isLong : Bool)
  /-- Digits on both sides of a point. -/
  | point (whole fraction : Bytes)
  /-- What stands between two quotes. -/
  | text (content : Bytes)
  /-- The use of a local variable. -/
  | reference (name : Bytes)
deriving DecidableEq, Repr

/-- A line of the fragment. -/
inductive Line where
  /-- The declaration of a local variable with the name of its type. -/
  | declare (type name : Bytes) (init : Term)
  /-- The printing of a value. -/
  | println (argument : Term)
deriving DecidableEq, Repr

/-- The identifier at the front of an input, and what follows it. -/
def readIdentifier? (input : Bytes) : Option (Bytes × Bytes) :=
  let name := input.takeWhile isIdentifierPart
  if isIdentifier name then some (name, input.drop name.length) else none

/-- The content of a text up to the quote that closes it, and what follows the quote. -/
def readContent? : Bytes → Option (Bytes × Bytes)
  | [] => none
  | b :: rest =>
    if b = Byte.quote then some ([], rest)
    else if b = Byte.backslash then
      match rest with
      | [] => none
      | escaped :: rest =>
        (readContent? rest).map fun (content, after) => (b :: escaped :: content, after)
    else (readContent? rest).map fun (content, after) => (b :: content, after)

/-- The suffix of a literal of type long. -/
abbrev longSuffix : UInt8 := 0x4C

/-- The literal that a run of digits begins, and what follows it. -/
def readNumber? (digits : Bytes) : Bytes → Option (Term × Bytes)
  | [] => some (.whole digits false, [])
  | b :: rest =>
    if b = longSuffix then some (.whole digits true, rest)
    else if b = Byte.dot then
      let fraction := rest.takeWhile Byte.isDigit
      if fraction = [] then none
      else some (.point digits fraction, rest.drop fraction.length)
    else some (.whole digits false, b :: rest)

/-- The expression at the front of an input, and what follows it. -/
def readTerm? (input : Bytes) : Option (Term × Bytes) :=
  match input with
  | [] => none
  | b :: rest =>
    if b = Byte.quote then
      (readContent? rest).map fun (content, after) => (.text content, after)
    else if Byte.isDigit b then
      let digits := input.takeWhile Byte.isDigit
      readNumber? digits (input.drop digits.length)
    else (readIdentifier? input).map fun (name, after) => (.reference name, after)

/-- The line that the bytes between two line feeds are, if all of them are used. -/
def readLine? (line : Bytes) : Option Line :=
  match (utf8 "System.out.println(").isPrefixOf? line with
  | some rest => do
    let (argument, rest) ← readTerm? rest
    if rest = utf8 ");" then some (.println argument) else none
  | none => do
    let (type, rest) ← readIdentifier? line
    let rest ← (utf8 " ").isPrefixOf? rest
    let (name, rest) ← readIdentifier? rest
    let rest ← (utf8 " = ").isPrefixOf? rest
    let (init, rest) ← readTerm? rest
    if rest = utf8 ";" then some (.declare type name init) else none

/-- The lines of a text that was cut at its line feeds; nothing may follow the last of them. -/
def readPieces? : List Bytes → Option (List Line)
  | [] => none
  | [last] => if last = [] then some [] else none
  | piece :: pieces => do
    let line ← readLine? piece
    let lines ← readPieces? pieces
    return line :: lines

/-- The lines of a text. -/
def readText? (text : Bytes) : Option (List Line) :=
  readPieces? (text.splitOn Byte.lineFeed)

/-- A byte that could continue a numeral or a name. -/
def isTermByte (b : UInt8) : Bool :=
  isIdentifierPart b || b == Byte.dot

theorem isPrefixOf?_append (text rest : Bytes) : text.isPrefixOf? (text ++ rest) = some rest := by
  induction text with
  | nil => rfl
  | cons b text ih => exact (if_pos (beq_self_eq_true b)).trans ih

theorem isIdentifierPart_of_isIdentifier {name : Bytes} (isName : isIdentifier name = true) :
    ∀ b ∈ name, isIdentifierPart b = true := by
  cases name with
  | nil => simp
  | cons b rest =>
      obtain ⟨first, others⟩ := Bool.and_eq_true_iff.mp isName
      rw [List.forall_mem_cons]
      exact ⟨by rw [isIdentifierPart, first, Bool.true_or], List.all_eq_true.mp others⟩

theorem stops_isIdentifierPart {rest : Bytes} (stops : Stops isTermByte rest) :
    Stops isIdentifierPart rest :=
  fun b head => (Bool.or_eq_false_iff.mp (stops b head)).1

theorem stops_isDigit {rest : Bytes} (stops : Stops isIdentifierPart rest) :
    Stops Byte.isDigit rest :=
  fun b head => (Bool.or_eq_false_iff.mp (stops b head)).2

theorem readIdentifier?_append {name rest : Bytes} (isName : isIdentifier name = true)
    (stops : Stops isIdentifierPart rest) :
    readIdentifier? (name ++ rest) = some (name, rest) := by
  unfold readIdentifier?
  rw [stops.takeWhile_append (isIdentifierPart_of_isIdentifier isName)]
  dsimp only
  rw [if_pos isName, List.drop_left]

theorem readContent?_append {content : Bytes} (isBody : IsTextBody content) (rest : Bytes) :
    readContent? (content ++ Byte.quote :: rest) = some (content, rest) := by
  induction isBody with
  | nil =>
      rw [List.nil_append, readContent?.eq_def]
      dsimp only
      rw [if_pos rfl]
  | plain notQuote notBackslash _ _ ih =>
      rw [List.cons_append, readContent?.eq_def]
      dsimp only
      rw [if_neg notQuote, if_neg notBackslash, ih]
      rfl
  | escaped _ _ ih =>
      rw [List.cons_append, List.cons_append, readContent?.eq_def]
      dsimp only
      rw [if_neg (by decide), if_pos rfl, ih]
      rfl

theorem readTerm?_text {content : Bytes} (isBody : IsTextBody content) (rest : Bytes) :
    readTerm? (Lexeme.quoted content ++ rest) = some (.text content, rest) := by
  have split : Lexeme.quoted content ++ rest =
      Byte.quote :: (content ++ Byte.quote :: rest) := by
    simp [Lexeme.quoted]
  rw [split, readTerm?]
  dsimp only
  rw [if_pos rfl, readContent?_append isBody]
  rfl

/-- A run of digits is taken whole, and what follows decides which literal it begins. -/
theorem readTerm?_digits {digits rest : Bytes} (isDigits : IsDigits digits)
    (stops : Stops Byte.isDigit rest) : readTerm? (digits ++ rest) = readNumber? digits rest := by
  have taken := stops.takeWhile_append isDigits.2
  cases digits with
  | nil => exact absurd rfl isDigits.1
  | cons b tail =>
      have digit := isDigits.2 b List.mem_cons_self
      rw [List.cons_append] at taken ⊢
      rw [readTerm?]
      dsimp only
      rw [if_neg (Byte.ne_of_class digit rfl), if_pos digit, taken, ← List.cons_append,
        List.drop_left]

theorem readTerm?_int {digits rest : Bytes} (isDigits : IsDigits digits)
    (stops : Stops isTermByte rest) :
    readTerm? (digits ++ rest) = some (.whole digits false, rest) := by
  rw [readTerm?_digits isDigits (stops_isDigit (stops_isIdentifierPart stops))]
  cases rest with
  | nil => rfl
  | cons b tail =>
      have outside := stops b rfl
      have notSuffix : b ≠ longSuffix := by
        rintro rfl
        cases outside
      have notDot : b ≠ Byte.dot := by
        rintro rfl
        cases outside
      rw [readNumber?, if_neg notSuffix, if_neg notDot]

theorem readTerm?_long {digits : Bytes} (isDigits : IsDigits digits) (rest : Bytes) :
    readTerm? (digits ++ longSuffix :: rest) = some (.whole digits true, rest) := by
  rw [readTerm?_digits isDigits (.cons rfl rest), readNumber?, if_pos rfl]

theorem readTerm?_point {whole fraction rest : Bytes} (isWhole : IsDigits whole)
    (isFraction : IsDigits fraction) (stops : Stops isTermByte rest) :
    readTerm? (whole ++ Byte.dot :: fraction ++ rest) = some (.point whole fraction, rest) := by
  have after := (stops_isDigit (stops_isIdentifierPart stops)).takeWhile_append isFraction.2
  rw [List.append_assoc, List.cons_append, readTerm?_digits isWhole (.cons rfl _), readNumber?,
    if_neg (by decide), if_pos rfl, after]
  dsimp only
  rw [if_neg isFraction.1, List.drop_left]

theorem isDigit_of_isIdentifierStart {b : UInt8} (start : isIdentifierStart b = true) :
    Byte.isDigit b = false := by
  simp only [isIdentifierStart, Bool.or_eq_true, beq_iff_eq] at start
  obtain (letter | rfl) | rfl := start
  · exact Byte.isDigit_of_isLetter letter
  · rfl
  · rfl

theorem readTerm?_reference {name rest : Bytes} (isName : isIdentifier name = true)
    (stops : Stops isIdentifierPart rest) :
    readTerm? (name ++ rest) = some (.reference name, rest) := by
  have read := readIdentifier?_append isName stops
  cases name with
  | nil => cases isName
  | cons b tail =>
      have first := (Bool.and_eq_true_iff.mp isName).1
      have notQuote : b ≠ Byte.quote := Byte.ne_of_class first rfl
      have notDigit : ¬ Byte.isDigit b = true := by simp [isDigit_of_isIdentifierStart first]
      rw [List.cons_append] at read ⊢
      rw [readTerm?]
      dsimp only
      rw [if_neg notQuote, if_neg notDigit, read]
      rfl

theorem readPieces?_cons {pieces : List Bytes} (more : pieces ≠ []) (piece : Bytes) :
    readPieces? (piece :: pieces) = do
      let line ← readLine? piece
      let lines ← readPieces? pieces
      return line :: lines := by
  rw [readPieces?]
  exact more

end VarPrint.Java
