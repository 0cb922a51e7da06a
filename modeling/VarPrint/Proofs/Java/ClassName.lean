/-
# Names of classes

The name of a class is made from any text. Its runs of letters and digits are joined, each with its
first byte in upper case, and a low line is put in front of a leading digit. The runs are those that
the text has by their own description, and the classes and the case of a byte are those of the
character with its code, since the classes of characters are those of ASCII as well.

What comes out is an identifier. It is also a normal form: apart from the low line, which no run
holds, it is a single run that begins in upper case, so it is the name that is made from it.
-/

import VarPrint.Java.ClassFile
import VarPrint.Java.Name
import VarPrint.Proofs.Text.Run
import VarPrint.Proofs.Token.Pattern
import Mathlib.Logic.ExistsUnique

namespace VarPrint

namespace Byte

variable {b : UInt8}

/-- The character with the code of a byte. -/
def char (b : UInt8) : Char :=
  Char.ofNat b.toNat

/-- A letter or a digit, by the classes of characters. -/
def isLetterOrDigit (b : UInt8) : Bool :=
  (char b).isAlphanum

/-- The upper-case form of a byte, by the case of characters. -/
def upperCase (b : UInt8) : UInt8 :=
  UInt8.ofNat (char b).toUpper.toNat

theorem toNat_char (b : UInt8) : (char b).toNat = b.toNat := by
  have small : b.toNat < 256 := UInt8.toNat_lt b
  have valid : b.toNat.isValidChar := .inl (by omega)
  rw [char, Char.ofNat, dif_pos valid]
  rfl

/-- A class of characters within ASCII is the class of bytes with their codes. -/
theorem char_iff {p : Char → Prop} {q : UInt8 → Bool} (isAscii : Pattern.IsAscii p q) (b : UInt8) :
    p (char b) ↔ q b = true := by
  rw [isAscii.agrees]
  constructor
  · intro inClass
    have small := isAscii.small _ inClass
    rw [toNat_char] at small
    exact ⟨UInt8.lt_iff_toNat_lt.mpr small, inClass⟩
  · exact And.right

theorem isDigit_char (b : UInt8) : (char b).isDigit = isDigit b :=
  Bool.eq_iff_iff.mpr (char_iff Pattern.isAscii_isDigit b)

theorem isLetterOrDigit_eq : isLetterOrDigit = isAlphanumeric := by
  funext b
  have classes := char_iff (Pattern.isAscii_isAlpha.or Pattern.isAscii_isDigit) b
  rwa [← Bool.or_eq_true, ← Bool.eq_iff_iff] at classes

theorem isLower_iff : isLower b = true ↔ 0x61 ≤ b.toNat ∧ b.toNat ≤ 0x7A := by
  simp [isLower, UInt8.le_iff_toNat_le]

theorem toNat_toUpper (b : UInt8) :
    (toUpper b).toNat = if isLower b then b.toNat - 0x20 else b.toNat := by
  rw [toUpper]
  split
  next lower =>
    have le : (0x20 : UInt8) ≤ b :=
      UInt8.le_iff_toNat_le.mpr (Nat.le_trans (by decide) (isLower_iff.mp lower).1)
    exact UInt8.toNat_sub_of_le _ _ le
  next => rfl

theorem upperCase_eq : upperCase = toUpper := by
  funext b
  have lower : isLower b = true ↔ 0x61 ≤ (char b).val ∧ (char b).val ≤ 0x7A := by
    rw [isLower_iff, ← toNat_char b, UInt32.le_iff_toNat_le, UInt32.le_iff_toNat_le]
    rfl
  have code : (char b).toUpper.toNat = (toUpper b).toNat := by
    rw [toNat_toUpper, ← toNat_char b]
    generalize char b = c at lower
    show (if _ : 0x61 ≤ c.val ∧ c.val ≤ 0x7A then Char.mk (c.val + (0x41 - 0x61)) _
      else c).toNat = _
    by_cases range : 0x61 ≤ c.val ∧ c.val ≤ 0x7A
    · rw [dif_pos range, if_pos (lower.mpr range)]
      have low := UInt32.le_iff_toNat_le.mp range.1
      have high := UInt32.le_iff_toNat_le.mp range.2
      show (c.val + (0x41 - 0x61)).toNat = c.val.toNat - 0x20
      rw [UInt32.toNat_add]
      simp only [UInt32.reduceToNat, UInt32.reduceSub, Nat.reducePow] at low high ⊢
      omega
    · rw [dif_neg range, if_neg (mt lower.mp range)]
  rw [upperCase, code, UInt8.ofNat_toNat]

/-- No byte in upper case is a lower-case letter. -/
theorem isLower_toUpper (b : UInt8) : isLower (toUpper b) = false := by
  rw [← Bool.not_eq_true, isLower_iff, toNat_toUpper]
  split
  next lower =>
    rw [isLower_iff] at lower
    omega
  next other => exact mt isLower_iff.mpr other

theorem toUpper_toUpper (b : UInt8) : toUpper (toUpper b) = toUpper b := by
  rw [toUpper, if_neg (Bool.eq_false_iff.mp (isLower_toUpper b))]

theorem isAlphanumeric_toUpper (alphanumeric : isAlphanumeric b = true) :
    isAlphanumeric (toUpper b) = true := by
  by_cases lower : isLower b = true
  · have range := isLower_iff.mp lower
    rw [isAlphanumeric, Bool.or_eq_true, isLetter_iff, toNat_toUpper, if_pos lower]
    omega
  · rw [toUpper, if_neg lower]
    exact alphanumeric

end Byte

namespace Java

open Bytes (IsRunsOf Stops)

variable {run rest name : Bytes}

/-- The name that runs of letters and digits make: all of them, each beginning in upper case. There
is a name to stand in where there are no runs, and a low line keeps a digit from coming first. -/
def nameOfRuns (runs : List Bytes) : Bytes :=
  let joined := runs.flatMap (List.modifyHead Byte.upperCase)
  if runs = [] then utf8 "Main"
  else if joined.head?.any fun b => (Byte.char b).isDigit then utf8 "_" ++ joined
  else joined

/-! What is joined -/

/-- Inside a run nothing is put into upper case. -/
theorem joinRuns_inside (alphanumeric : ∀ b ∈ run, Byte.isAlphanumeric b = true)
    (stops : Stops Byte.isAlphanumeric rest) :
    joinRuns false (run ++ rest) = run ++ joinRuns true rest := by
  induction run with
  | nil =>
      cases rest with
      | nil => rfl
      | cons b rest =>
          have other : ¬ Byte.isAlphanumeric b = true := by simp [stops b rfl]
          rw [List.nil_append, List.nil_append, joinRuns, joinRuns, if_neg other, if_neg other]
  | cons b run ih =>
      rw [List.forall_mem_cons] at alphanumeric
      rw [List.cons_append, joinRuns, if_pos alphanumeric.1, ih alphanumeric.2, List.cons_append]
      rfl

theorem joinRuns_run (alphanumeric : ∀ b ∈ run, Byte.isAlphanumeric b = true)
    (stops : Stops Byte.isAlphanumeric rest) :
    joinRuns true (run ++ rest) = run.modifyHead Byte.toUpper ++ joinRuns true rest := by
  cases run with
  | nil => rfl
  | cons b run =>
      rw [List.forall_mem_cons] at alphanumeric
      rw [List.cons_append, joinRuns, if_pos alphanumeric.1, joinRuns_inside alphanumeric.2 stops]
      rfl

theorem exists_runs_joinRuns (name : Bytes) :
    ∃ runs, IsRunsOf Byte.isAlphanumeric runs name ∧
      joinRuns true name = (runs.map Prod.snd).flatMap (List.modifyHead Byte.toUpper) := by
  induction name using Bytes.run_induction (p := Byte.isAlphanumeric) with
  | nil => exact ⟨[], .none (by simp), rfl⟩
  | skip b rest other ih =>
      obtain ⟨runs, isRuns, joined⟩ := ih
      have noRun : Bytes.NoRunOver Byte.isAlphanumeric [b] rest :=
        .inl (by simpa [Bytes.EndsOutside])
      refine ⟨_, .append noRun (.none (by simpa)) isRuns, ?_⟩
      rw [joinRuns, if_neg (by simp [other]), joined]
      simp [Function.comp_def]
  | run run rest nonempty alphanumeric stops ih =>
      obtain ⟨runs, isRuns, joined⟩ := ih
      refine ⟨_, .append (.inr stops) (.whole nonempty alphanumeric) isRuns, ?_⟩
      rw [joinRuns_run alphanumeric stops, joined]
      simp [Function.comp_def]

theorem joinRuns_eq {runs : List (Nat × Bytes)} (isRuns : IsRunsOf Byte.isAlphanumeric runs name) :
    joinRuns true name = (runs.map Prod.snd).flatMap (List.modifyHead Byte.toUpper) := by
  obtain ⟨others, areRuns, joined⟩ := exists_runs_joinRuns name
  rw [isRuns.unique areRuns, joined]

theorem isAlphanumeric_of_mem_joinRuns {b : UInt8} {atStart : Bool} {name : Bytes}
    (member : b ∈ joinRuns atStart name) : Byte.isAlphanumeric b = true := by
  induction name generalizing atStart with
  | nil => cases member
  | cons c name ih =>
      rw [joinRuns] at member
      split at member
      next alphanumeric =>
        rcases List.mem_cons.mp member with rfl | later
        · split
          · exact Byte.isAlphanumeric_toUpper alphanumeric
          · exact alphanumeric
        · exact ih later
      · exact ih member

/-- What is joined begins in upper case, so joining it again changes nothing. -/
theorem joinRuns_joinRuns (name : Bytes) :
    joinRuns true (joinRuns true name) = joinRuns true name := by
  have upper : (joinRuns true name).modifyHead Byte.toUpper = joinRuns true name := by
    induction name with
    | nil => rfl
    | cons b name ih =>
        rw [joinRuns]
        split
        · rw [if_pos rfl, List.modifyHead_cons, Byte.toUpper_toUpper]
        · exact ih
  have again : joinRuns true (joinRuns true name ++ []) =
      (joinRuns true name).modifyHead Byte.toUpper ++ [] :=
    joinRuns_run (fun b => isAlphanumeric_of_mem_joinRuns) (by simp [Stops])
  rwa [List.append_nil, List.append_nil, upper] at again

/-! The name -/

theorem className_of_nil (joined : joinRuns true name = []) : className name = utf8 "Main" := by
  rw [className, joined]

theorem className_of_cons {b : UInt8} (joined : joinRuns true name = b :: rest) :
    className name = if Byte.isDigit b then Byte.underscore :: b :: rest else b :: rest := by
  rw [className, joined]

/-- The class name made from any text is an identifier. -/
theorem isIdentifier_className (name : Bytes) : isIdentifier (className name) = true := by
  have parts {rest : Bytes} (alphanumeric : ∀ b ∈ rest, Byte.isAlphanumeric b = true) :
      rest.all isIdentifierPart = true := by
    rw [List.all_eq_true]
    intro b member
    rcases Bool.or_eq_true_iff.mp (alphanumeric b member) with letter | digit
    · simp [isIdentifierPart, isIdentifierStart, letter]
    · simp [isIdentifierPart, digit]
  have runs : ∀ b ∈ joinRuns true name, Byte.isAlphanumeric b = true :=
    fun b member => isAlphanumeric_of_mem_joinRuns member
  cases joined : joinRuns true name with
  | nil =>
      rw [className_of_nil joined]
      decide
  | cons b rest =>
      rw [joined] at runs
      rw [className_of_cons joined]
      split
      · rw [isIdentifier, parts runs]
        rfl
      next notDigit =>
        obtain ⟨first, others⟩ := List.forall_mem_cons.mp runs
        have letter : Byte.isLetter b = true := by
          simpa [Byte.isAlphanumeric, notDigit] using first
        rw [isIdentifier, parts others, isIdentifierStart, letter]
        rfl

/-- The name of a text is the one that its runs make. -/
theorem className_eq_nameOfRuns {runs : List (Nat × Bytes)}
    (isRuns : IsRunsOf Byte.isLetterOrDigit runs name) :
    className name = nameOfRuns (runs.map Prod.snd) := by
  rw [Byte.isLetterOrDigit_eq] at isRuns
  have joined := joinRuns_eq isRuns
  rw [nameOfRuns, Byte.upperCase_eq]
  simp only [Byte.isDigit_char]
  rw [← joined]
  cases runs with
  | nil =>
      rw [className_of_nil joined]
      rfl
  | cons first others =>
      -- The first run is not empty, so neither is what is joined.
      obtain ⟨b, run, isFirst⟩ := List.exists_cons_of_ne_nil (isRuns.ne_nil List.mem_cons_self)
      rw [List.map_cons, List.flatMap_cons, isFirst, List.modifyHead_cons, List.cons_append]
        at joined
      have listed : (first :: others).map Prod.snd ≠ [] := List.cons_ne_nil _ _
      rw [className_of_cons joined, joined, if_neg listed]
      rfl

/-- A name that is made of runs is made of itself. -/
theorem className_className (name : Bytes) : className (className name) = className name := by
  have again := joinRuns_joinRuns name
  cases joined : joinRuns true name with
  | nil =>
      rw [className_of_nil joined]
      decide
  | cons b rest =>
      rw [joined] at again
      rw [className_of_cons joined]
      split
      next digit =>
        -- The low line is no part of a run and comes back in front of the digit.
        have skipped : joinRuns true (Byte.underscore :: b :: rest) = b :: rest := by
          rw [joinRuns, if_neg (by decide), again]
        rw [className_of_cons skipped, if_pos digit]
      next notDigit => rw [className_of_cons again, if_neg notDigit]

/-- What is known of the class name that is made from a text. -/
structure IsNormalName (name made : Bytes) : Prop where
  /-- The text has runs of letters and digits, and one listing of them. -/
  runs : ∃! runs, IsRunsOf Byte.isLetterOrDigit runs name
  /-- The name joins these runs in order, each of them beginning in upper case. -/
  joined : ∀ runs, IsRunsOf Byte.isLetterOrDigit runs name → made = nameOfRuns (runs.map Prod.snd)
  /-- The name is an identifier. -/
  identifier : isIdentifier made = true
  /-- The name that is made from it is the same. -/
  again : className made = made

/-- From every text a name is made that is an identifier and a normal form. -/
theorem isNormalName_className (name : Bytes) : IsNormalName name (className name) where
  runs := by
    obtain ⟨runs, isRuns, _⟩ := exists_runs_joinRuns name
    rw [← Byte.isLetterOrDigit_eq] at isRuns
    exact ⟨runs, isRuns, fun others areRuns => areRuns.unique isRuns⟩
  joined := fun runs isRuns => className_eq_nameOfRuns isRuns
  identifier := isIdentifier_className name
  again := className_className name

/-- Separators, a rune outside ASCII, a byte that is no rune, and a digit in front. -/
example : className (utf8 "7-ação" ++ 0xFF :: utf8 "x_Y2") = utf8 "_7AOXY2" := by
  decide

end Java

end VarPrint
