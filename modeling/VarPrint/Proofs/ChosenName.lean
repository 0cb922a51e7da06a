/-
# The chosen class name

The class for a file is named by the configuration, or after the file. A name is usable if it is an
identifier, no word that Java reserves, and neither of the classes that the text of a class uses.
The class for printing is among the reserved words, and the class of texts is asked for apart.

With a valid configuration the name is always an identifier. A configured one is looked at no
further, so it may be a reserved word. One that is made from a path is made from itself, which holds
of a single reserved word. Every run of the name of the file puts a letter in upper case, so the two
classes are made from single runs, and the name is usable unless such a run spells one of them.
-/

import VarPrint.Proofs.Compiler
import VarPrint.Proofs.Token.Pattern

namespace VarPrint

open scoped Computability
open Bytes (IsRunsOf)

namespace Pattern

/-- A letter, a low line or a dollar sign, and then these and digits. -/
def identifier : Language Char :=
  (oneOf fun c => (c.isAlpha ∨ c = '_') ∨ c = '$') *
    (oneOf fun c => ((c.isAlpha ∨ c = '_') ∨ c = '$') ∨ c.isDigit)∗

theorem isAscii_identifierStart :
    IsAscii (fun c => (c.isAlpha ∨ c = '_') ∨ c = '$') Java.isIdentifierStart :=
  (isAscii_isAlpha.or (isAscii_eq (by decide))).or (isAscii_eq (by decide))

theorem matches_identifier_iff {name rest : Bytes} :
    Matches identifier name rest ↔ Java.isIdentifier name = true := by
  have isAscii_part := isAscii_identifierStart.or isAscii_isDigit
  rw [identifier, matches_mul_iff]
  simp only [isAscii_identifierStart.matches_iff, isAscii_part.matches_kstar_iff]
  cases name with
  | nil => simp [Java.isIdentifier]
  | cons b name =>
      rw [Java.isIdentifier, Bool.and_eq_true, List.all_eq_true]
      constructor
      · rintro ⟨_, back, split, ⟨c, start, rfl⟩, parts⟩
        obtain ⟨rfl, rfl⟩ := List.cons.inj split
        exact ⟨start, parts⟩
      · rintro ⟨start, parts⟩
        exact ⟨[b], name, rfl, ⟨b, start, rfl⟩, parts⟩

end Pattern

theorem Byte.isUpper_iff {b : UInt8} :
    Byte.isUpper b = true ↔ 0x41 ≤ b.toNat ∧ b.toNat ≤ 0x5A := by
  simp [Byte.isUpper, UInt8.le_iff_toNat_le]

/-- Only a capital letter and its small letter have it as their upper case. -/
theorem Byte.toUpper_eq_iff {b capital : UInt8} (isUpper : Byte.isUpper capital = true) :
    Byte.toUpper b = capital ↔ b = capital ∨ b = capital + 0x20 := by
  rw [Byte.isUpper_iff] at isUpper
  have lower := Byte.isLower_iff (b := b)
  simp only [← UInt8.toNat_inj, Byte.toNat_toUpper, UInt8.toNat_add, UInt8.reduceToNat]
  split
  next isLower =>
    rw [lower] at isLower
    omega
  next other =>
    rw [lower] at other
    omega

namespace Java

variable {name tail : Bytes} {capital : UInt8} {runs : List (Nat × Bytes)}

/-- A name that a class may have beside the names that its text uses. -/
structure IsUsable (name : Bytes) : Prop where
  identifier : Pattern.Matches Pattern.identifier name []
  notReserved : name ∉ reserved
  notString : name ≠ utf8 "String"

/-- A name that is made is made from itself, and the class for printing is the only reserved word of
which this holds. -/
theorem className_mem_reserved_iff :
    className name ∈ reserved ↔ className name = utf8 "System" := by
  have normal : ∀ word ∈ reserved, className word = word → word = utf8 "System" := by decide
  constructor
  · intro member
    exact normal _ member (className_className name)
  · intro same
    rw [same]
    decide

/-- A name that begins with a capital letter is what is joined, unless it stands in for nothing. -/
theorem className_eq_cons_iff (isUpper : Byte.isUpper capital = true)
    (notMain : capital :: tail ≠ utf8 "Main") :
    className name = capital :: tail ↔ joinRuns true name = capital :: tail := by
  have notDigit : ¬ Byte.isDigit capital = true := by
    rw [Byte.isUpper_iff] at isUpper
    rw [Byte.isDigit_iff]
    omega
  constructor
  · intro made
    cases joined : joinRuns true name with
    | nil => exact absurd (made.symm.trans (className_of_nil joined)) notMain
    | cons b rest =>
        rw [className_of_cons joined] at made
        split at made
        · obtain ⟨rfl, _⟩ := List.cons.inj made
          cases isUpper
        · exact made
  · intro joined
    rw [className_of_cons joined, if_neg notDigit]

/-- Every further run would put one more letter in upper case, or a digit. -/
theorem exists_run_of_joined {runs : List Bytes} (nonempty : ∀ run ∈ runs, run ≠ [])
    (lower : tail.all Byte.isLower = true)
    (joined : runs.flatMap (List.modifyHead Byte.toUpper) = capital :: tail) :
    ∃ b, Byte.toUpper b = capital ∧ runs = [b :: tail] := by
  cases runs with
  | nil => cases joined
  | cons first others =>
      rw [List.forall_mem_cons] at nonempty
      obtain ⟨b, run, rfl⟩ := List.exists_cons_of_ne_nil nonempty.1
      rw [List.flatMap_cons, List.modifyHead_cons, List.cons_append] at joined
      obtain ⟨isCapital, isTail⟩ := List.cons.inj joined
      cases others with
      | nil =>
          rw [List.flatMap_nil, List.append_nil] at isTail
          exact ⟨b, isCapital, by rw [isTail]⟩
      | cons second others =>
          obtain ⟨c, more, rfl⟩ := List.exists_cons_of_ne_nil (nonempty.2 second List.mem_cons_self)
          have inTail : Byte.toUpper c ∈ tail := by
            rw [← isTail]
            simp
          have isLower := List.all_eq_true.mp lower _ inTail
          rw [Byte.isLower_toUpper] at isLower
          cases isLower

/-- A capital letter with small ones behind it is made from a single run. -/
theorem className_eq_iff (isRuns : IsRunsOf Byte.isAlphanumeric runs name)
    (isUpper : Byte.isUpper capital = true) (lower : tail.all Byte.isLower = true)
    (notMain : capital :: tail ≠ utf8 "Main") :
    className name = capital :: tail ↔
      runs.map Prod.snd = [capital :: tail] ∨ runs.map Prod.snd = [(capital + 0x20) :: tail] := by
  have capitals (b : UInt8) : Byte.toUpper b = capital ↔ b = capital ∨ b = capital + 0x20 :=
    Byte.toUpper_eq_iff isUpper
  have nonempty : ∀ run ∈ runs.map Prod.snd, run ≠ [] := by
    intro run member
    obtain ⟨entry, inRuns, rfl⟩ := List.mem_map.mp member
    exact isRuns.ne_nil inRuns
  rw [className_eq_cons_iff isUpper notMain, joinRuns_eq isRuns]
  constructor
  · intro joined
    obtain ⟨b, isCapital, single⟩ := exists_run_of_joined nonempty lower joined
    rw [single]
    rcases (capitals b).mp isCapital with rfl | rfl
    · exact .inl rfl
    · exact .inr rfl
  · rintro (single | single)
    · rw [single, List.flatMap_singleton, List.modifyHead_cons, (capitals _).mpr (.inl rfl)]
    · rw [single, List.flatMap_singleton, List.modifyHead_cons, (capitals _).mpr (.inr rfl)]

/-- The runs that spell one of the two classes, up to the case of their first letter. -/
def spoiling : List Bytes :=
  ["System", "system", "String", "string"].map utf8

/-- One of the two classes is made from a single run that spells it. -/
theorem className_mem_iff (isRuns : IsRunsOf Byte.isAlphanumeric runs name) :
    className name = utf8 "System" ∨ className name = utf8 "String" ↔
      ∃ run ∈ spoiling, runs.map Prod.snd = [run] := by
  have system : className name = utf8 "System" ↔
      runs.map Prod.snd = [utf8 "System"] ∨ runs.map Prod.snd = [utf8 "system"] :=
    className_eq_iff isRuns (by decide) (by decide) (by decide)
  have string : className name = utf8 "String" ↔
      runs.map Prod.snd = [utf8 "String"] ∨ runs.map Prod.snd = [utf8 "string"] :=
    className_eq_iff isRuns (by decide) (by decide) (by decide)
  rw [system, string, spoiling]
  simp only [List.map_cons, List.map_nil, List.exists_mem_cons_iff, List.not_mem_nil, false_and,
    exists_false, or_false, or_assoc]

end Java

namespace Compiler

/-- What keeps the name of a class off the names that are taken. A configured name must be none of
them. A name after a file must not come from a single run that spells one of the two classes. -/
def AvoidsTakenNames (config : Config) (input : Bytes) : Prop :=
  if config.className ≠ [] then
    config.className ∉ Java.reserved ∧ config.className ≠ utf8 "String"
  else ∀ runs, IsRunsOf Byte.isLetterOrDigit runs (Path.baseStem input) →
    ¬ ∃ run ∈ Java.spoiling, runs.map Prod.snd = [run]

/-- With a valid configuration a class is named by an identifier, and the name is usable exactly if
it avoids the names that are taken. -/
theorem matches_identifier_and_isUsable_iff {config : Config} (valid : config.problem? = none)
    (input : Bytes) :
    Pattern.Matches Pattern.identifier (className config input) [] ∧
      (Java.IsUsable (className config input) ↔ AvoidsTakenNames config input) := by
  have identifier : Pattern.Matches Pattern.identifier (className config input) [] :=
    Pattern.matches_identifier_iff.mpr (isIdentifier_className valid input)
  have usable : Java.IsUsable (className config input) ↔
      className config input ∉ Java.reserved ∧ className config input ≠ utf8 "String" :=
    ⟨fun usable => ⟨usable.notReserved, usable.notString⟩,
      fun avoids => ⟨identifier, avoids.1, avoids.2⟩⟩
  refine ⟨identifier, ?_⟩
  rw [usable, AvoidsTakenNames, className]
  split
  · rfl
  · obtain ⟨runs, isRuns, _⟩ := Java.exists_runs_joinRuns (Path.baseStem input)
    rw [Java.className_mem_reserved_iff, ← not_or, Java.className_mem_iff isRuns,
      Byte.isLetterOrDigit_eq]
    constructor
    · intro avoids others areRuns
      rwa [areRuns.unique isRuns]
    · intro avoids
      exact avoids runs isRuns

/-- A file whose name holds one of the classes as a run, beside another run. -/
theorem isUsable_className_beside :
    Config.default.problem? = none ∧
      AvoidsTakenNames Config.default (utf8 "src/my-system.bal") ∧
      Java.IsUsable (className Config.default (utf8 "src/my-system.bal")) := by
  have valid : Config.default.problem? = none := rfl
  have avoids : AvoidsTakenNames Config.default (utf8 "src/my-system.bal") := by
    rintro runs isRuns ⟨run, member, single⟩
    have differs : ∀ run ∈ Java.spoiling, Java.joinRuns true (utf8 "my-system") ≠
        [run].flatMap (List.modifyHead Byte.toUpper) := by
      decide
    rw [Byte.isLetterOrDigit_eq] at isRuns
    have joined := Java.joinRuns_eq isRuns
    rw [single] at joined
    exact differs run member joined
  exact ⟨valid, avoids, (matches_identifier_and_isUsable_iff valid _).2.mpr avoids⟩

/-- Names that are not usable: a configured keyword, and the two classes as names of files. -/
theorem not_isUsable_className_taken :
    (∃ config : Config, config.problem? = none ∧ config.className = utf8 "class" ∧
      ¬ Java.IsUsable (className config (utf8 "a.bal"))) ∧
    Config.default.problem? = none ∧
      ¬ Java.IsUsable (className Config.default (utf8 "system.bal")) ∧
      ¬ Java.IsUsable (className Config.default (utf8 "string.bal")) := by
  refine ⟨⟨⟨utf8 "class", [], 4, false⟩, by decide, rfl, ?_⟩, rfl, ?_, ?_⟩
  · intro usable
    exact absurd usable.notReserved (by decide)
  · intro usable
    exact absurd usable.notReserved (by decide)
  · intro usable
    exact absurd usable.notString (by decide)

end Compiler

end VarPrint
