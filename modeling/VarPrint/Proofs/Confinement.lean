/-
# Where compiling a file writes

A task asks for changes to files, and what it asks for next may hang on every answer that it gets.
Here the changes that a task can ask for are described for all answers at once, so that nothing is
assumed about the files of a machine. Compiling a file can ask for two changes only: to make the
output directory, in its shortest form, and to write one file right in it. That file is named for
the class, and the name of a class has no byte that could lead a path elsewhere, whether it comes
from the configuration or from the path of the source.
-/

import VarPrint.Proofs.Compiler

namespace VarPrint

namespace FileTask

variable {α : Type}

/-- A change to files that a task can ask for. -/
inductive Change where
  | directories (path : Bytes)
  | file (path content : Bytes)
deriving DecidableEq, Repr

/-- The changes that a task asks for if the requests before them get the right answers. -/
inductive Asks : FileTask α → Change → Prop
  | makes {path : Bytes} {next : Except FileError Unit → FileTask α} :
      Asks (.makeDirectories path next) (.directories path)
  | writes {path content : Bytes} {next : Except FileError Unit → FileTask α} :
      Asks (.write path content next) (.file path content)
  | look {path : Bytes} {next : Bool → FileTask α} {change : Change} (answer : Bool)
      (asks : Asks (next answer) change) : Asks (.look path next) change
  | read {path : Bytes} {next : Except FileError Bytes → FileTask α} {change : Change}
      (answer : Except FileError Bytes) (asks : Asks (next answer) change) :
      Asks (.read path next) change
  | makeDirectories {path : Bytes} {next : Except FileError Unit → FileTask α} {change : Change}
      (answer : Except FileError Unit) (asks : Asks (next answer) change) :
      Asks (.makeDirectories path next) change
  | write {path content : Bytes} {next : Except FileError Unit → FileTask α} {change : Change}
      (answer : Except FileError Unit) (asks : Asks (next answer) change) :
      Asks (.write path content next) change

namespace Asks

variable {β : Type} {change : Change}

theorem not_pure (value : α) : ¬ (pure value : FileTask α).Asks change := by
  intro asks
  cases asks

/-- A task asks for what its first part asks for. -/
theorem bind_left {task : FileTask α} (asks : task.Asks change) (f : α → FileTask β) :
    (task >>= f).Asks change := by
  induction asks with
  | makes => exact .makes
  | writes => exact .writes
  | look answer _ ih => exact .look answer ih
  | read answer _ ih => exact .read answer ih
  | makeDirectories answer _ ih => exact .makeDirectories answer ih
  | write answer _ ih => exact .write answer ih

/-- What a task asks for comes from its first part, or from what follows some value of it. -/
theorem of_bind {task : FileTask α} {f : α → FileTask β} (asks : (task >>= f).Asks change) :
    task.Asks change ∨ ∃ value, (f value).Asks change := by
  induction task with
  | done value => exact .inr ⟨value, asks⟩
  | look path next ih =>
      cases asks with
      | look answer asks => exact (ih answer asks).imp_left (.look answer)
  | read path next ih =>
      cases asks with
      | read answer asks => exact (ih answer asks).imp_left (.read answer)
  | makeDirectories path next ih =>
      cases asks with
      | makes => exact .inl .makes
      | makeDirectories answer asks => exact (ih answer asks).imp_left (.makeDirectories answer)
  | write path content next ih =>
      cases asks with
      | writes => exact .inl .writes
      | write answer asks => exact (ih answer asks).imp_left (.write answer)

end Asks

end FileTask

namespace Compiler

open FileTask (Change Asks)

variable {config : Config} {input directory : Bytes} {change : Change}

/-- Reading a source asks for no change, and its answer may be an error or any content. -/
theorem asks_readSource_bind_iff {β : Type} {path : Bytes}
    {f : Except CompileError Bytes → FileTask β} :
    (readSource path >>= f).Asks change ↔
      (∃ error, (f (.error (.unreadable error))).Asks change) ∨
        ∃ content, (f (.ok content)).Asks change := by
  constructor
  · intro asks
    cases asks with
    | read answer asks =>
        cases answer with
        | error error => exact .inl ⟨error, asks⟩
        | ok content => exact .inr ⟨content, asks⟩
  · rintro (⟨error, asks⟩ | ⟨content, asks⟩)
    · exact .read (.error error) asks
    · exact .read (.ok content) asks

/-- Writing a file asks for its directory, and then for the file. -/
theorem asks_writeResult_iff {path content : Bytes} :
    (writeResult path content).Asks change ↔
      change = .directories (Path.parent path) ∨ change = .file path content := by
  constructor
  · intro asks
    cases asks with
    | makes => exact .inl rfl
    | makeDirectories answer asks =>
        rcases answer with error | _
        · cases asks
        · cases asks with
          | writes => exact .inr rfl
          | write answer asks => cases asks
  · rintro (rfl | rfl)
    · exact .makes
    · exact .makeDirectories (.ok ()) .writes

/-- Compiling a file asks for the changes that writing a class asks for, provided that there is a
source which the class comes from. -/
theorem asks_compileFile_iff :
    (compileFile config input directory).Asks change ↔
      ∃ source code, compileClass config source (className config input) = .ok code ∧
        (writeResult (outputPath config input directory) code).Asks change := by
  rw [compileFile, asks_readSource_bind_iff]
  dsimp only
  constructor
  · rintro (⟨error, asks⟩ | ⟨source, asks⟩)
    · exact absurd asks (Asks.not_pure _)
    · refine ⟨source, ?_⟩
      cases compiled : compileClass config source (className config input) with
      | error fault =>
          rw [compiled] at asks
          exact absurd asks (Asks.not_pure _)
      | ok code =>
          rw [compiled] at asks
          refine ⟨code, rfl, ?_⟩
          rcases asks.of_bind with written | ⟨answer, asks⟩
          · exact written
          · -- Nothing is asked for once the class is written or cannot be.
            rcases answer with error | _ <;> exact absurd asks (Asks.not_pure _)
  · rintro ⟨source, code, compiled, asks⟩
    refine .inr ⟨source, ?_⟩
    rw [compiled]
    exact asks.bind_left _

/-- With a valid configuration at least the empty source becomes a class. -/
theorem exists_compileClass (valid : config.problem? = none) (name : Bytes) :
    ∃ source code, compileClass config source name = .ok code := by
  obtain ⟨indent, isIndent⟩ := Int.eq_ofNat_of_zero_le (Config.problem?_eq_none_iff.mp valid).1.1
  have nothing : compile [] = .ok [] := by
    apply if_pos
    rw [Bytes.trimSpace, Bytes.runePieces_nil]
    rfl
  refine ⟨[], Java.classText indent name [], ?_⟩
  rw [compileClass, nothing, isIndent]
  rfl

theorem result_compileFile {tree : FileTree} {path : Bytes}
    (succeeded : ((compileFile config input directory).run tree).1.result = .ok path) :
    path = outputPath config input directory := by
  rw [run_compileFile] at succeeded
  split at succeeded
  · cases succeeded
  · split at succeeded
    · cases succeeded
    · split at succeeded
      · cases succeeded
      · exact (Except.ok.inj succeeded).symm

/-- All that compiling an input into a directory may change, and where that is. -/
structure StaysIn (config : Config) (input directory path : Bytes) : Prop where
  /-- A file may be written at the path and at no other. -/
  written : ∀ other, (∃ content, (compileFile config input directory).Asks (.file other content)) ↔
    other = path
  /-- The directory may be made, and those on the way to it. -/
  made : ∀ other, (compileFile config input directory).Asks (.directories other) ↔
    other = Path.clean directory
  /-- No other path is returned. -/
  returned : ∀ tree other,
    ((compileFile config input directory).run tree).1.result = .ok other → other = path
  /-- The path lies right in the directory. -/
  parent : Path.parent path = Path.clean directory
  /-- Its last element is the file name of the class. -/
  base : Path.base path = className config input ++ utf8 ".java"
  /-- That is one name, which leads neither up nor to another directory. -/
  isName : Path.IsName (className config input ++ utf8 ".java")

/-- With a valid configuration, whatever the paths of the source and of the output directory are,
the class is written right in the output directory and under its own name. -/
theorem staysIn_outputPath (valid : config.problem? = none) (input directory : Bytes) :
    StaysIn config input directory (outputPath config input directory) := by
  have isName := isName_className_append valid input
  have isResolved := Path.IsResolved.name isName (Path.isResolved_resolvedParts directory)
  have parent : Path.parent (outputPath config input directory) = Path.clean directory := by
    rw [outputPath_eq_render valid, isResolved.parent_render, Path.clean_eq_render]
  obtain ⟨source, code, compiled⟩ := exists_compileClass valid (className config input)
  refine ⟨fun other => ?_, fun other => ?_, fun tree other => result_compileFile, parent, ?_,
    isName⟩
  · simp only [asks_compileFile_iff, asks_writeResult_iff, reduceCtorEq, false_or,
      Change.file.injEq]
    constructor
    · rintro ⟨content, source, code, _, same, _⟩
      exact same
    · intro same
      exact ⟨code, source, code, compiled, same, rfl⟩
  · simp only [asks_compileFile_iff, asks_writeResult_iff, reduceCtorEq, or_false,
      Change.directories.injEq, parent]
    constructor
    · rintro ⟨source, code, _, same⟩
      exact same
    · intro same
      exact ⟨source, code, compiled, same⟩
  · rw [outputPath_eq_render valid, isResolved.base_render]

/-- A source that is named by parent parts only, and a directory that leads above the root. -/
theorem staysIn_outputPath_above_root :
    Config.default.problem? = none ∧
      outputPath .default (utf8 "x/../..") (utf8 "/../a//b/../") = utf8 "/a/Main.java" ∧
      StaysIn .default (utf8 "x/../..") (utf8 "/../a//b/../")
        (outputPath .default (utf8 "x/../..") (utf8 "/../a//b/../")) := by
  have valid : Config.default.problem? = none := rfl
  refine ⟨valid, ?_, staysIn_outputPath valid _ _⟩
  decide

end Compiler

end VarPrint
