/-
# Compiling a file

Compiling a file touches the tree only when the source has been read and compiled, and then it either
writes the class or leaves the tree as it was. The name of a class is an identifier, so the class
stands right in the output directory, whatever the path of the source. What is written is the class,
at the path that is returned, and the directories on the way to it.
-/

import VarPrint.Compiler
import VarPrint.Proofs.Files.Writing
import VarPrint.Proofs.Java.ClassName
import VarPrint.Proofs.Java.Reader

namespace VarPrint

/-- The rules for a configuration: an indentation within the limits, and an identifier if a class is
named. -/
theorem Config.problem?_eq_none_iff {config : Config} :
    config.problem? = none ↔ (0 ≤ config.indent ∧ config.indent ≤ 16) ∧
      (config.className ≠ [] → Java.isIdentifier config.className = true) := by
  rw [Config.problem?]
  split
  next outside =>
    simp only [reduceCtorEq, false_iff, not_and]
    omega
  next inside =>
    have limits : 0 ≤ config.indent ∧ config.indent ≤ 16 := by omega
    simp [limits]

namespace Compiler

variable {config : Config} {tree : FileTree} {input directory : Bytes}

/-- With a valid configuration, every class is named by an identifier. -/
theorem isIdentifier_className (valid : config.problem? = none) (input : Bytes) :
    Java.isIdentifier (className config input) = true := by
  rw [className]
  split
  next named => exact (Config.problem?_eq_none_iff.mp valid).2 named
  · exact Java.isIdentifier_className _

theorem not_mem_className_append {b : UInt8} (valid : config.problem? = none)
    (notPart : Java.isIdentifierPart b = false) (notEnding : b ∉ utf8 ".java") (input : Bytes) :
    b ∉ className config input ++ utf8 ".java" := by
  have inName := Java.isIdentifierPart_of_isIdentifier (isIdentifier_className valid input)
  rw [List.mem_append, not_or]
  exact ⟨fun member => Bool.false_ne_true (notPart.symm.trans (inName b member)), notEnding⟩

theorem isName_className_append (valid : config.problem? = none) (input : Bytes) :
    Path.IsName (className config input ++ utf8 ".java") := by
  have long : 5 ≤ (className config input ++ utf8 ".java").length := by
    rw [List.length_append]
    exact Nat.le_add_left 5 _
  have notShort {short : Bytes} (isShort : short.length < 5) :
      className config input ++ utf8 ".java" ≠ short := by
    rintro rfl
    omega
  exact ⟨notShort (by decide), notShort (by decide), notShort (by decide),
    not_mem_className_append valid (by decide) (by decide) input⟩

/-- The class stands right in the output directory. -/
theorem outputPath_eq_render (valid : config.problem? = none) (input directory : Bytes) :
    outputPath config input directory =
      Path.render (Path.isRooted directory)
        ((className config input ++ utf8 ".java") :: Path.resolvedParts directory) :=
  Path.join_eq_render (isName_className_append valid input) directory

theorem isUsable_outputPath {limits : NameLimits}
    (valid : config.problem? = none) (noZero : (0 : UInt8) ∉ directory)
    (admitted : limits.Admits (outputPath config input directory)) :
    Path.IsUsable limits (Path.isRooted directory)
      ((className config input ++ utf8 ".java") :: Path.resolvedParts directory) := by
  have isResolved := Path.IsResolved.name (isName_className_append valid input)
    (Path.isResolved_resolvedParts directory)
  rw [outputPath_eq_render valid] at admitted
  refine ⟨isResolved, List.forall_mem_cons.mpr ⟨?_, ?_⟩, ?_, admitted.1⟩
  · exact not_mem_className_append valid (by decide) (by decide) input
  · intro part isPart isZero
    exact noZero (Bytes.mem_of_mem_splitOn (Path.mem_splitOn_of_mem_resolvedParts isPart) isZero).1
  · intro part isPart
    apply admitted.2
    rw [isResolved.splitOn_render]
    exact List.mem_append_right _ (List.mem_reverse.mpr isPart)

theorem run_writeResult_eq (path content : Bytes) (tree : FileTree) :
    (writeResult path content).run tree =
      match tree.makeDirectories (Path.parent path) with
      | (.error error, after) => (.error (.noDirectory error), after)
      | (.ok (), after) =>
        ((after.write path content).1.mapError .unwritable, (after.write path content).2) := by
  rw [writeResult, FileTask.run]
  rcases tree.makeDirectories (Path.parent path) with ⟨error | _, after⟩ <;> rfl

/-- Writing a class in a closed tree: it stands where its path leads and can be read there, or nothing
happens. -/
theorem run_writeResult (closed : tree.IsClosed)
    (valid : config.problem? = none) (noZero : (0 : UInt8) ∉ directory)
    (admitted : tree.limits.Admits (outputPath config input directory)) (code : Bytes) :
    (tree.IsFree (Path.location (outputPath config input directory)) ∧
        ∃ after, (writeResult (outputPath config input directory) code).run tree =
            (.ok (), after) ∧
          after.resolve (outputPath config input directory) =
            .ok (Path.location (outputPath config input directory)) ∧
          tree.WritesFile (Path.location (outputPath config input directory)) code after ∧
          after.read (outputPath config input directory) = .ok code) ∨
      ¬ tree.IsFree (Path.location (outputPath config input directory)) ∧
        ∃ error, (writeResult (outputPath config input directory) code).run tree =
          (.error error, tree) := by
  have usable := isUsable_outputPath valid noZero admitted
  rw [outputPath_eq_render valid, usable.isResolved.location_render, run_writeResult_eq,
    usable.isResolved.parent_render]
  rcases FileTree.makeDirectories_render closed usable.tail with
    ⟨isOpen, middle, made, makes⟩ | ⟨blocked, error, failed⟩
  · rw [made]
    dsimp only
    rcases FileTree.write_render_cons closed usable makes code with
      ⟨notDirectory, written⟩ | ⟨isDirectory, error, failed⟩
    · have writes := makes.write isOpen notDirectory code
      rw [← Path.locate_cons] at notDirectory written writes
      rw [written]
      refine .inl ⟨⟨?_, notDirectory⟩, _, rfl, writes.resolve_eq usable, writes,
        writes.read_eq usable⟩
      rw [Path.dropLast_locate_cons]
      exact isOpen
    · rw [failed]
      rw [← Path.locate_cons] at isDirectory
      exact .inr ⟨fun free => free.notDirectory isDirectory, _, rfl⟩
  · rw [failed]
    refine .inr ⟨fun free => blocked ?_, _, rfl⟩
    have isOpen := free.isOpen
    rwa [Path.dropLast_locate_cons] at isOpen

theorem run_readSource (path : Bytes) (tree : FileTree) :
    (readSource path).run tree =
      match tree.read path with
      | .error error => (.error (.unreadable error), tree)
      | .ok content => (.ok content, tree) := by
  show ((tree.read path).mapError CompileError.unreadable, tree) = _
  cases tree.read path <;> rfl

theorem run_compileFile (config : Config) (input directory : Bytes) (tree : FileTree) :
    (compileFile config input directory).run tree =
      match tree.read input with
      | .error error => (⟨[], .error (.unreadable error)⟩, tree)
      | .ok source =>
        match compileClass config source (className config input) with
        | .error fault => (⟨compileMessages source, .error (.fault fault)⟩, tree)
        | .ok code =>
          match (writeResult (outputPath config input directory) code).run tree with
          | (.error error, after) => (⟨compileMessages source, .error error⟩, after)
          | (.ok (), after) =>
            (⟨compileMessages source ++
                [.formatted (utf8 "código Java escrito em '%s'\n")
                  [.text (outputPath config input directory)]],
              .ok (outputPath config input directory)⟩, after) := by
  rw [compileFile, FileTask.run_bind, run_readSource]
  cases tree.read input with
  | error error => rfl
  | ok source =>
      dsimp only
      cases compileClass config source (className config input) with
      | error fault => rfl
      | ok code =>
          dsimp only
          rw [FileTask.run_bind]
          rcases (writeResult (outputPath config input directory) code).run tree with
            ⟨error | _, after⟩ <;> rfl

/-- What is known of a tree after a file has been compiled into a directory: the answer and the tree
are those of a compilation that does all or nothing. -/
structure IsAtomic (config : Config) (input directory : Bytes) (tree : FileTree)
    (answer : Except CompileError Bytes) (after : FileTree) : Prop where
  /-- An error leaves the tree as it was. -/
  failed : ∀ error, answer = .error error → after = tree
  /-- There is an error only if the source is missing or wrong, or its class has no place. -/
  succeeds : (∃ path, answer = .ok path) ↔
    (∃ source code, tree.read input = .ok source ∧
      compileClass config source (className config input) = .ok code) ∧
    tree.IsFree (Path.location (outputPath config input directory))
  /-- The class of the source as it was is written at the path that is returned, and can be read
  there. -/
  written : ∀ path, answer = .ok path →
    path = outputPath config input directory ∧
    ∃ source code, tree.read input = .ok source ∧
      compileClass config source (className config input) = .ok code ∧
      after.resolve path = .ok (Path.location path) ∧
      tree.WritesFile (Path.location path) code after ∧
      (readSource path).run after = (.ok code, after)
  /-- The tree still hangs together. -/
  closed : after.IsClosed

namespace IsAtomic

/-- An error that leaves the tree alone, for a reason that rules out success. -/
theorem of_error (closed : tree.IsClosed) (error : CompileError)
    (noSuccess : ¬ ((∃ source code, tree.read input = .ok source ∧
        compileClass config source (className config input) = .ok code) ∧
      tree.IsFree (Path.location (outputPath config input directory)))) :
    IsAtomic config input directory tree (.error error) tree where
  failed _ _ := rfl
  succeeds := by
    refine iff_of_false ?_ noSuccess
    rintro ⟨path, succeeded⟩
    cases succeeded
  written path succeeded := by cases succeeded
  closed := closed

/-- A class that has been written from a source, in a place that was free for it. -/
theorem of_written {source code : Bytes} {after : FileTree} (closed : after.IsClosed)
    (read : tree.read input = .ok source)
    (compiled : compileClass config source (className config input) = .ok code)
    (free : tree.IsFree (Path.location (outputPath config input directory)))
    (reached : after.resolve (outputPath config input directory) =
      .ok (Path.location (outputPath config input directory)))
    (writes : tree.WritesFile (Path.location (outputPath config input directory)) code after)
    (readBack : after.read (outputPath config input directory) = .ok code) :
    IsAtomic config input directory tree (.ok (outputPath config input directory)) after where
  failed error failed := by cases failed
  succeeds := iff_of_true ⟨_, rfl⟩ ⟨⟨source, code, read, compiled⟩, free⟩
  written path succeeded := by
    obtain rfl := Except.ok.inj succeeded
    refine ⟨rfl, source, code, read, compiled, reached, writes, ?_⟩
    rw [run_readSource, readBack]
  closed := closed

end IsAtomic

/-- Compiling a file is all or nothing: an error leaves the tree as it was, and otherwise the class is
written, with the directories on the way, and nothing else is touched. Only a name that is too long
could come up half way; in a tree without limits there is none. -/
theorem isAtomic_compileFile (closed : tree.IsClosed)
    (valid : config.problem? = none) (noZero : (0 : UInt8) ∉ directory)
    (admitted : tree.limits.Admits (outputPath config input directory)) :
    IsAtomic config input directory tree
      ((compileFile config input directory).run tree).1.result
      ((compileFile config input directory).run tree).2 := by
  rw [run_compileFile]
  cases read : tree.read input with
  | error error =>
      apply IsAtomic.of_error closed
      rintro ⟨⟨source, code, readable, -⟩, -⟩
      rw [read] at readable
      cases readable
  | ok source =>
      dsimp only
      cases compiled : compileClass config source (className config input) with
      | error fault =>
          apply IsAtomic.of_error closed
          rintro ⟨⟨other, code, readable, compiles⟩, -⟩
          obtain rfl := Except.ok.inj (read.symm.trans readable)
          rw [compiled] at compiles
          cases compiles
      | ok code =>
          have closedAfter := closed.run (writeResult (outputPath config input directory) code)
          dsimp only
          rcases run_writeResult closed valid noZero admitted code with
            ⟨free, after, succeeded, reached, writes, readBack⟩ | ⟨taken, error, failed⟩
          · rw [succeeded] at closedAfter ⊢
            exact .of_written closedAfter read compiled free reached writes readBack
          · rw [failed]
            exact .of_error closed error fun success => taken success.2

/-- Two missing directories are made for the class of a file, and names may have any length. -/
theorem isAtomic_compileFile_new_directories :
    ∃ tree : FileTree, tree = ⟨[([utf8 "soma.bal"], .file (utf8 "print(1);"))], .unlimited⟩ ∧
      tree.IsClosed ∧ Config.default.problem? = none ∧ (0 : UInt8) ∉ utf8 "x/../saida/java" ∧
      tree.limits.Admits (outputPath .default (utf8 "soma.bal") (utf8 "x/../saida/java")) ∧
      ((compileFile .default (utf8 "soma.bal") (utf8 "x/../saida/java")).run tree).1.result =
        .ok (utf8 "saida/java/Soma.java") ∧
      IsAtomic .default (utf8 "soma.bal") (utf8 "x/../saida/java") tree
        ((compileFile .default (utf8 "soma.bal") (utf8 "x/../saida/java")).run tree).1.result
        ((compileFile .default (utf8 "soma.bal") (utf8 "x/../saida/java")).run tree).2 := by
  have closed : FileTree.IsClosed
      ⟨[([utf8 "soma.bal"], .file (utf8 "print(1);"))], .unlimited⟩ := by
    decide +kernel
  have valid : Config.default.problem? = none := rfl
  have noZero : (0 : UInt8) ∉ utf8 "x/../saida/java" := by decide
  have admitted : NameLimits.unlimited.Admits
      (outputPath .default (utf8 "soma.bal") (utf8 "x/../saida/java")) :=
    NameLimits.admits_unlimited _
  refine ⟨_, rfl, closed, valid, noZero, admitted, ?_,
    isAtomic_compileFile closed valid noZero admitted⟩
  decide +kernel

end Compiler

end VarPrint
