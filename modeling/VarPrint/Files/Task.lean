/-
# Tasks on files

A task is a computation that may look at files, read them and write them. It says which request
comes next and how to go on from the answer, so one task can be run on a file tree, where it can be
reasoned about, and on the files of a machine.
-/

import VarPrint.Files.Tree

namespace VarPrint

/-- A computation with requests to files. -/
inductive FileTask (α : Type) where
  /-- Nothing more to do. -/
  | done (value : α)
  /-- Asks whether something stands at a path. -/
  | look (path : Bytes) (next : Bool → FileTask α)
  /-- Reads a file. -/
  | read (path : Bytes) (next : Except FileError Bytes → FileTask α)
  /-- Makes a directory and those on the way to it. -/
  | makeDirectories (path : Bytes) (next : Except FileError Unit → FileTask α)
  /-- Writes a file. -/
  | write (path content : Bytes) (next : Except FileError Unit → FileTask α)

namespace FileTask

variable {α β : Type}

/-- One task after another. -/
def bind : FileTask α → (α → FileTask β) → FileTask β
  | done value, f => f value
  | look path next, f => look path fun answer => (next answer).bind f
  | read path next, f => read path fun answer => (next answer).bind f
  | makeDirectories path next, f => makeDirectories path fun answer => (next answer).bind f
  | write path content next, f => write path content fun answer => (next answer).bind f

instance : Monad FileTask where
  pure := done
  bind := bind

/-- The answer to a question whether something stands at a path. -/
def isPresent (path : Bytes) : FileTask Bool := look path done

/-- The content of a file. -/
def content (path : Bytes) : FileTask (Except FileError Bytes) := read path done

/-- Runs a task on a file tree: its value, and the tree after it. -/
def run : FileTask α → FileTree → α × FileTree
  | done value, tree => (value, tree)
  | look path next, tree => (next (tree.isPresent path)).run tree
  | read path next, tree => (next (tree.read path)).run tree
  | makeDirectories path next, tree =>
    let (answer, tree) := tree.makeDirectories path
    (next answer).run tree
  | write path content next, tree =>
    let (answer, tree) := tree.write path content
    (next answer).run tree

@[simp]
theorem run_pure (value : α) (tree : FileTree) :
    (pure value : FileTask α).run tree = (value, tree) :=
  rfl

/-- Tasks run one after the other on the same tree. -/
@[simp]
theorem run_bind (task : FileTask α) (f : α → FileTask β) (tree : FileTree) :
    (task >>= f).run tree = (f (task.run tree).1).run (task.run tree).2 := by
  show (task.bind f).run tree = _
  induction task generalizing tree with
  | done value => rfl
  | look path next ih => exact ih _ _
  | read path next ih => exact ih _ _
  | makeDirectories path next ih => exact ih _ _
  | write path content next ih => exact ih _ _

end FileTask

end VarPrint
