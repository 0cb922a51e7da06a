/-
# Labelled trees

Ordered trees with a label at every node, as a syntax tree is shown. A tree is built from its root
down: a node gets one more child at a time, and a subtree is copied below a node one child after the
other.
-/

import VarPrint.Text.Bytes

namespace VarPrint

/-- A label and subtrees in order. -/
inductive Tree where
  | node (label : Bytes) (children : List Tree)
deriving Repr

namespace Tree

/-- The label at the root. -/
def label : Tree → Bytes
  | node label _ => label

/-- The subtrees below the root. -/
def children : Tree → List Tree
  | node _ children => children

/-- A tree of one node. -/
def leaf (label : Bytes) : Tree := node label []

/-- The child with an index, if there is one. -/
def child? (tree : Tree) (index : Nat) : Option Tree :=
  tree.children[index]?

theorem sizeOf_lt_of_child? {tree child : Tree} {index : Nat}
    (found : tree.child? index = some child) : sizeOf child < sizeOf tree := by
  obtain ⟨label, children⟩ := tree
  have smaller : sizeOf child < sizeOf children :=
    List.sizeOf_lt_of_mem (List.mem_of_getElem? found)
  rw [node.sizeOf_spec]
  omega

/-- The tree with one more child behind the others. -/
def addChild (tree child : Tree) : Tree :=
  node tree.label (tree.children ++ [child])

/-- Copies the children of a tree from an index on below another one, each with all that is below
it; the first index without a child ends the copying. -/
def copyChildren (source : Tree) (index : Nat) (target : Tree) : Tree :=
  match found : source.child? index with
  | none => target
  | some child =>
    copyChildren source (index + 1)
      (target.addChild (copyChildren child 0 (leaf child.label)))
termination_by (sizeOf source, source.children.length - index)
decreasing_by
  · exact .left _ _ (sizeOf_lt_of_child? found)
  · obtain ⟨inside, _⟩ := List.getElem?_eq_some_iff.mp found
    apply Prod.Lex.right
    omega

/-- The tree with a copy of another one as one more child. -/
def graft (tree child : Tree) : Tree :=
  tree.addChild (child.copyChildren 0 (leaf child.label))

end Tree

end VarPrint
