/-
# Syntax trees of programs

The outline of a program is a tree with one child for each command: a declaration shows its name and
its value, a print its argument, and an expression its source text.
-/

import VarPrint.Program.Render
import VarPrint.Tree.Drawing

namespace VarPrint

/-- An expression as one node with its source text. -/
def Expr.outline (expr : Expr) : Tree :=
  .leaf expr.render

/-- A declaration above its name and value, a print above its argument. -/
def Command.outline : Command Expr → Tree
  | declare name value _ _ => ((Tree.leaf (utf8 "var =")).addChild (.leaf name)).graft value.outline
  | print argument _ => (Tree.leaf (utf8 "print")).graft argument.outline

/-- The commands of a program in order below one root. -/
def Program.outline (program : Program) : Tree :=
  program.foldl (fun tree command => tree.graft command.outline) (.leaf (utf8 "programa"))

/-- The titled drawing of a program's outline. -/
def Program.drawing (program : Program) : Bytes :=
  utf8 "=== Árvore Sintática ===\n" ++ program.outline.draw.render ++ utf8 "\n"

end VarPrint
