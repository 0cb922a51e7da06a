/-
# Drawings of trees

Every label is drawn in a box. An only child hangs below its parent on a vertical line. Several
children stand side by side, one empty column apart, below a horizontal line from the first to the
last; the drawing is made odd in width so that the parent's line has a middle column to leave from.
-/

import VarPrint.Tree.Basic
import VarPrint.Tree.Canvas

namespace VarPrint.Tree

/-- A number, or the next one if it is even. -/
def makeOdd (n : Nat) : Nat :=
  if n % 2 = 0 then n + 1 else n

/-- A label in its box at the top of an otherwise empty canvas, in the middle of the width. -/
def drawRoot (label : Canvas) (width height : Nat) : Canvas :=
  let left := (width - label.width) / 2
  ((Canvas.blank width height).paste left 1 label).box (left - 1) 0 label.width label.height

/-- A label alone. -/
def drawLeaf (label : Canvas) : Canvas :=
  ((Canvas.blank (makeOdd (label.width + 2)) (label.height + 2)).paste 1 1 label).box
    0 0 label.width label.height

/-- A label above one drawing. -/
def drawOnly (label child : Canvas) : Canvas :=
  let width := makeOdd (max (label.width + 2) child.width)
  let middle := width / 2
  let root := drawRoot label width (label.height + 3 + child.height)
  let joined := (root.set middle (label.height + 1) '┬').set middle (label.height + 2) '│'
  (joined.paste ((width - child.width) / 2) (label.height + 3) child).set
    middle (label.height + 3) '┴'

/-- Where the drawings of several children stand: the left edge of each, and the total width. Before
the last child one more column is left if the total would be even. -/
def placeChildren : (start : Nat) → List Canvas → List Nat × Nat
  | start, [] => ([], start)
  | start, [child] =>
    if (start + child.width) % 2 = 1 then ([start], start + child.width)
    else ([start + 1], start + child.width + 1)
  | start, child :: rest =>
    let (lefts, width) := placeChildren (start + child.width + 1) rest
    (start :: lefts, width)

/-- The character of the horizontal line in a column between the first and the last child. -/
def lineCell (isRoot isChild : Bool) : Char :=
  match isRoot, isChild with
  | true, true => '┼'
  | true, false => '┴'
  | false, true => '┬'
  | false, false => '─'

/-- A label above several drawings. -/
def drawSeveral (label : Canvas) (children : List Canvas) : Canvas :=
  let (lefts, total) := placeChildren 0 children
  let width := max (label.width + 2) total
  let shift := (width - total) / 2
  let placed := (lefts.map (· + shift)).zip children
  let middles := placed.map fun (left, child) => left + child.width / 2
  let tallest := children.foldl (fun height child => max height child.height) 0
  let top := label.height + 3
  let middle := width / 2
  let root := drawRoot label width (top + tallest)
  let pasted := placed.foldl (fun canvas (left, child) => canvas.paste left top child) root
  let hooked := middles.foldl (fun canvas x => canvas.set x top '┴')
    (pasted.set middle (label.height + 1) '┬')
  let first := middles.head?.getD 0
  let last := middles.getLast?.getD 0
  let ends := (hooked.set first (label.height + 2) '╭').set last (label.height + 2) '╮'
  ((List.range width).filter fun x => first < x && x < last).foldl
    (fun canvas x =>
      canvas.set x (label.height + 2) (lineCell (x == middle) (middles.contains x))) ends

/-- A label above the drawings of its children. -/
def drawNode (label : Canvas) : List Canvas → Canvas
  | [] => drawLeaf label
  | [child] => drawOnly label child
  | children => drawSeveral label children

mutual

/-- The drawing of a tree. -/
def draw : Tree → Canvas
  | node label children => drawNode (.ofText label) (drawAll children)

/-- The drawings of several trees. -/
def drawAll : List Tree → List Canvas
  | [] => []
  | tree :: rest => draw tree :: drawAll rest

end

end VarPrint.Tree
