/-
# Canvases

A canvas is a grid of characters, at first empty. Cells outside the grid are ignored when something
is drawn. Pasting copies every cell, empty ones included.
-/

import VarPrint.Text.Rune

namespace VarPrint

/-- Rows of cells, all of one width. -/
structure Canvas where
  width : Nat
  height : Nat
  rows : Array (Array Char)
deriving Repr

namespace Canvas

/-- What an empty cell holds; it is shown as a space. -/
def emptyCell : Char := '\x00'

/-- An empty canvas. -/
def blank (width height : Nat) : Canvas :=
  ⟨width, height, Array.replicate height (Array.replicate width emptyCell)⟩

/-- The same canvas with one cell set. -/
def set (canvas : Canvas) (x y : Nat) (c : Char) : Canvas :=
  { canvas with rows := canvas.rows.modify y fun row => row.setIfInBounds x c }

/-- A row with cells copied onto it from a place on. -/
def pasteRow (row : Array Char) (x : Nat) (cells : Array Char) : Array Char :=
  (List.range cells.size).foldl
    (fun row i => row.setIfInBounds (x + i) (cells.getD i emptyCell)) row

/-- The same canvas with another one copied onto it. -/
def paste (canvas : Canvas) (x y : Nat) (other : Canvas) : Canvas :=
  (List.range other.height).foldl
    (fun canvas j =>
      { canvas with
        rows := canvas.rows.modify (y + j) fun row => pasteRow row x (other.rows.getD j #[]) })
    canvas

/-- Sets the same character in a run of cells of one row. -/
def horizontal (canvas : Canvas) (x y count : Nat) (c : Char) : Canvas :=
  (List.range count).foldl (fun canvas i => canvas.set (x + i) y c) canvas

/-- Sets the same character in a run of cells of one column. -/
def vertical (canvas : Canvas) (x y count : Nat) (c : Char) : Canvas :=
  (List.range count).foldl (fun canvas j => canvas.set x (y + j) c) canvas

/-- Draws the outline of a box with rounded corners; its inside has the given width and height. -/
def box (canvas : Canvas) (x y insideWidth insideHeight : Nat) : Canvas :=
  let right := x + insideWidth + 1
  let bottom := y + insideHeight + 1
  let edges := (((canvas.horizontal (x + 1) y insideWidth '─').horizontal
    (x + 1) bottom insideWidth '─').vertical x (y + 1) insideHeight '│').vertical
    right (y + 1) insideHeight '│'
  (((edges.set x y '╭').set right y '╮').set x bottom '╰').set right bottom '╯'

/-- A text as a canvas of its own: a row for each line, as wide as the longest. -/
def ofText (text : Bytes) : Canvas :=
  let lines := (List.splitOn Byte.lineFeed text).map Bytes.runes
  let width := lines.foldl (fun width line => max width line.length) 1
  let rows := lines.map fun line => line ++ List.replicate (width - line.length) emptyCell
  ⟨width, lines.length, (rows.map List.toArray).toArray⟩

/-- The rows of a canvas, each with a line feed after it. -/
def render (canvas : Canvas) : Bytes :=
  canvas.rows.toList.flatMap fun row =>
    Bytes.ofRunes (row.toList.map fun c => if c = emptyCell then ' ' else c) ++ utf8 "\n"

end Canvas

end VarPrint
