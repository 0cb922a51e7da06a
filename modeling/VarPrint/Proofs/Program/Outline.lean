/-
# The syntax tree shows the whole program

The tree of a program is built by copying one subtree after the other below a root. A copy is the
same tree again, and it becomes the last child without a change to the earlier ones. So the root has
one child for each command, in order, and each is the tree of its command.

Nothing but the places of the tokens and the types is lost on the way. A numeral begins with a digit,
a text with a quote and a name with a letter or a low line, so the label of an expression says which
of them it is, and the tree spells the source again.
-/

import VarPrint.Program.Outline
import VarPrint.Proofs.Program.RoundTrip

namespace VarPrint

namespace Tree

/-- Copying appends the children from the index on. -/
theorem copyChildren_eq (source : Tree) (index : Nat) (target : Tree) :
    source.copyChildren index target =
      .node target.label (target.children ++ source.children.drop index) := by
  fun_induction copyChildren source index target with
  | case1 source index target found =>
      rw [child?, List.getElem?_eq_none_iff] at found
      rw [List.drop_eq_nil_of_le found, List.append_nil]
      cases target
      rfl
  | case2 source index target child found inner outer =>
      obtain ⟨inside, isChild⟩ := List.getElem?_eq_some_iff.mp found
      have copied : child.copyChildren 0 (leaf child.label) = child := by
        rw [inner]
        cases child
        rfl
      rw [outer, copied, List.drop_eq_getElem_cons inside, isChild]
      simp only [addChild, label, children, List.append_assoc, List.singleton_append]

/-- A grafted tree is the last child, node for node, and the children before it stay as they are. -/
theorem graft_eq (tree child : Tree) :
    tree.graft child = .node tree.label (tree.children ++ [child]) := by
  rw [graft, copyChildren_eq]
  cases child
  rfl

/-- Trees that are grafted one after the other are the last children in that order. -/
theorem foldl_graft_eq {α : Type} (subtree : α → Tree) (items : List α) (tree : Tree) :
    items.foldl (fun tree item => tree.graft (subtree item)) tree =
      .node tree.label (tree.children ++ items.map subtree) := by
  induction items generalizing tree with
  | nil =>
      rw [List.map_nil, List.append_nil]
      cases tree
      rfl
  | cons item rest ih =>
      rw [List.foldl_cons, ih, graft_eq]
      simp only [label, children, List.map_cons, List.append_assoc, List.singleton_append]

end Tree

theorem Command.outline_declare (name : Bytes) (value : Expr) (ty : Ty) (token : Token) :
    (Command.declare name value ty token).outline =
      .node (utf8 "var =") [.leaf name, .leaf value.render] :=
  Tree.graft_eq _ _

theorem Command.outline_print (argument : Expr) (token : Token) :
    (Command.print argument token).outline = .node (utf8 "print") [.leaf argument.render] :=
  Tree.graft_eq _ _

theorem Program.outline_eq (program : Program) :
    program.outline = .node (utf8 "programa") (program.map Command.outline) :=
  Tree.foldl_graft_eq Command.outline program _

/-- The text of an expression says which kind of expression it is. -/
theorem Expr.WellFormed.lexeme_eq_of_render_eq {first second : Expr} (wellFormed : first.WellFormed)
    (wellFormed' : second.WellFormed) (same : first.render = second.render) :
    first.lexeme = second.lexeme := by
  have spelled {expr : Expr} (wellFormed : expr.WellFormed) :
      spelling (expr.render ++ [0x3B]) = expr.lexeme :: spelling [0x3B] :=
    spelling_render_expr wellFormed (by decide) (by decide) []
  have both := (spelled wellFormed).symm.trans (same ▸ spelled wellFormed')
  exact (List.cons.inj both).1

/-- The tree of a command says how the command is spelled. -/
theorem Command.WellFormed.spelling_eq_of_outline_eq {first second : Command Expr}
    (wellFormed : first.WellFormed) (wellFormed' : second.WellFormed)
    (same : first.outline = second.outline) : first.spelling = second.spelling := by
  have apart : utf8 "var =" ≠ utf8 "print" := by decide
  cases wellFormed with
  | declare isName isValue =>
      cases wellFormed' with
      | declare isName' isValue' =>
          simp only [Command.outline_declare, Tree.leaf, Tree.node.injEq, List.cons.injEq, and_true,
            true_and] at same
          rw [Command.spelling, Command.spelling, same.1,
            isValue.lexeme_eq_of_render_eq isValue' same.2]
      | print isArgument' =>
          rw [Command.outline_declare, Command.outline_print, Tree.node.injEq] at same
          exact absurd same.1 apart
  | print isArgument =>
      cases wellFormed' with
      | declare isName' isValue' =>
          rw [Command.outline_declare, Command.outline_print, Tree.node.injEq] at same
          exact absurd same.1.symm apart
      | print isArgument' =>
          simp only [Command.outline_print, Tree.leaf, Tree.node.injEq, List.cons.injEq, and_true,
            true_and] at same
          rw [Command.spelling, Command.spelling, isArgument.lexeme_eq_of_render_eq isArgument' same]

/-- The trees of the commands say how the program is spelled. -/
theorem Program.spelling_eq_of_map_outline_eq {first second : Program}
    (wellFormed : ∀ command ∈ first, command.WellFormed)
    (wellFormed' : ∀ command ∈ second, command.WellFormed)
    (same : first.map Command.outline = second.map Command.outline) :
    first.spelling = second.spelling := by
  induction first generalizing second with
  | nil =>
      rw [List.map_nil, List.nil_eq, List.map_eq_nil_iff] at same
      rw [same]
  | cons command rest ih =>
      cases second with
      | nil => cases same
      | cons command' rest' =>
          rw [List.forall_mem_cons] at wellFormed wellFormed'
          rw [List.map_cons, List.map_cons, List.cons.injEq] at same
          have later := ih wellFormed.2 wellFormed'.2 same.2
          rw [Program.spelling, Program.spelling] at later ⊢
          rw [List.flatMap_cons, List.flatMap_cons, List.append_assoc, List.append_assoc, later,
            wellFormed.1.spelling_eq_of_outline_eq wellFormed'.1 same.1]

/-- Programs that differ in the places of their tokens only have one tree. -/
theorem Program.Linked.outline_eq {Link : Token → Token → Prop} {first second : Program}
    (linked : Program.Linked Link first second) : first.outline = second.outline := by
  have commands : first.map Command.outline = second.map Command.outline := by
    rw [← List.forall₂_eq_eq_eq, List.forall₂_map_left_iff, List.forall₂_map_right_iff]
    refine linked.imp ?_
    intro command command' linked
    cases linked with
    | declare values link => rw [Command.outline_declare, Command.outline_declare, values.render_eq]
    | print arguments link => rw [Command.outline_print, Command.outline_print, arguments.render_eq]
  rw [Program.outline_eq, Program.outline_eq, commands]

/-- Programs that were read have one tree exactly if they differ in the places of their tokens
only. -/
theorem Program.outline_eq_iff {source source' : Bytes} {program program' : Program}
    (parsed : parse (tokenize source) = .ok program)
    (parsed' : parse (tokenize source') = .ok program') :
    program.outline = program'.outline ↔ Program.Linked Token.Alike program program' := by
  constructor
  · intro same
    rw [outline_eq, outline_eq, Tree.node.injEq] at same
    have spelled := spelling_eq_of_map_outline_eq (wellFormed_of_parse parsed)
      (wellFormed_of_parse parsed') same.2
    rw [← spelling_of_parse parsed, ← spelling_of_parse parsed'] at spelled
    have readings := parse_matched spelled
    rw [parsed, parsed'] at readings
    cases readings with
    | ok linked => exact linked
  · exact Linked.outline_eq

/-- What the tree of a program shows. -/
structure Program.IsShownBy (program : Program) (tree : Tree) : Prop where
  root : tree.label = utf8 "programa"
  /-- There is one child for each command, in order, and it is the tree of the command. -/
  children : tree.children = program.map Command.outline
  /-- No other program has this tree, but for the places of its tokens. -/
  determines : ∀ (source : Bytes) (other : Program), parse (tokenize source) = .ok other →
    (other.outline = tree ↔ Program.Linked Token.Alike other program)

/-- A tree is copied node for node behind the children that are there, so that a program which was
read is shown as a whole by its tree. -/
theorem isShownBy_outline_of_parse {source : Bytes} {program : Program}
    (parsed : parse (tokenize source) = .ok program) :
    (∀ tree child : Tree, tree.graft child = .node tree.label (tree.children ++ [child])) ∧
      program.IsShownBy program.outline := by
  refine ⟨Tree.graft_eq, ?_, ?_, fun _ _ parsed' => Program.outline_eq_iff parsed' parsed⟩
  · rw [Program.outline_eq]
    rfl
  · rw [Program.outline_eq]
    rfl

/-- A number and a text with the same digit have two labels. -/
theorem isShownBy_outline_of_parse_digit :
    ∃ program, parse (tokenize (utf8 "print(1); print(\"1\");")) = .ok program ∧
      program.map (fun command => command.outline.children.map Tree.label) =
        [[utf8 "1"], [utf8 "\"1\""]] ∧
      (∀ tree child : Tree, tree.graft child = .node tree.label (tree.children ++ [child])) ∧
      program.IsShownBy program.outline := by
  have parsed : parse (tokenize (utf8 "print(1); print(\"1\");")) =
      .ok [.print (.number (utf8 "1") false ⟨⟨.number, utf8 "1"⟩, ⟨1, 7, 6⟩⟩)
          ⟨⟨.printWord, utf8 "print"⟩, ⟨1, 1, 0⟩⟩,
        .print (.text (utf8 "1") ⟨⟨.text, utf8 "\"1\""⟩, ⟨1, 17, 16⟩⟩)
          ⟨⟨.printWord, utf8 "print"⟩, ⟨1, 11, 10⟩⟩] := by
    decide +kernel
  refine ⟨_, parsed, ?_, isShownBy_outline_of_parse parsed⟩
  simp only [List.map_cons, Command.outline_print]
  rfl

end VarPrint
