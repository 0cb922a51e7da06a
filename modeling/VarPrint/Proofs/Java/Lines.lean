/-
# Lines of Java text

In Java a line ends with a line feed, a carriage return, or a carriage return and a line feed, which
count once. The statement of every command is followed by a line feed, and nothing in it could end a
line except what stands in a text literal, which is copied as it is. A text of the source ends on
its line, so it has no line feed, but it may hold a carriage return. Each of these ends a line of the
Java text, inside a literal, where Java allows none. There is one line for each command exactly when
no text of the source holds a carriage return.
-/

import VarPrint.Proofs.Java.Translation

namespace VarPrint

open Lexeme (IsDigits IsName)

/-- Carriage return, which ends a line of Java and none of a source. -/
abbrev Byte.carriageReturn : UInt8 := 0x0D

/-- A byte that can end a line of Java. -/
def Byte.IsBreak (b : UInt8) : Prop :=
  b = lineFeed ∨ b = carriageReturn

namespace Java

/-- The lines of a text that may stand right behind a carriage return, cut at their ends; what
follows the last end is a line as well. -/
def linesFrom : (afterReturn : Bool) → Bytes → List Bytes
  | _, [] => [[]]
  | afterReturn, b :: rest =>
    if b = Byte.carriageReturn then [] :: linesFrom true rest
    else if b = Byte.lineFeed then
      if afterReturn then linesFrom false rest else [] :: linesFrom false rest
    else (linesFrom false rest).modifyHead (b :: ·)

/-- The lines of a text. -/
def lines (text : Bytes) : List Bytes :=
  linesFrom false text

/-- The number of line ends in a text. -/
def lineEnds (text : Bytes) : Nat :=
  (lines text).length - 1

variable {b : UInt8} {line rest : Bytes}

theorem linesFrom_ne_nil (afterReturn : Bool) (text : Bytes) : linesFrom afterReturn text ≠ [] := by
  induction text generalizing afterReturn with
  | nil => exact List.cons_ne_nil _ _
  | cons b rest ih =>
      rw [linesFrom]
      split
      · exact List.cons_ne_nil _ _
      · split
        · split
          · exact ih false
          · exact List.cons_ne_nil _ _
        · rw [Ne, List.modifyHead_eq_nil_iff]
          exact ih false

theorem length_lines (text : Bytes) : (lines text).length = lineEnds text + 1 := by
  have positive := List.length_pos_iff.mpr (linesFrom_ne_nil false text)
  exact (Nat.sub_add_cancel positive).symm

theorem linesFrom_lineFeed (rest : Bytes) :
    linesFrom false (Byte.lineFeed :: rest) = [] :: lines rest := by
  rw [linesFrom, if_neg (by decide), if_pos rfl, if_neg Bool.false_ne_true, lines]

theorem linesFrom_of_not_isBreak (noBreak : ¬ Byte.IsBreak b) (afterReturn : Bool) (rest : Bytes) :
    linesFrom afterReturn (b :: rest) = (lines rest).modifyHead (b :: ·) := by
  obtain ⟨notLineFeed, notReturn⟩ := not_or.mp noBreak
  rw [linesFrom, if_neg notReturn, if_neg notLineFeed, lines]

/-- A line without a break in it ends at the line feed behind it. -/
theorem lines_append_lineFeed (noBreak : ∀ b ∈ line, ¬ Byte.IsBreak b) (rest : Bytes) :
    lines (line ++ Byte.lineFeed :: rest) = line :: lines rest := by
  induction line with
  | nil => exact linesFrom_lineFeed rest
  | cons b line ih =>
      rw [List.forall_mem_cons] at noBreak
      rw [List.cons_append, lines, linesFrom_of_not_isBreak noBreak.1, ih noBreak.2]
      rfl

/-- Up to a byte that is no break, the ends of lines are the carriage returns if there is no line
feed. -/
theorem length_linesFrom_append (noLineFeed : Byte.lineFeed ∉ line) (noBreak : ¬ Byte.IsBreak b)
    (afterReturn : Bool) (rest : Bytes) :
    (linesFrom afterReturn (line ++ b :: rest)).length =
      line.count Byte.carriageReturn + (lines rest).length := by
  induction line generalizing afterReturn with
  | nil =>
      rw [List.nil_append, linesFrom_of_not_isBreak noBreak, List.length_modifyHead,
        List.count_nil, Nat.zero_add]
  | cons c line ih =>
      rw [List.mem_cons, not_or] at noLineFeed
      rw [List.cons_append, linesFrom]
      by_cases isReturn : c = Byte.carriageReturn
      · rw [if_pos isReturn, List.length_cons, ih noLineFeed.2, isReturn, List.count_cons_self]
        omega
      · rw [if_neg isReturn, if_neg (Ne.symm noLineFeed.1), List.length_modifyHead,
          ih noLineFeed.2, List.count_cons_of_ne isReturn]

/-- A piece that has no line feed and ends with no break, and the line feed behind it. -/
theorem lineEnds_append_lineFeed (noLineFeed : Byte.lineFeed ∉ line) (noBreak : ¬ Byte.IsBreak b)
    (rest : Bytes) :
    lineEnds (line ++ b :: Byte.lineFeed :: rest) =
      line.count Byte.carriageReturn + (lineEnds rest + 1) := by
  have whole := length_linesFrom_append noLineFeed noBreak false (Byte.lineFeed :: rest)
  have after : lines (Byte.lineFeed :: rest) = [] :: lines rest := linesFrom_lineFeed rest
  rw [after, List.length_cons, length_lines] at whole
  rw [lineEnds, lines, whole]
  omega

end Java

/-- The content of the text that an expression is, if it is one. -/
def Expr.texts : Expr → List Bytes
  | text content _ => [content]
  | number _ _ _ => []
  | reference _ _ => []

/-- The contents of the texts of a program, in order. -/
def Program.texts (program : Program) : List Bytes :=
  (program.map Command.expr).flatMap Expr.texts

theorem Program.texts_cons (command : Command Expr) (rest : Program) :
    Program.texts (command :: rest) = command.expr.texts ++ rest.texts := by
  rw [Program.texts, List.map_cons, List.flatMap_cons, Program.texts]

namespace Expr.Translates

variable {value : Expr} {term : Java.Term}

/-- The text that an expression is stays on its line. -/
theorem lineFeed_not_mem_texts (translates : value.Translates term) :
    Byte.lineFeed ∉ value.texts.flatten := by
  cases translates with
  | int | long | double | reference => exact List.not_mem_nil
  | string isBody =>
      rw [texts, List.flatten_singleton]
      exact isBody.lineFeed_not_mem

/-- A written expression has the carriage returns of the text that it is, and no other. -/
theorem count_expression (translates : value.Translates term) :
    (Java.expression value).count Byte.carriageReturn =
      value.texts.flatten.count Byte.carriageReturn := by
  cases translates with
  | int isDigits small =>
      rw [Java.expression, Java.number_int isDigits small, List.count_eq_zero_of_not_mem
        (not_mem_digits (Numeral.isDigits_ofNat _) rfl)]
      rfl
  | long isDigits large small =>
      rw [Java.expression, Java.number_long isDigits large small, List.count_append,
        List.count_eq_zero_of_not_mem
          (not_mem_digits (Numeral.isDigits_ofNat _) rfl)]
      rfl
  | double isWhole isFraction =>
      rw [Java.expression, Java.number, if_pos rfl, List.count_append,
        List.count_cons_of_ne (by decide),
        List.count_eq_zero_of_not_mem (not_mem_digits isWhole rfl),
        List.count_eq_zero_of_not_mem (not_mem_digits isFraction rfl)]
      rfl
  | string isBody =>
      rw [Java.expression, List.count_append, List.count_append,
        List.count_eq_zero_of_not_mem (by decide : Byte.carriageReturn ∉ utf8 "\""),
        Nat.zero_add, Nat.add_zero, texts, List.flatten_singleton]
  | reference isName =>
      rw [Java.expression,
        List.count_eq_zero_of_not_mem (not_mem_variableName isName rfl)]
      rfl

end Expr.Translates

/-- A written command is a body on one line, with the carriage returns of its text alone, and a
semicolon. -/
theorem Command.Translates.exists_body {command : Command Expr} {line : Java.Line}
    (translates : command.Translates line) :
    ∃ body, Java.statement command = body ++ utf8 ";" ∧ Byte.lineFeed ∉ body ∧
      body.count Byte.carriageReturn =
        command.expr.texts.flatten.count Byte.carriageReturn := by
  have oneLine {body : Bytes} (split : Java.statement command = body ++ utf8 ";") :
      Byte.lineFeed ∉ body := by
    intro member
    apply translates.lineFeed_not_mem
    rw [split]
    exact List.mem_append_left _ member
  cases translates with
  | @declare name value ty token init isName inits =>
      have noType : Byte.carriageReturn ∉ Java.typeName ty := by cases ty <;> decide
      refine ⟨_, rfl, oneLine rfl, ?_⟩
      rw [List.count_append, List.count_append, List.count_append, List.count_append,
        inits.count_expression, List.count_eq_zero_of_not_mem noType,
        List.count_eq_zero_of_not_mem (not_mem_variableName isName rfl),
        List.count_eq_zero_of_not_mem (by decide : Byte.carriageReturn ∉ utf8 " "),
        List.count_eq_zero_of_not_mem (by decide : Byte.carriageReturn ∉ utf8 " = "), Nat.zero_add]
      rfl
  | @print value token argument arguments =>
      have split : Java.statement (.print value token) =
          (utf8 "System.out.println(" ++ Java.expression value ++ utf8 ")") ++ utf8 ";" := by
        rw [Java.statement, List.append_assoc _ (utf8 ")")]
        rfl
      refine ⟨_, split, oneLine split, ?_⟩
      rw [List.count_append, List.count_append, arguments.count_expression,
        List.count_eq_zero_of_not_mem
          (by decide : Byte.carriageReturn ∉ utf8 "System.out.println("),
        List.count_eq_zero_of_not_mem (by decide : Byte.carriageReturn ∉ utf8 ")"), Nat.zero_add]
      rfl

theorem Command.Translates.lineFeed_not_mem_texts {command : Command Expr} {line : Java.Line}
    (translates : command.Translates line) : Byte.lineFeed ∉ command.expr.texts.flatten := by
  cases translates with
  | declare isName inits => exact inits.lineFeed_not_mem_texts
  | print arguments => exact arguments.lineFeed_not_mem_texts

namespace Program.Translates

variable {program : Program} {lines : List Java.Line}

theorem lineFeed_not_mem_texts (translates : program.Translates lines) :
    Byte.lineFeed ∉ program.texts.flatten := by
  induction translates with
  | nil => exact List.not_mem_nil
  | cons commands _ ih =>
      rw [texts_cons, List.flatten_append, List.mem_append, not_or]
      exact ⟨commands.lineFeed_not_mem_texts, ih⟩

/-- The text of a program has one line end for each command, and one for each carriage return in its
literals. -/
theorem lineEnds_statements (translates : program.Translates lines) :
    Java.lineEnds (Java.statements program) =
      program.length + program.texts.flatten.count Byte.carriageReturn := by
  induction translates with
  | nil => rfl
  | @cons command line rest lines commands _ ih =>
      obtain ⟨body, split, oneLine, returns⟩ := commands.exists_body
      have semicolon : ¬ Byte.IsBreak 0x3B := by
        rintro (isLineFeed | isReturn)
        · exact absurd isLineFeed (by decide)
        · exact absurd isReturn (by decide)
      have whole : Java.statements (command :: rest) =
          body ++ 0x3B :: Byte.lineFeed :: Java.statements rest := by
        rw [Java.statements_cons, split, List.append_assoc]
        rfl
      rw [whole, Java.lineEnds_append_lineFeed oneLine semicolon, ih, returns, texts_cons,
        List.flatten_append, List.count_append, List.length_cons]
      omega

/-- Without a carriage return in its literals, the text of a program has the statements of its
commands as lines, and nothing behind the last line end. -/
theorem lines_statements (translates : program.Translates lines)
    (noReturn : Byte.carriageReturn ∉ program.texts.flatten) :
    Java.lines (Java.statements program) = program.map Java.statement ++ [[]] := by
  induction translates with
  | nil => rfl
  | @cons command line rest lines commands _ ih =>
      rw [texts_cons, List.flatten_append, List.mem_append, not_or] at noReturn
      obtain ⟨body, split, oneLine, returns⟩ := commands.exists_body
      rw [List.count_eq_zero_of_not_mem noReturn.1, List.count_eq_zero] at returns
      have noBreak : ∀ b ∈ Java.statement command, ¬ Byte.IsBreak b := by
        rintro b member (rfl | rfl)
        · exact commands.lineFeed_not_mem member
        · rw [split, List.mem_append] at member
          rcases member with inBody | isEnd
          · exact returns inBody
          · exact absurd isEnd (by decide)
      rw [Java.statements_cons, Java.lines_append_lineFeed noBreak, ih noReturn.2, List.map_cons,
        List.cons_append]

end Program.Translates

/-- Checking a program changes none of its expressions. -/
theorem Scope.Run.map_expr_eq {scope last : Scope} {program checked : Program}
    (run : Scope.Run scope program last checked) :
    checked.map Command.expr = program.map Command.expr := by
  induction run with
  | nil => rfl
  | cons step _ ih =>
      rw [List.map_cons, List.map_cons, ih]
      cases step <;> rfl

/-! The texts of a program are the text tokens of its source -/

theorem Expr.lexeme_eq_text_iff {value : Expr} {quotedText : Bytes} :
    value.lexeme = ⟨.text, quotedText⟩ ↔
      ∃ content ∈ value.texts, quotedText = Lexeme.quoted content := by
  cases value with
  | number numeral isDecimal token => simp [lexeme, texts]
  | text content token => simp [lexeme, texts, eq_comm]
  | reference name token => simp [lexeme, texts]

theorem Command.text_mem_spelling_iff {command : Command Expr} {quotedText : Bytes} :
    ⟨.text, quotedText⟩ ∈ command.spelling ↔
      ∃ content ∈ command.expr.texts, quotedText = Lexeme.quoted content := by
  rw [← Expr.lexeme_eq_text_iff]
  cases command with
  | declare name value ty token => simp [spelling, Command.expr, eq_comm]
  | print argument token => simp [spelling, Command.expr, eq_comm]

theorem Program.text_mem_spelling_iff {program : Program} {quotedText : Bytes} :
    ⟨.text, quotedText⟩ ∈ program.spelling ↔
      ∃ content ∈ program.texts, quotedText = Lexeme.quoted content := by
  induction program with
  | nil => simp [spelling, texts]
  | cons command rest ih =>
      rw [spelling, List.flatMap_cons, List.append_assoc, List.mem_append,
        Command.text_mem_spelling_iff, ← spelling, ih, texts_cons]
      simp only [List.mem_append, or_and_right, exists_or]

/-- No text of a program has a carriage return exactly if no text token of its source has one. -/
theorem carriageReturn_not_mem_texts_iff {source : Bytes} {program : Program}
    (parsed : parse (tokenize source) = .ok program) :
    Byte.carriageReturn ∉ program.texts.flatten ↔
      ∀ token ∈ tokenize source, token.kind = .text → Byte.carriageReturn ∉ token.value := by
  have spelled : (tokenize source).map Token.toLexeme = program.spelling :=
    spelling_of_parse parsed
  have inQuotes (content : Bytes) : Byte.carriageReturn ∈ Lexeme.quoted content ↔
      Byte.carriageReturn ∈ content := by
    have notQuote : Byte.carriageReturn ≠ Byte.quote := by decide
    simp [Lexeme.quoted, notQuote]
  constructor
  · intro absent token member isText inToken
    have isLexeme : ⟨.text, token.value⟩ ∈ program.spelling := by
      rw [← spelled, ← isText]
      exact List.mem_map_of_mem member
    obtain ⟨content, isContent, isQuoted⟩ := Program.text_mem_spelling_iff.mp isLexeme
    rw [isQuoted, inQuotes] at inToken
    exact absent (List.mem_flatten.mpr ⟨content, isContent, inToken⟩)
  · intro absent member
    obtain ⟨content, isContent, inContent⟩ := List.mem_flatten.mp member
    have isLexeme := Program.text_mem_spelling_iff.mpr ⟨content, isContent, rfl⟩
    rw [← spelled, List.mem_map] at isLexeme
    obtain ⟨token, isToken, same⟩ := isLexeme
    apply absent token isToken (congrArg Lexeme.kind same)
    rw [congrArg Lexeme.value same, inQuotes]
    exact inContent

/-- Compiled code has one line of Java for each command of the program that was read. -/
structure HasLineForEach (program : Program) (code : Bytes) : Prop where
  /-- There are as many line ends as commands. -/
  count : Java.lineEnds code = program.length
  /-- Each line is the statement of its command, and nothing stands behind the last line end. -/
  lines : Java.lines code = (Scope.empty.check program).program.map Java.statement ++ [[]]
  /-- No literal holds a line end. -/
  literals : ∀ content ∈ program.texts, ∀ b ∈ content, ¬ Byte.IsBreak b

/-- Code has one line end for each command and one for each carriage return in a literal. So there
is one line for each command exactly if no text token of the source holds a carriage return. -/
theorem hasLineForEach_iff {source code : Bytes} {program : Program}
    (parsed : parse (tokenize source) = .ok program) (compiled : compile source = .ok code) :
    Java.lineEnds code =
        program.length + program.texts.flatten.count Byte.carriageReturn ∧
      (HasLineForEach program code ↔
        ∀ token ∈ tokenize source, token.kind = .text → Byte.carriageReturn ∉ token.value) := by
  obtain ⟨other, parsed', passed, rfl⟩ := exists_passed_of_compile compiled
  obtain rfl : program = other := Except.ok.inj (parsed.symm.trans parsed')
  have run := Scope.run_of_check Scope.consistent_empty passed
  obtain ⟨lines, translates⟩ := run.exists_translates (wellFormed_of_parse parsed)
  have sameTexts : Program.texts (Scope.empty.check program).program = program.texts := by
    rw [Program.texts, run.map_expr_eq, Program.texts]
  have sameLength : (Scope.empty.check program).program.length = program.length := by
    rw [← List.length_map Command.expr, run.map_expr_eq, List.length_map]
  have ends := translates.lineEnds_statements
  have noLineFeed := translates.lineFeed_not_mem_texts
  rw [sameTexts, sameLength] at ends
  rw [sameTexts] at noLineFeed
  refine ⟨ends, ?_⟩
  rw [← carriageReturn_not_mem_texts_iff parsed]
  constructor
  · intro one member
    obtain ⟨content, isContent, inContent⟩ := List.mem_flatten.mp member
    exact one.literals content isContent _ inContent (.inr rfl)
  · intro noReturn
    refine ⟨?_, ?_, ?_⟩
    · rw [ends, List.count_eq_zero_of_not_mem noReturn, Nat.add_zero]
    · exact translates.lines_statements (sameTexts ▸ noReturn)
    · rintro content isContent b inContent (rfl | rfl)
      · exact noLineFeed (List.mem_flatten.mpr ⟨content, isContent, inContent⟩)
      · exact noReturn (List.mem_flatten.mpr ⟨content, isContent, inContent⟩)

/-- Line ends that are written as escapes end no line: two lines of a source with two commands each,
the first of them ended by a carriage return and a line feed, become four lines of Java. -/
theorem hasLineForEach_iff_text :
    ∃ source code program,
      source = utf8 "var x = \"a\\nb\"; print(\"\\r\\12\");\r\nvar y = 007; print(x);" ∧
      code = utf8 ("String x = \"a\\nb\";\nSystem.out.println(\"\\r\\12\");\n" ++
        "int y = 7;\nSystem.out.println(x);\n") ∧
      parse (tokenize source) = .ok program ∧ compile source = .ok code ∧
      program.length = 4 ∧ HasLineForEach program code := by
  have compiled : compile (utf8 "var x = \"a\\nb\"; print(\"\\r\\12\");\r\nvar y = 007; print(x);") =
      .ok (utf8 ("String x = \"a\\nb\";\nSystem.out.println(\"\\r\\12\");\n" ++
        "int y = 7;\nSystem.out.println(x);\n")) := by
    decide +kernel
  have noReturn : ∀ token ∈
      tokenize (utf8 "var x = \"a\\nb\"; print(\"\\r\\12\");\r\nvar y = 007; print(x);"),
      token.kind = .text → Byte.carriageReturn ∉ token.value := by
    decide +kernel
  have ends : Java.lineEnds (utf8 ("String x = \"a\\nb\";\nSystem.out.println(\"\\r\\12\");\n" ++
      "int y = 7;\nSystem.out.println(x);\n")) = 4 := by
    decide +kernel
  obtain ⟨program, parsed, _⟩ := exists_passed_of_compile compiled
  have one := (hasLineForEach_iff parsed compiled).2.mpr noReturn
  exact ⟨_, _, program, rfl, rfl, parsed, compiled, one.count.symm.trans ends, one⟩

/-- A carriage return between quotes compiles: one command becomes two lines of Java, and the first
of them ends inside a literal. -/
theorem not_hasLineForEach_carriageReturn :
    ∃ source code program, source = utf8 "print(\"a\rb\");" ∧
      code = utf8 "System.out.println(\"a\rb\");\n" ∧
      parse (tokenize source) = .ok program ∧ compile source = .ok code ∧
      program.length = 1 ∧ program.texts = [utf8 "a\rb"] ∧
      Java.lines code = [utf8 "System.out.println(\"a", utf8 "b\");", []] ∧
      ¬ HasLineForEach program code := by
  have parsed : parse (tokenize (utf8 "print(\"a\rb\");")) =
      .ok [.print (.text (utf8 "a\rb") ⟨⟨.text, utf8 "\"a\rb\""⟩, ⟨1, 7, 6⟩⟩)
        ⟨⟨.printWord, utf8 "print"⟩, ⟨1, 1, 0⟩⟩] := by
    decide +kernel
  have compiled : compile (utf8 "print(\"a\rb\");") =
      .ok (utf8 "System.out.println(\"a\rb\");\n") := by
    decide +kernel
  have cut : Java.lines (utf8 "System.out.println(\"a\rb\");\n") =
      [utf8 "System.out.println(\"a", utf8 "b\");", []] := by
    decide +kernel
  refine ⟨_, _, _, rfl, rfl, parsed, compiled, rfl, rfl, cut, ?_⟩
  intro one
  have count := one.count
  rw [Java.lineEnds, cut] at count
  exact absurd count (by decide)

end VarPrint
