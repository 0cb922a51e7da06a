/-
# The grammar of programs

A list of tokens spells a program when it can be cut into commands of five tokens each and what is
left over is empty or begins with an end token. The rules name kinds of tokens only and do not say
how a list is read; whatever follows an end token plays no part. The reader accepts exactly the
lists that the grammar derives, and what it gives is the program of the derivation.
-/

import VarPrint.Program.Parse
import VarPrint.Proofs.Outcome
import Mathlib.Tactic.ByContra

namespace VarPrint.Grammar

/-- One token that is an expression, and the expression that it is. -/
inductive Operand : Token → Expr → Prop
  | reference {token : Token} (kind : token.kind = .identifier) :
      Operand token (.reference token.value token)
  | number {token : Token} (kind : token.kind = .number)
      (accepted : ∃ value, Parse.readNumber token = .ok value) :
      Operand token (.number token.value (token.value.contains Byte.dot) token)
  | text {token : Token} (kind : token.kind = .text) (quoted : 2 ≤ token.value.length)
      (clean : Escape.findBad? (token.value.drop 1).dropLast = none) :
      Operand token (.text (token.value.drop 1).dropLast token)

/-- Five tokens that are a command, and the command that they are. -/
inductive Spells : List Token → Command Expr → Prop
  | declare {word name equals operand stop : Token} {value : Expr}
      (isWord : word.kind = .varWord) (isName : name.kind = .identifier)
      (isEquals : equals.kind = .assign) (isOperand : Operand operand value)
      (isStop : stop.kind = .semicolon) :
      Spells [word, name, equals, operand, stop] (.declare name.value value .unknown name)
  | print {word opening operand closing stop : Token} {argument : Expr}
      (isWord : word.kind = .printWord) (isOpening : opening.kind = .leftParen)
      (isOperand : Operand operand argument) (isClosing : closing.kind = .rightParen)
      (isStop : stop.kind = .semicolon) :
      Spells [word, opening, operand, closing, stop] (.print argument word)

/-- Nothing is left, or an end token with whatever follows it. -/
def AtEnd (rest : List Token) : Prop :=
  rest = [] ∨ ∃ finish after, rest = finish :: after ∧ finish.kind = .endOfInput

/-- A list of tokens and the program that it spells: commands one after the other up to the end. -/
inductive Derives : List Token → Program → Prop
  | finish {rest : List Token} (ended : AtEnd rest) : Derives rest []
  | command {piece rest : List Token} {first : Command Expr} {program : Program}
      (spells : Spells piece first) (derives : Derives rest program) :
      Derives (piece ++ rest) (first :: program)

/-- A numeral is accepted exactly in the range of its type, and becomes a number as it stands. -/
theorem readNumber_eq_ok_iff {token : Token} {value : Expr} :
    Parse.readNumber token = .ok value ↔
      (if token.value.contains Byte.dot then Magnitude.isInRange token.value
        else (Numeral.readWord? 64 token.value).isSome) = true ∧
      value = .number token.value (token.value.contains Byte.dot) token := by
  constructor
  · intro read
    obtain ⟨inRange, accepted⟩ | ⟨_, refused⟩ := ite_eq_iff.mp read
    · cases accepted
      exact ⟨inRange, rfl⟩
    · cases refused
  · rintro ⟨inRange, rfl⟩
    exact if_pos inRange

theorem readText_eq_ok_iff {token : Token} {value : Expr} :
    Parse.readText token = .ok value ↔ 2 ≤ token.value.length ∧
      Escape.findBad? (token.value.drop 1).dropLast = none ∧
      value = .text (token.value.drop 1).dropLast token := by
  unfold Parse.readText Parse.textContent?
  by_cases short : token.value.length < 2
  · rw [if_pos short]
    simp only [reduceCtorEq, false_iff]
    intro h
    omega
  · rw [if_neg short]
    dsimp only
    cases Escape.findBad? (token.value.drop 1).dropLast with
    | none =>
        simp only [Except.ok.injEq, true_and]
        constructor
        · intro h
          exact ⟨by omega, h.symm⟩
        · rintro ⟨_, h⟩
          exact h.symm
    | some bad => simp

/-- The reader of one expression accepts exactly the operands of the grammar. -/
theorem readExpr_eq_ok_iff {token : Token} {value : Expr} :
    Parse.readExpr token = .ok value ↔ Operand token value := by
  constructor
  · intro read
    unfold Parse.readExpr at read
    split at read
    · next kind =>
        rw [(readNumber_eq_ok_iff.mp read).2]
        exact .number kind ⟨value, read⟩
    · next kind =>
        obtain ⟨quoted, clean, rfl⟩ := readText_eq_ok_iff.mp read
        exact .text kind quoted clean
    · next kind =>
        cases read
        exact .reference kind
    · cases read
    · cases read
  · intro operand
    cases operand with
    | reference kind => simp [Parse.readExpr, kind]
    | number kind accepted =>
        obtain ⟨value, read⟩ := accepted
        simp only [Parse.readExpr, kind]
        rw [read, (readNumber_eq_ok_iff.mp read).2]
    | text kind quoted clean =>
        simp only [Parse.readExpr, kind]
        exact readText_eq_ok_iff.mpr ⟨quoted, clean, rfl⟩

/-- A required kind is met exactly by the tokens of that kind. -/
theorem readKind_eq_ok_iff {kind : TokenKind} {token read : Token} :
    Parse.readKind kind token = .ok read ↔ token.kind = kind ∧ read = token := by
  unfold Parse.readKind
  split
  · next h => simp [h, eq_comm]
  · next h => split <;> simp [h]

theorem slot_eq_ok_iff {α : Type} {finish : Token} {tokens : List Token} {index : Nat}
    {read : Token → Except Fault α} {value : α} :
    Parse.slot finish tokens index read = .ok value ↔ read (tokens.getD index finish) = .ok value :=
  mapError_eq_ok_iff

/-- A list that is long enough for a command, cut after its fifth token. -/
private theorem exists_five {tokens : List Token} (long : 4 < tokens.length) :
    ∃ first second third fourth fifth rest,
      tokens = first :: second :: third :: fourth :: fifth :: rest := by
  match tokens, long with
  | first :: second :: third :: fourth :: fifth :: rest, _ =>
      exact ⟨first, second, third, fourth, fifth, rest, rfl⟩

/-- Every command ends with a semicolon in its last slot, and the slots past the end of the list
hold the end token, so a list in which a command was read has all five of its tokens. -/
private theorem length_of_lastSlot {finish stop : Token} {tokens : List Token}
    (isEnd : finish.kind = .endOfInput)
    (last : Parse.slot finish tokens 4 (Parse.readKind .semicolon) = .ok stop) :
    4 < tokens.length := by
  obtain ⟨kind, _⟩ := readKind_eq_ok_iff.mp (slot_eq_ok_iff.mp last)
  by_contra short
  rw [List.getD_eq_getElem?_getD, List.getElem?_eq_none (by omega), Option.getD_none, isEnd] at kind
  cases kind

/-- One command is read exactly where the grammar has one. -/
theorem command_eq_ok_iff {finish : Token} {tokens : List Token} {command : Command Expr}
    (isEnd : finish.kind = .endOfInput) :
    Parse.command finish tokens = .ok command ↔
      ∃ piece rest, tokens = piece ++ rest ∧ Spells piece command := by
  constructor
  · intro read
    unfold Parse.command at read
    dsimp only at read
    split at read
    · next isWord =>
        simp only [bind_eq_ok_iff, pure_eq_ok_iff] at read
        obtain ⟨name, atName, equals, atEquals, value, atValue, stop, atStop, rfl⟩ := read
        obtain ⟨_, _, _, _, _, rest, rfl⟩ := exists_five (length_of_lastSlot isEnd atStop)
        simp only [slot_eq_ok_iff, readKind_eq_ok_iff, readExpr_eq_ok_iff, List.getD_cons_succ,
          List.getD_cons_zero] at isWord atName atEquals atValue atStop
        obtain ⟨isName, rfl⟩ := atName
        exact ⟨_, rest, rfl, .declare isWord isName atEquals.1 atValue atStop.1⟩
    · next isWord =>
        simp only [bind_eq_ok_iff, pure_eq_ok_iff] at read
        obtain ⟨opening, atOpening, argument, atArgument, closing, atClosing, stop, atStop, rfl⟩ :=
          read
        obtain ⟨_, _, _, _, _, rest, rfl⟩ := exists_five (length_of_lastSlot isEnd atStop)
        simp only [slot_eq_ok_iff, readKind_eq_ok_iff, readExpr_eq_ok_iff, List.getD_cons_succ,
          List.getD_cons_zero] at isWord atOpening atArgument atClosing atStop
        exact ⟨_, rest, rfl, .print isWord atOpening.1 atArgument atClosing.1 atStop.1⟩
    · cases read
    · cases read
  · rintro ⟨piece, rest, rfl, spells⟩
    cases spells with
    | declare isWord isName isEquals isOperand isStop =>
        simp only [Parse.command, List.cons_append, List.getD_cons_zero, isWord, bind_eq_ok_iff,
          slot_eq_ok_iff, List.getD_cons_succ, readKind_eq_ok_iff, readExpr_eq_ok_iff]
        exact ⟨_, ⟨isName, rfl⟩, _, ⟨isEquals, rfl⟩, _, isOperand, _, ⟨isStop, rfl⟩, rfl⟩
    | print isWord isOpening isOperand isClosing isStop =>
        simp only [Parse.command, List.cons_append, List.getD_cons_zero, isWord, bind_eq_ok_iff,
          slot_eq_ok_iff, List.getD_cons_succ, readKind_eq_ok_iff, readExpr_eq_ok_iff]
        exact ⟨_, ⟨isOpening, rfl⟩, _, isOperand, _, ⟨isClosing, rfl⟩, _, ⟨isStop, rfl⟩, rfl⟩

/-- A command takes exactly five tokens, the first of which is one of the two reserved words. -/
theorem Spells.exists_cons {piece : List Token} {command : Command Expr}
    (spells : Spells piece command) :
    ∃ word others, piece = word :: others ∧ others.length = 4 ∧ word.kind ≠ .endOfInput := by
  cases spells with
  | declare isWord => exact ⟨_, _, rfl, rfl, by simp [isWord]⟩
  | print isWord => exact ⟨_, _, rfl, rfl, by simp [isWord]⟩

/-- At the end nothing more is read. -/
theorem commands_of_atEnd {finish : Token} {rest : List Token} (ended : AtEnd rest) :
    Parse.commands finish rest = ⟨.ok [], 0⟩ := by
  obtain rfl | ⟨last, after, rfl, isEnd⟩ := ended
  · rw [Parse.commands]
  · rw [Parse.commands, if_pos isEnd]

/-- A command in front of a list is read first, and the reading goes on right behind it. -/
theorem commands_of_spells {finish : Token} {piece rest : List Token} {command : Command Expr}
    (isEnd : finish.kind = .endOfInput) (spells : Spells piece command) :
    Parse.commands finish (piece ++ rest) = (Parse.commands finish rest).prepend command := by
  have read := (command_eq_ok_iff isEnd).mpr ⟨piece, rest, rfl, spells⟩
  obtain ⟨word, others, rfl, length, notEnd⟩ := spells.exists_cons
  rw [List.cons_append] at read ⊢
  rw [Parse.commands, if_neg notEnd, read]
  dsimp only
  rw [List.drop_left' length]

/-- A whole reading succeeds exactly on the lists that spell a program, and gives that program. -/
theorem commands_eq_ok_iff {finish : Token} {tokens : List Token} {program : Program}
    (isEnd : finish.kind = .endOfInput) :
    (Parse.commands finish tokens).result = .ok program ↔ Derives tokens program := by
  constructor
  · intro read
    fun_induction Parse.commands finish tokens generalizing program with
    | case1 =>
        cases read
        exact .finish (.inl rfl)
    | case2 token rest ended =>
        cases read
        exact .finish (.inr ⟨token, rest, rfl, ended⟩)
    | case3 token rest notEnd stop failed => cases read
    | case4 token rest notEnd first firstRead ih =>
        obtain ⟨others, othersRead, rfl⟩ := map_eq_ok_iff.mp read
        obtain ⟨piece, after, split, spells⟩ := (command_eq_ok_iff isEnd).mp firstRead
        obtain ⟨word, slots, rfl, length, _⟩ := spells.exists_cons
        rw [List.cons_append, List.cons.injEq] at split
        obtain ⟨rfl, rfl⟩ := split
        have derives := ih othersRead
        rw [List.drop_left' length] at derives
        exact .command spells derives
  · intro derives
    induction derives with
    | finish ended => rw [commands_of_atEnd ended]
    | command spells _ ih =>
        rw [commands_of_spells isEnd spells]
        exact map_eq_ok_iff.mpr ⟨_, ih, rfl⟩

end VarPrint.Grammar

namespace VarPrint

/-- Reading succeeds on exactly the lists of tokens that the grammar derives, whether or not there
is an end token among them and wherever it stands, and the program is the one of the derivation. -/
theorem parse_eq_ok_iff_derives (tokens : List Token) (program : Program) :
    parse tokens = .ok program ↔ Grammar.Derives tokens program :=
  Grammar.commands_eq_ok_iff rfl

end VarPrint
