/-
# The earliest error

A list of tokens is viable when something can follow it that makes a program of it. A reading that
fails does so at the earliest token that leaves the list not viable. Everything in front of that
token can still be completed, and no program begins with the tokens up to and including it.

A command is described here by what it asks for in each of its places. The first token decides what
the other four places ask for, and every place can be filled. A list is therefore the front of a
command as soon as each of its tokens fits its place, and it stops to be one at the first token
which does not fit. That is the token that the reading stops at.
-/

import VarPrint.Proofs.Program.Extension
import Mathlib.Data.List.GetD

namespace VarPrint

namespace Grammar

/-- What a command asks for in one of its places. -/
inductive Slot where
  | ofKind (kind : TokenKind)
  | operand
deriving DecidableEq, Repr

namespace Slot

/-- The token fits the place. -/
def Accepts : Slot → Token → Prop
  | ofKind kind, token => token.kind = kind
  | operand, token => ∃ value, Operand token value

/-- A token that fits the place. -/
def sample : Slot → Token
  | ofKind kind => ⟨⟨kind, []⟩, .nowhere⟩
  | operand => ⟨⟨.identifier, []⟩, .nowhere⟩

theorem accepts_sample (slot : Slot) : slot.Accepts slot.sample := by
  cases slot with
  | ofKind kind => exact rfl
  | operand => exact ⟨_, .reference rfl⟩

/-- Reads a token for the place and keeps nothing of it. -/
def read : Slot → Token → Except Fault Unit
  | ofKind kind => fun token => (Parse.readKind kind token).map fun _ => ()
  | operand => fun token => (Parse.readExpr token).map fun _ => ()

theorem read_eq_ok_iff {slot : Slot} {token : Token} :
    slot.read token = .ok () ↔ slot.Accepts token := by
  cases slot with
  | ofKind kind => simp [read, Accepts, map_eq_ok_iff, readKind_eq_ok_iff]
  | operand => simp [read, Accepts, map_eq_ok_iff, readExpr_eq_ok_iff]

theorem read_faults (slot : Slot) {token : Token} (quoted : token.IsQuoted) :
    FaultsWithin (Fault.IsAbout · token) (slot.read token) := by
  cases slot with
  | ofKind kind => exact (Parse.readKind_faults kind token).map
  | operand => exact (Parse.readExpr_faults quoted).map

end Slot

/-- What a command that begins with a token of this kind asks for behind it. -/
def form? : TokenKind → Option (List Slot)
  | .varWord => some [.ofKind .identifier, .ofKind .assign, .operand, .ofKind .semicolon]
  | .printWord => some [.ofKind .leftParen, .operand, .ofKind .rightParen, .ofKind .semicolon]
  | _ => none

/-- No place of a command asks for the end of the input. -/
theorem not_accepts_of_form? {first : TokenKind} {form : List Slot} {finish : Token}
    (isForm : form? first = some form) (isEnd : finish.kind = .endOfInput) :
    ∀ slot ∈ form, ¬ slot.Accepts finish := by
  have notOperand : ¬ Slot.operand.Accepts finish := by
    rintro ⟨value, operand⟩
    cases operand <;> simp_all
  have notKind {kind : TokenKind} (other : kind ≠ .endOfInput) :
      ¬ (Slot.ofKind kind).Accepts finish := by
    intro isKind
    exact other (isKind.symm.trans isEnd)
  unfold form? at isForm
  split at isForm
  · cases isForm
    simp [notOperand, notKind]
  · cases isForm
    simp [notOperand, notKind]
  · cases isForm

theorem length_of_form? {first : TokenKind} {form : List Slot} (isForm : form? first = some form) :
    form.length = 4 := by
  unfold form? at isForm
  split at isForm <;> cases isForm <;> rfl

theorem Spells.length_eq {piece : List Token} {command : Command Expr}
    (spells : Spells piece command) : piece.length = 5 := by
  cases spells <;> rfl

/-- Five tokens are a command exactly when the first one has a form and the others fit it. -/
theorem exists_spells_iff {word : Token} {others : List Token} :
    (∃ command, Spells (word :: others) command) ↔
      ∃ form, form? word.kind = some form ∧ List.Forall₂ Slot.Accepts form others := by
  constructor
  · rintro ⟨command, spells⟩
    cases spells with
    | declare isWord isName isEquals isOperand isStop =>
        refine ⟨_, congrArg form? isWord, ?_⟩
        exact .cons isName (.cons isEquals (.cons ⟨_, isOperand⟩ (.cons isStop .nil)))
    | print isWord isOpening isOperand isClosing isStop =>
        refine ⟨_, congrArg form? isWord, ?_⟩
        exact .cons isOpening (.cons ⟨_, isOperand⟩ (.cons isClosing (.cons isStop .nil)))
  · rintro ⟨form, isForm, fills⟩
    unfold form? at isForm
    split at isForm
    · next isWord =>
        cases isForm
        obtain _ | ⟨isName, _ | ⟨isEquals, _ | ⟨⟨value, isOperand⟩, _ | ⟨isStop, _ | _⟩⟩⟩⟩ := fills
        exact ⟨_, .declare isWord isName isEquals isOperand isStop⟩
    · next isWord =>
        cases isForm
        obtain _ | ⟨isOpening, _ | ⟨⟨value, isOperand⟩, _ | ⟨isClosing, _ | ⟨isStop, _ | _⟩⟩⟩⟩ :=
          fills
        exact ⟨_, .print isWord isOpening isOperand isClosing isStop⟩
    · cases isForm

/-- The tokens fit the first places of a form. -/
inductive Begins : List Slot → List Token → Prop
  | nil {form : List Slot} : Begins form []
  | cons {slot : Slot} {form : List Slot} {token : Token} {front : List Token}
      (accepts : slot.Accepts token) (others : Begins form front) :
      Begins (slot :: form) (token :: front)

theorem begins_cons_iff {slot : Slot} {form : List Slot} {token : Token} {front : List Token} :
    Begins (slot :: form) (token :: front) ↔ slot.Accepts token ∧ Begins form front := by
  constructor
  · intro begins
    cases begins with
    | cons accepts others => exact ⟨accepts, others⟩
  · rintro ⟨accepts, others⟩
    exact .cons accepts others

/-- A form that was begun can be completed. -/
theorem Begins.exists_fills {form : List Slot} {front : List Token} (begins : Begins form front) :
    ∃ others, List.Forall₂ Slot.Accepts form (front ++ others) := by
  induction begins with
  | @nil form =>
      refine ⟨form.map Slot.sample, ?_⟩
      rw [List.nil_append, List.forall₂_map_right_iff, List.forall₂_same]
      exact fun slot _ => slot.accepts_sample
  | cons accepts _ ih =>
      obtain ⟨others, fills⟩ := ih
      exact ⟨others, .cons accepts fills⟩

theorem begins_of_fills {form : List Slot} {front others : List Token}
    (fills : List.Forall₂ Slot.Accepts form (front ++ others)) : Begins form front := by
  induction front generalizing form with
  | nil => exact .nil
  | cons token front ih =>
      cases fills with
      | cons accepts fills => exact .cons accepts (ih fills)

/-- The tokens are the front of a command. -/
def BeginsCommand (front : List Token) : Prop :=
  ∃ others command, Spells (front ++ others) command

theorem beginsCommand_nil : BeginsCommand [] := by
  obtain ⟨others, fills⟩ : ∃ others, List.Forall₂ Slot.Accepts
      [.ofKind .identifier, .ofKind .assign, .operand, .ofKind .semicolon] ([] ++ others) :=
    Begins.nil.exists_fills
  exact ⟨(Slot.ofKind .varWord).sample :: others, exists_spells_iff.mpr ⟨_, rfl, fills⟩⟩

theorem beginsCommand_cons_iff {word : Token} {front : List Token} :
    BeginsCommand (word :: front) ↔
      ∃ form, form? word.kind = some form ∧ Begins form front := by
  constructor
  · rintro ⟨others, spells⟩
    obtain ⟨form, isForm, fills⟩ := exists_spells_iff.mp spells
    exact ⟨form, isForm, begins_of_fills fills⟩
  · rintro ⟨form, isForm, begins⟩
    obtain ⟨others, fills⟩ := begins.exists_fills
    exact ⟨others, exists_spells_iff.mpr ⟨form, isForm, fills⟩⟩

end Grammar

namespace Parse

open Grammar (Slot Begins BeginsCommand Derives Spells)

/-- Reads the tokens from an index on for the places of a form. -/
def slots (finish : Token) (tokens : List Token) : (index : Nat) → List Slot → Except Stop Unit
  | _, [] => .ok ()
  | index, place :: form => do
    slot finish tokens index place.read
    slots finish tokens (index + 1) form

/-- What is kept of a token makes no difference to where a reading stops. -/
theorem slot_map {α : Type} (finish : Token) (tokens : List Token) (index : Nat)
    (read : Token → Except Fault α) :
    slot finish tokens index (fun token => (read token).map fun _ => ()) =
      (slot finish tokens index read).map fun _ => () := by
  unfold slot
  dsimp only
  cases read (tokens.getD index finish) <;> rfl

theorem map_bind_eq {α β : Type} {first : Except Stop α} {next : α → Except Stop β}
    {rest : Except Stop Unit} (each : ∀ value, (next value).map (fun _ => ()) = rest) :
    (first >>= next).map (fun _ => ()) = first.map (fun _ => ()) >>= fun _ => rest := by
  cases first with
  | error stop => rfl
  | ok value => exact each value

/-- A command is read place by place behind its first token. -/
theorem command_map {finish : Token} {tokens : List Token} {form : List Slot}
    (isForm : Grammar.form? (tokens.getD 0 finish).kind = some form) :
    (command finish tokens).map (fun _ => ()) = slots finish tokens 1 form := by
  unfold Grammar.form? at isForm
  split at isForm
  · next isWord =>
      cases isForm
      simp only [command, isWord, slots, Slot.read, slot_map]
      exact map_bind_eq fun _ => map_bind_eq fun _ => map_bind_eq fun _ => map_bind_eq fun _ => rfl
  · next isWord =>
      cases isForm
      simp only [command, isWord, slots, Slot.read, slot_map]
      exact map_bind_eq fun _ => map_bind_eq fun _ => map_bind_eq fun _ => map_bind_eq fun _ => rfl
  · cases isForm

/-- A fault at the first token with which a list is no longer the front of something. -/
structure StopsAt (Front : List Token → Prop) (finish : Token) (tokens : List Token)
    (fault : Fault) (index : Nat) : Prop where
  inside : index ≤ tokens.length
  front : Front (tokens.take index)
  past : index < tokens.length → ¬ Front (tokens.take (index + 1))
  about : fault.IsAbout (tokens.getD index finish)

variable {finish : Token} {tokens : List Token}

/-- Tokens in front that only ask for the rest to be the front of something else move the place. -/
theorem StopsAt.behind {Front Later : List Token → Prop} {fault : Fault} {index : Nat}
    (piece : List Token) (asks : ∀ front, Front (piece ++ front) ↔ Later front)
    (stopsAt : StopsAt Later finish tokens fault index) :
    StopsAt Front finish (piece ++ tokens) fault (piece.length + index) where
  inside := by
    rw [List.length_append]
    exact Nat.add_le_add_left stopsAt.inside _
  front := by
    rw [List.take_length_add_append, asks]
    exact stopsAt.front
  past := by
    rw [List.length_append, Nat.add_assoc, List.take_length_add_append, asks]
    intro inside
    exact stopsAt.past (Nat.lt_of_add_lt_add_left inside)
  about := by
    rw [List.getD_append_right _ _ _ _ (Nat.le_add_right _ _), Nat.add_sub_cancel_left]
    exact stopsAt.about

/-- A place that is not filled stops the reading at its token. -/
theorem stopsAt_of_slot {place : Slot} (form : List Slot) {index : Nat} {stop : Stop}
    (quoted : ∀ token ∈ finish :: tokens, token.IsQuoted)
    (failed : slot finish tokens index place.read = .error stop) :
    StopsAt (Begins (place :: form)) finish (tokens.drop index) stop.fault 0 ∧
      stop.consumed = min (index + 1) tokens.length := by
  have placed : (tokens.drop index).getD 0 finish = tokens.getD index finish := by
    rw [List.getD_eq_getElem?_getD, List.getElem?_drop, Nat.add_zero, ← List.getD_eq_getElem?_getD]
  unfold slot at failed
  rw [← placed] at failed
  cases reading : place.read ((tokens.drop index).getD 0 finish) with
  | ok _ =>
      rw [reading] at failed
      cases failed
  | error fault =>
      rw [reading] at failed
      cases failed
      refine ⟨⟨Nat.zero_le _, .nil, ?_, ?_⟩, rfl⟩
      · intro inside begins
        obtain ⟨token, rest, isNext⟩ := List.exists_cons_of_length_pos inside
        rw [isNext, List.getD_cons_zero] at reading
        rw [isNext, List.take_succ_cons, Grammar.begins_cons_iff] at begins
        rw [Slot.read_eq_ok_iff.mpr begins.1] at reading
        cases reading
      · rw [placed] at reading ⊢
        exact (place.read_faults (quoted _ (getD_mem_cons finish tokens index))).allowed_of_eq_error
          reading

/-- The reading of a form stops at the first token that does not fit its place. -/
theorem exists_stopsAt_of_slots {form : List Slot} {index : Nat} {stop : Stop}
    (quoted : ∀ token ∈ finish :: tokens, token.IsQuoted)
    (noEnd : ∀ place ∈ form, ¬ place.Accepts finish)
    (failed : slots finish tokens index form = .error stop) :
    ∃ count < form.length,
      StopsAt (Begins form) finish (tokens.drop index) stop.fault count ∧
        stop.consumed = min (index + count + 1) tokens.length := by
  induction form generalizing index with
  | nil => cases failed
  | cons place form ih =>
      rw [List.forall_mem_cons] at noEnd
      rw [slots] at failed
      cases reading : slot finish tokens index place.read with
      | error found =>
          rw [reading] at failed
          cases failed
          exact ⟨0, Nat.succ_pos _, stopsAt_of_slot form quoted reading⟩
      | ok _ =>
          rw [reading] at failed
          rw [Grammar.slot_eq_ok_iff, Slot.read_eq_ok_iff] at reading
          -- The end fits no place, so the token that was read is one of the list.
          have within : index < tokens.length := by
            by_contra outside
            rw [List.getD_eq_default _ _ (Nat.le_of_not_lt outside)] at reading
            exact noEnd.1 reading
          rw [List.getD_eq_getElem _ _ within] at reading
          obtain ⟨count, short, stopsAt, consumed⟩ := ih noEnd.2 failed
          rw [List.drop_eq_getElem_cons within]
          have asks (front : List Token) :
              Begins (place :: form) ([tokens[index]] ++ front) ↔ Begins form front := by
            rw [List.singleton_append, Grammar.begins_cons_iff, and_iff_right reading]
          refine ⟨1 + count, ?_, stopsAt.behind [tokens[index]] asks, ?_⟩
          · rw [List.length_cons]
            omega
          · rw [consumed, Nat.add_assoc index]

/-- A token that no command begins with is reported as it stands, and is not consumed. -/
theorem isAbout_of_command {word : Token} {rest : List Token} {stop : Stop}
    (noForm : Grammar.form? word.kind = none)
    (failed : command finish (word :: rest) = .error stop) :
    stop.fault.IsAbout word ∧ stop.consumed = 0 := by
  rw [command, List.getD_cons_zero] at failed
  split at failed
  · next isWord => simp [isWord, Grammar.form?] at noForm
  · next isWord => simp [isWord, Grammar.form?] at noForm
  · next unknown =>
      cases failed
      exact ⟨unknownToken_isAbout unknown, rfl⟩
  · next notVar notPrint known =>
      cases failed
      refine ⟨⟨_, rfl, .notCommand ?_⟩, rfl⟩
      simp only [List.mem_cons, List.not_mem_nil, or_false, not_or]
      exact ⟨notVar, notPrint, known⟩

/-- The reading of a command stops at the first token with which no command begins. -/
theorem exists_stopsAt_of_command {word : Token} {rest : List Token} {stop : Stop}
    (isEnd : finish.kind = .endOfInput)
    (quoted : ∀ token ∈ finish :: word :: rest, token.IsQuoted)
    (failed : command finish (word :: rest) = .error stop) :
    ∃ count < 5, StopsAt BeginsCommand finish (word :: rest) stop.fault count ∧
      stop.consumed = if count = 0 then 0 else min (count + 1) (word :: rest).length := by
  cases isForm : Grammar.form? word.kind with
  | none =>
      obtain ⟨isAbout, consumed⟩ := isAbout_of_command isForm failed
      refine ⟨0, by decide, ⟨Nat.zero_le _, Grammar.beginsCommand_nil, ?_, isAbout⟩, consumed⟩
      intro _ begins
      obtain ⟨form, hasForm, _⟩ := Grammar.beginsCommand_cons_iff.mp begins
      rw [isForm] at hasForm
      cases hasForm
  | some form =>
      have placed : (command finish (word :: rest)).map (fun _ => ()) =
          slots finish (word :: rest) 1 form := command_map isForm
      rw [failed] at placed
      obtain ⟨count, short, stopsAt, consumed⟩ := exists_stopsAt_of_slots quoted
        (Grammar.not_accepts_of_form? isForm isEnd) placed.symm
      rw [Grammar.length_of_form? isForm] at short
      rw [List.drop_succ_cons, List.drop_zero] at stopsAt
      have asks (front : List Token) : BeginsCommand ([word] ++ front) ↔ Begins form front := by
        rw [List.singleton_append, Grammar.beginsCommand_cons_iff, isForm]
        simp only [Option.some.injEq, exists_eq_left']
      refine ⟨1 + count, Nat.add_lt_add_left short 1, stopsAt.behind [word] asks, ?_⟩
      rw [consumed, if_neg (by omega)]

end Parse

/-- Something can follow the tokens that makes a program of them. -/
def IsViable (front : List Token) : Prop :=
  ∃ rest program, parse (front ++ rest) = .ok program

namespace Parse

open Grammar (BeginsCommand Derives Spells)

variable {finish : Token} {tokens front piece : List Token} {first : Command Expr}

theorem isViable_iff : IsViable front ↔ ∃ rest program, Derives (front ++ rest) program := by
  unfold IsViable parse
  apply exists_congr
  intro rest
  apply exists_congr
  intro program
  exact Grammar.commands_eq_ok_iff rfl

/-- A command in front makes no difference. -/
theorem isViable_append_iff (spells : Spells piece first) :
    IsViable (piece ++ front) ↔ IsViable front := by
  rw [isViable_iff, isViable_iff]
  constructor
  · rintro ⟨rest, program, derives⟩
    have isEnd : (Token.finish .nowhere).kind = .endOfInput := rfl
    rw [List.append_assoc, ← Grammar.commands_eq_ok_iff isEnd,
      Grammar.commands_of_spells isEnd spells] at derives
    obtain ⟨others, read, _⟩ := map_eq_ok_iff.mp derives
    exact ⟨rest, others, (Grammar.commands_eq_ok_iff isEnd).mp read⟩
  · rintro ⟨rest, program, derives⟩
    refine ⟨rest, first :: program, ?_⟩
    rw [List.append_assoc]
    exact .command spells derives

theorem isViable_of_beginsCommand (begins : BeginsCommand front) : IsViable front := by
  obtain ⟨others, command, spells⟩ := begins
  rw [isViable_iff]
  refine ⟨others, [command], ?_⟩
  have derives := Derives.command spells (.finish (.inl rfl))
  rwa [List.append_nil] at derives

/-- A list that no command begins with, and that is not at the end, begins no program. -/
theorem not_isViable_of_not_beginsCommand {word : Token} (notEnd : word.kind ≠ .endOfInput)
    (short : (word :: front).length ≤ 5) (begins : ¬ BeginsCommand (word :: front)) :
    ¬ IsViable (word :: front) := by
  rw [isViable_iff]
  rintro ⟨rest, program, derives⟩
  generalize whole : word :: front ++ rest = tokens at derives
  cases derives with
  | finish ended =>
      obtain rfl | ⟨last, after, rfl, isEnd⟩ := ended
      · cases whole
      · cases whole
        exact notEnd isEnd
  | @command piece after command program spells _ =>
      have inside : word :: front <+: piece := by
        apply List.prefix_of_prefix_length_le ⟨rest, whole⟩ ⟨after, rfl⟩
        rw [spells.length_eq]
        exact short
      obtain ⟨more, split⟩ := inside
      rw [← split] at spells
      exact begins ⟨more, command, spells⟩

/-- A reading stops at the first token that leaves the list not viable. It has gone past that token,
unless a command should begin there. -/
theorem exists_stopsAt_of_commands {fault : Fault} (isEnd : finish.kind = .endOfInput)
    (quoted : ∀ token ∈ finish :: tokens, token.IsQuoted)
    (failed : (commands finish tokens).result = .error fault) :
    ∃ index, StopsAt IsViable finish tokens fault index ∧
      (commands finish tokens).consumed =
        if index % 5 = 0 then index else min (index + 1) tokens.length := by
  fun_induction commands finish tokens with
  | case1 => cases failed
  | case2 token rest ended => cases failed
  | case3 token rest notEnd stop stopped =>
      cases failed
      obtain ⟨count, short, stopsAt, consumed⟩ := exists_stopsAt_of_command isEnd quoted stopped
      have viable := isViable_of_beginsCommand stopsAt.front
      refine ⟨count, ⟨stopsAt.inside, viable, ?_, stopsAt.about⟩, ?_⟩
      · intro inside
        have past := stopsAt.past inside
        rw [List.take_succ_cons] at past ⊢
        apply not_isViable_of_not_beginsCommand notEnd _ past
        rw [List.length_cons, List.length_take]
        omega
      · rw [consumed, Nat.mod_eq_of_lt short]
        split
        · next isZero => exact isZero.symm
        · rfl
  | case4 token rest notEnd first read ih =>
      obtain ⟨piece, after, split, spells⟩ := (Grammar.command_eq_ok_iff isEnd).mp read
      have five := spells.length_eq
      have behind : rest.drop 4 = after := by
        rw [← List.drop_succ_cons (a := token), split, List.drop_left' five]
      rw [behind] at ih failed ⊢
      rw [split] at quoted ⊢
      rw [List.forall_mem_cons, List.forall_mem_append] at quoted
      have later : ∀ token ∈ finish :: after, token.IsQuoted :=
        List.forall_mem_cons.mpr ⟨quoted.1, quoted.2.2⟩
      obtain ⟨index, stopsAt, consumed⟩ := ih later (map_eq_error_iff.mp failed)
      have asks (front : List Token) : IsViable (piece ++ front) ↔ IsViable front :=
        isViable_append_iff spells
      refine ⟨piece.length + index, stopsAt.behind piece asks, ?_⟩
      rw [Reading.prepend, List.length_append, five]
      dsimp only
      rw [consumed, Nat.add_mod_left]
      split <;> omega

end Parse

/-- A list that is no program fails with an error about the token with an index. -/
structure FailsEarliest (tokens : List Token) (error : SyntaxError) (index : Nat) : Prop where
  inside : index ≤ tokens.length
  /-- What stands in front of the token can be completed to a program. -/
  viable : IsViable (tokens.take index)
  /-- No program begins with the tokens up to and including it. -/
  dead : index < tokens.length → ¬ IsViable (tokens.take (index + 1))
  /-- The error says what the token is and where it stands. -/
  met : ∀ token, tokens[index]? = some token → error.IsAbout token
  /-- Where the tokens ran out, the error is about an end at the place of the last of them. -/
  ranOut : index = tokens.length →
    ∃ last, tokens.getLast? = some last ∧ error.IsAbout (.finish last.position)
  /-- The reading has gone past the token, unless a command should begin there. -/
  consumed : (Parse.commands (Parse.finishOf tokens) tokens).consumed =
    if index % 5 = 0 then index else min (index + 1) tokens.length

/-- Whatever list of tokens is refused, the error is about the earliest token at which that is
certain. -/
theorem exists_failsEarliest_of_parse {tokens : List Token} {fault : Fault}
    (quoted : ∀ token ∈ tokens, token.IsQuoted) (failed : parse tokens = .error fault) :
    ∃ error index, fault = .syntaxError error ∧ FailsEarliest tokens error index := by
  have isQuoted : ∀ token ∈ Parse.finishOf tokens :: tokens, token.IsQuoted := by
    rw [List.forall_mem_cons]
    refine ⟨?_, quoted⟩
    intro isText
    cases isText
  obtain ⟨index, stopsAt, consumed⟩ := Parse.exists_stopsAt_of_commands rfl isQuoted failed
  obtain ⟨error, isError, isAbout⟩ := stopsAt.about
  refine ⟨error, index, isError, stopsAt.inside, stopsAt.front, stopsAt.past, ?_, ?_, consumed⟩
  · intro token isToken
    rw [List.getD_eq_getElem?_getD, isToken] at isAbout
    exact isAbout
  · intro ranOut
    rw [List.getD_eq_default _ _ (Nat.le_of_eq ranOut.symm)] at isAbout
    cases last : tokens.getLast? with
    | none =>
        rw [List.getLast?_eq_none_iff] at last
        rw [last, parse, Parse.commands] at failed
        cases failed
    | some token =>
        rw [Parse.finishOf, last] at isAbout
        exact ⟨token, rfl, isAbout⟩

/-- Tokens without an end that run out where an expression should stand. -/
theorem exists_failsEarliest_of_parse_ranOut :
    parse ((tokenize (utf8 "print(1);\nvar x =")).take 8) =
        .error (.syntaxError ⟨.notExpression ⟨.endOfInput, []⟩, 2, 7⟩) ∧
      ∃ error index,
        Fault.syntaxError ⟨.notExpression ⟨.endOfInput, []⟩, 2, 7⟩ = .syntaxError error ∧
          FailsEarliest ((tokenize (utf8 "print(1);\nvar x =")).take 8) error index := by
  have failed : parse ((tokenize (utf8 "print(1);\nvar x =")).take 8) =
      .error (.syntaxError ⟨.notExpression ⟨.endOfInput, []⟩, 2, 7⟩) := by
    decide +kernel
  refine ⟨failed, exists_failsEarliest_of_parse ?_ failed⟩
  intro token member
  exact isQuoted_of_mem_tokenize token (List.mem_of_mem_take member)

end VarPrint
