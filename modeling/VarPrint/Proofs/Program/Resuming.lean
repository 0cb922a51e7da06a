/-
# Readings that go on

One list of tokens can be read several times, each reading from the place where the one before it
stopped. This module follows that place over any number of readings. It never moves back and never
leaves the list.

A reading takes whole commands, five tokens each. If it comes to the end it stays there, and all
later readings find nothing more. If it fails, it has taken the token that does not fit as well, or
the rest of the list where the tokens ran out. Only a token with which a command should begin is left
where it stands, and then every later reading fails at it again.
-/

import VarPrint.Proofs.Program.Earliest
import Mathlib.Order.Monotone.Basic

namespace VarPrint

namespace Grammar

variable {front rest : List Token} {program : Program}

theorem SpellsAll.length_eq (spells : SpellsAll front program) :
    front.length = 5 * program.length := by
  induction spells with
  | nil => rfl
  | cons spells _ ih =>
      rw [List.length_append, List.length_cons, spells.length_eq, ih]
      omega

/-- Commands in front of a list are taken as a whole, and the reading goes on right behind them. -/
theorem consumed_of_spellsAll {finish : Token} (isEnd : finish.kind = .endOfInput)
    (spells : SpellsAll front program) :
    (Parse.commands finish (front ++ rest)).consumed =
      front.length + (Parse.commands finish rest).consumed := by
  induction spells with
  | nil => rw [List.nil_append, List.length_nil, Nat.zero_add]
  | cons spells _ ih =>
      rw [List.append_assoc, commands_of_spells isEnd spells, Parse.Reading.prepend, ih,
        List.length_append, spells.length_eq]
      dsimp only
      omega

end Grammar

namespace Parse

open Grammar (AtEnd BeginsCommand SpellsAll)

variable {finish : Token} {tokens : List Token} {fault : Fault}

/-- A reading that succeeds has taken whole commands and nothing else, and it stands at the end. -/
theorem exists_spellsAll_of_commands {program : Program} (isEnd : finish.kind = .endOfInput)
    (read : (commands finish tokens).result = .ok program) :
    ∃ whole rest, tokens = whole ++ rest ∧ SpellsAll whole program ∧ AtEnd rest ∧
      (commands finish tokens).consumed = whole.length := by
  obtain ⟨whole, rest, rfl, spells, ended⟩ :=
    ((Grammar.commands_eq_ok_iff isEnd).mp read).exists_spellsAll
  refine ⟨whole, rest, rfl, spells, ended, ?_⟩
  rw [Grammar.consumed_of_spellsAll isEnd spells, Grammar.commands_of_atEnd ended, Nat.add_zero]

/-- A reading that fails has taken whole commands and then fails at the next one. -/
theorem exists_command_of_commands (isEnd : finish.kind = .endOfInput)
    (failed : (commands finish tokens).result = .error fault) :
    ∃ whole word others program stop, tokens = whole ++ word :: others ∧ SpellsAll whole program ∧
      word.kind ≠ .endOfInput ∧ command finish (word :: others) = .error stop ∧
      stop.fault = fault := by
  fun_induction commands finish tokens with
  | case1 => cases failed
  | case2 token rest ended => cases failed
  | case3 token rest notEnd stop stopped =>
      cases failed
      exact ⟨[], token, rest, [], stop, rfl, .nil, notEnd, stopped, rfl⟩
  | case4 token rest notEnd first read ih =>
      obtain ⟨piece, after, split, spells⟩ := (Grammar.command_eq_ok_iff isEnd).mp read
      have behind : rest.drop 4 = after := by
        rw [← List.drop_succ_cons (a := token), split, List.drop_left' spells.length_eq]
      rw [behind] at ih failed
      obtain ⟨whole, word, others, program, stop, rfl, spellsAll, notEnd', stopped, isFault⟩ :=
        ih (map_eq_error_iff.mp failed)
      refine ⟨piece ++ whole, word, others, first :: program, stop, ?_, .cons spells spellsAll,
        notEnd', stopped, isFault⟩
      rw [split, List.append_assoc]

theorem commands_of_command {word : Token} {others : List Token} {stop : Stop}
    (notEnd : word.kind ≠ .endOfInput) (stopped : command finish (word :: others) = .error stop) :
    commands finish (word :: others) = ⟨.error stop.fault, stop.consumed⟩ := by
  rw [commands, if_neg notEnd, stopped]

/-- How a reading fails: behind whole commands and the front of one more stands a token that does
not go on with it, or the tokens run out. A front without tokens means that a command should have
begun there. -/
structure StopsBehind (finish : Token) (tokens : List Token) (fault : Fault)
    (whole begun rest : List Token) : Prop where
  split : tokens = whole ++ (begun ++ rest)
  spelled : ∃ program, SpellsAll whole program
  begins : BeginsCommand begun
  short : begun.length < 5
  refused : ∀ token after, rest = token :: after → ¬ BeginsCommand (begun ++ [token])
  goesOn : begun = [] → ¬ AtEnd rest
  about : fault.IsAbout (rest.headD finish)

theorem StopsBehind.length_eq {whole begun rest : List Token}
    (stops : StopsBehind finish tokens fault whole begun rest) :
    tokens.length = whole.length + (begun ++ rest).length := by
  rw [stops.split, List.length_append]

/-- A command that fails does so behind a front of it. That front is taken, and the token that does
not go on with it, but nothing is taken where no command was begun. -/
theorem exists_begun_of_command {word : Token} {others : List Token} {stop : Stop}
    (isEnd : finish.kind = .endOfInput) (notEnd : word.kind ≠ .endOfInput)
    (quoted : ∀ token ∈ finish :: word :: others, token.IsQuoted)
    (stopped : command finish (word :: others) = .error stop) :
    ∃ begun rest, StopsBehind finish (word :: others) stop.fault [] begun rest ∧
      stop.consumed = if begun = [] then 0 else min (begun.length + 1) (begun ++ rest).length := by
  obtain ⟨count, short, stopsAt, consumed⟩ := exists_stopsAt_of_command isEnd quoted stopped
  have isCount : ((word :: others).take count).length = count :=
    List.length_take_of_le stopsAt.inside
  have isNil : (word :: others).take count = [] ↔ count = 0 := by
    rw [← List.length_eq_zero_iff, isCount]
  refine ⟨(word :: others).take count, (word :: others).drop count, ?_, ?_⟩
  · refine ⟨?_, ⟨[], .nil⟩, stopsAt.front, isCount.trans_lt short, ?_, ?_, ?_⟩
    · rw [List.nil_append, List.take_append_drop]
    · intro token after isNext begins
      have found : (word :: others)[count]? = some token := by
        rw [← List.head?_drop, isNext, List.head?_cons]
      obtain ⟨inside, _⟩ := List.getElem?_eq_some_iff.mp found
      apply stopsAt.past inside
      rw [List.take_add_one, found]
      exact begins
    · intro nothing ended
      rw [isNil.mp nothing, List.drop_zero] at ended
      obtain empty | ⟨last, after, isLast, isEnd⟩ := ended
      · cases empty
      · cases isLast
        exact notEnd isEnd
    · rw [List.headD_eq_head?_getD, List.head?_drop, ← List.getD_eq_getElem?_getD]
      exact stopsAt.about
  · rw [consumed, List.take_append_drop, isCount]
    simp only [isNil]

/-- A reading that fails has taken the whole commands, and of the one that was begun behind them
everything up to the token that does not fit. -/
theorem exists_stopsBehind_of_commands (isEnd : finish.kind = .endOfInput)
    (quoted : ∀ token ∈ finish :: tokens, token.IsQuoted)
    (failed : (commands finish tokens).result = .error fault) :
    ∃ whole begun rest, StopsBehind finish tokens fault whole begun rest ∧
      (commands finish tokens).consumed = whole.length +
        if begun = [] then 0 else min (begun.length + 1) (begun ++ rest).length := by
  obtain ⟨whole, word, others, program, stop, rfl, spelled, notEnd, stopped, rfl⟩ :=
    exists_command_of_commands isEnd failed
  rw [List.forall_mem_cons, List.forall_mem_append] at quoted
  obtain ⟨begun, rest, stops, consumed⟩ := exists_begun_of_command isEnd notEnd
    (List.forall_mem_cons.mpr ⟨quoted.1, quoted.2.2⟩) stopped
  refine ⟨whole, begun, rest, ?_, ?_⟩
  · refine ⟨?_, ⟨program, spelled⟩, stops.begins, stops.short, stops.refused, stops.goesOn,
      stops.about⟩
    rw [stops.split, List.nil_append]
  · rw [Grammar.consumed_of_spellsAll isEnd spelled, commands_of_command notEnd stopped, ← consumed]

/-- A token with which no command begins stops the reading of one. -/
theorem exists_stop_of_command {word : Token} (others : List Token)
    (isEnd : finish.kind = .endOfInput) (noForm : Grammar.form? word.kind = none) :
    ∃ stop, command finish (word :: others) = .error stop ∧ stop.consumed = 0 := by
  cases stopped : command finish (word :: others) with
  | ok first =>
      obtain ⟨piece, after, split, spells⟩ := (Grammar.command_eq_ok_iff isEnd).mp stopped
      obtain ⟨first, places, rfl, _⟩ := spells.exists_cons
      cases split
      obtain ⟨form, isForm, _⟩ := Grammar.exists_spells_iff.mp ⟨_, spells⟩
      rw [noForm] at isForm
      cases isForm
  | error stop => exact ⟨stop, rfl, (isAbout_of_command noForm stopped).2⟩

/-- Where a command should have begun and did not, another reading fails in the same way and takes
nothing. -/
theorem StopsBehind.commands_eq {whole rest : List Token} (isEnd : finish.kind = .endOfInput)
    (stops : StopsBehind finish tokens fault whole [] rest)
    (failed : (commands finish tokens).result = .error fault) :
    commands finish rest = ⟨.error fault, 0⟩ := by
  obtain ⟨program, spelled⟩ := stops.spelled
  rw [stops.split, List.nil_append, Grammar.commands_of_spellsAll isEnd spelled,
    map_eq_error_iff] at failed
  cases rest with
  | nil => exact absurd (.inl rfl) (stops.goesOn rfl)
  | cons word others =>
      have notEnd : word.kind ≠ .endOfInput := by
        intro isEnd
        exact stops.goesOn rfl (.inr ⟨word, others, rfl, isEnd⟩)
      have noForm : Grammar.form? word.kind = none := by
        rw [Option.eq_none_iff_forall_ne_some]
        intro form isForm
        exact stops.refused word others rfl (Grammar.beginsCommand_cons_iff.mpr ⟨form, isForm, .nil⟩)
      obtain ⟨stop, stopped, nothing⟩ := exists_stop_of_command others isEnd noForm
      rw [commands_of_command notEnd stopped] at failed ⊢
      cases failed
      rw [nothing]

/-! ## Several readings -/

/-- The place in a list to which so many readings have come. -/
def placeAfter (tokens : List Token) : Nat → Nat
  | 0 => 0
  | count + 1 =>
    placeAfter tokens count +
      (commands (finishOf tokens) (tokens.drop (placeAfter tokens count))).consumed

/-- The reading that comes after so many others. -/
def readingAfter (tokens : List Token) (count : Nat) : Reading :=
  commands (finishOf tokens) (tokens.drop (placeAfter tokens count))

theorem placeAfter_succ (tokens : List Token) (count : Nat) :
    placeAfter tokens (count + 1) = placeAfter tokens count + (readingAfter tokens count).consumed :=
  rfl

theorem drop_placeAfter_succ (tokens : List Token) (count : Nat) :
    tokens.drop (placeAfter tokens (count + 1)) =
      (tokens.drop (placeAfter tokens count)).drop (readingAfter tokens count).consumed := by
  rw [placeAfter_succ, List.drop_drop]

theorem roundsFrom_eq (tokens : List Token) (start count : Nat) :
    roundsFrom (finishOf tokens) count (tokens.drop (placeAfter tokens start)) =
      (List.range' start count).map fun index => (readingAfter tokens index).result := by
  induction count generalizing start with
  | zero => rfl
  | succ count ih =>
      rw [roundsFrom, List.range'_succ, List.map_cons, ← ih (start + 1), drop_placeAfter_succ]
      rfl

/-- A reading that takes nothing is repeated by all that follow. -/
theorem readingAfter_of_consumed_eq_zero {count later : Nat}
    (nothing : (readingAfter tokens count).consumed = 0) (isLater : count ≤ later) :
    readingAfter tokens later = readingAfter tokens count := by
  induction later, isLater using Nat.le_induction with
  | base => rfl
  | succ later _ ih =>
      rw [← ih] at nothing
      rw [← ih, readingAfter, drop_placeAfter_succ, nothing, List.drop_zero]
      rfl

/-- A reading takes no more than there is. -/
theorem consumed_le (isEnd : finish.kind = .endOfInput)
    (quoted : ∀ token ∈ finish :: tokens, token.IsQuoted) :
    (commands finish tokens).consumed ≤ tokens.length := by
  cases reading : (commands finish tokens).result with
  | ok program =>
      obtain ⟨whole, rest, rfl, _, _, consumed⟩ := exists_spellsAll_of_commands isEnd reading
      rw [consumed, List.length_append]
      exact Nat.le_add_right _ _
  | error fault =>
      obtain ⟨whole, begun, rest, stops, consumed⟩ :=
        exists_stopsBehind_of_commands isEnd quoted reading
      rw [consumed, stops.length_eq]
      apply Nat.add_le_add_left
      split
      · exact Nat.zero_le _
      · exact Nat.min_le_right _ _

/-- The texts of a list have their quotes wherever a reading of it begins. -/
theorem isQuoted_of_mem_drop (quoted : ∀ token ∈ tokens, token.IsQuoted) (place : Nat) :
    ∀ token ∈ finishOf tokens :: tokens.drop place, token.IsQuoted := by
  rw [List.forall_mem_cons]
  refine ⟨?_, fun token member => quoted token (List.mem_of_mem_drop member)⟩
  intro isText
  cases isText

theorem placeAfter_le_length (quoted : ∀ token ∈ tokens, token.IsQuoted) (count : Nat) :
    placeAfter tokens count ≤ tokens.length := by
  induction count with
  | zero => exact Nat.zero_le _
  | succ count ih =>
      have taken : (readingAfter tokens count).consumed ≤
          (tokens.drop (placeAfter tokens count)).length :=
        consumed_le rfl (isQuoted_of_mem_drop quoted _)
      rw [List.length_drop] at taken
      rw [placeAfter_succ]
      omega

/-- What a reading that gives a program does to the place: it moves on by five tokens for each
command to the end, where later readings find nothing more. -/
structure Completes (tokens : List Token) (count : Nat) (program : Program) : Prop where
  place : placeAfter tokens (count + 1) = placeAfter tokens count + 5 * program.length
  atEnd : AtEnd (tokens.drop (placeAfter tokens (count + 1)))
  later : ∀ later, count < later → (readingAfter tokens later).result = .ok []

/-- What a reading that fails does to the place. It stays at the token that does not fit if a
command should begin there, and later readings fail at it again. Otherwise it moves past that token,
or to the end of the list if the tokens ran out. -/
structure Halts (tokens : List Token) (count : Nat) (fault : Fault)
    (whole begun rest : List Token) : Prop where
  stops : StopsBehind (finishOf tokens) (tokens.drop (placeAfter tokens count)) fault
    whole begun rest
  atToken : begun = [] → placeAfter tokens (count + 1) = placeAfter tokens count + whole.length
  later : begun = [] → ∀ later, count < later → (readingAfter tokens later).result = .error fault
  pastToken : begun ≠ [] → rest ≠ [] →
    placeAfter tokens (count + 1) = placeAfter tokens count + (whole ++ begun).length + 1
  ranOut : begun ≠ [] → rest = [] → placeAfter tokens (count + 1) = tokens.length

theorem completes_of_readingAfter {count : Nat} {program : Program}
    (read : (readingAfter tokens count).result = .ok program) : Completes tokens count program := by
  obtain ⟨whole, rest, split, spells, ended, consumed⟩ := exists_spellsAll_of_commands rfl read
  have behind : tokens.drop (placeAfter tokens (count + 1)) = rest := by
    rw [drop_placeAfter_succ, readingAfter, consumed, split, List.drop_left]
  have next : readingAfter tokens (count + 1) = ⟨.ok [], 0⟩ := by
    rw [readingAfter, behind, Grammar.commands_of_atEnd ended]
  refine ⟨?_, behind ▸ ended, ?_⟩
  · rw [placeAfter_succ, readingAfter, consumed, spells.length_eq]
  · intro later isLater
    rw [readingAfter_of_consumed_eq_zero (congrArg Reading.consumed next) isLater, next]

theorem exists_halts_of_readingAfter {count : Nat} (quoted : ∀ token ∈ tokens, token.IsQuoted)
    (failed : (readingAfter tokens count).result = .error fault) :
    ∃ whole begun rest, Halts tokens count fault whole begun rest := by
  obtain ⟨whole, begun, rest, stops, consumed⟩ :=
    exists_stopsBehind_of_commands rfl (isQuoted_of_mem_drop quoted _) failed
  have place : placeAfter tokens (count + 1) = placeAfter tokens count + (whole.length +
      if begun = [] then 0 else min (begun.length + 1) (begun ++ rest).length) :=
    congrArg (placeAfter tokens count + ·) consumed
  refine ⟨whole, begun, rest, stops, ?_, ?_, ?_, ?_⟩
  · intro nothing
    rw [place, if_pos nothing, Nat.add_zero]
  · rintro rfl later isLater
    -- The next reading begins at the token that does not fit and takes nothing.
    have behind : tokens.drop (placeAfter tokens (count + 1)) = rest := by
      rw [place, if_pos rfl, Nat.add_zero, ← List.drop_drop, stops.split, List.drop_left]
      rfl
    have next : readingAfter tokens (count + 1) = ⟨.error fault, 0⟩ := by
      rw [readingAfter, behind]
      exact stops.commands_eq rfl failed
    rw [readingAfter_of_consumed_eq_zero (congrArg Reading.consumed next) isLater, next]
  · intro isBegun goesOn
    have more := List.length_pos_iff.mpr goesOn
    rw [place, if_neg isBegun, List.length_append, List.length_append]
    omega
  · rintro isBegun rfl
    have lengths := stops.length_eq
    rw [List.length_drop, List.append_nil] at lengths
    have inside := placeAfter_le_length quoted count
    rw [place, if_neg isBegun, List.append_nil]
    omega

/-- What becomes of the place over any number of readings of one list. -/
structure ReadsOn (tokens : List Token) : Prop where
  results : ∀ count, rounds count tokens =
    (List.range count).map fun index => (readingAfter tokens index).result
  monotone : Monotone (placeAfter tokens)
  inside : ∀ count, placeAfter tokens count ≤ tokens.length
  completes : ∀ count program, (readingAfter tokens count).result = .ok program →
    Completes tokens count program
  halts : ∀ count fault, (readingAfter tokens count).result = .error fault →
    ∃ whole begun rest, Halts tokens count fault whole begun rest

/-- However often a list is read, the place moves on inside it. -/
theorem readsOn_of_isQuoted {tokens : List Token} (quoted : ∀ token ∈ tokens, token.IsQuoted) :
    ReadsOn tokens where
  results count := by
    rw [rounds, List.range_eq_range']
    exact roundsFrom_eq tokens 0 count
  monotone := monotone_nat_of_le_succ fun count => Nat.le_add_right _ _
  inside := placeAfter_le_length quoted
  completes _ _ := completes_of_readingAfter
  halts _ _ := exists_halts_of_readingAfter quoted

/-- The second of two readings goes on behind the token at which the first one failed. -/
theorem readsOn_of_isQuoted_after_failure :
    (rounds 3 ((tokenize (utf8 "var 1 print(\"a\");")).dropLast)).map
        (fun result => result.toOption.map List.length) = [none, some 1, some 0] ∧
      ReadsOn ((tokenize (utf8 "var 1 print(\"a\");")).dropLast) := by
  refine ⟨by decide +kernel, readsOn_of_isQuoted ?_⟩
  intro token member
  exact isQuoted_of_mem_tokenize token (List.mem_of_mem_dropLast member)

end Parse

end VarPrint
