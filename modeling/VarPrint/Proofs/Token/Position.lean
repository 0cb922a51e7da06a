/-
# Where tokens stand

The place of a token is kept up to date lexeme by lexeme, and each lexeme is decoded by itself. Here
the place is described from the source as a whole. Its line is counted by the line feeds in front of
its offset. Its column is counted by the runes which the decoding of the whole source, invalid bytes
included, has between the beginning of the line and the offset. The two agree because no rune of the
source reaches over the beginning of a token. Tokens of one source are therefore ordered by line and
column exactly as they are by their offsets.
-/

import VarPrint.Proofs.Token.Joining

namespace VarPrint

namespace Bytes

/-- The offsets at which some runes begin, the first of them at a given one. -/
def startsFrom (offset : Nat) : List (Char × Bytes) → List Nat
  | [] => []
  | piece :: pieces => offset :: startsFrom (offset + piece.2.length) pieces

/-- The offsets at which the runes of a text begin. -/
def runeStarts (text : Bytes) : List Nat :=
  startsFrom 0 text.runePieces

/-- Where the line of an offset begins: behind the last line feed in front of it. -/
def lineStart (text : Bytes) (offset : Nat) : Nat :=
  ((text.take offset).reverse.dropWhile (· ≠ Byte.lineFeed)).length

/-- The line of an offset, counted from one. -/
def lineAt (text : Bytes) (offset : Nat) : Nat :=
  1 + (text.take offset).count Byte.lineFeed

/-- The column of an offset, counted from one: the runes of the text that begin on its line and in
front of it come before it. -/
def columnAt (text : Bytes) (offset : Nat) : Nat :=
  1 + text.runeStarts.countP fun start => text.lineStart offset ≤ start ∧ start < offset

theorem startsFrom_append (offset : Nat) (first second : List (Char × Bytes)) :
    startsFrom offset (first ++ second) =
      startsFrom offset first ++ startsFrom (offset + (first.flatMap Prod.snd).length) second := by
  induction first generalizing offset with
  | nil => rfl
  | cons piece first ih =>
      rw [List.cons_append, startsFrom, startsFrom, ih, List.flatMap_cons, List.length_append,
        Nat.add_assoc, List.cons_append]

theorem length_startsFrom (offset : Nat) (pieces : List (Char × Bytes)) :
    (startsFrom offset pieces).length = pieces.length := by
  induction pieces generalizing offset with
  | nil => rfl
  | cons piece pieces ih => rw [startsFrom, List.length_cons, ih, List.length_cons]

/-- Runes begin inside the text that they make up. -/
theorem bounds_of_mem_startsFrom {pieces : List (Char × Bytes)}
    (nonempty : ∀ piece ∈ pieces, piece.2 ≠ []) (offset : Nat) :
    ∀ start ∈ startsFrom offset pieces,
      offset ≤ start ∧ start < offset + (pieces.flatMap Prod.snd).length := by
  induction pieces generalizing offset with
  | nil => simp [startsFrom]
  | cons piece pieces ih =>
      rw [List.forall_mem_cons] at nonempty
      have positive := List.length_pos_iff.mpr nonempty.1
      rw [startsFrom, List.forall_mem_cons, List.flatMap_cons, List.length_append]
      refine ⟨by omega, fun start member => ?_⟩
      have later := ih nonempty.2 _ start member
      omega

theorem bounds_of_mem_starts (offset : Nat) (text : Bytes) :
    ∀ start ∈ startsFrom offset text.runePieces,
      offset ≤ start ∧ start < offset + text.length := by
  have bounds := bounds_of_mem_startsFrom (snd_ne_nil_of_mem_runePieces text) offset
  rwa [flatMap_runePieces] at bounds

/-- The runes of a text begin where those of its two parts do, if the parts are read apart. -/
theorem Apart.runeStarts_append {text rest : Bytes} (apart : Apart text rest) :
    runeStarts (text ++ rest) = text.runeStarts ++ startsFrom text.length rest.runePieces := by
  rw [runeStarts, apart, startsFrom_append, flatMap_runePieces, Nat.zero_add, runeStarts]

/-- The text in front of an offset is some lines, each with its line feed, and a part of a line. -/
theorem exists_lastLine (front : Bytes) :
    ∃ lines line, front = lines ++ line ∧ Byte.lineFeed ∉ line ∧
      (lines = [] ∨ ∃ above, lines = above ++ [Byte.lineFeed]) := by
  induction front with
  | nil => exact ⟨[], [], rfl, List.not_mem_nil, .inl rfl⟩
  | cons b front ih =>
      obtain ⟨lines, line, rfl, oneLine, rfl | ⟨above, rfl⟩⟩ := ih
      · by_cases isLineFeed : b = Byte.lineFeed
        · refine ⟨[b], line, rfl, oneLine, .inr ⟨[], ?_⟩⟩
          rw [isLineFeed, List.nil_append]
        · refine ⟨[], b :: line, rfl, ?_, .inl rfl⟩
          rw [List.mem_cons, not_or]
          exact ⟨Ne.symm isLineFeed, oneLine⟩
      · exact ⟨b :: (above ++ [Byte.lineFeed]), line, rfl, oneLine, .inr ⟨b :: above, rfl⟩⟩

section LastLine

variable {lines line : Bytes} (oneLine : Byte.lineFeed ∉ line)
  (whole : lines = [] ∨ ∃ above, lines = above ++ [Byte.lineFeed])

include whole in
theorem apart_of_lines (rest : Bytes) : Apart lines rest := by
  rcases whole with rfl | ⟨above, rfl⟩
  · exact apart_nil rest
  · exact apart_concat (by decide) above rest

include oneLine whole

theorem lineStart_of_lines (rest : Bytes) :
    lineStart (lines ++ line ++ rest) (lines ++ line).length = lines.length := by
  have inLine : ∀ b ∈ line.reverse, decide (b ≠ Byte.lineFeed) = true := by
    intro b member
    rw [decide_eq_true_eq]
    rintro rfl
    exact oneLine (List.mem_reverse.mp member)
  rw [lineStart, List.take_left, List.reverse_append, List.dropWhile_append_of_pos inLine]
  rcases whole with rfl | ⟨above, rfl⟩
  · rfl
  · rw [List.reverse_append, List.reverse_singleton, List.singleton_append,
      List.dropWhile_cons_of_neg (by simp), List.length_cons, List.length_reverse,
      List.length_append, List.length_singleton]

/-- The column behind a part of a line is one more than the number of its runes. -/
theorem columnAt_of_lines {rest : Bytes} (apart : Apart (lines ++ line) rest) :
    columnAt (lines ++ line ++ rest) (lines ++ line).length = 1 + line.runeCount := by
  have above : lines.runeStarts.countP
      (fun start => lines.length ≤ start ∧ start < (lines ++ line).length) = 0 := by
    rw [List.countP_eq_zero]
    intro start member
    have bounds := bounds_of_mem_starts 0 lines start member
    simp only [decide_eq_true_eq]
    omega
  have inside : (startsFrom lines.length line.runePieces).countP
      (fun start => lines.length ≤ start ∧ start < (lines ++ line).length) = line.runeCount := by
    rw [runeCount, ← length_startsFrom lines.length, List.countP_eq_length]
    intro start member
    have bounds := bounds_of_mem_starts lines.length line start member
    rw [decide_eq_true_eq, List.length_append]
    exact bounds
  have behind : (startsFrom (lines ++ line).length rest.runePieces).countP
      (fun start => lines.length ≤ start ∧ start < (lines ++ line).length) = 0 := by
    rw [List.countP_eq_zero]
    intro start member
    have bounds := bounds_of_mem_starts (lines ++ line).length rest start member
    simp only [decide_eq_true_eq]
    omega
  rw [columnAt, lineStart_of_lines oneLine whole, apart.runeStarts_append,
    (apart_of_lines whole line).runeStarts_append, List.countP_append, List.countP_append, above,
    inside, behind, Nat.zero_add, Nat.add_zero]

end LastLine

end Bytes

namespace Position

open Bytes (Apart)

/-- The place behind the front of a source has the line and the column of that offset. -/
theorem advance_start_of_apart {front back : Bytes} (apart : Apart front back) :
    Position.start.advance front = ⟨Bytes.lineAt (front ++ back) front.length,
      Bytes.columnAt (front ++ back) front.length, front.length⟩ := by
  have sameLine : (Position.start.advance front).line =
      Bytes.lineAt (front ++ back) front.length := by
    rw [line_advance, Bytes.lineAt, List.take_left, Int.natCast_add]
    rfl
  have sameColumn : (Position.start.advance front).column =
      Bytes.columnAt (front ++ back) front.length := by
    obtain ⟨lines, line, rfl, oneLine, whole⟩ := Bytes.exists_lastLine front
    have begins : (Position.start.advance lines).column = 1 := by
      rcases whole with rfl | ⟨above, rfl⟩
      · rw [advance_nil]
        rfl
      · exact column_advance_concat _ above
    rw [Bytes.columnAt_of_lines oneLine whole apart,
      advance_append _ (Bytes.apart_of_lines whole line), column_advance oneLine, begins,
      Int.natCast_add]
    rfl
  have sameOffset : (Position.start.advance front).offset = front.length := by
    rw [advance]
    exact Int.zero_add _
  rw [← sameLine, ← sameColumn, ← sameOffset]

/-- Of two places in a source, the one with the smaller offset comes first. -/
theorem isBefore_of_length_lt {front back front' back' : Bytes}
    (same : front ++ back = front' ++ back') (apart : Apart front back)
    (apart' : Apart front' back') (shorter : front.length < front'.length) :
    (Position.start.advance front).isBefore (Position.start.advance front') = true := by
  obtain ⟨between, rfl⟩ : front <+: front' :=
    List.prefix_of_prefix_length_le ⟨back, same⟩ ⟨back', rfl⟩ (Nat.le_of_lt shorter)
  rw [List.append_assoc, List.append_cancel_left_eq] at same
  rw [same] at apart
  have nonempty : between ≠ [] := by
    rintro rfl
    rw [List.append_nil] at shorter
    exact Nat.lt_irrefl _ shorter
  rw [advance_append _ (apart.inside apart')]
  exact isBefore_advance nonempty _

end Position

namespace Scanner

open Bytes (Apart)

/-- The text in front of a token is read apart from the token, and the place of the token is the one
behind that text. -/
theorem exists_apart_of_mem_tokens {before text : Bytes} (apart : Apart before text)
    {token : Token} (member : token ∈ (Scanner.mk (Position.start.advance before) text).tokens) :
    ∃ front back, before ++ text = front ++ back ∧ Apart front back ∧
      token.position = Position.start.advance front := by
  induction text using Lexeme.rule_induction generalizing before with
  | nil =>
      rw [tokens_nil, List.mem_singleton] at member
      rw [member]
      exact ⟨before, [], rfl, apart, rfl⟩
  | step kind value rest rule ih =>
      rw [tokens_of_rule rule, List.mem_append] at member
      rcases member with here | later
      · rw [List.mem_ite_nil_right, List.mem_singleton] at here
        rw [here.2]
        exact ⟨before, value ++ rest, rfl, apart, rfl⟩
      · have further := apart.append rule.apart
        rw [← Position.advance_append _ (apart.inside further)] at later
        obtain ⟨front, back, split, placed⟩ := ih further later
        rw [List.append_assoc] at split
        exact ⟨front, back, split, placed⟩

theorem exists_apart_of_mem_tokenize {source : Bytes} {token : Token}
    (member : token ∈ tokenize source) :
    ∃ front back, source = front ++ back ∧ Apart front back ∧
      token.position = Position.start.advance front := by
  have atStart : Scanner.start source = ⟨Position.start.advance [], source⟩ := by
    rw [Position.advance_nil]
    rfl
  rw [tokenize, atStart] at member
  exact exists_apart_of_mem_tokens (Bytes.apart_nil source) member

end Scanner

/-- A token has the line and the column that its offset has in the source. -/
structure Token.IsPlacedIn (token : Token) (source : Bytes) : Prop where
  offset : token.position.offset = token.start
  /-- No rune of the source reaches over the beginning of the token. -/
  boundary : token.start ∈ source.runeStarts ∨ token.start = source.length
  line : token.position.line = source.lineAt token.start
  column : token.position.column = source.columnAt token.start

theorem Token.isPlacedIn_of_apart {token : Token} {front back : Bytes}
    (apart : Bytes.Apart front back) (placed : token.position = Position.start.advance front) :
    token.IsPlacedIn (front ++ back) := by
  rw [Position.advance_start_of_apart apart] at placed
  have start : token.start = front.length := Token.start_eq (by rw [placed])
  refine ⟨by rw [start, placed], ?_, by rw [start, placed], by rw [start, placed]⟩
  by_cases atEnd : back = []
  · right
    rw [start, atEnd, List.append_nil]
  · left
    rw [start, apart.runeStarts_append, Bytes.runePieces_of_ne_nil atEnd, Bytes.startsFrom]
    exact List.mem_append_right _ List.mem_cons_self

/-- The places of the tokens of a source are exact. -/
structure HasExactPlaces (source : Bytes) (tokens : List Token) : Prop where
  /-- Every token has the line and the column of its offset. -/
  placed : ∀ token ∈ tokens, token.IsPlacedIn source
  /-- The order by line and column is the order by offset. -/
  ordered : ∀ first ∈ tokens, ∀ second ∈ tokens,
    first.position.isBefore second.position = true ↔
      first.position.offset < second.position.offset

/-- The tokens of every source, its end included, stand where the source as a whole says. -/
theorem hasExactPlaces_tokenize (source : Bytes) : HasExactPlaces source (tokenize source) := by
  constructor
  · intro token member
    obtain ⟨front, back, rfl, apart, placed⟩ := Scanner.exists_apart_of_mem_tokenize member
    exact Token.isPlacedIn_of_apart apart placed
  · intro first isFirst second isSecond
    obtain ⟨front, back, split, apart, placed⟩ := Scanner.exists_apart_of_mem_tokenize isFirst
    obtain ⟨front', back', split', apart', placed'⟩ := Scanner.exists_apart_of_mem_tokenize isSecond
    have same : front ++ back = front' ++ back' := split.symm.trans split'
    rw [placed, placed']
    have offsets : (Position.start.advance front).offset < (Position.start.advance front').offset ↔
        front.length < front'.length := by
      rw [Position.advance_start_of_apart apart, Position.advance_start_of_apart apart']
      exact Int.ofNat_lt
    rw [offsets]
    constructor
    · intro before
      rcases Nat.lt_trichotomy front.length front'.length with shorter | equal | longer
      · exact shorter
      · rw [(List.append_inj same equal).1] at before
        exact absurd before (Position.not_isBefore_of_isBefore before)
      · exact absurd before (Position.not_isBefore_of_isBefore
          (Position.isBefore_of_length_lt same.symm apart' apart longer))
    · exact Position.isBefore_of_length_lt same apart apart'

end VarPrint
