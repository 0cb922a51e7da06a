/-
# Tokens tile their source

Nothing of a source is lost when it is cut into tokens. Each token has the bytes that stand at its
offset, tokens do not overlap, and what lies between two of them, or in front of the first, is made
of runs of blanks and of comments. The end is the last token and lies behind the last byte.

The scan is followed lexeme by lexeme. A blank or a comment makes the stretch in front of the next
token longer, and any other lexeme is a token with an empty stretch in front of it.
-/

import VarPrint.Proofs.Token.Lexical
import Mathlib.Data.List.Chain

namespace VarPrint

namespace Token

/-- The offset of the first byte of a token. -/
def start (token : Token) : Nat :=
  token.position.offset.toNat

/-- The offset behind the last byte of a token. -/
def stop (token : Token) : Nat :=
  token.start + token.value.length

theorem start_eq {token : Token} {offset : Nat} (placed : token.position.offset = offset) :
    token.start = offset := by
  rw [start, placed, Int.toNat_natCast]

end Token

namespace Lexeme

/-- A stretch of blanks and comments, each of them a lexeme in front of what follows it. -/
inductive Skipped : Bytes → Bytes → Prop
  | nil {rest : Bytes} : Skipped [] rest
  | cons {kind : TokenKind} {piece more rest : Bytes} (silent : kind = .blank ∨ kind = .comment)
      (rule : Rule kind piece (more ++ rest)) (skipped : Skipped more rest) :
      Skipped (piece ++ more) rest

/-- The tokens of a text that begins at an offset: each lies behind a stretch of blanks and comments
and is a lexeme of the grammar, and the end lies behind them all. -/
inductive Tiles : Nat → Bytes → List Token → Prop
  | finish {offset : Nat} {gap : Bytes} {token : Token} (skipped : Skipped gap [])
      (isEnd : token.kind = .endOfInput) (noValue : token.value = [])
      (placed : token.position.offset = ↑(offset + gap.length)) : Tiles offset gap [token]
  | token {offset : Nat} {gap rest : Bytes} {token : Token} {tokens : List Token}
      (skipped : Skipped gap (token.value ++ rest)) (rule : Rule token.kind token.value rest)
      (significant : token.kind.isSignificant = true)
      (placed : token.position.offset = ↑(offset + gap.length))
      (later : Tiles (offset + gap.length + token.value.length) rest tokens) :
      Tiles offset (gap ++ (token.value ++ rest)) (token :: tokens)

theorem isSignificant_iff {kind : TokenKind} :
    kind.isSignificant = true ↔ kind ≠ .blank ∧ kind ≠ .comment := by
  cases kind <;> simp [TokenKind.isSignificant]

theorem Rule.ne_endOfInput {kind : TokenKind} {value rest : Bytes} (rule : Rule kind value rest) :
    kind ≠ .endOfInput := by
  have notEnd : (first (value ++ rest)).1 ≠ .endOfInput :=
    first_ne_endOfInput (by simp [rule.ne_nil])
  rwa [first_of_rule rule] at notEnd

/-- A blank or a comment in front of a text only makes its first stretch longer. -/
theorem Tiles.skip {kind : TokenKind} {offset : Nat} {piece text : Bytes} {tokens : List Token}
    (silent : kind = .blank ∨ kind = .comment) (rule : Rule kind piece text)
    (tiles : Tiles (offset + piece.length) text tokens) : Tiles offset (piece ++ text) tokens := by
  cases tiles with
  | finish skipped isEnd noValue placed =>
      refine .finish (.cons silent (by simpa using rule) skipped) isEnd noValue ?_
      rw [placed, List.length_append, Nat.add_assoc]
  | token skipped tokenRule significant placed later =>
      rw [← List.append_assoc]
      rw [Nat.add_assoc offset, ← List.length_append] at placed later
      exact .token (.cons silent rule skipped) tokenRule significant placed later

/-- What holds of the empty input, and of an input as soon as it holds of what a lexeme of the
grammar leaves, holds of every input. -/
theorem rule_induction {motive : Bytes → Prop} (nil : motive [])
    (step : ∀ kind value rest, Rule kind value rest → motive rest → motive (value ++ rest))
    (input : Bytes) : motive input := by
  induction input using cut_induction with
  | nil => exact nil
  | step input nonempty ih =>
      obtain ⟨kind, value, rest, rfl, rule⟩ := exists_rule nonempty
      rw [first_of_rule rule, List.drop_left] at ih
      exact step kind value rest rule ih

/-- The significant lexemes from a place on tile what is left of the source. -/
theorem tiles_lexemesFrom {place : Position} {offset : Nat} (placed : place.offset = offset)
    (input : Bytes) :
    Tiles offset input
      ((Scanner.lexemesFrom place input).filter fun token => token.kind.isSignificant) := by
  induction input using rule_induction generalizing place offset with
  | nil =>
      rw [Scanner.lexemesFrom]
      exact .finish .nil rfl rfl placed
  | step kind value rest rule ih =>
      have advanced : (place.advance value).offset = ↑(offset + value.length) := by
        rw [Position.advance, placed, Int.natCast_add]
      rw [lexemesFrom_of_rule rule]
      by_cases significant : kind.isSignificant = true
      · rw [List.filter_cons_of_pos (by exact significant)]
        exact @Tiles.token offset [] rest ⟨⟨kind, value⟩, place⟩ _ .nil rule significant placed
          (ih advanced)
      · rw [List.filter_cons_of_neg (by exact significant)]
        rw [isSignificant_iff, not_and_or, not_not, not_not] at significant
        exact (ih advanced).skip significant rule

theorem tiles_tokenize (source : Bytes) : Tiles 0 source (tokenize source) :=
  tiles_lexemesFrom rfl source

/-! What a tiling says of the offsets. The text stands behind the bytes in front of its offset. -/

section Offsets

variable {offset : Nat} {before text : Bytes} {tokens : List Token}

theorem extract_append (before piece rest : Bytes) :
    (before ++ (piece ++ rest)).extract before.length (before.length + piece.length) = piece := by
  simp

theorem drop_append (before piece rest : Bytes) :
    (before ++ (piece ++ rest)).drop (before.length + piece.length) = rest := by
  simp

theorem Tiles.exists_finish (tiles : Tiles offset text tokens) :
    ∃ (front : List Token) (finish : Token), tokens = front ++ [finish] ∧
      finish.kind = .endOfInput ∧ finish.value = [] ∧
      finish.position.offset = ↑(offset + text.length) ∧
      ∀ token ∈ front, token.kind ∉ [.endOfInput, .blank, .comment] ∧ token.value ≠ [] := by
  induction tiles with
  | @finish offset gap token skipped isEnd noValue placed =>
      exact ⟨[], token, rfl, isEnd, noValue, placed, by simp⟩
  | @token offset gap rest token tokens skipped rule significant placed later ih =>
      obtain ⟨front, finish, rfl, isEnd, noValue, atEnd, others⟩ := ih
      refine ⟨token :: front, finish, rfl, isEnd, noValue, ?_, ?_⟩
      · rw [atEnd, List.length_append, List.length_append, Nat.add_assoc, Nat.add_assoc]
      · rw [List.forall_mem_cons]
        refine ⟨⟨?_, rule.ne_nil⟩, others⟩
        simp [rule.ne_endOfInput, isSignificant_iff.mp significant]

/-- Each token has the bytes that stand at its offset. -/
theorem Tiles.value_eq_extract (tiles : Tiles offset text tokens)
    (length : before.length = offset) :
    ∀ token ∈ tokens, token.position.offset = token.start ∧
      token.value = (before ++ text).extract token.start token.stop := by
  induction tiles generalizing before with
  | @finish offset gap token skipped isEnd noValue placed =>
      rw [List.forall_mem_singleton, Token.stop, Token.start_eq placed]
      exact ⟨placed, by simp [noValue]⟩
  | @token offset gap rest token tokens skipped rule significant placed later ih =>
      have split : before ++ (gap ++ (token.value ++ rest)) =
          (before ++ gap ++ token.value) ++ rest := by simp
      rw [List.forall_mem_cons, Token.stop, Token.start_eq placed]
      refine ⟨⟨placed, ?_⟩, by rw [split]; exact ih (by simp [length, Nat.add_assoc])⟩
      rw [← List.append_assoc, ← length, ← List.length_append, extract_append]

/-- In front of the first token there is only what is skipped. -/
theorem Tiles.skipped_head (tiles : Tiles offset text tokens) (length : before.length = offset) :
    ∀ token ∈ tokens.head?, offset ≤ token.start ∧
      Skipped ((before ++ text).extract offset token.start)
        ((before ++ text).drop token.start) := by
  subst length
  cases tiles with
  | @finish _ _ token skipped isEnd noValue placed =>
      rintro _ ⟨⟩
      rw [Token.start_eq placed]
      have whole := extract_append before text []
      have nothing := drop_append before text []
      rw [List.append_nil] at whole nothing
      rw [whole, nothing]
      exact ⟨Nat.le_add_right _ _, skipped⟩
  | @token _ gap rest token tokens skipped rule significant placed later =>
      rintro _ ⟨⟩
      rw [Token.start_eq placed, extract_append, drop_append]
      exact ⟨Nat.le_add_right _ _, skipped⟩

/-- Behind a token, only what is skipped separates it from the next one. -/
theorem Tiles.isChain (tiles : Tiles offset text tokens) (length : before.length = offset) :
    tokens.IsChain fun earlier later => earlier.stop ≤ later.start ∧
      Skipped ((before ++ text).extract earlier.stop later.start)
        ((before ++ text).drop later.start) := by
  induction tiles generalizing before with
  | finish => exact List.isChain_singleton _
  | @token offset gap rest token tokens skipped rule significant placed later ih =>
      have split : before ++ (gap ++ (token.value ++ rest)) =
          (before ++ gap ++ token.value) ++ rest := by simp
      have reached : (before ++ gap ++ token.value).length =
          offset + gap.length + token.value.length := by simp [length, Nat.add_assoc]
      rw [split, List.isChain_cons]
      refine ⟨?_, ih reached⟩
      rw [Token.stop, Token.start_eq placed]
      exact later.skipped_head reached

end Offsets

end Lexeme

/-- The tokens and what is skipped between them make up the source. -/
structure IsLossless (source : Bytes) (tokens : List Token) : Prop where
  /-- The end is the last token, behind the last byte, and no other token is an end or skipped. -/
  ends : ∃ (front : List Token) (finish : Token), tokens = front ++ [finish] ∧
    finish.kind = .endOfInput ∧ finish.value = [] ∧ finish.position.offset = source.length ∧
    ∀ token ∈ front, token.kind ∉ [.endOfInput, .blank, .comment] ∧ token.value ≠ []
  /-- Every token has the bytes that stand at its offset. -/
  placed : ∀ token ∈ tokens, token.position.offset = token.start ∧
    token.value = source.extract token.start token.stop
  /-- What lies in front of the first token is skipped. -/
  head : ∀ token ∈ tokens.head?,
    Lexeme.Skipped (source.take token.start) (source.drop token.start)
  /-- Tokens do not overlap, and what lies between two of them is skipped. -/
  between : tokens.IsChain fun earlier later => earlier.stop ≤ later.start ∧
    Lexeme.Skipped (source.extract earlier.stop later.start) (source.drop later.start)

/-- Nothing of any source is lost in its tokens. -/
theorem isLossless_tokenize (source : Bytes) : IsLossless source (tokenize source) := by
  have tiles := Lexeme.tiles_tokenize source
  have start : ([] : Bytes).length = 0 := rfl
  refine ⟨?_, tiles.value_eq_extract start, ?_, tiles.isChain start⟩
  · have ends := tiles.exists_finish
    rwa [Nat.zero_add] at ends
  · intro token isHead
    have skipped := (tiles.skipped_head start token isHead).2
    simpa using skipped

end VarPrint
