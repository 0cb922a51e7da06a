/-
# Sources that are joined by a line feed

Only a run of blanks goes on behind a line feed. Every other lexeme ends at the line feed or in front
of it, whether it is a comment or a text that is never closed. So the tokens of two sources with a
line feed between them are the tokens of the first without its end, and then those of the second as
they are scanned from the beginning of a line. Scanned from there they differ from the tokens of the
second source by itself in nothing but their lines and their offsets.
-/

import VarPrint.Proofs.Position
import VarPrint.Proofs.Token.Tiling

namespace VarPrint

open Bytes (Stops ofRunes blankLength)

/-- The same lexeme in the same column, some lines and some bytes later. -/
def Token.later (token : Token) (lines bytes : Nat) : Token :=
  { token with position := token.position.later lines bytes }

namespace Lexeme

variable {kind : TokenKind} {value rest : Bytes}

theorem isBoundary_of_atLineEnd (ended : AtLineEnd rest) : Bytes.IsBoundary rest := by
  intro b head
  rw [ended b head]
  decide

theorem IsDigits.ascii (isDigits : IsDigits value) : ∀ b ∈ value, b < 0x80 :=
  fun b member => UInt8.lt_iff_toNat_lt.mpr (Byte.isVisible_of_isDigit (isDigits.2 b member)).2

theorem ascii_of_isNameByte {b : UInt8} (continues : isNameByte b = true) : b < 0x80 := by
  rcases Byte.isNameByte_iff.mp continues with letter | digit | rfl
  · exact UInt8.lt_iff_toNat_lt.mpr (Byte.isVisible_of_isLetter letter).2
  · exact UInt8.lt_iff_toNat_lt.mpr (Byte.isVisible_of_isDigit digit).2
  · decide

theorem IsWord.ascii (isWord : IsWord value) : ∀ b ∈ value, b < 0x80 := by
  cases value with
  | nil => cases isWord
  | cons b rest =>
      rw [List.forall_mem_cons]
      refine ⟨?_, fun c member => ascii_of_isNameByte (isWord.2 c member)⟩
      exact UInt8.lt_iff_toNat_lt.mpr (Byte.isVisible_of_isLetter isWord.1).2

/-- A lexeme ends where a rune does. -/
theorem Rule.apart (rule : Rule kind value rest) : Bytes.Apart value rest := by
  cases rule with
  | comment oneLine ended => exact Bytes.apart_of_isBoundary (isBoundary_of_atLineEnd ended) _
  | openText oneLine neverClosed ended =>
      exact Bytes.apart_of_isBoundary (isBoundary_of_atLineEnd ended) _
  | blank => exact Bytes.apart_ofRunes _ rest
  | whole isDigits => exact Bytes.apart_of_ascii isDigits.ascii rest
  | @decimal whole fraction _ isWhole isFraction =>
      refine Bytes.apart_of_ascii ?_ rest
      rw [List.forall_mem_append, List.forall_mem_cons]
      exact ⟨isWhole.ascii, by decide, isFraction.ascii⟩
  | varWord => exact Bytes.apart_of_ascii isWord_var.ascii rest
  | printWord => exact Bytes.apart_of_ascii isWord_print.ascii rest
  | name isWord => exact Bytes.apart_of_ascii isWord.ascii rest
  | @text content => exact Bytes.apart_concat (by decide) (Byte.quote :: content) rest
  | @symbol _ b _ isSymbol =>
      simp only [symbols, List.mem_cons, Prod.mk.injEq, List.not_mem_nil, or_false] at isSymbol
      rcases isSymbol with ⟨_, rfl⟩ | ⟨_, rfl⟩ | ⟨_, rfl⟩ | ⟨_, rfl⟩ <;>
        exact Bytes.apart_concat (by decide) [] rest
  | @stray c =>
      have alone := Bytes.runePieces_encoding_append c []
      rw [List.append_nil, Bytes.runePieces_nil] at alone
      rw [Bytes.Apart, Bytes.runePieces_encoding_append, alone, List.singleton_append]
  | @invalid b _ noEncoding =>
      -- The byte is a rune of its own, with or without what follows it.
      have noShorter : ∀ c, ¬ String.utf8EncodeChar c <+: [b] := fun c encoded =>
        noEncoding c (encoded.trans ⟨rest, rfl⟩)
      have alone := Bytes.runePieces_undecoded noShorter
      rw [Bytes.Apart, List.singleton_append, Bytes.runePieces_undecoded noEncoding, alone,
        Bytes.runePieces_nil, List.singleton_append]

theorem stops_append_lineFeed {p : UInt8 → Bool} (stops : Stops p rest)
    (outside : p Byte.lineFeed = false) (more : Bytes) :
    Stops p (rest ++ Byte.lineFeed :: more) := by
  cases rest with
  | nil => exact .cons outside more
  | cons b rest => exact .cons (stops b rfl) _

theorem atLineEnd_append_lineFeed (ended : AtLineEnd rest) (more : Bytes) :
    AtLineEnd (rest ++ Byte.lineFeed :: more) := by
  cases rest with
  | nil => exact fun b head => (Option.some_inj.mp head).symm
  | cons c rest => exact fun b head => ended b head

/-- A lexeme stays what it is when a line feed follows the input, unless it is a run of blanks at the
very end. -/
theorem Rule.append_lineFeed (rule : Rule kind value rest) (ends : kind = .blank → rest ≠ [])
    (more : Bytes) : Rule kind value (rest ++ Byte.lineFeed :: more) := by
  have boundary : Bytes.IsBoundary (Byte.lineFeed :: more) :=
    Bytes.isBoundary_cons (by decide) more
  cases rule with
  | comment oneLine ended => exact .comment oneLine (atLineEnd_append_lineFeed ended more)
  | blank nonempty allBlank ended =>
      refine .blank nonempty allBlank ?_
      rw [head?_runes (by simp), Rune.first_append (ends rfl) boundary, ← head?_runes (ends rfl)]
      exact ended
  | whole isDigits ended noFraction =>
      refine .whole isDigits (stops_append_lineFeed ended rfl more) ?_
      intro b after split
      match rest with
      | [] => cases split
      | [c] =>
          cases split
          rfl
      | c :: d :: rest =>
          cases split
          exact noFraction _ rest rfl
  | decimal isWhole isFraction ended =>
      exact .decimal isWhole isFraction (stops_append_lineFeed ended rfl more)
  | varWord ended => exact .varWord (stops_append_lineFeed ended rfl more)
  | printWord ended => exact .printWord (stops_append_lineFeed ended rfl more)
  | name isWord notVar notPrint ended =>
      exact .name isWord notVar notPrint (stops_append_lineFeed ended rfl more)
  | text oneLine closed earliest => exact .text oneLine closed earliest
  | openText oneLine neverClosed ended =>
      exact .openText oneLine neverClosed (atLineEnd_append_lineFeed ended more)
  | symbol isSymbol => exact .symbol isSymbol
  | stray notBlank notQuote notDigit notLetter notSymbol noComment =>
      refine .stray notBlank notQuote notDigit notLetter notSymbol fun isSlash => ?_
      cases rest with
      | nil =>
          rw [List.nil_append, List.head?_cons]
          decide
      | cons b rest => exact noComment isSlash
  | @invalid b _ noEncoding =>
      refine .invalid fun c encoded => noEncoding c ?_
      exact Rune.encoding_inside (List.cons_ne_nil b rest) boundary encoded

end Lexeme

namespace Scanner

open Lexeme (Rule)

variable {kind : TokenKind} {value rest : Bytes}

theorem tokens_nil (place : Position) : (Scanner.mk place []).tokens = [.finish place] := by
  rw [tokens, lexemes, lexemesFrom]
  rfl

/-- A lexeme of the grammar is the first token if it is significant, and is dropped otherwise. -/
theorem tokens_of_rule (rule : Rule kind value rest) (place : Position) :
    (Scanner.mk place (value ++ rest)).tokens =
      (if kind.isSignificant then [⟨⟨kind, value⟩, place⟩] else []) ++
        (Scanner.mk (place.advance value) rest).tokens := by
  rw [tokens, lexemes, Lexeme.lexemesFrom_of_rule rule]
  by_cases significant : kind.isSignificant = true
  · rw [List.filter_cons_of_pos (by exact significant), if_pos significant]
    rfl
  · rw [List.filter_cons_of_neg (by exact significant), if_neg significant]
    rfl

theorem tokens_ne_nil (place : Position) (text : Bytes) : (Scanner.mk place text).tokens ≠ [] := by
  induction text using Lexeme.rule_induction generalizing place with
  | nil =>
      rw [tokens_nil]
      exact List.cons_ne_nil _ _
  | step kind value rest rule ih =>
      rw [tokens_of_rule rule]
      exact List.append_ne_nil_of_right_ne_nil _ (ih _)

/-- The run of blanks in front of a text has no tokens. -/
theorem tokens_drop_blankLength (place : Position) (text : Bytes) :
    (Scanner.mk (place.advance (text.take (blankLength text)))
      (text.drop (blankLength text))).tokens = (Scanner.mk place text).tokens := by
  by_cases none : blankLength text = 0
  · rw [none, List.take_zero, List.drop_zero, Position.advance_nil]
  · have skipped := tokens_of_rule (Lexeme.rule_blank (Nat.pos_of_ne_zero none)) place
    rw [List.take_append_drop] at skipped
    rw [skipped]
    rfl

theorem isBlank_lineFeed : ∀ c ∈ ['\n'], Rune.isBlank c = true := by
  rw [List.forall_mem_singleton]
  decide

/-- Blanks have no tokens, also where a run of blanks goes on behind them. -/
theorem tokens_blanks {blanks : List Char} (allBlank : ∀ c ∈ blanks, Rune.isBlank c = true)
    (place : Position) (rest : Bytes) :
    (Scanner.mk place (ofRunes blanks ++ rest)).tokens =
      (Scanner.mk (place.advance (ofRunes blanks)) rest).tokens := by
  have apart := Bytes.apart_ofRunes blanks (rest.take (blankLength rest))
  rw [← tokens_drop_blankLength place, Bytes.blankLength_ofRunes allBlank,
    List.take_length_add_append, List.drop_length_add_append, Position.advance_append place apart,
    tokens_drop_blankLength]

/-- The tokens of a text, a line feed and another text. -/
theorem tokens_append_lineFeed (place : Position) (text more : Bytes) :
    (Scanner.mk place (text ++ Byte.lineFeed :: more)).tokens =
      (Scanner.mk place text).tokens.dropLast ++
        (Scanner.mk (place.advance (text ++ [Byte.lineFeed])) more).tokens := by
  induction text using Lexeme.rule_induction generalizing place with
  | nil =>
      rw [tokens_nil, List.nil_append]
      exact tokens_blanks isBlank_lineFeed place more
  | step kind value rest rule ih =>
      by_cases ends : kind = .blank → rest ≠ []
      · have joined := rule.append_lineFeed ends more
        have apart := (rule.append_lineFeed ends []).apart
        rw [List.append_assoc, tokens_of_rule joined, ih, tokens_of_rule rule,
          List.dropLast_append_of_ne_nil (tokens_ne_nil _ rest), List.append_assoc,
          List.append_assoc, Position.advance_append place apart]
      · -- A run of blanks at the end goes on behind the line feed.
        obtain ⟨rfl, rfl⟩ : kind = .blank ∧ rest = [] := by simpa using ends
        cases rule with
        | symbol isSymbol => simp [Lexeme.symbols] at isSymbol
        | @blank blanks _ nonempty allBlank ended =>
            simp only [← Rune.isBlank_iff] at allBlank
            have longer : ∀ c ∈ blanks ++ ['\n'], Rune.isBlank c = true := by
              rw [List.forall_mem_append]
              exact ⟨allBlank, isBlank_lineFeed⟩
            have split : ofRunes (blanks ++ ['\n']) = ofRunes blanks ++ [Byte.lineFeed] := by
              rw [ofRunes, List.flatMap_append]
              rfl
            rw [tokens_blanks allBlank, tokens_nil, List.append_nil, List.append_cons, ← split,
              tokens_blanks longer]
            rfl

/-- No token stands on a line in front of that of the place where the text begins. -/
theorem line_le_of_mem_tokens {place : Position} {text : Bytes} {token : Token}
    (member : token ∈ (Scanner.mk place text).tokens) :
    place.line ≤ token.position.line := by
  induction text using Lexeme.rule_induction generalizing place with
  | nil =>
      rw [tokens_nil, List.mem_singleton] at member
      rw [member]
      exact Int.le_refl _
  | step kind value rest rule ih =>
      rw [tokens_of_rule rule, List.mem_append] at member
      rcases member with here | later
      · rw [List.mem_ite_nil_right, List.mem_singleton] at here
        rw [here.2]
      · have below := ih later
        rw [Position.line_advance] at below
        omega

/-- Where a text begins in its line decides its tokens; on which line it begins only moves them. -/
theorem tokens_later (place : Position) (lines bytes : Nat) (text : Bytes) :
    (Scanner.mk (place.later lines bytes) text).tokens =
      (Scanner.mk place text).tokens.map (·.later lines bytes) := by
  induction text using Lexeme.rule_induction generalizing place with
  | nil =>
      rw [tokens_nil, tokens_nil]
      rfl
  | step kind value rest rule ih =>
      rw [tokens_of_rule rule, tokens_of_rule rule, Position.advance_later, ih, List.map_append]
      by_cases significant : kind.isSignificant = true
      · rw [if_pos significant, if_pos significant]
        rfl
      · rw [if_neg significant, if_neg significant, List.map_nil]

end Scanner

/-- Scanning goes through line feeds: two sources with a line feed between them have the tokens of
the first without its end, and behind them those of the second with its end, each in its own column
and as many lines and bytes later as the first source and the line feed take. -/
theorem exists_tokenize_append_lineFeed (first second : Bytes) :
    ∃ (front : List Token) (finish : Token),
      tokenize first = front ++ [finish] ∧ finish.kind = .endOfInput ∧
      tokenize (first ++ Byte.lineFeed :: second) =
        front ++ (tokenize second).map
          (·.later (1 + first.count Byte.lineFeed) (first.length + 1)) := by
  obtain ⟨front, finish, tokens, isEnd, _⟩ := (Lexeme.tiles_tokenize first).exists_finish
  have joined := Scanner.tokens_append_lineFeed .start first second
  have behind := Scanner.tokens_later .start (1 + first.count Byte.lineFeed) (first.length + 1)
    second
  rw [Position.advance_start_concat, behind] at joined
  refine ⟨front, finish, tokens, isEnd, joined.trans ?_⟩
  show (tokenize first).dropLast ++ _ = _
  rw [tokens, List.dropLast_concat]
  rfl

end VarPrint
