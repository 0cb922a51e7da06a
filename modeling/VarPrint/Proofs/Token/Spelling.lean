/-
# Spellings

The spelling of a source is what its tokens are, without where they stand. It is built lexeme by
lexeme: a piece that is the first lexeme of the input is put in front of the spelling of the rest,
and a blank is dropped. Every part of a spelling has the shape that its kind says, and the end
stands in it once, at the end.
-/

import VarPrint.Proofs.Token.Recognize

namespace VarPrint

open Bytes

namespace Scanner

/-- The lexemes of a non-empty input: the first one, and those of what it leaves. -/
theorem lexemesFrom_of_ne_nil (place : Position) {input : Bytes} (nonempty : input ≠ []) :
    lexemesFrom place input =
      { kind := (Lexeme.first input).1
        value := input.take (Lexeme.first input).2
        position := place } ::
      lexemesFrom (place.advance (input.take (Lexeme.first input).2))
        (input.drop (Lexeme.first input).2) := by
  obtain ⟨b, rest, rfl⟩ := List.exists_cons_of_ne_nil nonempty
  obtain ⟨extra, length⟩ := Nat.exists_eq_add_of_lt (Lexeme.first_pos nonempty)
  rw [lexemesFrom]
  simp [length]

end Scanner

namespace Lexeme

/-- Every lexeme of an input in order, and the end, wherever they stand. -/
def cut (input : Bytes) : List Lexeme :=
  (Scanner.lexemesFrom .start input).map Token.toLexeme

/-- Where a text stands has no influence on its lexemes. -/
theorem map_toLexeme_lexemesFrom (first second : Position) (input : Bytes) :
    (Scanner.lexemesFrom first input).map Token.toLexeme =
      (Scanner.lexemesFrom second input).map Token.toLexeme := by
  fun_induction Scanner.lexemesFrom first input generalizing second with
  | case1 place => rw [Scanner.lexemesFrom]; rfl
  | case2 place b rest kind length eq value ih =>
      rw [Scanner.lexemesFrom]
      simp only [eq, List.map_cons]
      rw [ih]

theorem cut_nil : cut [] = [⟨.endOfInput, []⟩] := by
  rw [cut, Scanner.lexemesFrom]
  rfl

theorem cut_of_ne_nil {input : Bytes} (nonempty : input ≠ []) :
    cut input =
      ⟨(first input).1, input.take (first input).2⟩ :: cut (input.drop (first input).2) := by
  rw [cut, Scanner.lexemesFrom_of_ne_nil _ nonempty, List.map_cons, cut,
    map_toLexeme_lexemesFrom _ .start]

/-- A piece that is the first lexeme is cut off in front of the rest. -/
theorem cut_append {kind : TokenKind} {value rest : Bytes} (nonempty : value ≠ [])
    (isFirst : first (value ++ rest) = (kind, value.length)) :
    cut (value ++ rest) = ⟨kind, value⟩ :: cut rest := by
  rw [cut_of_ne_nil (by simp [nonempty]), isFirst, List.take_left, List.drop_left]

/-- What holds of the empty input, and of an input as soon as it holds of what the first lexeme
leaves, holds of every input. -/
theorem cut_induction {motive : Bytes → Prop} (nil : motive [])
    (step : ∀ input, input ≠ [] → motive (input.drop (first input).2) → motive input)
    (input : Bytes) : motive input := by
  by_cases empty : input = []
  · rw [empty]
    exact nil
  · have positive := first_pos empty
    have length := List.length_pos_iff.mpr empty
    exact step input empty (cut_induction nil step _)
termination_by input.length

theorem wellShaped_of_mem_cut {input : Bytes} {lexeme : Lexeme} (member : lexeme ∈ cut input) :
    WellShaped lexeme := by
  induction input using cut_induction with
  | nil =>
      rw [cut_nil, List.mem_singleton] at member
      rw [member]
      rfl
  | step input nonempty ih =>
      rw [cut_of_ne_nil nonempty, List.mem_cons] at member
      obtain rfl | later := member
      · exact wellShaped_first input
      · exact ih later

/-- No recogniser gives an end; only the end of the input does. -/
theorem first_ne_endOfInput {input : Bytes} (nonempty : input ≠ []) :
    (first input).1 ≠ .endOfInput := by
  intro isEnd
  have shape := wellShaped_first input
  have positive := first_pos nonempty
  rw [isEnd] at shape
  obtain empty | zero := List.take_eq_nil_iff.mp shape
  · omega
  · exact nonempty zero

/-- The list has one end, and nothing follows it. -/
def EndsOnce : List Lexeme → Prop
  | [] => False
  | lexeme :: rest => if lexeme.kind = .endOfInput then rest = [] else EndsOnce rest

theorem endsOnce_cut (input : Bytes) : EndsOnce (cut input) := by
  induction input using cut_induction with
  | nil =>
      rw [cut_nil]
      rfl
  | step input nonempty ih =>
      rw [cut_of_ne_nil nonempty, EndsOnce, if_neg (first_ne_endOfInput nonempty)]
      exact ih

/-- In front of the end there may be any lexemes that are no end themselves. -/
theorem endsOnce_append_iff {front rest : List Lexeme}
    (noEnd : ∀ lexeme ∈ front, lexeme.kind ≠ .endOfInput) :
    EndsOnce (front ++ rest) ↔ EndsOnce rest := by
  induction front with
  | nil => rfl
  | cons lexeme front ih =>
      rw [List.forall_mem_cons] at noEnd
      rw [List.cons_append, EndsOnce, if_neg noEnd.1]
      exact ih noEnd.2

/-- Leaving out lexemes that are no end keeps the end where it is. -/
theorem EndsOnce.filter {p : Lexeme → Bool} (keeps : ∀ lexeme, lexeme.kind = .endOfInput → p lexeme)
    {lexemes : List Lexeme} (ends : EndsOnce lexemes) : EndsOnce (lexemes.filter p) := by
  induction lexemes with
  | nil => cases ends
  | cons lexeme rest ih =>
      rw [EndsOnce] at ends
      by_cases isEnd : lexeme.kind = .endOfInput
      · rw [if_pos isEnd] at ends
        rw [List.filter_cons_of_pos (keeps lexeme isEnd), EndsOnce, if_pos isEnd, ends]
        rfl
      · rw [if_neg isEnd] at ends
        by_cases kept : p lexeme = true
        · rw [List.filter_cons_of_pos kept, EndsOnce, if_neg isEnd]
          exact ih ends
        · rw [List.filter_cons_of_neg kept]
          exact ih ends

end Lexeme

/-- The tokens of a source without their places. -/
def spelling (source : Bytes) : List Lexeme :=
  (tokenize source).map Token.toLexeme

theorem spelling_eq_filter (source : Bytes) :
    spelling source = (Lexeme.cut source).filter fun lexeme => lexeme.kind.isSignificant := by
  rw [spelling, tokenize, Scanner.tokens, Scanner.lexemes, Lexeme.cut, List.filter_map]
  rfl

theorem wellShaped_of_mem_spelling {source : Bytes} {lexeme : Lexeme}
    (member : lexeme ∈ spelling source) : lexeme.WellShaped := by
  rw [spelling_eq_filter] at member
  exact Lexeme.wellShaped_of_mem_cut (List.mem_filter.mp member).1

theorem endsOnce_spelling (source : Bytes) : Lexeme.EndsOnce (spelling source) := by
  rw [spelling_eq_filter]
  apply (Lexeme.endsOnce_cut source).filter
  intro lexeme isEnd
  rw [isEnd]
  rfl

theorem spelling_nil : spelling [] = [⟨.endOfInput, []⟩] := by
  rw [spelling_eq_filter, Lexeme.cut_nil]
  rfl

/-- A significant piece that is the first lexeme begins the spelling. -/
theorem spelling_append {kind : TokenKind} {value rest : Bytes} (nonempty : value ≠ [])
    (isFirst : Lexeme.first (value ++ rest) = (kind, value.length))
    (significant : kind.isSignificant = true) :
    spelling (value ++ rest) = ⟨kind, value⟩ :: spelling rest := by
  rw [spelling_eq_filter, Lexeme.cut_append nonempty isFirst,
    List.filter_cons_of_pos (by exact significant), spelling_eq_filter]

/-- The blanks in front of a source are not spelled. -/
theorem spelling_drop_blankLength (source : Bytes) :
    spelling (source.drop (blankLength source)) = spelling source := by
  by_cases none : blankLength source = 0
  · rw [none, List.drop_zero]
  · have nonempty : source ≠ [] := by
      rintro rfl
      exact none blankLength_nil
    rw [spelling_eq_filter source, Lexeme.cut_of_ne_nil nonempty,
      Lexeme.first_blank nonempty (Nat.pos_of_ne_zero none),
      List.filter_cons_of_neg (by exact Bool.false_ne_true), spelling_eq_filter]

/-- A blank of ASCII is not spelled. -/
theorem spelling_blank {b : UInt8} (ascii : b < 0x80)
    (blank : Rune.isBlank (Char.ofNat b.toNat) = true) (rest : Bytes) :
    spelling (b :: rest) = spelling rest := by
  rw [← spelling_drop_blankLength (b :: rest), blankLength_of_blank ascii blank, Nat.add_comm,
    List.drop_succ_cons, spelling_drop_blankLength]

/-- A source of which trimming leaves nothing spells nothing but its end. -/
theorem spelling_of_trimSpace {source : Bytes} (empty : source.trimSpace = []) :
    spelling source = [⟨.endOfInput, []⟩] := by
  have blank := trimSpace_eq_nil_iff.mp empty
  simp only [Rune.isSpace_eq_isBlank] at blank
  rw [← spelling_drop_blankLength, blankLength_of_forall_runes blank, List.drop_length,
    spelling_nil]

end VarPrint
