/-
# Sources that are spelled alike

Two sources may differ in their blanks, their comments and their line ends and still have the same
tokens but for the places. Then they compile to the same code, or both fail with the same message
and the same details. The two errors lie equally far behind two tokens, and these have the same
number among the tokens of their sources. A source of blanks and comments alone is no exception: it
has only the end, wherever that stands.
-/

import VarPrint.Proofs.Program.Extension

namespace VarPrint

/-- The line of a token, and a column at a distance behind its own. -/
def SyntaxError.LiesBehind (error : SyntaxError) (token : Token) (distance : Nat) : Prop :=
  error.line = token.position.line ∧ error.column = token.position.column + distance

/-- Tokens with the same number in two lists, which differ at most in their places. -/
def Token.Counterpart (tokens tokens' : List Token) (token token' : Token) : Prop :=
  Token.Alike token token' ∧
    ∃ index : Nat, tokens[index]? = some token ∧ tokens'[index]? = some token'

/-- In lists that are spelled alike every token has its counterpart. -/
theorem forall₂_counterpart {tokens tokens' : List Token}
    (same : tokens.map Token.toLexeme = tokens'.map Token.toLexeme) :
    List.Forall₂ (Token.Counterpart tokens tokens') tokens tokens' := by
  have alike := forall₂_alike same
  apply List.forall₂_of_length_eq_of_get alike.length_eq
  intro index inside inside'
  exact ⟨alike.get inside inside', index, List.getElem?_eq_getElem inside,
    List.getElem?_eq_getElem inside'⟩

/-- The end that a reading of a source may come to is the last token of the source. -/
theorem finishOf_tokenize (source : Bytes) :
    (tokenize source).getLast? = some (Parse.finishOf (tokenize source)) := by
  obtain ⟨front, ⟨⟨kind, value⟩, place⟩, split, isEnd, noValue, _⟩ :=
    (Lexeme.tiles_tokenize source).exists_finish
  dsimp only at isEnd noValue
  rw [split, Parse.finishOf, List.getLast?_concat, isEnd, noValue]
  rfl

theorem finishes_counterpart {first second : Bytes}
    (same : (tokenize first).map Token.toLexeme = (tokenize second).map Token.toLexeme) :
    Token.Counterpart (tokenize first) (tokenize second) (Parse.finishOf (tokenize first))
      (Parse.finishOf (tokenize second)) := by
  have sameLength : (tokenize first).length = (tokenize second).length := by
    rw [← List.length_map (f := Token.toLexeme), same, List.length_map]
  have last := finishOf_tokenize first
  have last' := finishOf_tokenize second
  rw [List.getLast?_eq_getElem?] at last last'
  exact ⟨rfl, _, last, sameLength ▸ last'⟩

/-- What compiling two sources comes to where places are all that may differ. -/
inductive CompileAlike (first second : Bytes) : Prop
  /-- There is one code for both. -/
  | code (code : Bytes) (compiled : compile first = .ok code) (compiled' : compile second = .ok code)
  /-- Both fail with one message, at the same distance behind the token of one number. -/
  | error (error error' : SyntaxError) (failed : compile first = .error (.syntaxError error))
      (failed' : compile second = .error (.syntaxError error'))
      (message : error.diagnostic.message = error'.diagnostic.message)
      (details : error.diagnostic.details = error'.diagnostic.details)
      (index distance : Nat) (token token' : Token)
      (isToken : (tokenize first)[index]? = some token)
      (isToken' : (tokenize second)[index]? = some token')
      (place : error.LiesBehind token distance) (place' : error'.LiesBehind token' distance)

/-- No source is refused for a text without its quotes. -/
theorem compile_ne_unquotedText (source : Bytes) : compile source ≠ .error .unquotedText := by
  intro failed
  rcases compile_behind rfl (Scanner.tokens_ne_nil .start source) .nil rfl with
    ⟨code, compiled⟩ | ⟨error, refused, _⟩
  · rw [compiled] at failed
    cases failed
  · rw [refused] at failed
    cases failed

/-- Sources whose tokens have the same kinds and the same bytes, in the same order, are compiled
alike. -/
theorem compileAlike_of_sameLexemes {first second : Bytes}
    (same : (tokenize first).map Token.toLexeme = (tokenize second).map Token.toLexeme) :
    CompileAlike first second := by
  have matched := compile_linked (fun _ _ linked => linked.1) (forall₂_counterpart same)
    (finishes_counterpart same)
  generalize outcome : compile first = result at matched
  generalize outcome' : compile second = result' at matched
  cases matched with
  | ok equal =>
      rw [← equal] at outcome'
      exact .code _ outcome outcome'
  | error faults =>
      cases faults with
      | unquotedText => exact absurd outcome (compile_ne_unquotedText first)
      | syntaxError errors =>
          cases errors with
          | within problem distance link =>
              obtain ⟨_, index, isToken, isToken'⟩ := link
              exact .error _ _ outcome outcome' rfl rfl index distance _ _ isToken isToken'
                ⟨rfl, rfl⟩ ⟨rfl, rfl⟩

/-- The same undeclared variable, on one line and behind a comment on another. -/
theorem compileAlike_of_sameLexemes_comment :
    (tokenize (utf8 "print ( y ) ;")).map Token.toLexeme =
        (tokenize (utf8 "// nota\nprint(\n  y);")).map Token.toLexeme ∧
      CompileAlike (utf8 "print ( y ) ;") (utf8 "// nota\nprint(\n  y);") := by
  have same : (tokenize (utf8 "print ( y ) ;")).map Token.toLexeme =
      (tokenize (utf8 "// nota\nprint(\n  y);")).map Token.toLexeme := by
    decide +kernel
  exact ⟨same, compileAlike_of_sameLexemes same⟩

end VarPrint
