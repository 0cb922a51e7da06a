/-
# Whole numbers from the source to Java

A run of digits is read three times: the reader of programs asks for a word of 64 bits, its type
depends on whether it is one of 32 bits, and the writer puts its value in canonical form. What
decides each time is the value of the digits by their places, whatever zeros stand in front and
however long the run is. The Java literal that is written has that value again, and fits the type
that its suffix gives it.
-/

import VarPrint.Proofs.Java.Execution

namespace VarPrint

open Lexeme (IsDigits)

open Numeral (IsCanonical positional)

/-- What becomes of digits with a value: as an expression, as a type, and as a Java literal. -/
structure IsExactWhole (digits : Bytes) (value : Nat) : Prop where
  /-- Exactly the values of a signed word of 64 bits are accepted, as numbers without a point. -/
  accepted : ∀ (token : Token) (expr : Expr), token.value = digits →
    (Parse.readNumber token = .ok expr ↔
      value ≤ 2 ^ 63 - 1 ∧ expr = .number digits false token)
  /-- Exactly the values of a signed word of 32 bits are integers. -/
  integer : Ty.ofNumeral digits false = .integer ↔ value ≤ 2 ^ 31 - 1
  /-- All others are long. -/
  long : Ty.ofNumeral digits false = .long ↔ 2 ^ 31 - 1 < value
  /-- What is accepted is written as its canonical numeral, with the suffix of a long exactly where
  an int would overflow, and is read in Java as the value again. -/
  written : ∀ token : Token, value ≤ 2 ^ 63 - 1 → ∃ numeral, IsCanonical numeral value ∧
    Java.expression (.number digits false token) =
      numeral ++ (if 2 ^ 31 ≤ value then utf8 "L" else []) ∧
    ∃ term, Java.readTerm? (Java.expression (.number digits false token)) = some (term, []) ∧
      term.eval [] = .ok (if 2 ^ 31 ≤ value then .long value else .int value)

/-- The reader accepts a run of digits exactly below the sign bit. -/
theorem readNumber_digits {token : Token} {expr : Expr} (isDigits : IsDigits token.value) :
    Parse.readNumber token = .ok expr ↔
      Numeral.value token.value < 2 ^ 63 ∧ expr = .number token.value false token := by
  rw [Grammar.readNumber_eq_ok_iff, Grammar.contains_dot_of_isDigits isDigits,
    if_neg Bool.false_ne_true, Numeral.readWord?_digits isDigits]
  apply and_congr_left'
  by_cases small : Numeral.value token.value < 2 ^ 63
  · rw [if_pos small, iff_true_right small, Option.isSome_some]
  · rw [if_neg small, iff_false_right small, Option.isSome_none]
    exact Bool.false_ne_true

/-- An expression that is related to a Java expression is read from its own text alone. -/
theorem Expr.Translates.readTerm?_alone {value : Expr} {term : Java.Term}
    (translates : value.Translates term) :
    Java.readTerm? (Java.expression value) = some (term, []) := by
  have stops : Bytes.Stops Java.isTermByte [] := by
    intro b head
    cases head
  have read := translates.readTerm?_expression stops
  rwa [List.append_nil] at read

/-- A run of digits below the sign bit is written as a literal that is read as its value. -/
theorem exists_literal_of_digits {digits : Bytes} (isDigits : IsDigits digits) (token : Token)
    (small : Numeral.value digits < 2 ^ 63) :
    ∃ numeral, IsCanonical numeral (Numeral.value digits) ∧
      Java.expression (.number digits false token) =
        numeral ++ (if 2 ^ 31 ≤ Numeral.value digits then utf8 "L" else []) ∧
      ∃ term, Java.readTerm? (Java.expression (.number digits false token)) = some (term, []) ∧
        term.eval [] = .ok (if 2 ^ 31 ≤ Numeral.value digits then .long (Numeral.value digits)
          else .int (Numeral.value digits)) := by
  refine ⟨_, Numeral.isCanonical_ofNat _, ?_⟩
  by_cases large : 2 ^ 31 ≤ Numeral.value digits
  · have translates : (Expr.number digits false token).Translates _ := .long isDigits large small
    rw [if_pos large, if_pos large]
    exact ⟨Java.number_long isDigits large small, _, translates.readTerm?_alone,
      Java.Term.eval_long [] small⟩
  · have fits := Nat.lt_of_not_le large
    have translates : (Expr.number digits false token).Translates _ := .int isDigits fits
    rw [if_neg large, if_neg large, List.append_nil]
    exact ⟨Java.number_int isDigits fits, _, translates.readTerm?_alone,
      Java.Term.eval_int [] fits⟩

/-- Digits are accepted, typed and written by their value, whatever zeros they begin with and
however many they are. -/
theorem isExactWhole_of_isDigits {digits : Bytes} (isDigits : IsDigits digits) :
    IsExactWhole digits (positional digits) := by
  rw [← Numeral.value_eq_positional]
  have type := Numeral.ofNumeral_digits isDigits
  have below (bits : Nat) : Numeral.value digits ≤ 2 ^ bits - 1 ↔ Numeral.value digits < 2 ^ bits :=
    (Nat.lt_iff_le_pred (Nat.two_pow_pos bits)).symm
  refine ⟨?_, ?_, ?_, ?_⟩
  · intro token expr spelled
    subst spelled
    rw [below]
    exact readNumber_digits isDigits
  · rw [below, type]
    by_cases small : Numeral.value digits < 2 ^ 31
    · rw [if_pos small, iff_true_right small]
    · rw [if_neg small, iff_false_right small]
      decide
  · rw [← Nat.not_le, below, type]
    by_cases small : Numeral.value digits < 2 ^ 31
    · rw [if_pos small, iff_false_right (not_not_intro small)]
      decide
    · rw [if_neg small, iff_true_right small]
  · intro token small
    exact exists_literal_of_digits isDigits token ((below 63).mp small)

/-- The first value that needs a long, behind more zeros than a word of 64 bits has digits. -/
theorem isExactWhole_of_isDigits_leading_zeros :
    IsDigits (utf8 "0000000000000000000000002147483648") ∧
      IsExactWhole (utf8 "0000000000000000000000002147483648") 2147483648 := by
  have isDigits : IsDigits (utf8 "0000000000000000000000002147483648") := by
    refine ⟨by decide, List.all_eq_true.mp ?_⟩
    decide +kernel
  have value : positional (utf8 "0000000000000000000000002147483648") = 2147483648 := by
    decide +kernel
  have isExact := isExactWhole_of_isDigits isDigits
  rw [value] at isExact
  exact ⟨isDigits, isExact⟩

end VarPrint
