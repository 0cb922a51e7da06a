/-
# Rules on a given text

A rule is followed here from the front of a text to the place that it leaves. A sequence goes on from
the place of its first part, a choice takes its second part only where the first one fails, and a
repetition takes piece after piece until its rule fails. Within one line the cursor keeps its line,
so the texts of these lemmas have no line ends, other than those that are read as such.
-/

import VarPrint.Toml.Rule

namespace VarPrint.Toml

namespace Rule

section Combination

variable {α β : Type} {rule first second : Rule α} {next : α → Rule β} {cursor after : Cursor}
  {value : α}

theorem bind_eq : (rule >>= next) cursor = (rule cursor).bind fun (value, after) =>
    next value after :=
  rfl

theorem bind_of_some (read : rule cursor = some (value, after)) :
    (rule >>= next) cursor = next value after := by
  rw [bind_eq, read, Option.bind_some]

theorem bind_of_none (failed : rule cursor = none) : (rule >>= next) cursor = none := by
  rw [bind_eq, failed, Option.bind_none]

theorem orElse_of_some (read : first cursor = some (value, after)) :
    (first <|> second) cursor = some (value, after) := by
  show (first cursor <|> second cursor) = _
  rw [read]
  rfl

theorem orElse_of_none (failed : first cursor = none) :
    (first <|> second) cursor = second cursor := by
  show (first cursor <|> second cursor) = _
  rw [failed]
  cases second cursor <;> rfl

theorem perhaps_of_none (failed : rule cursor = none) :
    perhaps rule cursor = some (none, cursor) :=
  orElse_of_none (bind_of_none failed)

end Combination

section Runes

variable {p : Char → Bool} {c : Char} {text run rest : List Char} {line : Nat}

theorem satisfy_of_pos (holds : p c = true) (inside : isNewline c = false) (rest : List Char)
    (line : Nat) : satisfy p ⟨c :: rest, line⟩ = some (c, ⟨rest, line⟩) := by
  simp [satisfy, holds, inside]

theorem satisfy_of_neg (refused : p c = false) (rest : List Char) (line : Nat) :
    satisfy p ⟨c :: rest, line⟩ = none := by
  simp [satisfy, refused]

/-- A rule for one rune fails where another rune stands, and at the end. -/
theorem satisfy_of_stops (stops : ∀ c ∈ text.head?, p c = false) (line : Nat) :
    satisfy p ⟨text, line⟩ = none := by
  cases text with
  | nil => rfl
  | cons c rest => exact satisfy_of_neg (stops c rfl) rest line

theorem char_self (inside : isNewline c = false) (rest : List Char) (line : Nat) :
    char c ⟨c :: rest, line⟩ = some ((), ⟨rest, line⟩) :=
  bind_of_some (satisfy_of_pos (beq_self_eq_true c) inside rest line)

theorem char_of_ne (other : text.head? ≠ some c) (line : Nat) : char c ⟨text, line⟩ = none := by
  apply bind_of_none
  apply satisfy_of_stops
  intro d isFirst
  rw [beq_eq_false_iff_ne]
  rintro rfl
  exact other isFirst

theorem word_append (inside : ∀ c ∈ run, isNewline c = false) (rest : List Char) (line : Nat) :
    word run ⟨run ++ rest, line⟩ = some ((), ⟨rest, line⟩) := by
  induction run with
  | nil => rfl
  | cons c run ih =>
      rw [List.forall_mem_cons] at inside
      rw [word, List.cons_append, bind_of_some (char_self inside.1 _ _)]
      exact ih inside.2

theorem word_of_ne (other : text.head? ≠ some c) (line : Nat) :
    word (c :: run) ⟨text, line⟩ = none :=
  bind_of_none (char_of_ne other line)

end Runes

section Repetition

variable {α β : Type} {rule : Rule α} {cursor next : Cursor} {value : α}

theorem repeated_of_none (failed : rule cursor = none) : repeated rule cursor = ([], cursor) := by
  rw [repeated, failed]

theorem repeated_of_some (read : rule cursor = some (value, next))
    (shorter : next.rest.length < cursor.rest.length) :
    repeated rule cursor = (value :: (repeated rule next).1, (repeated rule next).2) := by
  rw [repeated, read]
  simp only [if_pos shorter]

theorem many_of_none (failed : rule cursor = none) : many rule cursor = some ([], cursor) := by
  rw [many, repeated_of_none failed]

/-- A repetition takes pieces of a line one after the other, as long as its rule takes them. -/
theorem many_of_pieces {items : List β} {text : β → List Char} {read : β → α} {rest : List Char}
    {line : Nat}
    (each : ∀ item ∈ items, text item ≠ [] ∧
      ∀ after, rule ⟨text item ++ after, line⟩ = some (read item, ⟨after, line⟩))
    (failed : rule ⟨rest, line⟩ = none) :
    many rule ⟨items.flatMap text ++ rest, line⟩ = some (items.map read, ⟨rest, line⟩) := by
  unfold many
  induction items with
  | nil => exact congrArg some (repeated_of_none failed)
  | cons item items ih =>
      rw [List.forall_mem_cons] at each
      have taken := each.1.2 (items.flatMap text ++ rest)
      have shorter : (items.flatMap text ++ rest).length <
          (text item ++ (items.flatMap text ++ rest)).length := by
        have positive := List.length_pos_iff.mpr each.1.1
        have lengths : (text item ++ (items.flatMap text ++ rest)).length =
          (text item).length + (items.flatMap text ++ rest).length := List.length_append
        omega
      rw [List.flatMap_cons, List.append_assoc, repeated_of_some taken shorter,
        Option.some.inj (ih each.2)]
      rfl

/-- A repetition of a rule for one rune takes all runes of a run. -/
theorem many_of_runes {rule : Rule Char} {run rest : List Char} {line : Nat}
    (each : ∀ c ∈ run, ∀ after, rule ⟨c :: after, line⟩ = some (c, ⟨after, line⟩))
    (failed : rule ⟨rest, line⟩ = none) :
    many rule ⟨run ++ rest, line⟩ = some (run, ⟨rest, line⟩) := by
  have taken := many_of_pieces (fun c member => ⟨List.cons_ne_nil c [], each c member⟩) failed
  rwa [List.flatMap_singleton', List.map_id'] at taken

/-- The runes of a class, up to one of another class. -/
theorem many_satisfy {p : Char → Bool} {run rest : List Char}
    (all : ∀ c ∈ run, p c = true ∧ isNewline c = false)
    (stops : ∀ c ∈ rest.head?, p c = false) (line : Nat) :
    many (satisfy p) ⟨run ++ rest, line⟩ = some (run, ⟨rest, line⟩) :=
  many_of_runes (fun c member after => satisfy_of_pos (all c member).1 (all c member).2 after line)
    (satisfy_of_stops stops line)

theorem times_succ_of_some {count : Nat} {values : List α} {last : Cursor}
    (read : rule cursor = some (value, next)) (later : times count rule next = some (values, last)) :
    times (count + 1) rule cursor = some (value :: values, last) := by
  rw [times, bind_of_some read, bind_of_some later]
  rfl

/-- A count of runes is taken from the front of a run that has so many. -/
theorem times_satisfy_of_le {p : Char → Bool} {run : List Char} {count : Nat}
    (all : ∀ c ∈ run, p c = true ∧ isNewline c = false) (enough : count ≤ run.length)
    (rest : List Char) (line : Nat) :
    times count (satisfy p) ⟨run ++ rest, line⟩ =
      some (run.take count, ⟨run.drop count ++ rest, line⟩) := by
  induction count generalizing run with
  | zero => rfl
  | succ count ih =>
      cases run with
      | nil => simp at enough
      | cons c run =>
          rw [List.forall_mem_cons] at all
          exact times_succ_of_some (satisfy_of_pos all.1.1 all.1.2 _ _)
            (ih all.2 (Nat.le_of_succ_le_succ enough))

/-- A count of runes is not taken from a run that has fewer. -/
theorem times_satisfy_of_lt {p : Char → Bool} {run rest : List Char} {count : Nat}
    (all : ∀ c ∈ run, p c = true ∧ isNewline c = false) (tooFew : run.length < count)
    (stops : ∀ c ∈ rest.head?, p c = false) (line : Nat) :
    times count (satisfy p) ⟨run ++ rest, line⟩ = none := by
  induction count generalizing run with
  | zero => simp at tooFew
  | succ count ih =>
      cases run with
      | nil => exact bind_of_none (satisfy_of_stops stops line)
      | cons c run =>
          rw [List.forall_mem_cons] at all
          rw [List.cons_append, times, bind_of_some (satisfy_of_pos all.1.1 all.1.2 _ _)]
          exact bind_of_none (ih all.2 (Nat.lt_of_succ_lt_succ tooFew))

theorem many1_of_some {rest : List α} {last : Cursor} (read : rule cursor = some (value, next))
    (later : many rule next = some (rest, last)) :
    many1 rule cursor = some (value :: rest, last) := by
  rw [many1, bind_of_some read, bind_of_some later]
  rfl

theorem many1_of_none (failed : rule cursor = none) : many1 rule cursor = none :=
  bind_of_none failed

end Repetition

section Capture

variable {α : Type} {rule : Rule α} {cursor : Cursor} {value : α} {run rest : List Char}
  {line final : Nat}

theorem captured_of_some (read : rule ⟨run ++ rest, line⟩ = some (value, ⟨rest, final⟩)) :
    captured rule ⟨run ++ rest, line⟩ = some ((run, value), ⟨rest, final⟩) := by
  have front : (run ++ rest).take ((run ++ rest).length - rest.length) = run := by
    rw [List.length_append, Nat.add_sub_cancel, List.take_left]
  have taken : captured rule ⟨run ++ rest, line⟩ =
      some (((run ++ rest).take ((run ++ rest).length - rest.length), value), ⟨rest, final⟩) := by
    rw [captured, bind_of_some rfl, bind_of_some read]
    rfl
  rw [taken, front]

theorem captured_of_none (failed : rule cursor = none) : captured rule cursor = none := by
  rw [captured, bind_of_some rfl, bind_of_none failed]

end Capture

end Rule

end VarPrint.Toml
