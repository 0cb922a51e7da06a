/-
# Grammar rules

A rule reads a value from the front of a text or fails and leaves the text alone. Choice is ordered:
the second rule is tried only where the first one fails. Repetition takes as much as it can and
never gives any of it back. The cursor counts lines, one for every carriage return and every line
feed.
-/

import VarPrint.Text.Rune

namespace VarPrint.Toml

/-- The runes that are left and the line that they begin on. -/
structure Cursor where
  rest : List Char
  line : Nat
deriving DecidableEq, Repr

/-- A carriage return or a line feed. -/
def isNewline (c : Char) : Bool :=
  c == '\r' || c == '\n'

/-- A rule of a grammar; a failing rule consumes nothing. -/
abbrev Rule := StateT Cursor Option

namespace Rule

/-- One rune of a class. -/
def satisfy (p : Char → Bool) : Rule Char := fun cursor =>
  match cursor.rest with
  | [] => none
  | c :: rest =>
    if p c then some (c, ⟨rest, if isNewline c then cursor.line + 1 else cursor.line⟩) else none

/-- One given rune. -/
def char (c : Char) : Rule Unit := do
  let _ ← satisfy (· == c)

/-- A given run of runes. -/
def word : List Char → Rule Unit
  | [] => pure ()
  | c :: rest => do
    char c
    word rest

/-- The line at this place. -/
def currentLine : Rule Nat := do
  return (← get).line

/-- As many repetitions as there are; one that would consume nothing ends them. -/
def repeated {α : Type} (rule : Rule α) (cursor : Cursor) : List α × Cursor :=
  match rule cursor with
  | none => ([], cursor)
  | some (value, next) =>
    if next.rest.length < cursor.rest.length then
      let (values, final) := repeated rule next
      (value :: values, final)
    else ([], cursor)
termination_by cursor.rest.length

/-- Any number of repetitions. -/
def many {α : Type} (rule : Rule α) : Rule (List α) := fun cursor =>
  some (repeated rule cursor)

/-- At least one repetition. -/
def many1 {α : Type} (rule : Rule α) : Rule (List α) := do
  let first ← rule
  return first :: (← many rule)

/-- Exactly the given number of repetitions. -/
def times {α : Type} : (count : Nat) → Rule α → Rule (List α)
  | 0, _ => pure []
  | count + 1, rule => do
    let first ← rule
    return first :: (← times count rule)

/-- The value of a rule if it succeeds here. -/
def perhaps {α : Type} (rule : Rule α) : Rule (Option α) :=
  (do return some (← rule)) <|> pure none

/-- Succeeds where a rule fails, and consumes nothing. -/
def absent {α : Type} (rule : Rule α) : Rule Unit := fun cursor =>
  match rule cursor with
  | some _ => none
  | none => some ((), cursor)

/-- Succeeds at the end of the text. -/
def finish : Rule Unit :=
  absent (satisfy fun _ => true)

/-- The value of a rule with the runes that it consumed. -/
def captured {α : Type} (rule : Rule α) : Rule (List Char × α) := do
  let before ← get
  let value ← rule
  let after ← get
  return (before.rest.take (before.rest.length - after.rest.length), value)

end Rule

end VarPrint.Toml
