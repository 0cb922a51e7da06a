/-
# Configuration texts, as written

The items of a configuration text before anything is looked up: keys, values, pairs and headers,
each with the line that later messages point to. Quoted keys and texts still hold their escapes.
-/

import VarPrint.Toml.Moment

namespace VarPrint.Toml

/-- A key, bare or between quotes, and its line. -/
structure Key where
  body : List Char
  isQuoted : Bool
  line : Nat
deriving DecidableEq, Repr

mutual

/-- A value as written. -/
inductive Value where
  | integer (numeral : List Char)
  | float (numeral : List Char)
  | boolean (value : Bool)
  | datetime (written : List Char) (moment : Moment)
  /-- A text, whether its escapes are still to be read, and the line on which it ends. -/
  | text (body : List Char) (hasEscapes : Bool) (line : Nat)
  | array (items : List Value)
  /-- A table in braces and the line of its opening brace. -/
  | table (line : Nat) (pairs : List Pair)

/-- A key, its value, and the line on which the value ends. -/
inductive Pair where
  | mk (key : Key) (value : Value) (line : Nat)

end

/-- The header of a table: its keys, the name as it is written, and its line. -/
structure Header where
  isArray : Bool
  keys : List Key
  name : List Char
  line : Nat
deriving Repr

/-- What one expression of a text holds. -/
inductive Item where
  | nothing
  | pair (pair : Pair)
  | table (header : Header) (pairs : List Pair)

end VarPrint.Toml
