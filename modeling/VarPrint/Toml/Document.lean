/-
# Documents

A document is a table of named entries: values, tables, and arrays of tables. It is built from the
items of a text in order, and the first item that does not fit what stands there already ends the
building. A table that only came about as the parent of another one, or that was written in braces,
may still get a header of its own; it keeps its entries and takes the line of the header.
-/

import VarPrint.Number.Numeral
import VarPrint.Text.Quoted
import VarPrint.Toml.Grammar

namespace VarPrint.Toml

mutual

/-- What a name stands for. -/
inductive Entry where
  /-- A value and the line on which it ends. -/
  | value (value : Value) (line : Nat)
  | table (table : Table)
  /-- The tables of an array, the latest first. -/
  | tables (latest : Table) (earlier : List Table)

/-- Named entries, the line of the table, and whether it has a header of its own. -/
inductive Table where
  | mk (line : Nat) (hasHeader : Bool) (entries : List (Bytes × Entry))

end

/-- Why a text is no document. -/
inductive Problem where
  /-- The grammar does not cover the text. -/
  | malformed
  /-- A quoted key or text has an escape that stands for no rune. -/
  | badEscape
  /-- A key has a value already, from an earlier line. -/
  | keyTwice (key : Bytes) (earlier : Nat)
  /-- A key names a table already. -/
  | keyOverTable (key : Bytes) (earlier : Nat)
  /-- A key names an array of tables already. -/
  | keyOverTables (key : Bytes)
  /-- A part of the name of a table, other than the last, has a value. -/
  | valueAsParent (key : Bytes) (earlier : Nat)
  | tableOverValue (name : Bytes) (earlier : Nat)
  | tableTwice (name : Bytes) (earlier : Nat)
  | tableOverTables (name : Bytes) (earlier : Nat)
  | tablesOverValue (name : Bytes) (earlier : Nat)
  | tablesOverTable (name : Bytes) (earlier : Nat)
deriving DecidableEq, Repr

/-- A problem and its line; the place of a malformed text is not known. -/
structure Error where
  problem : Problem
  line : Nat
deriving DecidableEq, Repr

/-- A name as messages cite it. -/
private def citedName (name : Bytes) : Bytes :=
  utf8 "`" ++ name ++ utf8 "'"

/-- What kind of thing a name is, the name, and what it clashes with. -/
private def conflict (kind : String) (name : Bytes) (other : String) (line : Bytes) : Bytes :=
  utf8 kind ++ utf8 " " ++ citedName name ++ utf8 " is in conflict with " ++ utf8 other ++ line

/-- The wording of a problem. The line of a repeated key is shown in hexadecimal with a letter after
it. -/
def Problem.text : Problem → Bytes
  | malformed => utf8 "invalid TOML syntax"
  | badEscape => utf8 "invalid syntax"
  | keyTwice key earlier => conflict "key" key "line " (Numeral.hexOfNat earlier) ++ utf8 "d"
  | keyOverTable key earlier => conflict "key" key "table in line " (Numeral.ofNat earlier)
  | keyOverTables key =>
    utf8 "BUG: key " ++ citedName key ++
      utf8 " is in conflict but it's unknown type `[]*ast.Table'"
  | valueAsParent key earlier => conflict "key" key "line " (Numeral.ofNat earlier)
  | tableOverValue name earlier => conflict "table" name "line " (Numeral.ofNat earlier)
  | tableTwice name earlier => conflict "table" name "table in line " (Numeral.ofNat earlier)
  | tableOverTables name earlier =>
    conflict "table" name "array table in line " (Numeral.ofNat earlier)
  | tablesOverValue name earlier => conflict "array table" name "line " (Numeral.ofNat earlier)
  | tablesOverTable name earlier =>
    conflict "array table" name "table in line " (Numeral.ofNat earlier)

/-- The line, or a question mark where it is not known, and the problem. -/
def Error.text (error : Error) : Bytes :=
  let line := if error.problem = .malformed then utf8 "?" else Numeral.ofNat error.line
  utf8 "line " ++ line ++ utf8 ": " ++ error.problem.text

namespace Table

/-- A table without entries. -/
def fresh (line : Nat) (hasHeader : Bool) : Table := mk line hasHeader []

/-- The line of a table. -/
def line : Table → Nat
  | mk line _ _ => line

/-- The table has a header of its own. -/
def hasHeader : Table → Bool
  | mk _ hasHeader _ => hasHeader

/-- The entries of a table in the order in which they came about. -/
def entries : Table → List (Bytes × Entry)
  | mk _ _ entries => entries

/-- The entry of a name. -/
def find? (table : Table) (name : Bytes) : Option Entry :=
  table.entries.lookup name

/-- The table with an entry set, in its old place if there was one. -/
def put (table : Table) (name : Bytes) (entry : Entry) : Table :=
  if (table.find? name).isSome then
    mk table.line table.hasHeader
      (table.entries.map fun old => if old.1 = name then (name, entry) else old)
  else mk table.line table.hasHeader (table.entries ++ [(name, entry)])

/-- The line of the first table of an array. -/
def firstLine (latest : Table) (earlier : List Table) : Nat :=
  (earlier.getLast?.getD latest).line

end Table

/-- The entry that a header or braces make of what a name stands for. -/
def Entry.openTable (name : Bytes) (line : Nat) (hasHeader : Bool) :
    Option Entry → Except Problem Entry
  | none => .ok (.table (.fresh line hasHeader))
  | some (.value _ earlier) => .error (.tableOverValue name earlier)
  | some (.table old) =>
    if old.hasHeader then .error (.tableTwice name old.line)
    else .ok (.table (.mk line hasHeader old.entries))
  | some (.tables latest earlier) => .error (.tableOverTables name (Table.firstLine latest earlier))

/-- The entry that one more table of an array makes of what a name stands for. -/
def Entry.openTables (name : Bytes) (line : Nat) : Option Entry → Except Problem Entry
  | none => .ok (.tables (.fresh line true) [])
  | some (.value _ earlier) => .error (.tablesOverValue name earlier)
  | some (.table old) => .error (.tablesOverTable name old.line)
  | some (.tables latest earlier) => .ok (.tables (.fresh line true) (latest :: earlier))

/-- The entry that a pair makes of what a key stands for. -/
def Entry.setValue (key : Bytes) (line : Nat) (value : Value) : Option Entry → Except Problem Entry
  | none => .ok (.value value line)
  | some (.value _ earlier) => .error (.keyTwice key earlier)
  | some (.table old) => .error (.keyOverTable key old.line)
  | some (.tables _ _) => .error (.keyOverTables key)

/-- Changes the entry of a name below a path of tables. A table that is missing on the way comes
about, and of an array the latest table is meant. -/
def Table.change (line : Nat) (name : Bytes) (make : Option Entry → Except Problem Entry) :
    (path : List Bytes) → Table → Except Problem Table
  | [], table => do return table.put name (← make (table.find? name))
  | key :: path, table =>
    match table.find? key with
    | none => do
      return table.put key (.table (← change line name make path (.fresh line false)))
    | some (.table inner) => do return table.put key (.table (← change line name make path inner))
    | some (.tables latest earlier) => do
      return table.put key (.tables (← change line name make path latest) earlier)
    | some (.value _ earlier) => .error (.valueAsParent key earlier)

/-- A document that is being built: its table, and the path to the table that pairs go to. -/
structure Builder where
  root : Table
  path : List Bytes

namespace Builder

/-- Building can fail with an error. -/
abbrev BuildM := StateT Builder (Except Error)

/-- The runes of a body, with its escapes read if it has any. -/
def readBody (body : List Char) (hasEscapes : Bool) (line : Nat) : BuildM Bytes :=
  if hasEscapes then
    match Quoted.decode? body with
    | some runes => return Bytes.ofRunes runes
    | none => throw ⟨.badEscape, line⟩
  else return Bytes.ofRunes body

/-- The name of a key. -/
def readKey (key : Key) : BuildM Bytes :=
  readBody key.body key.isQuoted key.line

/-- Changes the entry of a name below a path. -/
def change (line : Nat) (path : List Bytes) (name : Bytes)
    (make : Option Entry → Except Problem Entry) : BuildM Unit := do
  let builder ← get
  match builder.root.change line name make path with
  | .ok root => set { builder with root }
  | .error problem => throw ⟨problem, line⟩

/-- Does something with the table of a name as the one that pairs go to, and comes back. -/
def inside (name : Bytes) (action : BuildM Unit) : BuildM Unit := do
  let outer := (← get).path
  modify fun builder => { builder with path := outer ++ [name] }
  action
  modify fun builder => { builder with path := outer }

mutual

/-- Places the tables that a value holds under its key, and says whether it holds any. Tables in
braces stand for themselves; inside an array, at whatever depth, they become tables of an array. -/
def placeTables (key : Bytes) (inArray : Bool) : Value → BuildM Bool
  | .text body hasEscapes line => do
    let _ ← readBody body hasEscapes line
    return false
  | .array items => placeItems key items
  | .table line pairs => do
    let path := (← get).path
    change line path key (if inArray then Entry.openTables key line
      else Entry.openTable key line false)
    inside key (placePairs inArray pairs)
    return true
  | _ => return false

/-- Places the tables in the items of an array. -/
def placeItems (key : Bytes) : List Value → BuildM Bool
  | [] => return false
  | item :: rest => do
    let first ← placeTables key true item
    let later ← placeItems key rest
    return first || later

/-- Places a pair: tables that its value holds stand for it, any other value is stored. -/
def placePair (inArray : Bool) : Pair → BuildM Unit
  | .mk key value line => do
    let name ← readKey key
    if ← placeTables name inArray value then return
    change line (← get).path name (Entry.setValue name line value)

/-- Places pairs in order. -/
def placePairs (inArray : Bool) : List Pair → BuildM Unit
  | [] => return
  | pair :: rest => do
    placePair inArray pair
    placePairs inArray rest

end

/-- Opens the table of a header, which is where later pairs go. -/
def placeHeader (header : Header) : BuildM Unit := do
  let names ← header.keys.mapM readKey
  let shown := Bytes.ofRunes header.name
  change header.line names.dropLast (names.getLast?.getD [])
    (if header.isArray then Entry.openTables shown header.line
      else Entry.openTable shown header.line true)
  modify fun builder => { builder with path := names }

/-- Places an item. -/
def placeItem : Item → BuildM Unit
  | .nothing => return
  | .pair pair => placePair false pair
  | .table header pairs => do
    placeHeader header
    placePairs false pairs

end Builder

/-- The document that a text describes. -/
def document (text : Bytes) : Except Error Table :=
  match items? text.runes with
  | none => .error ⟨.malformed, 0⟩
  | some items => do
    let (_, builder) ← (items.forM Builder.placeItem).run ⟨.fresh 1 false, []⟩
    return builder.root

end VarPrint.Toml
