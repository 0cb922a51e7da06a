/-
# Loading a configuration

A file sets each field that it names and leaves the others alone. Every name in it has to be that of
a field and every value of the type of its field. The result has to be a valid configuration.
-/

import VarPrint.Config.Basic
import VarPrint.Files.Task
import VarPrint.Number.Magnitude

namespace VarPrint.Config

/-- The fields, by the names that a file uses. -/
inductive Field where
  | className
  | output
  | indent
  | debug
deriving DecidableEq, Repr

namespace Field

/-- All fields in order. -/
def all : List Field := [className, output, indent, debug]

/-- The name of a field in a file. -/
def name : Field → Bytes
  | className => utf8 "Classe"
  | output => utf8 "Saida"
  | indent => utf8 "Indentacao"
  | debug => utf8 "Debug"

/-- The field of a name. -/
def ofName? (wanted : Bytes) : Option Field :=
  all.find? fun field => field.name == wanted

/-- The type of a field as messages name it. -/
def typeName : Field → Bytes
  | className => utf8 "string"
  | output => utf8 "string"
  | indent => utf8 "int"
  | debug => utf8 "bool"

end Field

/-- The kind of a value as messages name it. -/
def valueKind : Toml.Value → Bytes
  | .integer _ => utf8 "integer"
  | .float _ => utf8 "float"
  | .boolean _ => utf8 "boolean"
  | .datetime _ _ => utf8 "datetime"
  | .text _ _ _ => utf8 "string"
  | .array _ => utf8 "array"
  | .table _ _ => utf8 "table"

/-- A value that does not have the type of its field. -/
def mismatch (field : Field) (value : Toml.Value) : FieldProblem :=
  let needed := match value with
    | .array _ => utf8 "slice"
    | _ => []
  .wrongType field.name (valueKind value) field.typeName needed

/-- The text of a value, its escapes read. -/
def textOf? : Toml.Value → Option Bytes
  | .text body true _ => (Quoted.decode? body).map Bytes.ofRunes
  | .text body false _ => some (Bytes.ofRunes body)
  | _ => none

/-- A numeral without the low lines between its digits. -/
def plainNumeral (numeral : List Char) : Bytes :=
  Bytes.ofRunes (numeral.filter (· ≠ '_'))

/-- What is wrong with a value in itself, whatever the type of its field. -/
def valueProblem? (field : Field) : Toml.Value → Option FieldProblem
  | .float numeral =>
    if (Magnitude.read? (plainNumeral numeral)).any (·.isInfinite) then
      some (.infinite field.name (plainNumeral numeral))
    else none
  | .datetime written moment =>
    moment.problem?.map (.badMoment field.name (Bytes.ofRunes written))
  | _ => none

/-- The configuration with one field set from a value. No field takes a number with a fraction or a
moment, but one that is malformed in itself is reported as such. -/
def setField (config : Config) (field : Field) (value : Toml.Value) : Except FieldProblem Config :=
  match field, value with
  | .className, .text body hasEscapes line =>
    .ok { config with className := (textOf? (.text body hasEscapes line)).getD [] }
  | .output, .text body hasEscapes line =>
    .ok { config with output := (textOf? (.text body hasEscapes line)).getD [] }
  | .indent, .integer numeral =>
    match Numeral.readWord? 64 (plainNumeral numeral) with
    | some indent => .ok { config with indent }
    | none => .error (.outOfRange field.name (plainNumeral numeral))
  | .debug, .boolean debug => .ok { config with debug }
  | _, _ => .error ((valueProblem? field value).getD (mismatch field value))

/-- The line to which messages about an entry point. -/
def entryLine : Toml.Entry → Nat
  | .value _ line => line
  | .table table => table.line
  | .tables latest earlier => Toml.Table.firstLine latest earlier

/-- The configuration with the field of a name set from an entry. -/
def setEntry (config : Config) (name : Bytes) (entry : Toml.Entry) : Except FieldProblem Config :=
  match Field.ofName? name with
  | none => .error (.unknownField name)
  | some field =>
    match entry with
    | .value value _ => config.setField field value
    | .table _ => .error (.tableForValue field.typeName)
    | .tables _ _ =>
      .error (.wrongType field.name (utf8 "array table") field.typeName (utf8 "slice"))

/-- The configuration with every entry of a document set, in order. -/
def setEntries (file : Bytes) (config : Config) (entries : List (Bytes × Toml.Entry)) :
    Except ConfigError Config :=
  entries.foldlM
    (fun config (name, entry) =>
      (config.setEntry name entry).mapError (.badField file (entryLine entry)))
    config

/-- The configuration after the text of a file. -/
def ofText (file : Bytes) (config : Config) (text : Bytes) : Except ConfigError Config := do
  let document ← (Toml.document text).mapError (.notDocument file)
  let loaded ← setEntries file config document.entries
  loaded.validate

/-- Loads a file over a configuration. -/
def load (file : Bytes) (config : Config) : FileTask (Except ConfigError Config) := do
  match ← FileTask.content file with
  | .ok text => return ofText file config text
  | .error error =>
    return .error (if error.operation = .reading then .unread error else .unopened error)

end VarPrint.Config
