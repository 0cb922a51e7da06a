/-
# Configurations

Four settings: the name of the class, the output directory, the spaces per level and whether
messages are logged. A configuration is valid if its indentation is between zero and sixteen and its
class name, if it has one, is an identifier.
-/

import VarPrint.Files.Tree
import VarPrint.Java.Name
import VarPrint.Problem
import VarPrint.Text.Quoted
import VarPrint.Toml.Document

namespace VarPrint

/-- The settings of a compilation; an empty name or directory means that none is set. -/
structure Config where
  className : Bytes
  output : Bytes
  indent : Int
  debug : Bool
deriving DecidableEq, Repr

/-- A setting that a file gives in a form that does not fit. -/
inductive FieldProblem where
  /-- There is no setting of this name. -/
  | unknownField (name : Bytes)
  /-- A value of another type, and what would be needed instead if that can be said. -/
  | wrongType (field : Bytes) (given wanted : Bytes) (needed : Bytes)
  /-- A table where a value is wanted. -/
  | tableForValue (wanted : Bytes)
  /-- A number that is no word. -/
  | outOfRange (field : Bytes) (numeral : Bytes)
  /-- A number that is too large to be finite. -/
  | infinite (field : Bytes) (numeral : Bytes)
  /-- A date or time that is none. -/
  | badMoment (field : Bytes) (written : Bytes) (problem : Toml.MomentProblem)
deriving DecidableEq, Repr

/-- Why there is no configuration. -/
inductive ConfigError where
  /-- The file cannot be opened. -/
  | unopened (error : FileError)
  /-- The file is open and cannot be read. -/
  | unread (error : FileError)
  /-- The file is no document. -/
  | notDocument (file : Bytes) (error : Toml.Error)
  /-- A setting in the file does not fit. -/
  | badField (file : Bytes) (line : Nat) (problem : FieldProblem)
  | indentOutOfRange (indent : Int)
  | notIdentifier (className : Bytes)
deriving DecidableEq, Repr

/-- What would be needed, in parentheses, if anything is known. -/
private def neededText (needed : Bytes) : Bytes :=
  if needed = [] then [] else utf8 " (need " ++ needed ++ utf8 ")"

/-- A message about the value of a field. -/
private def fieldText (field : Bytes) (message : Bytes) : Bytes :=
  utf8 "(config.Config." ++ field ++ utf8 ") " ++ message

/-- The wording of a setting that does not fit. -/
def FieldProblem.text : FieldProblem → Bytes
  | unknownField name => utf8 "campo " ++ name.cited ++ utf8 " não existe em config.Config"
  | wrongType field given wanted needed =>
    fieldText field
      (utf8 "cannot unmarshal TOML " ++ given ++ utf8 " into " ++ wanted ++ neededText needed)
  | tableForValue wanted =>
    utf8 "cannot unmarshal TOML table into " ++ wanted ++ neededText (utf8 "struct or map")
  | outOfRange field numeral =>
    fieldText field (utf8 "value " ++ numeral ++ utf8 " is out of range for int")
  | infinite field numeral =>
    fieldText field
      (utf8 "strconv.ParseFloat: parsing " ++ Quoted.encode numeral ++ utf8 ": value out of range")
  | badMoment field written problem =>
    fieldText field (utf8 "parsing time " ++ Quoted.encode written ++ utf8 ": " ++ problem.text)

/-- The wording of a configuration error. -/
def ConfigError.text : ConfigError → Bytes
  | unopened error => labelled (utf8 "erro ao ler configuração") error.text
  | unread error => labelled (utf8 "configuração inválida") error.text
  | notDocument file error =>
    labelled (utf8 "configuração inválida") (file ++ utf8 ", " ++ error.text)
  | badField file line problem =>
    labelled (utf8 "configuração inválida")
      (file ++ utf8 ", line " ++ Numeral.ofNat line ++ utf8 ": " ++ problem.text)
  | indentOutOfRange indent =>
    labelled (utf8 "configuração inválida")
      (utf8 "Indentacao deve estar entre 0 e 16, recebeu " ++ Numeral.ofInt indent)
  | notIdentifier className =>
    labelled (utf8 "configuração inválida")
      (utf8 "Classe " ++ className.cited ++ utf8 " não é um identificador Java")

namespace Config

/-- The settings that hold when nothing else is said. -/
def default : Config := ⟨[], [], 4, false⟩

/-- The first rule that a configuration breaks. -/
def problem? (config : Config) : Option ConfigError :=
  if config.indent < 0 ∨ 16 < config.indent then some (.indentOutOfRange config.indent)
  else if config.className ≠ [] ∧ !Java.isIdentifier config.className then
    some (.notIdentifier config.className)
  else none

/-- The configuration, if it breaks no rule. -/
def validate (config : Config) : Except ConfigError Config :=
  match config.problem? with
  | some error => .error error
  | none => .ok config

/-- A boolean as a file gives it. -/
def boolText (value : Bool) : Bytes :=
  if value then utf8 "true" else utf8 "false"

/-- A setting on a line of its own. -/
def fieldLine (name : String) (value : Bytes) : Bytes :=
  utf8 name ++ utf8 " = " ++ value ++ utf8 "\n"

/-- The configuration as the text of a file; an empty name or directory is left out. -/
def render (config : Config) : Bytes :=
  (if config.className = [] then [] else fieldLine "Classe" (Quoted.encode config.className)) ++
    (if config.output = [] then [] else fieldLine "Saida" (Quoted.encode config.output)) ++
    fieldLine "Indentacao" (Numeral.ofInt config.indent) ++
    fieldLine "Debug" (boolText config.debug)

end Config

end VarPrint
