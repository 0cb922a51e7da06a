/-
# Running a command line

From the arguments of a run to its output, its errors and its status, as a task on files. Flags
before the name of a command are read and, if a command follows, play no further part. Settings from
flags go over those of the configuration file, which go over the defaults.
-/

import VarPrint.CommandLine.Help
import VarPrint.Compiler
import VarPrint.Config.Load
import VarPrint.Program.Outline
import VarPrint.Token.Table

namespace VarPrint.CommandLine

/-- What a run writes to its two streams, and the status that it ends with. -/
structure Outcome where
  output : Bytes
  errors : Bytes
  status : UInt8
deriving DecidableEq, Repr

namespace Outcome

/-- Output alone. -/
def success (output : Bytes) : Outcome := ⟨output, [], 0⟩

/-- Output so far and an error. -/
def failure (output message : Bytes) : Outcome :=
  ⟨output, utf8 "Erro: " ++ message ++ utf8 "\n", 1⟩

/-- The same outcome with a log in front of its errors. -/
def logged (log : Bytes) (outcome : Outcome) : Outcome :=
  { outcome with errors := log ++ outcome.errors }

end Outcome

/-- The file that the settings of a run come from: the one that is named, or the usual one if it is
there. -/
def configFile? (given : Given) : FileTask (Option Bytes) := do
  if given.text configFlag ≠ [] then return some (given.text configFlag)
  else if ← FileTask.isPresent defaultConfigFile then return some defaultConfigFile
  else return none

/-- A configuration with the flags that are not empty. -/
def withFlags (given : Given) (config : Config) : Config :=
  let output := given.text outputFlag
  let className := given.text classFlag
  { className := if className ≠ [] then className else config.className
    output := if output ≠ [] then output else config.output
    indent := config.indent
    debug := given.isOn debugFlag || config.debug }

/-- The settings of a run: defaults, then the file, then the flags. -/
def loadConfig (given : Given) : FileTask (Except ConfigError Config) := do
  let loaded ← match ← configFile? given with
    | some file => Config.load file Config.default
    | none => pure (.ok Config.default)
  return do (withFlags given (← loaded)).validate

/-- The message when no input file is given. -/
def missingInput : Bytes := utf8 "arquivo de entrada requerido"

/-- What is printed after a class has been written. -/
def writtenLine (path : Bytes) : Bytes :=
  utf8 "Código Java escrito em " ++ path.cited ++ utf8 "\n"

/-- Compiles an input file to a directory or to the output. -/
def compileInput (given : Given) (config : Config) (input : Bytes) : FileTask Outcome := do
  let logger : Logger := ⟨config.debug, false⟩
  if config.output ≠ [] then
    let logged ← Compiler.compileFile config input config.output
    return .logged (logger.writeAll logged.messages) <|
      match logged.result with
      | .ok path => .success (writtenLine path)
      | .error error => .failure [] error.text
  else
    match ← Compiler.readSource input with
    | .error error => return .failure [] error.text
    | .ok source =>
      let result :=
        if given.isOn bareFlag then compile source
        else Compiler.compileClass config source (Compiler.className config input)
      return .logged (logger.writeAll (Compiler.compileMessages source)) <|
        match result with
        | .ok code => .success code
        | .error fault => .failure [] fault.text

/-- The command that compiles. -/
def runCompile (given : Given) : FileTask Outcome :=
  match given.arguments with
  | [] => return .failure [] missingInput
  | input :: _ => do
    match ← loadConfig given with
    | .error error => return .failure [] error.text
    | .ok config => compileInput given config input

/-- A command that shows something of an input file. -/
def runShow (given : Given) (shown : Bytes → Except Fault Bytes) : FileTask Outcome :=
  match given.arguments with
  | [] => return .failure [] missingInput
  | input :: _ => do
    match ← Compiler.readSource input with
    | .error error => return .failure [] error.text
    | .ok source =>
      match shown source with
      | .ok output => return .success output
      | .error fault => return .failure [] fault.text

/-- The command that shows the settings. -/
def runConfig (given : Given) : FileTask Outcome := do
  match ← loadConfig given with
  | .ok config => return .success config.render
  | .error error => return .failure [] error.text

/-- The command that shows help: for the topic of its first argument, or for the program. -/
def runHelp (given : Given) : Outcome :=
  match given.arguments with
  | [] => .success programPage
  | topic :: _ =>
    if topic = [] then .success emptyTopicPage
    else match CommandName.ofName? topic with
      | some command => .success (commandPage command)
      | none => ⟨[], utf8 "No help topic for " ++ topic.cited ++ utf8 "\n", 3⟩

/-- What a command does once its flags are read. -/
def act (command : CommandName) (given : Given) : FileTask Outcome :=
  match command with
  | .compile => runCompile given
  | .tokens => runShow given fun source => .ok (Token.table (tokenize source))
  | .tree => runShow given fun source => (analyze source).map fun analysis =>
      analysis.program.drawing
  | .config => runConfig given
  | .help => return runHelp given

/-- The output before a help page when flags cannot be read. Two forms of a flag are reported
without an introduction. -/
def usageError (introduction : String) (spacing : String) (error : FlagError) : Bytes :=
  match error with
  | .twoForms _ _ => error.text ++ utf8 spacing
  | _ => utf8 introduction ++ utf8 " " ++ error.text ++ utf8 "\n\n"

/-- What a command is given by the arguments after its name. -/
def givenTo (command : CommandName) (arguments : List Bytes) : Given :=
  parseFlags (command.flags ++ [helpFlag]) (flagsFirst arguments)

/-- Runs a command on the arguments after its name. -/
def runCommand (command : CommandName) (arguments : List Bytes) : FileTask Outcome :=
  let given := givenTo command arguments
  match given.error? with
  | some error =>
    return .failure (usageError "Incorrect Usage:" "\n\n" error ++ commandPage command) error.text
  | none =>
    if given.isOn helpFlag then return .success (commandPage command)
    else act command given

/-- Runs the program on its arguments. -/
def run (arguments : List Bytes) : FileTask Outcome :=
  let given := parseFlags globalFlags arguments
  match given.error? with
  | some error =>
    return .failure (usageError "Incorrect Usage." "\n" error ++ programPage) error.text
  | none =>
    if given.isOn helpFlag then return .success programPage
    else if given.isOn versionFlag then
      return .success (programName ++ utf8 " version " ++ version ++ utf8 "\n")
    else
      match given.arguments with
      | [] => runCompile given
      | name :: rest =>
        match CommandName.ofName? name with
        | some command => runCommand command rest
        | none => runCompile given

end VarPrint.CommandLine
