/-
# Commands and help pages

The commands of the program with their flags, and the help pages that are made from them.
-/

import VarPrint.CommandLine.Flags

namespace VarPrint.CommandLine

/-- The commands. -/
inductive CommandName where
  | compile
  | tokens
  | tree
  | config
  | help
deriving DecidableEq, Repr

/-- The name of the program. -/
def programName : Bytes := utf8 "balbismo"

/-- What the program is for. -/
def programUsage : Bytes := utf8 "Compilador Balbismo para Java"

/-- The version of the program. -/
def version : Bytes := utf8 "0.1.0"

/-- The configuration file that is used if it is there. -/
def defaultConfigFile : Bytes := utf8 "balbismo.toml"

/-- The flag for the configuration file. -/
def configFlag : Flag :=
  ⟨[utf8 "config"], .text,
    utf8 "Arquivo de configuração TOML (padrão: " ++ defaultConfigFile ++ utf8 " se existir)"⟩

/-- The flag for the output directory. -/
def outputFlag : Flag :=
  ⟨[utf8 "saida", utf8 "o"], .text,
    utf8 "Diretório onde escrever <Classe>.java (padrão: saída padrão)"⟩

/-- The flag for the name of the class. -/
def classFlag : Flag :=
  ⟨[utf8 "classe"], .text, utf8 "Nome da classe Java gerada (padrão: nome do arquivo)"⟩

/-- The switch that leaves the class out. -/
def bareFlag : Flag :=
  ⟨[utf8 "sem-classe"], .switch, utf8 "Emite apenas os comandos, sem a classe em volta"⟩

/-- The switch for the log. -/
def debugFlag : Flag :=
  ⟨[utf8 "debug"], .switch, utf8 "Ativar mensagens de debug"⟩

/-- The switch for help. -/
def helpFlag : Flag :=
  ⟨[utf8 "help", utf8 "h"], .switch, utf8 "show help"⟩

/-- The switch for the version. -/
def versionFlag : Flag :=
  ⟨[utf8 "version", utf8 "v"], .switch, utf8 "print the version"⟩

namespace CommandName

/-- All commands in the order in which they are listed. -/
def all : List CommandName := [compile, tokens, tree, config, help]

/-- The names of a command. -/
def names : CommandName → List Bytes
  | compile => [utf8 "compilar"]
  | tokens => [utf8 "tokens"]
  | tree => [utf8 "arvore"]
  | config => [utf8 "config"]
  | help => [utf8 "help", utf8 "h"]

/-- The command of a name. -/
def ofName? (name : Bytes) : Option CommandName :=
  all.find? fun command => command.names.contains name

/-- What a command is for. -/
def usage : CommandName → Bytes
  | compile => utf8 "Traduz um programa Balbismo para Java"
  | tokens => utf8 "Mostra os tokens encontrados pelo analisador léxico"
  | tree => utf8 "Mostra a árvore sintática do programa"
  | config => utf8 "Mostra a configuração efetiva em TOML"
  | help => utf8 "Shows a list of commands or help for one command"

/-- The arguments of a command. -/
def argumentUsage : CommandName → Bytes
  | compile | tokens | tree => utf8 "<arquivo>"
  | config => utf8 "[arguments...]"
  | help => utf8 "[command]"

/-- The flags of a command, apart from help. -/
def flags : CommandName → List Flag
  | compile => [configFlag, outputFlag, classFlag, bareFlag, debugFlag]
  | config => [configFlag, outputFlag, classFlag, debugFlag]
  | tokens | tree | help => []

/-- The name of a command on its help page, which the help command itself lacks. -/
def pageName : CommandName → Bytes
  | help => []
  | command => programName ++ utf8 " " ++ (command.names.head?.getD [])

end CommandName

/-- The flags in front of a command. -/
def globalFlags : List Flag :=
  CommandName.compile.flags ++ [helpFlag, versionFlag]

/-- Two columns, the second two spaces after the widest text of the first. -/
def twoColumns (rows : List (Bytes × Bytes)) : List Bytes :=
  let width := rows.foldl (fun width row => max width row.1.length) 0
  rows.map fun row => row.1 ++ Bytes.spaces (width - row.1.length + 2) ++ row.2

/-- A name of a flag as help shows it. -/
def flagSpelling (kind : FlagKind) (name : Bytes) : Bytes :=
  (if name.length = 1 then utf8 "-" else utf8 "--") ++ name ++
    (if kind = .text then utf8 " value" else [])

/-- The lines that help has for flags. -/
def flagLines (flags : List Flag) : List Bytes :=
  twoColumns <| flags.map fun flag =>
    (List.intercalate (utf8 ", ") (flag.names.map (flagSpelling flag.kind)), flag.usage)

/-- The lines that help has for commands. -/
def commandLines : List Bytes :=
  twoColumns <| CommandName.all.map fun command =>
    (List.intercalate (utf8 ", ") command.names, command.usage)

/-- The beginning of every page: a name and what it is for. -/
def pageHead (name usage : Bytes) : Bytes :=
  utf8 "NAME:\n   " ++ name ++ utf8 " - " ++ usage ++ utf8 "\n\nUSAGE:\n   "

/-- Flags at the end of the page of a command. -/
def optionsSection (flags : List Flag) : Bytes :=
  utf8 "OPTIONS:\n   " ++ (flagLines flags).flatMap (· ++ utf8 "\n   ") ++ utf8 "\n"

/-- The help page of the program. -/
def programPage : Bytes :=
  pageHead programName programUsage ++ programName ++
    utf8 " [global options] command [command options] [arguments...]\n\nVERSION:\n   " ++ version ++
    utf8 "\n\nCOMMANDS:\n" ++
    commandLines.flatMap (fun line => utf8 "     " ++ line ++ utf8 "\n") ++
    utf8 "\nGLOBAL OPTIONS:\n" ++
    (flagLines globalFlags).flatMap (fun line => utf8 "   " ++ line ++ utf8 "\n")

/-- The help page of a command. -/
def commandPage (command : CommandName) : Bytes :=
  let options := if command.flags = [] then [] else utf8 " [command options]"
  pageHead command.pageName command.usage ++ command.pageName ++ options ++ utf8 " " ++
    command.argumentUsage ++ utf8 "\n" ++
    (if command.flags = [] then [] else utf8 "\n" ++ optionsSection command.flags)

/-- The help page for an empty topic: the commands and flags of the program. -/
def emptyTopicPage : Bytes :=
  pageHead programName programUsage ++ programName ++
    utf8 " command [command options] [arguments...]\n\nCOMMANDS:\n" ++
    commandLines.flatMap (fun line => utf8 "     " ++ line ++ utf8 "\n") ++ utf8 "\n" ++
    optionsSection globalFlags

end VarPrint.CommandLine
