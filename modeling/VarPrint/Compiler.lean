/-
# The compiler

What a configured compiler does with sources and files, and what it logs on the way. Compiling a
file reads it, compiles it, and only then touches the output: the directory is made and the class
written into it under its own name.
-/

import VarPrint.Compile
import VarPrint.Config.Basic
import VarPrint.Files.Task
import VarPrint.Java.ClassFile
import VarPrint.Log

namespace VarPrint

/-- Why a file is not compiled. -/
inductive CompileError where
  | fault (fault : Fault)
  | unreadable (error : FileError)
  | noDirectory (error : FileError)
  | unwritable (error : FileError)
deriving DecidableEq, Repr

/-- The wording of an error. -/
def CompileError.text : CompileError → Bytes
  | fault cause => cause.text
  | unreadable error => labelled (utf8 "erro ao ler arquivo") error.text
  | noDirectory error => labelled (utf8 "erro ao criar diretório") error.text
  | unwritable error => labelled (utf8 "erro ao escrever arquivo") error.text

/-- A result and what was logged on the way to it. -/
structure Logged (α : Type) where
  messages : List Log.Message
  result : α

namespace Compiler

/-- The content of a source file. -/
def readSource (path : Bytes) : FileTask (Except CompileError Bytes) := do
  return (← FileTask.content path).mapError CompileError.unreadable

/-- Writes a file after making the directory that it is in. -/
def writeResult (path content : Bytes) : FileTask (Except CompileError Unit) :=
  .makeDirectories (Path.parent path) fun
    | .error error => .done (.error (.noDirectory error))
    | .ok () => .write path content fun answer => .done (answer.mapError .unwritable)

/-- What is logged about tokens. -/
def tokensMessage (tokens : List Token) : Log.Message :=
  .formatted (utf8 "%d tokens encontrados\n") [.number tokens.length]

/-- The tokens of a source. -/
def tokenizeLogged (source : Bytes) : Logged (List Token) :=
  let tokens := tokenize source
  ⟨[tokensMessage tokens], tokens⟩

/-- The analysis of a source; the types are logged if it succeeds. -/
def analyzeLogged (source : Bytes) : Logged (Except Fault Analysis) :=
  let tokensMessages := (tokenizeLogged source).messages
  match analyze source with
  | .error fault => ⟨tokensMessages, .error fault⟩
  | .ok analysis =>
    ⟨tokensMessages ++ [.types (utf8 "tipos inferidos") analysis.scope.types], .ok analysis⟩

/-- What is logged when a source is compiled. -/
def compileMessages (source : Bytes) : List Log.Message :=
  if source.trimSpace = [] then [.line [.text (utf8 "código fonte vazio")]]
  else
    let analysis := analyzeLogged source
    analysis.messages ++ match analysis.result with
      | .error _ => []
      | .ok analysis =>
        [.formatted (utf8 "gerando %s para %d comandos\n")
          [.text (utf8 "Java"), .number analysis.program.length]]

/-- The Java statements of a source. -/
def compileLogged (source : Bytes) : Logged (Except Fault Bytes) :=
  ⟨compileMessages source, compile source⟩

/-- The Java class of a source. -/
def compileClass (config : Config) (source name : Bytes) : Except Fault Bytes := do
  Java.wrapClass config.indent name (← compile source)

/-- The name of the class for an input file: the configured one, or one made from its path. -/
def className (config : Config) (input : Bytes) : Bytes :=
  if config.className ≠ [] then config.className else Java.className (Path.baseStem input)

/-- Where the class of an input file goes. -/
def outputPath (config : Config) (input directory : Bytes) : Bytes :=
  Path.join directory (className config input ++ utf8 ".java")

/-- Compiles a file into a directory; the result is the path of the class. -/
def compileFile (config : Config) (input directory : Bytes) :
    FileTask (Logged (Except CompileError Bytes)) := do
  match ← readSource input with
  | .error error => return ⟨[], .error error⟩
  | .ok source =>
    let messages := compileMessages source
    match compileClass config source (className config input) with
    | .error fault => return ⟨messages, .error (.fault fault)⟩
    | .ok code =>
      let path := outputPath config input directory
      match ← writeResult path code with
      | .error error => return ⟨messages, .error error⟩
      | .ok () =>
        let written := .formatted (utf8 "código Java escrito em '%s'\n") [.text path]
        return ⟨messages ++ [written], .ok path⟩

end Compiler

end VarPrint
