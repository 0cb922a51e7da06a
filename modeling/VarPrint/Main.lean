/-
# The program

Runs a command line on the files of the machine: every request of the task is answered by the
operating system, and the outcome is written to the two streams.
-/

import VarPrint.CommandLine.Run

namespace VarPrint.Machine

/-- The cause of a failure, by the number that the system gives it; some calls give it with a minus
sign. -/
def causeOfCode (code : UInt32) : FileCause :=
  match if code < 0x80000000 then code else 0 - code with
  | 2 => .notFound
  | 13 => .denied
  | 20 => .notDirectory
  | 21 => .isDirectory
  | 36 => .nameTooLong
  | _ => .invalidArgument

/-- The cause of a failed request. -/
def causeOf : IO.Error → FileCause
  | .noFileOrDirectory _ code _ => causeOfCode code
  | .permissionDenied _ code _ => causeOfCode code
  | .inappropriateType _ code _ => causeOfCode code
  | .invalidArgument _ code _ => causeOfCode code
  | .resourceExhausted _ code _ => causeOfCode code
  | .otherError code _ => causeOfCode code
  | _ => .invalidArgument

/-- Does something with a path as text; a path that is no text names nothing. -/
def withPath {α : Type} (operation : FileOperation) (path : Bytes) (action : String → IO α) :
    IO (Except FileError α) := do
  match String.fromUTF8? path.toByteArray with
  | none => return .error ⟨operation, path, .notFound⟩
  | some text =>
    try return .ok (← action text)
    catch error => return .error ⟨operation, path, causeOf error⟩

/-- The content of a file. A directory can be opened and not read. -/
def read (path : Bytes) : IO (Except FileError Bytes) := do
  match ← withPath .opening path fun text => IO.FS.readBinFile text with
  | .ok content => return .ok content.toList
  | .error error =>
    if error.cause = .isDirectory then return .error { error with operation := .reading }
    else return .error error

/-- Writes a file. -/
def write (path content : Bytes) : IO (Except FileError Unit) :=
  withPath .opening path fun text => IO.FS.writeBinFile text content.toByteArray

/-- Something stands at a path. -/
def isPresent (path : Bytes) : IO Bool := do
  match ← withPath .opening path fun text => (System.mkFilePath [text]).pathExists with
  | .ok answer => return answer
  | .error _ => return false

/-- Makes a directory if it is not there. -/
def makeDirectory (path : Bytes) : IO (Except FileError Unit) :=
  withPath .makingDirectory path fun text => do
    if ← (System.mkFilePath [text]).isDir then return
    IO.FS.createDir text

/-- Makes each of some directories, up to the first failure. -/
def makeEach : List Bytes → IO (Except FileError Unit)
  | [] => return .ok ()
  | path :: rest => do
    match ← makeDirectory path with
    | .ok () => makeEach rest
    | .error error =>
      let isFile := error.cause = .invalidArgument ∧ (← isPresent path)
      return .error (if isFile then { error with cause := .notDirectory } else error)

/-- Runs a task on the files of the machine. -/
def run {α : Type} : FileTask α → IO α
  | .done value => return value
  | .look path next => do run (next (← isPresent path))
  | .read path next => do run (next (← read path))
  | .makeDirectories path next => do run (next (← makeEach (FileTree.pathPrefixes path)))
  | .write path content next => do run (next (← write path content))

end VarPrint.Machine

/-- Runs the program on its arguments and ends with its status. -/
def main (arguments : List String) : IO UInt32 := do
  let outcome ← VarPrint.Machine.run (VarPrint.CommandLine.run (arguments.map VarPrint.utf8))
  (← IO.getStdout).write outcome.output.toByteArray
  (← IO.getStderr).write outcome.errors.toByteArray
  return outcome.status.toUInt32
