/-
# File trees

A file tree is what a program sees below its current directory: files with their contents and
directories, each at a location. A path is walked part by part, and every part but the last must
lead to a directory. Locations above the current directory and below the root of the system are kept
apart from it; nothing is known to be there at first. How long a name may be belongs to the tree.
-/

import VarPrint.Files.Path
import VarPrint.Number.Numeral

namespace VarPrint

/-- What is done with a path when an error comes up. -/
inductive FileOperation where
  | opening
  | reading
  | makingDirectory
deriving DecidableEq, Repr

/-- Why an operation on a path fails. -/
inductive FileCause where
  | notFound
  | notDirectory
  | isDirectory
  | nameTooLong
  | denied
  | invalidArgument
deriving DecidableEq, Repr

/-- A failed operation on a path. -/
structure FileError where
  operation : FileOperation
  path : Bytes
  cause : FileCause
deriving DecidableEq, Repr

/-- The name of an operation. -/
def FileOperation.name : FileOperation → Bytes
  | opening => utf8 "open"
  | reading => utf8 "read"
  | makingDirectory => utf8 "mkdir"

/-- The wording of a cause. -/
def FileCause.text : FileCause → Bytes
  | notFound => utf8 "no such file or directory"
  | notDirectory => utf8 "not a directory"
  | isDirectory => utf8 "is a directory"
  | nameTooLong => utf8 "file name too long"
  | denied => utf8 "permission denied"
  | invalidArgument => utf8 "invalid argument"

/-- The operation, the path and the cause. -/
def FileError.text (error : FileError) : Bytes :=
  error.operation.name ++ utf8 " " ++ error.path ++ utf8 ": " ++ error.cause.text

/-- The parts from the current directory to a place. A place above it begins with parent parts, and
one below the root of the system with a slash. -/
abbrev Location := List Bytes

/-- What stands at a location. -/
inductive FileEntry where
  | file (content : Bytes)
  | directory
deriving DecidableEq, Repr

/-- How long names may be; where there is no limit, they may have any length. -/
structure NameLimits where
  /-- The longest part that a path may have. -/
  part? : Option Nat
  /-- The length from which on a path is too long. -/
  path? : Option Nat
deriving DecidableEq, Repr

namespace NameLimits

/-- The limits of most systems. -/
def usual : NameLimits := ⟨some 255, some 4096⟩

/-- Names of any length. -/
def unlimited : NameLimits := ⟨none, none⟩

/-- The part of a path is not too long. -/
def allowsPart (limits : NameLimits) (part : Bytes) : Bool :=
  limits.part?.all (part.length ≤ ·)

/-- The path is not too long as a whole. -/
def allowsPath (limits : NameLimits) (path : Bytes) : Bool :=
  limits.path?.all (path.length < ·)

end NameLimits

/-- The files and directories at their locations. -/
structure FileTree where
  entries : List (Location × FileEntry)
  limits : NameLimits
deriving DecidableEq, Repr

namespace Location

/-- The root of the system. -/
def root : Location := [utf8 "/"]

/-- The current directory, a directory above it, or the root: always a directory. -/
def isFixed (location : Location) : Bool :=
  location == root || location.all (· == utf8 "..")

/-- The location is below the current directory. -/
def isInside (location : Location) : Bool :=
  location.head? ≠ some (utf8 "..") && location.head? ≠ some (utf8 "/")

/-- The directory that a location is in; the root is in itself. -/
def parent (location : Location) : Location :=
  if location == root then root
  else if location.all (· == utf8 "..") then location ++ [utf8 ".."]
  else location.dropLast

/-- A location as a path. -/
def path (location : Location) : Bytes :=
  List.intercalate (utf8 "/") location

end Location

namespace FileTree

/-- Nothing is there. -/
def empty : FileTree := ⟨[], .usual⟩

/-- What stands at a location. -/
def get? (tree : FileTree) (location : Location) : Option FileEntry :=
  if location.isFixed then some .directory else tree.entries.lookup location

/-- The tree with an entry put at a location, in place of one that stood there. -/
def put (tree : FileTree) (location : Location) (entry : FileEntry) : FileTree :=
  if tree.entries.any fun old => old.1 == location then
    let entries := tree.entries.map fun old => if old.1 = location then (location, entry) else old
    { tree with entries }
  else { tree with entries := tree.entries ++ [(location, entry)] }

/-- One part further from a location, which has to be a directory. -/
def step (tree : FileTree) (location : Location) (part : Bytes) : Except FileCause Location :=
  match tree.get? location with
  | none => .error .notFound
  | some (.file _) => .error .notDirectory
  | some .directory =>
    if part = [] ∨ part = utf8 "." then .ok location
    else if part = utf8 ".." then .ok location.parent
    else if tree.limits.allowsPart part then .ok (location ++ [part])
    else .error .nameTooLong

/-- The location that a path leads to; nothing need be there. -/
def resolve (tree : FileTree) (path : Bytes) : Except FileCause Location :=
  if path.contains 0 then .error .invalidArgument
  else if path = [] then .error .notFound
  else if tree.limits.allowsPath path then
    let start := if path.head? = some Byte.slash then Location.root else []
    (List.splitOn Byte.slash path).foldlM tree.step start
  else .error .nameTooLong

/-- Something stands at a path. -/
def isPresent (tree : FileTree) (path : Bytes) : Bool :=
  match tree.resolve path with
  | .ok location => (tree.get? location).isSome
  | .error _ => false

/-- The content of the file at a path. -/
def read (tree : FileTree) (path : Bytes) : Except FileError Bytes :=
  match tree.resolve path with
  | .error cause => .error ⟨.opening, path, cause⟩
  | .ok location =>
    match tree.get? location with
    | none => .error ⟨.opening, path, .notFound⟩
    | some .directory => .error ⟨.reading, path, .isDirectory⟩
    | some (.file content) => .ok content

/-- Writes a file at a path, whose directory has to be there. -/
def write (tree : FileTree) (path content : Bytes) : Except FileError Unit × FileTree :=
  match tree.resolve path with
  | .error cause => (.error ⟨.opening, path, cause⟩, tree)
  | .ok location =>
    match tree.get? location with
    | some .directory => (.error ⟨.opening, path, .isDirectory⟩, tree)
    | _ => (.ok (), tree.put location (.file content))

/-- A path and the paths of the directories on the way to it, the shortest first. -/
def pathPrefixes (path : Bytes) : List Bytes :=
  (List.range path.length).filterMap (fun index =>
    if 0 < index ∧ path[index]? = some Byte.slash then some (path.take index) else none) ++ [path]

/-- Makes each of some directories that is not there yet, up to the first failure. -/
def makeEach : List Bytes → FileTree → Except FileError Unit × FileTree
  | [], tree => (.ok (), tree)
  | path :: rest, tree =>
    match tree.resolve path with
    | .error cause => (.error ⟨.makingDirectory, path, cause⟩, tree)
    | .ok location =>
      match tree.get? location with
      | some .directory => makeEach rest tree
      | some (.file _) => (.error ⟨.makingDirectory, path, .notDirectory⟩, tree)
      | none => makeEach rest (tree.put location .directory)

/-- Makes the directory at a path and every directory on the way that is missing. -/
def makeDirectories (tree : FileTree) (path : Bytes) : Except FileError Unit × FileTree :=
  makeEach (pathPrefixes path) tree

/-- Everything below the current directory: files with their contents, and directories, with a slash
after their path and no content. -/
def listing (tree : FileTree) : List (Bytes × Bytes) :=
  (tree.entries.filter fun entry => Location.isInside entry.1).map fun
    | (location, .file content) => (location.path, content)
    | (location, .directory) => (location.path ++ utf8 "/", [])

end FileTree

end VarPrint
