/-
# Paths

Paths are byte strings with slashes between their parts. Nothing here looks at any file: the
functions take a path apart, put two together, and bring a path into its shortest form.
-/

import VarPrint.Text.Bytes

namespace VarPrint.Path

/-- The part after the last slash. -/
def afterLastSlash (path : Bytes) : Bytes :=
  (path.reverse.takeWhile (· ≠ Byte.slash)).reverse

/-- The part up to and including the last slash. -/
def throughLastSlash (path : Bytes) : Bytes :=
  (path.reverse.dropWhile (· ≠ Byte.slash)).reverse

/-- The last element of a path. Trailing slashes do not count; an empty path is `.` and a path of
slashes alone is `/`. -/
def base (path : Bytes) : Bytes :=
  if path = [] then utf8 "."
  else
    let trimmed := (path.reverse.dropWhile (· = Byte.slash)).reverse
    if trimmed = [] then utf8 "/" else afterLastSlash trimmed

/-- A name without its extension, the part from its last point on. -/
def stem (name : Bytes) : Bytes :=
  let last := afterLastSlash name
  if last.contains Byte.dot then
    ((name.reverse.dropWhile (· ≠ Byte.dot)).drop 1).reverse
  else name

/-- The last element of a path without its extension. -/
def baseStem (path : Bytes) : Bytes :=
  stem (base path)

/-- One more part behind resolved parts, which are kept in reverse. A parent part cancels the part
before it, is dropped at the root, and is kept where there is nothing to cancel. -/
def resolvePart (rooted : Bool) (resolved : List Bytes) (part : Bytes) : List Bytes :=
  if part = [] ∨ part = utf8 "." then resolved
  else if part = utf8 ".." then
    match resolved with
    | [] => if rooted then [] else [part]
    | last :: earlier => if last = utf8 ".." then part :: resolved else earlier
  else part :: resolved

/-- The shortest path that names the same place, without looking at any file. -/
def clean (path : Bytes) : Bytes :=
  let rooted := path.head? = some Byte.slash
  let parts := (List.splitOn Byte.slash path).foldl (resolvePart rooted) []
  let joined := List.intercalate (utf8 "/") parts.reverse
  if rooted then Byte.slash :: joined
  else if joined = [] then utf8 "." else joined

/-- A name in a directory; an empty directory adds nothing. -/
def join (directory name : Bytes) : Bytes :=
  if directory = [] then (if name = [] then [] else clean name)
  else clean (directory ++ utf8 "/" ++ name)

/-- The directory that a path is in. -/
def parent (path : Bytes) : Bytes :=
  clean (throughLastSlash path)

end VarPrint.Path
