/-
# Java classes

Statements are wrapped in the main method of a public class. The wrapper only indents: it puts the
same margin in front of every line of the body. The name of the class is made from the letters and
digits of a file name.
-/

import VarPrint.Problem

namespace VarPrint.Java

/-- Puts a margin after every line feed that does not end the text. -/
def indentAfterLines (margin : Bytes) : Bytes → Bytes
  | [] => []
  | b :: rest =>
    if b = Byte.lineFeed ∧ rest ≠ [] then b :: (margin ++ indentAfterLines margin rest)
    else b :: indentAfterLines margin rest

/-- Puts a margin in front of every line of a text; an empty text has no line. -/
def indentLines (margin body : Bytes) : Bytes :=
  if body = [] then [] else margin ++ indentAfterLines margin body

/-- What stands before the body of a class. -/
def classHeader (indent : Nat) (name : Bytes) : Bytes :=
  utf8 "public class " ++ name ++ utf8 " \x7b\n" ++ Bytes.spaces indent ++
    utf8 "public static void main(String[] _args) \x7b\n"

/-- What stands after the body of a class. -/
def classFooter (indent : Nat) : Bytes :=
  Bytes.spaces indent ++ utf8 "\x7d\n\x7d\n"

/-- A class whose main method has the given body, two levels deep. -/
def classText (indent : Nat) (name body : Bytes) : Bytes :=
  classHeader indent name ++ indentLines (Bytes.spaces indent ++ Bytes.spaces indent) body ++
    classFooter indent

/-- A class for an indentation that may turn out negative, for which there is none. -/
def wrapClass (indent : Int) (name body : Bytes) : Except Fault Bytes :=
  match indent with
  | .ofNat indent => .ok (classText indent name body)
  | .negSucc _ => .error .negativeIndent

/-- The letters and digits of a text, the first of each run in upper case. The flag says whether a
run may begin here. -/
def joinRuns : (atStart : Bool) → Bytes → Bytes
  | _, [] => []
  | atStart, b :: rest =>
    if Byte.isAlphanumeric b then
      (if atStart then Byte.toUpper b else b) :: joinRuns false rest
    else joinRuns true rest

/-- The class name made from any text: its runs of letters and digits, `Main` if there is none, with
a low line before a leading digit. -/
def className (name : Bytes) : Bytes :=
  match joinRuns true name with
  | [] => utf8 "Main"
  | b :: rest => if Byte.isDigit b then Byte.underscore :: b :: rest else b :: rest

end VarPrint.Java
