/-
# Names in Java

A variable keeps its name unless that is reserved, in which case a low line follows it. The names of
two variables may therefore meet, which the scope check rules out.
-/

import VarPrint.Program.Basic

namespace VarPrint.Java

/-- The keywords and literals of Java, and the class that printing uses. -/
def reserved : List Bytes :=
  ["abstract", "assert", "boolean", "break", "byte", "case", "catch", "char", "class", "const",
    "continue", "default", "do", "double", "else", "enum", "extends", "final", "finally", "float",
    "for", "goto", "if", "implements", "import", "instanceof", "int", "interface", "long", "native",
    "new", "package", "private", "protected", "public", "return", "short", "static", "strictfp",
    "super", "switch", "synchronized", "this", "throw", "throws", "transient", "try", "void",
    "volatile", "while", "true", "false", "null", "System"].map utf8

/-- The Java name of a variable. -/
def variableName (name : Bytes) : Bytes :=
  if name ∈ reserved then name ++ utf8 "_" else name

/-- The Java type of a variable. -/
def typeName : Ty → Bytes
  | .integer => utf8 "int"
  | .long => utf8 "long"
  | .decimal => utf8 "double"
  | .text => utf8 "String"
  | .unknown => utf8 "var"

/-- The first byte of an identifier: a letter, a low line or a dollar sign. -/
def isIdentifierStart (b : UInt8) : Bool :=
  Byte.isLetter b || b == Byte.underscore || b == 0x24

/-- A later byte of an identifier. -/
def isIdentifierPart (b : UInt8) : Bool :=
  isIdentifierStart b || Byte.isDigit b

/-- An identifier in ASCII. -/
def isIdentifier : Bytes → Bool
  | [] => false
  | b :: rest => isIdentifierStart b && rest.all isIdentifierPart

end VarPrint.Java
