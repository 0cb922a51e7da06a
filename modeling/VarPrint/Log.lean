/-
# The log

Messages for the log: formatted texts, lines of operands, and tables of variables with their types.
A logger writes each message behind a label, or nothing at all if it is not active.
-/

import VarPrint.Program.Basic
import VarPrint.Text.Quoted

namespace VarPrint.Log

/-- An operand of a message. -/
inductive Operand where
  | number (value : Int)
  | text (value : Bytes)
deriving DecidableEq, Repr

/-- An operand as it is shown. -/
def Operand.render : Operand → Bytes
  | number value => Numeral.ofInt value
  | text value => value

/-- A message for the log. -/
inductive Message where
  /-- A text in which each verb is replaced by the next operand. -/
  | formatted (format : Bytes) (operands : List Operand)
  /-- Operands with a space between them on a line of their own. -/
  | line (operands : List Operand)
  /-- Variables with their types under a title. -/
  | types (title : Bytes) (types : List (Bytes × Ty))
deriving DecidableEq, Repr

/-- Replaces `%d` and `%s` by operands, in order, and `%%` by a percent sign. -/
def format : Bytes → List Operand → Bytes
  | [], _ => []
  | [b], _ => [b]
  | b :: verb :: rest, operands =>
    if b = 0x25 then
      if verb = 0x25 then b :: format rest operands
      else match operands with
        | operand :: operands => operand.render ++ format rest operands
        | [] => format rest []
    else b :: format (verb :: rest) operands

/-- A length in front of what has it; nothing is said of an empty one. -/
def lengthText (length : Nat) : Bytes :=
  if length = 0 then [] else utf8 "(len=" ++ Numeral.ofNat length ++ utf8 ") "

/-- A variable with its type; the length of its name is in bytes. -/
def typeEntry (entry : Bytes × Ty) : Bytes :=
  utf8 " (string) " ++ lengthText entry.1.length ++ Quoted.encode entry.1 ++
    utf8 ": (parser.Tipo) " ++ entry.2.name

/-- A table of variables, an entry to a line, in the order of the lines. -/
def typeTable (types : List (Bytes × Ty)) : Bytes :=
  let entries := (types.map typeEntry).mergeSort Bytes.le
  let body := if types = [] then [] else List.intercalate (utf8 ",\n") entries ++ utf8 "\n"
  utf8 "(map[string]parser.Tipo) " ++ lengthText types.length ++ utf8 "\x7b\n" ++
    body ++ utf8 "\x7d\n"

/-- A message without its label. -/
def Message.render : Message → Bytes
  | formatted text operands => format text operands
  | line operands => List.intercalate (utf8 " ") (operands.map Operand.render) ++ utf8 "\n"
  | types title entries => title ++ utf8 ":\n" ++ typeTable entries

end VarPrint.Log

namespace VarPrint

/-- Whether messages are written, and whether their label is coloured. -/
structure Logger where
  isActive : Bool
  isColoured : Bool
deriving DecidableEq, Repr

namespace Logger

/-- What stands in front of every message. -/
def label (logger : Logger) : Bytes :=
  if logger.isColoured then utf8 "\x1b[36m[debug] \x1b[0m" else utf8 "[debug] "

/-- What the logger writes for a message. -/
def write (logger : Logger) (message : Log.Message) : Bytes :=
  if logger.isActive then logger.label ++ message.render else []

/-- What the logger writes for messages in order. -/
def writeAll (logger : Logger) (messages : List Log.Message) : Bytes :=
  messages.flatMap logger.write

end Logger

end VarPrint
