/-
# Flags

Flags on a command line begin with one or two hyphens. A text flag takes its value after an equals
sign or from the next argument, a switch only after an equals sign. Reading stops at the first
argument that is no flag, at a lone hyphen, or after a double one.
-/

import VarPrint.Text.Quoted

namespace VarPrint.CommandLine

/-- A flag takes a text or is a switch. -/
inductive FlagKind where
  | text
  | switch
deriving DecidableEq, Repr

/-- A flag: its names, the first being the main one, and what it is for. -/
structure Flag where
  names : List Bytes
  kind : FlagKind
  usage : Bytes
deriving DecidableEq, Repr

/-- What a flag was given. -/
inductive FlagValue where
  | text (value : Bytes)
  | switch (value : Bool)
deriving DecidableEq, Repr

/-- Why flags cannot be read. -/
inductive FlagError where
  /-- A name that belongs to no flag. -/
  | undefined (name : Bytes)
  /-- A text flag at the end of the line. -/
  | needsValue (name : Bytes)
  /-- A switch with a value that is no boolean. -/
  | badBoolean (name value : Bytes)
  /-- Hyphens without a name. -/
  | badForm (argument : Bytes)
  /-- Two names of one flag. -/
  | twoForms (later earlier : Bytes)
deriving DecidableEq, Repr

/-- The wording of an error. -/
def FlagError.text : FlagError → Bytes
  | undefined name => utf8 "flag provided but not defined: -" ++ name
  | needsValue name => utf8 "flag needs an argument: -" ++ name
  | badBoolean name value =>
    utf8 "invalid boolean value " ++ Quoted.encode value ++ utf8 " for -" ++ name ++
      utf8 ": parse error"
  | badForm argument => utf8 "bad flag syntax: " ++ argument
  | twoForms later earlier =>
    utf8 "Cannot use two forms of the same flag: " ++ later ++ utf8 " " ++ earlier

/-- The spellings of a boolean. -/
def readBool? (text : Bytes) : Option Bool :=
  if ["1", "t", "T", "TRUE", "true", "True"].any (utf8 · == text) then some true
  else if ["0", "f", "F", "FALSE", "false", "False"].any (utf8 · == text) then some false
  else none

/-- What an argument is, seen as a flag. -/
inductive FlagForm where
  /-- No flag; it and everything after it are arguments. -/
  | argument
  /-- The double hyphen; everything after it is an argument. -/
  | terminator
  /-- A flag with or without a value of its own. -/
  | flag (name : Bytes) (value? : Option Bytes)
  /-- Hyphens without a name. -/
  | bad
deriving DecidableEq, Repr

/-- A name and, after an equals sign that is not in front, a value. -/
def splitValue : Bytes → Bytes × Option Bytes
  | [] => ([], none)
  | first :: rest =>
    let name := rest.takeWhile (· ≠ 0x3D)
    match rest.drop name.length with
    | [] => (first :: name, none)
    | _ :: value => (first :: name, some value)

/-- The text after the hyphens of a flag. -/
def namedForm (text : Bytes) : FlagForm :=
  match text.head? with
  | none => .bad
  | some b =>
    if b = Byte.minus ∨ b = 0x3D then .bad
    else
      let (name, value?) := splitValue text
      .flag name value?

/-- What an argument is, seen as a flag. -/
def flagForm : Bytes → FlagForm
  | [] => .argument
  | [_] => .argument
  | first :: second :: rest =>
    if first ≠ Byte.minus then .argument
    else if second = Byte.minus then
      if rest = [] then .terminator else namedForm rest
    else namedForm (second :: rest)

/-- Flags as they were given, latest first, the arguments after them, and the error that ended the
reading. -/
structure Given where
  flags : List (Bytes × FlagValue)
  arguments : List Bytes
  error? : Option FlagError
deriving DecidableEq, Repr

/-- Reads flags from the front of some arguments. -/
def readFlags (flags : List Flag) (given : List (Bytes × FlagValue)) : List Bytes → Given
  | [] => ⟨given, [], none⟩
  | argument :: rest =>
    match flagForm argument with
    | .argument => ⟨given, argument :: rest, none⟩
    | .terminator => ⟨given, rest, none⟩
    | .bad => ⟨given, argument :: rest, some (.badForm argument)⟩
    | .flag name value? =>
      match flags.find? fun flag => flag.names.contains name with
      | none => ⟨given, rest, some (.undefined name)⟩
      | some flag =>
        match flag.kind, value? with
        | .switch, none => readFlags flags ((name, .switch true) :: given) rest
        | .switch, some value =>
          match readBool? value with
          | some value => readFlags flags ((name, .switch value) :: given) rest
          | none => ⟨given, rest, some (.badBoolean name value)⟩
        | .text, some value => readFlags flags ((name, .text value) :: given) rest
        | .text, none =>
          match rest with
          | value :: rest => readFlags flags ((name, .text value) :: given) rest
          | [] => ⟨given, [], some (.needsValue name)⟩

/-- The first flag of which two names were given. -/
def twoForms? (flags : List Flag) (given : List (Bytes × FlagValue)) : Option FlagError :=
  flags.findSome? fun flag =>
    match flag.names.filter fun name => (given.lookup name).isSome with
    | earlier :: later :: _ => some (.twoForms later earlier)
    | _ => none

/-- Reads flags and refuses two names of one flag, which goes before any other error. -/
def parseFlags (flags : List Flag) (arguments : List Bytes) : Given :=
  let given := readFlags flags [] arguments
  match twoForms? flags given.flags with
  | some error => { given with error? := some error }
  | none => given

namespace Given

/-- The latest value under any name of a flag. -/
def value? (given : Given) (flag : Flag) : Option FlagValue :=
  (given.flags.find? fun entry => flag.names.contains entry.1).map Prod.snd

/-- The text of a flag, empty if it was not given. -/
def text (given : Given) (flag : Flag) : Bytes :=
  match given.value? flag with
  | some (.text value) => value
  | _ => []

/-- A switch, off if it was not given. -/
def isOn (given : Given) (flag : Flag) : Bool :=
  match given.value? flag with
  | some (.switch value) => value
  | _ => false

end Given

/-- Arguments after the name of a command, with its flags in front: those from the first flag up to
a double hyphen, then those before it, then the double hyphen and the rest. -/
def flagsFirst (arguments : List Bytes) : List Bytes :=
  let head := arguments.takeWhile (· ≠ utf8 "--")
  let tail := arguments.drop head.length
  let isPlain (argument : Bytes) : Bool :=
    argument.head? ≠ some Byte.minus || argument == utf8 "-"
  let before := head.takeWhile isPlain
  let flags := head.drop before.length
  if flags = [] then arguments else flags ++ before ++ tail

end VarPrint.CommandLine
