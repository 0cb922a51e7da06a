/-
# A configuration in a file

A valid configuration that was written to a file is read back as it was, as long as its directory is
well encoded and has no control characters without a letter that reading knows. With any other
directory the written text is malformed. A setting that is left out is empty, and so it is in the
default.
-/

import VarPrint.Proofs.Compiler
import VarPrint.Proofs.Config.Layers
import VarPrint.Proofs.Number.Numeral
import VarPrint.Proofs.Toml.Settings

namespace VarPrint.Config

open Bytes (asciiRunes ofRunes)
open Toml

/-- The name of a field by its runes. -/
def Field.runes (field : Field) : List Char :=
  asciiRunes field.name

theorem Field.ofRunes_runes (field : Field) : ofRunes field.runes = field.name := by
  have ascii : (field.name.all fun b => b < 0x80) = true := by
    cases field <;> rfl
  apply Bytes.ofRunes_asciiRunes
  simpa using ascii

theorem Field.isBare_runes (field : Field) : Grammar.IsBare field.runes := by
  have bare : (field.runes.all Grammar.isBareKeyChar) = true := by
    cases field <;> rfl
  refine ⟨?_, List.all_eq_true.mp bare⟩
  cases field <;> exact List.cons_ne_nil _ _

/-- The fields that hold a text, with the text as their value. -/
inductive Field.HoldsText (text : Bytes) : (field : Field) → field.Value → Prop
  | className : HoldsText text .className text
  | output : HoldsText text .output text

theorem Field.HoldsText.unique {field : Field} {text : Bytes} {value other : field.Value}
    (holds : field.HoldsText text value) (otherHolds : field.HoldsText text other) :
    value = other := by
  cases holds <;> cases otherHolds <;> rfl

/-- A text as the value of a field. -/
def textSetting (field : Field) (text : Bytes) : Setting where
  name := field.runes
  written := (Quoted.encode text).runes
  read := .text (Quoted.encode text).runes.tail.dropLast true

/-- A number as the value of the indentation. -/
def indentSetting (indent : Nat) : Setting where
  name := Field.indent.runes
  written := asciiRunes (Numeral.ofNat indent)
  read _ := .integer (asciiRunes (Numeral.ofNat indent))

/-- A truth value as the value of the switch for messages. -/
def debugSetting (debug : Bool) : Setting where
  name := Field.debug.runes
  written := if debug then ['t', 'r', 'u', 'e'] else ['f', 'a', 'l', 's', 'e']
  read _ := .boolean debug

/-- A setting that can be read, and gives a field the value. -/
structure Sets (setting : Setting) (field : Field) (value : field.Value) : Prop where
  isProper : setting.IsProper
  key_eq : setting.key = field.name
  isDecodable : ∀ line, (setting.read line).IsDecodable
  read?_eq : ∀ line, field.read? (.value (setting.read line) line) = some value

section Texts

variable {text : Bytes} {body : List Char}

theorem textSetting_eq (written : Quoted.encode text = ofRunes ('"' :: (body ++ ['"'])))
    (field : Field) : textSetting field text = ⟨field.runes, '"' :: (body ++ ['"']),
      .text body true⟩ := by
  rw [textSetting, written, Bytes.runes_ofRunes, List.tail_cons, List.dropLast_concat]

theorem isProper_textSetting (field : Field) (readable : Quoted.IsReadable text)
    (nonempty : text ≠ []) : (textSetting field text).IsProper := by
  obtain ⟨chunks, areChunks, runes, written⟩ := readable.exists_encode_eq
  have some : chunks ≠ [] := by
    rintro rfl
    obtain ⟨⟨_, rfl⟩, _⟩ := readable
    rw [Bytes.runes_ofRunes, List.map_nil] at runes
    exact nonempty (congrArg ofRunes runes.symm)
  rw [textSetting_eq written]
  exact {
    isBare := field.isBare_runes
    noBlank := by simp [Grammar.isBlank]
    reads := Grammar.reads_chunks areChunks some
    isStored := by
      intro line key
      rw [Builder.placeTables, Builder.readBody, if_pos rfl, areChunks.decode?_flatMap]
      rfl }

theorem textOf?_textSetting (field : Field) (readable : Quoted.IsReadable text) (line : Nat) :
    textOf? ((textSetting field text).read line) = some text := by
  obtain ⟨chunks, areChunks, runes, written⟩ := readable.exists_encode_eq
  rw [textSetting_eq written, textOf?, areChunks.decode?_flatMap, runes, Option.map_some]
  obtain ⟨⟨_, rfl⟩, _⟩ := readable
  rw [Bytes.runes_ofRunes]

theorem isDecodable_textSetting (field : Field) (readable : Quoted.IsReadable text) (line : Nat) :
    ((textSetting field text).read line).IsDecodable := by
  rintro body hasEscapes last ⟨⟩
  exact Option.isSome_of_eq_some (textOf?_textSetting field readable line)

/-- Written for a field that holds texts, a text sets the field. -/
theorem sets_textSetting {field : Field} {value : field.Value} (holds : field.HoldsText text value)
    (readable : Quoted.IsReadable text) (nonempty : text ≠ []) :
    Sets (textSetting field text) field value where
  isProper := isProper_textSetting field readable nonempty
  key_eq := field.ofRunes_runes
  isDecodable := isDecodable_textSetting field readable
  read?_eq := by
    intro line
    cases holds with
    | className => exact textOf?_textSetting .className readable line
    | output => exact textOf?_textSetting .output readable line

end Texts

section Numerals

theorem isDigit_ofNat {b : UInt8} (isDigit : Byte.isDigit b = true) :
    Grammar.isDigit (Char.ofNat b.toNat) = true := by
  have code := Rune.toNat_ofNat (Byte.isVisible_of_isDigit isDigit).2
  rw [Byte.isDigit_iff, ← code] at isDigit
  rw [Grammar.isDigit, Bool.and_eq_true, decide_eq_true_eq, decide_eq_true_eq]
  exact isDigit

theorem isDigit_of_mem_asciiRunes {digits : Bytes} (areDigits : ∀ b ∈ digits, Byte.isDigit b = true)
    {c : Char} (member : c ∈ asciiRunes digits) : Grammar.isDigit c = true := by
  obtain ⟨b, isByte, rfl⟩ := List.mem_map.mp member
  exact isDigit_ofNat (areDigits b isByte)

theorem isProper_indentSetting (indent : Nat) : (indentSetting indent).IsProper := by
  obtain ⟨⟨nonempty, areDigits⟩, _, noZero⟩ := Numeral.isCanonical_ofNat indent
  obtain ⟨first, later, split⟩ := List.exists_cons_of_ne_nil nonempty
  rw [split, List.forall_mem_cons] at areDigits
  rw [split] at noZero
  have isDigit := isDigit_ofNat areDigits.1
  have single : Char.ofNat first.toNat = '0' → asciiRunes later = [] := by
    intro isZero
    have same : first = 0x30 := by
      have code := Rune.toNat_ofNat (Byte.isVisible_of_isDigit areDigits.1).2
      rw [isZero] at code
      exact UInt8.toNat_inj.mp code.symm
    obtain ⟨_, alone⟩ := noZero (by rw [same]; rfl)
    rw [List.cons.injEq] at alone
    rw [alone.2]
    rfl
  have numeral : asciiRunes (Numeral.ofNat indent) =
      Char.ofNat first.toNat :: asciiRunes later := by
    rw [split]
    rfl
  rw [indentSetting, numeral]
  exact {
    isBare := Field.indent.isBare_runes
    noBlank := by
      rintro _ ⟨⟩
      rw [Grammar.isBlank, Bool.or_eq_false_iff, beq_eq_false_iff_ne, beq_eq_false_iff_ne]
      exact ⟨Grammar.ne_of_isDigit isDigit rfl, Grammar.ne_of_isDigit isDigit rfl⟩
    reads := Grammar.reads_digits isDigit (fun c => isDigit_of_mem_asciiRunes areDigits.2) single
    isStored := fun _ _ => rfl }

theorem plainNumeral_asciiRunes {digits : Bytes}
    (areDigits : ∀ b ∈ digits, Byte.isDigit b = true) :
    plainNumeral (asciiRunes digits) = digits := by
  have plain : (asciiRunes digits).filter (· ≠ '_') = asciiRunes digits := by
    rw [List.filter_eq_self]
    intro c member
    rw [decide_eq_true_eq]
    exact Grammar.ne_of_isDigit (isDigit_of_mem_asciiRunes areDigits member) rfl
  rw [plainNumeral, plain, Bytes.ofRunes_asciiRunes]
  exact fun b member => (Byte.isVisible_of_isDigit (areDigits b member)).2

theorem sets_indent {indent : Nat} (small : indent < 2 ^ 63) :
    Sets (indentSetting indent) .indent indent where
  isProper := isProper_indentSetting indent
  key_eq := Field.ofRunes_runes .indent
  isDecodable := by rintro _ _ _ _ ⟨⟩
  read?_eq := by
    intro line
    have isDigits := Numeral.isDigits_ofNat indent
    show Numeral.readWord? 64 (plainNumeral (asciiRunes (Numeral.ofNat indent))) =
      some (indent : Int)
    rw [plainNumeral_asciiRunes isDigits.2, Numeral.readWord?_digits isDigits,
      Numeral.value_ofNat, if_pos small]

end Numerals

theorem sets_debug (debug : Bool) : Sets (debugSetting debug) .debug debug where
  isProper := {
    isBare := Field.debug.isBare_runes
    noBlank := by cases debug <;> simp [debugSetting, Grammar.isBlank]
    reads := by
      cases debug
      · exact Grammar.reads_false
      · exact Grammar.reads_true
    isStored := fun _ _ => rfl }
  key_eq := Field.ofRunes_runes .debug
  isDecodable := by rintro _ _ _ _ ⟨⟩
  read?_eq := fun _ => rfl

/-- The settings of a text field, which is left out where it is empty. -/
def textSettings (field : Field) (text : Bytes) : List Setting :=
  if text = [] then [] else [textSetting field text]

/-- The settings that a configuration is written as. -/
def settings (config : Config) : List Setting :=
  textSettings .className config.className ++ textSettings .output config.output ++
    [indentSetting config.indent.toNat, debugSetting config.debug]

section Writing

theorem ofRunes_line (setting : Setting) : ofRunes (setting.text ++ ['\n']) =
    setting.key ++ utf8 " = " ++ ofRunes setting.written ++ utf8 "\n" := by
  have split : setting.text ++ ['\n'] = setting.name ++ [' ', '=', ' '] ++ setting.written ++
      ['\n'] := by
    simp [Setting.text]
  rw [split, Bytes.ofRunes_append, Bytes.ofRunes_append, Bytes.ofRunes_append]
  rfl

theorem ofRunes_settingLines_cons (setting : Setting) (settings : List Setting) :
    ofRunes (settingLines (setting :: settings)) =
      setting.key ++ utf8 " = " ++ ofRunes setting.written ++ utf8 "\n" ++
        ofRunes (settingLines settings) := by
  rw [settingLines, List.flatMap_cons, Bytes.ofRunes_append, ofRunes_line, settingLines]

theorem ofRunes_textSettings (field : Field) (text : Bytes) :
    ofRunes (settingLines (textSettings field text)) =
      if text = [] then []
      else field.name ++ utf8 " = " ++ Quoted.encode text ++ utf8 "\n" := by
  unfold textSettings
  split
  · rfl
  · rw [ofRunes_settingLines_cons]
    show ofRunes field.runes ++ utf8 " = " ++ ofRunes (Quoted.encode text).runes ++ utf8 "\n" ++
      [] = _
    rw [Field.ofRunes_runes, Quoted.ofRunes_runes_encode, List.append_nil]

theorem settingLines_append (first second : List Setting) :
    settingLines (first ++ second) = settingLines first ++ settingLines second :=
  List.flatMap_append

theorem ofRunes_indentSetting {indent : Int} (nonnegative : 0 ≤ indent) :
    ofRunes (indentSetting indent.toNat).written = Numeral.ofInt indent := by
  obtain ⟨number, rfl⟩ := Int.eq_ofNat_of_zero_le nonnegative
  apply Bytes.ofRunes_asciiRunes
  intro b member
  exact (Byte.isVisible_of_isDigit ((Numeral.isDigits_ofNat number).2 b member)).2

/-- A configuration is written with each of its settings on a line. -/
theorem render_eq_ofRunes {config : Config} (nonnegative : 0 ≤ config.indent) :
    config.render = ofRunes (settingLines config.settings) := by
  have indentKey : (indentSetting config.indent.toNat).key = Field.indent.name :=
    Field.ofRunes_runes .indent
  have debugKey : (debugSetting config.debug).key = Field.debug.name := Field.ofRunes_runes .debug
  have debugText : ofRunes (debugSetting config.debug).written = boolText config.debug := by
    cases config.debug <;> rfl
  have nothing : ofRunes (settingLines []) = [] := rfl
  rw [settings, settingLines_append, settingLines_append, Bytes.ofRunes_append,
    Bytes.ofRunes_append, ofRunes_textSettings, ofRunes_textSettings, ofRunes_settingLines_cons,
    ofRunes_settingLines_cons, ofRunes_indentSetting nonnegative, indentKey, debugKey, debugText,
    nothing, List.append_nil, ← List.append_assoc]
  rfl

end Writing

section Reading

variable {file : Bytes} {config : Config} {line : Nat}

theorem setEntries_append (first second : List (Bytes × Entry)) :
    setEntries file config (first ++ second) =
      setEntries file config first >>= fun config => setEntries file config second :=
  List.foldlM_append

theorem settingEntries_append (first second : List Setting) :
    settingEntries line (first ++ second) =
      settingEntries line first ++ settingEntries (line + first.length) second := by
  rw [settingEntries, List.zipIdx_append, List.map_append]
  rfl

theorem Sets.setEntries_eq {setting : Setting} {field : Field} {value : field.Value}
    (sets : Sets setting field value) :
    setEntries file config (settingEntries line [setting]) = .ok (config.set field value) := by
  have isDecodable : (Entry.value (setting.read line) line).IsDecodable := by
    rintro _ _ ⟨⟩
    exact sets.isDecodable line
  refine setEntries_cons_eq_ok_iff.mpr ⟨config.set field value, ?_, rfl⟩
  exact (setEntry_eq_ok_iff isDecodable).mpr
    ⟨field, sets.key_eq, value, sets.read?_eq line, rfl⟩

/-- A text that was written replaces an empty one. -/
theorem setEntries_textSettings {field : Field} {text : Bytes} {value : field.Value}
    (holds : field.HoldsText text value) (readable : Quoted.IsReadable text)
    (empty : field.HoldsText [] (config.get field)) :
    setEntries file config (settingEntries line (textSettings field text)) =
      .ok (config.set field value) := by
  unfold textSettings
  split
  next isEmpty =>
    subst isEmpty
    rw [holds.unique empty, set_get]
    rfl
  next nonempty => exact (sets_textSetting holds readable nonempty).setEntries_eq

theorem sublist_key_textSettings (field : Field) (text : Bytes) :
    ((textSettings field text).map Setting.key).Sublist [field.name] := by
  unfold textSettings
  split
  · exact List.nil_sublist _
  · rw [List.map_singleton, Setting.key, textSetting, field.ofRunes_runes]

theorem nodup_key_settings (config : Config) : (config.settings.map Setting.key).Nodup := by
  have fields : (Field.all.map Field.name).Nodup := by decide
  have last : [indentSetting config.indent.toNat, debugSetting config.debug].map Setting.key =
      [Field.indent.name, Field.debug.name] :=
    congrArg₂ (fun indent debug => [indent, debug]) Field.indent.ofRunes_runes
      Field.debug.ofRunes_runes
  refine fields.sublist ?_
  rw [settings, List.map_append, List.map_append, last]
  exact ((sublist_key_textSettings .className config.className).append
    (sublist_key_textSettings .output config.output)).append (List.Sublist.refl _)

/-- A valid name of a class is read back. -/
theorem isReadable_className (valid : config.problem? = none) :
    Quoted.IsReadable config.className := by
  apply Quoted.isReadable_of_printable
  intro b member
  have isName := (problem?_eq_none_iff.mp valid).2 (List.ne_nil_of_mem member)
  have isPart := Java.isIdentifierPart_of_isIdentifier isName b member
  simp only [Java.isIdentifierPart, Java.isIdentifierStart, Bool.or_eq_true, beq_iff_eq,
    Byte.isLetter_iff, Byte.isDigit_iff] at isPart
  obtain ((letter | rfl) | rfl) | digit := isPart
  · omega
  · decide
  · decide
  · omega

theorem isProper_of_mem_textSettings {field : Field} {text : Bytes}
    (readable : Quoted.IsReadable text) :
    ∀ setting ∈ textSettings field text, setting.IsProper := by
  unfold textSettings
  split
  · simp
  next nonempty => simpa using isProper_textSetting field readable nonempty

/-- All settings of a valid configuration with a readable directory can be read. -/
theorem isProper_of_mem_settings (valid : config.problem? = none)
    (readable : Quoted.IsReadable config.output) :
    ∀ setting ∈ config.settings, setting.IsProper := by
  rw [settings, List.forall_mem_append, List.forall_mem_append]
  refine ⟨⟨?_, ?_⟩, ?_⟩
  · exact isProper_of_mem_textSettings (isReadable_className valid)
  · exact isProper_of_mem_textSettings readable
  · simpa using ⟨isProper_indentSetting _, (sets_debug config.debug).isProper⟩

/-- The settings of a valid configuration with a readable directory make it of the default. -/
theorem setEntries_settings (valid : config.problem? = none)
    (readable : Quoted.IsReadable config.output) :
    setEntries file .default (settingEntries line config.settings) = .ok config := by
  obtain ⟨⟨nonnegative, limit⟩, _⟩ := problem?_eq_none_iff.mp valid
  have small : config.indent.toNat < 2 ^ 63 := by omega
  have texts : ∀ line, setEntries file .default (settingEntries line
      (textSettings .className config.className ++ textSettings .output config.output)) =
        .ok ((Config.default.set .className config.className).set .output config.output) := by
    intro line
    rw [settingEntries_append, setEntries_append, bind_eq_ok_iff]
    exact ⟨_, setEntries_textSettings .className (isReadable_className valid) .className,
      setEntries_textSettings .output readable .output⟩
  have last : ∀ start : Config, ∀ line, setEntries file start (settingEntries line
      ([indentSetting config.indent.toNat] ++ [debugSetting config.debug])) =
      .ok ((start.set .indent config.indent.toNat).set .debug config.debug) := by
    intro start line
    rw [settingEntries_append, setEntries_append, bind_eq_ok_iff]
    exact ⟨_, (sets_indent small).setEntries_eq, (sets_debug config.debug).setEntries_eq⟩
  rw [settings, settingEntries_append, setEntries_append, bind_eq_ok_iff]
  refine ⟨_, texts _, (last _ _).trans ?_⟩
  rw [Int.toNat_of_nonneg nonnegative]
  rfl

end Reading

/-- A valid configuration with a readable directory is read from what is written of it. -/
theorem ofText_render {config : Config} (valid : config.problem? = none)
    (readable : Quoted.IsReadable config.output) (file : Bytes) :
    ofText file .default config.render = .ok config := by
  have nonnegative := (problem?_eq_none_iff.mp valid).1.1
  have loaded : setEntries file default (settingEntries 1 config.settings) = .ok config :=
    setEntries_settings valid readable
  rw [ofText, render_eq_ofRunes nonnegative,
    document_settingLines (isProper_of_mem_settings valid readable) config.nodup_key_settings]
  show (setEntries file default (settingEntries 1 config.settings) >>= validate) = _
  rw [loaded]
  show config.validate = _
  rw [validate, valid]

/-- On the line of an unreadable text nothing is read. -/
theorem isUnread_textSetting {text : Bytes} (unreadable : ¬ Quoted.IsReadable text) (field : Field)
    (after : List Char) : Grammar.IsUnread ((textSetting field text).text ++ after) := by
  obtain ⟨chunks, rest, areChunks, ⟨letter, unknown, others, rfl⟩, written⟩ :=
    Quoted.exists_encode_eq_of_not_isReadable unreadable
  have split : (textSetting field text).text ++ after =
      field.runes ++ ' ' :: '=' :: ' ' ::
        ('"' :: (chunks.flatMap Prod.snd ++ '\\' :: letter :: (others ++ after))) := by
    rw [Setting.text, textSetting, written, Bytes.runes_ofRunes]
    simp
  rw [split]
  constructor
  · intro c isFirst
    exact Grammar.isNewline_of_isBareKeyChar (field.isBare_runes.head?_append _ c isFirst)
  · intro line
    exact Grammar.expression_unread field.isBare_runes (by simp [Grammar.isBlank])
      (Grammar.value_refused areChunks ⟨letter, unknown, _, rfl⟩)

/-- Any other directory makes what is written malformed. -/
theorem ofText_render_of_not_isReadable {config : Config} (valid : config.problem? = none)
    (unreadable : ¬ Quoted.IsReadable config.output) (file : Bytes) :
    ofText file .default config.render = .error (.notDocument file ⟨.malformed, 0⟩) := by
  have nonnegative := (problem?_eq_none_iff.mp valid).1.1
  have nonempty : config.output ≠ [] := by
    intro isEmpty
    rw [isEmpty] at unreadable
    exact unreadable (Quoted.isReadable_of_printable fun _ member => absurd member List.not_mem_nil)
  have output : textSettings .output config.output = [textSetting .output config.output] :=
    if_neg nonempty
  have written : config.render = ofRunes (settingLines (textSettings .className config.className) ++
      ((textSetting .output config.output).text ++
        '\n' :: settingLines [indentSetting config.indent.toNat, debugSetting config.debug])) := by
    have lines := settingLines_cons (textSetting .output config.output)
      [indentSetting config.indent.toNat, debugSetting config.debug] []
    rw [List.append_nil, List.append_nil] at lines
    rw [render_eq_ofRunes nonnegative, settings, output, List.append_assoc, settingLines_append,
      List.singleton_append, lines]
  have isUnread := isUnread_textSetting unreadable .output
    ('\n' :: settingLines [indentSetting config.indent.toNat, debugSetting config.debug])
  rw [ofText, written, document_settingLines_append
    (isProper_of_mem_textSettings (isReadable_className valid)) isUnread (by simp)]
  rfl

/-- A configuration comes back when its file is loaded over the default. -/
def LoadsBack (config : Config) (file : Bytes) (tree : FileTree) : Prop :=
  (load file .default).run tree = (.ok config, tree)

/-- A valid configuration comes back from a file that it was written to if and only if its directory
is readable; otherwise the file is refused as malformed. -/
theorem loadsBack_iff_isReadable {config : Config} (valid : config.problem? = none) {file : Bytes}
    {tree : FileTree} (content : tree.read file = .ok config.render) :
    (LoadsBack config file tree ↔ Quoted.IsReadable config.output) ∧
      (¬ Quoted.IsReadable config.output →
        (load file .default).run tree = (.error (.notDocument file ⟨.malformed, 0⟩), tree)) := by
  have refused : ¬ Quoted.IsReadable config.output →
      (load file .default).run tree = (.error (.notDocument file ⟨.malformed, 0⟩), tree) := by
    intro unreadable
    rw [run_load_of_read content, ofText_render_of_not_isReadable valid unreadable]
  refine ⟨⟨?_, ?_⟩, refused⟩
  · intro loadsBack
    by_contra unreadable
    rw [LoadsBack, refused unreadable] at loadsBack
    cases loadsBack
  · intro readable
    rw [LoadsBack, run_load_of_read content, ofText_render valid readable]

/-- Quotes, backslashes, line ends and runes that are written by their code come back. -/
theorem loadsBack_iff_isReadable_escapes :
    ∃ config : Config, config = ⟨utf8 "A$1",
        ofRunes ['"', '\\', '\n', '\t', 'é', '\u0085', Char.ofNat 0x10FFFF], 0, true⟩ ∧
      config.problem? = none ∧
      FileTree.read ⟨[([utf8 "c.toml"], .file config.render)], .unlimited⟩ (utf8 "c.toml") =
        .ok config.render ∧
      LoadsBack config (utf8 "c.toml") ⟨[([utf8 "c.toml"], .file config.render)], .unlimited⟩ := by
  have kept : (['"', '\\', '\n', '\t', 'é', '\u0085', Char.ofNat 0x10FFFF].all Quoted.isKept) =
      true := by
    decide
  have valid : Config.problem? ⟨utf8 "A$1",
      ofRunes ['"', '\\', '\n', '\t', 'é', '\u0085', Char.ofNat 0x10FFFF], 0, true⟩ = none := by
    decide +kernel
  refine ⟨_, rfl, valid, rfl, (loadsBack_iff_isReadable valid rfl).1.mpr ?_⟩
  exact Quoted.isReadable_ofRunes (List.all_eq_true.mp kept)

/-- A bell is written with an escape that is not read. -/
theorem not_loadsBack_bell :
    ∃ config : Config, config = ⟨[], [0x07], 4, false⟩ ∧ config.problem? = none ∧
      FileTree.read ⟨[([utf8 "c.toml"], .file config.render)], .unlimited⟩ (utf8 "c.toml") =
        .ok config.render ∧
      ¬ LoadsBack config (utf8 "c.toml") ⟨[([utf8 "c.toml"], .file config.render)], .unlimited⟩ := by
  refine ⟨_, rfl, rfl, by decide +kernel, ?_⟩
  unfold LoadsBack
  decide +kernel

end VarPrint.Config
