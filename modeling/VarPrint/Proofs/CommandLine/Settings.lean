/-
# The settings of a run

The flags of a run are a layer of settings over the file, and the file is one over the default. A
field has the value of the highest layer that gives it, with one exception: a flag that was given
with an empty text, or a switch that was given as off, counts as if it had not been given.
-/

import VarPrint.CommandLine.Run
import VarPrint.Proofs.Config.Layers

namespace VarPrint.CommandLine

open Config (Field Layer IsReading isReading_none isReading_some)

/-- The kind of flag that a value belongs to. -/
def FlagValue.kind : FlagValue → FlagKind
  | text _ => .text
  | switch _ => .switch

/-- Every flag that was given belongs to the first flag of its name, and has a value of its kind. -/
def AreOfKind (flags : List Flag) (given : List (Bytes × FlagValue)) : Prop :=
  ∀ entry ∈ given, ∃ flag, flags.find? (fun flag => flag.names.contains entry.1) = some flag ∧
    entry.2.kind = flag.kind

theorem AreOfKind.cons {flags : List Flag} {given : List (Bytes × FlagValue)}
    (areOfKind : AreOfKind flags given) {name : Bytes} {flag : Flag}
    (found : flags.find? (fun flag => flag.names.contains name) = some flag) {value : FlagValue}
    (kind : value.kind = flag.kind) : AreOfKind flags ((name, value) :: given) :=
  List.forall_mem_cons.mpr ⟨⟨flag, found, kind⟩, areOfKind⟩

/-- Reading flags adds only values of the right kind. -/
theorem areOfKind_readFlags {flags : List Flag} {given : List (Bytes × FlagValue)}
    (areOfKind : AreOfKind flags given) (arguments : List Bytes) :
    AreOfKind flags (readFlags flags given arguments).flags := by
  fun_induction readFlags flags given arguments with
  | case6 given _ rest name flag found isSwitch _ ih =>
      exact ih (areOfKind.cons found isSwitch.symm)
  | case7 given _ rest name flag found _ isSwitch value _ _ ih =>
      exact ih (areOfKind.cons found isSwitch.symm)
  | case9 given _ rest name flag found value isText _ ih =>
      exact ih (areOfKind.cons found isText.symm)
  | case10 given _ name flag found isText value rest _ ih =>
      exact ih (areOfKind.cons found isText.symm)
  | _ => exact areOfKind

theorem areOfKind_parseFlags (flags : List Flag) (arguments : List Bytes) :
    AreOfKind flags (parseFlags flags arguments).flags := by
  have areOfKind : AreOfKind flags (readFlags flags [] arguments).flags :=
    areOfKind_readFlags (fun _ member => absurd member List.not_mem_nil) arguments
  rw [parseFlags]
  split
  · exact areOfKind
  · exact areOfKind

/-- A flag that is the first of each of its names is given with values of its kind only. -/
theorem Given.kind_of_value? {given : Given} {flags : List Flag}
    (areOfKind : AreOfKind flags given.flags) {flag : Flag}
    (isFirst : ∀ name ∈ flag.names,
      flags.find? (fun flag => flag.names.contains name) = some flag)
    {value : FlagValue} (found : given.value? flag = some value) : value.kind = flag.kind := by
  obtain ⟨entry, isEntry, rfl⟩ := Option.map_eq_some_iff.mp found
  obtain ⟨other, isOther, kind⟩ := areOfKind entry (List.mem_of_find?_eq_some isEntry)
  have named := List.find?_some isEntry
  rw [isFirst entry.1 (List.contains_iff_mem.mp named)] at isOther
  rw [kind, Option.some.inj isOther]

/-- The flag of a field; no flag sets the indentation. -/
def settingFlag? : Field → Option Flag
  | .className => some classFlag
  | .output => some outputFlag
  | .indent => none
  | .debug => some debugFlag

/-- The text of a text flag. -/
def FlagValue.text? : FlagValue → Option Bytes
  | text value => some value
  | switch _ => none

/-- The state of a switch. -/
def FlagValue.switch? : FlagValue → Option Bool
  | text _ => none
  | switch value => some value

/-- The value that a flag has for a field. -/
def flagReading? : (field : Field) → FlagValue → Option field.Value
  | .className => FlagValue.text?
  | .output => FlagValue.text?
  | .indent => fun _ => none
  | .debug => FlagValue.switch?

/-- What was given for a field. -/
def Given.setting? (given : Given) (field : Field) : Option FlagValue :=
  (settingFlag? field).bind given.value?

/-- The layer of the flags that were given. -/
def Given.IsLayer (given : Given) (layer : Layer) : Prop :=
  ∀ field, IsReading (flagReading? field) (given.setting? field) (layer field)

/-- The commands that take settings. -/
def CommandName.TakesSettings (command : CommandName) : Prop :=
  command = .compile ∨ command = .config

/-- A command that takes settings has no other flag of the name of a setting. -/
theorem CommandName.TakesSettings.find?_eq {command : CommandName} (takes : command.TakesSettings)
    {field : Field} {flag : Flag} (isFlag : settingFlag? field = some flag) :
    ∀ name ∈ flag.names,
      (command.flags ++ [helpFlag]).find? (fun flag => flag.names.contains name) = some flag := by
  have table : (flag.names.all fun name =>
      (command.flags ++ [helpFlag]).find? (fun flag => flag.names.contains name) == some flag) =
      true := by
    obtain rfl | rfl := takes <;> cases field <;> cases isFlag <;> decide
  simpa using table

/-- Whatever a command is given for its settings can be read, so it is a layer. -/
theorem exists_isLayer_givenTo {command : CommandName} (takes : command.TakesSettings)
    (arguments : List Bytes) : ∃ layer, (givenTo command arguments).IsLayer layer := by
  refine ⟨fun field => ((givenTo command arguments).setting? field).bind (flagReading? field), ?_⟩
  intro field
  dsimp only
  cases given : (givenTo command arguments).setting? field with
  | none => exact isReading_none.mpr rfl
  | some value =>
      obtain ⟨flag, isFlag, isGiven⟩ := Option.bind_eq_some_iff.mp given
      have kind := Given.kind_of_value? (areOfKind_parseFlags _ _) (takes.find?_eq isFlag) isGiven
      obtain ⟨reading, isRead⟩ : ∃ reading, flagReading? field value = some reading := by
        cases field <;> cases isFlag <;> cases value <;> cases kind <;> exact ⟨_, rfl⟩
      exact isReading_some.mpr ⟨reading, isRead, isRead⟩

/-- A text that is empty, or a switch that is off. -/
def isEmptySetting : (field : Field) → field.Value → Bool
  | .className, className => className == []
  | .output, output => output == []
  | .indent, _ => false
  | .debug, isOn => !isOn

/-- The flags that count: all but the empty ones. -/
def shown (flags : Layer) : Layer :=
  fun field => (flags field).filter fun value => !isEmptySetting field value

section Reading

variable {given : Given} {flag : Flag}

theorem Given.text_eq {setting? : Option Bytes}
    (isReading : IsReading FlagValue.text? (given.value? flag) setting?) :
    given.text flag = setting?.getD [] := by
  rw [Given.text, ← isReading.bind_eq]
  cases given.value? flag with
  | none => rfl
  | some value => cases value <;> rfl

theorem Given.isOn_eq {setting? : Option Bool}
    (isReading : IsReading FlagValue.switch? (given.value? flag) setting?) :
    given.isOn flag = setting?.getD false := by
  rw [Given.isOn, ← isReading.bind_eq]
  cases given.value? flag with
  | none => rfl
  | some value => cases value <;> rfl

theorem getD_filter_text (setting? : Option Bytes) (below : Bytes) :
    (setting?.filter fun text => !(text == [])).getD below =
      if setting?.getD [] ≠ [] then setting?.getD [] else below := by
  cases setting? with
  | none => rfl
  | some text => cases text <;> rfl

theorem getD_filter_switch (setting? : Option Bool) (below : Bool) :
    (setting?.filter fun isOn => !!isOn).getD below = (setting?.getD false || below) := by
  cases setting? with
  | none => rfl
  | some isOn => cases isOn <;> rfl

/-- The flags that count lie over a configuration. -/
theorem withFlags_eq {flags : Layer} (isLayer : given.IsLayer flags) (config : Config) :
    withFlags given config = (shown flags).onto config := by
  have noIndent : flags .indent = none := isReading_none.mp (isLayer .indent)
  rw [withFlags, Given.text_eq (isLayer .className), Given.text_eq (isLayer .output),
    Given.isOn_eq (isLayer .debug)]
  apply Config.ext_get
  intro field
  rw [Layer.get_onto]
  cases field with
  | className => exact (getD_filter_text (flags .className) config.className).symm
  | output => exact (getD_filter_text (flags .output) config.output).symm
  | indent =>
      rw [shown, noIndent]
      rfl
  | debug => exact (getD_filter_switch (flags .debug) config.debug).symm

end Reading

/-- The file of a run, on a given file tree. -/
theorem run_configFile? (given : Given) (tree : FileTree) :
    (configFile? given).run tree =
      (if given.text configFlag ≠ [] then some (given.text configFlag)
        else if tree.isPresent defaultConfigFile then some defaultConfigFile else none, tree) := by
  rw [configFile?]
  split
  · rfl
  · rw [FileTask.run_bind]
    show FileTask.run (if tree.isPresent defaultConfigFile then _ else _) tree = _
    split <;> rfl

/-- The settings of a run are the flags over what was loaded. -/
theorem run_loadConfig (given : Given) (tree : FileTree) :
    ((loadConfig given).run tree).1 =
      (match ((configFile? given).run tree).1 with
        | some file => ((Config.load file .default).run tree).1
        | none => .ok .default) >>= fun loaded => (withFlags given loaded).validate := by
  have sameTree : ((configFile? given).run tree).2 = tree := by rw [run_configFile?]
  rw [loadConfig, FileTask.run_bind, sameTree]
  cases ((configFile? given).run tree).1 with
  | none => rfl
  | some file =>
      rw [FileTask.run_bind]
      rfl

/-- The layer of the file of a run, which is empty where there is no file. -/
def IsFileLayer (tree : FileTree) : Option Bytes → Layer → Prop
  | none, file => ∀ field, file field = none
  | some path, file => ∃ text table, tree.read path = .ok text ∧ file.IsFile text .default table

/-- A configuration whose fields come from the flags that count, then from the file, then from the
default. -/
structure IsLayered (given : Given) (tree : FileTree) (config : Config) (flags file : Layer) :
    Prop where
  isFlags : given.IsLayer flags
  isFile : IsFileLayer tree ((configFile? given).run tree).1 file
  get_eq : ∀ field, config.get field =
    (shown flags field).getD ((file field).getD (Config.default.get field))
  valid : config.problem? = none

/-- What is loaded for a run is the layer of its file over the default. -/
theorem loaded_eq_ok_iff {file? : Option Bytes} {tree : FileTree} {loaded : Config} :
    (match file? with
        | some file => ((Config.load file .default).run tree).1
        | none => .ok .default) = .ok loaded ↔
      ∃ file, IsFileLayer tree file? file ∧ loaded = file.onto .default := by
  cases file? with
  | none =>
      constructor
      · rintro ⟨⟩
        exact ⟨fun _ => none, fun _ => rfl, (Layer.onto_of_none (fun _ => rfl) _).symm⟩
      · rintro ⟨file, isOpen, rfl⟩
        rw [Layer.onto_of_none isOpen]
  | some path =>
      dsimp only
      rw [Config.run_load]
      constructor
      · intro loads
        split at loads
        next text content =>
          obtain ⟨table, file, isFile, rfl⟩ := Config.ofText_eq_ok_iff.mp loads
          exact ⟨file, ⟨text, table, content, isFile⟩, rfl⟩
        next => cases loads
      · rintro ⟨file, ⟨text, table, content, isFile⟩, rfl⟩
        rw [content]
        exact Config.ofText_eq_ok_iff.mpr ⟨table, file, isFile, rfl⟩

theorem isLayered_iff {given : Given} {flags : Layer} (isFlags : given.IsLayer flags)
    {tree : FileTree} {config : Config} :
    ((loadConfig given).run tree).1 = .ok config ↔
      ∃ file, IsLayered given tree config flags file := by
  rw [run_loadConfig, bind_eq_ok_iff]
  simp only [loaded_eq_ok_iff, withFlags_eq isFlags, Config.validate_eq_ok_iff]
  constructor
  · rintro ⟨loaded, ⟨file, isFile, rfl⟩, rfl, valid⟩
    refine ⟨file, isFlags, isFile, ?_, valid⟩
    intro field
    rw [Layer.get_onto, Layer.get_onto]
  · rintro ⟨file, isLayered⟩
    refine ⟨file.onto .default, ⟨file, isLayered.isFile, rfl⟩, ?_, isLayered.valid⟩
    apply Config.ext_get
    intro field
    rw [Layer.get_onto, Layer.get_onto, isLayered.get_eq]

/-- Every field has the value of its flag if that was given, and otherwise that of the file or of the
default. -/
def Overrides (config : Config) (flags file : Layer) : Prop :=
  ∀ field, config.get field = (flags field).getD ((file field).getD (Config.default.get field))

/-- A flag was given as empty for a field that is not empty without it. -/
def Hides (flags file : Layer) : Prop :=
  ∃ field value, flags field = some value ∧ isEmptySetting field value = true ∧
    isEmptySetting field ((file field).getD (Config.default.get field)) = false

theorem eq_of_isEmptySetting {field : Field} {value other : field.Value}
    (isEmpty : isEmptySetting field value = true) (otherEmpty : isEmptySetting field other = true) :
    value = other := by
  cases field <;> simp_all [isEmptySetting]

/-- The flags override everything else unless one of them hides behind its emptiness. -/
theorem IsLayered.overrides_iff {given : Given} {tree : FileTree} {config : Config}
    {flags file : Layer} (isLayered : IsLayered given tree config flags file) :
    Overrides config flags file ↔ ¬ Hides flags file := by
  constructor
  · rintro overrides ⟨field, value, given, isEmpty, notEmpty⟩
    have same := overrides field
    rw [isLayered.get_eq, shown, given, Option.filter_some, isEmpty, Option.getD_some] at same
    rw [← same] at isEmpty
    exact Bool.noConfusion (isEmpty.symm.trans notEmpty)
  · intro notHides field
    rw [isLayered.get_eq, shown]
    cases given : flags field with
    | none => rfl
    | some value =>
        cases isEmpty : isEmptySetting field value with
        | false => rw [Option.filter_some, isEmpty]; rfl
        | true =>
            -- The flag does not count, but what counts in its place is empty as well.
            have belowEmpty : isEmptySetting field
                ((file field).getD (Config.default.get field)) = true := by
              by_contra notEmpty
              exact notHides ⟨field, value, given, isEmpty, Bool.eq_false_iff.mpr notEmpty⟩
            rw [Option.filter_some, isEmpty]
            exact eq_of_isEmptySetting belowEmpty isEmpty

/-- The settings of a command are valid and come from its flags, then its file, then the default. A
flag that was given overrides the others, unless it is empty and they are not. -/
theorem loadConfig_eq_ok_iff_isLayered {command : CommandName} (takes : command.TakesSettings)
    (arguments : List Bytes) (tree : FileTree) (config : Config) :
    ((loadConfig (givenTo command arguments)).run tree).1 = .ok config ↔
      ∃ flags file, IsLayered (givenTo command arguments) tree config flags file ∧
        (Overrides config flags file ↔ ¬ Hides flags file) := by
  constructor
  · intro loads
    obtain ⟨flags, isFlags⟩ := exists_isLayer_givenTo takes arguments
    obtain ⟨file, isLayered⟩ := (isLayered_iff isFlags).mp loads
    exact ⟨flags, file, isLayered, isLayered.overrides_iff⟩
  · rintro ⟨flags, file, isLayered, _⟩
    exact (isLayered_iff isLayered.isFlags).mpr ⟨file, isLayered⟩

/-- The class comes from its flag, the directory from the latest of its flags, the indentation from
the file, and the switch from the default. -/
theorem loadConfig_eq_ok_iff_isLayered_of_all :
    ∃ arguments tree, arguments = [utf8 "-o", utf8 "x", utf8 "--classe=B", utf8 "-o=y"] ∧
      tree = ⟨[([defaultConfigFile], .file (utf8 "Classe = 'A'\nIndentacao = 2\n"))], .unlimited⟩ ∧
      CommandName.config.TakesSettings ∧
      ((loadConfig (givenTo .config arguments)).run tree).1 = .ok ⟨utf8 "B", utf8 "y", 2, false⟩ ∧
      ∃ flags file,
        IsLayered (givenTo .config arguments) tree ⟨utf8 "B", utf8 "y", 2, false⟩ flags file ∧
        (Overrides ⟨utf8 "B", utf8 "y", 2, false⟩ flags file ↔ ¬ Hides flags file) := by
  have takes : CommandName.config.TakesSettings := .inr rfl
  have loads : ((loadConfig (givenTo .config
      [utf8 "-o", utf8 "x", utf8 "--classe=B", utf8 "-o=y"])).run
      ⟨[([defaultConfigFile], .file (utf8 "Classe = 'A'\nIndentacao = 2\n"))], .unlimited⟩).1 =
      .ok ⟨utf8 "B", utf8 "y", 2, false⟩ := by
    decide +kernel
  exact ⟨_, _, rfl, rfl, takes, loads, (loadConfig_eq_ok_iff_isLayered takes _ _ _).mp loads⟩

/-- A switch that is turned off on the command line stays on if the file turns it on. -/
theorem not_overrides_switch_off :
    ∃ tree flags file, tree = ⟨[([defaultConfigFile], .file (utf8 "Debug = true\n"))], .unlimited⟩ ∧
      IsLayered (givenTo .config [utf8 "--debug=false"]) tree ⟨[], [], 4, true⟩ flags file ∧
      ¬ Overrides ⟨[], [], 4, true⟩ flags file := by
  obtain ⟨flags, isFlags⟩ := exists_isLayer_givenTo (.inr rfl) [utf8 "--debug=false"]
  obtain ⟨file, isLayered⟩ := (isLayered_iff isFlags).mp (show ((loadConfig _).run
      ⟨[([defaultConfigFile], .file (utf8 "Debug = true\n"))], .unlimited⟩).1 =
        .ok ⟨[], [], 4, true⟩ by decide +kernel)
  refine ⟨_, flags, file, rfl, isLayered, ?_⟩
  intro overrides
  have isOff : (givenTo .config [utf8 "--debug=false"]).setting? .debug = some (.switch false) := by
    decide +kernel
  have isRead := isFlags .debug
  rw [isOff, isReading_some] at isRead
  obtain ⟨value, ⟨⟩, given⟩ := isRead
  have isOn := overrides .debug
  rw [given] at isOn
  cases isOn

end VarPrint.CommandLine
