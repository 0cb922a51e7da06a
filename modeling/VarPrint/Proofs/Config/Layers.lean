/-
# Layers of settings

A layer gives some of the fields and leaves the others to what lies below it. A file is such a layer:
each field has the value of the entry of its name, if there is one. A file is accepted exactly if
every entry is named after a field and can be read as its value, and then the layer of the file lies
over what was there before.
-/

import VarPrint.Proofs.Toml.Document
import Mathlib.Logic.Function.Basic

namespace VarPrint.Config

/-- The type of a field. -/
abbrev Field.Value : Field → Type
  | className => Bytes
  | output => Bytes
  | indent => Int
  | debug => Bool

/-- The value of a field. -/
def get (config : Config) : (field : Field) → field.Value
  | .className => config.className
  | .output => config.output
  | .indent => config.indent
  | .debug => config.debug

/-- The configuration with one field set. -/
def set (config : Config) : (field : Field) → field.Value → Config
  | .className, className => { config with className }
  | .output, output => { config with output }
  | .indent, indent => { config with indent }
  | .debug, debug => { config with debug }

theorem ext_get {config other : Config} (same : ∀ field, config.get field = other.get field) :
    config = other := by
  obtain ⟨className, output, indent, debug⟩ := config
  obtain ⟨className', output', indent', debug'⟩ := other
  obtain rfl : className = className' := same .className
  obtain rfl : output = output' := same .output
  obtain rfl : indent = indent' := same .indent
  obtain rfl : debug = debug' := same .debug
  rfl

theorem get_set_self (config : Config) (field : Field) (value : field.Value) :
    (config.set field value).get field = value := by
  cases field <;> rfl

theorem set_get (config : Config) (field : Field) : config.set field (config.get field) = config := by
  cases field <;> rfl

theorem get_set_of_ne (config : Config) {field other : Field} (different : other ≠ field)
    (value : field.Value) : (config.set field value).get other = config.get other := by
  cases field <;> cases other <;> simp_all [get, set]

/-- A value for some of the fields. -/
abbrev Layer : Type :=
  (field : Field) → Option field.Value

namespace Layer

/-- The layer over a configuration, which gives all fields that the layer leaves open. -/
def onto (layer : Layer) (config : Config) : Config where
  className := (layer .className).getD config.className
  output := (layer .output).getD config.output
  indent := (layer .indent).getD config.indent
  debug := (layer .debug).getD config.debug

theorem get_onto (layer : Layer) (config : Config) (field : Field) :
    (layer.onto config).get field = (layer field).getD (config.get field) := by
  cases field <;> rfl

theorem onto_of_none {layer : Layer} (none : ∀ field, layer field = none) (config : Config) :
    layer.onto config = config := by
  apply ext_get
  intro field
  rw [get_onto, none, Option.getD_none]

/-- A field that is set below a layer may as well be given by the layer, if that leaves it open. -/
theorem onto_set {layer : Layer} {field : Field} (isOpen : layer field = none) (config : Config)
    (value : field.Value) :
    layer.onto (config.set field value) =
      onto (Function.update layer field (some value)) config := by
  apply ext_get
  intro other
  rw [get_onto, get_onto]
  by_cases same : other = field
  · subst same
    rw [isOpen, Function.update_self, get_set_self]
    rfl
  · rw [Function.update_of_ne same, get_set_of_ne config same]

end Layer

/-- The value that an entry of a document has for a field. -/
def Field.read? : (field : Field) → Toml.Entry → Option field.Value
  | .className, .value value _ => textOf? value
  | .output, .value value _ => textOf? value
  | .indent, .value (.integer numeral) _ => Numeral.readWord? 64 (plainNumeral numeral)
  | .debug, .value (.boolean isOn) _ => some isOn
  | _, _ => none

/-- A setting is what was given: nothing if nothing was, and otherwise how that is read. -/
def IsReading {α β : Type} (read : α → Option β) (given? : Option α) (setting? : Option β) : Prop :=
  given?.map read = setting?.map some

theorem isReading_none {α β : Type} {read : α → Option β} {setting? : Option β} :
    IsReading read none setting? ↔ setting? = none := by
  cases setting? <;> simp [IsReading]

theorem isReading_some {α β : Type} {read : α → Option β} {given : α} {setting? : Option β} :
    IsReading read (some given) setting? ↔
      ∃ value, read given = some value ∧ setting? = some value := by
  cases setting? <;> simp [IsReading]

theorem IsReading.bind_eq {α β : Type} {read : α → Option β} {given? : Option α}
    {setting? : Option β} (isReading : IsReading read given? setting?) :
    given?.bind read = setting? := by
  cases given? with
  | none => exact (isReading_none.mp isReading).symm
  | some given =>
      obtain ⟨value, isRead, rfl⟩ := isReading_some.mp isReading
      exact isRead

theorem Field.ofName?_eq_some_iff {name : Bytes} {field : Field} :
    ofName? name = some field ↔ name = field.name := by
  constructor
  · intro found
    rw [ofName?] at found
    have same := List.find?_some found
    exact (beq_iff_eq.mp same).symm
  · rintro rfl
    cases field <;> rfl

theorem Field.name_injective {field other : Field} (same : field.name = other.name) :
    field = other := by
  have found := ofName?_eq_some_iff.mpr same
  rw [ofName?_eq_some_iff.mpr rfl] at found
  exact Option.some.inj found

/-- A field is set from a value exactly if the value can be read as one of the field. -/
theorem setField_eq_ok_iff {config result : Config} {field : Field} {value : Toml.Value}
    (isDecodable : value.IsDecodable) (line : Nat) :
    config.setField field value = .ok result ↔
      ∃ read, field.read? (.value value line) = some read ∧ result = config.set field read := by
  cases field with
  | className =>
      cases value with
      | text body hasEscapes last =>
          obtain ⟨text, isText⟩ := Option.isSome_iff_exists.mp (isDecodable body hasEscapes last rfl)
          simp [setField, Field.read?, isText, set, eq_comm]
      | _ => simp [setField, Field.read?, textOf?]
  | output =>
      cases value with
      | text body hasEscapes last =>
          obtain ⟨text, isText⟩ := Option.isSome_iff_exists.mp (isDecodable body hasEscapes last rfl)
          simp [setField, Field.read?, isText, set, eq_comm]
      | _ => simp [setField, Field.read?, textOf?]
  | indent =>
      cases value with
      | integer numeral =>
          cases isRead : Numeral.readWord? 64 (plainNumeral numeral) <;>
            simp [setField, Field.read?, isRead, set, eq_comm]
      | _ => simp [setField, Field.read?]
  | debug =>
      cases value with
      | boolean isOn => simp [setField, Field.read?, set, eq_comm]
      | _ => simp [setField, Field.read?]

/-- A name is set from an entry exactly if it is that of a field and the entry can be read as its
value. -/
theorem setEntry_eq_ok_iff {config result : Config} {name : Bytes} {entry : Toml.Entry}
    (isDecodable : entry.IsDecodable) :
    config.setEntry name entry = .ok result ↔
      ∃ field : Field, name = field.name ∧
        ∃ read, field.read? entry = some read ∧ result = config.set field read := by
  rw [setEntry]
  cases found : Field.ofName? name with
  | none =>
      simp only [reduceCtorEq, false_iff]
      rintro ⟨field, isName, _⟩
      rw [Field.ofName?_eq_some_iff.mpr isName] at found
      cases found
  | some field =>
      obtain rfl := Field.ofName?_eq_some_iff.mp found
      have only : (∃ other : Field, field.name = other.name ∧
          ∃ read, other.read? entry = some read ∧ result = config.set other read) ↔
          ∃ read, field.read? entry = some read ∧ result = config.set field read := by
        constructor
        · rintro ⟨other, same, isRead⟩
          obtain rfl := Field.name_injective same
          exact isRead
        · exact fun isRead => ⟨field, rfl, isRead⟩
      rw [only]
      cases entry with
      | value value line => exact setField_eq_ok_iff (isDecodable value line rfl) line
      | table table => cases field <;> simp [Field.read?]
      | tables latest earlier => cases field <;> simp [Field.read?]

section Entries

variable {entries : List (Bytes × Toml.Entry)} {file : Bytes} {config loaded : Config}

/-- The layer of the entries of a document. -/
def Layer.IsOf (layer : Layer) (entries : List (Bytes × Toml.Entry)) : Prop :=
  ∀ field, IsReading field.read? (entries.lookup field.name) (layer field)

theorem setEntries_cons_eq_ok_iff {name : Bytes} {entry : Toml.Entry} :
    setEntries file config ((name, entry) :: entries) = .ok loaded ↔
      ∃ between, config.setEntry name entry = .ok between ∧
        setEntries file between entries = .ok loaded := by
  rw [setEntries, List.foldlM_cons, bind_eq_ok_iff]
  simp only [mapError_eq_ok_iff]
  rfl

theorem Layer.IsOf.eq_none {layer : Layer} (isOf : layer.IsOf entries) {field : Field}
    (isNew : field.name ∉ entries.map Prod.fst) : layer field = none := by
  have isRead := isOf field
  rwa [lookup_eq_none_iff_not_mem.mpr isNew, isReading_none] at isRead

/-- In front of entries of other names, an entry gives its field a value. -/
theorem Layer.isOf_cons_iff {layer : Layer} {field : Field} {entry : Toml.Entry}
    (isNew : field.name ∉ entries.map Prod.fst) :
    layer.IsOf ((field.name, entry) :: entries) ↔
      ∃ value below, field.read? entry = some value ∧ IsOf below entries ∧
        layer = Function.update below field (some value) := by
  have absent : entries.lookup field.name = none := lookup_eq_none_iff_not_mem.mpr isNew
  have skipped : ∀ other : Field, other ≠ field →
      ((field.name, entry) :: entries).lookup other.name = entries.lookup other.name := by
    intro other different
    have otherName : other.name ≠ field.name := fun same => different (Field.name_injective same)
    rw [List.lookup_cons, beq_false_of_ne otherName]
  constructor
  · intro isOf
    have isRead := isOf field
    rw [List.lookup_cons_self, isReading_some] at isRead
    obtain ⟨value, isRead, given⟩ := isRead
    refine ⟨value, Function.update layer field none, isRead, ?_, ?_⟩
    · intro other
      by_cases same : other = field
      · subst same
        rw [absent, Function.update_self, isReading_none]
      · rw [Function.update_of_ne same, ← skipped other same]
        exact isOf other
    · rw [Function.update_idem, ← given, Function.update_eq_self]
  · rintro ⟨value, below, isRead, isOf, rfl⟩ other
    by_cases same : other = field
    · subst same
      rw [List.lookup_cons_self, Function.update_self, isReading_some]
      exact ⟨value, isRead, rfl⟩
    · rw [Function.update_of_ne same, skipped other same]
      exact isOf other

/-- Entries of different names are set exactly if each is named after a field and can be read as its
value; then their layer lies over what was there before. -/
theorem setEntries_eq_ok_iff (distinct : (entries.map Prod.fst).Nodup)
    (isDecodable : ∀ entry ∈ entries, entry.2.IsDecodable) :
    setEntries file config entries = .ok loaded ↔
      (∀ name ∈ entries.map Prod.fst, ∃ field : Field, name = field.name) ∧
        ∃ layer : Layer, layer.IsOf entries ∧ loaded = layer.onto config := by
  induction entries generalizing config with
  | nil =>
      constructor
      · rintro ⟨⟩
        exact ⟨by simp, fun _ => none, fun _ => rfl, (Layer.onto_of_none (fun _ => rfl) _).symm⟩
      · rintro ⟨_, layer, isOf, rfl⟩
        rw [Layer.onto_of_none fun field => isOf.eq_none List.not_mem_nil]
        rfl
  | cons first rest ih =>
      obtain ⟨name, entry⟩ := first
      rw [List.map_cons, List.nodup_cons] at distinct
      rw [List.forall_mem_cons] at isDecodable
      rw [setEntries_cons_eq_ok_iff, List.map_cons, List.forall_mem_cons]
      -- The later entries leave the field of the first open, so it does not matter whether it is
      -- set below their layer or given by it.
      constructor
      · rintro ⟨between, isSet, later⟩
        obtain ⟨field, rfl, value, isRead, rfl⟩ := (setEntry_eq_ok_iff isDecodable.1).mp isSet
        obtain ⟨fields, below, isOf, rfl⟩ := (ih distinct.2 isDecodable.2).mp later
        refine ⟨⟨⟨field, rfl⟩, fields⟩, Function.update below field (some value), ?_, ?_⟩
        · exact (Layer.isOf_cons_iff distinct.1).mpr ⟨value, below, isRead, isOf, rfl⟩
        · exact Layer.onto_set (isOf.eq_none distinct.1) config value
      · rintro ⟨⟨⟨field, rfl⟩, fields⟩, layer, isOf, rfl⟩
        obtain ⟨value, below, isRead, isBelow, rfl⟩ := (Layer.isOf_cons_iff distinct.1).mp isOf
        refine ⟨config.set field value, ?_, ?_⟩
        · exact (setEntry_eq_ok_iff isDecodable.1).mpr ⟨field, rfl, value, isRead, rfl⟩
        · refine (ih distinct.2 isDecodable.2).mpr ⟨fields, below, isBelow, ?_⟩
          exact (Layer.onto_set (isBelow.eq_none distinct.1) config value).symm

end Entries

theorem validate_eq_ok_iff {config result : Config} :
    config.validate = .ok result ↔ config = result ∧ result.problem? = none := by
  rw [validate]
  cases problem : config.problem? with
  | none =>
      constructor
      · rintro ⟨⟩
        exact ⟨rfl, problem⟩
      · rintro ⟨rfl, _⟩
        rfl
  | some error =>
      constructor
      · rintro ⟨⟩
      · rintro ⟨rfl, valid⟩
        rw [valid] at problem
        cases problem

/-- What a file has to be for its layer to lie over a configuration: a document whose names are all
those of fields, with a value of each field that can be read, and a valid result. -/
structure Layer.IsFile (layer : Layer) (text : Bytes) (config : Config) (table : Toml.Table) :
    Prop where
  isDocument : Toml.document text = .ok table
  fields : ∀ name ∈ table.names, ∃ field : Field, name = field.name
  isOf : layer.IsOf table.entries
  valid : (layer.onto config).problem? = none

/-- A text is accepted exactly if it is a file of some layer, which then lies over what was there
before. -/
theorem ofText_eq_ok_iff {file text : Bytes} {config loaded : Config} :
    ofText file config text = .ok loaded ↔
      ∃ table layer, Layer.IsFile layer text config table ∧ loaded = layer.onto config := by
  rw [ofText, bind_eq_ok_iff]
  constructor
  · rintro ⟨table, isDocument, ran⟩
    obtain ⟨result, isSet, isValid⟩ := bind_eq_ok_iff.mp ran
    obtain ⟨rfl, valid⟩ := validate_eq_ok_iff.mp isValid
    have isDocument := mapError_eq_ok_iff.mp isDocument
    have isSound := Toml.isSound_of_document isDocument
    obtain ⟨fields, layer, isOf, rfl⟩ :=
      (setEntries_eq_ok_iff isSound.distinct isSound.isDecodable).mp isSet
    exact ⟨table, layer, ⟨isDocument, fields, isOf, valid⟩, rfl⟩
  · rintro ⟨table, layer, ⟨isDocument, fields, isOf, valid⟩, rfl⟩
    have isSound := Toml.isSound_of_document isDocument
    refine ⟨table, mapError_eq_ok_iff.mpr isDocument, bind_eq_ok_iff.mpr ⟨layer.onto config, ?_, ?_⟩⟩
    · exact (setEntries_eq_ok_iff isSound.distinct isSound.isDecodable).mpr
        ⟨fields, layer, isOf, rfl⟩
    · exact validate_eq_ok_iff.mpr ⟨rfl, valid⟩

/-- Loading a file reads its text and leaves all files alone. -/
theorem run_load (file : Bytes) (config : Config) (tree : FileTree) :
    (load file config).run tree =
      (match tree.read file with
        | .ok text => ofText file config text
        | .error error =>
          .error (if error.operation = .reading then .unread error else .unopened error), tree) := by
  rw [load, FileTask.run_bind]
  show FileTask.run (match tree.read file with
    | .ok text => pure (ofText file config text)
    | .error error =>
      pure (.error (if error.operation = .reading then .unread error else .unopened error))) tree = _
  cases tree.read file <;> rfl

theorem run_load_of_read {file text : Bytes} {tree : FileTree}
    (content : tree.read file = .ok text) (config : Config) :
    (load file config).run tree = (ofText file config text, tree) := by
  rw [run_load, content]

end VarPrint.Config
