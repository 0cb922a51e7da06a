/-
# What holds of every document

However a document is built, no table of it gets two entries of one name at its top, and every text
that becomes the value of an entry has escapes that can be read. Both are kept by each change of a
table, and a document comes about by such changes only.
-/

import VarPrint.Config.Load
import VarPrint.Proofs.Lookup
import VarPrint.Proofs.Outcome
import VarPrint.Toml.Document

namespace VarPrint.Toml

namespace Table

variable {table : Table} {name : Bytes} {entry : Entry}

/-- The names of the entries in order. -/
def names (table : Table) : List Bytes :=
  table.entries.map Prod.fst

theorem find?_eq_none_iff : table.find? name = none ↔ name ∉ table.names :=
  lookup_eq_none_iff_not_mem

theorem put_of_find?_eq_none (absent : table.find? name = none) (entry : Entry) :
    table.put name entry = .mk table.line table.hasHeader (table.entries ++ [(name, entry)]) := by
  rw [put, absent]
  rfl

theorem names_put_of_isSome (present : (table.find? name).isSome) (entry : Entry) :
    (table.put name entry).names = table.names := by
  rw [put, if_pos present, names, entries, List.map_map, names]
  apply List.map_congr_left
  intro old _
  rw [Function.comp_apply]
  split
  next isNamed => exact isNamed.symm
  next => rfl

/-- Setting an entry keeps the names apart. -/
theorem nodup_names_put (distinct : table.names.Nodup) (name : Bytes) (entry : Entry) :
    (table.put name entry).names.Nodup := by
  cases found : table.find? name with
  | none =>
      rw [put_of_find?_eq_none found, names, entries, List.map_append, List.map_singleton,
        ← List.concat_eq_append]
      exact distinct.concat (find?_eq_none_iff.mp found)
  | some old =>
      rw [names_put_of_isSome (by rw [found]; rfl)]
      exact distinct

theorem mem_entries_put {other : Bytes × Entry} (member : other ∈ (table.put name entry).entries) :
    other ∈ table.entries ∨ other = (name, entry) := by
  rw [put] at member
  split at member
  · obtain ⟨old, isOld, rfl⟩ := List.mem_map.mp member
    split
    · exact .inr rfl
    · exact .inl isOld
  · rw [entries, List.mem_append, List.mem_singleton] at member
    exact member

end Table

/-- A value that is a text has escapes that can be read. -/
def Value.IsDecodable (value : Value) : Prop :=
  ∀ body hasEscapes line, value = .text body hasEscapes line → (Config.textOf? value).isSome

/-- An entry that is a value is one that can be read. -/
def Entry.IsDecodable (entry : Entry) : Prop :=
  ∀ value line, entry = .value value line → value.IsDecodable

/-- The entries of a table have different names, and their values can be read. -/
structure Table.IsSound (table : Table) : Prop where
  distinct : table.names.Nodup
  isDecodable : ∀ entry ∈ table.entries, entry.2.IsDecodable

theorem Table.IsSound.put {table : Table} (isSound : table.IsSound) {entry : Entry}
    (isDecodable : entry.IsDecodable) (name : Bytes) : (table.put name entry).IsSound where
  distinct := table.nodup_names_put isSound.distinct name entry
  isDecodable := by
    intro other member
    obtain old | rfl := table.mem_entries_put member
    · exact isSound.isDecodable other old
    · exact isDecodable

/-- What may be made of an entry can be read. -/
def MakesDecodable (make : Option Entry → Except Problem Entry) : Prop :=
  ∀ old entry, make old = .ok entry → entry.IsDecodable

theorem isDecodable_table (table : Table) : (Entry.table table).IsDecodable := by
  rintro _ _ ⟨⟩

theorem isDecodable_tables (latest : Table) (earlier : List Table) :
    (Entry.tables latest earlier).IsDecodable := by
  rintro _ _ ⟨⟩

theorem makesDecodable_openTable (name : Bytes) (line : Nat) (hasHeader : Bool) :
    MakesDecodable (Entry.openTable name line hasHeader) := by
  intro old entry made
  unfold Entry.openTable at made
  split at made
  · cases made
    exact isDecodable_table _
  · cases made
  · split at made
    · cases made
    · cases made
      exact isDecodable_table _
  · cases made

theorem makesDecodable_openTables (name : Bytes) (line : Nat) :
    MakesDecodable (Entry.openTables name line) := by
  intro old entry made
  unfold Entry.openTables at made
  split at made <;> cases made
  · exact isDecodable_tables _ _
  · exact isDecodable_tables _ _

theorem makesDecodable_open (isArray : Bool) (name : Bytes) (line : Nat) (hasHeader : Bool) :
    MakesDecodable (if isArray then Entry.openTables name line
      else Entry.openTable name line hasHeader) := by
  split
  · exact makesDecodable_openTables name line
  · exact makesDecodable_openTable name line hasHeader

theorem makesDecodable_setValue {value : Value} (isDecodable : value.IsDecodable) (key : Bytes)
    (line : Nat) : MakesDecodable (Entry.setValue key line value) := by
  intro old entry made
  unfold Entry.setValue at made
  split at made <;> cases made
  rintro _ _ ⟨⟩
  exact isDecodable

/-- A change below a path keeps a table sound. -/
theorem Table.IsSound.change {table table' : Table} (isSound : table.IsSound) {line : Nat}
    {name : Bytes} {make : Option Entry → Except Problem Entry} (makes : MakesDecodable make)
    {path : List Bytes} (changed : table.change line name make path = .ok table') :
    table'.IsSound := by
  cases path with
  | nil =>
      rw [Table.change, bind_eq_ok_iff] at changed
      obtain ⟨entry, made, ⟨⟩⟩ := changed
      exact isSound.put (makes _ _ made) name
  | cons key path =>
      rw [Table.change] at changed
      split at changed
      · rw [bind_eq_ok_iff] at changed
        obtain ⟨inner, _, ⟨⟩⟩ := changed
        exact isSound.put (isDecodable_table inner) key
      · rw [bind_eq_ok_iff] at changed
        obtain ⟨inner, _, ⟨⟩⟩ := changed
        exact isSound.put (isDecodable_table inner) key
      · rw [bind_eq_ok_iff] at changed
        obtain ⟨inner, _, ⟨⟩⟩ := changed
        exact isSound.put (isDecodable_tables inner _) key
      · cases changed

namespace Builder

variable {α β : Type}

theorem bind_ok {action : BuildM α} {next : α → BuildM β} {builder builder' : Builder} {result : β}
    (ran : (action >>= next) builder = .ok (result, builder')) :
    ∃ value between, action builder = .ok (value, between) ∧
      next value between = .ok (result, builder') := by
  obtain ⟨⟨value, between⟩, first, later⟩ := bind_eq_ok_iff.mp ran
  exact ⟨value, between, first, later⟩

theorem bind_of_ok {action : BuildM α} {next : α → BuildM β} {builder between : Builder} {value : α}
    (ran : action builder = .ok (value, between)) :
    (action >>= next) builder = next value between := by
  show (action builder >>= fun result => next result.1 result.2) = _
  rw [ran]
  rfl

theorem change_run (line : Nat) (path : List Bytes) (name : Bytes)
    (make : Option Entry → Except Problem Entry) (builder : Builder) :
    change line path name make builder =
      match builder.root.change line name make path with
      | .ok root => .ok ((), { builder with root })
      | .error problem => .error ⟨problem, line⟩ := by
  show (match builder.root.change line name make path with
    | .ok root => set { builder with root }
    | .error problem => throw ⟨problem, line⟩ : BuildM Unit) builder = _
  cases builder.root.change line name make path <;> rfl

/-- An action that, where it succeeds, keeps the document sound. -/
def Keeps (action : BuildM α) : Prop :=
  ∀ builder value builder', action builder = .ok (value, builder') → builder.root.IsSound →
    builder'.root.IsSound

theorem keeps_pure (value : α) : Keeps (pure value) := by
  rintro builder _ _ ⟨⟩ isSound
  exact isSound

theorem Keeps.bind {action : BuildM α} {next : α → BuildM β} (first : Keeps action)
    (later : ∀ value, Keeps (next value)) : Keeps (action >>= next) := by
  intro builder result builder' ran isSound
  obtain ⟨value, between, ranFirst, ranLater⟩ := bind_ok ran
  exact later value _ _ _ ranLater (first _ _ _ ranFirst isSound)

theorem keeps_change {line : Nat} {path : List Bytes} {name : Bytes}
    {make : Option Entry → Except Problem Entry} (makes : MakesDecodable make) :
    Keeps (change line path name make) := by
  intro builder value builder' ran isSound
  rw [change_run] at ran
  split at ran
  next root changed =>
    cases ran
    exact isSound.change makes changed
  next => cases ran

theorem keeps_get : Keeps get := by
  rintro builder _ _ ⟨⟩ isSound
  exact isSound

/-- Only the root has to be sound, whatever the path is. -/
theorem keeps_modify {f : Builder → Builder}
    (sameRoot : ∀ builder, (f builder).root = builder.root) : Keeps (modify f) := by
  rintro builder _ _ ⟨⟩ isSound
  show (f builder).root.IsSound
  rwa [sameRoot]

theorem keeps_readBody (body : List Char) (hasEscapes : Bool) (line : Nat) :
    Keeps (readBody body hasEscapes line) := by
  unfold readBody
  split
  · split
    · exact keeps_pure _
    · rintro _ _ _ ⟨⟩
  · exact keeps_pure _

theorem keeps_inside {name : Bytes} {action : BuildM Unit} (keeps : Keeps action) :
    Keeps (inside name action) := by
  refine keeps_get.bind fun builder => ?_
  refine Keeps.bind (keeps_modify ?_) fun _ => keeps.bind fun _ => keeps_modify ?_
  · exact fun _ => rfl
  · exact fun _ => rfl

/-- A text that is placed has escapes that can be read. -/
theorem isDecodable_of_placeTables {key : Bytes} {inArray holds : Bool} {value : Value}
    {builder builder' : Builder}
    (placed : placeTables key inArray value builder = .ok (holds, builder')) :
    value.IsDecodable := by
  rintro body hasEscapes line rfl
  rw [placeTables] at placed
  obtain ⟨text, between, isRead, _⟩ := bind_ok placed
  cases hasEscapes with
  | false => rfl
  | true =>
      rw [Config.textOf?, Option.isSome_map]
      cases decoded : Quoted.decode? body with
      | none =>
          rw [readBody, if_pos rfl, decoded] at isRead
          cases isRead
      | some runes => rfl

mutual

theorem keeps_placeTables (key : Bytes) (inArray : Bool) :
    (value : Value) → Keeps (placeTables key inArray value)
  | .text body hasEscapes line => by
      rw [placeTables]
      exact (keeps_readBody body hasEscapes line).bind fun _ => keeps_pure _
  | .array items => by
      rw [placeTables]
      exact keeps_placeItems key items
  | .table line pairs => by
      have makes := makesDecodable_open inArray key line false
      rw [placeTables]
      exact keeps_get.bind fun _ => (keeps_change makes).bind fun _ =>
        (keeps_inside (keeps_placePairs inArray pairs)).bind fun _ => keeps_pure _
  | .integer _ => keeps_pure _
  | .float _ => keeps_pure _
  | .boolean _ => keeps_pure _
  | .datetime _ _ => keeps_pure _

theorem keeps_placeItems (key : Bytes) : (items : List Value) → Keeps (placeItems key items)
  | [] => keeps_pure _
  | item :: rest => by
      rw [placeItems]
      exact (keeps_placeTables key true item).bind fun _ =>
        (keeps_placeItems key rest).bind fun _ => keeps_pure _

theorem keeps_placePair (inArray : Bool) : (pair : Pair) → Keeps (placePair inArray pair)
  | .mk key value line => by
      rw [placePair]
      refine (keeps_readBody key.body key.isQuoted key.line).bind fun name => ?_
      -- The text of the value can be decoded because it was placed, so the run is needed here.
      intro builder result builder' ran isSound
      obtain ⟨holds, between, placed, stored⟩ := bind_ok ran
      have isSound := keeps_placeTables name inArray value _ _ _ placed isSound
      cases holds with
      | true =>
          cases stored
          exact isSound
      | false =>
          have makes := makesDecodable_setValue (isDecodable_of_placeTables placed) name line
          exact keeps_get.bind (fun _ => keeps_change makes) _ _ _ stored isSound

theorem keeps_placePairs (inArray : Bool) : (pairs : List Pair) → Keeps (placePairs inArray pairs)
  | [] => keeps_pure _
  | pair :: rest => by
      rw [placePairs]
      exact (keeps_placePair inArray pair).bind fun _ => keeps_placePairs inArray rest

end

theorem keeps_mapM_readKey (keys : List Key) : Keeps (keys.mapM readKey) := by
  induction keys with
  | nil => exact keeps_pure _
  | cons key keys ih =>
      rw [List.mapM_cons]
      exact (keeps_readBody key.body key.isQuoted key.line).bind fun _ =>
        ih.bind fun _ => keeps_pure _

theorem keeps_placeHeader (header : Header) : Keeps (placeHeader header) := by
  have makes := makesDecodable_open header.isArray (Bytes.ofRunes header.name) header.line true
  refine (keeps_mapM_readKey header.keys).bind fun names => (keeps_change makes).bind fun _ => ?_
  exact keeps_modify fun _ => rfl

theorem keeps_placeItem : (item : Item) → Keeps (placeItem item)
  | .nothing => keeps_pure _
  | .pair pair => keeps_placePair false pair
  | .table header pairs => (keeps_placeHeader header).bind fun _ => keeps_placePairs false pairs

theorem keeps_forM_placeItem (items : List Item) : Keeps (items.forM placeItem) := by
  induction items with
  | nil => exact keeps_pure _
  | cons item items ih => exact (keeps_placeItem item).bind fun _ => ih

end Builder

/-- Every document is sound. -/
theorem isSound_of_document {text : Bytes} {table : Table} (built : document text = .ok table) :
    table.IsSound := by
  unfold document at built
  split at built
  · cases built
  · obtain ⟨⟨_, builder⟩, ran, ⟨⟩⟩ := bind_eq_ok_iff.mp built
    refine Builder.keeps_forM_placeItem _ _ _ _ ran ⟨List.nodup_nil, ?_⟩
    exact fun entry member => absurd member List.not_mem_nil

end VarPrint.Toml
