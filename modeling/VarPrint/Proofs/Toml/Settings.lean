/-
# Settings, one on each line

A text with one setting on each line is read line by line: every line gives one pair, and the end of
the text, which is a line of its own, gives nothing. If the value of a line cannot be read, the line
is no setting, nothing is taken from it, and the whole text is malformed. The settings of different
names become the entries of the document in their order.
-/

import VarPrint.Proofs.Text.Boundary
import VarPrint.Proofs.Toml.Document
import VarPrint.Proofs.Toml.Value

namespace VarPrint.Toml

/-- A setting: its name, its value as it is written, and the value that is read on a given line. -/
structure Setting where
  name : List Char
  written : List Char
  read : Nat → Value

namespace Setting

/-- The name, an equals sign between blanks, and the value. -/
def text (setting : Setting) : List Char :=
  setting.name ++ ' ' :: '=' :: ' ' :: setting.written

/-- The name as the entry of a document has it. -/
def key (setting : Setting) : Bytes :=
  Bytes.ofRunes setting.name

/-- The pair that is read from a setting on a given line. -/
def pair (setting : Setting) (line : Nat) : Pair :=
  .mk ⟨setting.name, false, line⟩ (setting.read line) line

end Setting

namespace Grammar

open Rule

variable {text rest name : List Char} {line : Nat}

/-- A name that needs no quotes. -/
def IsBare (name : List Char) : Prop :=
  name ≠ [] ∧ ∀ c ∈ name, isBareKeyChar c = true

theorem ne_of_isBareKeyChar {c other : Char} (isBare : isBareKeyChar c = true)
    (notBare : isBareKeyChar other = false) : c ≠ other := by
  rintro rfl
  exact Bool.noConfusion (isBare.symm.trans notBare)

theorem isNewline_of_isBareKeyChar {c : Char} (isBare : isBareKeyChar c = true) :
    isNewline c = false := by
  rw [isNewline, Bool.or_eq_false_iff, beq_eq_false_iff_ne, beq_eq_false_iff_ne]
  exact ⟨ne_of_isBareKeyChar isBare rfl, ne_of_isBareKeyChar isBare rfl⟩

theorem blanks_of_stops (stops : ∀ c ∈ text.head?, isBlank c = false) :
    blanks ⟨text, line⟩ = some ((), ⟨text, line⟩) :=
  bind_of_some (many_of_none (satisfy_of_stops stops line))

theorem blanks_one (stops : ∀ c ∈ text.head?, isBlank c = false) :
    blanks ⟨' ' :: text, line⟩ = some ((), ⟨text, line⟩) := by
  have single : ∀ c ∈ [' '], isBlank c = true ∧ isNewline c = false := by
    simp [isBlank, isNewline]
  exact bind_of_some (many_satisfy single stops line)

theorem key_bare (isBare : IsBare name) (stops : ∀ c ∈ rest.head?, isBareKeyChar c = false) :
    key ⟨name ++ rest, line⟩ = some (⟨name, false, line⟩, ⟨rest, line⟩) := by
  obtain ⟨nonempty, each⟩ := isBare
  obtain ⟨first, later, rfl⟩ := List.exists_cons_of_ne_nil nonempty
  have plain : ∀ c ∈ first :: later, isBareKeyChar c = true ∧ isNewline c = false :=
    fun c member => ⟨each c member, isNewline_of_isBareKeyChar (each c member)⟩
  rw [List.forall_mem_cons] at plain
  have body : many1 bareKeyChar ⟨first :: later ++ rest, line⟩ =
      some (first :: later, ⟨rest, line⟩) :=
    many1_of_some (satisfy_of_pos plain.1.1 plain.1.2 _ line) (many_satisfy plain.2 stops line)
  exact orElse_of_some (bind_of_some body)

/-- Behind a bare name and an equals sign, a pair is read if its value is. -/
theorem pair_bare (isBare : IsBare name)
    (stops : ∀ c ∈ rest.head?, isBlank c = false) :
    pair value ⟨name ++ ' ' :: '=' :: ' ' :: rest, line⟩ =
      (value ⟨rest, line⟩).map fun (value, after) =>
        (.mk ⟨name, false, line⟩ value after.line, after) := by
  rw [pair, bind_of_some (key_bare isBare (by rintro c ⟨⟩; rfl)),
    bind_of_some (blanks_one (by simp [isBlank])), bind_of_some (char_self rfl _ line),
    bind_of_some (blanks_one stops), bind_eq]
  cases value ⟨rest, line⟩ <;> rfl

theorem lineEnd_of_stops (noBlank : ∀ c ∈ text.head?, isBlank c = false)
    (noComment : text.head? ≠ some '#') : lineEnd ⟨text, line⟩ = some ((), ⟨text, line⟩) := by
  have none : comment ⟨text, line⟩ = none := bind_of_none (char_of_ne noComment line)
  rw [lineEnd, bind_of_some (blanks_of_stops noBlank)]
  exact bind_of_some (perhaps_of_none none)

theorem header_of_ne (noBracket : text.head? ≠ some '[') : header ⟨text, line⟩ = none := by
  have noTable : headerWithin false ['['] [']'] ⟨text, line⟩ = none :=
    bind_of_none (word_of_ne noBracket line)
  rw [header, orElse_of_none noTable]
  exact bind_of_none (word_of_ne noBracket line)

/-- Where no blank and no header stands, an expression is a pair if one is read. -/
theorem expression_of_pair {read : Pair} {after : Cursor}
    (noBlank : ∀ c ∈ text.head?, isBlank c = false)
    (noBracket : text.head? ≠ some '[') (isPair : pair value ⟨text, line⟩ = some (read, after))
    (ends : lineEnd after = some ((), after)) :
    expression ⟨text, line⟩ = some (.pair read, after) := by
  refine (orElse_of_none ?_).trans (orElse_of_some ?_)
  · rw [bind_of_some (blanks_of_stops noBlank)]
    exact bind_of_none (header_of_ne noBracket)
  · rw [bind_of_some (blanks_of_stops noBlank), bind_of_some isPair, bind_of_some ends]
    rfl

/-- Where no pair is read either, an expression is nothing. -/
theorem expression_of_none (noBlank : ∀ c ∈ text.head?, isBlank c = false)
    (noBracket : text.head? ≠ some '[') (noComment : text.head? ≠ some '#')
    (noPair : pair value ⟨text, line⟩ = none) :
    expression ⟨text, line⟩ = some (.nothing, ⟨text, line⟩) := by
  refine (orElse_of_none ?_).trans ((orElse_of_none ?_).trans ?_)
  · rw [bind_of_some (blanks_of_stops noBlank)]
    exact bind_of_none (header_of_ne noBracket)
  · rw [bind_of_some (blanks_of_stops noBlank)]
    exact bind_of_none noPair
  · exact bind_of_some (lineEnd_of_stops noBlank noComment)

/-- A text that begins with a bare name begins with no other mark. -/
theorem IsBare.head?_append (isBare : IsBare name) (rest : List Char) :
    ∀ c ∈ (name ++ rest).head?, isBareKeyChar c = true := by
  obtain ⟨nonempty, each⟩ := isBare
  obtain ⟨first, later, rfl⟩ := List.exists_cons_of_ne_nil nonempty
  rintro _ ⟨⟩
  exact each first List.mem_cons_self

section Bare

variable (isBare : ∀ c ∈ text.head?, isBareKeyChar c = true)

include isBare

theorem noBlank_of_isBare : ∀ c ∈ text.head?, isBlank c = false := by
  intro c isFirst
  rw [isBlank, Bool.or_eq_false_iff, beq_eq_false_iff_ne, beq_eq_false_iff_ne]
  exact ⟨ne_of_isBareKeyChar (isBare c isFirst) rfl, ne_of_isBareKeyChar (isBare c isFirst) rfl⟩

theorem head?_ne_of_isBare {mark : Char} (notBare : isBareKeyChar mark = false) :
    text.head? ≠ some mark :=
  fun isFirst => ne_of_isBareKeyChar (isBare mark isFirst) notBare rfl

end Bare

end Grammar

/-- A setting with a bare name and a value that is read to the end of its line and stored as it
is. -/
structure Setting.IsProper (setting : Setting) : Prop where
  isBare : Grammar.IsBare setting.name
  noBlank : ∀ c ∈ setting.written.head?, Grammar.isBlank c = false
  reads : Grammar.Reads setting.written setting.read
  isStored : ∀ line key, Builder.placeTables key false (setting.read line) = pure false

theorem Setting.IsProper.head?_text_append {setting : Setting} (isProper : setting.IsProper)
    (rest : List Char) : ∀ c ∈ (setting.text ++ rest).head?, Grammar.isBareKeyChar c = true := by
  rw [Setting.text, List.append_assoc]
  exact isProper.isBare.head?_append _

namespace Grammar

open Rule

variable {line : Nat}

theorem expression_setting {setting : Setting} (isProper : setting.IsProper) (after : List Char)
    (line : Nat) : expression ⟨setting.text ++ '\n' :: after, line⟩ =
      some (.pair (setting.pair line), ⟨'\n' :: after, line⟩) := by
  have isBare := isProper.head?_text_append ('\n' :: after)
  have noBlank : ∀ c ∈ (setting.written ++ '\n' :: after).head?, isBlank c = false := by
    have := isProper.noBlank
    cases written : setting.written with
    | nil => simp [isBlank]
    | cons c rest => simpa [written] using this
  have isPair : pair value ⟨setting.text ++ '\n' :: after, line⟩ =
      some (setting.pair line, ⟨'\n' :: after, line⟩) := by
    rw [Setting.text, List.append_assoc]
    exact (pair_bare isProper.isBare noBlank).trans
      (congrArg (Option.map _) (isProper.reads after line))
  exact expression_of_pair (noBlank_of_isBare isBare) (head?_ne_of_isBare isBare rfl) isPair
    (lineEnd_of_stops (by simp [isBlank]) (by simp))

/-- A line whose value cannot be read is left alone. -/
theorem expression_unread {name rest : List Char} (isBare : IsBare name)
    (noBlank : ∀ c ∈ rest.head?, isBlank c = false)
    (unread : value ⟨rest, line⟩ = none) :
    expression ⟨name ++ ' ' :: '=' :: ' ' :: rest, line⟩ =
      some (.nothing, ⟨name ++ ' ' :: '=' :: ' ' :: rest, line⟩) := by
  have begins := isBare.head?_append (' ' :: '=' :: ' ' :: rest)
  have noPair : pair value ⟨name ++ ' ' :: '=' :: ' ' :: rest, line⟩ = none := by
    rw [pair_bare isBare noBlank, unread, Option.map_none]
  exact expression_of_none (noBlank_of_isBare begins) (head?_ne_of_isBare begins rfl)
    (head?_ne_of_isBare begins rfl) noPair

theorem key_end : key ⟨[], line⟩ = none := by
  have notBare : many1 bareKeyChar ⟨[], line⟩ = none :=
    many1_of_none (satisfy_of_stops (by simp) line)
  have notQuoted : quotedBody ⟨[], line⟩ = none := bind_of_none (char_of_ne (by simp) line)
  rw [key, orElse_of_none (bind_of_none notBare)]
  exact bind_of_none notQuoted

theorem expression_end : expression ⟨[], line⟩ = some (.nothing, ⟨[], line⟩) :=
  expression_of_none (by simp) (by simp) (by simp) (bind_of_none key_end)

theorem newlines_of_stops {text : List Char} (stops : ∀ c ∈ text.head?, isNewline c = false) :
    newlines ⟨text, line⟩ = none :=
  many1_of_none (satisfy_of_stops stops line)

theorem newlines_one {text : List Char} (stops : ∀ c ∈ text.head?, isNewline c = false) :
    newlines ⟨'\n' :: text, line⟩ = some (['\n'], ⟨text, line + 1⟩) := by
  have first : satisfy isNewline ⟨'\n' :: text, line⟩ = some ('\n', ⟨text, line + 1⟩) := rfl
  exact many1_of_some first (many_of_none (satisfy_of_stops stops (line + 1)))

/-- A rest of a text on which nothing more is read. -/
structure IsUnread (tail : List Char) : Prop where
  noNewline : ∀ c ∈ tail.head?, isNewline c = false
  expression_eq : ∀ line, expression ⟨tail, line⟩ = some (.nothing, ⟨tail, line⟩)

end Grammar

open VarPrint.Toml.Grammar VarPrint.Toml.Rule

/-- The settings, each on a line of its own. -/
def settingLines (settings : List Setting) : List Char :=
  settings.flatMap fun setting => setting.text ++ ['\n']

/-- The items that are read from settings on successive lines. -/
def settingItems (line : Nat) (settings : List Setting) : List Item :=
  (settings.zipIdx line).map fun (setting, line) => .pair (setting.pair line)

theorem settingLines_cons (setting : Setting) (settings : List Setting) (rest : List Char) :
    settingLines (setting :: settings) ++ rest =
      setting.text ++ '\n' :: (settingLines settings ++ rest) := by
  simp [settingLines]

section Lines

variable {settings : List Setting} {tail : List Char}

/-- Behind a line end, the lines of settings are read up to a rest on which nothing is. -/
theorem repeated_laterLine (proper : ∀ setting ∈ settings, setting.IsProper)
    (isUnread : IsUnread tail) (line : Nat) :
    repeated laterLine ⟨'\n' :: (settingLines settings ++ tail), line⟩ =
      (settingItems (line + 1) settings ++ [.nothing], ⟨tail, line + 1 + settings.length⟩) := by
  induction settings generalizing line with
  | nil =>
      have taken : laterLine ⟨'\n' :: tail, line⟩ = some (.nothing, ⟨tail, line + 1⟩) :=
        (bind_of_some (newlines_one isUnread.noNewline)).trans (isUnread.expression_eq _)
      have stops : laterLine ⟨tail, line + 1⟩ = none :=
        bind_of_none (newlines_of_stops isUnread.noNewline)
      have last := repeated_of_some taken (Nat.lt_succ_self _)
      rwa [repeated_of_none stops] at last
  | cons setting settings ih =>
      rw [List.forall_mem_cons] at proper
      rw [settingLines_cons]
      have noNewline : ∀ c ∈
          (setting.text ++ '\n' :: (settingLines settings ++ tail)).head?, isNewline c = false :=
        fun c isFirst => isNewline_of_isBareKeyChar (proper.1.head?_text_append _ c isFirst)
      have taken : laterLine
          ⟨'\n' :: (setting.text ++ '\n' :: (settingLines settings ++ tail)), line⟩ =
          some (.pair (setting.pair (line + 1)),
            ⟨'\n' :: (settingLines settings ++ tail), line + 1⟩) :=
        (bind_of_some (newlines_one noNewline)).trans (expression_setting proper.1 _ _)
      have shorter : ('\n' :: (settingLines settings ++ tail)).length <
          ('\n' :: (setting.text ++ '\n' :: (settingLines settings ++ tail))).length := by
        simp only [List.length_cons, List.length_append]
        omega
      rw [repeated_of_some taken shorter, ih proper.2]
      simp only [settingItems, List.zipIdx_cons, List.map_cons, List.cons_append, List.length_cons,
        Prod.mk.injEq, Cursor.mk.injEq, true_and]
      omega

theorem finish_eq (line : Nat) :
    finish ⟨tail, line⟩ = if tail = [] then some ((), ⟨tail, line⟩) else none := by
  cases tail with
  | nil => rfl
  | cons c rest => simp [finish, absent, satisfy]

/-- A text of settings is covered by the grammar if and only if nothing is left unread. -/
theorem items?_settingLines (proper : ∀ setting ∈ settings, setting.IsProper)
    (isUnread : IsUnread tail) :
    items? (settingLines settings ++ tail) =
      if tail = [] then some (settingItems 1 settings ++ [.nothing]) else none := by
  -- No line end stands in front of the first line, which may also be the unread one.
  obtain ⟨first, next, later, line, isFirst, areLater, all⟩ :
      ∃ first next later line,
        expression ⟨settingLines settings ++ tail, 1⟩ = some (first, next) ∧
        many laterLine next = some (later, ⟨tail, line⟩) ∧
        first :: later = settingItems 1 settings ++ [.nothing] := by
    cases settings with
    | nil =>
        have stops : laterLine ⟨tail, 1⟩ = none :=
          bind_of_none (newlines_of_stops isUnread.noNewline)
        exact ⟨_, _, _, _, isUnread.expression_eq 1, many_of_none stops, rfl⟩
    | cons setting settings =>
        rw [List.forall_mem_cons] at proper
        rw [settingLines_cons]
        exact ⟨_, _, _, _, expression_setting proper.1 _ 1,
          congrArg some (repeated_laterLine proper.2 isUnread 1), rfl⟩
  have read : items ⟨settingLines settings ++ tail, 1⟩ =
      (finish ⟨tail, line⟩).map fun (_, after) => (first :: later, after) := by
    rw [items, bind_of_some isFirst]
    refine (bind_of_some areLater).trans ?_
    rw [bind_of_some (perhaps_of_none (newlines_of_stops isUnread.noNewline)), bind_eq]
    cases finish ⟨tail, line⟩ <;> rfl
  rw [items?, read, finish_eq, all]
  split <;> rfl

end Lines

/-- The entries that settings on successive lines become. -/
def settingEntries (line : Nat) (settings : List Setting) : List (Bytes × Entry) :=
  (settings.zipIdx line).map fun (setting, line) => (setting.key, .value (setting.read line) line)

theorem placePair_setting {setting : Setting} (isProper : setting.IsProper) (line : Nat) :
    Builder.placePair false (setting.pair line) = (do
      Builder.change line (← get).path setting.key
        (Entry.setValue setting.key line (setting.read line))) := by
  rw [Setting.pair, Builder.placePair, Builder.readKey, Builder.readBody]
  simp only [Bool.false_eq_true, if_false, pure_bind, isProper.isStored]
  rfl

/-- A setting of a new name becomes the last entry. -/
theorem placeItem_setting {setting : Setting} (isProper : setting.IsProper) {table : Table}
    (absent : table.find? setting.key = none) (line : Nat) :
    Builder.placeItem (.pair (setting.pair line)) ⟨table, []⟩ =
      .ok ((), ⟨table.put setting.key (.value (setting.read line) line), []⟩) := by
  have changed : table.change line setting.key
      (Entry.setValue setting.key line (setting.read line)) [] =
      .ok (table.put setting.key (.value (setting.read line) line)) := by
    rw [Table.change, absent]
    rfl
  rw [Builder.placeItem, placePair_setting isProper]
  refine (Builder.change_run _ _ _ _ _).trans ?_
  rw [changed]

/-- Settings of different names become entries in their order. -/
theorem forM_placeItem_settings {settings : List Setting}
    (proper : ∀ setting ∈ settings, setting.IsProper)
    (distinct : (settings.map Setting.key).Nodup) {start : Nat} {hasHeader : Bool}
    {entries : List (Bytes × Entry)}
    (absent : ∀ setting ∈ settings, entries.lookup setting.key = none) (line : Nat) :
    List.forM (settingItems line settings ++ [Item.nothing]) Builder.placeItem
        ⟨.mk start hasHeader entries, []⟩ =
      .ok ((), ⟨.mk start hasHeader (entries ++ settingEntries line settings), []⟩) := by
  induction settings generalizing entries line with
  | nil =>
      rw [settingEntries, List.zipIdx_nil, List.map_nil, List.append_nil]
      rfl
  | cons setting settings ih =>
      rw [List.forall_mem_cons] at proper absent
      rw [List.map_cons, List.nodup_cons] at distinct
      have isNew : (Table.mk start hasHeader entries).find? setting.key = none := absent.1
      have placed := placeItem_setting proper.1 isNew line
      rw [Table.put_of_find?_eq_none isNew] at placed
      have stillAbsent : ∀ other ∈ settings,
          (entries ++ [(setting.key, Entry.value (setting.read line) line)]).lookup other.key =
            none := by
        intro other member
        have different : other.key ≠ setting.key := by
          intro same
          exact distinct.1 (List.mem_map.mpr ⟨other, member, same⟩)
        rw [List.lookup_append, absent.2 other member, List.lookup_cons, beq_false_of_ne different]
        rfl
      refine (Builder.bind_of_ok placed).trans ?_
      refine (ih proper.2 distinct.2 stillAbsent (line + 1)).trans ?_
      rw [List.append_assoc]
      rfl

/-- The document of settings with different names. -/
theorem document_settingLines {settings : List Setting}
    (proper : ∀ setting ∈ settings, setting.IsProper)
    (distinct : (settings.map Setting.key).Nodup) :
    document (Bytes.ofRunes (settingLines settings)) =
      .ok (.mk 1 false (settingEntries 1 settings)) := by
  have isUnread : IsUnread [] := ⟨by simp, fun line => expression_end⟩
  have items := items?_settingLines proper isUnread
  have placed : List.forM (settingItems 1 settings ++ [Item.nothing]) Builder.placeItem
      ⟨.fresh 1 false, []⟩ = .ok ((), ⟨.mk 1 false (settingEntries 1 settings), []⟩) :=
    forM_placeItem_settings proper distinct (fun _ _ => rfl) 1
  rw [List.append_nil, if_pos rfl] at items
  rw [document, Bytes.runes_ofRunes, items]
  show (List.forM _ Builder.placeItem _ >>= fun result => _) = _
  rw [placed]
  rfl

/-- A text of settings is malformed if something is left unread. -/
theorem document_settingLines_append {settings : List Setting}
    (proper : ∀ setting ∈ settings, setting.IsProper) {tail : List Char} (isUnread : IsUnread tail)
    (nonempty : tail ≠ []) :
    document (Bytes.ofRunes (settingLines settings ++ tail)) = .error ⟨.malformed, 0⟩ := by
  rw [document, Bytes.runes_ofRunes, items?_settingLines proper isUnread, if_neg nonempty]

end VarPrint.Toml
