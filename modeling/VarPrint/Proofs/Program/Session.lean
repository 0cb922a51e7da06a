/-
# One scope for several drafts

The scope that a check leaves can be used to check the next draft, whether or not the check came to
the end. A session is a list of drafts that are checked in this way. Its outcomes keep what the
result of a single check drops: how far each check came, and the scope and the draft at that point.

Every entry of a draft either passes, and then adds one variable at most, or fails and changes
nothing. So the two tables of the scope are in step after every check of a session, also after one
that failed, and from one check to the next they only grow.
-/

import VarPrint.Proofs.Program.Scoping
import Mathlib.Data.Set.Operations

namespace VarPrint

theorem Command.complete?_eq_some_iff {command : Command (Option Expr)}
    {complete : Command Expr} : command.complete? = some complete ↔ command = complete.toDraft := by
  constructor
  · intro isComplete
    cases command with
    | declare name value ty token =>
        obtain ⟨expr, rfl, rfl⟩ := Option.map_eq_some_iff.mp isComplete
        rfl
    | print argument token =>
        obtain ⟨expr, rfl, rfl⟩ := Option.map_eq_some_iff.mp isComplete
        rfl
  · rintro rfl
    exact complete.complete?_toDraft

namespace Draft

/-- A command of a draft, or the gap where one is missing. -/
abbrev Entry := Option (Command (Option Expr))

/-- Checks one entry of a draft, which has to be complete. -/
def checkEntry (scope : Scope) : Entry → Except Fault (Scope × Command Expr)
  | none => .error .missingCommand
  | some command =>
    match command.complete? with
    | none => .error .missingExpr
    | some command => (scope.checkCommand command).mapError .syntaxError

/-- What checking a draft gives: the scope and the draft as far as the check came, the number of
entries that passed, and the fault that ended it. -/
structure Outcome where
  scope : Scope
  draft : Draft
  passed : Nat
  fault? : Option Fault
deriving DecidableEq, Repr

/-- One more entry that passed, in front of the others. -/
def Outcome.prepend (checked : Command Expr) (outcome : Outcome) : Outcome :=
  { outcome with draft := some checked.toDraft :: outcome.draft, passed := outcome.passed + 1 }

/-- Checks the entries of a draft in order, up to the first that fails. -/
def examine (scope : Scope) : Draft → Outcome
  | [] => ⟨scope, [], 0, none⟩
  | entry :: rest =>
    match checkEntry scope entry with
    | .error fault => ⟨scope, entry :: rest, 0, some fault⟩
    | .ok (next, checked) => (examine next rest).prepend checked

/-- The outcomes of several drafts that are checked one after the other with one scope. -/
def examineEach (scope : Scope) : List Draft → List Outcome
  | [] => []
  | draft :: rest => examine scope draft :: examineEach (examine scope draft).scope rest

section Entries

variable {scope next : Scope} {entry : Entry} {rest : Draft} {checked : Command Expr}
  {fault : Fault}

/-- An entry passes exactly if it is a complete command that passes. -/
theorem checkEntry_eq_ok_iff : checkEntry scope entry = .ok (next, checked) ↔
    ∃ command, entry = some (Command.toDraft command) ∧
      scope.checkCommand command = .ok (next, checked) := by
  constructor
  · intro passes
    cases entry with
    | none => cases passes
    | some command =>
        rw [checkEntry] at passes
        cases complete : command.complete? with
        | none =>
            rw [complete] at passes
            cases passes
        | some command =>
            rw [complete] at passes
            rw [Command.complete?_eq_some_iff.mp complete]
            exact ⟨command, rfl, mapError_eq_ok_iff.mp passes⟩
  · rintro ⟨command, rfl, passes⟩
    rw [checkEntry, Command.complete?_toDraft]
    exact mapError_eq_ok_iff.mpr passes

theorem examine_of_error (failed : checkEntry scope entry = .error fault) :
    examine scope (entry :: rest) = ⟨scope, entry :: rest, 0, some fault⟩ := by
  rw [examine, failed]

theorem examine_of_ok (passes : checkEntry scope entry = .ok (next, checked)) :
    examine scope (entry :: rest) = (examine next rest).prepend checked := by
  rw [examine, passes]

end Entries

/-! ## The checks of programs and of drafts -/

/-- The scope and the program with its types, or the fault that ended the check. -/
def Outcome.result (outcome : Outcome) : Except Fault (Scope × Program) :=
  match outcome.fault? with
  | some fault => .error fault
  | none => (complete outcome.draft).map fun program => (outcome.scope, program)

/-- The outcome has the result of the check, and agrees in everything with the check of a program if
nothing is missing. -/
structure Outcome.IsCheckOf (scope : Scope) (draft : Draft) (outcome : Outcome) : Prop where
  result_eq : outcome.result = Draft.check scope draft
  ofProgram : ∀ program : Program, draft = program.toDraft →
    outcome.scope = (scope.check program).scope ∧
      outcome.draft = (scope.check program).program.toDraft ∧
      outcome.fault? = (scope.check program).error?.map .syntaxError

theorem complete_cons (command : Command Expr) (rest : Draft) :
    complete (some command.toDraft :: rest) = (complete rest).map (command :: ·) := by
  simp only [complete, List.mapM_cons, Option.bind_some, Command.complete?_toDraft]
  cases rest.mapM fun command => command.bind Command.complete? <;> rfl

theorem result_prepend (checked : Command Expr) (outcome : Outcome) :
    (outcome.prepend checked).result =
      outcome.result.map fun result => (result.1, checked :: result.2) := by
  obtain ⟨scope, draft, passed, fault?⟩ := outcome
  cases fault? with
  | some fault => rfl
  | none =>
      simp only [Outcome.prepend, Outcome.result, complete_cons]
      cases complete draft <;> rfl

/-- The check of a draft is that of its first entry, and then of the others. -/
theorem check_cons (scope : Scope) (entry : Entry) (rest : Draft) :
    Draft.check scope (entry :: rest) = checkEntry scope entry >>= fun step =>
      (Draft.check step.1 rest).map fun result => (result.1, step.2 :: result.2) := by
  cases entry with
  | none => rfl
  | some command =>
      rw [Draft.check, checkEntry]
      cases command.complete? with
      | none => rfl
      | some command =>
          dsimp only
          cases scope.checkCommand command with
          | error error => rfl
          | ok step =>
              change (Draft.check step.1 rest >>= _) = Except.map _ (Draft.check step.1 rest)
              cases Draft.check step.1 rest <;> rfl

theorem result_examine (scope : Scope) (draft : Draft) :
    (examine scope draft).result = Draft.check scope draft := by
  induction draft generalizing scope with
  | nil => rfl
  | cons entry rest ih =>
      rw [check_cons]
      cases checking : checkEntry scope entry with
      | error fault =>
          rw [examine_of_error checking]
          rfl
      | ok step =>
          rw [examine_of_ok checking, result_prepend, ih]
          rfl

theorem examine_toDraft (scope : Scope) (program : Program) :
    (examine scope program.toDraft).scope = (scope.check program).scope ∧
      (examine scope program.toDraft).draft = (scope.check program).program.toDraft ∧
      (examine scope program.toDraft).fault? =
        (scope.check program).error?.map .syntaxError := by
  induction program generalizing scope with
  | nil => exact ⟨rfl, rfl, rfl⟩
  | cons command rest ih =>
      have split : Program.toDraft (command :: rest) = some command.toDraft :: Program.toDraft rest :=
        rfl
      rw [split]
      cases checking : scope.checkCommand command with
      | error error =>
          have failed : checkEntry scope (some command.toDraft) = .error (.syntaxError error) := by
            rw [checkEntry, Command.complete?_toDraft]
            dsimp only
            rw [checking]
            rfl
          rw [examine_of_error failed, Scope.check, checking]
          exact ⟨rfl, rfl, rfl⟩
      | ok result =>
          obtain ⟨next, checked⟩ := result
          obtain ⟨scopes, drafts, faults⟩ := ih next
          rw [examine_of_ok (checkEntry_eq_ok_iff.mpr ⟨command, rfl, checking⟩), Scope.check,
            checking]
          exact ⟨scopes, congrArg (List.cons _) drafts, faults⟩

theorem examine_isCheckOf (scope : Scope) (draft : Draft) :
    (examine scope draft).IsCheckOf scope draft where
  result_eq := result_examine scope draft
  ofProgram program isDraft := isDraft ▸ examine_toDraft scope program

end Draft

/-! ## Tables that stay in step -/

namespace Scope

/-- The tables of a scope are maps, and the second one is the first one read backwards: it has the
declared variables under their Java names, and nothing else. -/
structure IsTable (scope : Scope) : Prop where
  namesOnce : (scope.types.map Prod.fst).Nodup
  javaNamesOnce : (scope.owners.map Prod.fst).Nodup
  owner?_iff : ∀ javaName name, scope.owner? javaName = some name ↔
    (∃ ty, scope.typeOf? name = some ty) ∧ Java.variableName name = javaName
  /-- No two declared variables have one Java name. -/
  injective : Set.InjOn Java.variableName {name | ∃ ty, scope.typeOf? name = some ty}
  known : ∀ name, scope.typeOf? name ≠ some .unknown

/-- Whatever one scope has, the other has too, unchanged. -/
structure PersistsIn (earlier later : Scope) : Prop where
  types : ∀ name ty, earlier.typeOf? name = some ty → later.typeOf? name = some ty
  owners : ∀ javaName name, earlier.owner? javaName = some name →
    later.owner? javaName = some name

namespace Consistent

variable {scope later : Scope} {name javaName : Bytes} {ty : Ty}

theorem typeOf?_eq_some_iff (consistent : scope.Consistent) :
    scope.typeOf? name = some ty ↔ (name, ty) ∈ scope.types :=
  lookup_eq_some_iff_mem consistent.distinct_names

theorem distinct_owners (consistent : scope.Consistent) :
    (scope.owners.map Prod.fst).Nodup := by
  rw [consistent.owners_eq, List.map_map]
  exact consistent.distinct

theorem owner?_eq_some_iff (consistent : scope.Consistent) :
    scope.owner? javaName = some name ↔
      (∃ ty, scope.typeOf? name = some ty) ∧ Java.variableName name = javaName := by
  simp only [consistent.typeOf?_eq_some_iff]
  rw [owner?, lookup_eq_some_iff_mem consistent.distinct_owners, consistent.owners_eq,
    List.mem_map]
  constructor
  · rintro ⟨entry, member, same⟩
    obtain ⟨rfl, rfl⟩ := Prod.mk.inj same
    exact ⟨⟨entry.2, member⟩, rfl⟩
  · rintro ⟨⟨ty, member⟩, rfl⟩
    exact ⟨(name, ty), member, rfl⟩

theorem isTable (consistent : scope.Consistent) : scope.IsTable where
  namesOnce := consistent.distinct_names
  javaNamesOnce := consistent.distinct_owners
  owner?_iff _ _ := consistent.owner?_eq_some_iff
  injective := by
    intro first declared second declaredToo same
    have owned := consistent.owner?_eq_some_iff.mpr ⟨declared, same⟩
    rw [consistent.owner?_eq_some_iff.mpr ⟨declaredToo, rfl⟩, Option.some.injEq] at owned
    exact owned.symm
  known name found := consistent.known _ (consistent.typeOf?_eq_some_iff.mp found) rfl

/-- Among consistent scopes, one that lists all variables of another has all its entries. -/
theorem persistsIn (consistent : scope.Consistent) (consistentLater : later.Consistent)
    (listed : scope.types ⊆ later.types) : scope.PersistsIn later := by
  have types (name : Bytes) (ty : Ty) (found : scope.typeOf? name = some ty) :
      later.typeOf? name = some ty :=
    consistentLater.typeOf?_eq_some_iff.mpr (listed (consistent.typeOf?_eq_some_iff.mp found))
  refine ⟨types, fun javaName name owned => ?_⟩
  obtain ⟨⟨ty, found⟩, same⟩ := consistent.owner?_eq_some_iff.mp owned
  exact consistentLater.owner?_eq_some_iff.mpr ⟨⟨ty, types name ty found⟩, same⟩

end Consistent

theorem Step.types_subset {scope next : Scope} {command checked : Command Expr}
    (step : scope.Step command next checked) : scope.types ⊆ next.types := by
  cases step with
  | declare => exact List.subset_cons_self _ _
  | print => exact List.Subset.refl _

end Scope

namespace Draft

variable {scope next : Scope} {entry : Entry} {checked : Command Expr}

/-- In a consistent scope an entry passes by the rules. -/
theorem exists_step_of_checkEntry (consistent : scope.Consistent)
    (passes : checkEntry scope entry = .ok (next, checked)) :
    ∃ command, entry = some (Command.toDraft command) ∧ scope.Step command next checked := by
  obtain ⟨command, isEntry, passes⟩ := checkEntry_eq_ok_iff.mp passes
  exact ⟨command, isEntry, consistent.checkCommand_eq_ok_iff.mp passes⟩

/-- A check leaves a consistent scope that lists all the variables it found, wherever it stops. -/
theorem consistent_examine (consistent : scope.Consistent) (draft : Draft) :
    (examine scope draft).scope.Consistent ∧
      scope.types ⊆ (examine scope draft).scope.types := by
  induction draft generalizing scope with
  | nil => exact ⟨consistent, List.Subset.refl _⟩
  | cons entry rest ih =>
      cases checking : checkEntry scope entry with
      | error fault =>
          rw [examine_of_error checking]
          exact ⟨consistent, List.Subset.refl _⟩
      | ok result =>
          obtain ⟨command, _, step⟩ := exists_step_of_checkEntry consistent checking
          rw [examine_of_ok checking]
          obtain ⟨consistentLast, listed⟩ := ih (consistent.step step)
          exact ⟨consistentLast, List.Subset.trans step.types_subset listed⟩

/-- Every declaration of a draft that passed is there again, with the type that a scope has for its
variable. -/
def Outcome.NotedIn (scope : Scope) (draft : Draft) (outcome : Outcome) : Prop :=
  ∀ (index : Nat) (name : Bytes) (value : Option Expr) (ty : Ty) (token : Token),
    index < outcome.passed → draft[index]? = some (some (.declare name value ty token)) →
    ∃ noted, outcome.draft[index]? = some (some (.declare name value noted token)) ∧
      scope.typeOf? name = some noted

theorem Outcome.NotedIn.persists {earlier later : Scope} {draft : Draft} {outcome : Outcome}
    (notedIn : outcome.NotedIn earlier draft) (persists : earlier.PersistsIn later) :
    outcome.NotedIn later draft := by
  intro index name value ty token passed declared
  obtain ⟨noted, found, typed⟩ := notedIn index name value ty token passed declared
  exact ⟨noted, found, persists.types name noted typed⟩

theorem notedIn_examine (consistent : scope.Consistent) (draft : Draft) :
    (examine scope draft).NotedIn (examine scope draft).scope draft := by
  induction draft generalizing scope with
  | nil =>
      intro index name value ty token passed
      cases passed
  | cons entry rest ih =>
      intro index name value ty token passed declared
      cases checking : checkEntry scope entry with
      | error fault =>
          rw [examine_of_error checking] at passed
          cases passed
      | ok result =>
          obtain ⟨next, checked⟩ := result
          obtain ⟨command, isEntry, step⟩ := exists_step_of_checkEntry consistent checking
          have consistentNext := consistent.step step
          rw [examine_of_ok checking] at passed ⊢
          cases index with
          | succ index =>
              exact ih consistentNext index name value ty token (Nat.lt_of_succ_lt_succ passed)
                declared
          | zero =>
              -- The type is noted in the step, and no later step changes it.
              obtain ⟨consistentLast, listed⟩ := consistent_examine consistentNext rest
              rw [List.getElem?_cons_zero, Option.some.injEq, isEntry, Option.some.injEq] at declared
              cases step with
              | print => cases declared
              | @declare name value noted ty token =>
                  cases declared
                  refine ⟨ty, rfl, consistentLast.typeOf?_eq_some_iff.mpr (listed ?_)⟩
                  exact List.mem_cons_self

/-- All scopes of a session are consistent and list the variables of the first one. -/
theorem consistent_examineEach (consistent : scope.Consistent) (drafts : List Draft) :
    ∀ outcome ∈ examineEach scope drafts,
      outcome.scope.Consistent ∧ scope.types ⊆ outcome.scope.types := by
  induction drafts generalizing scope with
  | nil => simp [examineEach]
  | cons draft rest ih =>
      obtain ⟨consistentNext, listed⟩ := consistent_examine consistent draft
      rw [examineEach, List.forall_mem_cons]
      refine ⟨⟨consistentNext, listed⟩, fun outcome member => ?_⟩
      obtain ⟨consistentLater, listedLater⟩ := ih consistentNext outcome member
      exact ⟨consistentLater, List.Subset.trans listed listedLater⟩

theorem persistsIn_examineEach (consistent : scope.Consistent) (drafts : List Draft) :
    ∀ outcome ∈ examineEach scope drafts, scope.PersistsIn outcome.scope := by
  intro outcome member
  obtain ⟨consistentLater, listed⟩ := consistent_examineEach consistent drafts outcome member
  exact consistent.persistsIn consistentLater listed

theorem pairwise_persistsIn_examineEach (consistent : scope.Consistent) (drafts : List Draft) :
    (examineEach scope drafts).Pairwise fun earlier later =>
      earlier.scope.PersistsIn later.scope := by
  induction drafts generalizing scope with
  | nil => exact .nil
  | cons draft rest ih =>
      have consistentNext := (consistent_examine consistent draft).1
      exact .cons (persistsIn_examineEach consistentNext rest) (ih consistentNext)

/-- What holds of the tables over a whole session. -/
structure KeepsTables (drafts : List Draft) (outcomes : List Outcome) : Prop where
  length_eq : outcomes.length = drafts.length
  isTable : ∀ outcome ∈ outcomes, outcome.scope.IsTable
  /-- An entry of either table stays as it is for the rest of the session. -/
  persists : outcomes.Pairwise fun earlier later => earlier.scope.PersistsIn later.scope
  /-- A declaration that passed has, from then on, the type that the table has for it. -/
  noted : ∀ (earlier later : Nat) (draft : Draft) (outcome outcomeLater : Outcome),
    earlier ≤ later → drafts[earlier]? = some draft → outcomes[earlier]? = some outcome →
    outcomes[later]? = some outcomeLater → outcome.NotedIn outcomeLater.scope draft

theorem keepsTables_examineEach (consistent : scope.Consistent) (drafts : List Draft) :
    KeepsTables drafts (examineEach scope drafts) where
  length_eq := by
    induction drafts generalizing scope with
    | nil => rfl
    | cons draft rest ih => exact congrArg Nat.succ (ih (consistent_examine consistent draft).1)
  isTable outcome member := (consistent_examineEach consistent drafts outcome member).1.isTable
  persists := pairwise_persistsIn_examineEach consistent drafts
  noted := by
    induction drafts generalizing scope with
    | nil =>
        intro earlier later draft outcome outcomeLater _ called
        cases called
    | cons first rest ih =>
        intro earlier later draft outcome outcomeLater order called found foundLater
        have consistentNext := (consistent_examine consistent first).1
        cases earlier with
        | zero =>
            cases called
            cases found
            have noted := notedIn_examine consistent first
            cases later with
            | zero =>
                cases foundLater
                exact noted
            | succ later =>
                rw [examineEach, List.getElem?_cons_succ] at foundLater
                have member := List.mem_of_getElem? foundLater
                exact noted.persists (persistsIn_examineEach consistentNext rest _ member)
        | succ earlier =>
            cases later with
            | zero => cases order
            | succ later =>
                exact ih consistentNext earlier later draft outcome outcomeLater
                  (Nat.le_of_succ_le_succ order) called found foundLater

end Draft

/-- In every session the tables are in step after each check, and keep all their entries. -/
theorem examineEach_keepsTables (drafts : List Draft) :
    Draft.KeepsTables drafts (Draft.examineEach .empty drafts) ∧
      ∀ scope draft, (Draft.examine scope draft).IsCheckOf scope draft :=
  ⟨Draft.keepsTables_examineEach Scope.consistent_empty drafts, Draft.examine_isCheckOf⟩

end VarPrint
