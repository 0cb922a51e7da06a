/-
# Results that may be faults

Readers and checks give a value or a fault. A run of several of them succeeds exactly when each one
does, two runs whose steps are related step by step have related results, and a run whose steps have
only faults of some class has no other fault.
-/

import VarPrint.Problem

namespace VarPrint

variable {ε ε' α α' β β' : Type}

/-- A run of two steps succeeds exactly when both do. -/
theorem bind_eq_ok_iff {first : Except ε α} {next : α → Except ε β} {result : β} :
    first >>= next = .ok result ↔ ∃ value, first = .ok value ∧ next value = .ok result := by
  cases first with
  | error fault =>
      constructor
      · intro h
        cases h
      · rintro ⟨value, h, _⟩
        cases h
  | ok value =>
      constructor
      · intro h
        exact ⟨value, rfl, h⟩
      · rintro ⟨other, h, result_eq⟩
        cases h
        exact result_eq

theorem pure_eq_ok_iff {value result : α} :
    (pure value : Except ε α) = .ok result ↔ value = result :=
  ⟨Except.ok.inj, congrArg Except.ok⟩

theorem map_eq_ok_iff {first : Except ε α} {f : α → β} {result : β} :
    first.map f = .ok result ↔ ∃ value, first = .ok value ∧ f value = result := by
  cases first <;> simp [Except.map]

theorem map_eq_error_iff {first : Except ε α} {f : α → β} {fault : ε} :
    first.map f = .error fault ↔ first = .error fault := by
  cases first <;> simp [Except.map]

theorem mapError_eq_ok_iff {first : Except ε α} {f : ε → ε'} {result : α} :
    first.mapError f = .ok result ↔ first = .ok result := by
  cases first with
  | error fault =>
      constructor
      · intro h
        cases h
      · intro h
        cases h
  | ok value =>
      constructor
      · intro h
        cases h
        rfl
      · intro h
        cases h
        rfl

/-- Two results of one form: both are values, or both are faults, and the two are related. -/
inductive Matched (Faults : ε → ε' → Prop) (Values : α → α' → Prop) :
    Except ε α → Except ε' α' → Prop
  | ok {first : α} {second : α'} (values : Values first second) :
      Matched Faults Values (.ok first) (.ok second)
  | error {first : ε} {second : ε'} (faults : Faults first second) :
      Matched Faults Values (.error first) (.error second)

namespace Matched

variable {ζ ζ' : Type} {Faults : ε → ε' → Prop} {Others : ζ → ζ' → Prop} {Values : α → α' → Prop}
  {Results : β → β' → Prop} {first : Except ε α} {second : Except ε' α'}

/-- Runs whose first steps match, and whose next steps match on related values, match. -/
theorem bind {next : α → Except ε β} {next' : α' → Except ε' β'}
    (steps : Matched Faults Values first second)
    (nexts : ∀ value value', Values value value' →
      Matched Faults Results (next value) (next' value')) :
    Matched Faults Results (first >>= next) (second >>= next') := by
  cases steps with
  | ok values => exact nexts _ _ values
  | error faults => exact .error faults

theorem map {f : α → β} {f' : α' → β'} (steps : Matched Faults Values first second)
    (results : ∀ value value', Values value value' → Results (f value) (f' value')) :
    Matched Faults Results (first.map f) (second.map f') := by
  cases steps with
  | ok values => exact .ok (results _ _ values)
  | error faults => exact .error faults

theorem mapError {f : ε → ζ} {f' : ε' → ζ'} (steps : Matched Faults Values first second)
    (faults : ∀ fault fault', Faults fault fault' → Others (f fault) (f' fault')) :
    Matched Others Values (first.mapError f) (second.mapError f') := by
  cases steps with
  | ok values => exact .ok values
  | error related => exact .error (faults _ _ related)

end Matched

/-- A value, or a fault of a class. -/
inductive FaultsWithin (Allowed : ε → Prop) : Except ε α → Prop
  | ok (value : α) : FaultsWithin Allowed (.ok value)
  | error {fault : ε} (allowed : Allowed fault) : FaultsWithin Allowed (.error fault)

namespace FaultsWithin

variable {Allowed : ε → Prop} {result : Except ε α}

theorem allowed_of_eq_error {fault : ε} (faults : FaultsWithin Allowed result)
    (failed : result = .error fault) : Allowed fault := by
  rw [failed] at faults
  cases faults with
  | error allowed => exact allowed

theorem bind {next : α → Except ε β} (faults : FaultsWithin Allowed result)
    (nexts : ∀ value, FaultsWithin Allowed (next value)) :
    FaultsWithin Allowed (result >>= next) := by
  cases faults with
  | ok value => exact nexts value
  | error allowed => exact .error allowed

theorem map {f : α → β} (faults : FaultsWithin Allowed result) :
    FaultsWithin Allowed (result.map f) := by
  cases faults with
  | ok value => exact .ok (f value)
  | error allowed => exact .error allowed

theorem mono {Wider : ε → Prop} (faults : FaultsWithin Allowed result)
    (wider : ∀ fault, Allowed fault → Wider fault) : FaultsWithin Wider result := by
  cases faults with
  | ok value => exact .ok value
  | error allowed => exact .error (wider _ allowed)

end FaultsWithin

end VarPrint
