/-
# Runs of a class of bytes

A run is a stretch of a text that has only bytes of a class and cannot be made longer at either end.
All runs of a text are listed with the places where they begin, in the order of these places, and a
text has one such listing. It says nothing of how runs are found. Where a text is cut and no run
goes over the cut, the runs of the text are those of its two parts.
-/

import VarPrint.Proofs.Token.Shape
import Mathlib.Data.List.Sort

namespace VarPrint.Bytes

/-- The text does not end with a byte of the class. -/
def EndsOutside (p : UInt8 → Bool) (text : Bytes) : Prop :=
  ∀ b ∈ text.getLast?, p b = false

/-- A run of bytes of a class between two texts into which it does not go on. -/
structure IsRun (p : UInt8 → Bool) (front run back : Bytes) : Prop where
  nonempty : run ≠ []
  inside : ∀ b ∈ run, p b = true
  before : EndsOutside p front
  behind : Stops p back

/-- There is a run at a place of a text. -/
def HasRunAt (p : UInt8 → Bool) (text : Bytes) (start : Nat) (run : Bytes) : Prop :=
  ∃ front back, text = front ++ (run ++ back) ∧ front.length = start ∧ IsRun p front run back

/-- The runs of a text with the places where they begin, all of them and in order. -/
structure IsRunsOf (p : UInt8 → Bool) (runs : List (Nat × Bytes)) (text : Bytes) : Prop where
  ordered : runs.Pairwise fun first second => first.1 < second.1
  mem_iff : ∀ start run, (start, run) ∈ runs ↔ HasRunAt p text start run

variable {p : UInt8 → Bool} {text run front back lead rest : Bytes} {start : Nat}
  {runs runs' : List (Nat × Bytes)}

theorem IsRunsOf.ne_nil {entry : Nat × Bytes} (isRuns : IsRunsOf p runs text)
    (member : entry ∈ runs) : entry.2 ≠ [] := by
  obtain ⟨_, _, _, _, isRun⟩ := (isRuns.mem_iff entry.1 entry.2).mp member
  exact isRun.nonempty

theorem IsRunsOf.unique (isRuns : IsRunsOf p runs text) (isRuns' : IsRunsOf p runs' text) :
    runs = runs' := by
  have irreflexive : Std.Irrefl fun first second : Nat × Bytes => first.1 < second.1 :=
    ⟨fun run => Nat.lt_irrefl run.1⟩
  have antisymmetric : Std.Antisymm fun first second : Nat × Bytes => first.1 < second.1 :=
    ⟨fun _ _ before after => absurd after (Nat.lt_asymm before)⟩
  apply isRuns.ordered.eq_of_mem_iff isRuns'.ordered
  rintro ⟨start, run⟩
  rw [isRuns.mem_iff, isRuns'.mem_iff]

/-! Bytes of the class at a joint of two texts -/

theorem stops_of_append (stops : Stops p (front ++ back)) : Stops p front := by
  cases front with
  | nil =>
      intro b head
      cases head
  | cons b front => exact .cons (stops b rfl) _

theorem endsOutside_of_append (ends : EndsOutside p (front ++ back)) : EndsOutside p back := by
  intro b last
  apply ends b
  rw [List.getLast?_append, Option.mem_def.mp last]
  rfl

theorem not_stops (nonempty : run ≠ []) (inside : ∀ b ∈ run, p b = true) : ¬ Stops p run := by
  intro stops
  obtain ⟨b, run, rfl⟩ := List.exists_cons_of_ne_nil nonempty
  have outside := stops b rfl
  rw [inside b List.mem_cons_self] at outside
  cases outside

theorem not_endsOutside (nonempty : run ≠ []) (inside : ∀ b ∈ run, p b = true) :
    ¬ EndsOutside p run := by
  intro ends
  have outside := ends (run.getLast nonempty) (List.getLast?_eq_some_getLast nonempty)
  rw [inside _ (List.getLast_mem nonempty)] at outside
  cases outside

/-- No run goes over the joint of two texts: the first does not end in the class, or the second does
not begin in it. -/
def NoRunOver (p : UInt8 → Bool) (lead rest : Bytes) : Prop :=
  EndsOutside p lead ∨ Stops p rest

/-- A run that lies at a joint does not lie on both sides of it. -/
theorem NoRunOver.eq_nil_or {tail more : Bytes} (noRun : NoRunOver p (front ++ tail) (more ++ back))
    (inside : ∀ b ∈ tail ++ more, p b = true) : tail = [] ∨ more = [] := by
  rw [List.forall_mem_append] at inside
  rcases noRun with ends | stops
  · left
    by_contra nonempty
    exact not_endsOutside nonempty inside.1 (endsOutside_of_append ends)
  · right
    by_contra nonempty
    exact not_stops nonempty inside.2 (stops_of_append stops)

/-- Runs of the first text are runs in front of the second. -/
theorem HasRunAt.append_right (noRun : NoRunOver p lead rest) (hasRun : HasRunAt p lead start run) :
    HasRunAt p (lead ++ rest) start run := by
  obtain ⟨front, back, rfl, length, isRun⟩ := hasRun
  refine ⟨front, back ++ rest, by simp only [List.append_assoc], length, isRun.nonempty,
    isRun.inside, isRun.before, ?_⟩
  cases back with
  | cons b back => exact .cons (isRun.behind b rfl) _
  | nil =>
      rcases noRun with ends | stops
      · rw [List.append_nil] at ends
        exact absurd (endsOutside_of_append ends) (not_endsOutside isRun.nonempty isRun.inside)
      · exact stops

/-- Runs of the second text are runs behind the first. -/
theorem HasRunAt.append_left (noRun : NoRunOver p lead rest) (hasRun : HasRunAt p rest start run) :
    HasRunAt p (lead ++ rest) (lead.length + start) run := by
  obtain ⟨front, back, rfl, rfl, isRun⟩ := hasRun
  refine ⟨lead ++ front, back, by simp only [List.append_assoc], List.length_append,
    isRun.nonempty, isRun.inside, ?_, isRun.behind⟩
  by_cases empty : front = []
  · rw [empty, List.append_nil]
    rcases noRun with ends | stops
    · exact ends
    · rw [empty, List.nil_append] at stops
      exact absurd (stops_of_append stops) (not_stops isRun.nonempty isRun.inside)
  · intro b last
    rw [List.getLast?_append_of_ne_nil _ empty] at last
    exact isRun.before b last

/-- The runs of two texts are the runs of both together, if none goes over the joint. -/
theorem hasRunAt_append_iff (noRun : NoRunOver p lead rest) :
    HasRunAt p (lead ++ rest) start run ↔
      HasRunAt p lead start run ∨
        ∃ later, HasRunAt p rest later run ∧ lead.length + later = start := by
  constructor
  · rintro ⟨front, back, split, rfl, isRun⟩
    rcases List.append_eq_append_iff.mp split with ⟨other, rfl, behind⟩ | ⟨tail, rfl, behind⟩
    · refine .inr ⟨other.length, ⟨other, back, behind, rfl, isRun.nonempty, isRun.inside, ?_,
        isRun.behind⟩, List.length_append.symm⟩
      exact endsOutside_of_append isRun.before
    · rcases List.append_eq_append_iff.mp behind with ⟨other, rfl, rfl⟩ | ⟨more, rfl, rfl⟩
      · exact .inl ⟨front, other, rfl, rfl, isRun.nonempty, isRun.inside, isRun.before,
          stops_of_append isRun.behind⟩
      · -- The run lies at the joint, so it ends there or begins there.
        rcases noRun.eq_nil_or isRun.inside with rfl | rfl
        · exact .inr ⟨0, ⟨[], back, rfl, rfl, isRun.nonempty, isRun.inside, by simp [EndsOutside],
            isRun.behind⟩, by simp⟩
        · exact .inl ⟨front, [], by simp, rfl, isRun.nonempty, isRun.inside, isRun.before,
            by simp [Stops]⟩
  · rintro (hasRun | ⟨later, hasRun, rfl⟩)
    · exact hasRun.append_right noRun
    · exact hasRun.append_left noRun

theorem HasRunAt.lt_length (hasRun : HasRunAt p text start run) : start < text.length := by
  obtain ⟨front, back, rfl, rfl, isRun⟩ := hasRun
  have positive := List.length_pos_iff.mpr isRun.nonempty
  simp only [List.length_append]
  omega

namespace IsRunsOf

/-- The runs of two texts, one listing behind the other. -/
theorem append (noRun : NoRunOver p lead rest) (first : IsRunsOf p runs lead)
    (second : IsRunsOf p runs' rest) :
    IsRunsOf p (runs ++ runs'.map fun run => (lead.length + run.1, run.2)) (lead ++ rest) where
  ordered := by
    rw [List.pairwise_append]
    refine ⟨first.ordered, ?_, ?_⟩
    · rw [List.pairwise_map]
      exact second.ordered.imp fun less => Nat.add_lt_add_left less _
    · rintro ⟨start, run⟩ isRun ⟨start', run'⟩ isRun'
      obtain ⟨_, _, same⟩ := List.mem_map.mp isRun'
      have inside := ((first.mem_iff start run).mp isRun).lt_length
      rw [← congrArg Prod.fst same]
      dsimp only
      omega
  mem_iff := by
    intro start run
    rw [hasRunAt_append_iff noRun, List.mem_append, first.mem_iff, List.mem_map]
    simp only [Prod.exists, second.mem_iff, Prod.mk.injEq]
    constructor
    · rintro (hasRun | ⟨later, _, hasRun, rfl, rfl⟩)
      · exact .inl hasRun
      · exact .inr ⟨later, hasRun, rfl⟩
    · rintro (hasRun | ⟨later, hasRun, rfl⟩)
      · exact .inl hasRun
      · exact .inr ⟨later, run, hasRun, rfl, rfl⟩

/-- A text without a byte of the class has no runs. -/
theorem none (outside : ∀ b ∈ text, p b = false) : IsRunsOf p [] text where
  ordered := .nil
  mem_iff := by
    intro start run
    constructor
    · intro member
      cases member
    · rintro ⟨front, back, rfl, _, isRun⟩
      obtain ⟨b, member⟩ := List.exists_mem_of_ne_nil run isRun.nonempty
      have isOutside := outside b (by simp [member])
      rw [isRun.inside b member] at isOutside
      cases isOutside

/-- A text of bytes of the class is its only run. -/
theorem whole (nonempty : text ≠ []) (inside : ∀ b ∈ text, p b = true) :
    IsRunsOf p [(0, text)] text where
  ordered := List.pairwise_singleton _ _
  mem_iff := by
    intro start run
    rw [List.mem_singleton, Prod.mk.injEq]
    constructor
    · rintro ⟨rfl, rfl⟩
      exact ⟨[], [], by simp, rfl, nonempty, inside, by simp [EndsOutside], by simp [Stops]⟩
    · rintro ⟨front, back, rfl, rfl, isRun⟩
      rw [List.forall_mem_append, List.forall_mem_append] at inside
      have noFront : front = [] := by
        by_contra before
        exact not_endsOutside before inside.1 isRun.before
      have noBack : back = [] := by
        by_contra behind
        exact not_stops behind inside.2.2 isRun.behind
      rw [noFront, noBack]
      simp

end IsRunsOf

/-- What holds of the empty text, behind a byte outside a class, and behind bytes of the class up to
a byte outside, holds of every text. -/
theorem run_induction {motive : Bytes → Prop} (nil : motive [])
    (skip : ∀ b rest, p b = false → motive rest → motive (b :: rest))
    (run : ∀ run rest, run ≠ [] → (∀ b ∈ run, p b = true) → Stops p rest → motive rest →
      motive (run ++ rest)) (text : Bytes) : motive text := by
  match text with
  | [] => exact nil
  | b :: rest =>
      cases inClass : p b with
      | false => exact skip b rest inClass (run_induction nil skip run rest)
      | true =>
          have split : b :: rest = (b :: rest.takeWhile p) ++ rest.dropWhile p := by
            rw [List.cons_append, List.takeWhile_append_dropWhile]
          have stops : Stops p (rest.dropWhile p) := by
            intro c head
            have outside := List.head?_dropWhile_not p rest
            rw [Option.mem_def.mp head] at outside
            exact outside
          rw [split]
          apply run _ _ (List.cons_ne_nil _ _) _ stops
          · exact run_induction nil skip run (rest.dropWhile p)
          · rw [List.forall_mem_cons]
            exact ⟨inClass, fun c member => List.mem_takeWhile_imp member⟩
termination_by text.length
decreasing_by
  · simp
  · have shorter := (List.dropWhile_suffix (l := rest) p).length_le
    rw [List.length_cons]
    omega

end VarPrint.Bytes
