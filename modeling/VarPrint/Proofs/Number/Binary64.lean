/-
# Rounding to binary64

A magnitude is rounded by keeping 53 binary places, but none below the place of `2 ^ -1074`. Half of
the last place goes to the even neighbour, and a result that reaches `2 ^ 1024` is infinite. This is
done here with exact fractions. Both ends of the range are then found where they are expected: the
result is infinite exactly from `2 ^ 1024 - 2 ^ 970` on, half a place below the first power that is
out of reach, and it is zero exactly up to `2 ^ -1075`, half of the least place.
-/

import Mathlib.Algebra.Order.Field.Power
import Mathlib.Algebra.Order.Floor.Ring
import Mathlib.Algebra.Ring.Int.Parity
import Mathlib.Data.Int.Log
import Mathlib.Data.Rat.Floor
import Mathlib.Tactic.Linarith
import Mathlib.Tactic.NormNum
import Mathlib.Tactic.Positivity
import Mathlib.Tactic.Ring

namespace VarPrint.Binary64

/-- The nearest integer; of two that are equally near, the even one. -/
def roundEven (x : ℚ) : ℤ :=
  if x - ⌊x⌋ < 1 / 2 ∨ x - ⌊x⌋ = 1 / 2 ∧ Even ⌊x⌋ then ⌊x⌋ else ⌊x⌋ + 1

/-- The exponent of the last binary place that is kept of a magnitude. -/
def lastPlace (q : ℚ) : ℤ :=
  max (Int.log 2 q - 52) (-1074)

/-- A magnitude rounded to its last place, however large it is. -/
def round (q : ℚ) : ℚ :=
  roundEven (q / 2 ^ lastPlace q) * 2 ^ lastPlace q

/-- The finite value to which a magnitude is rounded, if it does not become infinite. -/
def nearest? (q : ℚ) : Option ℚ :=
  if round q < 2 ^ 1024 then some (round q) else none

/-- The magnitudes below half a place under `2 ^ 1024` that are zero or above half of the least
place. -/
def InRange (q : ℚ) : Prop :=
  q < 2 ^ 1024 - 2 ^ 970 ∧ (q = 0 ∨ (2 : ℚ) ^ (-1075 : ℤ) < q)

/-- Rounding reaches an integer from half below it on, and from exactly half below it if the integer
is even. -/
theorem le_roundEven_iff {n : ℤ} {x : ℚ} :
    n ≤ roundEven x ↔ (n : ℚ) - 1 / 2 < x ∨ x = n - 1 / 2 ∧ Even n := by
  have low := Int.floor_le x
  have high := Int.lt_floor_add_one x
  unfold roundEven
  generalize ⌊x⌋ = below at low high ⊢
  by_cases stays : x - below < 1 / 2 ∨ x - below = 1 / 2 ∧ Even below
  · rw [if_pos stays]
    constructor
    · intro atMost
      have atMost : (n : ℚ) ≤ below := by exact_mod_cast atMost
      left
      linarith
    · intro reaches
      by_contra above
      have above : (below : ℚ) + 1 ≤ n := by exact_mod_cast Int.not_le.mp above
      rcases stays with small | ⟨half, isEven⟩
      · rcases reaches with reaches | ⟨tie, _⟩
        · linarith
        · linarith
      · rcases reaches with reaches | ⟨tie, nextEven⟩
        · linarith
        · have next : n = below + 1 := by
            have next : (n : ℚ) = below + 1 := by linarith
            exact_mod_cast next
          rw [next, Int.even_add_one] at nextEven
          exact nextEven isEven
  · rw [if_neg stays]
    rw [not_or, not_lt, not_and] at stays
    constructor
    · intro atMost
      have atMost : (n : ℚ) ≤ below + 1 := by exact_mod_cast atMost
      by_cases tie : x = n - 1 / 2
      · right
        have next : n = below + 1 := by
          have next : (n : ℚ) = below + 1 := by linarith
          exact_mod_cast next
        refine ⟨tie, ?_⟩
        rw [next, Int.even_add_one]
        apply stays.2
        linarith
      · left
        apply lt_of_le_of_ne _ (Ne.symm tie)
        linarith
    · intro reaches
      by_contra above
      have above : (below : ℚ) + 1 + 1 ≤ n := by exact_mod_cast Int.not_le.mp above
      rcases reaches with reaches | ⟨tie, _⟩
      · linarith
      · linarith

theorem le_roundEven_of_le {n : ℤ} {x : ℚ} (atLeast : (n : ℚ) ≤ x) : n ≤ roundEven x := by
  apply le_roundEven_iff.mpr
  left
  linarith

theorem roundEven_le_of_le {n : ℤ} {x : ℚ} (atMost : x ≤ n) : roundEven x ≤ n := by
  by_contra above
  have above := le_roundEven_iff.mp (Int.not_le.mp above)
  push_cast at above
  rcases above with above | ⟨tie, _⟩
  · linarith
  · linarith

theorem abs_sub_roundEven_le_half (x : ℚ) : |x - roundEven x| ≤ 1 / 2 := by
  have low : (roundEven x : ℚ) - 1 / 2 ≤ x := by
    rcases le_roundEven_iff.mp (le_refl (roundEven x)) with above | ⟨tie, _⟩
    · exact above.le
    · exact tie.ge
  have high : ¬ ((roundEven x + 1 : ℤ) : ℚ) - 1 / 2 < x := by
    intro above
    exact Int.lt_irrefl _ (le_roundEven_iff.mpr (.inl above))
  push_cast at high
  apply abs_le.mpr
  constructor
  · linarith
  · linarith

/-- No integer is nearer than the rounded one. -/
theorem abs_sub_roundEven_le (x : ℚ) (n : ℤ) : |x - roundEven x| ≤ |x - n| := by
  by_cases same : n = roundEven x
  · rw [same]
  · have apart : (1 : ℚ) ≤ |(n : ℚ) - roundEven x| := by
      exact_mod_cast Int.one_le_abs (sub_ne_zero.mpr same)
    have between := abs_sub_le (n : ℚ) x (roundEven x)
    have half := abs_sub_roundEven_le_half x
    rw [abs_sub_comm (n : ℚ) x] at between
    linarith

variable {q : ℚ}

/-- The rounded magnitude counts steps of its last place. -/
theorem mul_le_round_iff {n : ℤ} :
    n * 2 ^ lastPlace q ≤ round q ↔ n ≤ roundEven (q / 2 ^ lastPlace q) := by
  rw [round, mul_le_mul_iff_left₀ (by positivity), Int.cast_le]

/-- An even number of steps is reached from half a step below it on. -/
theorem even_mul_le_round_iff {n : ℤ} (isEven : Even n) :
    n * 2 ^ lastPlace q ≤ round q ↔ (n - 1 / 2) * 2 ^ lastPlace q ≤ q := by
  rw [mul_le_round_iff, le_roundEven_iff, and_iff_left isEven, eq_comm, ← le_iff_lt_or_eq,
    le_div_iff₀ (by positivity)]

/-- One step is reached only above its half. -/
theorem round_pos_iff : 0 < round q ↔ 2 ^ (lastPlace q - 1) < q := by
  have steps : 0 < round q ↔ 1 ≤ roundEven (q / 2 ^ lastPlace q) := by
    rw [round, mul_pos_iff_of_pos_right (by positivity), Int.cast_pos]
    exact Iff.rfl
  have half : (2 : ℚ) ^ (lastPlace q - 1) = (1 - 1 / 2) * 2 ^ lastPlace q := by
    rw [zpow_sub_one₀ (by norm_num)]
    ring
  have isOdd : ¬ Even (1 : ℤ) := by decide
  rw [steps, le_roundEven_iff, half, Int.cast_one, lt_div_iff₀ (by positivity)]
  exact or_iff_left fun tie => isOdd tie.2

/-- A power of two above the last place is a whole number of its steps. -/
theorem zpow_eq_steps {e k : ℤ} (places : ℕ) (above : k = e + places) :
    (2 : ℚ) ^ k = ((2 ^ places : ℤ) : ℚ) * 2 ^ e := by
  rw [above, zpow_add₀ two_ne_zero, zpow_natCast, mul_comm]
  push_cast
  rfl

theorem zpow_log_le (positive : 0 < q) : (2 : ℚ) ^ Int.log 2 q ≤ q :=
  Int.zpow_log_le_self one_lt_two positive

/-- The 53 places that are kept reach above the magnitude. -/
theorem lt_zpow_lastPlace : q < 2 ^ (lastPlace q + 53) := by
  have leading : q < 2 ^ (Int.log 2 q + 1) := Int.lt_zpow_succ_log_self one_lt_two q
  apply lt_of_lt_of_le leading
  apply zpow_le_zpow_right₀ one_le_two
  unfold lastPlace
  omega

theorem roundEven_le : roundEven (q / 2 ^ lastPlace q) ≤ 2 ^ 53 := by
  apply roundEven_le_of_le
  rw [div_le_iff₀ (by positivity), ← zpow_eq_steps 53 rfl]
  exact lt_zpow_lastPlace.le

theorem round_le : round q ≤ 2 ^ (lastPlace q + 53) := by
  have steps : (2 : ℚ) ^ (lastPlace q + 53) = ((2 ^ 53 : ℤ) : ℚ) * 2 ^ lastPlace q :=
    zpow_eq_steps 53 rfl
  rw [round, steps]
  apply mul_le_mul_of_nonneg_right (Int.cast_le.mpr roundEven_le)
  positivity

/-- Rounding keeps the leading place of a magnitude, unless places are cut off below `2 ^ -1074`. -/
theorem le_round (positive : 0 < q) (normal : lastPlace q = Int.log 2 q - 52) :
    2 ^ Int.log 2 q ≤ round q := by
  have leading := zpow_log_le positive
  rw [zpow_eq_steps 52 (show Int.log 2 q = lastPlace q + (52 : ℕ) by omega)] at leading ⊢
  apply mul_le_round_iff.mpr
  apply le_roundEven_of_le
  exact (le_div_iff₀ (by positivity)).mpr leading

/-! The ends of the range -/

/-- The result reaches `2 ^ 1024` exactly from half a last place below it on. -/
theorem overflow_le_round_iff (positive : 0 < q) :
    2 ^ 1024 ≤ round q ↔ 2 ^ 1024 - 2 ^ 970 ≤ q := by
  rcases lt_trichotomy (Int.log 2 q) 1023 with smaller | top | larger
  · -- neither the magnitude nor its rounding is above the next lower power
    have bound : (2 : ℚ) ^ (lastPlace q + 53) ≤ 2 ^ 1023 := by
      rw [← zpow_natCast]
      apply zpow_le_zpow_right₀ one_le_two
      unfold lastPlace
      omega
    have double : (2 : ℚ) ^ 1024 = 2 ^ 1023 + 2 ^ 1023 := by
      rw [pow_succ, mul_two]
    have less : (2 : ℚ) ^ 970 ≤ 2 ^ 1023 := pow_le_pow_right₀ one_le_two (by decide)
    have room : (2 : ℚ) ^ 1023 ≤ 2 ^ 1024 - 2 ^ 970 := by
      rw [double, add_sub_assoc]
      exact le_add_of_nonneg_right (sub_nonneg.mpr less)
    apply iff_of_false
    · apply not_le.mpr
      apply lt_of_le_of_lt (round_le.trans bound)
      exact pow_lt_pow_right₀ one_lt_two (by decide)
    · apply not_le.mpr
      exact lt_of_lt_of_le (lt_zpow_lastPlace.trans_le bound) room
  · -- the last place is `2 ^ 971`, and `2 ^ 1024` an even number of its steps
    have place : lastPlace q = (971 : ℕ) := by
      unfold lastPlace
      omega
    have steps := even_mul_le_round_iff (q := q) (n := 2 ^ 53) (by decide)
    have power : (2 : ℚ) ^ (1024 : ℕ) = ((2 ^ 53 : ℤ) : ℚ) * 2 ^ ((971 : ℕ) : ℤ) := by
      rw [← zpow_natCast]
      exact zpow_eq_steps 53 rfl
    rw [place, sub_mul, ← power, zpow_natCast, pow_succ' (2 : ℚ) 970, one_div,
      inv_mul_cancel_left₀ two_ne_zero] at steps
    exact steps
  · -- the magnitude and its rounding are both at least the power they begin with
    have power : (2 : ℚ) ^ 1024 ≤ 2 ^ Int.log 2 q := by
      rw [← zpow_natCast]
      exact zpow_le_zpow_right₀ one_le_two larger
    have normal : lastPlace q = Int.log 2 q - 52 := by
      unfold lastPlace
      omega
    have positivePlace : (0 : ℚ) ≤ 2 ^ 970 := by positivity
    apply iff_of_true
    · exact power.trans (le_round positive normal)
    · exact (sub_le_self _ positivePlace).trans (power.trans (zpow_log_le positive))

/-- The result is above zero exactly above half of the least place. -/
theorem underflow_lt_iff : 0 < round q ↔ (2 : ℚ) ^ (-1075 : ℤ) < q := by
  rw [round_pos_iff]
  by_cases positive : 0 < q
  · have above {e : ℤ} (smaller : e < Int.log 2 q) : (2 : ℚ) ^ e < q :=
      lt_of_lt_of_le (zpow_lt_zpow_right₀ one_lt_two smaller) (zpow_log_le positive)
    by_cases least : lastPlace q = -1074
    · rw [least]
      norm_num
    · unfold lastPlace at least ⊢
      apply iff_of_true
      · exact above (by omega)
      · exact above (by omega)
  · have noPower (e : ℤ) : ¬ (2 : ℚ) ^ e < q := by
      intro less
      exact positive (lt_trans (by positivity) less)
    exact iff_of_false (noPower _) (noPower _)

theorem round_lt_iff (nonneg : 0 ≤ q) : round q < 2 ^ 1024 ↔ q < 2 ^ 1024 - 2 ^ 970 := by
  rcases nonneg.eq_or_lt with zero | positive
  · subst zero
    have isZero : ¬ 0 < round 0 := by
      rw [underflow_lt_iff]
      apply not_lt.mpr
      positivity
    have less : (2 : ℚ) ^ 970 < 2 ^ 1024 := pow_lt_pow_right₀ one_lt_two (by decide)
    apply iff_of_true
    · exact lt_of_le_of_lt (not_lt.mp isZero) (by positivity)
    · exact sub_pos.mpr less
  · rw [← not_le, overflow_le_round_iff positive, not_le]

theorem roundEven_nonneg (nonneg : 0 ≤ q) : 0 ≤ roundEven (q / 2 ^ lastPlace q) := by
  apply le_roundEven_of_le
  rw [Int.cast_zero]
  positivity

theorem round_nonneg (nonneg : 0 ≤ q) : 0 ≤ round q := by
  have steps : (0 : ℚ) ≤ roundEven (q / 2 ^ lastPlace q) := by
    exact_mod_cast roundEven_nonneg nonneg
  rw [round]
  positivity

theorem nearest?_eq_some_iff {r : ℚ} : nearest? q = some r ↔ round q < 2 ^ 1024 ∧ r = round q := by
  unfold nearest?
  by_cases finite : round q < 2 ^ 1024
  · rw [if_pos finite, Option.some.injEq, and_iff_right finite, eq_comm]
  · rw [if_neg finite]
    simp only [reduceCtorEq, finite, false_and]

/-- The magnitudes in range are those that stay finite, and become zero only if they are zero. -/
theorem inRange_iff_exists_nearest? (nonneg : 0 ≤ q) :
    InRange q ↔ ∃ r, nearest? q = some r ∧ (r = 0 → q = 0) := by
  have vanishes : (round q = 0 → q = 0) ↔ q = 0 ∨ (2 : ℚ) ^ (-1075 : ℤ) < q := by
    rw [← underflow_lt_iff, (round_nonneg nonneg).lt_iff_ne', imp_iff_or_not]
  rw [InRange, ← round_lt_iff nonneg, ← vanishes]
  simp only [nearest?_eq_some_iff, and_assoc, exists_and_left, exists_eq_left]

/-! Nearness -/

/-- The values with 53 binary places, none of them below `2 ^ -1074`. -/
def IsValue (v : ℚ) : Prop :=
  ∃ (steps : ℕ) (e : ℤ), steps < 2 ^ 53 ∧ -1074 ≤ e ∧ v = steps * 2 ^ e

/-- Rounding arrives at a value; where it reaches the next power, that has a larger last place. -/
theorem isValue_round (nonneg : 0 ≤ q) : IsValue (round q) := by
  have least : -1074 ≤ lastPlace q := le_max_right _ _
  have few := roundEven_le (q := q)
  unfold round
  lift roundEven (q / 2 ^ lastPlace q) to ℕ using roundEven_nonneg nonneg with steps
  rcases few.lt_or_eq with fewer | full
  · exact ⟨steps, lastPlace q, by exact_mod_cast fewer, least, rfl⟩
  · refine ⟨2 ^ 52, lastPlace q + 1, by decide, by omega, ?_⟩
    rw [full, zpow_add_one₀ two_ne_zero]
    push_cast
    ring

/-- No whole number of steps of the last place is nearer. -/
theorem abs_sub_round_le_steps (q : ℚ) (n : ℤ) :
    |q - round q| ≤ |q - n * 2 ^ lastPlace q| := by
  have positive : (0 : ℚ) < 2 ^ lastPlace q := by positivity
  have scaled (k : ℤ) :
      |q - k * 2 ^ lastPlace q| = |q / 2 ^ lastPlace q - k| * 2 ^ lastPlace q := by
    rw [← abs_of_pos positive, ← abs_mul, abs_of_pos positive, sub_mul,
      div_mul_cancel₀ _ positive.ne']
  rw [round, scaled, scaled]
  exact mul_le_mul_of_nonneg_right (abs_sub_roundEven_le _ n) positive.le

/-- No value is nearer: those with smaller places are all below the leading place. -/
theorem abs_sub_round_le (nonneg : 0 ≤ q) {v : ℚ} (isValue : IsValue v) :
    |q - round q| ≤ |q - v| := by
  obtain ⟨steps, e, few, least, rfl⟩ := isValue
  rcases nonneg.eq_or_lt with zero | positive
  · have exactly := abs_sub_round_le_steps q 0
    rw [Int.cast_zero, zero_mul, sub_zero, ← zero, abs_zero] at exactly
    rw [← zero]
    exact exactly.trans (abs_nonneg _)
  by_cases coarse : lastPlace q ≤ e
  · obtain ⟨places, above⟩ := Int.le.dest coarse
    have nearest := abs_sub_round_le_steps q (steps * 2 ^ places)
    rw [Int.cast_mul, mul_assoc, ← zpow_eq_steps places above.symm] at nearest
    exact nearest
  · have place : Int.log 2 q = lastPlace q + (52 : ℕ) := by
      unfold lastPlace at coarse ⊢
      omega
    have below : (steps : ℚ) * 2 ^ e ≤ 2 ^ Int.log 2 q := by
      calc (steps : ℚ) * 2 ^ e ≤ ((2 ^ 53 : ℤ) : ℚ) * 2 ^ e := by
            apply mul_le_mul_of_nonneg_right _ (by positivity)
            exact_mod_cast few.le
        _ = 2 ^ (e + 53) := (zpow_eq_steps 53 rfl).symm
        _ ≤ 2 ^ Int.log 2 q := zpow_le_zpow_right₀ one_le_two (by omega)
    calc |q - round q| ≤ |q - 2 ^ Int.log 2 q| := by
            rw [zpow_eq_steps 52 place]
            exact abs_sub_round_le_steps q (2 ^ 52)
      _ = q - 2 ^ Int.log 2 q := abs_of_nonneg (sub_nonneg.mpr (zpow_log_le positive))
      _ ≤ q - steps * 2 ^ e := sub_le_sub_left below q
      _ ≤ |q - steps * 2 ^ e| := le_abs_self _

end VarPrint.Binary64
