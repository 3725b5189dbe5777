import Mathlib.Tactic

/-!
# Rounding to nearest

A natural number, rounded to a number of significant binary digits, ties to
even.  Scaled by a power of two it stands for a positive floating-point value,
and the rounding of exact results is that of the arithmetic.
-/

namespace QosOlsr.Library

/-- The nearest multiple of `2 ^ shift`, an even one if two are as near. -/
def roundShift (shift value : Nat) : Nat :=
  let quotient := value / 2 ^ shift
  let rest := value % 2 ^ shift
  if 2 ^ shift < 2 * rest ∨ 2 ^ shift = 2 * rest ∧ quotient % 2 = 1 then
    (quotient + 1) * 2 ^ shift
  else
    quotient * 2 ^ shift

/-- The value with `digits` significant binary digits. -/
def roundDigits (digits value : Nat) : Nat := roundShift (value.log2 + 1 - digits) value

theorem roundShift_near (shift value : Nat) : 2 * roundShift shift value ≤ 2 * value + 2 ^ shift ∧
      2 * value ≤ 2 * roundShift shift value + 2 ^ shift := by
  have split := Nat.div_add_mod value (2 ^ shift)
  have small := Nat.mod_lt value (Nat.two_pow_pos shift)
  rw [Nat.mul_comm] at split
  rw [roundShift]
  split
  next up =>
    rw [Nat.add_mul, Nat.one_mul]
    omega
  next down => omega

theorem roundShift_zero (value : Nat) : roundShift 0 value = value := by
  simp [roundShift, Nat.mod_one]

/-- The relative error is at most half a unit of the last digit. -/
theorem roundDigits_near {digits : Nat} (positive : 0 < digits) (value : Nat) :
    2 ^ digits * roundDigits digits value ≤ 2 ^ digits * value + value ∧
      2 ^ digits * value ≤ 2 ^ digits * roundDigits digits value + value := by
  rw [roundDigits]
  cases excess : value.log2 + 1 - digits with
  | zero =>
    rw [roundShift_zero]
    omega
  | succ shift =>
    obtain ⟨above, below⟩ := roundShift_near (shift + 1) value
    have nonzero : value ≠ 0 := by
      rintro rfl
      rw [Nat.log2_zero] at excess
      omega
    -- half a unit of the last digit
    have unit : 2 ^ digits * 2 ^ shift ≤ value := by
      calc 2 ^ digits * 2 ^ shift
          = 2 ^ value.log2 := by
            rw [← Nat.pow_add]
            congr 1
            omega
        _ ≤ value := Nat.log2_self_le nonzero
    rw [Nat.pow_succ] at above below
    constructor
    · calc 2 ^ digits * roundShift (shift + 1) value ≤ 2 ^ digits * (value + 2 ^ shift) :=
            Nat.mul_le_mul_left _ (by omega)
        _ ≤ 2 ^ digits * value + value := by
            rw [Nat.mul_add]
            omega
    · calc 2 ^ digits * value ≤ 2 ^ digits * (roundShift (shift + 1) value + 2 ^ shift) :=
            Nat.mul_le_mul_left _ (by omega)
        _ ≤ 2 ^ digits * roundShift (shift + 1) value + value := by
            rw [Nat.mul_add]
            omega

end QosOlsr.Library
