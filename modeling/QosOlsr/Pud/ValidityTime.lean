import Mathlib.Data.Nat.Bitwise

/-!
# Validity times of position updates

`wireFormat.c` of the PUD plugin writes a time as `(lsn + 16) * 2 ^ msn - 16`
with a nibble for each.  The mantissa is rounded to the nearest, so that a time
just below a border needs a mantissa of 16.
-/

namespace QosOlsr.Pud

def validityTimeFromOlsr (msn lsn : Nat) : Nat := (lsn + 16) * 2 ^ msn - 16

def getValidityTime (field : UInt8) : Nat :=
  validityTimeFromOlsr (field.toNat / 16) (field.toNat % 16)

/-- The loop of `setValidityTime`, with the number of rounds up to 16. -/
def searchMsn (validityTime : Nat) : Nat → Nat → Nat
  | 0, msn => msn
  | left + 1, msn =>
    if validityTimeFromOlsr msn 0 ≤ validityTime then searchMsn validityTime left (msn + 1) else msn

/-- `setValidityTime`; without a result an assertion fails. -/
def setValidityTime (validityTime : Nat) : Option UInt8 :=
  let upperMsn := searchMsn validityTime 15 1
  let msn := upperMsn - 1
  let lsn :=
    if validityTimeFromOlsr upperMsn 0 ≤ validityTime then
      15
    else
      (validityTime - validityTimeFromOlsr msn 0 + 2 ^ msn / 2) / 2 ^ msn
  if msn ≤ 15 ∧ lsn ≤ 15 then some (UInt8.ofNat (msn <<< 4 ||| lsn)) else none

/-- The field stands for the time up to half a step, rounded up, or for the
greatest time if that is exceeded. -/
def Near (validityTime : Nat) (field : UInt8) : Prop :=
  let half := (2 ^ (field.toNat / 16) + 1) / 2
  if validityTime ≤ getValidityTime 255 then
    getValidityTime field ≤ validityTime + half ∧ validityTime ≤ getValidityTime field + half
  else
    getValidityTime field = getValidityTime 255

/-- The time is nearest to a border between two exponents, from below. -/
def BelowBorder (validityTime : Nat) : Prop := ∃ msn < 16, 0 < msn ∧
  32 * 2 ^ msn ≤ validityTime + 16 + 2 ^ msn / 2 ∧ validityTime + 16 < 32 * 2 ^ msn

variable {validityTime : Nat}

theorem fromOlsr_le_iff {msn : Nat} :
    validityTimeFromOlsr msn 0 ≤ validityTime ↔ 16 * 2 ^ msn ≤ validityTime + 16 := by
  simp [validityTimeFromOlsr]

private theorem searchMsn_spec (left msn : Nat) (lower : 16 * 2 ^ msn ≤ validityTime + 16) :
    ∃ found, searchMsn validityTime left (msn + 1) = found + 1 ∧
      found ≤ msn + left ∧ 16 * 2 ^ found ≤ validityTime + 16 ∧
      (validityTime + 16 < 32 * 2 ^ found ∨ found = msn + left) := by
  induction left generalizing msn with
  | zero => exact ⟨msn, rfl, le_rfl, lower, .inr rfl⟩
  | succ left ih =>
    rw [searchMsn]
    split
    next reached =>
      obtain ⟨found, isFound, le, least, greatest⟩ := ih _ (fromOlsr_le_iff.mp reached)
      exact ⟨found, isFound, by omega, least, by omega⟩
    next missed =>
      rw [fromOlsr_le_iff, pow_succ] at missed
      exact ⟨msn, rfl, by omega, lower, .inl (by omega)⟩

private theorem toNat_nibbles {msn lsn : Nat} (msnLe : msn ≤ 15) (lsnLe : lsn ≤ 15) :
    (UInt8.ofNat (msn <<< 4 ||| lsn)).toNat = msn * 16 + lsn := by
  rw [← Nat.shiftLeft_add_eq_or_of_lt (by omega), Nat.shiftLeft_eq, UInt8.toNat_ofNat',
    Nat.mod_eq_of_lt (by omega)]

theorem setValidityTime_eq (validityTime : Nat) :
    ∃ msn ≤ 15, 16 * 2 ^ msn ≤ validityTime + 16 ∧
      (validityTime + 16 < 32 * 2 ^ msn ∨ msn = 15) ∧
      let lsn := if 32 * 2 ^ msn ≤ validityTime + 16 then 15
        else (validityTime + 16 - 16 * 2 ^ msn + 2 ^ msn / 2) / 2 ^ msn
      setValidityTime validityTime =
        if lsn ≤ 15 then some (UInt8.ofNat (msn <<< 4 ||| lsn)) else none := by
  obtain ⟨msn, isMsn, msnLe, lower, upper⟩ := searchMsn_spec 15 0
    (by omega : 16 * 2 ^ 0 ≤ validityTime + 16)
  have offset : validityTime - validityTimeFromOlsr msn 0 = validityTime + 16 - 16 * 2 ^ msn := by
    have unit := Nat.two_pow_pos msn
    rw [validityTimeFromOlsr]
    omega
  have double : 16 * 2 ^ (msn + 1) = 32 * 2 ^ msn := by
    rw [pow_succ]
    omega
  refine ⟨msn, by omega, lower, by omega, ?_⟩
  simp only [setValidityTime, isMsn, Nat.add_sub_cancel, fromOlsr_le_iff, double, offset,
    (by omega : msn ≤ 15), true_and]

/-- A time that rounds up to a border has no mantissa. -/
theorem setValidityTime_of_belowBorder (border : BelowBorder validityTime) :
    setValidityTime validityTime = none := by
  obtain ⟨other, otherLt, -, rounds, below⟩ := border
  obtain ⟨msn, msnLe, lower, upper, isField⟩ := setValidityTime_eq validityTime
  have isMsn : msn = other := by
    rcases lt_trichotomy msn other with less | same | more
    · have := Nat.pow_le_pow_right (n := 2) (by decide) less
      rw [pow_succ] at this
      omega
    · exact same
    · have := Nat.pow_le_pow_right (n := 2) (by decide) more
      rw [pow_succ] at this
      omega
  subst isMsn
  dsimp only at isField
  rw [if_neg below.not_ge] at isField
  rw [isField, if_neg]
  rw [not_le, Nat.lt_iff_add_one_le, Nat.le_div_iff_mul_le (Nat.two_pow_pos msn)]
  omega

/-- Off the borders a time is encoded, and decoded to a near one. -/
theorem setValidityTime_of_not_belowBorder (offBorder : ¬ BelowBorder validityTime) :
    ∃ field, setValidityTime validityTime = some field ∧ Near validityTime field := by
  obtain ⟨msn, msnLe, lower, upper, isField⟩ := setValidityTime_eq validityTime
  rw [isField]
  have largest : getValidityTime 255 = 1015792 := by decide
  by_cases beyond : 32 * 2 ^ msn ≤ validityTime + 16
  · obtain rfl : msn = 15 := by omega
    rw [if_pos beyond]
    exact ⟨255, by decide, by rw [Near, if_neg (by omega)]⟩
  · have notUp : validityTime + 16 + 2 ^ msn / 2 < 32 * 2 ^ msn := by
      by_contra up
      cases msn with
      | zero => omega
      | succ msn => exact offBorder ⟨msn + 1, by omega, by omega, by omega, by omega⟩
    have unit : 0 < 2 ^ msn := Nat.two_pow_pos msn
    have fits : (validityTime + 16 - 16 * 2 ^ msn + 2 ^ msn / 2) / 2 ^ msn < 16 :=
      (Nat.div_lt_iff_lt_mul unit).mpr (by omega)
    have below := Nat.div_mul_le_self (validityTime + 16 - 16 * 2 ^ msn + 2 ^ msn / 2) (2 ^ msn)
    have above := Nat.lt_div_mul_add unit (a := validityTime + 16 - 16 * 2 ^ msn + 2 ^ msn / 2)
    rw [if_neg beyond]
    generalize (validityTime + 16 - 16 * 2 ^ msn + 2 ^ msn / 2) / 2 ^ msn = lsn at *
    have isField := toNat_nibbles (by omega : msn ≤ 15) (by omega : lsn ≤ 15)
    refine ⟨_, if_pos (by omega), ?_⟩
    simp only [Near, largest]
    rw [getValidityTime, isField, show (msn * 16 + lsn) / 16 = msn by omega,
      show (msn * 16 + lsn) % 16 = lsn by omega, validityTimeFromOlsr, add_mul]
    split
    · omega
    · have isLast : msn = 15 := by
        by_contra earlier
        have := Nat.pow_le_pow_right (n := 2) (by decide) (by omega : msn ≤ 14)
        omega
      subst isLast
      omega

/-- The assertions hold and the decoded time is near exactly off the borders. -/
theorem setValidityTime_near_iff (validityTime : Nat) :
    (∃ field, setValidityTime validityTime = some field ∧ Near validityTime field) ↔
      ¬ BelowBorder validityTime := by
  refine ⟨?_, setValidityTime_of_not_belowBorder⟩
  rintro ⟨field, isField, -⟩ border
  rw [setValidityTime_of_belowBorder border] at isField
  cases isField

theorem setValidityTime_rounds_up : setValidityTime 47 = none := by
  decide

end QosOlsr.Pud
