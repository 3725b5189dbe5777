import QosOlsr.Clock

/-!
# Validity times in one byte

`mantissa.c` sends a time as `(16 + a) * 2 ^ b` in units of 1/256 second, with
`a` in the upper and `b` in the lower half of a byte.
-/

namespace QosOlsr

def countExponent (unscaledInterval : UInt32) : Nat → Nat → Nat
  | 0, b => b
  | fuel + 1, b =>
    if (1 : UInt32) <<< UInt32.ofNat b ≤ unscaledInterval then
      countExponent unscaledInterval fuel (b + 1)
    else
      b

def packMe (a : UInt8) (b : Nat) : UInt8 := a <<< 4 ||| (UInt8.ofNat b &&& 0x0f)

/-- The mantissa for an exponent that is not above 15. -/
def mantissaOf (interval : UInt32) (b : Nat) : UInt32 :=
  if 5 ≤ b then
    (interval - (125 : UInt32) <<< UInt32.ofNat (b - 1)) / ((125 : UInt32) <<< UInt32.ofNat (b - 5))
  else
    (interval - (125 : UInt32) <<< UInt32.ofNat (b - 1)) *
      ((1 : UInt32) <<< UInt32.ofNat (5 - b)) / 125

/-- `reltime_to_me`; a 32-bit number has no more than 32 exponents. -/
def reltimeToMe (interval : UInt32) : UInt8 :=
  let b := countExponent (interval / 125 * 2) 32 0
  if b = 0 then
    packMe 1 0
  else if 15 < b - 1 then
    packMe 15 15
  else
    let a := (mantissaOf interval (b - 1)).toUInt8
    packMe (a &&& 0x0f) (b - 1 + (a >>> 4).toNat)

/-! ## The times in ascending order -/

/-- The times of the bytes, 32 times over. -/
def timeStep (k : Nat) : Nat := (16 + k % 16) * 125 * 2 ^ (k / 16)

def stepByte (k : Nat) : UInt8 := UInt8.ofNat (k % 16 * 16 + k / 16)

theorem timeStep_strictMono : StrictMono timeStep := by
  apply strictMono_nat_of_lt_succ
  intro k
  unfold timeStep
  by_cases last : k % 16 = 15
  · have next : (k + 1) / 16 = k / 16 + 1 := by omega
    have first : (k + 1) % 16 = 0 := by omega
    have positive := Nat.two_pow_pos (k / 16)
    rw [next, first, last, pow_succ]
    omega
  · have same : (k + 1) / 16 = k / 16 := by omega
    rw [same]
    gcongr
    omega

theorem meToReltime_stepByte {k : Nat} (first : 16 ≤ k) (last : k < 256) :
    (meToReltime (stepByte k)).toNat = timeStep k / 32 := by
  have all : ∀ k : Fin 256, 16 ≤ k.val → (meToReltime (stepByte k)).toNat = timeStep k / 32 := by
    decide +kernel
  exact all ⟨k, last⟩ first

/-! ## What the encoder computes -/

theorem toNat_one_shiftLeft {b : Nat} (small : b < 32) :
    ((1 : UInt32) <<< UInt32.ofNat b).toNat = 2 ^ b := by
  have all : ∀ b : Fin 32, ((1 : UInt32) <<< UInt32.ofNat b).toNat = 2 ^ b.val := by decide +kernel
  exact all ⟨b, small⟩

theorem countExponent_spec {unscaled : UInt32} (small : unscaled.toNat < 2 ^ 31) {fuel b : Nat}
    (enough : b + fuel = 32) (passed : b ≠ 0 → 2 ^ (b - 1) ≤ unscaled.toNat) :
    let found := countExponent unscaled fuel b
    unscaled.toNat < 2 ^ found ∧ (found ≠ 0 → 2 ^ (found - 1) ≤ unscaled.toNat) := by
  induction fuel generalizing b with
  | zero =>
    have isLast : b = 32 := enough
    subst b
    exact absurd (passed (by decide)) (not_le.mpr small)
  | succ fuel ih =>
    have inside : b < 32 := by omega
    rw [countExponent]
    split
    next reached =>
      rw [UInt32.le_iff_toNat_le, toNat_one_shiftLeft inside] at reached
      exact ih (by omega) fun _ => reached
    next above =>
      rw [UInt32.le_iff_toNat_le, toNat_one_shiftLeft inside, not_le] at above
      exact ⟨above, passed⟩

def exponentOf (interval : UInt32) : Nat := countExponent (interval / 125 * 2) 32 0 - 1

/-- No number that the encoder computes leaves its 32 bits, and the mantissa
fits its four. -/
structure ComputesExactly (interval : UInt32) : Prop where
  scaled : interval.toNat / 125 * 2 < 2 ^ 32
  loop : 2 ^ (exponentOf interval + 1) < 2 ^ 32
  subtraction : 125 * 2 ^ (exponentOf interval - 1) ≤ interval.toNat
  product : exponentOf interval < 5 → (interval.toNat - 125 * 2 ^ (exponentOf interval - 1)) *
        2 ^ (5 - exponentOf interval) < 2 ^ 32
  mantissa : (mantissaOf interval (exponentOf interval)).toNat < 16

theorem toNat_unscaled (interval : UInt32) :
    (interval / 125 * 2).toNat = interval.toNat / 125 * 2 := by
  have bound := interval.toNat_lt
  simp
  omega

variable {interval : UInt32}

/-- Between 125 ms and the end of the range the exponent is that of the
time. -/
theorem exponentOf_spec (atLeast : 125 ≤ interval.toNat) (below : interval.toNat < 4096000) :
    countExponent (interval / 125 * 2) 32 0 = exponentOf interval + 1 ∧ 1 ≤ exponentOf interval ∧
      exponentOf interval ≤ 15 ∧ 125 * 2 ^ exponentOf interval ≤ 2 * interval.toNat ∧
      interval.toNat < 125 * 2 ^ exponentOf interval := by
  have scaled := toNat_unscaled interval
  have small : (interval / 125 * 2).toNat < 2 ^ 31 := by omega
  have found := countExponent_spec small (Nat.zero_add 32) (absurd rfl)
  dsimp only at found
  unfold exponentOf
  generalize countExponent (interval / 125 * 2) 32 0 = count at found ⊢
  obtain ⟨above, reached⟩ := found
  rw [scaled] at above reached
  match count with
  | 0 => omega
  | 1 => omega
  | exponent + 2 =>
    have lower : 2 ^ (exponent + 1) ≤ interval.toNat / 125 * 2 := reached (by omega)
    have isExponent : exponent + 2 - 1 = exponent + 1 := rfl
    rw [isExponent]
    rw [pow_succ, pow_succ] at above
    rw [pow_succ] at lower ⊢
    have fits : exponent + 1 ≤ 15 := by
      by_contra large
      have power : 2 ^ 15 ≤ 2 ^ exponent := Nat.pow_le_pow_right (by decide) (by omega)
      omega
    omega

section Mantissa

variable {interval : UInt32} {b : Nat}

theorem toNat_125_shiftLeft (small : b < 16) :
    ((125 : UInt32) <<< UInt32.ofNat b).toNat = 125 * 2 ^ b := by
  have all : ∀ b : Fin 16, ((125 : UInt32) <<< UInt32.ofNat b).toNat = 125 * 2 ^ b.val := by
    decide +kernel
  exact all ⟨b, small⟩

private theorem toNat_mantissaOf (atMost : b ≤ 15) (lower : 125 * 2 ^ (b - 1) ≤ interval.toNat)
    (below : interval.toNat < 4096000) :
    (mantissaOf interval b).toNat =
      if 5 ≤ b then (interval.toNat - 125 * 2 ^ (b - 1)) / (125 * 2 ^ (b - 5))
      else (interval.toNat - 125 * 2 ^ (b - 1)) * 2 ^ (5 - b) / 125 := by
  have offset := toNat_125_shiftLeft (show b - 1 < 16 by omega)
  have diff : (interval - (125 : UInt32) <<< UInt32.ofNat (b - 1)).toNat =
        interval.toNat - 125 * 2 ^ (b - 1) := by
    rw [UInt32.toNat_sub_of_le, offset]
    rwa [UInt32.le_iff_toNat_le, offset]
  rw [mantissaOf]
  split
  · rw [UInt32.toNat_div, diff, toNat_125_shiftLeft (show b - 5 < 16 by omega)]
  · have factor : 2 ^ (5 - b) ≤ 2 ^ 5 := Nat.pow_le_pow_right (by decide) (by omega)
    have product : (interval.toNat - 125 * 2 ^ (b - 1)) * 2 ^ (5 - b) ≤ 4096000 * 2 ^ 5 :=
      Nat.mul_le_mul (by omega) factor
    rw [UInt32.toNat_div, UInt32.toNat_mul, diff,
      toNat_one_shiftLeft (show 5 - b < 32 by omega), Nat.mod_eq_of_lt (by omega)]
    rfl

theorem mantissaOf_spec (atLeast : 1 ≤ b) (atMost : b ≤ 15)
    (lower : 125 * 2 ^ b ≤ 2 * interval.toNat) (upper : interval.toNat < 125 * 2 ^ b) :
    (mantissaOf interval b).toNat < 16 ∧
      (16 + (mantissaOf interval b).toNat) * 125 * 2 ^ b ≤ 32 * interval.toNat ∧
      32 * interval.toNat < (17 + (mantissaOf interval b).toNat) * 125 * 2 ^ b := by
  have power : 2 ^ b = 2 * 2 ^ (b - 1) := by rw [← pow_succ', Nat.sub_add_cancel atLeast]
  have below : interval.toNat < 4096000 := by
    have largest : 2 ^ b ≤ 2 ^ 15 := Nat.pow_le_pow_right (by decide) atMost
    omega
  rw [toNat_mantissaOf atMost (by omega) below]
  interval_cases b <;> simp only [Nat.reduceLeDiff, Nat.reduceSub, Nat.reducePow, Nat.reduceMul,
    if_true, if_false] at lower upper ⊢ <;> omega

end Mantissa

/-- A time is encoded as the last step that is not above it. -/
theorem reltimeToMe_eq_stepByte (atLeast : 125 ≤ interval.toNat)
    (below : interval.toNat < 4096000) : ∃ k, 16 ≤ k ∧ k < 256 ∧ reltimeToMe interval = stepByte k ∧
      timeStep k ≤ 32 * interval.toNat ∧ 32 * interval.toNat < timeStep (k + 1) := by
  obtain ⟨count, positive, atMost, lower, upper⟩ := exponentOf_spec atLeast below
  obtain ⟨small, reached, above⟩ := mantissaOf_spec positive atMost lower upper
  generalize isMantissa : mantissaOf interval (exponentOf interval) = a at small reached above
  generalize exponentOf interval = b at count positive atMost reached above isMantissa
  have quotient : (16 * b + a.toNat) / 16 = b := by omega
  have remainder : (16 * b + a.toNat) % 16 = a.toNat := by omega
  refine ⟨16 * b + a.toNat, by omega, by omega, ?_, ?_, ?_⟩
  · have packed : ∀ a : Fin 16, ∀ b : Fin 16, packMe ((UInt32.ofNat a).toUInt8 &&& 0x0f)
              (b + ((UInt32.ofNat a).toUInt8 >>> 4).toNat) =
            UInt8.ofNat (a * 16 + b) := by
      decide +kernel
    have isPacked := packed ⟨a.toNat, small⟩ ⟨b, by omega⟩
    rw [UInt32.ofNat_toNat] at isPacked
    have counted : ¬ b + 1 = 0 := Nat.succ_ne_zero b
    have fits : ¬ 15 < b + 1 - 1 := by omega
    rw [reltimeToMe, count]
    dsimp only
    rw [if_neg counted, if_neg fits, Nat.add_sub_cancel, isMantissa, stepByte, quotient, remainder]
    exact isPacked
  · rw [timeStep, quotient, remainder]
    exact reached
  · refine above.trans_le ?_
    unfold timeStep
    by_cases last : a.toNat = 15
    · have next : (16 * b + a.toNat + 1) / 16 = b + 1 := by omega
      have first : (16 * b + a.toNat + 1) % 16 = 0 := by omega
      rw [next, first, last, pow_succ]
      omega
    · have same : (16 * b + a.toNat + 1) / 16 = b := by omega
      have next : (16 * b + a.toNat + 1) % 16 = a.toNat + 1 := by omega
      rw [same, next, ← Nat.add_assoc, Nat.add_right_comm]

theorem reltimeToMe_of_lt (below : interval.toNat < 125) : reltimeToMe interval = 0x10 := by
  have unscaled : interval / 125 * 2 = 0 := by
    rw [← UInt32.toNat_inj, toNat_unscaled]
    simp
    omega
  have nothing : countExponent 0 32 0 = 0 := by decide
  rw [reltimeToMe, unscaled]
  dsimp only
  rw [if_pos nothing]
  decide

theorem reltimeToMe_of_ge (above : 4096000 ≤ interval.toNat) : reltimeToMe interval = 0xff := by
  have bound := interval.toNat_lt
  have scaled := toNat_unscaled interval
  have small : (interval / 125 * 2).toNat < 2 ^ 31 := by omega
  obtain ⟨less, -⟩ := countExponent_spec small (Nat.zero_add 32) (absurd rfl)
  generalize isCount : countExponent (interval / 125 * 2) 32 0 = count at less
  have large : 16 < count := by
    by_contra few
    have power : 2 ^ count ≤ 2 ^ 16 := Nat.pow_le_pow_right (by decide) (by omega)
    omega
  have counted : ¬ count = 0 := by omega
  have exceeds : 15 < count - 1 := by omega
  rw [reltimeToMe, isCount]
  dsimp only
  rw [if_neg counted, if_pos exceeds]
  decide

section RoundTrip

variable {interval : UInt32}

theorem exists_step (atLeast : 125 ≤ interval.toNat) :
    ∃ k, 16 ≤ k ∧ k < 256 ∧ reltimeToMe interval = stepByte k ∧ timeStep k ≤ 32 * interval.toNat ∧
      ∀ other, other < 256 → timeStep other ≤ 32 * interval.toNat → other ≤ k := by
  by_cases below : interval.toNat < 4096000
  · obtain ⟨k, first, last, isByte, reached, above⟩ := reltimeToMe_eq_stepByte atLeast below
    refine ⟨k, first, last, isByte, reached, ?_⟩
    intro other _ otherReached
    by_contra beyond
    have less : timeStep (k + 1) ≤ timeStep other := timeStep_strictMono.monotone (not_le.mp beyond)
    omega
  · refine ⟨255, by decide, by decide, ?_, ?_, fun other inside _ => Nat.le_of_lt_succ inside⟩
    · rw [reltimeToMe_of_ge (not_lt.mp below)]
      decide
    · have largest : timeStep 255 = 126976000 := by decide
      omega

theorem timeStep_div_mono : Monotone fun k => timeStep k / 32 :=
  fun _ _ le => Nat.div_le_div_right (timeStep_strictMono.monotone le)

theorem le_timeStep_div {k : Nat} (first : 16 ≤ k) : 125 ≤ timeStep k / 32 := by
  have least : timeStep 16 / 32 = 125 := by decide
  rw [← least]
  exact timeStep_div_mono first

theorem computesExactly (atLeast : 125 ≤ interval.toNat) (below : interval.toNat < 4096000) :
    ComputesExactly interval := by
  obtain ⟨-, positive, atMost, lower, upper⟩ := exponentOf_spec atLeast below
  have power : 2 ^ exponentOf interval = 2 * 2 ^ (exponentOf interval - 1) := by
    rw [← pow_succ', Nat.sub_add_cancel positive]
  constructor
  case scaled => omega
  case loop => exact Nat.pow_lt_pow_right (by decide) (by omega)
  case subtraction => omega
  case product =>
    intro _
    have factor : 2 ^ (5 - exponentOf interval) ≤ 2 ^ 5 :=
      Nat.pow_le_pow_right (by decide) (by omega)
    have product := Nat.mul_le_mul (le_of_lt below) factor
    refine (Nat.mul_le_mul_right _ (Nat.sub_le _ _)).trans_lt (product.trans_lt ?_)
    decide
  case mantissa => exact (mantissaOf_spec positive atMost lower upper).1

private theorem decoded_le_of_le {other : UInt32} (le : interval ≤ other) :
    meToReltime (reltimeToMe interval) ≤ meToReltime (reltimeToMe other) := by
  rw [UInt32.le_iff_toNat_le] at le ⊢
  have least : (meToReltime 0x10).toNat = 66 := by decide
  by_cases short : interval.toNat < 125
  · rw [reltimeToMe_of_lt short, least]
    by_cases otherShort : other.toNat < 125
    · rw [reltimeToMe_of_lt otherShort, least]
    · obtain ⟨k, first, last, isByte, -⟩ := exists_step (not_lt.mp otherShort)
      rw [isByte, meToReltime_stepByte first last]
      have := le_timeStep_div first
      omega
  · obtain ⟨k, first, last, isByte, reached, -⟩ := exists_step (not_lt.mp short)
    obtain ⟨next, nextFirst, nextLast, isNext, -, greatest⟩ :=
      exists_step ((not_lt.mp short).trans le)
    rw [isByte, isNext, meToReltime_stepByte first last, meToReltime_stepByte nextFirst nextLast]
    exact timeStep_div_mono (greatest k last (by omega))

end RoundTrip

/-- A decoded time is at most one step of the mantissa below the encoded one,
nothing wraps on the way, and both directions together are monotone. -/
theorem reltimeToMe_loses_one_step :
    (∀ interval : UInt32, 125 ≤ interval.toNat → interval.toNat < 4096000 →
      (meToReltime (reltimeToMe interval)).toNat ≤ interval.toNat ∧ interval.toNat <
          (meToReltime (reltimeToMe interval)).toNat +
            (meToReltime (reltimeToMe interval)).toNat / 16 + 1 ∧
        ComputesExactly interval) ∧
      (∀ interval : UInt32, 3968000 ≤ interval.toNat →
        meToReltime (reltimeToMe interval) = 3968000) ∧
      ∀ interval other : UInt32, interval ≤ other →
        meToReltime (reltimeToMe interval) ≤ meToReltime (reltimeToMe other) := by
  refine ⟨?_, ?_, fun _ _ => decoded_le_of_le⟩
  · intro interval atLeast below
    obtain ⟨k, first, last, isByte, reached, above⟩ := reltimeToMe_eq_stepByte atLeast below
    have width : ∀ k : Fin 256, 16 ≤ k.val →
          timeStep (k + 1) ≤ 32 * (timeStep k / 32 + timeStep k / 32 / 16 + 1) := by
      decide +kernel
    have within := width ⟨k, last⟩ first
    dsimp only at within
    rw [isByte, meToReltime_stepByte first last]
    exact ⟨by omega, by omega, computesExactly atLeast below⟩
  · intro interval saturated
    have atLeast : 125 ≤ interval.toNat := by omega
    obtain ⟨k, first, last, isByte, -, greatest⟩ := exists_step atLeast
    have largest : timeStep 255 = 126976000 := by decide
    have isLast : 255 ≤ k := greatest 255 (by decide) (by omega)
    obtain rfl : k = 255 := by omega
    rw [isByte]
    decide

/-- The times in the first step after a multiple of 125 ms: between
`125 * 2 ^ e` ms and twice that the encoder makes `2 ^ (4 - e)` steps of each
125 ms, and from 2 s on no step is shorter than that. -/
def StaysAtStep (t : Nat) : Prop := t < 125 ∨ t % 125 * 2 ^ (4 - Nat.log2 (t / 125)) < 125

instance (t : Nat) : Decidable (StaysAtStep t) := instDecidableOr

private theorem stepByte_injective {k other : Nat} (inside : k < 256) (otherInside : other < 256)
    (same : stepByte k = stepByte other) : k = other := by
  have bytes := congrArg UInt8.toNat same
  simp only [stepByte, UInt8.toNat_ofNat'] at bytes
  omega

private theorem mul_div_mod_eq (t parts : Nat) :
    parts * t / 125 % parts = t % 125 * parts / 125 := by
  have split : parts * t = t % 125 * parts + 125 * (t / 125 * parts) := by
    conv_lhs => rw [← Nat.div_add_mod t 125]
    ring
  rw [split, Nat.add_mul_div_left _ _ (by decide), Nat.add_mul_mod_self_right]
  rcases Nat.eq_zero_or_pos parts with rfl | positive
  · simp
  · apply Nat.mod_eq_of_lt
    have small : t % 125 < 125 := Nat.mod_lt _ (by decide)
    exact Nat.div_lt_of_lt_mul (Nat.mul_lt_mul_of_pos_right small positive)

private theorem step_of_short {k : Nat} (first : 16 ≤ k) (short : k < 80) :
    timeStep (k + 1) ≤ (17 + k % 16) * 125 * 2 ^ (k / 16) ∧
      (timeStep k ≤ 32 * (timeStep k / 32) ↔ (16 + k % 16) % 2 ^ (5 - k / 16) = 0) := by
  have all : ∀ k : Fin 80, 16 ≤ k.val →
        timeStep (k + 1) ≤ (17 + k.val % 16) * 125 * 2 ^ (k.val / 16) ∧
          (timeStep k ≤ 32 * (timeStep k / 32) ↔
            (16 + k.val % 16) % 2 ^ (5 - k.val / 16) = 0) := by
    decide +kernel
  exact all ⟨k, short⟩ first

/-- The step of a time is a whole number of milliseconds exactly when the time
stays at it. -/
theorem timeStep_whole_iff {k t : Nat} (first : 16 ≤ k) (last : k < 256)
    (reached : timeStep k ≤ 32 * t)
    (greatest : ∀ other, other < 256 → timeStep other ≤ 32 * t → other ≤ k) :
    timeStep k ≤ 32 * (timeStep k / 32) ↔ StaysAtStep t := by
  have borders : timeStep 16 = 4000 ∧ timeStep 80 = 64000 := by decide
  have atLeast : 125 ≤ t := by
    have above := timeStep_strictMono.monotone first
    omega
  rw [StaysAtStep, or_iff_right (not_lt.mpr atLeast)]
  by_cases long : 2000 ≤ t
  · have wide : 80 ≤ k := greatest 80 (by decide) (by omega)
    have whole : ∀ k : Fin 256, 80 ≤ k.val → timeStep k ≤ 32 * (timeStep k / 32) := by
      decide +kernel
    have exponent : 4 ≤ Nat.log2 (t / 125) := (Nat.le_log2 (by omega)).mpr (by omega)
    rw [Nat.sub_eq_zero_of_le exponent, pow_zero, mul_one]
    exact iff_of_true (whole ⟨k, last⟩ wide) (Nat.mod_lt _ (by decide))
  · have short : k < 80 := by
      apply timeStep_strictMono.lt_iff_lt.mp
      omega
    have notNext : 32 * t < timeStep (k + 1) := by
      by_contra reachedNext
      have beyond := greatest (k + 1) (by omega) (by omega)
      omega
    obtain ⟨next, whole⟩ := step_of_short first short
    have exponent : k / 16 = 1 ∨ k / 16 = 2 ∨ k / 16 = 3 ∨ k / 16 = 4 := by omega
    -- In units of the step the time is the mantissa, of which a multiple of
    -- 125 ms keeps the upper bits only.
    have units : 2 ^ (5 - k / 16) * t / 125 = 16 + k % 16 := by
      unfold timeStep at reached
      apply Nat.div_eq_of_lt_le <;>
        rcases exponent with exponent | exponent | exponent | exponent <;>
          simp only [exponent] at * <;> omega
    have log : Nat.log2 (t / 125) = k / 16 - 1 := by
      rcases exponent with exponent | exponent | exponent | exponent <;>
        simp only [exponent] at * <;> exact (Nat.log2_eq_iff (by omega)).mpr ⟨by omega, by omega⟩
    have bits : 4 - (k / 16 - 1) = 5 - k / 16 := by omega
    rw [whole, log, bits, ← units, mul_div_mod_eq, Nat.div_eq_zero_iff]
    omega

/-- A decoded time is encoded as the same byte exactly when the time stays at
its step, or was below the first one. -/
theorem reltimeToMe_again_iff (interval : UInt32) :
    reltimeToMe (meToReltime (reltimeToMe interval)) = reltimeToMe interval ↔
      StaysAtStep interval.toNat := by
  by_cases short : interval.toNat < 125
  · rw [reltimeToMe_of_lt short]
    exact iff_of_true (by decide) (Or.inl short)
  · obtain ⟨k, first, last, isByte, below, nearest⟩ := exists_step (not_lt.mp short)
    have decoded := meToReltime_stepByte first last
    have long : 125 ≤ (meToReltime (stepByte k)).toNat := by
      rw [decoded]
      exact le_timeStep_div first
    obtain ⟨again, -, againLast, isAgain, reached, greatest⟩ := exists_step long
    rw [decoded] at reached greatest
    rw [isByte, isAgain, ← timeStep_whole_iff first last below nearest]
    constructor
    · intro same
      rwa [stepByte_injective againLast last same] at reached
    · intro whole
      have notAbove : again ≤ k := by
        apply timeStep_strictMono.le_iff_le.mp
        omega
      rw [notAbove.antisymm (greatest k last whole)]

/-- A time of 133 ms is sent as one of 132.8 ms, which is 132 ms to the
decoder and 125 ms when it is sent again. -/
theorem reltimeToMe_again_133 : reltimeToMe (meToReltime (reltimeToMe 133)) ≠ reltimeToMe 133 ∧
      meToReltime (reltimeToMe (meToReltime (reltimeToMe 133))) = 125 := by
  decide

end QosOlsr
