import Mathlib.Tactic

/-!
# The clock

`scheduler.c` counts milliseconds in 32 bits and compares times within half of
that range.
-/

namespace QosOlsr

/-- `olsr_isTimedOut`, the half-range comparison behind `TIMED_OUT`. -/
def olsrIsTimedOut (nowTimes s : UInt32) : Bool :=
  if nowTimes < s then
    (1 : UInt32) <<< 31 < s - nowTimes
  else
    nowTimes - s ≤ (1 : UInt32) <<< 31

/-- `olsr_getTimeDue`, as the unsigned number that its callers pass on. -/
def olsrGetTimeDue (nowTimes s : UInt32) : UInt32 :=
  if nowTimes < s then
    if (1 : UInt32) <<< 31 < s - nowTimes then
      -(0xffffffff - (s - nowTimes))
    else
      s - nowTimes
  else if (1 : UInt32) <<< 31 < nowTimes - s then
    0xffffffff - (nowTimes - s)
  else
    -(nowTimes - s)

def olsrRandomMax : UInt32 := 0x7fffffff

def calcJitter (nowTimes relTime jitterPct randomVal : UInt32) : UInt32 :=
  if jitterPct = 0 ∨ 99 < jitterPct ∨ (1 : UInt32) <<< 24 < relTime then
    nowTimes + relTime
  else
    nowTimes + (relTime - randomVal / (1 + olsrRandomMax / (jitterPct * relTime / 100 + 1)))

/-- `me_to_reltime`: the time that a byte of a message stands for. -/
def meToReltime (me : UInt8) : UInt32 :=
  let a := (me >>> 4).toUInt32
  let b := (me &&& 0x0f).toUInt32
  if 8 ≤ b then
    ((16 + a) <<< (b - 8)) * 1000
  else
    ((16 + a) * 1000) >>> (8 - b)

/-- No time in a message is below two, or near half of the range. -/
theorem meToReltime_bounds (me : UInt8) : 1 < meToReltime me ∧ meToReltime me < 0x3fffffff := by
  have all : ∀ code : Fin 256,
        1 < meToReltime (UInt8.ofFin code) ∧ meToReltime (UInt8.ofFin code) < 0x3fffffff := by
    decide +kernel
  exact all me.toFin

theorem olsrGetTimeDue_ne_zero {relTime : UInt32} (nowTimes : UInt32) (atLeast : 1 < relTime)
    (atMost : relTime < 0x3fffffff) : olsrGetTimeDue nowTimes (nowTimes + relTime) ≠ 0 := by
  have ahead : nowTimes + relTime - nowTimes = relTime := by grind
  have behind : nowTimes - (nowTimes + relTime) = -relTime := by grind
  have wrapped : 0xffffffff - -relTime = relTime - 1 := by grind
  rw [UInt32.lt_iff_toNat_lt] at atLeast atMost
  have negated : (-relTime).toNat = 2 ^ 32 - relTime.toNat := by
    rw [UInt32.toNat_neg]
    simp at *
    omega
  have near : ¬ (1 : UInt32) <<< 31 < relTime := by
    rw [UInt32.lt_iff_toNat_lt]
    simp at *
    omega
  have far : (1 : UInt32) <<< 31 < -relTime := by
    rw [UInt32.lt_iff_toNat_lt, negated]
    simp at *
    omega
  rw [olsrGetTimeDue, ahead, behind, if_neg near, if_pos far, wrapped]
  split
  · rintro rfl
    simp at atLeast
  · intro isZero
    have isOne : relTime = 1 := by grind
    subst isOne
    simp at atLeast

theorem olsrIsTimedOut_before (nowTimes : UInt32) : olsrIsTimedOut nowTimes (nowTimes - 1) := by
  have ahead : nowTimes - 1 - nowTimes = 0xffffffff := by grind
  have behind : nowTimes - (nowTimes - 1) = 1 := by grind
  rw [olsrIsTimedOut, ahead, behind]
  split <;> decide

/-! ## Timestamps across the end of the range -/

def olsrGetTimestamp (nowTimes s : UInt32) : UInt32 := nowTimes + s

/-- `olsr_getTimeDue` as the signed number that it returns. -/
def timeDue (nowTimes s : UInt32) : Int := (olsrGetTimeDue nowTimes s).toBitVec.toInt

/-- A time ahead is due after what it was set to and not before, and it is due
exactly when it is timed out. -/
structure WrapSafe (nowTimes s : UInt32) : Prop where
  due : ∀ d : UInt32, d.toNat < 2 ^ 31 → s = olsrGetTimestamp nowTimes d →
      timeDue nowTimes s = d.toNat ∧ (olsrIsTimedOut nowTimes s ↔ d.toNat = 0)
  agrees : olsrIsTimedOut nowTimes s ↔ timeDue nowTimes s ≤ 0

section Timestamps

variable (nowTimes s : UInt32)

theorem toNat_one_shiftLeft_31 : ((1 : UInt32) <<< 31).toNat = 2 ^ 31 := by decide

theorem olsrIsTimedOut_iff : olsrIsTimedOut nowTimes s ↔
      if nowTimes.toNat < s.toNat then 2 ^ 31 < s.toNat - nowTimes.toNat
      else nowTimes.toNat - s.toNat ≤ 2 ^ 31 := by
  rw [olsrIsTimedOut]
  simp only [UInt32.lt_iff_toNat_lt]
  split
  next ahead =>
    have diff := UInt32.toNat_sub_of_le s nowTimes (UInt32.le_iff_toNat_le.mpr ahead.le)
    rw [decide_eq_true_eq, diff, toNat_one_shiftLeft_31]
  next behind =>
    have diff := UInt32.toNat_sub_of_le nowTimes s (UInt32.le_iff_toNat_le.mpr (not_lt.mp behind))
    rw [decide_eq_true_eq, UInt32.le_iff_toNat_le, diff, toNat_one_shiftLeft_31]

theorem toInt_eq (time : UInt32) :
    time.toBitVec.toInt = if 2 * time.toNat < 2 ^ 32 then (time.toNat : Int)
      else (time.toNat : Int) - 2 ^ 32 :=
  BitVec.toInt_eq_toNat_cond time.toBitVec

/-- A time within half of the range ahead, one at exactly half of it, one that
is over, and one behind the end of the range, which is due one early. -/
theorem timeDue_eq : timeDue nowTimes s =
      if nowTimes.toNat < s.toNat then
        if s.toNat - nowTimes.toNat < 2 ^ 31 then (s.toNat : Int) - nowTimes.toNat
        else if s.toNat - nowTimes.toNat = 2 ^ 31 then -2 ^ 31
        else (s.toNat : Int) - nowTimes.toNat - (2 ^ 32 - 1)
      else if 2 ^ 31 < nowTimes.toNat - s.toNat then
        (s.toNat : Int) - nowTimes.toNat + (2 ^ 32 - 1)
      else (s.toNat : Int) - nowTimes.toNat := by
  have nowBound := nowTimes.toNat_lt
  have bound := s.toNat_lt
  have size : UInt32.size = 2 ^ 32 := rfl
  have all : (0xffffffff : UInt32).toNat = 2 ^ 32 - 1 := rfl
  rw [timeDue, olsrGetTimeDue, toInt_eq]
  simp only [UInt32.lt_iff_toNat_lt]
  split
  next ahead =>
    have diff := UInt32.toNat_sub_of_le s nowTimes (UInt32.le_iff_toNat_le.mpr ahead.le)
    rw [diff, toNat_one_shiftLeft_31]
    split
    · rw [UInt32.toNat_neg, UInt32.toNat_sub, all, diff, size]
      omega
    · rw [diff]
      omega
  next behind =>
    have diff := UInt32.toNat_sub_of_le nowTimes s (UInt32.le_iff_toNat_le.mpr (not_lt.mp behind))
    rw [diff, toNat_one_shiftLeft_31]
    split
    · rw [UInt32.toNat_sub, all, diff]
      omega
    · rw [UInt32.toNat_neg, diff, size]
      omega

/-- Timestamps are safe exactly if the clock does not wrap before them and
they are not exactly half of the range ahead. -/
theorem wrapSafe_iff : WrapSafe nowTimes s ↔
      ¬ (nowTimes.toNat < s.toNat ∧ s.toNat - nowTimes.toNat = 2 ^ 31) ∧
        ¬ (s.toNat < nowTimes.toNat ∧ 2 ^ 31 < nowTimes.toNat - s.toNat) := by
  have nowBound := nowTimes.toNat_lt
  have bound := s.toNat_lt
  have timedOut := olsrIsTimedOut_iff nowTimes s
  have due := timeDue_eq nowTimes s
  constructor
  · intro safe
    refine ⟨?_, ?_⟩
    · rintro ⟨ahead, half⟩
      have agrees := safe.agrees
      rw [timedOut, due] at agrees
      simp [ahead, half] at agrees
    · rintro ⟨behind, far⟩
      -- the timestamp was set across the end of the range
      have ahead : (s - nowTimes).toNat = s.toNat + 2 ^ 32 - nowTimes.toNat := by
        rw [UInt32.toNat_sub]
        omega
      have isTimestamp : s = olsrGetTimestamp nowTimes (s - nowTimes) := by
        unfold olsrGetTimestamp
        grind
      obtain ⟨isDue, -⟩ := safe.due (s - nowTimes) (by omega) isTimestamp
      rw [due, ahead] at isDue
      split at isDue <;> omega
  · rintro ⟨notHalf, notFar⟩
    refine ⟨?_, ?_⟩
    · intro d small isTimestamp
      have sum : s.toNat = (nowTimes.toNat + d.toNat) % 2 ^ 32 := by
        rw [isTimestamp, olsrGetTimestamp, UInt32.toNat_add]
      rw [timedOut, due]
      constructor <;> split <;> omega
    · rw [timedOut, due]
      split <;> omega

/-- One millisecond before the end of the range, a timestamp one millisecond
ahead is due now but not timed out. -/
theorem timestamp_due_at_wrap : olsrGetTimestamp 0xffffffff 1 = 0 ∧ timeDue 0xffffffff 0 = 0 ∧
      olsrIsTimedOut 0xffffffff 0 = false ∧
      timeDue 0 ((1 : UInt32) <<< 31) < 0 ∧ olsrIsTimedOut 0 ((1 : UInt32) <<< 31) = false := by
  decide

end Timestamps

/-! ## Jitter -/

/-- A number scaled down from `limit` to `jitter` in two divisions. -/
theorem scaled_le {random limit : Nat} (below : random ≤ limit) (jitter : Nat) :
    random / (1 + limit / (jitter + 1)) ≤ jitter := by
  have above : limit < (jitter + 1) * (limit / (jitter + 1) + 1) :=
    Nat.lt_mul_div_succ limit jitter.succ_pos
  refine Nat.le_of_lt_succ (Nat.div_lt_of_lt_mul ?_)
  rw [Nat.mul_comm, Nat.add_comm 1]
  exact below.trans_lt above

/-- No computation of `calc_jitter` leaves its 32 bits. -/
def JitterFits (relTime jitterPct randomVal : Nat) : Prop :=
  let jitterTime := jitterPct * relTime / 100
  jitterPct * relTime < 2 ^ 32 ∧ jitterTime + 1 < 2 ^ 32 ∧
    1 + olsrRandomMax.toNat / (jitterTime + 1) < 2 ^ 32 ∧
    randomVal / (1 + olsrRandomMax.toNat / (jitterTime + 1)) ≤ relTime

theorem calcJitter_bounds (nowTimes relTime randomVal : UInt32) (jitterPct : UInt8)
    (random : randomVal ≤ olsrRandomMax) :
    ∃ x, calcJitter nowTimes relTime jitterPct.toUInt32 randomVal = nowTimes + x ∧
      (1 ≤ relTime → 1 ≤ x) ∧
      if 0 < jitterPct ∧ jitterPct ≤ 99 ∧ relTime.toNat ≤ 2 ^ 24 then
        JitterFits relTime.toNat jitterPct.toNat randomVal.toNat ∧
          relTime.toNat - jitterPct.toNat * relTime.toNat / 100 ≤ x.toNat ∧ x ≤ relTime
      else x = relTime := by
  have guard :
      (jitterPct.toUInt32 = 0 ∨ 99 < jitterPct.toUInt32 ∨ (1 : UInt32) <<< 24 < relTime) ↔
        ¬(0 < jitterPct ∧ jitterPct ≤ 99 ∧ relTime.toNat ≤ 2 ^ 24) := by
    have shifted : ((1 : UInt32) <<< 24).toNat = 2 ^ 24 := by decide
    simp only [← UInt32.toNat_inj, UInt32.lt_iff_toNat_lt, UInt8.lt_iff_toNat_lt,
      UInt8.le_iff_toNat_le, UInt8.toNat_toUInt32, shifted, UInt32.toNat_ofNat, UInt8.toNat_ofNat]
    omega
  rw [calcJitter]
  by_cases jitters : 0 < jitterPct ∧ jitterPct ≤ 99 ∧ relTime.toNat ≤ 2 ^ 24
  · rw [if_neg (guard.not_left.mpr jitters)]
    have ⟨_, pct, rel⟩ := jitters
    have product : jitterPct.toNat * relTime.toNat ≤ 99 * relTime.toNat :=
      Nat.mul_le_mul_right _ (UInt8.le_iff_toNat_le.mp pct)
    have scaled :=
      scaled_le (UInt32.le_iff_toNat_le.mp random) (jitterPct.toNat * relTime.toNat / 100)
    have quotient := Nat.div_le_self olsrRandomMax.toNat (jitterPct.toNat * relTime.toNat / 100 + 1)
    have limit : olsrRandomMax.toNat = 2 ^ 31 - 1 := rfl
    have fits : JitterFits relTime.toNat jitterPct.toNat randomVal.toNat := by
      rw [JitterFits]
      omega
    have isJitter :
        (randomVal / (1 + olsrRandomMax / (jitterPct.toUInt32 * relTime / 100 + 1))).toNat =
          randomVal.toNat /
            (1 + olsrRandomMax.toNat / (jitterPct.toNat * relTime.toNat / 100 + 1)) := by
      simp only [UInt32.toNat_div, UInt32.toNat_add, UInt32.toNat_mul, UInt8.toNat_toUInt32,
        UInt32.toNat_ofNat]
      rw [Nat.mod_eq_of_lt fits.1, Nat.mod_eq_of_lt fits.2.1, Nat.mod_eq_of_lt fits.2.2.1]
    have isRest := UInt32.toNat_sub_of_le relTime _
      (UInt32.le_iff_toNat_le.mpr (isJitter.trans_le fits.2.2.2))
    refine ⟨_, rfl, ?_⟩
    simp only [if_pos jitters, UInt32.le_iff_toNat_le, isRest, isJitter, UInt32.toNat_ofNat]
    exact ⟨by omega, fits, by omega⟩
  · rw [if_pos (guard.mpr jitters)]
    exact ⟨relTime, rfl, id, by rw [if_neg jitters]⟩

theorem calcJitter_bounds_quarter : ∃ x, calcJitter 5 1000 25 olsrRandomMax = 5 + x ∧
    750 ≤ x.toNat ∧ x ≤ 1000 := by
  obtain ⟨x, fires, -, bounds⟩ := calcJitter_bounds 5 1000 olsrRandomMax 25 (UInt32.le_refl _)
  rw [if_pos (by decide)] at bounds
  exact ⟨x, fires, bounds.2⟩

end QosOlsr
