import QosOlsr.Clock

/-!
# The slots of the timer wheel

`walk_timers` visits one slot of the wheel for each millisecond since its last
run, comparing the two times as plain numbers: a walk in which the clock has
wrapped visits no slot.
-/

namespace QosOlsr

def timerWheelSlots : Nat := 1024

def timerWheelMask : UInt32 := 1023

section Walk

variable {State : Type*} (walkSlot : UInt32 → State → State) (nowTimes : UInt32)

/-- The outer loop of `walk_timers`; `walkSlot` does what is to be done with
the timers of one slot. -/
def walkSlots : Nat → UInt32 → State → State
  | 0, _, st => st
  | walks + 1, lastRun, st =>
    if lastRun ≤ nowTimes then
      walkSlots walks (lastRun + 1) (walkSlot (lastRun &&& timerWheelMask) st)
    else
      st

/-- `walk_timers`, with the new value of `last_run`. -/
def walkTimers (lastRun : UInt32) (st : State) : UInt32 × State :=
  (nowTimes, walkSlots walkSlot nowTimes timerWheelSlots lastRun st)

end Walk

def visitedSlots (lastRun nowTimes : UInt32) : List UInt32 :=
  (walkTimers List.cons nowTimes lastRun []).2

/-- The walk visits the slots of all milliseconds since the last run, in the
order in which the clock counts. -/
def VisitsInterval (lastRun nowTimes : UInt32) : Prop :=
  ∀ t : UInt32, t - lastRun ≤ nowTimes - lastRun →
    t &&& timerWheelMask ∈ visitedSlots lastRun nowTimes

section Slots

variable {lastRun nowTimes : UInt32} {visited : List UInt32}

theorem walkSlots_keeps {slot : UInt32} (mem : slot ∈ visited) (walks : Nat) :
    slot ∈ walkSlots List.cons nowTimes walks lastRun visited := by
  induction walks generalizing lastRun visited with
  | zero => exact mem
  | succ walks ih =>
    rw [walkSlots]
    split
    · exact ih (List.mem_cons_of_mem _ mem)
    · exact mem

theorem walkSlots_visits {walks offset : Nat} (few : offset < walks)
    (reached : lastRun.toNat + offset ≤ nowTimes.toNat) :
    lastRun + UInt32.ofNat offset &&& timerWheelMask ∈
      walkSlots List.cons nowTimes walks lastRun visited := by
  induction walks generalizing lastRun offset visited with
  | zero => omega
  | succ walks ih =>
    have bound := nowTimes.toNat_lt
    have inside : lastRun ≤ nowTimes := by
      rw [UInt32.le_iff_toNat_le]
      omega
    rw [walkSlots, if_pos inside]
    cases offset with
    | zero =>
      apply walkSlots_keeps
      have same : lastRun + UInt32.ofNat 0 = lastRun := by simp
      rw [same]
      exact List.mem_cons_self
    | succ offset =>
      have next : (lastRun + 1).toNat = lastRun.toNat + 1 := by
        rw [UInt32.toNat_add, UInt32.toNat_one]
        omega
      have shifted : lastRun + UInt32.ofNat (offset + 1) = lastRun + 1 + UInt32.ofNat offset := by
        rw [UInt32.ofNat_add]
        grind
      rw [shifted]
      exact ih (by omega) (by omega)

theorem toNat_and_timerWheelMask (t : UInt32) : (t &&& timerWheelMask).toNat = t.toNat % 1024 := by
  rw [UInt32.toNat_and]
  exact Nat.and_two_pow_sub_one_eq_mod t.toNat 10

/-- The slots are those of the milliseconds since the last run exactly if the
clock has not wrapped in between. -/
theorem visitsInterval_iff (lastRun nowTimes : UInt32) :
    VisitsInterval lastRun nowTimes ↔ lastRun ≤ nowTimes := by
  constructor
  · intro visits
    by_contra wrapped
    have nothing : visitedSlots lastRun nowTimes = [] := if_neg wrapped
    have first := visits lastRun (by simp [UInt32.le_iff_toNat_le])
    rw [nothing] at first
    exact List.not_mem_nil first
  · intro notWrapped t since
    have bound := nowTimes.toNat_lt
    have interval := UInt32.toNat_sub_of_le nowTimes lastRun notWrapped
    rw [UInt32.le_iff_toNat_le, interval] at since
    rw [UInt32.le_iff_toNat_le] at notWrapped
    generalize isOffset : (t - lastRun).toNat = offset at since
    have isTime : t = lastRun + UInt32.ofNat offset := by
      rw [← isOffset, UInt32.ofNat_toNat]
      grind
    -- a slot further ahead than one turn of the wheel is visited in the first turn
    have sameSlot : t &&& timerWheelMask =
          lastRun + UInt32.ofNat (offset % 1024) &&& timerWheelMask := by
      rw [← UInt32.toNat_inj, toNat_and_timerWheelMask, toNat_and_timerWheelMask, isTime,
        UInt32.toNat_add, UInt32.toNat_add, UInt32.toNat_ofNat', UInt32.toNat_ofNat']
      omega
    rw [sameSlot]
    exact walkSlots_visits (Nat.mod_lt _ (by decide)) (by omega)

/-- The clock wraps between two walks that are one millisecond apart: no slot
is visited, and the next walk starts behind the end of the range. -/
theorem walkTimers_skips_at_wrap :
    (0 - 0xffffffff : UInt32) = 1 ∧ walkTimers List.cons 0 0xffffffff [] = (0, []) ∧
      ¬ VisitsInterval 0xffffffff 0 := by
  refine ⟨by decide, by decide, ?_⟩
  intro visits
  exact absurd (visits 0 (by decide)) (by decide)

end Slots

end QosOlsr
