import QosOlsr.Library.Bytes

/-!
# Reads below a limit

Readers of a memory that fail when they touch an address at or above a limit.
A reader succeeds exactly if all the bytes that it needs lie below.
-/

namespace QosOlsr.Library

/-- The two-byte number at `address`, if both bytes lie below the limit. -/
def readU16Below (mem : Memory) (limit address : Nat) : Option Nat :=
  if address + 2 ≤ limit then
    some (readU16 mem address)
  else
    none

/-- The bytes in front of the first zero, among the next `fuel` ones. -/
def cStringWithin (mem : Memory) : Nat → Nat → Option (List UInt8)
  | 0, _ => none
  | fuel + 1, address =>
    if mem address = 0 then
      some []
    else
      (cStringWithin mem fuel (address + 1)).map (mem address :: ·)

/-- The string at `address`, if its terminator lies below the limit. -/
def cString (mem : Memory) (limit address : Nat) : Option (List UInt8) :=
  cStringWithin mem (limit - address) address

variable {mem : Memory} {limit address : Nat}

theorem readU16Below_isSome_iff :
    (readU16Below mem limit address).isSome ↔ address + 2 ≤ limit := by
  unfold readU16Below
  split <;> simp [*]

theorem readU16Below_eq (below : address + 2 ≤ limit) :
    readU16Below mem limit address = some (readU16 mem address) :=
  if_pos below

variable {text : List UInt8} {fuel : Nat}

theorem cStringWithin_terminated (found : cStringWithin mem fuel address = some text) :
    mem (address + text.length) = 0 ∧ text.length < fuel := by
  induction fuel generalizing address text with
  | zero => cases found
  | succ fuel ih =>
    rw [cStringWithin] at found
    split at found
    next zero =>
      cases found
      exact ⟨zero, fuel.succ_pos⟩
    · obtain ⟨rest, foundRest, rfl⟩ := Option.map_eq_some_iff.mp found
      obtain ⟨zero, inside⟩ := ih foundRest
      rw [List.length_cons]
      refine ⟨?_, Nat.succ_lt_succ inside⟩
      rwa [Nat.add_right_comm] at zero

theorem cString_terminated (found : cString mem limit address = some text) :
    mem (address + text.length) = 0 ∧ address + text.length < limit := by
  obtain ⟨zero, inside⟩ := cStringWithin_terminated found
  exact ⟨zero, by omega⟩

theorem cStringWithin_of_carries (carried : Carries mem address text)
    (noZero : 0 ∉ text) (zero : mem (address + text.length) = 0) (inside : text.length < fuel) :
    cStringWithin mem fuel address = some text := by
  induction text generalizing address fuel with
  | nil =>
    cases fuel with
    | zero => cases inside
    | succ fuel => exact if_pos zero
  | cons byte rest ih =>
    cases fuel with
    | zero => cases inside
    | succ fuel =>
      obtain ⟨here, behind⟩ := carried
      rw [List.mem_cons, not_or] at noZero
      rw [List.length_cons] at zero inside
      have readRest : cStringWithin mem fuel (address + 1) = some rest :=
        ih behind noZero.2 (by rwa [Nat.add_right_comm]) (Nat.lt_of_succ_lt_succ inside)
      rw [cStringWithin, if_neg, readRest, here]
      · rfl
      · exact here ▸ Ne.symm noZero.1

theorem cString_of_carries (carried : Carries mem address text) (noZero : 0 ∉ text)
    (zero : mem (address + text.length) = 0) (below : address + text.length < limit) :
    cString mem limit address = some text :=
  cStringWithin_of_carries carried noZero zero (by omega)

theorem cStringWithin_isSome_iff :
    (cStringWithin mem fuel address).isSome ↔ ∃ offset < fuel, mem (address + offset) = 0 := by
  induction fuel generalizing address with
  | zero => simp [cStringWithin]
  | succ fuel ih =>
    rw [cStringWithin]
    split
    next zero => exact iff_of_true rfl ⟨0, fuel.succ_pos, zero⟩
    next nonzero =>
      rw [Option.isSome_map, ih]
      constructor
      · rintro ⟨offset, inside, zero⟩
        refine ⟨offset + 1, Nat.succ_lt_succ inside, ?_⟩
        rwa [← Nat.add_assoc, Nat.add_right_comm]
      · rintro ⟨offset, inside, zero⟩
        cases offset with
        | zero => exact absurd zero nonzero
        | succ offset =>
          refine ⟨offset, Nat.lt_of_succ_lt_succ inside, ?_⟩
          rwa [Nat.add_right_comm, Nat.add_assoc]

theorem cString_isSome_iff : (cString mem limit address).isSome ↔
      ∃ place, address ≤ place ∧ place < limit ∧ mem place = 0 := by
  rw [cString, cStringWithin_isSome_iff]
  constructor
  · rintro ⟨offset, inside, zero⟩
    exact ⟨address + offset, by omega, by omega, zero⟩
  · rintro ⟨place, behind, below, zero⟩
    refine ⟨place - address, by omega, ?_⟩
    rwa [Nat.add_sub_cancel' behind]

end QosOlsr.Library
