import Mathlib.Tactic

/-!
# Byte memories

A memory gives a byte at every address, so a read past the end of a message
has a value too: whatever the buffer held before.  Multi-byte numbers are in
network order.
-/

namespace QosOlsr.Library

open List

abbrev Memory := Nat → UInt8

def readU16 (mem : Memory) (address : Nat) : Nat :=
  (mem address).toNat * 256 + (mem (address + 1)).toNat

def readBytes (mem : Memory) (address count : Nat) : List UInt8 :=
  (List.range count).map fun index => mem (address + index)

@[simp]
theorem readBytes_length (mem : Memory) (address count : Nat) :
    (readBytes mem address count).length = count := by
  simp [readBytes]

theorem readU16_lt (mem : Memory) (address : Nat) : readU16 mem address < 0x10000 := by
  have high : (mem address).toNat < 256 := (mem address).toNat_lt
  have low : (mem (address + 1)).toNat < 256 := (mem (address + 1)).toNat_lt
  unfold readU16
  omega

theorem bytes_readU16 (mem : Memory) (address : Nat) : UInt8.ofNat (readU16 mem address / 256) =
      mem address ∧ UInt8.ofNat (readU16 mem address) = mem (address + 1) := by
  have high := (mem address).toNat_lt
  have low := (mem (address + 1)).toNat_lt
  rw [← UInt8.toNat_inj, ← UInt8.toNat_inj, UInt8.toNat_ofNat', UInt8.toNat_ofNat', readU16]
  omega

/-- The memory holds the listed bytes from `address` on. -/
def Carries (mem : Memory) : Nat → List UInt8 → Prop
  | _, [] => True
  | address, byte :: rest => mem address = byte ∧ Carries mem (address + 1) rest

variable {mem : Memory} {address : Nat}

theorem carries_append {front back : List UInt8} : Carries mem address (front ++ back) ↔
      Carries mem address front ∧ Carries mem (address + front.length) back := by
  induction front generalizing address with
  | nil => simp [Carries]
  | cons byte rest ih =>
    have offset : address + 1 + rest.length = address + (byte :: rest).length := by
      rw [length_cons]
      omega
    rw [cons_append, Carries, Carries, ih, offset, and_assoc]

theorem Carries.congr {other : Memory} {bytes : List UInt8} (carried : Carries mem address bytes)
    (same : ∀ i, address ≤ i → other i = mem i) : Carries other address bytes := by
  induction bytes generalizing address with
  | nil => trivial
  | cons byte rest ih =>
    refine ⟨(same address le_rfl).trans carried.1, ih carried.2 ?_⟩
    intro i above
    exact same i (by omega)

theorem Carries.readBytes_eq {bytes : List UInt8}
    (carried : Carries mem address bytes) : readBytes mem address bytes.length = bytes := by
  induction bytes generalizing address with
  | nil => rfl
  | cons byte rest ih =>
    obtain ⟨here, behind⟩ := carried
    rw [length_cons, readBytes, range_succ_eq_map, map_cons, map_map]
    refine congrArg₂ List.cons here ?_
    refine Eq.trans ?_ (ih behind)
    apply map_congr_left
    intro index _
    exact congrArg mem (Nat.add_right_comm address index 1)

def u16Bytes (value : Nat) : List UInt8 := [UInt8.ofNat (value / 256), UInt8.ofNat value]

theorem Carries.readU16_eq {address value : Nat} (carried : Carries mem address (u16Bytes value))
    (small : value < 0x10000) : readU16 mem address = value := by
  obtain ⟨high, low, -⟩ := carried
  rw [readU16, high, low, UInt8.toNat_ofNat', UInt8.toNat_ofNat']
  omega

def ofBytes (bytes : List UInt8) : Memory := fun address => bytes.getD address 0

theorem carries_ofBytes (bytes : List UInt8) : Carries (ofBytes bytes) 0 bytes := by
  -- the induction moves one byte after the other into `front`
  have behind : ∀ back front : List UInt8, Carries (ofBytes (front ++ back)) front.length back := by
    intro back
    induction back with
    | nil =>
      intro front
      trivial
    | cons byte rest ih =>
      intro front
      have moved := ih (front ++ [byte])
      rw [append_assoc, singleton_append, length_append, length_singleton] at moved
      refine ⟨?_, moved⟩
      simp [ofBytes]
  exact behind bytes []

theorem carries_map_ofBytes (messages : List (List UInt8)) :
    List.Forall₂ (fun mem msg => Carries mem 0 msg) (messages.map ofBytes) messages := by
  rw [forall₂_map_left_iff, forall₂_same]
  exact fun msg _ => carries_ofBytes msg

end QosOlsr.Library
