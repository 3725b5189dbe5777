import QosOlsr.Packet

/-!
# Decoding MID messages

`mid_chgestruct` of `rebuild_packet.c`.  It takes the number of aliases from
the message size, for both address families by taking off the 12 bytes of the
IPv4 header.
-/

namespace QosOlsr

open Library

/-- `struct mid_message`, with the aliases last decoded one first. -/
structure MidMessage (ver : IpVersion) where
  vtime : UInt8
  midOrigaddr : IpAddr ver
  midSeqno : Nat
  midAddr : List (IpAddr ver)

section Mid

variable {ver : IpVersion}

def readMidAliases (mem : Memory) : Nat → List (IpAddr ver) → PacketReader (List (IpAddr ver))
  | 0, midAddr => return midAddr
  | count + 1, midAddr => do
    let aliasAddr ← pktGetIpaddress mem ver
    readMidAliases mem count (aliasAddr :: midAddr)

def midAliasCount (ver : IpVersion) (msgsize : Nat) : Nat := (msgsize - 12) / ver.ipsize

def readMidMessage (mem : Memory) : PacketReader (MidMessage ver) := do
  let vtime ← pktGetU8 mem
  let msgsize ← pktGetU16 mem
  let originator ← pktGetIpaddress mem ver
  pktIgnore 2
  let seqno ← pktGetU16 mem
  let midAddr ← readMidAliases mem (midAliasCount ver msgsize) []
  return ⟨vtime, originator, seqno, midAddr⟩

def midChgestruct (mem : Memory) : Option (MidMessage ver) × Cursor :=
  let type := pktGetU8 mem Cursor.start
  if type.1 ≠ midMessage then
    (none, type.2)
  else
    let read := readMidMessage mem type.2
    (some read.1, read.2)

theorem readMidAliases_cursor (mem : Memory) :
    ∀ (count : Nat) (midAddr : List (IpAddr ver)) (curr : Cursor), curr.reach = curr.pos →
      (readMidAliases mem count midAddr curr).2 =
        ⟨curr.pos + count * ver.ipsize, curr.pos + count * ver.ipsize⟩
  | 0, midAddr, ⟨pos, reach⟩, upToDate => by
    dsimp only at upToDate
    subst upToDate
    rw [Nat.zero_mul, Nat.add_zero]
    rfl
  | count + 1, midAddr, ⟨pos, reach⟩, upToDate => by
    dsimp only at upToDate
    subst upToDate
    have later := readMidAliases_cursor mem count
        ((pktGetIpaddress mem ver ⟨reach, reach⟩).1 :: midAddr)
        (Cursor.read ver.ipsize ⟨reach, reach⟩)
        (by simp [Cursor.read])
    rw [Nat.succ_mul, Nat.add_comm (count * _), ← Nat.add_assoc]
    exact later

theorem midChgestruct_reach {mem : Memory} (isMid : mem 0 = midMessage) :
    (midChgestruct mem : Option (MidMessage ver) × Cursor).2.reach =
      8 + ver.ipsize + midAliasCount ver (readU16 mem 2) * ver.ipsize := by
  have accepted : ¬ (mem 0 ≠ midMessage) := not_not.mpr isMid
  have aliases := readMidAliases_cursor mem
      (midAliasCount ver (readU16 mem 2)) ([] : List (IpAddr ver))
      ⟨8 + ver.ipsize, 8 + ver.ipsize⟩ rfl
  have unfolded : midChgestruct mem =
        (some (readMidMessage mem ⟨1, 1⟩ : MidMessage ver × Cursor).1,
          (readMidMessage mem ⟨1, 1⟩ : MidMessage ver × Cursor).2) :=
    if_neg accepted
  rw [unfolded]
  have reached := congrArg Cursor.reach aliases
  cases ver with
  | inet => exact reached
  | inet6 => exact reached

end Mid

end QosOlsr
