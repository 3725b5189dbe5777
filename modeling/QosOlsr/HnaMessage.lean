import QosOlsr.Packet

/-!
# Receiving HNA messages

`olsr_input_hna` of `hna_set.c`.  What is done with one announced network
(gateway entries, collisions with own addresses, the HNA set) is a parameter.
-/

namespace QosOlsr

open Library

universe u

structure HnaNode (ver : IpVersion) (State : Type u) where
  senderIsSym : Bool
  handleNetwork :
    State → (originator net mask : IpAddr ver) → (seqno : Nat) → (vtime : UInt8) → State

/-- The state left, whether the message is forwarded, and the pointer. -/
structure HnaOutcome (State : Type u) where
  state : State
  forward : Bool
  curr : Cursor

section Hna

variable {ver : IpVersion} {State : Type u}

structure HnaHeader (ver : IpVersion) where
  vtime : UInt8
  msgsize : Nat
  originator : IpAddr ver
  hopCount : UInt8
  msgSeqNumber : Nat

def readHnaHeader (mem : Memory) : PacketReader (HnaHeader ver) := do
  let vtime ← pktGetU8 mem
  let msgsize ← pktGetU16 mem
  let originator ← pktGetIpaddress mem ver
  pktIgnore 1
  let hopCount ← pktGetU8 mem
  let msgSeqNumber ← pktGetU16 mem
  return ⟨vtime, msgsize, originator, hopCount, msgSeqNumber⟩

def readHnaNetwork (mem : Memory) : PacketReader (IpAddr ver × IpAddr ver) := do
  let net ← pktGetIpaddress mem ver
  let mask ← pktGetIpaddress mem ver
  return (net, mask)

theorem readHnaNetwork_cursor (mem : Memory) (curr : Cursor) :
    (readHnaNetwork mem curr : (IpAddr ver × IpAddr ver) × Cursor).2 =
      ⟨curr.pos + 2 * ver.ipsize, max curr.reach (curr.pos + 2 * ver.ipsize)⟩ := by
  change Cursor.mk (curr.pos + ver.ipsize + ver.ipsize)
      (max (max curr.reach (curr.pos + ver.ipsize)) (curr.pos + ver.ipsize + ver.ipsize)) = _
  rw [Cursor.mk.injEq]
  omega

def readHnaNetworks (node : HnaNode ver State) (mem : Memory) (header : HnaHeader ver) (st : State)
    (curr : Cursor) : State × Cursor :=
  if curr.pos < header.msgsize then
    let network := (readHnaNetwork mem curr : (IpAddr ver × IpAddr ver) × Cursor)
    readHnaNetworks node mem header
      (node.handleNetwork st header.originator network.1.1 network.1.2
        header.msgSeqNumber header.vtime)
      network.2
  else
    (st, curr)
termination_by header.msgsize - curr.pos
decreasing_by
  have positive := ver.ipsize_pos
  rw [readHnaNetwork_cursor]
  dsimp only
  omega

def olsrInputHna (node : HnaNode ver State) (mem : Memory) (st : State) : HnaOutcome State :=
  let type := pktGetU8 mem Cursor.start
  if type.1 ≠ hnaMessage then
    ⟨st, false, type.2⟩
  else
    let header := (readHnaHeader mem type.2 : HnaHeader ver × Cursor)
    let hnasize := header.1.msgsize - 8 - ver.ipsize
    if hnasize % (2 * ver.ipsize) ≠ 0 then
      ⟨st, false, header.2⟩
    else if node.senderIsSym = false then
      ⟨st, false, header.2⟩
    else
      let networks := readHnaNetworks node mem header.1 st header.2
      ⟨networks.1, true, networks.2⟩

theorem readHnaNetworks_reach_le (node : HnaNode ver State) (mem : Memory)
    (header : HnaHeader ver) (st : State) (curr : Cursor) (before : curr.reach ≤ header.msgsize)
    (whole : 2 * ver.ipsize ∣ header.msgsize - curr.pos) :
    (readHnaNetworks node mem header st curr).2.reach ≤ header.msgsize := by
  fun_induction readHnaNetworks node mem header st curr with
  | case1 st curr inside network ih =>
    have moved : network.2 =
          ⟨curr.pos + 2 * ver.ipsize, max curr.reach (curr.pos + 2 * ver.ipsize)⟩ :=
      readHnaNetwork_cursor mem curr
    have fits : 2 * ver.ipsize ≤ header.msgsize - curr.pos := Nat.le_of_dvd (by omega) whole
    apply ih
    · rw [moved]
      dsimp only
      omega
    · rw [moved]
      dsimp only
      rw [← Nat.sub_sub]
      exact Nat.dvd_sub whole dvd_rfl
  | case2 st curr outside => exact before

end Hna

end QosOlsr
