import QosOlsr.Protocol

/-!
# Decoded HELLO messages

`struct hello_message` and `struct hello_neighbor` of `packet.h`, and the two
scans by which a receiver learns what the sender made of the receiving
interface: `lookup_mpr_status` and `lookup_head_status`.
-/

namespace QosOlsr

universe u

/-- One entry of a decoded HELLO; `linkquality` holds the bytes that the
active link-quality handler reads, and is empty for a HELLO without link
quality. -/
structure HelloNeighbor (Addr : Type u) where
  status : NeighType
  link : LinkType
  address : Addr
  linkquality : List UInt8
  deriving DecidableEq

/-- A decoded HELLO; the two times stay in their wire form of one byte. -/
structure HelloMessage (Addr : Type u) where
  vtime : UInt8
  htime : UInt8
  sourceAddr : Addr
  packetSeqNumber : Nat
  hopCount : UInt8
  ttl : UInt8
  willingness : UInt8
  qos : Nat
  isHead : Nat
  neighbors : List (HelloNeighbor Addr)

section Lookup

variable {Addr : Type u} [DecidableEq Addr]

/-- The entry both status scans stop at: the first one that names the
interface address with a link type other than `UNSPEC_LINK`. -/
def ownEntry (ifAddr : Addr) (neighbors : List (HelloNeighbor Addr)) :
    Option (HelloNeighbor Addr) :=
  neighbors.find? fun neighbor =>
    neighbor.link ≠ .unspec ∧ neighbor.address = ifAddr

def lookupMprStatus (msg : HelloMessage Addr) (ifAddr : Addr) : Bool :=
  match ownEntry ifAddr msg.neighbors with
  | none => false
  | some neighbor =>
    neighbor.link = .sym ∧ (neighbor.status = .mprNeigh ∨ neighbor.status = .mprHead)

def lookupHeadStatus (msg : HelloMessage Addr) (ifAddr : Addr) : Bool :=
  match ownEntry ifAddr msg.neighbors with
  | none => false
  | some neighbor => neighbor.link = .sym ∧ neighbor.status = .mprHead

theorem lookupMprStatus_of_lookupHeadStatus {msg : HelloMessage Addr} {ifAddr : Addr}
    (selected : lookupHeadStatus msg ifAddr = true) : lookupMprStatus msg ifAddr = true := by
  unfold lookupHeadStatus at selected
  unfold lookupMprStatus
  cases found : ownEntry ifAddr msg.neighbors with
  | none => simp [found] at selected
  | some neighbor =>
    simp only [found, decide_eq_true_eq] at selected ⊢
    exact ⟨selected.1, Or.inr selected.2⟩

end Lookup

end QosOlsr
