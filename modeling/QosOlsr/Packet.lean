import QosOlsr.Library.Bytes

/-!
# Reading messages

The accessors of `lq_packet.h` move a pointer through a received message.  Beside
the position the model keeps how far the reads have reached: one past the
greatest address read.  An ignored field moves the pointer only.
-/

namespace QosOlsr

open Library

def linkCostBroken : Nat := 2 ^ 22

inductive IpVersion where
  | inet
  | inet6
  deriving DecidableEq

def IpVersion.ipsize : IpVersion → Nat
  | .inet => 4
  | .inet6 => 16

section

variable (ver : IpVersion)

theorem IpVersion.ipsize_pos : 0 < ver.ipsize := by
  cases ver <;> decide

theorem IpVersion.ipsize_mod_four : ver.ipsize % 4 = 0 := by
  cases ver <;> rfl

/-- `union olsr_ip_addr`, in the byte order of the wire. -/
structure IpAddr where
  bytes : List UInt8
  length_eq : bytes.length = ver.ipsize
  deriving DecidableEq

instance {ver : IpVersion} : LawfulBEq (IpAddr ver) := inferInstance

def IpAddr.v4 (a b c d : UInt8) : IpAddr .inet := ⟨[a, b, c, d], rfl⟩

def zeroAddr : IpAddr ver := ⟨List.replicate ver.ipsize 0, List.length_replicate ..⟩

end

def helloMessage : UInt8 := 1
def tcMessage : UInt8 := 2
def midMessage : UInt8 := 3
def hnaMessage : UInt8 := 4
def lqHelloMessage : UInt8 := 201
def lqTcMessage : UInt8 := 202

/-- The link-quality handlers; each puts four bytes behind an address. -/
inductive LqHandler where
  | etxFpm
  | etxFloat
  | etxFf
  | etxFfeth
  | etxFfethNl80211
  deriving DecidableEq

structure Cursor where
  pos : Nat
  reach : Nat
  deriving DecidableEq

/-- A parser of a message: a function of the pointer that moves it. -/
abbrev PacketReader := StateM Cursor

namespace Cursor

/-- The pointer at the start of a message of which nothing has been read. -/
def start : Cursor := ⟨0, 0⟩

def read (count : Nat) (curr : Cursor) : Cursor :=
  ⟨curr.pos + count, max curr.reach (curr.pos + count)⟩

def ignore (count : Nat) (curr : Cursor) : Cursor := { curr with pos := curr.pos + count }

end Cursor

section Accessors

variable (mem : Memory)

/-- `pkt_get_u8`, also for a time in its wire form. -/
def pktGetU8 : PacketReader UInt8 := fun curr => (mem curr.pos, curr.read 1)

def pktGetU16 : PacketReader Nat := fun curr => (readU16 mem curr.pos, curr.read 2)

def pktGetIpaddress (ver : IpVersion) : PacketReader (IpAddr ver) :=
  fun curr =>
    (⟨readBytes mem curr.pos ver.ipsize,
        readBytes_length mem curr.pos ver.ipsize⟩,
      curr.read ver.ipsize)

def pktIgnore (count : Nat) : PacketReader Unit := fun curr => ((), curr.ignore count)

/-- The `deserialize_*_lq` function of the handler.  `etx_ffeth` reads the last
two of its four bytes, `etx_ffeth_nl80211` all of them, the others the first
two. -/
def deserializeLqPair (handler : LqHandler) : PacketReader (List UInt8) :=
  match handler with
  | .etxFfeth => do
    pktIgnore 2
    let valueLq ← pktGetU8 mem
    let valueNlq ← pktGetU8 mem
    return [valueLq, valueNlq]
  | .etxFfethNl80211 => do
    let valueBandwidth ← pktGetU8 mem
    let valueRSSI ← pktGetU8 mem
    let valueLq ← pktGetU8 mem
    let valueNlq ← pktGetU8 mem
    return [valueBandwidth, valueRSSI, valueLq, valueNlq]
  | .etxFpm | .etxFloat | .etxFf => do
    let valueLq ← pktGetU8 mem
    let valueNlq ← pktGetU8 mem
    pktIgnore 2
    return [valueLq, valueNlq]

end Accessors

def LqHandler.readLength : LqHandler → Nat
  | .etxFfeth | .etxFfethNl80211 => 4
  | .etxFpm | .etxFloat | .etxFf => 2

theorem deserializeLqPair_cursor (mem : Memory) (handler : LqHandler) (curr : Cursor) :
    (deserializeLqPair mem handler curr).2 =
      ⟨curr.pos + 4, max curr.reach (curr.pos + handler.readLength)⟩ := by
  obtain ⟨pos, reach⟩ := curr
  cases handler with
  | etxFfeth =>
    change Cursor.mk (pos + 2 + 1 + 1) (max (max reach (pos + 2 + 1)) (pos + 2 + 1 + 1)) = _
    rw [Cursor.mk.injEq]
    dsimp only [LqHandler.readLength]
    omega
  | etxFfethNl80211 =>
    change Cursor.mk (pos + 1 + 1 + 1 + 1)
        (max (max (max (max reach (pos + 1)) (pos + 1 + 1)) (pos + 1 + 1 + 1))
          (pos + 1 + 1 + 1 + 1)) = _
    rw [Cursor.mk.injEq]
    dsimp only [LqHandler.readLength]
    omega
  | etxFpm | etxFloat | etxFf =>
    change Cursor.mk (pos + 1 + 1 + 2) (max (max reach (pos + 1)) (pos + 1 + 1)) = _
    rw [Cursor.mk.injEq]
    dsimp only [LqHandler.readLength]
    omega

theorem pktGetIpaddress_carried {ver : IpVersion} {mem : Memory} {addr : IpAddr ver} {curr : Cursor}
    (carried : Carries mem curr.pos addr.bytes) : (pktGetIpaddress mem ver curr).1 = addr := by
  obtain ⟨bytes, length_eq⟩ := addr
  have read := carried.readBytes_eq
  rw [length_eq] at read
  exact (IpAddr.mk.injEq ..).mpr read

end QosOlsr
