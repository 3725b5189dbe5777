import QosOlsr.Library.Bytes
import QosOlsr.Library.Runs

/-!
# The output buffer in memory

The buffer of an interface in `net_olsr.c`, byte by byte.  A write outside of
the allocated bytes has no result.  A run notes which data was accepted for
the next packet, so that each packet can be compared with what was pushed.
-/

namespace QosOlsr.NetBuffer

open Library List

def writeAt (buff : List UInt8) (offset : Nat) (data : List UInt8) : Option (List UInt8) :=
  if offset + data.length ≤ buff.length then
    some (buff.take offset ++ (data ++ buff.drop (offset + data.length)))
  else
    none

/-- `struct olsr_netbuf`, with the sequence number of the interface. -/
structure Netbuf where
  buff : List UInt8
  maxsize : Int
  reserved : Int
  pending : Nat
  olsrSeqnum : UInt16

def netAddBuffer (intMtu : Nat) : Netbuf := ⟨List.replicate intMtu 0, intMtu - 4, 0, 0, 0⟩

def netReserveBufspace (size : Int) (netbuf : Netbuf) : Netbuf :=
  if netbuf.maxsize < size then
    netbuf
  else
    { netbuf with reserved := size, maxsize := netbuf.maxsize - size }

/-- Both push functions up to their limit, with the number that they return. -/
def pushBelow (limit : Int) (data : List UInt8) (netbuf : Netbuf) : Option (Netbuf × Nat) :=
  if limit < netbuf.pending + data.length then
    some (netbuf, 0)
  else
    (writeAt netbuf.buff (netbuf.pending + 4) data).map fun buff =>
      ({ netbuf with buff := buff, pending := netbuf.pending + data.length }, data.length)

def netOutbufferPush (data : List UInt8) (netbuf : Netbuf) : Option (Netbuf × Nat) :=
  pushBelow netbuf.maxsize data netbuf

def netOutbufferPushReserved (data : List UInt8) (netbuf : Netbuf) : Option (Netbuf × Nat) :=
  pushBelow (netbuf.maxsize + netbuf.reserved) data netbuf

/-- `net_output`, with the number that it returns and the packet that was sent.
What was pending is gone also if `sendto` fails. -/
def netOutput (sendtoOk : Bool) (netbuf : Netbuf) : Option (Netbuf × Int × Option (List UInt8)) :=
  if netbuf.pending = 0 then
    some (netbuf, 0, none)
  else do
    let size := netbuf.pending + 4
    let numbered ← writeAt netbuf.buff 2 (u16Bytes netbuf.olsrSeqnum.toNat)
    let buff ← writeAt numbered 0 (u16Bytes size)
    return ({ netbuf with buff := buff, pending := 0, olsrSeqnum := netbuf.olsrSeqnum + 1 },
      if sendtoOk then (size, some (buff.take size)) else (-1, none))

inductive NetEvent where
  | reserve (size : Int)
  | push (data : List UInt8)
  | pushReserved (data : List UInt8)
  | output (sendtoOk : Bool)

/-- A buffer, the data that was accepted since the last packet, and each packet
with the data that was accepted for it. -/
structure NetRun where
  netbuf : Netbuf
  accepted : List (List UInt8)
  sent : List (List (List UInt8) × List UInt8)

def NetRun.pushed (run : NetRun) (data : List UInt8) (after : Netbuf × Nat) : NetRun :=
  { run with
    netbuf := after.1
    accepted := if after.2 = data.length then run.accepted ++ [data] else run.accepted }

def netStep (run : NetRun) : NetEvent → Option NetRun
  | .reserve size => some { run with netbuf := netReserveBufspace size run.netbuf }
  | .push data => (netOutbufferPush data run.netbuf).map (run.pushed data)
  | .pushReserved data => (netOutbufferPushReserved data run.netbuf).map (run.pushed data)
  | .output sendtoOk => (netOutput sendtoOk run.netbuf).map fun (netbuf, _, packet) =>
    if run.netbuf.pending = 0 then
      { run with netbuf := netbuf }
    else
      ⟨netbuf, [], run.sent ++ packet.toList.map (run.accepted, ·)⟩

/-- What is behind the header of a packet is the data accepted for it, and its
first field is its length. -/
def Faithful (sent : List (List UInt8) × List UInt8) : Prop :=
  sent.2.drop 4 = sent.1.flatten ∧ readU16 (ofBytes sent.2) 0 = sent.2.length

structure NetOk (intMtu : Nat) (run : NetRun) : Prop where
  size : run.netbuf.buff.length = intMtu
  reserved : 0 ≤ run.netbuf.reserved
  limit : run.netbuf.maxsize + run.netbuf.reserved + 4 ≤ intMtu
  pending : run.netbuf.pending + 4 ≤ intMtu
  waits : (run.netbuf.buff.drop 4).take run.netbuf.pending = run.accepted.flatten
  sent : ∀ packet ∈ run.sent, Faithful packet

section Steps

variable {intMtu : Nat} {run : NetRun}

theorem NetOk.pushBelow (ok : NetOk intMtu run) {limit : Int} (below : limit + 4 ≤ intMtu)
    (data : List UInt8) : ∃ after, NetBuffer.pushBelow limit data run.netbuf = some after ∧
      NetOk intMtu (run.pushed data after) ∧ (after.2 = 0 → after.1 = run.netbuf) := by
  have size := ok.size
  have pending := ok.pending
  rw [NetBuffer.pushBelow]
  split
  · refine ⟨_, rfl, { ok with waits := ?_ }, fun _ => rfl⟩
    rw [NetRun.pushed]
    split
    next empty => simpa [eq_nil_of_length_eq_zero empty.symm] using ok.waits
    · exact ok.waits
  next fits =>
    rw [writeAt, if_pos (by omega)]
    refine ⟨_, rfl, { ok with size := ?_, pending := ?_, waits := ?_ }, ?_⟩
    · simp [NetRun.pushed]
      omega
    · simp only [NetRun.pushed]
      omega
    · have front : (run.netbuf.buff.take (run.netbuf.pending + 4)).drop 4 =
          run.accepted.flatten := by
        rw [drop_take, Nat.add_sub_cancel, ok.waits]
      have length : run.accepted.flatten.length = run.netbuf.pending := by
        rw [← ok.waits]
        simp
        omega
      simp only [NetRun.pushed, if_true, flatten_append, flatten_singleton]
      rw [drop_append_of_le_length (by simp; omega), front, ← length,
        take_length_add_append, take_left]
    · intro empty
      have isNil := eq_nil_of_length_eq_zero empty
      simp [isNil]

/-- The packet that `net_output` builds in the buffer. -/
def Netbuf.packet (netbuf : Netbuf) : List UInt8 :=
  u16Bytes (netbuf.pending + 4) ++
    (u16Bytes netbuf.olsrSeqnum.toNat ++ netbuf.buff.drop 4).take (netbuf.pending + 2)

private theorem netOutput_eq {netbuf : Netbuf} (pending : netbuf.pending ≠ 0)
    (header : 4 ≤ netbuf.buff.length) (sendtoOk : Bool) :
    netOutput sendtoOk netbuf = some
      ({ netbuf with
          buff := u16Bytes (netbuf.pending + 4) ++
            (u16Bytes netbuf.olsrSeqnum.toNat ++ netbuf.buff.drop 4)
          pending := 0
          olsrSeqnum := netbuf.olsrSeqnum + 1 },
        if sendtoOk then ((netbuf.pending : Int) + 4, some netbuf.packet) else (-1, none)) := by
  have two : (netbuf.buff.take 2).length = 2 := by
    simp
    omega
  simp [netOutput, Netbuf.packet, pending, writeAt, u16Bytes, two, header]

section

variable (ok : NetOk intMtu run) (small : intMtu < 2 ^ 16)
include ok small

theorem NetOk.packet_faithful : Faithful (run.accepted, run.netbuf.packet) := by
  have size := ok.size
  have pending := ok.pending
  constructor
  · simp [Netbuf.packet, u16Bytes, ok.waits]
  · rw [(carries_append.mp (carries_ofBytes run.netbuf.packet)).1.readU16_eq (by omega)]
    simp [Netbuf.packet, u16Bytes]
    omega

/-- An output sends what was accepted in one packet, if `sendto` succeeds. -/
theorem NetOk.output (sendtoOk : Bool) :
    ∃ next, netStep run (.output sendtoOk) = some next ∧ NetOk intMtu next ∧
      (run.accepted.flatten ≠ [] → next.accepted = [] ∧ next.sent =
        run.sent ++ if sendtoOk then [(run.accepted, run.netbuf.packet)] else []) := by
  have size := ok.size
  have pending := ok.pending
  rw [netStep]
  by_cases idle : run.netbuf.pending = 0
  · refine ⟨run, by simp [netOutput, idle], ok, fun waiting => absurd ?_ waiting⟩
    rw [← ok.waits, idle, take_zero]
  · rw [netOutput_eq idle (by omega)]
    simp only [Option.map_some, if_neg idle]
    refine ⟨_, rfl, { ok with size := ?_, pending := ?_, waits := rfl, sent := ?_ }, ?_⟩
    · simp [u16Bytes]
      omega
    · dsimp only
      omega
    · cases sendtoOk with
      | false => simpa using ok.sent
      | true =>
        intro packet isSent
        rcases mem_append.mp isSent with older | isNew
        · exact ok.sent packet older
        · rw [mem_singleton.mp isNew]
          exact ok.packet_faithful small
    · cases sendtoOk <;> simp

theorem NetOk.step {event : NetEvent} (nonneg : ∀ size, event = .reserve size → 0 ≤ size) :
    ∃ next, netStep run event = some next ∧ NetOk intMtu next := by
  have limit := ok.limit
  have reserved := ok.reserved
  cases event with
  | output sendtoOk =>
    obtain ⟨next, taken, okNext, _⟩ := ok.output small sendtoOk
    exact ⟨next, taken, okNext⟩
  | push data =>
    obtain ⟨after, isAfter, okAfter, _⟩ :=
      ok.pushBelow (by omega : run.netbuf.maxsize + 4 ≤ intMtu) data
    exact ⟨_, congrArg (Option.map _) isAfter, okAfter⟩
  | pushReserved data =>
    obtain ⟨after, isAfter, okAfter, _⟩ := ok.pushBelow limit data
    exact ⟨_, congrArg (Option.map _) isAfter, okAfter⟩
  | reserve size =>
    refine ⟨_, rfl, ?_⟩
    rw [netReserveBufspace]
    split
    · exact ok
    · exact { ok with reserved := nonneg size rfl, limit := by dsimp only; omega }

theorem NetOk.runEvents {events : List NetEvent}
    (nonneg : ∀ size, .reserve size ∈ events → 0 ≤ size) :
    ∃ final, Library.runEvents netStep run events = some final ∧ NetOk intMtu final := by
  induction events generalizing run with
  | nil => exact ⟨run, rfl, ok⟩
  | cons event rest ih =>
    obtain ⟨next, taken, okNext⟩ := ok.step small fun size isReserve =>
      nonneg size (isReserve ▸ mem_cons_self)
    obtain ⟨final, ran, okFinal⟩ := ih okNext fun size isLater =>
      nonneg size (mem_cons_of_mem event isLater)
    exact ⟨final, runEvents_cons_eq_some.mpr ⟨next, taken, ran⟩, okFinal⟩

end

end Steps

theorem netOk_start {intMtu : Nat} (least : 4 ≤ intMtu) :
    NetOk intMtu ⟨netAddBuffer intMtu, [], []⟩ :=
  ⟨by simp [netAddBuffer], le_rfl, by dsimp [netAddBuffer]; omega,
    by simpa [netAddBuffer] using least, rfl, by simp⟩

def twoOutputs : List NetEvent := [.push [1, 2], .output true, .push [3], .push [4], .output true]

end QosOlsr.NetBuffer
