import Mathlib.Data.List.GetD
import QosOlsr.Library.Loop
import QosOlsr.Library.Runs
import QosOlsr.Packet

/-!
# Packets from zebra

`zclient_read` of the quagga plugin reads from a socket that does not block
until what it has ends with a packet, following the lengths with an offset of
16 bits; it drops what it has when the socket has nothing more for the moment.
-/

namespace QosOlsr.Zebra

open Library List

def packetLength (buf : List UInt8) (offset : Nat) : Nat :=
  (buf.getD offset 0).toNat * 256 + (buf.getD (offset + 1) 0).toNat

/-- One round of the inner loop of `zclient_read`, with an offset of 16 bits. -/
def nextOffset (buf : List UInt8) (offset : Nat) : Nat :=
  (offset + packetLength buf offset) % 0x10000

/-- The inner loop of `zclient_read`, for a number of rounds. -/
def scan (buf : List UInt8) : Nat → Nat → Option Nat
  | rounds, offset =>
    if offset + 2 ≤ buf.length then
      match rounds with
      | 0 => none
      | rounds + 1 => scan buf rounds (nextOffset buf offset)
    else
      some offset

def autobufchunk : Nat := 4096

/-- The socket and the local variables of `zclient_read`: `rest` is what zebra
has sent and nobody has read, `buf` the part of the buffer that is filled.
`returned` are the buffers that the calls so far have returned. -/
structure ZebraState where
  connected : Bool
  rest : List UInt8
  buf : List UInt8
  bufsize : Nat
  offset : Nat
  returned : List (List UInt8)
  deriving DecidableEq, Repr

/-- What `read` does: it delivers up to `count + 1` bytes, it would block, it
reports the end of the stream, or it fails. -/
inductive ReadEvent where
  | chunk (count : Nat)
  | wouldBlock
  | closed
  | failed
  deriving DecidableEq, Repr

def zebraStart (stream : List UInt8) : ZebraState where
  connected := true
  rest := stream
  buf := []
  bufsize := 0
  offset := 0
  returned := []

def grownBufsize (st : ZebraState) : Nat :=
  if st.buf.length = st.bufsize then
    st.bufsize + autobufchunk
  else
    st.bufsize

def received (st : ZebraState) : ReadEvent → List UInt8
  | .chunk count => st.rest.take (min (count + 1) (grownBufsize st - st.buf.length))
  | .wouldBlock | .closed | .failed => []

/-- `error_out`: the buffer is freed, and the next call starts with none. -/
def errorOut (st : ZebraState) (event : ReadEvent) : ZebraState :=
  { st with
    connected := st.connected && event ≠ .failed
    buf := []
    bufsize := 0
    offset := 0 }

/-- One round of the outer loop of `zclient_read`, the first one of a call if
the buffer is empty.  There are no more offsets than rounds of the inner loop,
so that one that takes more never ends. -/
def zclientReadRound (st : ZebraState) (event : ReadEvent) : Option ZebraState :=
  let bytes := received st event
  if bytes = [] then
    some (errorOut st event)
  else
    let buf := st.buf ++ bytes
    let rest := st.rest.drop bytes.length
    match scan buf 0x10000 st.offset with
    | none => none
    | some offset =>
      if buf.length = offset then
        some
          { st with
            rest := rest
            buf := []
            bufsize := 0
            offset := 0
            returned := st.returned ++ [buf] }
      else
        some
          { st with
            rest := rest
            buf := buf
            bufsize := grownBufsize st
            offset := offset }

/-! ## Packet boundaries -/

/-- The places that are reached from the start over the lengths found there. -/
inductive Boundary (buf : List UInt8) : Nat → Prop
  | start : Boundary buf 0
  | next {place : Nat} :
      Boundary buf place → place + 2 ≤ buf.length → Boundary buf (place + packetLength buf place)

/-- The lengths that are found in a buffer are not 0, and the places that they
lead to are offsets of 16 bits. -/
def ScanFits (buf : List UInt8) : Prop := ∀ place, Boundary buf place → place + 2 ≤ buf.length →
    packetLength buf place ≠ 0 ∧ place + packetLength buf place < 0x10000

variable {buf : List UInt8} {place : Nat}

theorem packetLength_append (inside : place + 2 ≤ buf.length) (more : List UInt8) :
    packetLength (buf ++ more) place = packetLength buf place := by
  unfold packetLength
  rw [getD_append _ _ _ _ (by omega), getD_append _ _ _ _ (by omega)]

theorem Boundary.append (boundary : Boundary buf place) (more : List UInt8) :
    Boundary (buf ++ more) place := by
  induction boundary with
  | start => exact .start
  | next _ inside ih =>
    rw [← packetLength_append inside more]
    refine .next ih ?_
    rw [length_append]
    omega

/-- The scan ends at the first boundary without a length behind it. -/
theorem scan_spec (fits : ScanFits buf) {rounds offset : Nat} (boundary : Boundary buf offset)
    (small : offset < 0x10000) (enough : 0x10000 ≤ rounds + offset) :
    ∃ place, scan buf rounds offset = some place ∧ Boundary buf place ∧
      place < 0x10000 ∧ buf.length < place + 2 := by
  induction rounds generalizing offset with
  | zero => omega
  | succ rounds ih =>
    rw [scan]
    split
    next inside =>
      obtain ⟨nonzero, below⟩ := fits offset boundary inside
      rw [nextOffset, Nat.mod_eq_of_lt below]
      exact ih (boundary.next inside) below (by omega)
    next outside => exact ⟨offset, rfl, boundary, small, by omega⟩

def RoundFits (st : ZebraState) (event : ReadEvent) : Prop :=
  received st event ≠ [] → ScanFits (st.buf ++ received st event)

/-- Nothing has been received in this call when the socket has nothing to
deliver. -/
def Unbroken (st : ZebraState) (event : ReadEvent) : Prop := received st event = [] → st.buf = []

structure OffsetOk (st : ZebraState) : Prop where
  boundary : Boundary st.buf st.offset
  small : st.offset < 0x10000

variable {st : ZebraState} {event : ReadEvent}

theorem zclientReadRound_cases (ok : OffsetOk st) (fits : RoundFits st event) :
    (received st event = [] ∧ zclientReadRound st event = some (errorOut st event)) ∨
    ∃ next, zclientReadRound st event = some next ∧
      next.rest = st.rest.drop (received st event).length ∧
      ((next.buf = [] ∧ next.offset = 0 ∧
        next.returned = st.returned ++ [st.buf ++ received st event] ∧
        Boundary (st.buf ++ received st event) (st.buf ++ received st event).length) ∨
      (next.buf = st.buf ++ received st event ∧ next.returned = st.returned ∧ OffsetOk next)) := by
  rw [zclientReadRound]
  dsimp only
  split
  next nothing => exact .inl ⟨nothing, rfl⟩
  next something =>
    right
    obtain ⟨place, scanned, boundary, small, -⟩ :=
      scan_spec (fits something) (ok.boundary.append _) ok.small
        (Nat.le_add_right 0x10000 st.offset)
    rw [scanned]
    dsimp only
    split
    next isEnd =>
      rw [← isEnd] at boundary
      exact ⟨_, rfl, rfl, .inl ⟨rfl, rfl, rfl, boundary⟩⟩
    · exact ⟨_, rfl, rfl, .inr ⟨rfl, rfl, boundary, small⟩⟩

theorem offsetOk_start (first : st.offset = 0) : OffsetOk st := by
  refine ⟨?_, ?_⟩
  · rw [first]
    exact .start
  · rw [first]
    decide

theorem OffsetOk.zclientReadRound (ok : OffsetOk st) (fits : RoundFits st event) :
    ∃ next, zclientReadRound st event = some next ∧ OffsetOk next := by
  rcases zclientReadRound_cases ok fits with
    ⟨-, taken⟩ | ⟨next, taken, -, ⟨-, first, -⟩ | ⟨-, -, nextOk⟩⟩
  · exact ⟨_, taken, offsetOk_start rfl⟩
  · exact ⟨next, taken, offsetOk_start first⟩
  · exact ⟨next, taken, nextOk⟩

/-- A packet starts with its own length, which covers more than itself. -/
structure IsPacket (packet : List UInt8) : Prop where
  long : 3 ≤ packet.length
  length_eq : packetLength packet 0 = packet.length

theorem packetLength_flatten {front back : List (List UInt8)} {packet : List UInt8}
    (isPacket : IsPacket packet) :
    packetLength (front ++ packet :: back).flatten front.flatten.length = packet.length := by
  have long := isPacket.long
  rw [← isPacket.length_eq, flatten_append, flatten_cons]
  unfold packetLength
  rw [getD_append_right _ _ _ _ le_rfl,
    getD_append_right _ _ _ _ (Nat.le_add_right _ 1), Nat.sub_self,
    Nat.add_sub_cancel_left, getD_append _ _ _ _ (by omega),
    getD_append _ _ _ _ (by omega)]

variable {rest : List UInt8}

/-- At the start of a packet of a stream, if it has been received, stands the
length of the packet. -/
theorem packetLength_of_packets {packets : List (List UInt8)}
    (arePackets : ∀ p ∈ packets, IsPacket p) (isStream : buf ++ rest = packets.flatten)
    {count : Nat} (inside : (packets.take count).flatten.length + 2 ≤ buf.length) :
    ∃ packet, packets[count]? = some packet ∧
      IsPacket packet ∧ packetLength buf (packets.take count).flatten.length = packet.length := by
  have below : count < packets.length := by
    by_contra beyond
    rw [take_of_length_le (Nat.not_lt.mp beyond), ← isStream, length_append] at inside
    omega
  have split : packets = packets.take count ++ packets[count] :: packets.drop (count + 1) := by
    rw [cons_getElem_drop_succ, take_append_drop]
  have isPacket := arePackets packets[count] (getElem_mem below)
  have isLength : packetLength
          (packets.take count ++ packets[count] :: packets.drop (count + 1)).flatten
          (packets.take count).flatten.length =
        packets[count].length :=
    packetLength_flatten isPacket
  rw [← split, ← isStream, packetLength_append inside] at isLength
  exact ⟨packets[count], getElem?_eq_getElem below, isPacket, isLength⟩

/-- The boundaries of a part of a stream of packets are those of its packets. -/
theorem Boundary.packets {packets : List (List UInt8)}
    (arePackets : ∀ p ∈ packets, IsPacket p) (isStream : buf ++ rest = packets.flatten)
    (boundary : Boundary buf place) : ∃ count, place = (packets.take count).flatten.length := by
  induction boundary with
  | start => exact ⟨0, rfl⟩
  | next _ inside ih =>
    obtain ⟨count, rfl⟩ := ih
    obtain ⟨packet, found, -, isLength⟩ := packetLength_of_packets arePackets isStream inside
    refine ⟨count + 1, ?_⟩
    rw [isLength, take_add_one, found, flatten_append, length_append]
    simp

/-- A part of a stream of packets that is not too long can be scanned. -/
theorem scanFits_of_packets {packets : List (List UInt8)}
    (arePackets : ∀ p ∈ packets, IsPacket p) (short : packets.flatten.length < 0x10000)
    (isStream : buf ++ rest = packets.flatten) : ScanFits buf := by
  intro place boundary inside
  obtain ⟨next, isNext⟩ := (boundary.next inside).packets arePackets isStream
  obtain ⟨count, rfl⟩ := boundary.packets arePackets isStream
  obtain ⟨packet, -, isPacket, isLength⟩ := packetLength_of_packets arePackets isStream inside
  have long := isPacket.long
  have upTo : (packets.take next).flatten.length ≤ packets.flatten.length :=
    (take_sublist next packets).flatten.length_le
  omega

/-- The buffers returned so far are the first packets of the stream, and what is
in the buffer and in the socket are the others. -/
def Reassembled (packets : List (List UInt8)) (st : ZebraState) : Prop := ∃ count,
    st.returned.flatten = (packets.take count).flatten ∧
    st.buf ++ st.rest = (packets.drop count).flatten

theorem take_append_drop_received (st : ZebraState) (event : ReadEvent) :
    received st event ++ st.rest.drop (received st event).length = st.rest := by
  cases event with
  | chunk count =>
    simp only [received, length_take]
    generalize min (count + 1) (grownBufsize st - st.buf.length) = most
    rcases Nat.le_total most st.rest.length with inside | outside
    · rw [Nat.min_eq_left inside, take_append_drop]
    · rw [Nat.min_eq_right outside, take_of_length_le outside, drop_length, append_nil]
  | wouldBlock => rfl
  | closed => rfl
  | failed => rfl

theorem Reassembled.zclientReadRound {packets : List (List UInt8)}
    (arePackets : ∀ p ∈ packets, IsPacket p) {next : ZebraState} (ok : OffsetOk st)
    (assembled : Reassembled packets st) (fits : RoundFits st event) (unbroken : Unbroken st event)
    (taken : zclientReadRound st event = some next) : Reassembled packets next := by
  obtain ⟨count, isReturned, isRest⟩ := assembled
  have isStream : (st.buf ++ received st event) ++
          st.rest.drop (received st event).length =
        (packets.drop count).flatten := by
    rw [append_assoc, take_append_drop_received, isRest]
  rcases zclientReadRound_cases ok fits with ⟨nothing, stepped⟩ | ⟨other, stepped, otherRest, cases⟩
  · rw [stepped] at taken
    cases taken
    refine ⟨count, isReturned, ?_⟩
    rw [← isRest, unbroken nothing]
    rfl
  · rw [stepped] at taken
    cases taken
    rcases cases with ⟨empty, -, returned, boundary⟩ | ⟨filled, returned, -⟩
    · -- the call returns, with a number of whole packets
      have laterPackets : ∀ p ∈ packets.drop count, IsPacket p :=
        fun p mem => arePackets p (mem_of_mem_drop mem)
      obtain ⟨more, isLength⟩ := boundary.packets laterPackets isStream
      have split : ((packets.drop count).take more).flatten ++
              ((packets.drop count).drop more).flatten =
            (packets.drop count).flatten := by
        rw [← flatten_append, take_append_drop]
      obtain ⟨isBuf, isOthers⟩ := append_inj (isStream.trans split.symm) isLength
      refine ⟨count + more, ?_, ?_⟩
      · rw [returned, flatten_append, flatten_singleton, isReturned,
          isBuf, ← flatten_append, take_add]
      · rw [empty, otherRest, isOthers, drop_drop]
        rfl
    · refine ⟨count, by rw [returned, isReturned], ?_⟩
      rw [filled, otherRest, isStream]

/-- If every length that is received leads to an offset of 16 bits, and none is
0, then every scan ends; and if moreover the socket has nothing to deliver only
between calls, then the buffers returned are the packets of the stream, in
order, none lost. -/
theorem zclientRun_reassembles (stream : List UInt8) {events : List ReadEvent}
    (fits : RunMeets zclientReadRound RoundFits (zebraStart stream) events) :
    ∃ final, runEvents zclientReadRound (zebraStart stream) events = some final ∧
      ∀ packets : List (List UInt8), (∀ p ∈ packets, IsPacket p) → stream = packets.flatten →
        RunMeets zclientReadRound Unbroken (zebraStart stream) events →
          Reassembled packets final := by
  have initially : OffsetOk (zebraStart stream) := offsetOk_start rfl
  have succeeds : ∀ {st : ZebraState} {event : ReadEvent},
        OffsetOk st → RoundFits st event → ∃ next, zclientReadRound st event = some next ∧
            OffsetOk next :=
    OffsetOk.zclientReadRound
  obtain ⟨final, finished, -⟩ : ∃ final,
        runEvents zclientReadRound (zebraStart stream) events = some final ∧ OffsetOk final :=
    runEvents_exists_of_meets succeeds initially fits
  refine ⟨final, finished, ?_⟩
  intro packets arePackets isStream unbroken
  have preserved : ∀ {st next : ZebraState} {event : ReadEvent},
        OffsetOk st ∧ Reassembled packets st → RoundFits st event ∧ Unbroken st event →
            zclientReadRound st event = some next → OffsetOk next ∧ Reassembled packets next := by
    rintro st next event ⟨ok, assembled⟩ ⟨roundFits, isUnbroken⟩ taken
    obtain ⟨other, stepped, otherOk⟩ := ok.zclientReadRound roundFits
    have later := assembled.zclientReadRound arePackets ok roundFits isUnbroken taken
    rw [stepped] at taken
    cases taken
    exact ⟨otherOk, later⟩
  exact (runEvents_invariant_of_meets preserved
      ⟨initially, 0, rfl, isStream⟩ (fits.and unbroken) finished).2

/-- In a stream of less than 64 kilobytes every length leads to an offset of 16
bits, as long as no part of it is lost. -/
theorem roundFits_of_short {packets : List (List UInt8)} (arePackets : ∀ p ∈ packets, IsPacket p)
    (short : packets.flatten.length < 0x10000) {events : List ReadEvent}
    (unbroken : RunMeets zclientReadRound Unbroken (zebraStart packets.flatten) events) :
    RunMeets zclientReadRound RoundFits (zebraStart packets.flatten) events := by
  have follows : ∀ {st : ZebraState} {event : ReadEvent},
        OffsetOk st ∧ Reassembled packets st → Unbroken st event → RoundFits st event := by
    rintro st event ⟨-, count, -, isRest⟩ - -
    have shorter : (packets.drop count).flatten.length ≤ packets.flatten.length :=
      (drop_sublist count packets).flatten.length_le
    apply scanFits_of_packets
      (fun p mem => arePackets p (mem_of_mem_drop mem)) (shorter.trans_lt short)
    rw [append_assoc, take_append_drop_received, isRest]
  refine RunMeets.imp_of_invariant follows ?_ ⟨offsetOk_start rfl, 0, rfl, rfl⟩ unbroken
  rintro st next event ⟨ok, assembled⟩ isUnbroken taken
  have roundFits := follows ⟨ok, assembled⟩ isUnbroken
  obtain ⟨other, stepped, otherOk⟩ := ok.zclientReadRound roundFits
  have later := assembled.zclientReadRound arePackets ok roundFits isUnbroken taken
  rw [stepped] at taken
  cases taken
  exact ⟨otherOk, later⟩

instance Unbroken.decidable (st : ZebraState) (event : ReadEvent) : Decidable (Unbroken st event) :=
  inferInstanceAs (Decidable (_ → _))

def twoPackets : List (List UInt8) := [[0, 4, 0, 4], [0, 3, 9]]

theorem isPacket_twoPackets : ∀ p ∈ twoPackets, IsPacket p := by
  intro p mem
  simp only [twoPackets, mem_cons, not_mem_nil, or_false] at mem
  rcases mem with rfl | rfl
  · exact ⟨by decide, by decide⟩
  · exact ⟨by decide, by decide⟩

def wholeEvents : List ReadEvent := [.chunk 0, .chunk 2, .wouldBlock, .chunk 2]

def brokenEvents : List ReadEvent := [.chunk 1, .wouldBlock, .chunk 3]

theorem zclientRun_reassembles_twoPackets :
    RunMeets zclientReadRound Unbroken (zebraStart twoPackets.flatten) wholeEvents ∧ ∃ final,
        runEvents zclientReadRound (zebraStart twoPackets.flatten) wholeEvents = some final ∧
          Reassembled twoPackets final := by
  have unbroken : RunMeets zclientReadRound Unbroken (zebraStart twoPackets.flatten)
        wholeEvents := by
    decide +kernel
  obtain ⟨final, finished, assembled⟩ := zclientRun_reassembles twoPackets.flatten
      (roundFits_of_short isPacket_twoPackets (by decide) unbroken)
  exact ⟨unbroken, final, finished, assembled twoPackets isPacket_twoPackets rfl unbroken⟩

/-- The first two bytes are lost when the socket has nothing more to deliver,
and what is returned next is no beginning of the stream.  A length of 0 is
scanned for ever. -/
theorem brokenPacket_lost :
    (∃ final, runEvents zclientReadRound (zebraStart twoPackets.flatten) brokenEvents = some final ∧
        final.returned = [[0, 4, 0, 3]] ∧
        ¬ final.returned.flatten <+: twoPackets.flatten) ∧
    ∀ rounds, scan [0, 0, 0] rounds 0 = none := by
  refine ⟨⟨_, rfl, by decide +kernel, by decide +kernel⟩, ?_⟩
  intro rounds
  induction rounds with
  | zero => rfl
  | succ rounds ih => exact ih

variable {next : ZebraState} {packets : List (List UInt8)}

/-- Every buffer that was returned is not empty and ends with a packet. -/
def Ends (st : ZebraState) : Prop := ∀ buf ∈ st.returned, buf ≠ [] ∧ Boundary buf buf.length

theorem Ends.zclientReadRound (ends : Ends st) (ok : OffsetOk st) (fits : RoundFits st event)
    (taken : zclientReadRound st event = some next) : Ends next := by
  rcases zclientReadRound_cases ok fits with
    ⟨-, stepped⟩ | ⟨other, stepped, -, ⟨-, -, returned, boundary⟩ | ⟨-, returned, -⟩⟩
  · cases stepped.symm.trans taken
    exact ends
  · cases stepped.symm.trans taken
    have something : received st event ≠ [] := by
      intro nothing
      rw [Zebra.zclientReadRound, if_pos nothing] at taken
      cases taken
      simp [errorOut] at returned
    rw [Ends, returned, forall_mem_append, forall_mem_singleton]
    exact ⟨ends, append_ne_nil_of_right_ne_nil _ something, boundary⟩
  · cases stepped.symm.trans taken
    rwa [Ends, returned]

/-- The version of the protocol and the addresses that olsrd is configured for. -/
structure ZebraConfig where
  version : UInt8
  ipVersion : IpVersion

/-- The command of a packet.  The program ends at a version that it does not
know, and for versions 1 and 2 at another marker or version in the header. -/
def zebraCommand (cfg : ZebraConfig) (f : List UInt8) : Option Nat :=
  if cfg.version = 0 then
    some (f.getD 2 0).toNat
  else if cfg.version = 1 ∨ cfg.version = 2 then
    if f.getD 2 0 ≠ 255 ∨ f.getD 3 0 ≠ cfg.version then
      none
    else
      some (packetLength f 4)
  else
    none

def headerSize (cfg : ZebraConfig) : Nat := if cfg.version = 0 then 3 else 6

def prefixSize (cfg : ZebraConfig) (opt : List UInt8) : Nat :=
  ((opt.getD (headerSize cfg + 3) 0).toNat + 7) / 8

/-- The place `pnt` behind a list of `size` bytes each, with its number in
front, if the message has one. -/
def listEnd (opt : List UInt8) (present : Bool) (size pnt : Nat) : Nat :=
  if present then pnt + 1 + (opt.getD pnt 0).toNat * size else pnt

/-- The place `pnt` at the end of `zparse_route`.  Zebra of version 0 always
sends a metric. -/
def routeEnd (cfg : ZebraConfig) (opt : List UInt8) : Nat :=
  let message := opt.getD (headerSize cfg + 2) 0
  let pnt := headerSize cfg + 4 + prefixSize cfg opt
  let pnt := listEnd opt (message &&& 1 != 0) cfg.ipVersion.ipsize pnt
  let pnt := listEnd opt (message &&& 2 != 0) 4 pnt
  let pnt := if message &&& 4 ≠ 0 then pnt + 1 else pnt
  if message &&& 8 ≠ 0 ∨ cfg.version = 0 then pnt + 4 else pnt

/-- `zparse_route` copies the prefix to an address of 16 bytes, and ends the
program unless it has read as many bytes as the packet has. -/
def RouteFits (cfg : ZebraConfig) (opt : List UInt8) (length : Nat) : Prop :=
  prefixSize cfg opt ≤ 16 ∧ routeEnd cfg opt = length

instance RouteFits.decidable (cfg : ZebraConfig) (opt : List UInt8) (length : Nat) :
    Decidable (RouteFits cfg opt length) :=
  instDecidableAnd

/-- The commands for which `zparse` calls `zparse_route`. -/
def isRouteCommand (cfg : ZebraConfig) (command : Nat) : Bool :=
  match cfg.ipVersion with
  | .inet => command = 7 || command = 8
  | .inet6 => command = 9 || command = 10

/-- The loop of `zparse` over the packets of a buffer, which ends the program
at a length of 0. -/
def zparsePackets (cfg : ZebraConfig) (data : List UInt8) (pos : Nat) :
    Option (List (List UInt8)) :=
  let length := packetLength data pos
  let f := data.drop pos
  if length = 0 then
    none
  else
    match zebraCommand cfg f with
    | none => none
    | some command =>
      if isRouteCommand cfg command ∧ ¬RouteFits cfg f length then
        none
      else if pos + length < data.length then
        (zparsePackets cfg data (pos + length)).map (f.take length :: ·)
      else
        some [f.take length]
  termination_by data.length - pos

/-- A packet that a program of this configuration takes: its header is there
and is that of the version, and a route fills the packet. -/
structure Accepted (cfg : ZebraConfig) (packet : List UInt8) : Prop extends IsPacket packet where
  header : headerSize cfg ≤ packet.length
  command : ∃ command, zebraCommand cfg packet = some command ∧
    (isRouteCommand cfg command → RouteFits cfg packet packet.length)

variable {cfg : ZebraConfig} {packet : List UInt8}

theorem zebraCommand_append (whole : headerSize cfg ≤ packet.length) (long : 3 ≤ packet.length)
    (more : List UInt8) : zebraCommand cfg (packet ++ more) = zebraCommand cfg packet := by
  unfold zebraCommand headerSize at *
  split
  · rw [getD_append _ _ _ _ (by omega)]
  next later =>
    rw [if_neg later] at whole
    rw [getD_append _ _ _ _ (by omega), getD_append _ _ _ _ (by omega),
      packetLength_append (by omega)]

theorem le_listEnd (opt : List UInt8) (present : Bool) (size pnt : Nat) :
    pnt ≤ listEnd opt present size pnt := by
  unfold listEnd
  split <;> omega

theorem listEnd_append {present : Bool} {size pnt : Nat}
    (inside : listEnd packet present size pnt ≤ packet.length) (more : List UInt8) :
    listEnd (packet ++ more) present size pnt = listEnd packet present size pnt := by
  unfold listEnd at *
  split
  next isPresent =>
    rw [if_pos isPresent] at inside
    rw [getD_append _ _ _ _ (by omega)]
  · rfl

/-- A route that fills its packet is read from the packet alone. -/
theorem RouteFits.append (fits : RouteFits cfg packet packet.length) (more : List UInt8) :
    RouteFits cfg (packet ++ more) packet.length := by
  obtain ⟨small, isEnd⟩ := fits
  dsimp only [routeEnd] at isEnd
  generalize nexthops : listEnd packet _ cfg.ipVersion.ipsize
    (headerSize cfg + 4 + prefixSize cfg packet) = afterNexthops at isEnd
  generalize ifindexes : listEnd packet _ 4 afterNexthops = afterIfindexes at isEnd
  have inside : afterIfindexes ≤ packet.length := by
    split at isEnd <;> split at isEnd <;> omega
  have nexthopsLe : afterNexthops ≤ packet.length := (ifindexes ▸ le_listEnd ..).trans inside
  have prefixLe : headerSize cfg + 4 + prefixSize cfg packet ≤ packet.length :=
    (nexthops ▸ le_listEnd ..).trans nexthopsLe
  have samePrefix : prefixSize cfg (packet ++ more) = prefixSize cfg packet := by
    rw [prefixSize, getD_append _ _ _ _ (by omega), prefixSize]
  refine ⟨samePrefix ▸ small, ?_⟩
  dsimp only [routeEnd]
  rw [samePrefix, getD_append _ _ _ _ (by omega), listEnd_append (nexthops.trans_le nexthopsLe),
    nexthops, listEnd_append (ifindexes.trans_le inside), ifindexes]
  exact isEnd

theorem zparsePackets_flatten (front : List (List UInt8))
    (accepted : ∀ p ∈ packets, Accepted cfg p) (nonempty : packets ≠ []) :
    zparsePackets cfg (front ++ packets).flatten front.flatten.length = some packets := by
  induction packets generalizing front with
  | nil => exact absurd rfl nonempty
  | cons packet rest ih =>
    obtain ⟨isAccepted, later⟩ := forall_mem_cons.mp accepted
    have long := isAccepted.long
    obtain ⟨command, isCommand, route⟩ := isAccepted.command
    have left : (front ++ packet :: rest).flatten.drop front.flatten.length =
        packet ++ rest.flatten := by simp
    have fits : ¬(isRouteCommand cfg command ∧
        ¬RouteFits cfg (packet ++ rest.flatten) packet.length) := by
      rintro ⟨isRoute, unfit⟩
      exact unfit ((route isRoute).append _)
    rw [zparsePackets, packetLength_flatten isAccepted.toIsPacket, left]
    rw [if_neg (by omega), zebraCommand_append isAccepted.header long, isCommand]
    dsimp only
    rw [if_neg fits]
    cases rest with
    | nil => simp
    | cons second rest =>
      have moreLong := (later second mem_cons_self).long
      have following := ih (front ++ [packet]) later (cons_ne_nil _ _)
      have place : (front ++ [packet]).flatten.length = front.flatten.length + packet.length := by
        simp
      rw [append_assoc, singleton_append, place] at following
      rw [if_pos (by simp; omega), following]
      simp

/-- The buffers are cut into the packets that they are made of. -/
theorem zparsePackets_returned {returned : List (List UInt8)}
    (ends : ∀ buf ∈ returned, buf ≠ [] ∧ Boundary buf buf.length)
    (accepted : ∀ p ∈ packets, Accepted cfg p) (whole : returned.flatten = packets.flatten) :
    (returned.mapM (zparsePackets cfg · 0)).map flatten = some packets := by
  induction returned generalizing packets with
  | nil =>
    cases packets with
    | nil => rfl
    | cons packet rest =>
      have long := (accepted packet mem_cons_self).long
      have empty := congrArg length whole
      simp at empty
      omega
  | cons buf rest ih =>
    obtain ⟨⟨nonempty, boundary⟩, later⟩ := forall_mem_cons.mp ends
    obtain ⟨count, isLength⟩ := boundary.packets (fun p mem => (accepted p mem).toIsPacket) whole
    have split := (congrArg flatten (take_append_drop count packets)).symm
    rw [flatten_append] at split
    obtain ⟨isBuf, isRest⟩ := append_inj (whole.trans split) isLength
    have first : zparsePackets cfg buf 0 = some (packets.take count) := by
      rw [isBuf]
      refine zparsePackets_flatten [] (fun p mem => accepted p (mem_of_mem_take mem)) ?_
      rintro none
      rw [none] at isBuf
      exact nonempty isBuf
    have others := ih later (fun p mem => accepted p (mem_of_mem_drop mem)) isRest
    obtain ⟨groups, parsed, joined⟩ := Option.map_eq_some_iff.mp others
    rw [mapM_cons, first, parsed]
    simp [joined]

/-- What `zparse` cuts out of the buffers that `zclient_read` returns are the
first packets of the stream, in order, and the others are still to come. -/
theorem zparse_receives (accepted : ∀ p ∈ packets, Accepted cfg p) {events : List ReadEvent}
    (fits : RunMeets zclientReadRound RoundFits (zebraStart packets.flatten) events)
    (unbroken : RunMeets zclientReadRound Unbroken (zebraStart packets.flatten) events) :
    ∃ final count, runEvents zclientReadRound (zebraStart packets.flatten) events = some final ∧
      (final.returned.mapM (zparsePackets cfg · 0)).map flatten = some (packets.take count) ∧
      final.buf ++ final.rest = (packets.drop count).flatten := by
  have arePackets : ∀ p ∈ packets, IsPacket p := fun p member => (accepted p member).toIsPacket
  have succeeds : ∀ {st : ZebraState} {event : ReadEvent},
      OffsetOk st ∧ Reassembled packets st ∧ Ends st → RoundFits st event ∧ Unbroken st event →
        ∃ next, zclientReadRound st event = some next ∧
          OffsetOk next ∧ Reassembled packets next ∧ Ends next := by
    rintro st event ⟨ok, assembled, ends⟩ ⟨roundFits, isUnbroken⟩
    obtain ⟨next, taken, nextOk⟩ := ok.zclientReadRound roundFits
    exact ⟨next, taken, nextOk, assembled.zclientReadRound arePackets ok roundFits isUnbroken taken,
      ends.zclientReadRound ok roundFits taken⟩
  have initially : Ends (zebraStart packets.flatten) := fun _ => nofun
  obtain ⟨final, finished, -, ⟨count, isReturned, isRest⟩, ends⟩ :=
    runEvents_exists_of_meets succeeds ⟨offsetOk_start rfl, ⟨0, rfl, rfl⟩, initially⟩
      (fits.and unbroken)
  have earlier : ∀ p ∈ packets.take count, Accepted cfg p :=
    fun p member => accepted p (mem_of_mem_take member)
  exact ⟨final, count, finished, zparsePackets_returned ends earlier isReturned, isRest⟩

/-- An answer of version 1 and a route to 10.0.0.0/24. -/
def addedRoute : List (List UInt8) :=
  [[0, 6, 255, 1, 0, 4], [0, 13, 255, 1, 0, 7, 1, 0, 0, 24, 10, 0, 0]]

def addedRouteEvents : List ReadEvent := [.chunk 0, .chunk 4, .wouldBlock, .chunk 6, .chunk 9]

theorem accepted_addedRoute : ∀ p ∈ addedRoute, Accepted ⟨1, .inet⟩ p := by
  intro p mem
  simp only [addedRoute, mem_cons, not_mem_nil, or_false] at mem
  rcases mem with rfl | rfl
  · exact ⟨⟨by decide, by decide⟩, by decide, 4, by decide, by decide⟩
  · exact ⟨⟨by decide, by decide⟩, by decide, 7, by decide, by decide⟩

theorem zparse_receives_addedRoute : ∃ final,
      runEvents zclientReadRound (zebraStart addedRoute.flatten) addedRouteEvents = some final ∧
        (final.returned.mapM (zparsePackets ⟨1, .inet⟩ · 0)).map flatten = some addedRoute := by
  have unbroken : RunMeets zclientReadRound Unbroken (zebraStart addedRoute.flatten)
      addedRouteEvents := by decide +kernel
  have arePackets : ∀ p ∈ addedRoute, IsPacket p :=
    fun p member => (accepted_addedRoute p member).toIsPacket
  obtain ⟨final, count, finished, cut, remaining⟩ := zparse_receives accepted_addedRoute
    (roundFits_of_short arePackets (by decide) unbroken) unbroken
  have allRead : (runEvents zclientReadRound (zebraStart addedRoute.flatten) addedRouteEvents).map
      (fun st => st.buf ++ st.rest) = some [] := by decide +kernel
  rw [finished, Option.map_some, remaining, Option.some_inj] at allRead
  refine ⟨final, finished, ?_⟩
  rw [cut]
  match count, allRead with
  | _ + 2, _ => simp [addedRoute]

end QosOlsr.Zebra
