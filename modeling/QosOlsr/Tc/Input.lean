import QosOlsr.Tc.EdgeSet

/-!
# Receiving TC messages

`olsr_input_tc` of `tc_set.c`: the header, the sequence number windows, the
walk over the advertised edges, the borders of the advertised range and the
deletion of revoked edges.  Timers, link costs and the reaction of other
tables to an empty TC are left out.
-/

namespace QosOlsr

open Library

/-! ## Borders -/

def onesAddr (ver : IpVersion) : IpAddr ver :=
  ⟨List.replicate ver.ipsize 0xff, List.length_replicate ..⟩

/-- The border with `border` low bits cleared and the bit above them set, as
`olsr_calculate_tc_border` writes it into `addr`.  `fromEnd` counts bytes from
the last one. -/
def borderAddr {ver : IpVersion} (border : Nat) (addr : IpAddr ver) : IpAddr ver where
  bytes := addr.bytes.mapIdx fun index byte =>
      let fromEnd := ver.ipsize - 1 - index
      if fromEnd < border / 8 then
        0
      else if fromEnd = border / 8 then
        (byte &&& (0xff <<< UInt8.ofNat (border % 8))) ||| (1 <<< UInt8.ofNat (border % 8))
      else
        byte
  length_eq := by rw [List.length_mapIdx, addr.length_eq]

def olsrCalculateTcBorder {ver : IpVersion} (lowerBorder : UInt8) (lowerBorderIp : IpAddr ver)
    (upperBorder : UInt8) (upperBorderIp : IpAddr ver) : Option (IpAddr ver × IpAddr ver) :=
  if lowerBorder = 0 ∧ upperBorder = 0 then
    none
  else
    some
      (if lowerBorder = 0xff then
          zeroAddr ver
        else
          borderAddr (lowerBorder - 1).toNat lowerBorderIp,
        if upperBorder = 0xff then
          onesAddr ver
        else
          borderAddr (upperBorder - 1).toNat upperBorderIp)

/-! ## Sequence numbers -/

def olsrSeqInrangeLow (beg limit : Int) (seq : Nat) : Bool :=
  if beg < 0 then
    beg % 0x10000 ≤ seq ∨ (seq : Int) < limit
  else if 0x10000 ≤ limit then
    beg ≤ seq ∨ (seq : Int) < limit % 0x10000
  else
    beg ≤ seq ∧ (seq : Int) < limit

def olsrSeqInrangeHigh (beg limit : Int) (seq : Nat) : Bool :=
  if beg < 0 then
    beg % 0x10000 < seq ∨ (seq : Int) ≤ limit
  else if 0x10000 ≤ limit then
    beg < seq ∨ (seq : Int) ≤ limit % 0x10000
  else
    beg < seq ∧ (seq : Int) ≤ limit

/-- `struct tc_entry`, as far as `olsr_input_tc` reads and writes it. -/
structure TcEntry (ver : IpVersion) where
  edges : List (TcEdge ver)
  msgHops : UInt8
  msgSeq : Nat
  ansn : Nat
  ignored : Nat
  errSeq : Nat
  errSeqValid : Bool

structure TcHeader (ver : IpVersion) where
  vtime : UInt8
  size : Nat
  originator : IpAddr ver
  ttl : UInt8
  msgHops : UInt8
  msgSeq : Nat
  ansn : Nat
  lowerBorder : UInt8
  upperBorder : UInt8

section Sequence

variable {ver : IpVersion}

/-- The window checks on a known originator with edges: the entry left behind
when the message is dropped. -/
def dropTcMessage (tc : TcEntry ver) (msgSeq ansn : Nat) : Option (TcEntry ver) :=
  if tc.edges.length = 0 then
    none
  else if olsrSeqInrangeHigh ((tc.msgSeq : Int) - 1024) tc.msgSeq msgSeq ∧
      olsrSeqInrangeHigh ((tc.ansn : Int) - 256) tc.ansn ansn then
    if tc.msgSeq = msgSeq then
      some tc
    else if tc.ignored < 32 then
      some { tc with ignored := tc.ignored + 1 }
    else
      none
  else if olsrSeqInrangeHigh tc.msgSeq (tc.msgSeq + 1024 * 8) msgSeq = false ∨
      olsrSeqInrangeLow tc.ansn (tc.ansn + 256 * 4) ansn = false then
    let noted :=
      if tc.errSeqValid then
        tc
      else
        { tc with errSeq := msgSeq, errSeqValid := true }
    if noted.errSeq = msgSeq then some noted else none
  else
    none

end Sequence

/-! ## The message -/

section

variable (ver : IpVersion)

/-- The pointer, the edges and the first and last address read so far. -/
structure TcReading where
  curr : Cursor
  edges : List (TcEdge ver)
  borderIps : Option (IpAddr ver × IpAddr ver)

/-- What the part of `olsr_input_tc` behind the checks leaves: `emptied` says
that an empty TC deletes the whole entry. -/
structure TcBody where
  curr : Cursor
  edges : List (TcEdge ver)
  emptied : Bool

structure TcNode where
  config : TcConfig ver
  mainAddr : IpAddr ver
  senderIsSym : Bool
  olsrLookupTcEntry : IpAddr ver → Option (TcEntry ver)

/-- What a TC message does to the entry of its originator; `missing` is the
entry that `olsr_add_tc_entry` refuses to create without a main address, which
`olsr_input_tc` then dereferences. -/
inductive TcEffect where
  | unchanged
  | stored (originator : IpAddr ver) (entry : TcEntry ver)
  | deleted (originator : IpAddr ver)
  | missing

structure TcOutcome where
  curr : Cursor
  forward : Bool
  effect : TcEffect ver

end

section Input

variable {ver : IpVersion}

def readTcHeader (mem : Memory) : PacketReader (TcHeader ver) := do
  let vtime ← pktGetU8 mem
  let size ← pktGetU16 mem
  let originator ← pktGetIpaddress mem ver
  let ttl ← pktGetU8 mem
  let msgHops ← pktGetU8 mem
  let msgSeq ← pktGetU16 mem
  let ansn ← pktGetU16 mem
  let lowerBorder ← pktGetU8 mem
  let upperBorder ← pktGetU8 mem
  return ⟨vtime, size, originator, ttl, msgHops, msgSeq, ansn, lowerBorder, upperBorder⟩

/-- One advertised edge: the first address read becomes the lower border, the
last one the upper border. -/
def readTcEdge (cfg : TcConfig ver) (mem : Memory) (ansn : Nat)
    (reading : TcReading ver) : TcReading ver :=
  let updated := olsrTcUpdateEdge cfg mem ansn reading.edges reading.curr
  { curr := updated.2
    edges := updated.1.2
    borderIps :=
      match reading.borderIps with
      | none => some (updated.1.1, updated.1.1)
      | some (lower, _) => some (lower, updated.1.1) }

theorem readTcEdge_curr (cfg : TcConfig ver) (mem : Memory) (ansn : Nat) (reading : TcReading ver) :
    (readTcEdge cfg mem ansn reading).curr =
      if readsLqPair cfg reading.edges (pktGetIpaddress mem ver reading.curr).1 then
        ⟨reading.curr.pos + ver.ipsize + 4, max reading.curr.reach
            (reading.curr.pos + ver.ipsize + cfg.lqHandler.readLength)⟩
      else
        reading.curr.read ver.ipsize :=
  olsrTcUpdateEdge_cursor cfg mem ansn reading.edges reading.curr

def readTcEdges (cfg : TcConfig ver) (mem : Memory) (ansn limit : Nat)
    (reading : TcReading ver) : TcReading ver :=
  if reading.curr.pos < limit then
    readTcEdges cfg mem ansn limit (readTcEdge cfg mem ansn reading)
  else
    reading
termination_by limit - reading.curr.pos
decreasing_by
  have positive := ver.ipsize_pos
  rw [readTcEdge_curr]
  split
  · dsimp only
    omega
  · dsimp only [Cursor.read]
    omega

/-- `olsr_input_tc` behind its checks: read the edges, then delete the ones
that the message revokes. -/
def processTcEdges (cfg : TcConfig ver) (mem : Memory) (header : TcHeader ver) (curr : Cursor)
    (edges : List (TcEdge ver)) : TcBody ver :=
  let emptyTc : Bool := header.size ≤ curr.pos
  let reading := readTcEdges cfg mem header.ansn header.size ⟨curr, edges, none⟩
  let borders :=
    if emptyTc ∧ header.lowerBorder = 0xff ∧ header.upperBorder = 0xff then
      some (zeroAddr ver, onesAddr ver)
    else
      reading.borderIps.bind fun ips =>
        olsrCalculateTcBorder header.lowerBorder ips.1 header.upperBorder ips.2
  match borders with
  | none => ⟨reading.curr, reading.edges, false⟩
  | some (lowerBorderIp, upperBorderIp) =>
    ⟨reading.curr, olsrDeleteRevokedTcEdges header.ansn lowerBorderIp upperBorderIp
        false reading.edges,
      emptyTc⟩

def newTcEntry : TcEntry ver := ⟨[], 0, 0, 0, 0, 0, false⟩

/-- `olsr_input_tc` once the header is read. -/
def processTcMessage (node : TcNode ver) (mem : Memory)
    (header : TcHeader ver) (curr : Cursor) : TcOutcome ver :=
  let tc := node.olsrLookupTcEntry header.originator
  match tc.bind fun entry =>
      dropTcMessage entry header.msgSeq header.ansn with
  | some noted => ⟨curr, false, .stored header.originator noted⟩
  | none =>
    if tc = none ∧ node.mainAddr = zeroAddr ver then
      ⟨curr, false, .missing⟩
    else
      let entry := tc.getD newTcEntry
      let body := processTcEdges node.config mem header curr entry.edges
      ⟨body.curr, true,
        if body.emptied then
          .deleted header.originator
        else
          .stored header.originator
            { entry with
              edges := body.edges
              msgHops := header.msgHops
              msgSeq := header.msgSeq
              ansn := header.ansn
              ignored := 0
              errSeqValid := false }⟩

def olsrInputTc (node : TcNode ver) (mem : Memory) : TcOutcome ver :=
  let type := pktGetU8 mem Cursor.start
  if type.1 ≠ lqTcMessage ∧ type.1 ≠ tcMessage then
    ⟨type.2, false, .unchanged⟩
  else if node.senderIsSym = false then
    ⟨type.2, false, .unchanged⟩
  else
    let header := readTcHeader mem type.2
    processTcMessage node mem header.1 header.2

end Input

end QosOlsr
