import QosOlsr.Tc.Bounds

/-!
# Whether the records of a TC message stay aligned

A record of an LQ_TC message is an address and four bytes of link quality.
`olsr_tc_update_edge` leaves the link quality to its callees, which it does not
call for every address.  From there on every call starts inside a record.
-/

namespace QosOlsr

open Library List

variable {ver : IpVersion}

def recordStart (ver : IpVersion) (body index : Nat) : Nat := body + index * (ver.ipsize + 4)

def advertisedAddr (mem : Memory) (body index : Nat) : IpAddr ver :=
  recordAddr mem (recordStart ver body index)

def advertisedLq (ver : IpVersion) (handler : LqHandler) (mem : Memory) (body index : Nat) :
    List UInt8 :=
  (deserializeLqPair mem handler ⟨recordStart ver body index + ver.ipsize, 0⟩).1

section Records

variable (cfg : TcConfig ver) (mem : Memory) (ansn : Nat)
  (edges : List (TcEdge ver)) (curr : Cursor)

/-- What the first `calls` calls of `olsr_tc_update_edge` leave. -/
def readingAfter (calls : Nat) : TcReading ver :=
  (readTcEdge cfg mem ansn)^[calls] ⟨curr, edges, none⟩

/-- Each of the first `count` calls consumes exactly one record, reads its
address and leaves an edge with its link quality. -/
structure RecordsAligned (count : Nat) : Prop where
  position : ∀ calls ≤ count, (readingAfter cfg mem ansn edges curr calls).curr.pos =
        recordStart ver curr.pos calls
  address : ∀ index < count, ∃ lower,
        (readingAfter cfg mem ansn edges curr (index + 1)).borderIps =
          some (lower, advertisedAddr mem curr.pos index)
  quality : ∀ index < count,
        (olsrLookupTcEdge (readingAfter cfg mem ansn edges curr (index + 1)).edges
            (advertisedAddr mem curr.pos index)).map TcEdge.linkquality =
          some (advertisedLq ver cfg.lqHandler mem curr.pos index)
  calls : readTcEdges cfg mem ansn (recordStart ver curr.pos count)
        ⟨curr, edges, none⟩ =
      readingAfter cfg mem ansn edges curr count

/-- The addresses with an edge before the record `index` is read, when every
record in front of it was stored. -/
def knownBefore (index : Nat) : List (IpAddr ver) := edges.map TcEdge.destAddr ++
    (List.range index).map (advertisedAddr mem curr.pos)

/-- No new address is denied, and link quality is in use if there is an address
of a known edge or one that the message repeats. -/
def RecordsAccepted (count : Nat) : Prop := ∀ index < count,
    recordHasLq cfg (knownBefore mem edges curr index) (advertisedAddr mem curr.pos index) = true

end Records

section Aligned

variable {cfg : TcConfig ver} {mem : Memory} {ansn : Nat}
  {edges : List (TcEdge ver)} {curr : Cursor}

theorem readingAfter_succ (calls : Nat) : readingAfter cfg mem ansn edges curr (calls + 1) =
      readTcEdge cfg mem ansn (readingAfter cfg mem ansn edges curr calls) :=
  Function.iterate_succ_apply' _ _ _

theorem recordStart_succ (body index : Nat) :
    recordStart ver body (index + 1) = recordStart ver body index + ver.ipsize + 4 := by
  unfold recordStart
  rw [Nat.succ_mul]
  omega

/-- A call moves by a whole record exactly when it reads the link quality. -/
theorem readTcEdge_pos_iff (reading : TcReading ver) :
    (readTcEdge cfg mem ansn reading).curr.pos = reading.curr.pos + ver.ipsize + 4 ↔
      readsLqPair cfg reading.edges (recordAddr mem reading.curr.pos) = true := by
  have cursor := readTcEdge_curr cfg mem ansn reading
  have addrEq : (pktGetIpaddress mem ver reading.curr).1 = recordAddr mem reading.curr.pos := rfl
  rw [cursor, addrEq]
  cases readsLqPair cfg reading.edges (recordAddr mem reading.curr.pos) with
  | false => simp [Cursor.read]
  | true => simp

def KnowsRecords (cfg : TcConfig ver) (mem : Memory) (ansn : Nat)
    (edges : List (TcEdge ver)) (curr : Cursor) (calls : Nat) : Prop :=
  (readingAfter cfg mem ansn edges curr calls).curr.pos =
      recordStart ver curr.pos calls ∧
    ∀ addr, addr ∈ knownBefore mem edges curr calls ↔
        addr ∈ (readingAfter cfg mem ansn edges curr calls).edges.map TcEdge.destAddr

variable {calls : Nat}

theorem KnowsRecords.readsLqPair_eq (knows : KnowsRecords cfg mem ansn edges curr calls) :
    readsLqPair cfg (readingAfter cfg mem ansn edges curr calls).edges
        (recordAddr mem (readingAfter cfg mem ansn edges curr calls).curr.pos) =
      recordHasLq cfg (knownBefore mem edges curr calls) (advertisedAddr mem curr.pos calls) := by
  rw [readsLqPair_eq_recordHasLq cfg knows.2, knows.1]
  rfl

theorem KnowsRecords.succ (knows : KnowsRecords cfg mem ansn edges curr calls)
    (accepted : recordHasLq cfg (knownBefore mem edges curr calls)
        (advertisedAddr mem curr.pos calls) = true) :
    KnowsRecords cfg mem ansn edges curr (calls + 1) := by
  have readsLq := knows.readsLqPair_eq.trans accepted
  constructor
  · rw [readingAfter_succ, (readTcEdge_pos_iff _).mpr readsLq, knows.1, recordStart_succ]
  · intro addr
    rw [readingAfter_succ]
    have stored := mem_storeTcEdge_iff cfg mem ansn
        (readingAfter cfg mem ansn edges curr calls).edges
        (recordAddr mem (readingAfter cfg mem ansn edges curr calls).curr.pos) addr
        ((readingAfter cfg mem ansn edges curr calls).curr.read ver.ipsize)
    refine Iff.trans ?_ stored.symm
    rw [readsLq, ← knows.2 addr, knows.1]
    simp only [knownBefore, range_succ, map_append, map_cons,
      map_nil, ← append_assoc, mem_append, mem_singleton, and_true]
    rfl

variable {count : Nat}

theorem KnowsRecords.of_accepted (accepted : RecordsAccepted cfg mem edges curr count) :
    ∀ calls ≤ count, KnowsRecords cfg mem ansn edges curr calls := by
  intro calls
  induction calls with
  | zero =>
    intro _
    constructor
    · simp [readingAfter, recordStart]
    · simp [readingAfter, knownBefore]
  | succ calls ih =>
    intro inside
    exact (ih (by omega)).succ (accepted calls inside)

/-- Calls that move by whole records have read every link quality. -/
theorem RecordsAccepted.of_positions (positions : ∀ calls ≤ count,
        (readingAfter cfg mem ansn edges curr calls).curr.pos = recordStart ver curr.pos calls) :
    RecordsAccepted cfg mem edges curr count := by
  induction count with
  | zero =>
    intro index no
    exact absurd no (Nat.not_lt_zero index)
  | succ count ih =>
    have earlier : RecordsAccepted cfg mem edges curr count :=
      ih fun calls inside => positions calls (by omega)
    have knows : KnowsRecords cfg mem ansn edges curr count :=
      KnowsRecords.of_accepted earlier count le_rfl
    intro index inside
    rcases Nat.lt_succ_iff_lt_or_eq.mp inside with before | rfl
    · exact earlier index before
    · have readsEq := knows.readsLqPair_eq
      rw [← readsEq, ← readTcEdge_pos_iff, ← readingAfter_succ,
        positions _ le_rfl, knows.1, recordStart_succ]

private theorem readTcEdges_eq_readingAfter (positions : ∀ calls ≤ count,
        (readingAfter cfg mem ansn edges curr calls).curr.pos = recordStart ver curr.pos calls) :
    readTcEdges cfg mem ansn (recordStart ver curr.pos count) ⟨curr, edges, none⟩ =
      readingAfter cfg mem ansn edges curr count := by
  have rest : ∀ left ≤ count, readTcEdges cfg mem ansn (recordStart ver curr.pos count)
            (readingAfter cfg mem ansn edges curr (count - left)) =
          readingAfter cfg mem ansn edges curr count := by
    intro left
    induction left with
    | zero =>
      intro _
      rw [readTcEdges, Nat.sub_zero, positions count le_rfl, if_neg (Nat.lt_irrefl _)]
    | succ left ihLeft =>
      intro inside
      have inBody : recordStart ver curr.pos (count - (left + 1)) <
            recordStart ver curr.pos count := by
        unfold recordStart
        have fewer : count - (left + 1) < count := by omega
        have := Nat.mul_lt_mul_of_pos_right fewer (show 0 < ver.ipsize + 4 by omega)
        omega
      have next : count - (left + 1) + 1 = count - left := by omega
      rw [readTcEdges, positions _ (by omega), if_pos inBody, ← readingAfter_succ, next]
      exact ihLeft (by omega)
  have all := rest count le_rfl
  rw [Nat.sub_self] at all
  exact all

private theorem readingAfter_borderIps
    (position : (readingAfter cfg mem ansn edges curr calls).curr.pos =
        recordStart ver curr.pos calls) :
    ∃ lower, (readingAfter cfg mem ansn edges curr (calls + 1)).borderIps =
        some (lower, advertisedAddr mem curr.pos calls) := by
  have addrEq :
      (pktGetIpaddress mem ver (readingAfter cfg mem ansn edges curr calls).curr).1 =
        advertisedAddr mem curr.pos calls := by
    unfold advertisedAddr
    rw [← position]
    rfl
  rw [readingAfter_succ]
  unfold readTcEdge
  rw [olsrTcUpdateEdge_eq]
  simp only [addrEq]
  split
  · exact ⟨_, rfl⟩
  · exact ⟨_, rfl⟩

private theorem deserializeLqPair_eq_of_pos {handler : LqHandler} {other : Cursor}
    (same : curr.pos = other.pos) :
    (deserializeLqPair mem handler curr).1 = (deserializeLqPair mem handler other).1 := by
  obtain ⟨pos, reach⟩ := curr
  subst same
  cases handler <;> rfl

/-- Where a call reads a link quality, every edge to the address has it. -/
theorem linkquality_of_storeTcEdge {neighbor : IpAddr ver} {edge : TcEdge ver}
    (readsLq : readsLqPair cfg edges neighbor = true)
    (stored : edge ∈ (storeTcEdge cfg mem ansn edges neighbor curr).1)
    (toNbr : edge.destAddr = neighbor) :
    edge.linkquality = (deserializeLqPair mem cfg.lqHandler curr).1 := by
  unfold storeTcEdge at stored
  unfold readsLqPair at readsLq
  cases found : olsrLookupTcEdge edges neighbor with
  | none =>
    simp only [found, Option.isSome_none, Bool.false_eq_true, if_false] at stored readsLq
    rw [if_pos readsLq] at stored
    rcases mem_insertTcEdge_iff.mp stored with rfl | old
    · rfl
    · have unknown := find?_eq_none.mp found edge old
      simp [toNbr] at unknown
  | some known =>
    simp only [found, Option.isSome_some, if_true, decide_eq_true_eq] at stored readsLq
    rw [if_pos readsLq] at stored
    obtain ⟨before, -, rfl⟩ := mem_map.mp stored
    split at toNbr
    next same =>
      rw [if_pos same]
      rfl
    next ne => exact absurd toNbr ne

private theorem readingAfter_linkquality
    (position : (readingAfter cfg mem ansn edges curr calls).curr.pos =
        recordStart ver curr.pos calls)
    (readsLq : readsLqPair cfg (readingAfter cfg mem ansn edges curr calls).edges
        (advertisedAddr mem curr.pos calls) = true) :
    (olsrLookupTcEdge (readingAfter cfg mem ansn edges curr (calls + 1)).edges
        (advertisedAddr mem curr.pos calls)).map TcEdge.linkquality =
      some (advertisedLq ver cfg.lqHandler mem curr.pos calls) := by
  rw [readingAfter_succ]
  generalize readingAfter cfg mem ansn edges curr calls = reading at position readsLq ⊢
  have read : (readTcEdge cfg mem ansn reading).edges = (storeTcEdge cfg mem ansn reading.edges
      (advertisedAddr mem curr.pos calls) (reading.curr.read ver.ipsize)).1 := by
    rw [advertisedAddr, ← position]
    rfl
  have listed := (mem_storeTcEdge_iff cfg mem ansn reading.edges _ _
    (reading.curr.read ver.ipsize)).mpr (Or.inr ⟨rfl, readsLq⟩)
  rw [← read, ← isSome_olsrLookupTcEdge_iff] at listed
  obtain ⟨edge, found⟩ := Option.isSome_iff_exists.mp listed
  have isStored := mem_of_find?_eq_some found
  rw [read] at isStored
  have quality := linkquality_of_storeTcEdge readsLq isStored (by simpa using find?_some found)
  rw [found, Option.map_some, quality, advertisedLq]
  congr 1
  apply deserializeLqPair_eq_of_pos
  exact congrArg (· + ver.ipsize) position

end Aligned

/-- The calls stay aligned with the records exactly when each of them reads
the link quality of its record. -/
theorem recordsAligned_iff (cfg : TcConfig ver) (mem : Memory) (ansn : Nat)
    (edges : List (TcEdge ver)) (curr : Cursor) (count : Nat) :
    RecordsAligned cfg mem ansn edges curr count ↔ RecordsAccepted cfg mem edges curr count := by
  constructor
  · intro aligned
    exact RecordsAccepted.of_positions aligned.position
  · intro accepted
    have knows : ∀ calls ≤ count, KnowsRecords cfg mem ansn edges curr calls :=
      KnowsRecords.of_accepted accepted
    have positions : ∀ calls ≤ count, (readingAfter cfg mem ansn edges curr calls).curr.pos =
            recordStart ver curr.pos calls :=
      fun calls inside => (knows calls inside).1
    refine ⟨positions, fun index inside => readingAfter_borderIps (positions index inside.le),
      fun index inside => ?_, readTcEdges_eq_readingAfter positions⟩
    have readsLq := (knows index inside.le).readsLqPair_eq
    rw [accepted index inside, positions index inside.le] at readsLq
    exact readingAfter_linkquality (positions index inside.le) readsLq

/-- An LQ_TC message with the records of `127.0.0.1` and `10.0.0.5`. -/
def loopbackMessage : Memory := ofBytes
    [202, 134, 0, 32, 10, 0, 0, 9, 255, 0, 0, 1, 0, 7, 255, 255, 127, 0, 0, 1, 255, 255, 0, 0,
      10, 0, 0, 5, 200, 200, 0, 0]

def denyLoopback : TcConfig .inet where
  lqLevel := 2
  lqHandler := .etxFf
  olsrValidateAddress := fun addr => addr.bytes ≠ [127, 0, 0, 1]

/-- Behind the denied address the link quality is read as an address. -/
theorem loopbackMessage_misread : readU16 loopbackMessage 2 = recordStart .inet 16 2 ∧
      ¬RecordsAligned denyLoopback loopbackMessage 7 [] ⟨16, 16⟩ 2 ∧
      (readingAfter denyLoopback loopbackMessage 7 [] ⟨16, 16⟩ 2).borderIps =
        some (⟨[127, 0, 0, 1], rfl⟩, ⟨[255, 255, 0, 0], rfl⟩) := by
  refine ⟨by decide, ?_, by decide⟩
  intro aligned
  have second := aligned.position 1 (by decide)
  exact absurd second (by decide)

end QosOlsr
