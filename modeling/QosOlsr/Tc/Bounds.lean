import QosOlsr.Tc.Input

/-!
# How far the TC parser reads

A record of a TC message is an address, and the link quality behind it where
`olsr_tc_update_edge` takes it off the packet: for a known edge when link
quality is in use, and for an edge it adds.  The walk over the records is
described here by the addresses known so far.
-/

namespace QosOlsr

open Library List

section Records

variable {ver : IpVersion}

/-- The record of `addr` counts as one with link quality. -/
def recordHasLq (cfg : TcConfig ver) (known : List (IpAddr ver)) (addr : IpAddr ver) : Bool :=
  if addr ∈ known then 0 < cfg.lqLevel else cfg.olsrValidateAddress addr

def recordAddr (mem : Memory) (position : Nat) : IpAddr ver :=
  ⟨readBytes mem position ver.ipsize, readBytes_length mem position ver.ipsize⟩

/-- Every record from `position` on is read inside the message. -/
def TcRecordsFit (cfg : TcConfig ver) (mem : Memory) (limit : Nat)
    (known : List (IpAddr ver)) (position : Nat) : Prop :=
  if position < limit then
    if recordHasLq cfg known (recordAddr mem position) then
      position + ver.ipsize + cfg.lqHandler.readLength ≤ limit ∧
        TcRecordsFit cfg mem limit (recordAddr mem position :: known) (position + ver.ipsize + 4)
    else
      position + ver.ipsize ≤ limit ∧ TcRecordsFit cfg mem limit known (position + ver.ipsize)
  else
    True
termination_by limit - position
decreasing_by
  all_goals
    have positive := ver.ipsize_pos
    omega

variable {edges : List (TcEdge ver)}

theorem isSome_olsrLookupTcEdge_iff {addr : IpAddr ver} :
    (olsrLookupTcEdge edges addr).isSome ↔ addr ∈ edges.map TcEdge.destAddr := by
  rw [olsrLookupTcEdge, find?_isSome, mem_map]
  simp only [decide_eq_true_eq]

theorem map_destAddr_updateTcEdge (addr : IpAddr ver) {write : TcEdge ver → TcEdge ver}
    (keeps : ∀ edge, (write edge).destAddr = edge.destAddr) (edges : List (TcEdge ver)) :
    (updateTcEdge addr write edges).map TcEdge.destAddr = edges.map TcEdge.destAddr := by
  rw [updateTcEdge, map_map]
  apply map_congr_left
  intro edge member
  simp only [Function.comp_apply]
  split
  · exact keeps edge
  · rfl

theorem mem_insertTcEdge_iff {edge other : TcEdge ver} :
    other ∈ insertTcEdge edge edges ↔ other = edge ∨ other ∈ edges := by
  induction edges with
  | nil => simp [insertTcEdge]
  | cons first rest ih =>
    rw [insertTcEdge]
    split
    · rw [mem_cons]
    · rw [mem_cons, ih, mem_cons]
      tauto

variable (cfg : TcConfig ver)

theorem readsLqPair_eq_recordHasLq {known : List (IpAddr ver)}
    (sameAddrs : ∀ addr, addr ∈ known ↔ addr ∈ edges.map TcEdge.destAddr) (addr : IpAddr ver) :
    readsLqPair cfg edges addr = recordHasLq cfg known addr := by
  unfold readsLqPair recordHasLq
  simp only [isSome_olsrLookupTcEdge_iff, sameAddrs]

theorem mem_storeTcEdge_iff
    (mem : Memory) (ansn : Nat) (edges : List (TcEdge ver)) (neighbor addr : IpAddr ver)
    (curr : Cursor) : addr ∈ (storeTcEdge cfg mem ansn edges neighbor curr).1.map TcEdge.destAddr ↔
      addr ∈ edges.map TcEdge.destAddr ∨
      (addr = neighbor ∧ readsLqPair cfg edges neighbor = true) := by
  unfold storeTcEdge readsLqPair
  cases found : olsrLookupTcEdge edges neighbor with
  | none =>
    cases valid : cfg.olsrValidateAddress neighbor with
    | false =>
      rw [if_neg Bool.false_ne_true]
      exact (or_iff_left (by simp)).symm
    | true =>
      rw [if_pos rfl]
      change addr ∈ (insertTcEdge ⟨neighbor, ansn, _⟩ edges).map TcEdge.destAddr ↔ _
      simp only [mem_map, mem_insertTcEdge_iff]
      constructor
      · rintro ⟨edge, rfl | old, rfl⟩
        · exact Or.inr ⟨rfl, by simp⟩
        · exact Or.inl ⟨edge, old, rfl⟩
      · rintro (⟨edge, old, rfl⟩ | ⟨rfl, -⟩)
        · exact ⟨edge, Or.inr old, rfl⟩
        · exact ⟨_, Or.inl rfl, rfl⟩
  | some edge =>
    have listed : neighbor ∈ edges.map TcEdge.destAddr := by
      rw [← isSome_olsrLookupTcEdge_iff, found]
      rfl
    have nothingNew : addr ∈ edges.map TcEdge.destAddr ↔ addr ∈ edges.map TcEdge.destAddr ∨
            (addr = neighbor ∧
              (if (some edge).isSome = true then
                  decide (0 < cfg.lqLevel)
                else
                  cfg.olsrValidateAddress neighbor) = true) := by
      constructor
      · exact Or.inl
      · rintro (old | ⟨rfl, -⟩)
        · exact old
        · exact listed
    rw [← nothingNew]
    dsimp only
    split
    · change addr ∈ (updateTcEdge neighbor _ edges).map TcEdge.destAddr ↔ _
      rw [map_destAddr_updateTcEdge]
      exact fun _ => rfl
    · change addr ∈ (updateTcEdge neighbor _ edges).map TcEdge.destAddr ↔ _
      rw [map_destAddr_updateTcEdge]
      exact fun _ => rfl

theorem readTcEdges_le_reach (mem : Memory) (ansn limit : Nat) (reading : TcReading ver) :
    reading.curr.reach ≤ (readTcEdges cfg mem ansn limit reading).curr.reach := by
  fun_induction readTcEdges cfg mem ansn limit reading with
  | case1 reading inside ih =>
    refine le_trans ?_ ih
    rw [readTcEdge_curr]
    split
    · exact le_max_left _ _
    · exact le_max_left _ _
  | case2 reading outside => exact le_rfl

/-- The walk over the edges stays inside the message exactly when its records
do. -/
theorem readTcEdges_reach_le_iff
    (mem : Memory) (ansn limit : Nat) (reading : TcReading ver) (known : List (IpAddr ver))
    (sameAddrs : ∀ addr, addr ∈ known ↔ addr ∈ reading.edges.map TcEdge.destAddr)
    (before : reading.curr.reach ≤ limit) : (readTcEdges cfg mem ansn limit reading).curr.reach ≤
      limit ↔ TcRecordsFit cfg mem limit known reading.curr.pos := by
  fun_induction readTcEdges cfg mem ansn limit reading generalizing known with
  | case1 reading inside ih =>
    have lqEqual := readsLqPair_eq_recordHasLq cfg sameAddrs (recordAddr mem reading.curr.pos)
    have moved := readTcEdge_curr cfg mem ansn reading
    change _ = if readsLqPair cfg reading.edges
      (recordAddr mem reading.curr.pos) = true then _ else _ at moved
    have stored (addr : IpAddr ver) :
        addr ∈ (readTcEdge cfg mem ansn reading).edges.map TcEdge.destAddr ↔ addr ∈ known ∨
            (addr = recordAddr mem reading.curr.pos ∧
              recordHasLq cfg known (recordAddr mem reading.curr.pos) = true) := by
      rw [sameAddrs, ← lqEqual]
      exact mem_storeTcEdge_iff cfg mem ansn reading.edges _ addr _
    -- Either the record fits and the rest decides, or the reads have
    -- already left the message.
    have continued {extent position : Nat} {nowKnown : List (IpAddr ver)}
        (left : (readTcEdge cfg mem ansn reading).curr = ⟨position, max reading.curr.reach extent⟩)
        (nowSame : ∀ addr, addr ∈ nowKnown ↔
            addr ∈ (readTcEdge cfg mem ansn reading).edges.map TcEdge.destAddr) :
        (readTcEdges cfg mem ansn limit
            (readTcEdge cfg mem ansn reading)).curr.reach ≤ limit ↔
          extent ≤ limit ∧ TcRecordsFit cfg mem limit nowKnown position := by
      by_cases fits : extent ≤ limit
      · rw [ih nowKnown nowSame (by rw [left]; exact max_le before fits), left]
        exact (and_iff_right fits).symm
      · refine iff_of_false (fun within => fits ?_) (fun both => fits both.1)
        have short := (readTcEdges_le_reach cfg mem ansn limit _).trans within
        rw [left] at short
        exact (le_max_right _ _).trans short
    rw [lqEqual] at moved
    rw [TcRecordsFit, if_pos inside]
    split
    next carries =>
      rw [if_pos carries] at moved
      refine continued moved fun addr => ?_
      rw [stored, mem_cons, carries]
      tauto
    next bare =>
      rw [if_neg bare] at moved
      refine continued moved fun addr => ?_
      rw [stored]
      tauto
  | case2 reading outside =>
    rw [TcRecordsFit, if_neg outside]
    exact iff_of_true before trivial

end Records

section Message

variable {ver : IpVersion} (node : TcNode ver) (mem : Memory)

def IsTc : Prop := mem 0 = lqTcMessage ∨ mem 0 = tcMessage

instance : Decidable (IsTc mem) := instDecidableOr

def tcHeader : TcHeader ver := (readTcHeader mem (Cursor.start.read 1)).1

/-- The message passes the sequence number windows, and its originator has an
entry or can get one. -/
def AcceptsTc : Prop := (node.olsrLookupTcEntry (tcHeader mem).originator).bind
      (fun entry =>
        dropTcMessage entry (tcHeader mem : TcHeader ver).msgSeq
          (tcHeader mem : TcHeader ver).ansn) = none ∧
    ¬ (node.olsrLookupTcEntry (tcHeader mem).originator = none ∧ node.mainAddr = zeroAddr ver)

def knownAddrs : List (IpAddr ver) :=
  ((node.olsrLookupTcEntry (tcHeader mem).originator).getD newTcEntry).edges.map TcEdge.destAddr

/-- The message has room for its fixed part and, if it is processed, for its
records. -/
def TcFits : Prop := node.senderIsSym = true → 12 + ver.ipsize ≤ readU16 mem 2 ∧
      (AcceptsTc node mem → TcRecordsFit node.config mem (readU16 mem 2)
          (knownAddrs node mem) (12 + ver.ipsize))

private theorem readTcHeader_cursor :
    (readTcHeader mem (Cursor.start.read 1) : TcHeader ver × Cursor).2 =
      ⟨12 + ver.ipsize, 12 + ver.ipsize⟩ := by
  cases ver <;> rfl

theorem processTcMessage_curr (curr : Cursor) :
    (AcceptsTc node mem → (processTcMessage node mem (tcHeader mem) curr).curr =
        (readTcEdges node.config mem (tcHeader mem : TcHeader ver).ansn
          (tcHeader mem : TcHeader ver).size
          ⟨curr,
            ((node.olsrLookupTcEntry (tcHeader mem).originator).getD
              newTcEntry).edges, none⟩).curr) ∧
    (¬ AcceptsTc node mem → (processTcMessage node mem (tcHeader mem) curr).curr = curr) := by
  unfold AcceptsTc processTcMessage
  dsimp only
  split
  next noted dropped =>
    refine ⟨fun accepted => ?_, fun _ => rfl⟩
    rw [dropped] at accepted
    cases accepted.1
  next passed =>
    split
    next absent => exact ⟨fun accepted => absurd absent accepted.2, fun _ => rfl⟩
    next present =>
      refine ⟨fun _ => ?_, fun refused => absurd ⟨passed, present⟩ refused⟩
      unfold processTcEdges
      dsimp only
      split <;> rfl

variable {node mem}

theorem olsrInputTc_of_isTc (isTc : IsTc mem) : olsrInputTc node mem =
      if node.senderIsSym = false then
        ⟨⟨1, 1⟩, false, .unchanged⟩
      else
        processTcMessage node mem (tcHeader mem) ⟨12 + ver.ipsize, 12 + ver.ipsize⟩ := by
  have known : ¬ (mem 0 ≠ lqTcMessage ∧ mem 0 ≠ tcMessage) := by
    rintro ⟨notLq, notTc⟩
    exact isTc.elim notLq notTc
  rw [← readTcHeader_cursor mem]
  exact if_neg known

theorem olsrInputTc_of_not_isTc (otherType : ¬ IsTc mem) :
    olsrInputTc node mem = ⟨⟨1, 1⟩, false, .unchanged⟩ :=
  if_pos (not_or.mp otherType)

theorem olsrInputTc_reach_le_iff (isTc : IsTc mem) (minimum : 8 + ver.ipsize ≤ readU16 mem 2) :
    (olsrInputTc node mem).curr.reach ≤ readU16 mem 2 ↔ TcFits node mem := by
  rw [olsrInputTc_of_isTc isTc, TcFits]
  cases symmetric : node.senderIsSym with
  | false =>
    rw [if_pos rfl]
    refine iff_of_true ?_ (fun no => by cases no)
    dsimp only
    omega
  | true =>
    rw [if_neg (by simp), forall_prop_of_true rfl]
    obtain ⟨accepting, refusing⟩ :=
      processTcMessage_curr node mem ⟨12 + ver.ipsize, 12 + ver.ipsize⟩
    by_cases accepted : AcceptsTc node mem
    · rw [accepting accepted]
      by_cases room : 12 + ver.ipsize ≤ readU16 mem 2
      · have records := readTcEdges_reach_le_iff node.config mem
            (tcHeader mem : TcHeader ver).ansn
            (readU16 mem 2)
            ⟨⟨12 + ver.ipsize, 12 + ver.ipsize⟩,
              ((node.olsrLookupTcEntry (tcHeader mem).originator).getD newTcEntry).edges, none⟩
            (knownAddrs node mem) (fun _ => Iff.rfl) room
        exact records.trans ⟨fun fit => ⟨room, fun _ => fit⟩, fun fits => fits.2 accepted⟩
      · refine iff_of_false (fun within => room ?_) (fun fits => room fits.1)
        exact (readTcEdges_le_reach ..).trans within
    · rw [refusing accepted]
      exact ⟨fun room => ⟨room, fun accepts => absurd accepts accepted⟩, fun fits => fits.1⟩

end Message

end QosOlsr
