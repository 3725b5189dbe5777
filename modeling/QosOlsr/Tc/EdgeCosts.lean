import QosOlsr.Library.Rounding
import QosOlsr.Library.Runs
import QosOlsr.Tc.Bounds

/-!
# The costs of advertised edges

`olsr_calc_tc_edge_entry_etx` derives the cost of an edge from its link quality
and from the cost before.  A known edge takes over the quality of a record
before its cost is computed, a new one after.
-/

namespace QosOlsr

open Library Function List Option

variable {ver : IpVersion} (plugin : LqPlugin) {lqLevel : Nat} {mem : Memory}

/-- The active handler, as far as `olsr_calc_tc_edge_entry_etx` calls it or
looks into its data: `valueBandwidth` is the third byte of the link quality in
memory, whatever the handler keeps there. -/
structure LqPlugin where
  calcTcCost : List UInt8 → UInt32
  valueBandwidth : List UInt8 → UInt8

/-- `(0.99*cost) + (0.01*sampledLC)` in double precision, cut to an integer.
The two literals are the nearest doubles, in units of `2 ^ -53` and
`2 ^ -59`. -/
def weightedCost (cost sampledLc : UInt32) : UInt32 :=
  let keptPart := roundDigits 53 (8917127262193582 * cost.toNat)
  let newPart := roundDigits 53 (5764607523034235 * sampledLc.toNat)
  UInt32.ofNat (roundDigits 53 (2 ^ 6 * keptPart + newPart) / 2 ^ 59)

/-- `olsr_calc_tc_edge_entry_etx`: the cost it leaves to an edge with this
cost and link quality. -/
def olsrCalcTcEdgeEntryEtx (plugin : LqPlugin) (lqLevel : Nat) (cost : UInt32)
    (linkquality : List UInt8) : UInt32 :=
  if lqLevel < 1 then
    cost
  else
    let sampledLc := plugin.calcTcCost linkquality
    let cost := if cost = 0 then sampledLc else cost
    if plugin.valueBandwidth linkquality ≠ 0 then
      sampledLc
    else
      let cost := if 41000 < sampledLc then sampledLc else cost
      let cost := if 41000 < cost then sampledLc else cost
      weightedCost cost sampledLc

/-- The link quality of an edge fresh from `olsr_cookie_malloc`. -/
def LqHandler.cleared : LqHandler → List UInt8
  | .etxFfethNl80211 => [0, 0, 0, 0]
  | .etxFpm | .etxFloat | .etxFf | .etxFfeth => [0, 0]

/-- A record that `olsr_tc_update_edge` stored: the quality it carried, whether
the edge was known, and the cost that the edge had. -/
structure TcRecord (ver : IpVersion) where
  neighbor : IpAddr ver
  linkquality : List UInt8
  known : Bool
  cost : UInt32

/-- The costs of the edges of one originator by destination.  The records, the
last one first, are no data of the program: they say what the costs are made
from. -/
structure TcCosts (ver : IpVersion) where
  cost : IpAddr ver → UInt32
  records : List (TcRecord ver)

section Costs

section

variable (costs : TcCosts ver)

def TcCosts.note (record : TcRecord ver) (cost : UInt32) : TcCosts ver :=
  ⟨update costs.cost record.neighbor cost, record :: costs.records⟩

def TcCosts.lastRecord (neighbor : IpAddr ver) : Option (TcRecord ver) :=
  costs.records.find? fun record => record.neighbor = neighbor

@[simp]
theorem TcCosts.note_cost (record : TcRecord ver) (cost : UInt32) :
    (costs.note record cost).cost = update costs.cost record.neighbor cost :=
  rfl

theorem TcCosts.lastRecord_note_self (record : TcRecord ver) (cost : UInt32) :
    (costs.note record cost).lastRecord record.neighbor = some record := by
  simp [lastRecord, note]

theorem TcCosts.lastRecord_note_of_ne {record : TcRecord ver} (cost : UInt32)
    {neighbor : IpAddr ver} (other : record.neighbor ≠ neighbor) :
    (costs.note record cost).lastRecord neighbor = costs.lastRecord neighbor := by
  simp [lastRecord, note, other]

end

variable (cfg : TcConfig ver) (mem : Memory)

/-- What `olsr_tc_update_edge` does to the cost of its edge.
`olsr_add_tc_edge_entry` computes the cost of a new edge, whose quality is
deserialised afterwards; the quality of a known edge is deserialised first. -/
def costTcEdge (reading : TcReading ver) (costs : TcCosts ver) : TcCosts ver :=
  let neighbor := (pktGetIpaddress mem ver reading.curr).1
  let linkquality := (deserializeLqPair mem cfg.lqHandler (reading.curr.read ver.ipsize)).1
  match olsrLookupTcEdge reading.edges neighbor with
  | none =>
    if cfg.olsrValidateAddress neighbor then
      costs.note ⟨neighbor, linkquality, false, 0⟩
        (olsrCalcTcEdgeEntryEtx plugin cfg.lqLevel 0 cfg.lqHandler.cleared)
    else
      costs
  | some edge =>
    let linkquality :=
      if 0 < cfg.lqLevel then linkquality else edge.linkquality
    costs.note ⟨neighbor, linkquality, true, costs.cost neighbor⟩
      (olsrCalcTcEdgeEntryEtx plugin cfg.lqLevel (costs.cost neighbor) linkquality)

def costTcEdges (ansn limit : Nat) (reading : TcReading ver) (costs : TcCosts ver) : TcCosts ver :=
  if reading.curr.pos < limit then
    costTcEdges ansn limit (readTcEdge cfg mem ansn reading)
      (costTcEdge plugin cfg mem reading costs)
  else
    costs
termination_by limit - reading.curr.pos
decreasing_by
  have positive := ver.ipsize_pos
  rw [readTcEdge_curr]
  split
  · dsimp only
    omega
  · dsimp only [Cursor.read]
    omega

end Costs

structure TcTables (ver : IpVersion) where
  olsrLookupTcEntry : IpAddr ver → Option (TcEntry ver)
  costs : IpAddr ver → TcCosts ver

structure TcArrival (ver : IpVersion) where
  olsrValidateAddress : IpAddr ver → Bool
  mainAddr : IpAddr ver
  senderIsSym : Bool
  memory : Memory

inductive TcEvent (ver : IpVersion) where
  | inputTc (arrival : TcArrival ver)
  | expireTcEntry (originator : IpAddr ver)
  | expireTcEdgeGc (originator : IpAddr ver)

section Steps

instance (node : TcNode ver) (mem : Memory) : Decidable (AcceptsTc node mem) := instDecidableAnd

variable (lqLevel : Nat) (lqHandler : LqHandler)

def TcArrival.node (arrival : TcArrival ver) (tables : TcTables ver) : TcNode ver :=
  ⟨⟨lqLevel, lqHandler, arrival.olsrValidateAddress⟩, arrival.mainAddr,
    arrival.senderIsSym, tables.olsrLookupTcEntry⟩

/-- What a TC message does to the costs of its originator's edges. -/
def inputTcCosts (node : TcNode ver) (mem : Memory) (costs : IpAddr ver → TcCosts ver) :
    IpAddr ver → TcCosts ver :=
  if IsTc mem ∧ node.senderIsSym ∧ AcceptsTc node mem then
    let header : TcHeader ver := tcHeader mem
    let edges := ((node.olsrLookupTcEntry header.originator).getD newTcEntry).edges
    update costs header.originator
      (costTcEdges plugin node.config mem header.ansn header.size
        ⟨⟨12 + ver.ipsize, 12 + ver.ipsize⟩, edges, none⟩
        (costs header.originator))
  else
    costs

def deleteOutdatedTcEdges (entry : TcEntry ver) : TcEntry ver :=
  { entry with
    edges := entry.edges.filter fun edge =>
        ¬ seqnoGreaterThan entry.ansn edge.ansn }

def tcStep (tables : TcTables ver) : TcEvent ver → Option (TcTables ver)
  | .inputTc arrival =>
    let node := arrival.node lqLevel lqHandler tables
    let costs := inputTcCosts plugin node arrival.memory tables.costs
    match (olsrInputTc node arrival.memory).effect with
    | .unchanged => some tables
    | .stored originator entry =>
      some ⟨update tables.olsrLookupTcEntry originator (some entry), costs⟩
    | .deleted originator => some ⟨update tables.olsrLookupTcEntry originator none, costs⟩
    | .missing => none
  | .expireTcEntry originator =>
    some
      { tables with
        olsrLookupTcEntry := update tables.olsrLookupTcEntry originator none }
  | .expireTcEdgeGc originator =>
    some
      { tables with
        olsrLookupTcEntry := update tables.olsrLookupTcEntry originator
            ((tables.olsrLookupTcEntry originator).map deleteOutdatedTcEdges) }

def TcTables.init : TcTables ver := ⟨fun _ => none, fun _ => ⟨fun _ => 0, []⟩⟩

end Steps

def CostsMatch {ver : IpVersion} (plugin : LqPlugin) (tables : TcTables ver) : Prop :=
  ∀ originator entry, tables.olsrLookupTcEntry originator = some entry → ∀ edge ∈ entry.edges,
      (tables.costs originator).cost edge.destAddr = plugin.calcTcCost edge.linkquality

/-- `cost` is the cost `sampledLc` of a quality with a trend.  Without one it
is the average, to the 99 parts of which `previous` counts unless it is absent
or one of the two is out of range. -/
def FollowsSample (trend : UInt8) (previous sampledLc cost : UInt32) : Prop :=
  if trend ≠ 0 then
    cost = sampledLc
  else
    let start :=
      if previous = 0 ∨ 41000 < sampledLc ∨ 41000 < previous then
        sampledLc
      else
        previous
    cost = weightedCost start sampledLc ∧ 100 * cost.toNat ≤ 99 * start.toNat + sampledLc.toNat ∧
      99 * start.toNat + sampledLc.toNat ≤ 100 * cost.toNat + 100

/-- Every edge has the quality of its last record, and every edge that was
known to that record a cost that follows the quality. -/
def CostsFollowQuality {ver : IpVersion} (plugin : LqPlugin) (tables : TcTables ver) : Prop :=
  ∀ originator entry, tables.olsrLookupTcEntry originator = some entry → ∀ edge ∈ entry.edges,
      ∃ record, (tables.costs originator).lastRecord edge.destAddr = some record ∧
          edge.linkquality = record.linkquality ∧
          (record.known → FollowsSample (plugin.valueBandwidth edge.linkquality)
              record.cost (plugin.calcTcCost edge.linkquality)
              ((tables.costs originator).cost edge.destAddr))

section Costs

variable {plugin : LqPlugin}

/-- The rounded average stays within one of the exact one. -/
theorem weightedCost_near (cost sampledLc : UInt32) :
    100 * (weightedCost cost sampledLc).toNat ≤ 99 * cost.toNat + sampledLc.toNat ∧
      99 * cost.toNat + sampledLc.toNat ≤ 100 * (weightedCost cost sampledLc).toNat + 100 := by
  have costSmall := cost.toNat_lt
  have sampleSmall := sampledLc.toNat_lt
  have digits : 0 < 53 := by decide
  have kept := roundDigits_near digits (8917127262193582 * cost.toNat)
  have new := roundDigits_near digits (5764607523034235 * sampledLc.toNat)
  have sum := roundDigits_near digits
      (2 ^ 6 * roundDigits 53 (8917127262193582 * cost.toNat) +
        roundDigits 53 (5764607523034235 * sampledLc.toNat))
  rw [weightedCost, UInt32.toNat_ofNat']
  generalize roundDigits 53 (8917127262193582 * cost.toNat) = keptPart at *
  generalize roundDigits 53 (5764607523034235 * sampledLc.toNat) = newPart at *
  generalize roundDigits 53 (2 ^ 6 * keptPart + newPart) = total at *
  -- the three roundings together move the sum by less than `2 ^ 58`
  have above : 100 * total ≤ 2 ^ 59 * (99 * cost.toNat + sampledLc.toNat) + 2 ^ 58 := by omega
  have below : 2 ^ 59 * (99 * cost.toNat + sampledLc.toNat) ≤ 100 * total + 2 ^ 58 := by omega
  have fits : total / 2 ^ 59 < 2 ^ 32 := by omega
  rw [Nat.mod_eq_of_lt fits]
  omega

/-- Every edge has the quality of its last record and, if the edge was known
to that record, the cost computed from it. -/
def Recorded (plugin : LqPlugin) (lqLevel : Nat) (edges : List (TcEdge ver))
    (costs : TcCosts ver) : Prop :=
  ∀ edge ∈ edges, ∃ record, costs.lastRecord edge.destAddr = some record ∧
      edge.linkquality = record.linkquality ∧
      (record.known → costs.cost edge.destAddr = olsrCalcTcEdgeEntryEtx plugin lqLevel record.cost
            record.linkquality)

variable {edges : List (TcEdge ver)} {costs : TcCosts ver}

theorem Recorded.subset {fewer : List (TcEdge ver)} (recorded : Recorded plugin lqLevel edges costs)
    (subset : fewer ⊆ edges) : Recorded plugin lqLevel fewer costs :=
  fun edge member => recorded edge (subset member)

theorem Recorded.note (recorded : Recorded plugin lqLevel edges costs)
    {record : TcRecord ver} {cost : UInt32} {next : List (TcEdge ver)}
    (others : ∀ edge ∈ next, edge.destAddr ≠ record.neighbor → edge ∈ edges)
    (quality : ∀ edge ∈ next, edge.destAddr = record.neighbor →
        edge.linkquality = record.linkquality) (computed : record.known →
        cost = olsrCalcTcEdgeEntryEtx plugin lqLevel record.cost record.linkquality) :
    Recorded plugin lqLevel next (costs.note record cost) := by
  intro edge member
  by_cases isNoted : edge.destAddr = record.neighbor
  · refine ⟨record, ?_, quality edge member isNoted, ?_⟩
    · rw [isNoted]
      exact costs.lastRecord_note_self record cost
    · intro known
      rw [isNoted, TcCosts.note_cost, update_self]
      exact computed known
  · obtain ⟨old, isLast, sameQuality, sameCost⟩ := recorded edge (others edge member isNoted)
    refine ⟨old, ?_, sameQuality, ?_⟩
    · rw [costs.lastRecord_note_of_ne cost (Ne.symm isNoted), isLast]
    · rw [TcCosts.note_cost, update_of_ne isNoted]
      exact sameCost

variable {cfg : TcConfig ver} {ansn limit : Nat} {reading : TcReading ver}

theorem Recorded.readTcEdge
    (recorded : Recorded plugin cfg.lqLevel reading.edges costs) (level : 0 < cfg.lqLevel) :
    Recorded plugin cfg.lqLevel (readTcEdge cfg mem ansn reading).edges
      (costTcEdge plugin cfg mem reading costs) := by
  rw [QosOlsr.readTcEdge, olsrTcUpdateEdge_eq, costTcEdge]
  generalize (pktGetIpaddress mem ver reading.curr).1 = neighbor
  dsimp only [storeTcEdge]
  cases found : olsrLookupTcEdge reading.edges neighbor with
  | none =>
    have notListed : ∀ edge ∈ reading.edges, edge.destAddr ≠ neighbor := by
      simpa [olsrLookupTcEdge] using found
    cases cfg.olsrValidateAddress neighbor with
    | false => exact recorded
    | true =>
      refine recorded.note ?_ ?_ ?_
      · intro edge member isOther
        rcases mem_insertTcEdge_iff.mp member with rfl | old
        · exact absurd rfl isOther
        · exact old
      · intro edge member isNew
        rcases mem_insertTcEdge_iff.mp member with rfl | old
        · rfl
        · exact absurd isNew (notListed edge old)
      · intro no
        cases no
  | some known =>
    simp only [level, if_true]
    refine recorded.note ?_ ?_ fun _ => rfl
    · intro edge member isOther
      obtain ⟨old, oldMem, rfl⟩ := mem_map.mp member
      split at isOther
      next isKnown => exact absurd isKnown isOther
      next isUnknown =>
        rw [if_neg isUnknown]
        exact oldMem
    · intro edge member isKnown
      obtain ⟨old, oldMem, rfl⟩ := mem_map.mp member
      split at isKnown
      next same =>
        rw [if_pos same]
        rfl
      next ne => exact absurd isKnown ne

theorem Recorded.readTcEdges
    (recorded : Recorded plugin cfg.lqLevel reading.edges costs) (level : 0 < cfg.lqLevel) :
    Recorded plugin cfg.lqLevel (readTcEdges cfg mem ansn limit reading).edges
      (costTcEdges plugin cfg mem ansn limit reading costs) := by
  fun_induction costTcEdges plugin cfg mem ansn limit reading costs with
  | case1 reading costs more ih =>
    rw [QosOlsr.readTcEdges, if_pos more]
    exact ih (recorded.readTcEdge level)
  | case2 reading costs done =>
    rw [QosOlsr.readTcEdges, if_neg done]
    exact recorded

theorem olsrDeleteRevokedTcEdges_subset (lowerBorder upperBorder : IpAddr ver)
    (passedLowerBorder : Bool) (edges : List (TcEdge ver)) :
    olsrDeleteRevokedTcEdges ansn lowerBorder upperBorder passedLowerBorder edges ⊆ edges := by
  induction edges generalizing passedLowerBorder with
  | nil => exact List.Subset.refl _
  | cons edge rest ih =>
    rw [olsrDeleteRevokedTcEdges]
    split
    · exact cons_subset_cons _ (ih _)
    · split
      · exact List.Subset.refl _
      · split
        · exact subset_cons_of_subset _ (ih _)
        · exact cons_subset_cons _ (ih _)

theorem processTcEdges_subset (header : TcHeader ver) (curr : Cursor) :
    (processTcEdges cfg mem header curr edges).edges ⊆
      (readTcEdges cfg mem header.ansn header.size ⟨curr, edges, none⟩).edges := by
  rw [processTcEdges]
  split
  · exact List.Subset.refl _
  · exact olsrDeleteRevokedTcEdges_subset _ _ _ _

theorem startCost_eq (cost sampledLc : UInt32) :
    (if 41000 < (if 41000 < sampledLc then sampledLc else if cost = 0 then sampledLc else cost) then
        sampledLc
      else if 41000 < sampledLc then sampledLc
      else if cost = 0 then sampledLc else cost) =
      if cost = 0 ∨ 41000 < sampledLc ∨ 41000 < cost then
        sampledLc
      else
        cost := by
  by_cases high : 41000 < sampledLc
  · simp [high]
  · by_cases absent : cost = 0
    · simp [high, absent]
    · simp [high, absent]

theorem followsSample_olsrCalcTcEdgeEntryEtx
    (level : 0 < lqLevel) (cost : UInt32) (linkquality : List UInt8) :
    FollowsSample (plugin.valueBandwidth linkquality) cost (plugin.calcTcCost linkquality)
      (olsrCalcTcEdgeEntryEtx plugin lqLevel cost linkquality) := by
  have active : ¬ lqLevel < 1 := Nat.not_lt.mpr level
  rw [olsrCalcTcEdgeEntryEtx, if_neg active, FollowsSample]
  by_cases trend : plugin.valueBandwidth linkquality = 0
  · simp only [trend, ne_eq, not_true, if_false, startCost_eq, true_and]
    exact weightedCost_near _ _
  · simp only [trend, ne_eq, not_false_iff, if_true]

end Costs

section Runs

variable {plugin : LqPlugin} {lqHandler : LqHandler} {tables next : TcTables ver}

def TablesRecorded (plugin : LqPlugin) (lqLevel : Nat) (tables : TcTables ver) : Prop :=
  ∀ originator entry, tables.olsrLookupTcEntry originator = some entry →
    Recorded plugin lqLevel entry.edges (tables.costs originator)

theorem TablesRecorded.shrink
    (recorded : TablesRecorded plugin lqLevel tables) (sameCosts : next.costs = tables.costs)
    (fewer : ∀ {originator entry}, next.olsrLookupTcEntry originator = some entry →
        ∃ old, tables.olsrLookupTcEntry originator = some old ∧ entry.edges ⊆ old.edges) :
    TablesRecorded plugin lqLevel next := by
  intro originator entry found
  obtain ⟨old, foundOld, subset⟩ := fewer found
  rw [sameCosts]
  exact (recorded originator old foundOld).subset subset

theorem dropTcMessage_edges {tc noted : TcEntry ver} {msgSeq ansn : Nat}
    (dropped : dropTcMessage tc msgSeq ansn = some noted) : noted.edges = tc.edges := by
  rw [dropTcMessage] at dropped
  split_ifs at dropped <;> simp_all <;> grind

variable {node : TcNode ver}

def readEdges (node : TcNode ver) (mem : Memory) : List (TcEdge ver) :=
  let header : TcHeader ver := tcHeader mem
  (readTcEdges node.config mem header.ansn header.size
    ⟨⟨12 + ver.ipsize, 12 + ver.ipsize⟩,
      ((node.olsrLookupTcEntry header.originator).getD newTcEntry).edges,
      none⟩).edges

/-- A processed message leaves the edges that it read, or fewer. -/
theorem olsrInputTc_accepted (isTc : IsTc mem)
    (symmetric : node.senderIsSym) (accepted : AcceptsTc node mem) : (olsrInputTc node mem).effect =
      .deleted (tcHeader mem).originator ∨ ∃ entry, (olsrInputTc node mem).effect =
      .stored (tcHeader mem).originator entry ∧ entry.edges ⊆ readEdges node mem := by
  rw [olsrInputTc_of_isTc isTc, if_neg (by simp [symmetric]), processTcMessage]
  dsimp only
  rw [accepted.1]
  dsimp only
  rw [if_neg accepted.2]
  dsimp only
  split
  · exact Or.inl rfl
  · exact Or.inr ⟨_, rfl, processTcEdges_subset _ _⟩

theorem olsrInputTc_refused (refused : ¬ (IsTc mem ∧ node.senderIsSym ∧ AcceptsTc node mem)) :
    (olsrInputTc node mem).effect = .unchanged ∨ (olsrInputTc node mem).effect = .missing ∨
      ∃ entry old, (olsrInputTc node mem).effect = .stored (tcHeader mem).originator entry ∧
      node.olsrLookupTcEntry (tcHeader mem).originator = some old ∧ entry.edges = old.edges := by
  by_cases isTc : IsTc mem
  · rw [olsrInputTc_of_isTc isTc]
    split
    · exact Or.inl rfl
    next symmetric =>
      have notAccepted : ¬ AcceptsTc node mem := fun accepted =>
          refused ⟨isTc, Bool.of_not_eq_false symmetric, accepted⟩
      right
      rw [processTcMessage]
      dsimp only
      split
      next noted dropped =>
        obtain ⟨old, known, isDropped⟩ := bind_eq_some_iff.mp dropped
        exact Or.inr ⟨noted, old, rfl, known, dropTcMessage_edges isDropped⟩
      next passed =>
        split
        · exact Or.inl rfl
        next present => exact absurd ⟨passed, present⟩ notAccepted
  · rw [olsrInputTc_of_not_isTc isTc]
    exact Or.inl rfl

theorem TablesRecorded.inputTc {arrival : TcArrival ver}
    (recorded : TablesRecorded plugin lqLevel tables) (level : 0 < lqLevel)
    (done : tcStep plugin lqLevel lqHandler tables (.inputTc arrival) = some next) :
    TablesRecorded plugin lqLevel next := by
  rw [tcStep] at done
  generalize isNode : arrival.node lqLevel lqHandler tables = node at done
  have sameTables : node.olsrLookupTcEntry = tables.olsrLookupTcEntry := by
    rw [← isNode, TcArrival.node]
  have sameLevel : node.config.lqLevel = lqLevel := by rw [← isNode, TcArrival.node]
  by_cases processed : IsTc arrival.memory ∧ node.senderIsSym ∧ AcceptsTc node arrival.memory
  · rw [inputTcCosts, if_pos processed] at done
    obtain ⟨isTc, symmetric, accepted⟩ := processed
    rcases olsrInputTc_accepted isTc symmetric accepted with deleted | ⟨stored, isStored, subset⟩
    · rw [deleted] at done
      cases done
      intro originator entry found
      dsimp only at found ⊢
      rw [update_apply] at found
      split at found
      · cases found
      next isOther =>
        rw [update_of_ne isOther]
        exact recorded originator entry found
    · rw [isStored] at done
      cases done
      intro originator entry found
      dsimp only at found ⊢
      rw [update_apply] at found
      split at found
      next same =>
        cases found
        rw [same, update_self]
        refine Recorded.subset ?_ subset
        rw [← sameLevel] at level ⊢
        refine Recorded.readTcEdges ?_ level
        intro edge member
        rw [sameTables] at member
        cases known : tables.olsrLookupTcEntry (tcHeader arrival.memory).originator with
        | none =>
          rw [known] at member
          cases member
        | some old =>
          rw [known] at member
          rw [sameLevel]
          exact recorded _ old known edge member
      next isOther =>
        rw [update_of_ne isOther]
        exact recorded originator entry found
  · rw [inputTcCosts, if_neg processed] at done
    rcases olsrInputTc_refused processed with
      unchanged | missing | ⟨stored, old, isStored, known, same⟩
    · rw [unchanged] at done
      cases done
      exact recorded
    · rw [missing] at done
      cases done
    · rw [isStored] at done
      cases done
      refine recorded.shrink rfl ?_
      intro originator entry found
      dsimp only at found
      rw [update_apply] at found
      split at found
      next isOrig =>
        cases found
        rw [isOrig, ← sameTables]
        exact ⟨old, known, same ▸ List.Subset.refl _⟩
      · exact ⟨entry, found, List.Subset.refl _⟩

theorem tcStep_recorded {event : TcEvent ver} (level : 0 < lqLevel)
    (recorded : TablesRecorded plugin lqLevel tables)
    (done : tcStep plugin lqLevel lqHandler tables event = some next) :
    TablesRecorded plugin lqLevel next := by
  cases event with
  | inputTc arrival => exact recorded.inputTc level done
  | expireTcEntry expired =>
    cases done
    refine recorded.shrink rfl ?_
    intro originator entry found
    dsimp only at found
    rw [update_apply] at found
    split at found
    · cases found
    · exact ⟨entry, found, List.Subset.refl _⟩
  | expireTcEdgeGc expired =>
    cases done
    refine recorded.shrink rfl ?_
    intro originator entry found
    dsimp only at found
    rw [update_apply] at found
    split at found
    next same =>
      obtain ⟨old, known, rfl⟩ := map_eq_some_iff.mp found
      exact ⟨old, same ▸ known, filter_sublist.subset⟩
    · exact ⟨entry, found, List.Subset.refl _⟩

/-- In every run of messages and expiries the stored quality is that of the
last record, and the cost of an edge that this record found follows it. -/
theorem costsFollowQuality_of_run (plugin : LqPlugin) (lqLevel : Nat) (lqHandler : LqHandler)
    (level : 0 < lqLevel) (events : List (TcEvent ver)) (final : TcTables ver)
    (run : runEvents (tcStep plugin lqLevel lqHandler) TcTables.init events = some final) :
    CostsFollowQuality plugin final := by
  have initially : TablesRecorded plugin lqLevel (TcTables.init : TcTables ver) := nofun
  have recorded : TablesRecorded plugin lqLevel final :=
    runEvents_invariant (tcStep_recorded level) initially run
  intro originator entry found edge member
  obtain ⟨record, isLast, sameQuality, sameCost⟩ := recorded originator entry found edge member
  refine ⟨record, isLast, sameQuality, fun known => ?_⟩
  rw [sameCost known, sameQuality]
  exact followsSample_olsrCalcTcEdgeEntryEtx level record.cost record.linkquality

/-! ## The handler of the Linux build -/

/-- `lq_calc_cost_ffeth_nl80211`, in fixed-point numbers with ten binary
places. -/
def lqCalcCostFfethNl80211 : List UInt8 → UInt32
  | [valueBandwidth, valueRssi, valueLq, valueNlq] =>
    if valueLq < 25 ∨ valueNlq < 25 then
      UInt32.ofNat linkCostBroken
    else
      let lqInt :=
        if 0 < valueLq ∧ valueLq < 255 then
          valueLq.toNat + 1
        else
          valueLq.toNat
      let nlqInt :=
        if 0 < valueNlq ∧ valueNlq < 255 then
          valueNlq.toNat + 1
        else
          valueNlq.toNat
      let nl80211 := (valueBandwidth.toNat + valueRssi.toNat) * 1024 / 255
      let cost := 255 * 255 * 1024 / (lqInt * nlqInt) + nl80211
      let cost :=
        if valueLq = 255 ∧ valueNlq = 255 then cost / 10 else cost
      if linkCostBroken < cost then
        UInt32.ofNat linkCostBroken
      else if cost = 0 then
        1
      else
        UInt32.ofNat cost
  | _ => UInt32.ofNat linkCostBroken

def nl80211Plugin : LqPlugin := ⟨lqCalcCostFfethNl80211, fun linkquality => linkquality.headD 0⟩

/-- The walks of `readTcEdges` and `costTcEdges`, with a bound on the number of
records. -/
def walkTcEdges (plugin : LqPlugin) (cfg : TcConfig ver) (mem : Memory) (ansn limit : Nat) :
    Nat → TcReading ver → TcCosts ver → TcReading ver × TcCosts ver
  | 0, reading, costs => (reading, costs)
  | bound + 1, reading, costs =>
    if reading.curr.pos < limit then
      walkTcEdges plugin cfg mem ansn limit bound (readTcEdge cfg mem ansn reading)
        (costTcEdge plugin cfg mem reading costs)
    else
      (reading, costs)

theorem readTcEdge_curr_lt (cfg : TcConfig ver) (mem : Memory) (ansn : Nat)
    (reading : TcReading ver) : reading.curr.pos < (readTcEdge cfg mem ansn reading).curr.pos := by
  have positive := ver.ipsize_pos
  rw [readTcEdge_curr]
  split
  · dsimp only
    omega
  · dsimp only [Cursor.read]
    omega

theorem walkTcEdges_eq (plugin : LqPlugin) (cfg : TcConfig ver) (mem : Memory)
    (ansn limit bound : Nat) (reading : TcReading ver) (costs : TcCosts ver)
    (enough : limit ≤ reading.curr.pos + bound) :
    walkTcEdges plugin cfg mem ansn limit bound reading costs =
      (readTcEdges cfg mem ansn limit reading,
        costTcEdges plugin cfg mem ansn limit reading costs) := by
  induction bound generalizing reading costs with
  | zero =>
    have done : ¬ reading.curr.pos < limit := by omega
    rw [walkTcEdges, readTcEdges, costTcEdges, if_neg done, if_neg done]
  | succ bound ih =>
    rw [walkTcEdges, readTcEdges, costTcEdges]
    split
    · have moved := readTcEdge_curr_lt cfg mem ansn reading
      exact ih _ _ (by omega)
    · rfl

theorem readTcEdges_eq_walk
    (plugin : LqPlugin) : @readTcEdges ver = fun cfg mem ansn limit reading =>
      (walkTcEdges plugin cfg mem ansn limit limit reading ⟨fun _ => 0, []⟩).1 := by
  funext cfg mem ansn limit reading
  rw [walkTcEdges_eq _ _ _ _ _ _ _ _ (Nat.le_add_left _ _)]

theorem costTcEdges_eq_walk : @costTcEdges ver = fun plugin cfg mem ansn limit reading costs =>
      (walkTcEdges plugin cfg mem ansn limit limit reading costs).2 := by
  funext plugin cfg mem ansn limit reading costs
  rw [walkTcEdges_eq _ _ _ _ _ _ _ _ (Nat.le_add_left _ _)]

/-- A message of 10.0.0.2: three records of 10.0.0.1, the last one with less
quality, and one of 10.0.0.3. -/
def slowEdgeEvent : TcEvent .inet := .inputTc
    ⟨fun _ => true, .v4 10 0 0 9, true, ofBytes
        [202, 0x86, 0, 48, 10, 0, 0, 2, 255, 0, 0, 1, 0, 1, 255, 255,
          10, 0, 0, 1, 0, 0, 255, 255, 10, 0, 0, 1, 0, 0, 255, 255,
          10, 0, 0, 1, 0, 0, 128, 128, 10, 0, 0, 3, 0, 0, 255, 255]⟩

theorem slowEdgeEvent_run :
    ((runEvents (tcStep nl80211Plugin 2 .etxFfethNl80211) TcTables.init
        [slowEdgeEvent]).bind fun final =>
      (final.olsrLookupTcEntry ⟨[10, 0, 0, 2], rfl⟩).map fun entry =>
        entry.edges.map fun edge =>
          (edge.destAddr, edge.linkquality,
            (final.costs ⟨[10, 0, 0, 2], rfl⟩).cost edge.destAddr)) =
      some
        [(⟨[10, 0, 0, 1], rfl⟩, [0, 0, 128, 128], 140),
          (⟨[10, 0, 0, 3], rfl⟩, [0, 0, 255, 255], 4194304)] := by
  delta tcStep olsrInputTc processTcMessage processTcEdges inputTcCosts
  rw [readTcEdges_eq_walk nl80211Plugin, costTcEdges_eq_walk]
  decide +kernel

theorem costsFollowQuality_of_run_slow_edge : ∃ final,
      runEvents (tcStep nl80211Plugin 2 .etxFfethNl80211) TcTables.init
          [slowEdgeEvent] = some final ∧
        CostsFollowQuality nl80211Plugin final := by
  obtain ⟨final, run, -⟩ := bind_eq_some_iff.mp slowEdgeEvent_run
  exact
    ⟨final, run, costsFollowQuality_of_run nl80211Plugin 2 .etxFfethNl80211 (by decide)
        [slowEdgeEvent] final run⟩

/-- The known edge has the cost 140 beside a quality of cost 4001, the new one
that of no quality at all. -/
theorem tcEdge_costs_differ_from_quality : ∃ final entry,
      runEvents (tcStep nl80211Plugin 2 .etxFfethNl80211) TcTables.init
          [slowEdgeEvent] = some final ∧
        final.olsrLookupTcEntry ⟨[10, 0, 0, 2], rfl⟩ = some entry ∧
        (entry.edges.map fun edge =>
            ((final.costs ⟨[10, 0, 0, 2], rfl⟩).cost edge.destAddr,
              nl80211Plugin.calcTcCost edge.linkquality)) =
          [(140, 4001), (4194304, 102)] ∧
        ¬ CostsMatch nl80211Plugin final := by
  obtain ⟨final, run, observed⟩ := bind_eq_some_iff.mp slowEdgeEvent_run
  obtain ⟨entry, found, edges⟩ := map_eq_some_iff.mp observed
  have pairs :
      (entry.edges.map fun edge =>
          ((final.costs ⟨[10, 0, 0, 2], rfl⟩).cost edge.destAddr,
            nl80211Plugin.calcTcCost edge.linkquality)) =
        [(140, 4001), (4194304, 102)] := by
    have computed := congrArg
        (List.map fun shown : IpAddr .inet × List UInt8 × UInt32 =>
          (shown.2.2, nl80211Plugin.calcTcCost shown.2.1))
        edges
    rw [List.map_map] at computed
    exact computed.trans (by decide +kernel)
  refine ⟨final, entry, run, found, pairs, fun allMatch => ?_⟩
  have member : ((140, 4001) : UInt32 × UInt32) ∈ _ := pairs ▸ mem_cons_self
  obtain ⟨edge, isEdge, same⟩ := mem_map.mp member
  obtain ⟨isCost, isSample⟩ := Prod.mk.inj same
  have equal := allMatch _ entry found edge isEdge
  rw [isCost, isSample] at equal
  exact absurd equal (by decide)

end Runs

end QosOlsr
