import QosOlsr.Hello.LinkSensing
import QosOlsr.LinkQuality

/-!
# The costs of heads two hops away

`create_lq_hello` reads the cost of a head through a pointer to the link of the
list of neighbours: with pointers of 64 bits the cost is the upper half of the
address of the last neighbour in the list.
-/

namespace QosOlsr

open Library List

variable {ver : IpVersion}

/-- A two-hop neighbour in memory: where the head of its list of neighbours is,
and the address and the stored `path_linkcost` of each neighbour in the list. -/
structure TwoHopNeighbor (ver : IpVersion) where
  neighbor2Addr : IpAddr ver
  is2hop : Bool
  nblistHead : UInt64
  neighbor2Nblist : List (UInt64 × UInt32)

section

variable (neigh2 : TwoHopNeighbor ver)

def TwoHopNeighbor.prev : UInt64 :=
  (neigh2.neighbor2Nblist.getLast?.map Prod.fst).getD neigh2.nblistHead

/-- `path_linkcost` twelve bytes behind the field `next`: the upper half of
`prev`. -/
def TwoHopNeighbor.pathLinkcost : UInt32 := (neigh2.prev >>> 32).toUInt32

/-- The bytes of a word in the record of the handler, as it serialises it: the
upper half are the bandwidth and the signal. -/
def wireLinkcost (cost : UInt32) : LqBytes :=
  .ofFour (cost >>> 16).toUInt8 (cost >>> 24).toUInt8 cost.toUInt8 (cost >>> 8).toUInt8

def TwoHopNeighbor.entry : Neighbor2Entry ver :=
  ⟨neigh2.neighbor2Addr, neigh2.is2hop, wireLinkcost neigh2.pathLinkcost⟩

/-- `olsr_deserialize_hello_lq_pair` computes the cost of a new neighbour as
`olsr_calc_tc_edge_entry_etx` does for an edge without a cost. -/
def helloCost (linkquality : List UInt8) : UInt32 :=
  olsrCalcTcEdgeEntryEtx nl80211Plugin 1 0 linkquality

/-- The cost is one that the sender has stored, up to saturation. -/
def TwoHopNeighbor.Stores (cost : UInt32) : Prop :=
  ∃ neighbor ∈ neigh2.neighbor2Nblist, cost.toNat = min neighbor.2.toNat linkCostBroken

end

/-- The cost of a link whose qualities are the two lower bytes of half an
address, and whose bandwidth and signal are the two upper ones. -/
def halfAddressCost (half : Nat) : Nat :=
  let lq := half % 256
  let nlq := half / 2 ^ 8 % 256
  let nl80211 := (half / 2 ^ 16 % 256 + half / 2 ^ 24 % 256) * 1024 / 255
  let cost := 255 * 255 * 1024 / (min (lq + 1) 255 * min (nlq + 1) 255) + nl80211
  if lq < 25 ∨ nlq < 25 then linkCostBroken
  else if lq = 255 ∧ nlq = 255 then cost / 10
  else cost

/-- A receiver rounds that cost if the byte of the bandwidth is zero. -/
def receivedCost (half : Nat) : Nat :=
  let cost := UInt32.ofNat (halfAddressCost half)
  if half / 2 ^ 16 % 256 = 0 then (weightedCost cost cost).toNat else halfAddressCost half

section Received

variable (half : UInt32)

private theorem toNat_calcCost_wireLinkcost :
    (lqCalcCostFfethNl80211 (wireLinkcost half).bytes).toNat = halfAddressCost half.toNat := by
  have lq : half.toUInt8.toNat = half.toNat % 256 := UInt32.toNat_toUInt8 half
  have nlq : (half >>> 8).toUInt8.toNat = half.toNat / 2 ^ 8 % 256 := by
    simp [Nat.shiftRight_eq_div_pow]
  have bandwidth : (half >>> 16).toUInt8.toNat = half.toNat / 2 ^ 16 % 256 := by
    simp [Nat.shiftRight_eq_div_pow]
  have signal : (half >>> 24).toUInt8.toNat = half.toNat / 2 ^ 24 % 256 := by
    simp [Nat.shiftRight_eq_div_pow]
  change (lqCalcCostFfethNl80211 [(half >>> 16).toUInt8, (half >>> 24).toUInt8, half.toUInt8,
    (half >>> 8).toUInt8]).toNat = _
  simp only [halfAddressCost, ← lq, ← nlq, ← bandwidth, ← signal]
  by_cases low : half.toUInt8 < 25 ∨ (half >>> 8).toUInt8 < 25
  · have lowNat : half.toUInt8.toNat < 25 ∨ (half >>> 8).toUInt8.toNat < 25 := low
    rw [lqCalcCostFfethNl80211, if_pos low, if_pos lowNat]
    rfl
  · have highNat : ¬ (half.toUInt8.toNat < 25 ∨ (half >>> 8).toUInt8.toNat < 25) := low
    rw [not_or, UInt8.not_lt, UInt8.not_lt] at low
    rw [(lqCalcCostFfethNl80211_toNat _ _ low.1 low.2).1, if_neg highNat]
    simp only [← UInt8.toNat_inj]
    rfl

private theorem toNat_helloCost_wireLinkcost :
    (helloCost (wireLinkcost half).bytes).toNat = receivedCost half.toNat := by
  have sampled := toNat_calcCost_wireLinkcost half
  have bandwidth : nl80211Plugin.valueBandwidth (wireLinkcost half).bytes ≠ 0 ↔
      ¬ half.toNat / 2 ^ 16 % 256 = 0 := by
    change (half >>> 16).toUInt8 ≠ 0 ↔ _
    rw [Ne, ← UInt8.toNat_inj]
    simp [Nat.shiftRight_eq_div_pow]
  rw [helloCost, olsrCalcTcEdgeEntryEtx, if_neg (by decide), receivedCost, ← sampled,
    UInt32.ofNat_toNat]
  by_cases zero : half.toNat / 2 ^ 16 % 256 = 0
  · simp only [if_neg (bandwidth.not.mpr (not_not_intro zero)), if_pos zero, if_true, ite_self]
    rfl
  · simp only [if_pos (bandwidth.mpr zero), if_neg zero]
    rfl

end Received

variable (cfg : HelloConfig ver) (ctx : LinkContext) (interface : HelloInterface ver)
  (links : List (LinkEntry ver)) (table : List (TwoHopNeighbor ver)) (outif : Outif)

/-- The entry is that of a head two hops away in the table, and the property
holds of the cost that the receiver assigns to it. -/
def IsHeadEntry (Holds : TwoHopNeighbor ver → UInt32 → Prop) (neigh2 : TwoHopNeighbor ver)
    (neighbor : HelloNeighbor (IpAddr ver)) : Prop :=
  neigh2 ∈ table ∧ neigh2.is2hop = true ∧ neighbor.address = neigh2.neighbor2Addr ∧
    neighbor.status = .twoHead ∧ Holds neigh2 (helloCost neighbor.linkquality)

/-- The messages decode to HELLOs that list each head two hops away, and no
other host as such a head, with costs of which the property holds. -/
def ReceivesHeads (messages : List (List UInt8))
    (Holds : TwoHopNeighbor ver → UInt32 → Prop) : Prop :=
  ∀ buffers, List.Forall₂ (fun mem msg => Carries mem 0 msg) buffers messages →
    ∃ hellos,
      (∀ decoded, List.Forall₂ (fun mem hello => Decodes .etxFfethNl80211 mem hello)
        buffers decoded ↔ decoded = hellos) ∧
      (∀ neigh2 ∈ table, neigh2.is2hop = true → ∃ hello ∈ hellos, ∃ neighbor ∈ hello.neighbors,
          IsHeadEntry table Holds neigh2 neighbor) ∧
      ∀ hello ∈ hellos, ∀ neighbor ∈ hello.neighbors, neighbor.status = .twoHead →
        ∃ neigh2, IsHeadEntry table Holds neigh2 neighbor

section

variable {table} {Holds Other : TwoHopNeighbor ver → UInt32 → Prop}
  (follows : ∀ neigh2 ∈ table, ∀ {cost}, Holds neigh2 cost → Other neigh2 cost)
include follows

theorem IsHeadEntry.imp {neigh2 : TwoHopNeighbor ver} {neighbor : HelloNeighbor (IpAddr ver)}
    (isEntry : IsHeadEntry table Holds neigh2 neighbor) : IsHeadEntry table Other neigh2 neighbor :=
  ⟨isEntry.1, isEntry.2.1, isEntry.2.2.1, isEntry.2.2.2.1, follows neigh2 isEntry.1 isEntry.2.2.2.2⟩

theorem ReceivesHeads.imp {messages : List (List UInt8)}
    (receives : ReceivesHeads table messages Holds) : ReceivesHeads table messages Other := by
  intro buffers received
  obtain ⟨hellos, decodes, listed, sound⟩ := receives buffers received
  refine ⟨hellos, decodes, fun neigh2 inTable is2hop => ?_,
    fun hello inHellos neighbor inNbrs isHead => ?_⟩
  · obtain ⟨hello, inHellos, neighbor, inNbrs, isEntry⟩ := listed neigh2 inTable is2hop
    exact ⟨hello, inHellos, neighbor, inNbrs, isEntry.imp follows⟩
  · obtain ⟨neigh2, isEntry⟩ := sound hello inHellos neighbor inNbrs isHead
    exact ⟨neigh2, isEntry.imp follows⟩

end

private theorem linkNeighType_ne_twoHead (neighbor : NeighborEntry (IpAddr ver)) :
    linkNeighType neighbor ≠ .twoHead := by
  unfold linkNeighType
  cases neighbor.status with
  | sym => split_ifs <;> decide
  | notSym => split_ifs <;> decide

theorem exchange_heads
    (capacity : lqHelloHeaderSize ver + (helloRecordSize ver 4 + 4) ≤ min 1228 outif.maxsize) :
    ∃ sent messages,
      serializeLqHello (createLqHello cfg ctx interface
        ⟨links, table.map TwoHopNeighbor.entry⟩) outif = some sent ∧
      sent.messages = outif.messages ++ messages ∧
      ReceivesHeads table messages fun neigh2 cost =>
        cost.toNat = receivedCost (neigh2.prev.toNat / 2 ^ 32) := by
  have isCost (neigh2 : TwoHopNeighbor ver) :
      (helloCost (wireLinkcost neigh2.pathLinkcost).bytes).toNat =
        receivedCost (neigh2.prev.toNat / 2 ^ 32) := by
    rw [toNat_helloCost_wireLinkcost]
    congr 1
    have := neigh2.prev.toNat_lt
    simp [TwoHopNeighbor.pathLinkcost, Nat.shiftRight_eq_div_pow]
    omega
  obtain ⟨sent, messages, serialized, total, exchange⟩ :=
    exchange_grouped cfg ctx interface ⟨links, table.map TwoHopNeighbor.entry⟩ outif
      .etxFfethNl80211 capacity
  refine ⟨sent, messages, serialized, total, fun buffers received => ?_⟩
  obtain ⟨hellos, decodes, lists⟩ := exchange buffers received
  refine ⟨hellos, decodes, fun neigh2 inTable is2hop => ?_,
    fun hello inHellos neighbor inNbrs isHead => ?_⟩
  · have listed : twoHopHelloEntry neigh2.entry ∈ helloEntries ctx interface.ipAddr
        ⟨links, table.map TwoHopNeighbor.entry⟩ :=
      helloEntries_of_twoHop (mem_map_of_mem inTable) is2hop
    have inGroup : (twoHopHelloEntry neigh2.entry).group ∈ helloGroups := mem_product.mpr
        ⟨(by decide : NeighType.twoHead ∈ NeighType.order),
          (by decide : LinkType.sym ∈ LinkType.order)⟩
    obtain ⟨hello, inHellos, inNbrs⟩ :=
      lists.listed _ (mem_grouped.mpr ⟨listed, inGroup⟩) LinkType.noConfusion
    exact ⟨hello, inHellos, _, inNbrs, inTable, is2hop, rfl, rfl, isCost neigh2⟩
  · obtain ⟨neigh, inGroups, rfl⟩ := lists.sound hello inHellos neighbor inNbrs
    rcases mem_helloEntries (mem_grouped.mp inGroups).1 with
      ⟨entry, inEntries, is2hop, rfl⟩ | ⟨walker, -, rfl⟩
    · obtain ⟨neigh2, inTable, rfl⟩ := mem_map.mp inEntries
      exact ⟨neigh2, inTable, is2hop, rfl, rfl, isCost neigh2⟩
    · exact absurd isHead (linkNeighType_ne_twoHead walker.neighbor)

/-- A head two hops away that is reached at some cost, by a neighbour in the
heap. -/
def headAt (cost : UInt32) : TwoHopNeighbor .inet :=
  ⟨.v4 10 0 0 3, true, 0x555555772f40, [(0x555555773010, cost)]⟩

end QosOlsr
