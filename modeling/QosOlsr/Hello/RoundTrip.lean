import QosOlsr.Hello.Blocks
import QosOlsr.Hello.Deserialize
import QosOlsr.Library.Grouping

/-!
# Decoding what was sent

A memory that carries a HELLO made of blocks is decoded by `deserialize_hello`
to the records of the blocks: the passes for the link types return, and list
the records ordered by link type, the last one first.
-/

namespace QosOlsr

open Library List

variable {ver : IpVersion}

def LqHandler.decode : LqHandler → List UInt8 → List UInt8
  | .etxFfeth, bytes => bytes.drop 2
  | .etxFfethNl80211, bytes => bytes
  | .etxFpm, bytes | .etxFloat, bytes | .etxFf, bytes => bytes.take 2

def lqLength (lq : Option LqHandler) : Nat := lq.elim 0 fun _ => 4

def decodeNeighbor (lq : Option LqHandler) (record : HelloRecord ver (lqLength lq)) :
    HelloNeighbor (IpAddr ver) :=
  ⟨record.neighType, record.linkType, record.addr,
    lq.elim [] fun handler => handler.decode record.linkquality⟩

section Blocks

variable {mem : Memory} {lq : Option LqHandler}

private theorem deserializeLqPair_carried {handler : LqHandler} {curr : Cursor} {bytes : List UInt8}
    (length : bytes.length = 4) (carried : Carries mem curr.pos bytes) :
    (deserializeLqPair mem handler curr).1 = handler.decode bytes := by
  obtain ⟨first, second, third, fourth, rfl⟩ :
      ∃ first second third fourth, bytes = [first, second, third, fourth] := by
    match bytes, length with
    | [first, second, third, fourth], _ => exact ⟨first, second, third, fourth, rfl⟩
  obtain ⟨rfl, rfl, rfl, rfl, -⟩ := carried
  cases handler <;> rfl

private theorem readHelloNeighbor_carried {curr : Cursor} {record : HelloRecord ver (lqLength lq)}
    {linkCode : Nat} (carried : Carries mem curr.pos record.bytes)
    (status : extractStatus linkCode = record.neighType)
    (link : extractLink linkCode = record.linkType) :
    (readHelloNeighbor mem ver lq linkCode curr).1 = decodeNeighbor lq record := by
  obtain ⟨carriedAddr, carriedLq⟩ := carries_append.mp carried
  rw [record.addr.length_eq] at carriedLq
  have address : (pktGetIpaddress mem ver curr).1 = record.addr :=
    pktGetIpaddress_carried carriedAddr
  cases lq with
  | none =>
    change HelloNeighbor.mk (extractStatus linkCode) (extractLink linkCode)
        (pktGetIpaddress mem ver curr).1 [] = _
    rw [status, link, address]
    rfl
  | some handler =>
    have linkquality : (deserializeLqPair mem handler (curr.read ver.ipsize)).1 =
          handler.decode record.linkquality :=
      deserializeLqPair_carried record.length_eq carriedLq
    change HelloNeighbor.mk (extractStatus linkCode) (extractLink linkCode)
        (pktGetIpaddress mem ver curr).1
        (deserializeLqPair mem handler (curr.read ver.ipsize)).1 = _
    rw [status, link, address, linkquality]
    rfl

private theorem readHelloBlock_carried (reading : HelloReading ver) {linkCode limit2 : Nat}
    {records : List (HelloRecord ver (lqLength lq))}
    (ends : limit2 = reading.curr.pos + (records.flatMap HelloRecord.bytes).length)
    (carried : Carries mem reading.curr.pos (records.flatMap HelloRecord.bytes))
    (coded : ∀ neigh ∈ records, extractStatus linkCode = neigh.neighType ∧
          extractLink linkCode = neigh.linkType) :
    let final := readHelloBlock mem ver lq linkCode limit2 reading
    final.curr.pos = limit2 ∧ final.neighbors = (records.map (decodeNeighbor lq)).reverse ++
          reading.neighbors := by
  induction records generalizing reading with
  | nil =>
    have outside : ¬ reading.curr.pos < limit2 := by
      rw [ends, flatMap_nil, length_nil]
      omega
    rw [readHelloBlock, if_neg outside]
    exact ⟨ends.symm, rfl⟩
  | cons neigh rest ih =>
    have size := neigh.bytes_length
    have positive : 0 < helloRecordSize ver (lqLength lq) :=
      Nat.lt_of_lt_of_le ver.ipsize_pos (Nat.le_add_right _ _)
    rw [flatMap_cons] at ends carried
    rw [length_append, size] at ends
    obtain ⟨carriedRecord, carriedRest⟩ := carries_append.mp carried
    obtain ⟨⟨status, link⟩, restCoded⟩ := forall_mem_cons.mp coded
    have read : (readHelloNeighbor mem ver lq linkCode reading.curr).1 = decodeNeighbor lq neigh :=
      readHelloNeighbor_carried carriedRecord status link
    have moved : (readHelloNeighbor mem ver lq linkCode reading.curr).2.pos =
            reading.curr.pos + helloRecordSize ver (lqLength lq) := by
      rw [readHelloNeighbor_cursor]
      rfl
    have inside : reading.curr.pos < limit2 := by omega
    rw [readHelloBlock, if_pos inside]
    dsimp only
    generalize readHelloNeighbor mem ver lq linkCode reading.curr = next at read moved ⊢
    rw [size, ← moved] at carriedRest
    obtain ⟨pos, neighbors⟩ := ih ⟨next.2, next.1 :: reading.neighbors⟩
        (by dsimp only; omega) carriedRest restCoded
    refine ⟨pos, ?_⟩
    rw [neighbors, read, map_cons, reverse_cons, append_assoc, singleton_append]

theorem HelloBlock.bytes_length (block : HelloBlock ver (lqLength lq)) :
    block.bytes.length = 4 + block.recordBytes.length := by
  simp only [HelloBlock.bytes, HelloBlock.code, u16Bytes, length_append, length_cons, length_nil]

private theorem HelloBlock.linkCode_spec (block : HelloBlock ver (lqLength lq)) : let linkCode :=
      (UInt8.ofNat (createLinkCode block.group.1 block.group.2)).toNat
    extractStatus linkCode = block.group.1 ∧ extractLink linkCode = block.group.2 := by
  obtain ⟨inStatus, inLink⟩ := mem_product.mp block.group_mem
  have small := createLinkCode_lt _ inStatus _ inLink
  dsimp only
  rw [UInt8.toNat_ofNat_of_lt' small]
  exact ⟨extractStatus_createLinkCode _ inStatus _ inLink,
      extractLink_createLinkCode _ inStatus _ inLink⟩

def passRecords (link : LinkType) (records : List (HelloRecord ver (lqLength lq))) :
    List (HelloRecord ver (lqLength lq)) :=
  records.filter fun neigh => neigh.linkType = link

/-- One round of a pass over a block that was sent. -/
theorem helloBlockStep_carried (link : LinkType) {reading : HelloReading ver}
    {limit : Nat} {block : HelloBlock ver (lqLength lq)} (inside : reading.curr.pos < limit)
    (small : block.bytes.length < 0x10000) (carried : Carries mem reading.curr.pos block.bytes) :
    ∃ next, helloBlockStep mem ver lq limit link reading = some next ∧
      next.curr.pos = reading.curr.pos + block.bytes.length ∧ next.neighbors =
      ((passRecords link block.records).map (decodeNeighbor lq)).reverse ++ reading.neighbors := by
  rw [block.bytes_length] at small ⊢
  obtain ⟨carriedHeader, carriedRecords⟩ := carries_append.mp carried
  obtain ⟨⟨codeByte, -⟩, carriedSize⟩ := carries_append.mp carriedHeader
  have isSize : blockSize mem reading.curr.pos = 4 + block.recordBytes.length :=
    carriedSize.readU16_eq small
  obtain ⟨isStatus, isLink⟩ := block.linkCode_spec
  rw [← codeByte] at isStatus isLink
  rw [helloBlockStep, if_pos inside, readBlockHeader_eq]
  dsimp only
  rw [isSize, isLink]
  by_cases own : block.group.2 = link
  · rw [if_neg (not_not.mpr own)]
    have coded : ∀ neigh ∈ block.records,
          extractStatus (mem reading.curr.pos).toNat = neigh.neighType ∧
            extractLink (mem reading.curr.pos).toNat = neigh.linkType := by
      intro neigh member
      rw [isStatus, isLink, ← block.uniform neigh member]
      exact ⟨rfl, rfl⟩
    have all : passRecords link block.records = block.records := by
      refine filter_eq_self.mpr fun neigh member => ?_
      rw [decide_eq_true_eq, ← own, ← block.uniform neigh member]
      rfl
    rw [all]
    refine ⟨_, rfl, ?_⟩
    refine readHelloBlock_carried _ ?_ carriedRecords coded
    exact (Nat.add_assoc _ _ _).symm
  · rw [if_pos own]
    have none : passRecords link block.records = [] := by
      refine filter_eq_nil_iff.mpr fun neigh member => ?_
      rw [decide_eq_true_eq]
      intro isLink
      apply own
      rw [← isLink, ← block.uniform neigh member]
      rfl
    rw [none]
    exact ⟨_, rfl, rfl, rfl⟩

variable (lq)

private theorem runLoop_helloBlockStep_carried (link : LinkType)
    (blocks : List (HelloBlock ver (lqLength lq))) (reading : HelloReading ver) {limit fuel : Nat}
    (ends : limit = reading.curr.pos + (blocksBytes blocks).length)
    (small : (blocksBytes blocks).length < 0x10000)
    (carried : Carries mem reading.curr.pos (blocksBytes blocks)) (enough : blocks.length < fuel) :
    let final := runLoop (helloBlockStep mem ver lq limit link) fuel reading
    final.2 = true ∧ final.1.neighbors =
        ((passRecords link (blocksRecords blocks)).map (decodeNeighbor lq)).reverse ++
          reading.neighbors := by
  obtain ⟨fuel, rfl⟩ := Nat.exists_eq_succ_of_ne_zero (Nat.ne_zero_of_lt enough)
  induction blocks generalizing reading fuel with
  | nil =>
    have outside : limit ≤ reading.curr.pos := by
      rw [ends]
      exact le_rfl
    rw [runLoop_succ_none (helloBlockStep_of_le mem ver lq limit outside)]
    exact ⟨rfl, rfl⟩
  | cons block rest ih =>
    have split : blocksBytes (block :: rest) = block.bytes ++ blocksBytes rest := flatMap_cons
    rw [split] at ends small carried
    rw [length_append] at ends small
    obtain ⟨carriedBlock, carriedRest⟩ := carries_append.mp carried
    have positive := block.bytes_length
    obtain ⟨next, taken, pos, neighbors⟩ := helloBlockStep_carried link
        (show reading.curr.pos < limit by omega)
        (show block.bytes.length < 0x10000 by omega) carriedBlock
    rw [runLoop_succ_some taken]
    rw [← pos] at carriedRest
    rw [length_cons] at enough
    obtain ⟨fuel, rfl⟩ := Nat.exists_eq_succ_of_ne_zero (show fuel ≠ 0 by omega)
    obtain ⟨ended, restNeighbors⟩ := ih next (by omega) (by omega) carriedRest fuel (by omega)
    refine ⟨ended, ?_⟩
    have records : passRecords link (blocksRecords (block :: rest)) =
          passRecords link block.records ++ passRecords link (blocksRecords rest) := by
      rw [blocksRecords, flatMap_cons]
      exact filter_append ..
    rw [restNeighbors, neighbors, records, map_append, reverse_append, append_assoc]

private theorem runHelloPasses_carried (links : List LinkType)
    (blocks : List (HelloBlock ver (lqLength lq))) (reading : HelloReading ver)
    {limit currSaved fuel : Nat} (ends : limit = currSaved + (blocksBytes blocks).length)
    (small : (blocksBytes blocks).length < 0x10000)
    (carried : Carries mem currSaved (blocksBytes blocks)) (enough : blocks.length < fuel) :
    let final := runHelloPasses mem ver lq limit currSaved fuel links reading
    final.2 = true ∧ final.1.neighbors =
        ((links.flatMap fun link =>
            passRecords link (blocksRecords blocks)).map (decodeNeighbor lq)).reverse ++
          reading.neighbors := by
  induction links generalizing reading with
  | nil => exact ⟨rfl, rfl⟩
  | cons link rest ih =>
    obtain ⟨ended, neighbors⟩ := runLoop_helloBlockStep_carried lq link blocks
        { reading with curr := { reading.curr with pos := currSaved } }
        ends small carried enough
    rw [runHelloPasses]
    dsimp only at ended neighbors ⊢
    rw [if_pos ended]
    obtain ⟨restEnded, restNeighbors⟩ := ih
        (runLoop (helloBlockStep mem ver lq limit link) fuel
          { reading with curr := { reading.curr with pos := currSaved } }).1
    refine ⟨restEnded, ?_⟩
    rw [restNeighbors, neighbors, flatMap_cons, map_append, reverse_append, append_assoc]

end Blocks

section Cull

variable {others unspec : List (HelloNeighbor (IpAddr ver))}

private theorem foldl_cull (others unspec : List (HelloNeighbor (IpAddr ver))) :
    others.foldl (fun left neigh => left.filter fun cull => cull.address ≠ neigh.address) unspec =
      unspec.filter fun cull => ∀ neigh ∈ others, cull.address ≠ neigh.address := by
  induction others generalizing unspec with
  | nil => simp
  | cons first rest ih =>
    rw [foldl_cons, ih, filter_filter]
    apply filter_congr
    intro cull _
    simp [Bool.and_comm]

/-- Culling takes from the entries without a link type those whose address
has an entry with one. -/
theorem cullUnspec_append (typed : ∀ neigh ∈ others, neigh.link ≠ .unspec)
    (untyped : ∀ neigh ∈ unspec, neigh.link = .unspec) : cullUnspec (others ++ unspec) =
      others ++ unspec.filter fun cull => ∀ neigh ∈ others, cull.address ≠ neigh.address := by
  have typedTest : ∀ neigh ∈ others, decide (neigh.link ≠ .unspec) = true :=
    fun neigh member => decide_eq_true (typed neigh member)
  have taken : unspec.takeWhile (fun neigh => neigh.link ≠ .unspec) = [] := by
    cases unspec with
    | nil => rfl
    | cons first rest =>
      apply takeWhile_cons_of_neg
      simp [untyped first mem_cons_self]
  have dropped : unspec.dropWhile (fun neigh => neigh.link ≠ .unspec) = unspec := by
    cases unspec with
    | nil => rfl
    | cons first rest =>
      apply dropWhile_cons_of_neg
      simp [untyped first mem_cons_self]
  unfold cullUnspec
  dsimp only
  rw [takeWhile_append_of_pos typedTest,
    dropWhile_append_of_pos typedTest, taken, dropped, append_nil, foldl_cull]

end Cull

section Decoded

variable {lq : Option LqHandler} {records : List (HelloRecord ver (lqLength lq))}

def decodedNeighbors (lq : Option LqHandler) (records : List (HelloRecord ver (lqLength lq))) :
    List (HelloNeighbor (IpAddr ver)) :=
  cullUnspec ((grouped HelloRecord.linkType LinkType.order records).map (decodeNeighbor lq)).reverse

/-- A record without a link type whose address has another record with
one. -/
def isCulled {lqSize : Nat} (records : List (HelloRecord ver lqSize))
    (record : HelloRecord ver lqSize) : Bool :=
  record.linkType = .unspec ∧ ∃ other ∈ records, other.linkType ≠ .unspec ∧ other.addr = record.addr

/-- The pass for `UNSPEC_LINK` comes first, so its entries end the list. -/
theorem decodedNeighbors_eq : decodedNeighbors lq records =
      let typed :=
        ((grouped HelloRecord.linkType [.lost, .asym, .sym] records).map
          (decodeNeighbor lq)).reverse
      typed ++
        (((records.filter fun record => record.linkType = .unspec).map
            (decodeNeighbor lq)).reverse.filter fun cull =>
          ∀ neigh ∈ typed, cull.address ≠ neigh.address) := by
  have passes : grouped HelloRecord.linkType LinkType.order records =
        (records.filter fun record => record.linkType = .unspec) ++
          grouped HelloRecord.linkType [.lost, .asym, .sym] records :=
    flatMap_cons
  rw [decodedNeighbors, passes, map_append, reverse_append]
  apply cullUnspec_append
  · intro other member
    rw [mem_reverse, mem_map] at member
    obtain ⟨record, inGroups, rfl⟩ := member
    change record.linkType ≠ .unspec
    intro isUnspec
    have inLinks := (mem_grouped.mp inGroups).2
    rw [isUnspec] at inLinks
    exact absurd inLinks (by decide)
  · intro other member
    rw [mem_reverse, mem_map] at member
    obtain ⟨record, inPass, rfl⟩ := member
    change record.linkType = .unspec
    simpa using (mem_filter.mp inPass).2

private theorem mem_order_iff (link : LinkType) :
    link ∈ [LinkType.lost, .asym, .sym] ↔ link ∈ LinkType.order ∧ link ≠ .unspec := by
  cases link <;> decide

/-- The decoded neighbours are the records that are not culled, each once. -/
theorem decodedNeighbors_perm (listable : ∀ record ∈ records, record.linkType ∈ LinkType.order) :
    (decodedNeighbors lq records).Perm
      ((records.filter fun record => ¬ isCulled records record).map (decodeNeighbor lq)) := by
  have typedPerm : (grouped HelloRecord.linkType [.lost, .asym, .sym] records).Perm
        (records.filter fun record => record.linkType ≠ .unspec) := by
    have perm := grouped_perm_filter HelloRecord.linkType
        (show [LinkType.lost, .asym, .sym].Nodup by decide) records
    have same :
        (records.filter fun record =>
            record.linkType ∈ [LinkType.lost, .asym, .sym]) =
          records.filter fun record => record.linkType ≠ .unspec := by
      apply filter_congr
      intro record member
      rw [decide_eq_decide, mem_order_iff]
      exact and_iff_right (listable record member)
    rwa [same] at perm
  have typedIff : ∀ address,
        (∀ neigh ∈
            ((grouped HelloRecord.linkType [.lost, .asym, .sym] records).map
              (decodeNeighbor lq)).reverse,
          address ≠ neigh.address) ↔
          ¬ ∃ other ∈ records, other.linkType ≠ .unspec ∧ other.addr = address := by
    intro address
    constructor
    · rintro apart ⟨other, member, isTyped, rfl⟩
      refine apart (decodeNeighbor lq other) ?_ rfl
      rw [mem_reverse]
      refine mem_map_of_mem (typedPerm.mem_iff.mpr ?_)
      exact mem_filter.mpr ⟨member, decide_eq_true isTyped⟩
    · intro unshadowed neigh member isAddr
      rw [mem_reverse, mem_map] at member
      obtain ⟨other, inGroups, rfl⟩ := member
      obtain ⟨inRecords, isTyped⟩ := mem_filter.mp (typedPerm.mem_iff.mp inGroups)
      exact unshadowed ⟨other, inRecords, of_decide_eq_true isTyped, isAddr.symm⟩
  have split := filter_append_perm
      (fun record : HelloRecord ver (lqLength lq) => decide (record.linkType ≠ .unspec))
      (records.filter fun record => ¬ isCulled records record)
  have typedPart : (records.filter fun record => ¬ isCulled records record).filter
          (fun record => decide (record.linkType ≠ .unspec)) =
        records.filter fun record => record.linkType ≠ .unspec := by
    rw [filter_filter]
    apply filter_congr
    intro record _
    by_cases isTyped : record.linkType = .unspec
    · simp [isTyped]
    · simp [isTyped, isCulled]
  have untypedPart :
      ((records.filter fun record => record.linkType = .unspec).filter
          ((fun cull : HelloNeighbor (IpAddr ver) =>
            decide
              (∀ neigh ∈
                ((grouped HelloRecord.linkType [.lost, .asym, .sym]
                    records).map (decodeNeighbor lq)).reverse,
                cull.address ≠ neigh.address)) ∘ decodeNeighbor lq)) =
        (records.filter fun record => ¬ isCulled records record).filter
          (fun record => !decide (record.linkType ≠ .unspec)) := by
    rw [filter_filter, filter_filter]
    apply filter_congr
    intro record _
    have unshadowed := typedIff record.addr
    by_cases isTyped : record.linkType = .unspec
    · have culled : isCulled records record =
            decide (∃ other ∈ records, other.linkType ≠ .unspec ∧ other.addr = record.addr) := by
        simp [isCulled, isTyped]
      rw [Function.comp_apply, culled]
      simp only [decodeNeighbor, isTyped, unshadowed]
      simp
    · simp [isTyped]
  rw [typedPart, ← untypedPart] at split
  rw [decodedNeighbors_eq]
  dsimp only
  rw [filter_reverse, filter_map]
  refine List.Perm.trans ?_ (split.map (decodeNeighbor lq))
  rw [map_append]
  exact ((reverse_perm _).trans (typedPerm.map _)).append (reverse_perm _)

end Decoded

/-- `deserialize_hello` returns this message. -/
def Decodes (handler : LqHandler) (mem : Memory) (msg : HelloMessage (IpAddr ver)) : Prop :=
  ∃ fuel, (deserializeHello mem ver handler fuel).message = some msg

/-- A decoded message has these header fields and the neighbours of these
records. -/
structure DecodedAs (lq : Option LqHandler) (willingness : UInt8) (qos isHead : Nat)
    (records : List (HelloRecord ver (lqLength lq)))
    (decoded : HelloMessage (IpAddr ver)) : Prop where
  willingness_eq : decoded.willingness = willingness
  qos_eq : decoded.qos = qos % 0x10000
  isHead_eq : decoded.isHead = isHead % 0x100
  neighbors_eq : decoded.neighbors = decodedNeighbors lq records

section Messages

variable {handler : LqHandler} {mem : Memory}

theorem Decodes.unique
    {first second : HelloMessage (IpAddr ver)} (decodesFirst : Decodes handler mem first)
    (decodesSecond : Decodes handler mem second) : first = second := by
  obtain ⟨fuel, isFirst⟩ := decodesFirst
  obtain ⟨more, isSecond⟩ := decodesSecond
  by_cases accepted : IsHello mem
  · have same : ∀ {low high : Nat} {decoded : HelloMessage (IpAddr ver)}, low ≤ high →
          (deserializeHello mem ver handler low).message = some decoded →
          (deserializeHello mem ver handler high).message = some decoded := by
      intro low high decoded enough isDecoded
      rw [deserializeHello_of_isHello ver handler accepted] at isDecoded ⊢
      have ended : (helloPasses mem ver handler low).2 = true := by
        by_contra running
        rw [concludeHello] at isDecoded
        rw [if_neg running] at isDecoded
        cases isDecoded
      rw [helloPasses, runHelloPasses_eq_of_ended mem ver _ _ _ enough ended]
      exact isDecoded
    rcases Nat.le_total fuel more with enough | enough
    · exact Option.some.inj ((same enough isFirst).symm.trans isSecond)
    · exact Option.some.inj (isFirst.symm.trans (same enough isSecond))
  · rw [deserializeHello_of_not_isHello ver handler accepted] at isFirst
    cases isFirst

theorem readHelloHeader_fields (mem : Memory) (ver : IpVersion) : let header :=
      (readHelloHeader mem ver (Cursor.start.read 1)).1.2
    header.willingness = mem (commonSize ver + 3) ∧ header.qos =
        (mem (commonSize ver + 5)).toNat * 256 + (mem (commonSize ver + 4)).toNat ∧
      header.isHead = (mem (commonSize ver + 6)).toNat := by
  have atQos : (readHelloHeader mem ver (Cursor.start.read 1)).1.2.qos =
        ((mem (commonSize ver + 5)).toNat <<< 8) |||
          ((mem (commonSize ver + 4)).toNat &&& 0xff) := by
    cases ver <;> rfl
  refine ⟨by cases ver <;> rfl, ?_, by cases ver <;> rfl⟩
  have low := (mem (commonSize ver + 4)).toNat_lt
  rw [atQos, Nat.and_two_pow_sub_one_eq_mod _ 8, Nat.mod_eq_of_lt low,
    ← Nat.shiftLeft_add_eq_or_of_lt low, Nat.shiftLeft_eq]

variable {htime willingness : UInt8} {qos isHead : Nat}

private theorem readHelloHeader_carried
    (carried : Carries mem (commonSize ver) (helloHeaderBytes htime willingness qos isHead)) :
    let header := (readHelloHeader mem ver (Cursor.start.read 1)).1.2
    header.willingness = willingness ∧ header.qos = qos % 0x10000 ∧
      header.isHead = isHead % 0x100 := by
  obtain ⟨-, -, -, isWillingness, lowQos, highQos, lowHead, -, -⟩ := carried
  obtain ⟨atWillingness, atQos, atHead⟩ := readHelloHeader_fields mem ver
  refine ⟨atWillingness.trans isWillingness, ?_, ?_⟩
  · rw [atQos, lowQos, highQos, UInt8.toNat_ofNat', UInt8.toNat_ofNat']
    omega
  · rw [atHead, lowHead, UInt8.toNat_ofNat']

theorem Decodes.header_eq {decoded : HelloMessage (IpAddr ver)}
    (decodes : Decodes handler mem decoded) :
    let header := (readHelloHeader mem ver (Cursor.start.read 1)).1.2
    decoded.willingness = header.willingness ∧ decoded.qos = header.qos ∧
      decoded.isHead = header.isHead := by
  obtain ⟨fuel, isDecoded⟩ := decodes
  by_cases accepted : IsHello mem
  · rw [deserializeHello_of_isHello ver handler accepted, concludeHello] at isDecoded
    split at isDecoded
    · cases isDecoded
      exact ⟨rfl, rfl, rfl⟩
    · cases isDecoded
  · rw [deserializeHello_of_not_isHello ver handler accepted] at isDecoded
    cases isDecoded

/-- A message of blocks that has arrived is decoded to its records. -/
theorem decodes_of_carried {comm : OlsrCommon ver} {lq : Option LqHandler}
    (isType : comm.type =
        match lq with
        | none => helloMessage
        | some _ => lqHelloMessage)
    (isHandler : ∀ other, lq = some other → other = handler)
    {blocks : List (HelloBlock ver (lqLength lq))} {msg : List UInt8}
    (isMsg : IsMessage comm
        (helloHeaderBytes htime willingness qos isHead ++ blocksBytes blocks) msg)
    (carried : Carries mem 0 msg) :
    ∃ decoded, Decodes handler mem decoded ∧
        DecodedAs lq willingness qos isHead (blocksRecords blocks) decoded := by
  obtain ⟨short, seqno, rfl⟩ := isMsg
  obtain ⟨type, size, carriedBody⟩ :=
    carries_commonBytes carried (Nat.lt_of_le_of_lt short (by decide))
  obtain ⟨carriedHeader, carriedBlocks⟩ := carries_append.mp carriedBody
  have headerLength : (helloHeaderBytes htime willingness qos isHead).length = 8 := rfl
  have offset : commonSize ver + 8 = 16 + ver.ipsize := by
    rw [commonSize]
    omega
  rw [headerLength, offset] at carriedBlocks
  have isLength : commonSize ver +
          (helloHeaderBytes htime willingness qos isHead ++ blocksBytes blocks).length =
        16 + ver.ipsize + (blocksBytes blocks).length := by
    rw [length_append, headerLength]
    omega
  rw [isLength] at short
  have accepted : IsHello mem := by
    rw [IsHello, type, isType]
    cases lq with
    | none => exact Or.inl rfl
    | some _ => exact Or.inr rfl
  have isLq : helloLq mem handler = lq := by
    rw [helloLq, type, isType]
    cases lq with
    | none => rfl
    | some other =>
      rw [isHandler other rfl]
      rfl
  obtain ⟨ended, neighbors⟩ := runHelloPasses_carried lq LinkType.order blocks
      ⟨⟨16 + ver.ipsize, 15 + ver.ipsize⟩, []⟩
      (size.trans isLength) (by omega) carriedBlocks
      (Nat.lt_succ_self blocks.length)
  have isPasses : helloPasses mem ver handler (blocks.length + 1) =
        runHelloPasses mem ver lq (readU16 mem 2)
          (16 + ver.ipsize) (blocks.length + 1) LinkType.order
          ⟨⟨16 + ver.ipsize, 15 + ver.ipsize⟩, []⟩ := by
    rw [helloPasses, isLq]
  rw [← isPasses] at ended neighbors
  obtain ⟨isWillingness, isQos, isIsHead⟩ := readHelloHeader_carried carriedHeader
  refine
    ⟨{ (readHelloHeader mem ver (Cursor.start.read 1)).1.2 with
        neighbors := cullUnspec
            (helloPasses mem ver handler
              (blocks.length + 1)).1.neighbors },
      ⟨blocks.length + 1, ?_⟩, ⟨isWillingness, isQos, isIsHead, ?_⟩⟩
  · rw [deserializeHello_of_isHello ver handler accepted, concludeHello]
    exact if_pos ended
  · dsimp only
    rw [neighbors, append_nil]
    rfl

end Messages

end QosOlsr
