import QosOlsr.Library.Loop
import QosOlsr.OutputBuffer
import QosOlsr.Protocol

/-!
# The blocks of a HELLO

The senders of HELLO and LQ_HELLO messages write the neighbours group by
group, with an info header for each group.  When the output buffer is full the
message is sent and the group goes on in the next one.  The two senders share
one loop here.
-/

namespace QosOlsr

open Library List Option

variable {ver : IpVersion} {lqSize : Nat}

/-- One listed neighbour: `struct lq_hello_neighbor` or
`struct hello_neighbor`, with the bytes of its link quality as they are
sent. -/
structure HelloRecord (ver : IpVersion) (lqSize : Nat) where
  linkType : LinkType
  neighType : NeighType
  addr : IpAddr ver
  linkquality : List UInt8
  length_eq : linkquality.length = lqSize
  deriving DecidableEq

structure HelloHead (ver : IpVersion) where
  comm : OlsrCommon ver
  bytes : List UInt8

/-- The local variables of a sender: `rem` is what the output buffer leaves
for the blocks, `buff` holds them, and `infoHead` is the offset of the last
info header in it. -/
structure HelloState where
  outif : Outif
  rem : Int
  buff : List UInt8
  infoHead : Option Nat
  isFirst : Bool

def helloGroups : List (NeighType × LinkType) := NeighType.order ×ˢ LinkType.order

/-- `info_head->size = ntohs(buff + size - info_head)`. -/
def writeInfoSize (buff : List UInt8) (infoHead : Nat) : List UInt8 :=
  buff.take (infoHead + 2) ++ u16Bytes (buff.length - infoHead) ++ buff.drop (infoHead + 4)

/-- A 16-bit field that is written in the order of a little-endian host. -/
def hostU16Bytes (value : Nat) : List UInt8 := [UInt8.ofNat value, UInt8.ofNat (value / 256)]

def helloHeaderBytes (htime willingness : UInt8) (qos isHead : Nat) : List UInt8 :=
  [0, 0, htime, willingness] ++ hostU16Bytes qos ++ hostU16Bytes isHead

section Writer

def HelloRecord.group (record : HelloRecord ver lqSize) : NeighType × LinkType :=
  (record.neighType, record.linkType)

def HelloRecord.bytes (record : HelloRecord ver lqSize) : List UInt8 :=
  record.addr.bytes ++ record.linkquality

/-- `ipsize + olsr_sizeof_hello_lqdata()`. -/
def helloRecordSize (ver : IpVersion) (lqSize : Nat) : Nat := ver.ipsize + lqSize

def HelloHead.size (head : HelloHead ver) : Nat := commonSize ver + head.bytes.length

def HelloHead.push (head : HelloHead ver) (buff : List UInt8) (outif : Outif) : Outif :=
  pushMessage head.comm (head.bytes ++ buff) outif

/-- Write a record, behind a new info header when it is the first one.  The
size in the header is not known yet. -/
def writeHelloRecord (group : NeighType × LinkType) (record : HelloRecord ver lqSize)
    (st : HelloState) : HelloState :=
  let opened :=
    if st.isFirst then
      { st with
        infoHead := some st.buff.length
        buff := st.buff ++
            [UInt8.ofNat (createLinkCode group.1 group.2), 0, 0, 0] }
    else
      st
  { opened with
    buff := opened.buff ++ record.bytes
    isFirst := false }

variable (makeRoom : HelloState → Option HelloState)

def addHelloRecord (group : NeighType × LinkType)
    (st : HelloState) (record : HelloRecord ver lqSize) : Option HelloState :=
  if record.neighType ≠ group.1 ∨ record.linkType ≠ group.2 then
    some st
  else do
    let ready ← makeRoom st
    return writeHelloRecord group record ready

def finishGroup (st : HelloState) : HelloState :=
  match st.isFirst, st.infoHead with
  | false, some infoHead => { st with buff := writeInfoSize st.buff infoHead }
  | _, _ => st

def addHelloGroup
    (records : List (HelloRecord ver lqSize)) (st : HelloState)
    (group : NeighType × LinkType) : Option HelloState := do
  let filled ← records.foldlM (addHelloRecord makeRoom group) { st with isFirst := true }
  return finishGroup filled

end Writer

/-! ## The messages as blocks -/

structure HelloBlock (ver : IpVersion) (lqSize : Nat) where
  group : NeighType × LinkType
  records : List (HelloRecord ver lqSize)
  group_mem : group ∈ helloGroups
  uniform : ∀ record ∈ records, record.group = group

section Blocks

section

variable (block : HelloBlock ver lqSize)

def HelloBlock.code : List UInt8 := [UInt8.ofNat (createLinkCode block.group.1 block.group.2), 0]

def HelloBlock.recordBytes : List UInt8 := block.records.flatMap HelloRecord.bytes

def HelloBlock.bytes : List UInt8 :=
  block.code ++ u16Bytes (4 + block.recordBytes.length) ++ block.recordBytes

variable (blocks : List (HelloBlock ver lqSize))

def blocksBytes : List UInt8 := blocks.flatMap HelloBlock.bytes

def blocksRecords : List (HelloRecord ver lqSize) := blocks.flatMap HelloBlock.records

def HelloBlock.single (record : HelloRecord ver lqSize) (listed : record.group ∈ helloGroups) :
    HelloBlock ver lqSize where
  group := record.group
  records := [record]
  group_mem := listed
  uniform := by
    intro other member
    rw [mem_singleton.mp member]

def HelloBlock.add (record : HelloRecord ver lqSize)
    (same : record.group = block.group) : HelloBlock ver lqSize :=
  { block with
    records := block.records ++ [record]
    uniform := by
      intro other member
      rcases mem_append.mp member with older | new
      · exact block.uniform other older
      · rw [mem_singleton.mp new]
        exact same }

end

/-- The buffer holds these blocks, except that the size of the last one may
not be filled in. -/
structure OpenAt (buff : List UInt8) (infoHead : Nat) (front : List (HelloBlock ver lqSize))
    (last : HelloBlock ver lqSize) : Prop where
  infoHead_eq : infoHead = (blocksBytes front).length
  buff_eq : ∃ high low, buff = blocksBytes front ++ (last.code ++ [high, low]) ++ last.recordBytes

variable {buff : List UInt8} {infoHead : Nat} {front : List (HelloBlock ver lqSize)}
  {last : HelloBlock ver lqSize}

theorem blocksBytes_concat (front : List (HelloBlock ver lqSize)) (last : HelloBlock ver lqSize) :
    blocksBytes (front ++ [last]) = blocksBytes front ++ last.bytes := by
  simp [blocksBytes]

theorem blocksRecords_concat (front : List (HelloBlock ver lqSize)) (last : HelloBlock ver lqSize) :
    blocksRecords (front ++ [last]) = blocksRecords front ++ last.records := by
  simp [blocksRecords]

theorem HelloRecord.bytes_length (record : HelloRecord ver lqSize) :
    record.bytes.length = helloRecordSize ver lqSize := by
  rw [HelloRecord.bytes, length_append, record.addr.length_eq, record.length_eq, helloRecordSize]

theorem OpenAt.writeInfoSize_eq (opened : OpenAt buff infoHead front last) :
    writeInfoSize buff infoHead = blocksBytes (front ++ [last]) := by
  obtain ⟨rfl, high, low, rfl⟩ := opened
  have codeLength : last.code.length = 2 := rfl
  have size :
      (blocksBytes front ++ (last.code ++ [high, low]) ++
            last.recordBytes).length - (blocksBytes front).length =
        4 + last.recordBytes.length := by
    simp only [length_append, codeLength, length_cons, length_nil]
    omega
  have before :
      (blocksBytes front ++ (last.code ++ [high, low]) ++
          last.recordBytes).take ((blocksBytes front).length + 2) =
        blocksBytes front ++ last.code := by
    simp only [append_assoc]
    rw [← append_assoc]
    exact take_left' (by rw [length_append, codeLength])
  have behind :
      (blocksBytes front ++ (last.code ++ [high, low]) ++
          last.recordBytes).drop ((blocksBytes front).length + 4) =
        last.recordBytes := by
    exact drop_left'
        (by
          simp only [length_append, codeLength, length_cons, length_nil])
  rw [writeInfoSize, size, before, behind, blocksBytes_concat, HelloBlock.bytes]
  simp only [append_assoc]

theorem OpenAt.length_eq (opened : OpenAt buff infoHead front last) :
    buff.length = (blocksBytes (front ++ [last])).length := by
  obtain ⟨-, high, low, rfl⟩ := opened
  simp only [blocksBytes_concat, HelloBlock.bytes, length_append, u16Bytes, length_cons, length_nil]
  omega

private theorem openAt_complete
    (front : List (HelloBlock ver lqSize)) (last : HelloBlock ver lqSize) :
    OpenAt (blocksBytes (front ++ [last])) (blocksBytes front).length front last := by
  refine ⟨rfl, UInt8.ofNat ((4 + last.recordBytes.length) / 256),
      UInt8.ofNat (4 + last.recordBytes.length), ?_⟩
  rw [blocksBytes_concat, HelloBlock.bytes]
  simp only [append_assoc]
  rfl

variable {record : HelloRecord ver lqSize}

theorem OpenAt.add (opened : OpenAt buff infoHead front last) (same : record.group = last.group) :
    OpenAt (buff ++ record.bytes) infoHead front (last.add record same) := by
  obtain ⟨offset, high, low, rfl⟩ := opened
  refine ⟨offset, high, low, ?_⟩
  simp [HelloBlock.add, HelloBlock.code, HelloBlock.recordBytes]

end Blocks

/-- What holds while a group is written: `fragments` have been sent, `blocks`
are in the buffer, and together they hold the records `listed`. -/
structure HelloWriting {ver : IpVersion} {lqSize : Nat} (head : HelloHead ver) (outif : Outif)
    (group : NeighType × LinkType) (st : HelloState)
    (fragments : List (List (HelloBlock ver lqSize))) (messages : List (List UInt8))
    (blocks : List (HelloBlock ver lqSize)) (listed : List (HelloRecord ver lqSize)) : Prop where
  rem_eq : st.rem = netOutbufferBytesLeft st.outif - head.size
  fits : (st.buff.length : Int) ≤ st.rem
  complete : st.isFirst = true → st.buff = blocksBytes blocks
  opened : ∀ {front last}, blocks = front ++ [last] →
      ∃ infoHead, st.infoHead = some infoHead ∧ OpenAt st.buff infoHead front last
  current : st.isFirst = false → ∃ front last, blocks = front ++ [last] ∧ last.group = group
  sent : List.Forall₂
      (fun blocks msg => IsMessage head.comm (head.bytes ++ blocksBytes blocks) msg)
      fragments messages
  emits : Emits outif messages st.outif
  idle : blocks = [] → st.infoHead = none ∨ st.outif.pending = 0
  records_eq : blocksRecords (fragments.flatten ++ blocks) = listed

section Loops

variable {head : HelloHead ver} {outif : Outif} {group : NeighType × LinkType} {st : HelloState}
  {fragments : List (List (HelloBlock ver lqSize))} {messages : List (List UInt8)}
  {blocks : List (HelloBlock ver lqSize)} {listed : List (HelloRecord ver lqSize)}

/-- The records `listed` are sent or in the buffer. -/
def Writes (head : HelloHead ver) (outif : Outif) (group : NeighType × LinkType)
    (listed : List (HelloRecord ver lqSize)) (st : HelloState) : Prop :=
  ∃ fragments messages blocks, HelloWriting head outif group st fragments messages blocks listed

/-- The next record fits, with a new info header if it needs one. -/
def HasRoom (ver : IpVersion) (lqSize : Nat) (st : HelloState) : Prop :=
  ((st.buff.length +
      (helloRecordSize ver lqSize +
        if st.isFirst then 4 else 0) : Nat) : Int) ≤ st.rem

theorem HelloWriting.buff_eq_nil
    (writing : HelloWriting head outif group st fragments messages
        ([] : List (HelloBlock ver lqSize)) listed) :
    st.isFirst = true ∧ st.buff = [] := by
  cases first : st.isFirst with
  | true => exact ⟨rfl, writing.complete first⟩
  | false =>
    obtain ⟨front, last, no, -⟩ := writing.current first
    simp at no

theorem HelloWriting.push
    (writing : HelloWriting head outif group st fragments messages blocks listed) :
    ∃ msg, List.Forall₂
          (fun blocks msg => IsMessage head.comm (head.bytes ++ blocksBytes blocks) msg)
          (fragments ++ [blocks]) (messages ++ [msg]) ∧
        Emits outif (messages ++ [msg]) (head.push (blocksBytes blocks) st.outif) := by
  have length : (blocksBytes blocks).length = st.buff.length := by
    rcases eq_nil_or_concat blocks with rfl | ⟨front, last, rfl⟩
    · rw [writing.buff_eq_nil.2]
      rfl
    · rw [concat_eq_append] at writing ⊢
      obtain ⟨infoHead, -, isOpen⟩ := writing.opened rfl
      exact isOpen.length_eq.symm
  have fits :
      ((commonSize ver + (head.bytes ++ blocksBytes blocks).length :
          Nat) : Int) ≤ netOutbufferBytesLeft st.outif := by
    have left := writing.fits
    rw [writing.rem_eq, HelloHead.size] at left
    rw [length_append, length]
    push_cast at left ⊢
    omega
  refine ⟨_, rel_append writing.sent (List.Forall₂.cons ?_ .nil),
      Emits.push head.comm _ writing.emits fits⟩
  refine ⟨?_, st.outif.messageSeqno, rfl⟩
  rw [netOutbufferBytesLeft, le_min_iff] at fits
  omega

theorem netOutbufferBytesLeft_netOutput (target : Outif) :
    netOutbufferBytesLeft (netOutput target) = min 1228 (target.maxsize : Int) := by
  change min 1228 ((target.maxsize : Int) - 0) = _
  rw [sub_zero]

theorem HelloWriting.flush
    (writing : HelloWriting head outif group st fragments messages blocks listed)
    (infoHead : Option Nat) (capacity : head.size ≤ min 1228 outif.maxsize) :
    Writes head outif group listed
      { outif := netOutput (head.push (blocksBytes blocks) st.outif)
        rem :=
          netOutbufferBytesLeft (netOutput (head.push (blocksBytes blocks) st.outif)) - head.size
        buff := []
        infoHead := infoHead
        isFirst := true } := by
  obtain ⟨msg, sent, emits⟩ := writing.push
  refine ⟨fragments ++ [blocks], messages ++ [msg], [],
      { rem_eq := rfl
        fits := ?_
        complete := fun _ => rfl
        opened := fun no => by simp at no
        current := nofun
        sent := sent
        emits := emits.flush
        idle := fun _ => Or.inr rfl
        records_eq := ?_ }⟩
  · dsimp only
    rw [netOutbufferBytesLeft_netOutput, emits.maxsize_eq, length_nil]
    omega
  · rw [← writing.records_eq]
    simp

variable {record : HelloRecord ver lqSize}

private theorem HelloWriting.writeHelloRecord_writing
    (writing : HelloWriting head outif group st fragments messages blocks listed)
    (isGroup : record.group = group) (inGroups : record.group ∈ helloGroups)
    (room : HasRoom ver lqSize st) :
    Writes head outif group (listed ++ [record]) (writeHelloRecord group record st) := by
  rw [HasRoom] at room
  cases first : st.isFirst with
  | true =>
    have written : writeHelloRecord group record st =
          { st with
            infoHead := some st.buff.length
            buff := st.buff ++ [UInt8.ofNat (createLinkCode group.1 group.2), 0, 0, 0] ++
                record.bytes
            isFirst := false } := by
      simp [writeHelloRecord, first]
    rw [written]
    rw [first, if_pos rfl] at room
    refine ⟨fragments, messages, blocks ++ [HelloBlock.single record inGroups],
        { rem_eq := writing.rem_eq
          fits := ?_
          complete := nofun
          opened := ?_
          current := fun _ => ⟨_, _, rfl, isGroup⟩
          sent := writing.sent
          emits := writing.emits
          idle := fun no => by simp at no
          records_eq := ?_ }⟩
    · simp only [length_append, HelloRecord.bytes_length, length_cons, length_nil]
      omega
    · intro front last split
      obtain ⟨rfl, isLast⟩ := append_inj' split rfl
      cases isLast
      refine ⟨_, rfl, ?_⟩
      rw [writing.complete first, ← isGroup]
      refine ⟨rfl, 0, 0, ?_⟩
      simp [HelloBlock.single, HelloBlock.code, HelloBlock.recordBytes]
    · rw [← writing.records_eq, ← append_assoc, blocksRecords_concat]
      rfl
  | false =>
    obtain ⟨front, last, rfl, isLast⟩ := writing.current first
    obtain ⟨infoHead, isInfoHead, isOpen⟩ := writing.opened rfl
    have written : writeHelloRecord group record st =
          { st with buff := st.buff ++ record.bytes } := by
      simp [writeHelloRecord, first]
    rw [written]
    rw [first] at room
    have same : record.group = last.group := isGroup.trans isLast.symm
    refine ⟨fragments, messages, front ++ [last.add record same],
        { rem_eq := writing.rem_eq
          fits := ?_
          complete := fun no => ?_
          opened := ?_
          current := fun _ => ⟨_, _, rfl, isLast⟩
          sent := writing.sent
          emits := writing.emits
          idle := fun no => by simp at no
          records_eq := ?_ }⟩
    · rw [length_append, HelloRecord.bytes_length]
      simpa using room
    · dsimp only at no
      rw [first] at no
      cases no
    · intro otherFront otherLast split
      obtain ⟨rfl, isOther⟩ := append_inj' split rfl
      cases isOther
      exact ⟨infoHead, isInfoHead, isOpen.add same⟩
    · rw [← writing.records_eq, ← append_assoc, ← append_assoc,
        blocksRecords_concat, blocksRecords_concat, append_assoc]
      rfl

def MakesRoom (head : HelloHead ver) (lqSize : Nat) (outif : Outif)
    (makeRoom : HelloState → Option HelloState) : Prop :=
  ∀ {group : NeighType × LinkType} {st ready : HelloState}
    {listed : List (HelloRecord ver lqSize)},
    Writes head outif group listed st → makeRoom st = some ready →
      Writes head outif group listed ready ∧ HasRoom ver lqSize ready

variable {makeRoom : HelloState → Option HelloState} {next : HelloState}

private theorem Writes.addHelloRecord_writes (writes : Writes head outif group listed st)
    (makes : MakesRoom head lqSize outif makeRoom)
    (inGroups : record.group = group → group ∈ helloGroups)
    (taken : addHelloRecord makeRoom group st record = some next) :
    Writes head outif group
      (listed ++ [record].filter fun record => record.group = group) next := by
  by_cases isGroup : record.group = group
  · have own : ¬ (record.neighType ≠ group.1 ∨ record.linkType ≠ group.2) := by
      rw [← isGroup]
      simp [HelloRecord.group]
    rw [addHelloRecord, if_neg own] at taken
    obtain ⟨ready, made, written⟩ := bind_eq_some_iff.mp taken
    obtain ⟨⟨fragments, messages, blocks, writing⟩, room⟩ := makes writes made
    rw [filter_cons_of_pos (by simpa using isGroup), ← some.inj written]
    apply writing.writeHelloRecord_writing isGroup _ room
    rw [isGroup]
    exact inGroups isGroup
  · have other : record.neighType ≠ group.1 ∨ record.linkType ≠ group.2 := by
      by_contra both
      rw [not_or, not_not, not_not] at both
      exact isGroup (Prod.ext both.1 both.2)
    rw [addHelloRecord, if_pos other] at taken
    rw [filter_cons_of_neg (by simpa using isGroup), filter_nil, append_nil, ← some.inj taken]
    exact writes

theorem HelloWriting.finishGroup_writing
    (writing : HelloWriting head outif group st fragments messages blocks listed)
    (nextGroup : NeighType × LinkType) :
    HelloWriting head outif nextGroup
      { finishGroup st with isFirst := true } fragments messages blocks
      listed := by
  cases first : st.isFirst with
  | true =>
    have unchanged : finishGroup st = st := by rw [finishGroup, first]
    rw [unchanged]
    exact
      { writing with
        complete := fun _ => writing.complete first
        current := nofun }
  | false =>
    obtain ⟨front, last, rfl, -⟩ := writing.current first
    obtain ⟨infoHead, isInfoHead, isOpen⟩ := writing.opened rfl
    have ran : finishGroup st = { st with buff := blocksBytes (front ++ [last]) } := by
      rw [finishGroup, first, isInfoHead]
      dsimp only
      rw [isOpen.writeInfoSize_eq]
    rw [ran]
    refine
      { writing with
        fits := ?_
        complete := fun _ => rfl
        opened := ?_
        current := nofun }
    · dsimp only
      rw [← isOpen.length_eq]
      exact writing.fits
    · intro otherFront otherLast split
      obtain ⟨rfl, isOther⟩ := append_inj' split rfl
      cases isOther
      refine ⟨infoHead, isInfoHead, ?_⟩
      rw [isOpen.infoHead_eq]
      exact openAt_complete front last

def WritesGroups (head : HelloHead ver) (outif : Outif) (listed : List (HelloRecord ver lqSize))
    (st : HelloState) : Prop :=
  ∀ group, Writes head outif group listed { st with isFirst := true }

variable {records : List (HelloRecord ver lqSize)}

private theorem WritesGroups.addHelloGroup_writes (writes : WritesGroups head outif listed st)
    (makes : MakesRoom head lqSize outif makeRoom)
    (inGroups : ∀ record ∈ records, record.group = group → group ∈ helloGroups)
    (taken : addHelloGroup makeRoom records st group = some next) :
    WritesGroups head outif (listed ++ records.filter fun record => record.group = group) next := by
  obtain ⟨filled, run, ran⟩ := bind_eq_some_iff.mp taken
  have start : Writes head outif group (listed ++ [].filter fun record => record.group = group)
        { st with isFirst := true } := by
    rw [filter_nil, append_nil]
    exact writes group
  have kept : ∀ {visited : List (HelloRecord ver lqSize)}
        {record : HelloRecord ver lqSize} {st next : HelloState},
        record ∈ records →
        Writes head outif group (listed ++ visited.filter fun record => record.group = group) st →
        addHelloRecord makeRoom group st record = some next →
        Writes head outif group
          (listed ++ (visited ++ [record]).filter fun record => record.group = group)
          next := by
    intro visited record st next mem before step
    rw [filter_append, ← append_assoc]
    exact before.addHelloRecord_writes makes (inGroups record mem) step
  obtain ⟨fragments, messages, blocks, writing⟩ := foldlM_preserves
      (fun visited =>
        Writes head outif group (listed ++ visited.filter fun record => record.group = group))
      kept start run
  intro nextGroup
  cases ran
  exact ⟨fragments, messages, blocks, writing.finishGroup_writing nextGroup⟩

/-- The outer loops list the records of all groups in their order. -/
theorem foldlM_addHelloGroup_writes
    (makes : MakesRoom head lqSize outif makeRoom) {groups : List (NeighType × LinkType)}
    (inGroups : ∀ record ∈ records, record.group ∈ groups → record.group ∈ helloGroups)
    {start final : HelloState}
    (starts : WritesGroups head outif ([] : List (HelloRecord ver lqSize)) start)
    (run : groups.foldlM (addHelloGroup makeRoom records) start = some final) :
    WritesGroups head outif
      (groups.flatMap fun group => records.filter fun record => record.group = group)
      final := by
  have kept : ∀ {visited : List (NeighType × LinkType)}
        {group : NeighType × LinkType} {st next : HelloState},
        group ∈ groups →
        WritesGroups head outif
          (visited.flatMap fun group => records.filter fun record => record.group = group) st →
        addHelloGroup makeRoom records st group = some next →
        WritesGroups head outif
          ((visited ++ [group]).flatMap fun group =>
            records.filter fun record => record.group = group)
          next := by
    intro visited group st next mem before step
    rw [flatMap_append, flatMap_singleton]
    apply before.addHelloGroup_writes makes _ step
    rintro record inRecords rfl
    exact inGroups record inRecords mem
  exact foldlM_preserves
      (fun visited =>
        WritesGroups head outif
          (visited.flatMap fun group => records.filter fun record => record.group = group))
      kept starts run

theorem WritesGroups.push (writes : WritesGroups head outif listed st) : ∃ fragments messages,
      messages ≠ [] ∧ List.Forall₂
          (fun blocks msg => IsMessage head.comm (head.bytes ++ blocksBytes blocks) msg)
          fragments messages ∧
        Emits outif messages (head.push st.buff st.outif) ∧
        blocksRecords fragments.flatten = listed := by
  obtain ⟨fragments, messages, blocks, writing⟩ := writes (.notNeigh, .unspec)
  have isBuff : st.buff = blocksBytes blocks := writing.complete rfl
  obtain ⟨msg, sent, emits⟩ := writing.push
  refine ⟨fragments ++ [blocks], messages ++ [msg], by simp, sent, ?_, ?_⟩
  · rw [isBuff]
    exact emits
  · rw [flatten_concat]
    exact writing.records_eq

end Loops

end QosOlsr
