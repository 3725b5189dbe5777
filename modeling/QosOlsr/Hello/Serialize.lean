import QosOlsr.Hello.Create
import QosOlsr.Library.Grouping

/-!
# Sending LQ_HELLO messages

`serialize_lq_hello` of `lq_packet.c`.  With room for one record and its info
header in an empty output buffer it sends every entry that has a group, each
once.
-/

namespace QosOlsr

open Library List

variable {ver : IpVersion}

section

variable (hello : LqHelloMessage ver)

def lqHelloHeaderBytes : List UInt8 :=
  helloHeaderBytes hello.htime hello.will hello.qos hello.isHead

def lqHelloHead : HelloHead ver := ⟨hello.comm, lqHelloHeaderBytes hello⟩

/-- `off`: the common header and `struct lq_hello_header`. -/
def lqHelloHeaderSize (ver : IpVersion) : Nat := commonSize ver + 8

def helloBody (blocks : List (HelloBlock ver 4)) : List UInt8 :=
  lqHelloHeaderBytes hello ++ blocksBytes blocks

end

section Serialize

variable (hello : LqHelloMessage ver)

/-- Send the message when the next entry does not fit.  There is no next
state when `assert(info_head)` fails. -/
def makeLqRoom (st : HelloState) : Option HelloState :=
  let req := helloRecordSize ver 4 + if st.isFirst then 4 else 0
  if st.rem < ((st.buff.length + req : Nat) : Int) then
    match st.infoHead with
    | none => none
    | some infoHead =>
      let outif := netOutput ((lqHelloHead hello).push (writeInfoSize st.buff infoHead) st.outif)
      some
        { st with
          outif := outif
          rem := netOutbufferBytesLeft outif - lqHelloHeaderSize ver
          buff := []
          isFirst := true }
  else
    some st

/-- `expected_size` when the buffer is not empty. -/
def expectedHelloSize : Nat := hello.neigh.length * helloRecordSize ver 4 +
    4 * helloGroups.countP fun group =>
      hello.neigh.any fun neigh => neigh.group = group

/-- The state in front of the loops: a buffer in which the whole message does
not fit is sent first. -/
def startLqHello (outif : Outif) : HelloState :=
  let expectedSize :=
    if 0 < outif.pending then expectedHelloSize hello else 0
  let rem := netOutbufferBytesLeft outif - lqHelloHeaderSize ver
  let flushed := netOutput outif
  if rem < (expectedSize : Int) then
    { outif := flushed
      rem := netOutbufferBytesLeft flushed - lqHelloHeaderSize ver
      buff := []
      infoHead := none
      isFirst := true }
  else
    ⟨outif, rem, [], none, true⟩

/-- `serialize_lq_hello`: the outer loops go over the neighbour types and, in
`LINK_ORDER`, over the link types. -/
def serializeLqHello (outif : Outif) : Option Outif := do
  let final ←
    (NeighType.order ×ˢ LinkType.order).foldlM (addHelloGroup (makeLqRoom hello) hello.neigh)
      (startLqHello hello outif)
  return (lqHelloHead hello).push final.buff final.outif

end Serialize

section Total

variable {hello : LqHelloMessage ver} {outif : Outif} {st : HelloState}
  {group : NeighType × LinkType}

theorem makeLqRoom_of_hasRoom (room : HasRoom ver 4 st) : makeLqRoom hello st = some st :=
  if_neg (not_lt.mpr room)

theorem makeLqRoom_of_not_hasRoom (full : ¬ HasRoom ver 4 st) {infoHead : Nat}
    (isInfoHead : st.infoHead = some infoHead) :
    makeLqRoom hello st =
      let outif := netOutput ((lqHelloHead hello).push (writeInfoSize st.buff infoHead) st.outif)
      some
        { st with
          outif := outif
          rem := netOutbufferBytesLeft outif - lqHelloHeaderSize ver
          buff := []
          isFirst := true } := by
  refine (if_pos (not_le.mp full)).trans ?_
  rw [isInfoHead]

/-- An info header is there, or the buffer is empty and has room for the first
entry that is to be written. -/
def Ready (hello : LqHelloMessage ver) (st : HelloState) : Prop := st.infoHead = none →
    st.buff = [] ∧ st.isFirst = true ∧ ∀ neigh ∈ hello.neigh, neigh.group ∈ helloGroups →
        ((helloRecordSize ver 4 + 4 : Nat) : Int) ≤ st.rem

variable {neigh : LqHelloNeighbor ver}

private theorem Ready.makeLqRoom_ready (ready : Ready hello st) (mem : neigh ∈ hello.neigh)
    (inGroups : neigh.group ∈ helloGroups) :
    ∃ roomy, makeLqRoom hello st = some roomy ∧ (roomy.infoHead = none → roomy.isFirst = true) := by
  cases isInfoHead : st.infoHead with
  | none =>
    obtain ⟨empty, first, room⟩ := ready isInfoHead
    have hasRoom : HasRoom ver 4 st := by
      have := room neigh mem inGroups
      rw [HasRoom, empty, first, length_nil, if_pos rfl]
      omega
    exact ⟨st, makeLqRoom_of_hasRoom hasRoom, fun _ => first⟩
  | some infoHead =>
    by_cases room : HasRoom ver 4 st
    · refine ⟨st, makeLqRoom_of_hasRoom room, fun no => ?_⟩
      rw [isInfoHead] at no
      cases no
    · exact ⟨_, makeLqRoom_of_not_hasRoom room isInfoHead, fun _ => rfl⟩

theorem ready_of_infoHead (isInfoHead : st.infoHead ≠ none) : Ready hello st :=
  fun no => absurd no isInfoHead

private theorem Ready.addHelloRecord_ready (ready : Ready hello st) (inGroups : group ∈ helloGroups)
    (mem : neigh ∈ hello.neigh) :
    ∃ next, addHelloRecord (makeLqRoom hello) group st neigh = some next ∧ Ready hello next := by
  by_cases other : neigh.neighType ≠ group.1 ∨ neigh.linkType ≠ group.2
  · exact ⟨st, if_pos other, ready⟩
  · have isGroup : neigh.group = group := by
      rw [not_or, not_not, not_not] at other
      exact Prod.ext other.1 other.2
    obtain ⟨roomy, made, first⟩ := ready.makeLqRoom_ready mem (isGroup ▸ inGroups)
    refine ⟨writeHelloRecord group neigh roomy, ?_, ?_⟩
    · rw [addHelloRecord, if_neg other, made]
      rfl
    · apply ready_of_infoHead
      unfold writeHelloRecord
      cases isFirst : roomy.isFirst with
      | true => exact Option.some_ne_none _
      | false =>
        intro no
        have := first no
        rw [isFirst] at this
        cases this

private theorem Ready.addHelloGroup_ready (ready : Ready hello { st with isFirst := true })
    (inGroups : group ∈ helloGroups) :
    ∃ next, addHelloGroup (makeLqRoom hello) hello.neigh st group = some next ∧
        Ready hello { next with isFirst := true } := by
  obtain ⟨filled, run, filledReady⟩ := foldlM_invariant (fun _ => Ready hello)
      (fun mem before => before.addHelloRecord_ready inGroups mem)
      ready
  refine ⟨finishGroup filled, ?_, ?_⟩
  · rw [addHelloGroup, run]
    rfl
  · cases isInfoHead : filled.infoHead with
    | none =>
      have unchanged : finishGroup filled = filled := by
        rw [finishGroup, isInfoHead]
        cases filled.isFirst <;> rfl
      rw [unchanged]
      intro none
      obtain ⟨empty, -, room⟩ := filledReady isInfoHead
      exact ⟨empty, rfl, room⟩
    | some infoHead =>
      apply ready_of_infoHead
      have kept : (finishGroup filled).infoHead = filled.infoHead := by
        rw [finishGroup]
        split <;> rfl
      change (finishGroup filled).infoHead ≠ none
      rw [kept, isInfoHead]
      exact Option.some_ne_none _

private theorem le_expectedHelloSize
    (mem : neigh ∈ hello.neigh) (inGroups : neigh.group ∈ helloGroups) :
    helloRecordSize ver 4 + 4 ≤ expectedHelloSize hello := by
  have one : 1 ≤ hello.neigh.length := length_pos_of_mem mem
  have records : 1 * helloRecordSize ver 4 ≤ hello.neigh.length * helloRecordSize ver 4 :=
    Nat.mul_le_mul_right _ one
  have headers : 0 < helloGroups.countP fun group =>
        hello.neigh.any fun neigh => neigh.group = group := by
    rw [countP_pos_iff]
    refine ⟨neigh.group, inGroups, ?_⟩
    rw [any_eq_true]
    exact ⟨neigh, mem, by simp⟩
  rw [expectedHelloSize]
  omega

theorem startLqHello_cases (hello : LqHelloMessage ver) (outif : Outif) :
    startLqHello hello outif =
        ⟨netOutput outif, netOutbufferBytesLeft (netOutput outif) - lqHelloHeaderSize ver,
          [], none, true⟩ ∨
      startLqHello hello outif =
          ⟨outif, netOutbufferBytesLeft outif - lqHelloHeaderSize ver, [], none, true⟩ ∧
        (0 < outif.pending → (expectedHelloSize hello : Int) ≤
            netOutbufferBytesLeft outif - lqHelloHeaderSize ver) ∧
        0 ≤ netOutbufferBytesLeft outif - lqHelloHeaderSize ver := by
  rw [startLqHello]
  generalize sized : (if 0 < outif.pending then expectedHelloSize hello else 0) = expectedSize
  by_cases short : netOutbufferBytesLeft outif - lqHelloHeaderSize ver < (expectedSize : Int)
  · exact Or.inl (if_pos short)
  · refine Or.inr ⟨if_neg short, fun waiting => ?_, ?_⟩
    · rw [if_pos waiting] at sized
      omega
    · omega

variable (hello) in
private theorem startLqHello_ready
    (capacity : lqHelloHeaderSize ver + (helloRecordSize ver 4 + 4) ≤ min 1228 outif.maxsize) :
    Ready hello { startLqHello hello outif with isFirst := true } := by
  have emptied := netOutbufferBytesLeft_netOutput outif
  intro _
  rcases startLqHello_cases hello outif with flushed | ⟨kept, expected, -⟩
  · rw [flushed]
    refine ⟨rfl, rfl, fun neigh _ _ => ?_⟩
    dsimp only
    rw [emptied]
    omega
  · rw [kept]
    refine ⟨rfl, rfl, fun neigh mem inGroups => ?_⟩
    dsimp only
    by_cases waiting : 0 < outif.pending
    · have := expected waiting
      have := le_expectedHelloSize mem inGroups
      omega
    · have idle : outif.pending = 0 := by omega
      rw [netOutbufferBytesLeft, idle]
      omega

end Total

section Messages

variable {hello : LqHelloMessage ver} {outif : Outif}

theorem lqHelloHead_size (hello : LqHelloMessage ver) :
    (lqHelloHead hello).size = lqHelloHeaderSize ver :=
  rfl

private theorem makeLqRoom_makesRoom
    (capacity : lqHelloHeaderSize ver + (helloRecordSize ver 4 + 4) ≤ min 1228 outif.maxsize) :
    MakesRoom (lqHelloHead hello) 4 outif (makeLqRoom hello) := by
  intro group st ready listed writes made
  by_cases room : HasRoom ver 4 st
  · rw [makeLqRoom_of_hasRoom room] at made
    cases made
    exact ⟨writes, room⟩
  · obtain ⟨parts, messages, blocks, writing⟩ := writes
    rcases eq_nil_or_concat blocks with rfl | ⟨front, last, rfl⟩
    · -- an empty buffer that was sent has room
      exfalso
      obtain ⟨first, empty⟩ := writing.buff_eq_nil
      rcases writing.idle rfl with noHead | idle
      · have failed : makeLqRoom hello st = none := by
          refine (if_pos (not_le.mp room)).trans ?_
          rw [noHead]
        rw [failed] at made
        cases made
      · apply room
        rw [HasRoom, writing.rem_eq, netOutbufferBytesLeft, idle,
          writing.emits.maxsize_eq, first, empty, length_nil, if_pos rfl, lqHelloHead_size]
        omega
    · rw [concat_eq_append] at writing
      obtain ⟨infoHead, isInfoHead, isOpen⟩ := writing.opened rfl
      rw [makeLqRoom_of_not_hasRoom room isInfoHead, isOpen.writeInfoSize_eq] at made
      cases made
      have fits : (lqHelloHead hello).size ≤ min 1228 outif.maxsize := by
        rw [lqHelloHead_size]
        omega
      refine ⟨writing.flush st.infoHead fits, ?_⟩
      obtain ⟨msg, -, emits⟩ := writing.push
      rw [HasRoom]
      dsimp only
      rw [netOutbufferBytesLeft_netOutput, emits.maxsize_eq, length_nil, if_pos rfl]
      omega

variable (hello)
  (capacity : lqHelloHeaderSize ver + (helloRecordSize ver 4 + 4) ≤ min 1228 outif.maxsize)
include capacity

private theorem startLqHello_writes : WritesGroups (lqHelloHead hello) outif
      ([] : List (LqHelloNeighbor ver)) (startLqHello hello outif) := by
  intro group
  rcases startLqHello_cases hello outif with flushed | ⟨kept, -, nonneg⟩
  · rw [flushed]
    refine ⟨[], [], [],
        { rem_eq := rfl
          fits := ?_
          complete := fun _ => rfl
          opened := fun no => by simp at no
          current := nofun
          sent := List.Forall₂.nil
          emits := Emits.start.flush
          idle := fun _ => Or.inl rfl
          records_eq := rfl }⟩
    dsimp only
    rw [netOutbufferBytesLeft_netOutput, length_nil]
    omega
  · rw [kept]
    exact ⟨[], [], [],
        { rem_eq := rfl
          fits := nonneg
          complete := fun _ => rfl
          opened := fun no => by simp at no
          current := nofun
          sent := List.Forall₂.nil
          emits := Emits.start
          idle := fun _ => Or.inl rfl
          records_eq := rfl }⟩

theorem serializeLqHello_fragmented :
    ∃ sent parts messages, serializeLqHello hello outif = some sent ∧ List.Forall₂
          (fun blocks msg => IsMessage hello.comm (helloBody hello blocks) msg)
          parts messages ∧
        Emits outif messages sent ∧
        blocksRecords parts.flatten = grouped HelloRecord.group helloGroups hello.neigh := by
  obtain ⟨final, run, -⟩ := foldlM_invariant
      (fun _ (st : HelloState) => Ready hello { st with isFirst := true })
      (fun inGroups before => before.addHelloGroup_ready inGroups)
      (startLqHello_ready hello capacity)
  obtain ⟨parts, messages, -, sent, emits, records⟩ :=
    (foldlM_addHelloGroup_writes (makeLqRoom_makesRoom capacity)
      (fun _ _ inGroups => inGroups) (startLqHello_writes hello capacity)
      run).push
  refine ⟨_, parts, messages, ?_, sent, emits, records⟩
  rw [serializeLqHello, ← helloGroups, run]
  rfl

end Messages

end QosOlsr
