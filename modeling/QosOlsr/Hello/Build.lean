import QosOlsr.Hello.Exchange

/-!
# HELLO messages without link quality

`serialize_hello4` and `serialize_hello6` of `build_msg.c`.  The IPv4 header
carries the quality of service and the head flag that `deserialize_hello`
reads; `struct hellomsg6` has neither field, so that the decoder takes the
first info header of an IPv6 message for them.
-/

namespace QosOlsr

open Library List

variable {ver : IpVersion}

/-- `struct hello_message`, as far as it is sent. -/
structure PlainHello (ver : IpVersion) where
  ttl : UInt8
  willingness : UInt8
  qos : Nat
  isHead : Nat
  neighbors : List (HelloRecord ver 0)

def remainsize (outif : Outif) : Nat := (netOutbufferBytesLeft outif % 0x10000).toNat

section Serialize

variable (head : HelloHead ver)

def blocksRoom (outif : Outif) : Int := (remainsize outif : Int) - head.size

def cutHello (st : HelloState) : HelloState :=
  if 0 < st.buff.length then
    { st with
      outif := head.push (finishGroup st).buff st.outif
      buff := []
      isFirst := true }
  else
    st

/-- Send the message when the next address does not fit.  There is no next
state when `check_buffspace` exits. -/
def makeHelloRoom (st : HelloState) : Option HelloState :=
  let req := ver.ipsize + if st.isFirst then 4 else 0
  if st.rem < ((st.buff.length + req : Nat) : Int) then
    let outif := netOutput (cutHello head st).outif
    if blocksRoom head outif < ((ver.ipsize + 4 : Nat) : Int) then
      none
    else
      some
        { cutHello head st with
          outif := outif
          rem := blocksRoom head outif }
  else
    some st

/-- What both senders do: `extra` is the room behind the headers that the
first check asks for. -/
def serializeHello (groups : List (NeighType × LinkType)) (extra : Nat)
    (neighbors : List (HelloRecord ver 0)) (outif : Outif) :
    Option Outif := do
  let outif := if remainsize outif < head.size then netOutput outif else outif
  guard (head.size + extra ≤ remainsize outif)
  let final ←
    groups.foldlM (addHelloGroup (makeHelloRoom head) neighbors)
      ⟨outif, blocksRoom head outif, [], none, true⟩
  return head.push final.buff final.outif

end Serialize

section Queue

variable (mainAddr : IpAddr ver) (interface : HelloInterface ver) (msg : PlainHello ver)

def helloCommon : OlsrCommon ver where
  type := helloMessage
  vtime := interface.valtimesHello
  orig := mainAddr
  ttl := msg.ttl
  hops := 0

def helloHead4 : HelloHead ver :=
  ⟨helloCommon mainAddr interface msg,
    helloHeaderBytes interface.helloEtime msg.willingness msg.qos msg.isHead⟩

def helloHead6 : HelloHead ver :=
  ⟨helloCommon mainAddr interface msg, [0, 0, interface.helloEtime, msg.willingness]⟩

end Queue

/-- `serialize_hello4`: neighbours with a hidden link are left out. -/
def serializeHello4 (mainAddr : IpAddr .inet) (interface : HelloInterface .inet)
    (msg : PlainHello .inet) (outif : Outif) : Option Outif :=
  serializeHello (helloHead4 mainAddr interface msg)
    (NeighType.order ×ˢ [.unspec, .asym, .sym, .lost]) 0 msg.neighbors
    outif

def serializeHello6 (mainAddr : IpAddr .inet6) (interface : HelloInterface .inet6)
    (msg : PlainHello .inet6) (outif : Outif) : Option Outif :=
  serializeHello (helloHead6 mainAddr interface msg)
    (NeighType.order ×ˢ [.unspec, .asym, .sym, .lost, .hide])
    (IpVersion.inet6.ipsize + 4) msg.neighbors outif

def queueHello :
    {ver : IpVersion} → IpAddr ver → HelloInterface ver → PlainHello ver → Outif → Option Outif
  | .inet => serializeHello4
  | .inet6 => serializeHello6

section Sent

variable {head : HelloHead ver} {outif : Outif}

theorem blocksRoom_eq (fitting : outif.pending ≤ outif.maxsize) :
    blocksRoom head outif = netOutbufferBytesLeft outif - head.size := by
  have nonneg : 0 ≤ netOutbufferBytesLeft outif := by
    rw [netOutbufferBytesLeft]
    omega
  have small : netOutbufferBytesLeft outif < 0x10000 := by
    rw [netOutbufferBytesLeft]
    omega
  rw [blocksRoom, remainsize, Int.emod_eq_of_lt nonneg small, Int.toNat_of_nonneg nonneg]

theorem blocksRoom_netOutput (outif : Outif) :
    blocksRoom head (netOutput outif) = min 1228 (outif.maxsize : Int) - head.size := by
  rw [blocksRoom_eq (Nat.zero_le _), netOutbufferBytesLeft_netOutput]

variable {fragments : List (List (HelloBlock ver 0))} {st : HelloState}
  {listed : List (HelloRecord ver 0)} {group : NeighType × LinkType} {messages : List (List UInt8)}

private theorem HelloWriting.flush_empty
    (writing : HelloWriting head outif group st fragments messages [] listed)
    (room : 0 ≤ blocksRoom head (netOutput st.outif)) :
    Writes head outif group listed
      { st with
        outif := netOutput st.outif
        rem := blocksRoom head (netOutput st.outif) } := by
  refine ⟨fragments, messages, [],
      { rem_eq := blocksRoom_eq (Nat.zero_le _)
        fits := ?_
        complete := writing.complete
        opened := fun no => by simp at no
        current := writing.current
        sent := writing.sent
        emits := writing.emits.flush
        idle := fun _ => Or.inr rfl
        records_eq := writing.records_eq }⟩
  rw [writing.buff_eq_nil.2]
  exact room

variable {blocks : List (HelloBlock ver 0)}

private theorem HelloWriting.blocks_eq_nil
    (writing : HelloWriting head outif group st fragments messages blocks listed)
    (empty : ¬ 0 < st.buff.length) : blocks = [] := by
  rcases eq_nil_or_concat blocks with none | ⟨front, last, rfl⟩
  · exact none
  · rw [concat_eq_append] at writing
    obtain ⟨infoHead, -, isOpen⟩ := writing.opened rfl
    rw [isOpen.length_eq, blocksBytes_concat, HelloBlock.bytes, HelloBlock.code] at empty
    simp at empty

private theorem makeHelloRoom_of_not_hasRoom {ready : HelloState} (full : ¬ HasRoom ver 0 st)
    (made : makeHelloRoom head st = some ready) :
    ((ver.ipsize + 4 : Nat) : Int) ≤ blocksRoom head (netOutput (cutHello head st).outif) ∧
      ready =
        { cutHello head st with
          outif := netOutput (cutHello head st).outif
          rem := blocksRoom head (netOutput (cutHello head st).outif) } := by
  have short : st.rem <
        ((st.buff.length + (ver.ipsize + if st.isFirst then 4 else 0) : Nat) : Int) :=
    not_le.mp full
  unfold makeHelloRoom at made
  dsimp only at made
  rw [if_pos short] at made
  split at made
  · cases made
  next enough => exact ⟨not_lt.mp enough, (Option.some.inj made).symm⟩

private theorem makeHelloRoom_makesRoom : MakesRoom head 0 outif (makeHelloRoom head) := by
  intro group st ready listed writes made
  by_cases room : HasRoom ver 0 st
  · have kept : makeHelloRoom head st = some st := if_neg (not_lt.mpr room)
    rw [kept] at made
    cases made
    exact ⟨writes, room⟩
  · obtain ⟨fragments, messages, blocks, writing⟩ := writes
    obtain ⟨enough, rfl⟩ := makeHelloRoom_of_not_hasRoom room made
    by_cases filled : 0 < st.buff.length
    · have sent : (finishGroup st).buff = _ := (writing.finishGroup_writing group).complete rfl
      rw [cutHello, if_pos filled, sent] at enough ⊢
      have capacity : head.size ≤ min 1228 outif.maxsize := by
        obtain ⟨msg, -, emits⟩ := writing.push
        rw [blocksRoom_netOutput, emits.maxsize_eq] at enough
        omega
      constructor
      · dsimp only
        rw [blocksRoom_eq (Nat.zero_le _)]
        exact writing.flush st.infoHead capacity
      · rw [HasRoom, length_nil, if_pos rfl, Nat.zero_add]
        exact enough
    · obtain rfl := writing.blocks_eq_nil filled
      rw [cutHello, if_neg filled] at enough ⊢
      constructor
      · exact writing.flush_empty (by omega)
      · obtain ⟨first, noBytes⟩ := writing.buff_eq_nil
        rw [HasRoom, first, noBytes, length_nil, if_pos rfl, Nat.zero_add]
        exact enough

private theorem writesGroups_start {start : Outif} (emits : Emits outif [] start)
    (fitting : start.pending ≤ start.maxsize) (enough : head.size ≤ remainsize start) :
    WritesGroups head outif ([] : List (HelloRecord ver 0))
      ⟨start, blocksRoom head start, [], none, true⟩ := by
  intro group
  refine ⟨[], [], [],
      { rem_eq := blocksRoom_eq fitting
        fits := ?_
        complete := fun _ => rfl
        opened := fun no => by simp at no
        current := nofun
        sent := List.Forall₂.nil
        emits := emits
        idle := fun _ => Or.inl rfl
        records_eq := rfl }⟩
  dsimp only
  rw [blocksRoom, length_nil]
  omega

/-- What passes the checks is sent, in one message at least. -/
theorem serializeHello_fragmented {groups : List (NeighType × LinkType)} {extra : Nat}
    {neighbors : List (HelloRecord ver 0)} {sent : Outif} (fitting : outif.pending ≤ outif.maxsize)
    (inGroups : ∀ neigh ∈ neighbors, neigh.group ∈ groups → neigh.group ∈ helloGroups)
    (serialized : serializeHello head groups extra neighbors outif = some sent) :
    ∃ fragments messages, messages ≠ [] ∧ List.Forall₂
          (fun blocks msg => IsMessage head.comm (head.bytes ++ blocksBytes blocks) msg)
          fragments messages ∧
        Emits outif messages sent ∧
        blocksRecords fragments.flatten = grouped HelloRecord.group groups neighbors := by
  unfold serializeHello at serialized
  dsimp only at serialized
  generalize isStart : (if remainsize outif < head.size then netOutput outif else outif) = start
    at serialized
  have starts : Emits outif [] start ∧ start.pending ≤ start.maxsize := by
    rw [← isStart]
    split
    · exact ⟨Emits.start.flush, Nat.zero_le _⟩
    · exact ⟨Emits.start, fitting⟩
  obtain ⟨_, passed, serialized⟩ := Option.bind_eq_some_iff.mp serialized
  obtain ⟨final, run, pushed⟩ := Option.bind_eq_some_iff.mp serialized
  have enough : head.size + extra ≤ remainsize start := by
    by_contra short
    rw [guard, if_neg short] at passed
    cases passed
  have writes := foldlM_addHelloGroup_writes makeHelloRoom_makesRoom inGroups
      (writesGroups_start starts.1 starts.2 (by omega)) run
  obtain ⟨fragments, messages, some, cut, emits, records⟩ := writes.push
  rw [← Option.some.inj pushed]
  exact ⟨fragments, messages, some, cut, emits, records⟩

private theorem makeHelloRoom_isSome
    (capacity : head.size + (ver.ipsize + 4) ≤ min 1228 outif.maxsize)
    (isSize : st.outif.maxsize = outif.maxsize) :
    ∃ ready, makeHelloRoom head st = some ready ∧ ready.outif.maxsize = outif.maxsize := by
  have cutSize : (cutHello head st).outif.maxsize = outif.maxsize := by
    rw [cutHello]
    split
    · rw [← isSize]
      exact pushMessage_maxsize _ _ _
    · exact isSize
  have enough : ¬ blocksRoom head (netOutput (cutHello head st).outif) <
        ((ver.ipsize + 4 : Nat) : Int) := by
    rw [blocksRoom_netOutput, cutSize]
    omega
  unfold makeHelloRoom
  dsimp only
  rw [if_neg enough]
  generalize (ver.ipsize + if st.isFirst then 4 else 0) = req
  split
  · exact ⟨_, rfl, cutSize⟩
  · exact ⟨_, rfl, isSize⟩

private theorem addHelloGroup_isSome
    (capacity : head.size + (ver.ipsize + 4) ≤ min 1228 outif.maxsize)
    (neighbors : List (HelloRecord ver 0))
    (group : NeighType × LinkType) (isSize : st.outif.maxsize = outif.maxsize) :
    ∃ next, addHelloGroup (makeHelloRoom head) neighbors st group = some next ∧
      next.outif.maxsize = outif.maxsize := by
  have step : ∀ {neigh : HelloRecord ver 0} {st : HelloState},
        st.outif.maxsize = outif.maxsize →
        ∃ next, addHelloRecord (makeHelloRoom head) group st neigh = some next ∧
            next.outif.maxsize = outif.maxsize := by
    intro neigh st before
    rw [addHelloRecord]
    split
    · exact ⟨st, rfl, before⟩
    · obtain ⟨ready, made, isReady⟩ := makeHelloRoom_isSome capacity before
      refine ⟨writeHelloRecord group neigh ready, by rw [made]; rfl, ?_⟩
      rw [writeHelloRecord]
      cases ready.isFirst <;> exact isReady
  obtain ⟨filled, run, isFilled⟩ := foldlM_invariant
      (fun _ (st : HelloState) => st.outif.maxsize = outif.maxsize)
      (fun _ before => step before)
      (show { st with isFirst := true }.outif.maxsize = _ from isSize)
  refine ⟨finishGroup filled, by rw [addHelloGroup, run]; rfl, ?_⟩
  rw [finishGroup]
  split <;> exact isFilled

private theorem serializeHello_isSome
    (groups : List (NeighType × LinkType)) (neighbors : List (HelloRecord ver 0))
    (capacity : head.size + (ver.ipsize + 4) ≤ min 1228 outif.maxsize) :
    ∃ sent, serializeHello head groups 0 neighbors outif = some sent := by
  generalize isStart : (if remainsize outif < head.size then netOutput outif else outif) = start
  have starts : head.size ≤ remainsize start ∧ start.maxsize = outif.maxsize := by
    rw [← isStart]
    split
    · have emptied : (remainsize (netOutput outif) : Int) - head.size =
            min 1228 (outif.maxsize : Int) - head.size :=
        blocksRoom_netOutput outif
      exact ⟨by omega, rfl⟩
    next enough => exact ⟨not_lt.mp enough, rfl⟩
  have loops : ∃ final, groups.foldlM (addHelloGroup (makeHelloRoom head) neighbors)
            ⟨start, blocksRoom head start, [], none, true⟩ = some final ∧
          final.outif.maxsize = outif.maxsize :=
    foldlM_invariant (fun _ (st : HelloState) => st.outif.maxsize = outif.maxsize)
      (fun _ before => addHelloGroup_isSome capacity neighbors _ before)
      starts.2
  obtain ⟨final, run, -⟩ := loops
  refine ⟨head.push final.buff final.outif, ?_⟩
  unfold serializeHello
  dsimp only
  rw [isStart, guard, Nat.add_zero, if_pos starts.1, run]
  rfl

end Sent

/-- The decoded messages say what was sent: each has the header fields, and
together they hold the neighbours, except those that one message culls. -/
def HelloRoundTrips (handler : LqHandler) (msg : PlainHello ver)
    (messages : List (List UInt8)) : Prop :=
  ∀ buffers, List.Forall₂ (fun mem msg => Carries mem 0 msg) buffers messages →
    ∃ fragments hellos, fragments.flatten.Perm msg.neighbors ∧
        List.Forall₂ (fun mem hello => Decodes handler mem hello) buffers hellos ∧
        List.Forall₂ (RoundTrips none msg.willingness msg.qos msg.isHead) fragments hellos

section RoundTrip

variable {handler : LqHandler}

private theorem mem_groups4 {group : NeighType × LinkType} :
    group ∈ NeighType.order ×ˢ [LinkType.unspec, .asym, .sym, .lost] ↔ group ∈ helloGroups := by
  have links : group.2 ∈ [LinkType.unspec, .asym, .sym, .lost] ↔ group.2 ∈ LinkType.order := by
    cases group.2 <;> decide
  exact mem_product.trans ((and_congr_right fun _ => links).trans mem_product.symm)

section Inet

variable {mainAddr : IpAddr .inet} {interface : HelloInterface .inet} {msg : PlainHello .inet}
  {outif sent : Outif}

/-- Over IPv4 a HELLO survives exactly when the head flag fits the one byte
that is read of it. -/
theorem serializeHello4_roundTrips_iff (fitting : outif.pending ≤ outif.maxsize)
    (smallQos : msg.qos < 0x10000) (listed : ∀ neigh ∈ msg.neighbors, neigh.group ∈ helloGroups)
    (serialized : serializeHello4 mainAddr interface msg outif = some sent) : ∃ messages,
      Emits outif messages sent ∧ (HelloRoundTrips handler msg messages ↔ msg.isHead < 0x100) := by
  obtain ⟨fragments, messages, nonempty, cut, emits, records⟩ :=
    serializeHello_fragmented fitting (fun neigh member _ => listed neigh member) serialized
  have decodes : ∀ {buffers},
        List.Forall₂ (fun mem msg => Carries mem 0 msg) buffers messages →
        ∃ hellos, List.Forall₂ (fun mem hello => Decodes handler mem hello) buffers hellos ∧
            List.Forall₂
              (fun blocks hello =>
                DecodedAs none msg.willingness msg.qos msg.isHead (blocksRecords blocks) hello)
              fragments hellos :=
    decodes_all none rfl nofun cut
  refine ⟨messages, emits, ?_, ?_⟩
  · intro roundTrips
    have received := carries_map_ofBytes messages
    obtain ⟨hellos, decoded, decodedAs⟩ := decodes received
    obtain ⟨_, others, -, decodedOthers, trips⟩ := roundTrips _ received
    obtain rfl := decodes_all_unique decoded decodedOthers
    cases decodedAs with
    | nil =>
      cases cut
      exact absurd rfl nonempty
    | cons first _ =>
      cases trips with
      | cons trip _ =>
        rw [← trip.isHead_eq, first.isHead_eq]
        exact Nat.mod_lt _ (by decide)
  · intro smallHead buffers received
    obtain ⟨hellos, decoded, decodedAs⟩ := decodes received
    obtain ⟨recordLists, flattened, trips⟩ := roundTrips_all none decodedAs smallQos smallHead
    refine ⟨recordLists, hellos, ?_, decoded, trips⟩
    have all : (blocksRecords fragments.flatten).Perm msg.neighbors := by
      rw [records]
      exact grouped_perm HelloRecord.group (by decide)
          fun neigh member => mem_groups4.mpr (listed neigh member)
    exact List.Perm.trans (List.Perm.of_eq flattened) all

end Inet

section Inet6

variable {mainAddr : IpAddr .inet6} {interface : HelloInterface .inet6}
  {msg : PlainHello .inet6} {outif sent : Outif}

/-- The first bytes of the blocks: a link code, a zero and the high byte of a
size, or nothing. -/
theorem blocksBytes_front {lqSize : Nat} (blocks : List (HelloBlock ver lqSize))
    (short : (blocksBytes blocks).length ≤ 1228) : ((blocksBytes blocks).getD 0 0).toNat < 24 ∧
      (blocksBytes blocks).getD 1 0 = 0 ∧ ((blocksBytes blocks).getD 2 0).toNat < 5 := by
  cases blocks with
  | nil => exact ⟨Nat.succ_pos _, rfl, Nat.succ_pos _⟩
  | cons block rest =>
    have code : ∀ status ∈ NeighType.order, ∀ link ∈ LinkType.order,
          (UInt8.ofNat (createLinkCode status link)).toNat < 24 := by
      decide
    obtain ⟨inStatus, inLink⟩ := mem_product.mp block.group_mem
    refine ⟨code _ inStatus _ inLink, rfl, ?_⟩
    have size : 4 + block.recordBytes.length ≤ 1228 := by
      have whole : blocksBytes (block :: rest) = block.bytes ++ blocksBytes rest := flatMap_cons
      rw [whole, HelloBlock.bytes] at short
      simp only [length_append, HelloBlock.code, u16Bytes, length_cons, length_nil] at short
      omega
    change (UInt8.ofNat ((4 + block.recordBytes.length) / 256)).toNat < 5
    rw [UInt8.toNat_ofNat']
    omega

private theorem ofBytes_behind (comm : OlsrCommon ver) (size seqno : Nat)
    (header blocks : List UInt8) (offset : Nat) :
    ofBytes (commonBytes comm size seqno ++ (header ++ blocks))
        (commonSize ver + (header.length + offset)) =
      blocks.getD offset 0 := by
  rw [ofBytes, ← commonBytes_length comm size seqno]
  simp only [getD_eq_getElem?_getD]
  rw [getElem?_append_right (Nat.le_add_right _ _), Nat.add_sub_cancel_left,
    getElem?_append_right (Nat.le_add_right _ _), Nat.add_sub_cancel_left]

/-- Over IPv6 the first info header is read in place of the quality of service
and the head flag. -/
theorem serializeHello6_roundTrips (fitting : outif.pending ≤ outif.maxsize)
    (listed : ∀ neigh ∈ msg.neighbors, neigh.group ∈ helloGroups)
    (serialized : serializeHello6 mainAddr interface msg outif = some sent) :
    ∃ messages, Emits outif messages sent ∧
      (HelloRoundTrips handler msg messages → msg.qos < 24 ∧ msg.isHead < 5) := by
  obtain ⟨fragments, messages, nonempty, cut, emits, -⟩ :=
    serializeHello_fragmented fitting (fun neigh mem _ => listed neigh mem) serialized
  refine ⟨messages, emits, fun roundTrips => ?_⟩
  have received := carries_map_ofBytes messages
  obtain ⟨_, hellos, -, decoded, trips⟩ := roundTrips _ received
  cases cut with
  | nil => exact absurd rfl nonempty
  | @cons blocks first _ _ isMsg _ =>
    cases decoded with
    | cons decodes _ =>
      cases trips with
      | cons trip _ =>
        obtain ⟨short, seqno, isFirst⟩ := isMsg
        have behind : ∀ offset, ofBytes first (commonSize .inet6 + (4 + offset)) =
                (blocksBytes blocks).getD offset 0 := by
          intro offset
          rw [isFirst]
          exact ofBytes_behind _ _ _ _ _ _
        rw [length_append] at short
        obtain ⟨code, zero, high⟩ := blocksBytes_front blocks (by omega)
        rw [← behind] at code zero high
        obtain ⟨-, qosRead, headRead⟩ := decodes.header_eq
        obtain ⟨-, qosBytes, headByte⟩ := readHelloHeader_fields (ofBytes first) .inet6
        rw [← trip.qos_eq, ← trip.isHead_eq, qosRead, headRead,
          qosBytes, headByte, zero, UInt8.toNat_zero, Nat.zero_mul, Nat.zero_add]
        exact ⟨code, high⟩

end Inet6

/-- Over IPv4 a HELLO survives exactly when the head flag fits the byte that
is read of it; over IPv6 only a small quality of service and a small head flag
can agree with what is read in their place. -/
theorem hello_round_trip_iff (handler : LqHandler) (mainAddr : IpAddr ver)
    (interface : HelloInterface ver) (msg : PlainHello ver)
    {outif : Outif} (fitting : outif.pending ≤ outif.maxsize) (smallQos : msg.qos < 0x10000)
    (listed : ∀ neigh ∈ msg.neighbors, neigh.group ∈ helloGroups) :
    (ver = .inet → 28 ≤ min 1228 outif.maxsize →
        ∃ sent, queueHello mainAddr interface msg outif = some sent) ∧
      ∀ sent, queueHello mainAddr interface msg outif = some sent → ∃ messages,
          sent.messages = outif.messages ++ messages ∧
            (ver = .inet → (HelloRoundTrips handler msg messages ↔ msg.isHead < 0x100)) ∧
            (ver = .inet6 → HelloRoundTrips handler msg messages →
              msg.qos < 24 ∧ msg.isHead < 5) := by
  cases ver with
  | inet =>
    refine ⟨fun _ capacity => ?_, fun sent serialized => ?_⟩
    · change ∃ sent, serializeHello (helloHead4 mainAddr interface msg) _ 0 _ outif = some sent
      exact serializeHello_isSome _ _ capacity
    · obtain ⟨messages, emits, exact⟩ :=
        serializeHello4_roundTrips_iff fitting smallQos listed serialized
      exact ⟨messages, emits.messages_eq, fun _ => exact, nofun⟩
  | inet6 =>
    refine ⟨nofun, fun sent serialized => ?_⟩
    obtain ⟨messages, emits, small⟩ := serializeHello6_roundTrips fitting listed serialized
    exact ⟨messages, emits.messages_eq, nofun, fun _ => small⟩

end RoundTrip

def plainHello4 : PlainHello .inet := ⟨1, 3, 700, 1, [⟨.sym, .symNeigh, .v4 10 0 0 2, [], rfl⟩]⟩

theorem hello_round_trip_iff_inet : ∃ sent messages,
      queueHello ⟨[10, 0, 0, 1], rfl⟩ ⟨⟨[10, 0, 0, 1], rfl⟩, 134, 5⟩
          plainHello4 ⟨1500, 0, 0, []⟩ = some sent ∧
        sent.messages = messages ∧
        HelloRoundTrips .etxFfeth plainHello4 messages := by
  obtain ⟨passes, exact⟩ := hello_round_trip_iff .etxFfeth ⟨[10, 0, 0, 1], rfl⟩
      ⟨⟨[10, 0, 0, 1], rfl⟩, 134, 5⟩ plainHello4
      (show (⟨1500, 0, 0, []⟩ : Outif).pending ≤ 1500 from by decide) (by decide) (by decide)
  obtain ⟨sent, serialized⟩ := passes rfl (by decide)
  obtain ⟨messages, total, inet, -⟩ := exact sent serialized
  exact ⟨sent, messages, serialized, total, (inet rfl).mpr (by decide)⟩

def plainAddr6 (last : UInt8) : IpAddr .inet6 :=
  ⟨[0x20, 1, 0x0d, 0xb8, 0, 0, 0, 0, 0, 0, 0, 0, 0, 0, 0, last], rfl⟩

def plainHello6 : PlainHello .inet6 := ⟨1, 3, 700, 1, [⟨.sym, .symNeigh, plainAddr6 2, [], rfl⟩]⟩

/-- An IPv6 HELLO loses its quality of service. -/
theorem hello_inet6_header_shifted : ¬ ∀ (ver : IpVersion) (handler : LqHandler)
        (mainAddr : IpAddr ver) (interface : HelloInterface ver)
        (msg : PlainHello ver) (outif sent : Outif)
        (messages : List (List UInt8)),
        outif.pending ≤ outif.maxsize → msg.qos < 0x10000 →
        msg.isHead < 0x10000 →
        (∀ neigh ∈ msg.neighbors, neigh.group ∈ helloGroups) →
        queueHello mainAddr interface msg outif = some sent →
        sent.messages = outif.messages ++ messages →
        HelloRoundTrips handler msg messages := by
  intro survives
  have listed : ∀ neigh ∈ plainHello6.neighbors, neigh.group ∈ helloGroups := by decide
  have fitting : (⟨1500, 0, 0, []⟩ : Outif).pending ≤ 1500 := by decide
  obtain ⟨sent, serialized⟩ : ∃ sent,
        serializeHello6 (plainAddr6 1) ⟨plainAddr6 1, 134, 5⟩ plainHello6
          ⟨1500, 0, 0, []⟩ = some sent :=
    ⟨_, rfl⟩
  obtain ⟨messages, emits, small⟩ := serializeHello6_roundTrips fitting listed serialized
  have tooLarge := small
      (survives .inet6 .etxFfeth _ _ plainHello6 _ sent messages fitting
        (by decide) (by decide) listed serialized emits.messages_eq)
  exact absurd tooLarge.1 (by decide)

end QosOlsr
