import QosOlsr.Hello.RoundTrip
import QosOlsr.Hello.Serialize

/-!
# From the sender of an LQ_HELLO to its receiver

`serialize_lq_hello` cuts the entries into messages and `deserialize_hello`
decodes each of them; together the decoded messages hold every entry once,
except those that one message culls.
-/

namespace QosOlsr

open Library List

variable {ver : IpVersion}

section Receive

variable {handler : LqHandler} {buffers : List Memory}

/-- Every message of blocks that has arrived is decoded. -/
theorem decodes_all (lq : Option LqHandler) {comm : OlsrCommon ver}
    (isType : comm.type =
        match lq with
        | none => helloMessage
        | some _ => lqHelloMessage)
    (isHandler : ∀ other, lq = some other → other = handler)
    {htime willingness : UInt8} {qos isHead : Nat}
    {parts : List (List (HelloBlock ver (lqLength lq)))} {messages : List (List UInt8)}
    (cut : List.Forall₂
        (fun blocks msg =>
          IsMessage comm
            (helloHeaderBytes htime willingness qos isHead ++ blocksBytes blocks) msg)
        parts messages)
    (received : List.Forall₂ (fun mem msg => Carries mem 0 msg) buffers messages) :
    ∃ hellos, List.Forall₂ (fun mem hello => Decodes handler mem hello) buffers hellos ∧
        List.Forall₂
          (fun blocks hello =>
            DecodedAs lq willingness qos isHead (blocksRecords blocks) hello)
          parts hellos := by
  induction cut generalizing buffers with
  | nil =>
    cases received
    exact ⟨[], List.Forall₂.nil, List.Forall₂.nil⟩
  | cons isMsg _ ih =>
    cases received with
    | cons inMemory restReceived =>
      obtain ⟨hello, decodes, decodedAs⟩ := decodes_of_carried isType isHandler isMsg inMemory
      obtain ⟨hellos, restDecodes, restDecodedAs⟩ := ih restReceived
      exact ⟨hello :: hellos, List.Forall₂.cons decodes restDecodes,
          List.Forall₂.cons decodedAs restDecodedAs⟩

theorem decodes_all_unique {first second : List (HelloMessage (IpAddr ver))}
    (decodesFirst : List.Forall₂ (fun mem hello => Decodes handler mem hello) buffers first)
    (decodesSecond : List.Forall₂ (fun mem hello => Decodes handler mem hello) buffers second) :
    first = second := by
  induction decodesFirst generalizing second with
  | nil =>
    cases decodesSecond
    rfl
  | cons decodes _ ih =>
    cases decodesSecond with
    | cons decodesHead decodesRest => rw [decodes.unique decodesHead, ih decodesRest]

end Receive

/-- A decoded message says what the sender put into these blocks. -/
structure RoundTrips (lq : Option LqHandler) (willingness : UInt8) (qos isHead : Nat)
    (records : List (HelloRecord ver (lqLength lq)))
    (decoded : HelloMessage (IpAddr ver)) : Prop where
  willingness_eq : decoded.willingness = willingness
  qos_eq : decoded.qos = qos
  isHead_eq : decoded.isHead = isHead
  neighbors_perm : decoded.neighbors.Perm
      ((records.filter fun record => ¬ isCulled records record).map (decodeNeighbor lq))

theorem linkType_mem_order {lqSize : Nat} {blocks : List (HelloBlock ver lqSize)}
    {record : HelloRecord ver lqSize} (mem : record ∈ blocksRecords blocks) :
    record.linkType ∈ LinkType.order := by
  obtain ⟨block, -, inBlock⟩ := mem_flatMap.mp mem
  have inGroups := block.group_mem
  rw [← block.uniform record inBlock] at inGroups
  exact (mem_product.mp inGroups).2

theorem DecodedAs.roundTrips {lq : Option LqHandler} {willingness : UInt8} {qos isHead : Nat}
    {blocks : List (HelloBlock ver (lqLength lq))} {decoded : HelloMessage (IpAddr ver)}
    (decodedAs : DecodedAs lq willingness qos isHead (blocksRecords blocks) decoded)
    (smallQos : qos < 0x10000) (smallHead : isHead < 0x100) :
    RoundTrips lq willingness qos isHead (blocksRecords blocks) decoded where
  willingness_eq := decodedAs.willingness_eq
  qos_eq := by rw [decodedAs.qos_eq, Nat.mod_eq_of_lt smallQos]
  isHead_eq := by rw [decodedAs.isHead_eq, Nat.mod_eq_of_lt smallHead]
  neighbors_perm := by
    rw [decodedAs.neighbors_eq]
    exact decodedNeighbors_perm fun record => linkType_mem_order

theorem roundTrips_all (lq : Option LqHandler) {willingness : UInt8} {qos isHead : Nat}
    {parts : List (List (HelloBlock ver (lqLength lq)))} {hellos : List (HelloMessage (IpAddr ver))}
    (decodedAs : List.Forall₂
        (fun blocks hello => DecodedAs lq willingness qos isHead (blocksRecords blocks) hello)
        parts hellos)
    (smallQos : qos < 0x10000) (smallHead : isHead < 0x100) :
    ∃ recordLists, recordLists.flatten = blocksRecords parts.flatten ∧
        List.Forall₂ (RoundTrips lq willingness qos isHead) recordLists hellos := by
  refine ⟨parts.map blocksRecords, ?_, ?_⟩
  · induction parts generalizing hellos with
    | nil => rfl
    | cons blocks rest ih =>
      cases decodedAs with
      | cons _ decodedRest =>
        rw [map_cons, flatten_cons, flatten_cons, ih decodedRest]
        exact flatMap_append.symm
  · rw [forall₂_map_left_iff]
    exact decodedAs.imp fun _ _ decoded => decoded.roundTrips smallQos smallHead

section LqHello

variable (hello : LqHelloMessage ver) (outif : Outif)

/-- An LQ_HELLO survives the way to the receiver, in however many messages
the output buffer cuts it. -/
theorem lqHello_round_trip (handler : LqHandler) (isType : hello.comm.type = lqHelloMessage)
    (listed : ∀ neigh ∈ hello.neigh, neigh.group ∈ helloGroups) (smallQos : hello.qos < 0x10000)
    (smallHead : hello.isHead < 0x100)
    (capacity : lqHelloHeaderSize ver + (helloRecordSize ver 4 + 4) ≤ min 1228 outif.maxsize) :
    ∃ sent fragments messages, serializeLqHello hello outif = some sent ∧
        Emits outif messages sent ∧
        List.Forall₂ (fun blocks msg => IsMessage hello.comm (helloBody hello blocks) msg)
          fragments messages ∧
        (blocksRecords fragments.flatten).Perm hello.neigh ∧
        ∀ buffers, List.Forall₂ (fun mem msg => Carries mem 0 msg) buffers messages →
          ∃ hellos, List.Forall₂ (fun mem hello => Decodes handler mem hello) buffers hellos ∧
              List.Forall₂
                (fun blocks decoded =>
                  RoundTrips (some handler) hello.will hello.qos
                    hello.isHead (blocksRecords blocks) decoded)
                fragments hellos := by
  obtain ⟨sent, fragments, messages, serialized, cut, emits, records⟩ :=
    serializeLqHello_fragmented hello capacity
  refine ⟨sent, fragments, messages, serialized, emits, cut, ?_, ?_⟩
  · rw [records]
    exact grouped_perm HelloRecord.group (by decide) listed
  · intro buffers received
    obtain ⟨hellos, decodes, decodedAs⟩ := decodes_all (some handler) isType
        (fun other isOther => (Option.some.inj isOther).symm) cut received
    exact ⟨hellos, decodes, decodedAs.imp fun _ _ decoded => decoded.roundTrips smallQos smallHead⟩

end LqHello

def twoNeighborHello : LqHelloMessage .inet where
  comm :=
    { type := lqHelloMessage
      vtime := 134
      orig := .v4 10 0 0 1
      ttl := 1
      hops := 0 }
  htime := 5
  will := 3
  qos := 700
  isHead := 2
  neigh :=
    [⟨.sym, .symNeigh, .v4 10 0 0 2, [255, 200, 0, 0], rfl⟩,
      ⟨.asym, .notNeigh, .v4 10 0 0 3, [90, 0, 0, 0], rfl⟩]

/-- A buffer of 32 bytes takes one record at a time. -/
theorem lqHello_round_trip_two_messages : ∃ sent fragments messages,
      serializeLqHello twoNeighborHello ⟨32, 0, 0, []⟩ = some sent ∧
        (blocksRecords fragments.flatten).Perm twoNeighborHello.neigh ∧
        List.Forall₂
          (fun blocks msg =>
            IsMessage twoNeighborHello.comm (helloBody twoNeighborHello blocks) msg)
          fragments messages := by
  obtain ⟨sent, fragments, messages, serialized, -, cut, all, -⟩ :=
    lqHello_round_trip twoNeighborHello ⟨32, 0, 0, []⟩ .etxFfeth rfl
      (by decide) (by decide) (by decide) (by decide)
  exact ⟨sent, fragments, messages, serialized, all, cut⟩

end QosOlsr
