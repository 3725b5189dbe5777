import QosOlsr.Hello.Exchange

/-!
# Link sensing

A node learns from the HELLO of a neighbour what the neighbour makes of the
link between them.  The entries for heads two hops away are listed as symmetric
links too, and mislead a receiver that is one of those heads.
-/

namespace QosOlsr

open Library List

variable {ver : IpVersion} {ctx : LinkContext} {outifAddr addr : IpAddr ver}
  {tables : HelloTables ver} {handler : LqHandler} {hellos : List (HelloMessage (IpAddr ver))}

/-- The decoded messages list these entries, those without a link type
apart. -/
structure Lists (handler : LqHandler) (hellos : List (HelloMessage (IpAddr ver)))
    (entries : List (LqHelloNeighbor ver)) : Prop where
  sound : ∀ hello ∈ hellos, ∀ neighbor ∈ hello.neighbors,
      ∃ neigh ∈ entries, neighbor = decodeNeighbor (some handler) neigh
  listed : ∀ neigh ∈ entries, neigh.linkType ≠ .unspec →
      ∃ hello ∈ hellos, decodeNeighbor (some handler) neigh ∈ hello.neighbors

def HasSymLink (ctx : LinkContext) (outifAddr addr : IpAddr ver)
    (links : List (LinkEntry ver)) : Prop :=
  ∃ walker ∈ links, ownLink outifAddr addr walker = true ∧ lookupLinkStatus ctx walker = .sym

/-- What the messages tell the interface `addr` about the links of the
sender: no symmetric link that is not there, and the status of the only link
there is.  A message of several that does not list the address says
nothing. -/
structure SensesLinks (ctx : LinkContext) (outifAddr addr : IpAddr ver)
    (links : List (LinkEntry ver)) (hellos : List (HelloMessage (IpAddr ver))) : Prop where
  sym_link :
    ∀ hello ∈ hellos, checkLinkStatus addr hello = .sym → HasSymLink ctx outifAddr addr links
  status : ∀ walker, links.filter (ownLink outifAddr addr) = [walker] →
      (∃ hello ∈ hellos, checkLinkStatus addr hello = lookupLinkStatus ctx walker) ∧
        ∀ hello ∈ hellos, checkLinkStatus addr hello = lookupLinkStatus ctx walker ∨
            checkLinkStatus addr hello = .unspec

/-- Every two-hop head at the address is a symmetric neighbour as well. -/
def TwoHopHeadsLinked (ctx : LinkContext) (outifAddr addr : IpAddr ver)
    (tables : HelloTables ver) : Prop :=
  ∀ neigh2 ∈ tables.twoHopNeighbortable, neigh2.is2hop = true → neigh2.neighbor2Addr = addr →
      HasSymLink ctx outifAddr addr tables.links

section Entries

variable {neigh : LqHelloNeighbor ver}

/-- A typed entry for the address tells the status of a link to it, or is a
two-hop head. -/
theorem helloEntries_typed (mem : neigh ∈ helloEntries ctx outifAddr tables)
    (isAddr : neigh.addr = addr) (typed : neigh.linkType ≠ .unspec) :
    (∃ walker ∈ tables.links,
        ownLink outifAddr addr walker = true ∧ neigh.linkType = lookupLinkStatus ctx walker) ∨
      (neigh.linkType = .sym ∧ ∃ neigh2 ∈ tables.twoHopNeighbortable,
          neigh2.is2hop = true ∧ neigh2.neighbor2Addr = addr) := by
  rcases mem_helloEntries mem with ⟨neigh2, inTable, is2hop, rfl⟩ | ⟨walker, inLinks, rfl⟩
  · exact Or.inr ⟨rfl, neigh2, inTable, is2hop, isAddr⟩
  · left
    change helloLinkType ctx outifAddr walker ≠ .unspec at typed
    have isLocal : walker.localIfaceAddr = outifAddr := by
      by_contra elsewhere
      rw [helloLinkType, if_pos elsewhere] at typed
      exact typed rfl
    have own : ownLink outifAddr addr walker = true := decide_eq_true ⟨isLocal, isAddr⟩
    exact ⟨walker, inLinks, own, helloLinkType_of_ownLink own⟩

private theorem helloEntries_of_unique (ctx : LinkContext) {walker : LinkEntry ver}
    (unique : tables.links.filter (ownLink outifAddr addr) = [walker]) :
    ∃ neigh ∈ helloEntries ctx outifAddr tables,
      neigh.addr = addr ∧ neigh.linkType = lookupLinkStatus ctx walker := by
  have listed : listedAs (tables.links.foldl (addLinkEntry ctx outifAddr) []) addr =
        some (lookupLinkStatus ctx walker) :=
    listedAs_foldl_of_unique (Or.inl rfl) unique
  obtain ⟨neigh, mem, isEntry⟩ := exists_of_listedAs listed
  exact ⟨neigh, mem_foldl_addTwoHopHead.mpr (Or.inr mem), isEntry⟩

theorem helloEntries_of_twoHop {neigh2 : Neighbor2Entry ver}
    (inTable : neigh2 ∈ tables.twoHopNeighbortable) (is2hop : neigh2.is2hop = true) :
    twoHopHelloEntry neigh2 ∈ helloEntries ctx outifAddr tables :=
  mem_foldl_addTwoHopHead.mpr (Or.inl ⟨neigh2, inTable, is2hop, rfl⟩)

/-- While two-hop heads mislead nobody, a typed entry for the address has the
status of the only link to it. -/
theorem typed_entry_status (linked : TwoHopHeadsLinked ctx outifAddr addr tables)
    {walker : LinkEntry ver} (unique : tables.links.filter (ownLink outifAddr addr) = [walker])
    (mem : neigh ∈ helloEntries ctx outifAddr tables) (isAddr : neigh.addr = addr)
    (typed : neigh.linkType ≠ .unspec) : neigh.linkType = lookupLinkStatus ctx walker := by
  have isWalker : ∀ other ∈ tables.links, ownLink outifAddr addr other = true → other = walker := by
    intro other inLinks own
    have inFilter : other ∈ tables.links.filter (ownLink outifAddr addr) :=
      mem_filter.mpr ⟨inLinks, own⟩
    rw [unique] at inFilter
    exact mem_singleton.mp inFilter
  rcases helloEntries_typed mem isAddr typed with
    ⟨other, inLinks, own, isStatus⟩ | ⟨sym, neigh2, inTable, is2hop, atAddr⟩
  · rw [isStatus, isWalker other inLinks own]
  · obtain ⟨other, inLinks, own, isSym⟩ := linked neigh2 inTable is2hop atAddr
    rw [sym, ← isSym, isWalker other inLinks own]

end Entries

section Sensing

theorem checkLinkStatus_of_lists (lists : Lists handler hellos (helloEntries ctx outifAddr tables))
    {hello : HelloMessage (IpAddr ver)} (inHellos : hello ∈ hellos) :
    checkLinkStatus addr hello = .unspec ∨ ∃ neigh ∈ helloEntries ctx outifAddr tables, neigh.addr =
      addr ∧ neigh.linkType ≠ .unspec ∧ checkLinkStatus addr hello = neigh.linkType := by
  rcases checkLinkStatusFrom_cases addr hello.neighbors .unspec with
    ⟨nothing, -⟩ | ⟨neighbor, mem, isAddr, typed, answer⟩
  · exact Or.inl nothing
  · obtain ⟨neigh, inEntries, rfl⟩ := lists.sound hello inHellos neighbor mem
    exact Or.inr ⟨neigh, inEntries, isAddr, typed, answer⟩

theorem sensesLinks_iff (lists : Lists handler hellos (helloEntries ctx outifAddr tables)) :
    SensesLinks ctx outifAddr addr tables.links hellos ↔
      TwoHopHeadsLinked ctx outifAddr addr tables := by
  constructor
  · intro senses neigh2 inTable is2hop atAddr
    obtain ⟨hello, inHellos, mem⟩ :=
      lists.listed _ (helloEntries_of_twoHop inTable is2hop) LinkType.noConfusion
    apply senses.sym_link hello inHellos
    exact checkLinkStatusFrom_eq_sym mem atAddr rfl .unspec
  · intro linked
    constructor
    · intro hello inHellos isSym
      rcases checkLinkStatus_of_lists lists inHellos with
        nothing | ⟨neigh, mem, isAddr, typed, answer⟩
      · rw [isSym] at nothing
        cases nothing
      · rcases helloEntries_typed mem isAddr typed with
          ⟨walker, inLinks, own, isStatus⟩ | ⟨-, neigh2, inTable, is2hop, atAddr⟩
        · exact ⟨walker, inLinks, own, isStatus.symm.trans (answer.symm.trans isSym)⟩
        · exact linked neigh2 inTable is2hop atAddr
    · intro walker unique
      have answers : ∀ hello ∈ hellos,
            checkLinkStatus addr hello = lookupLinkStatus ctx walker ∨
              checkLinkStatus addr hello = .unspec := by
        intro hello inHellos
        rcases checkLinkStatus_of_lists lists inHellos with
          nothing | ⟨neigh, mem, isAddr, typed, answer⟩
        · exact Or.inr nothing
        · left
          rw [answer]
          exact typed_entry_status linked unique mem isAddr typed
      refine ⟨?_, answers⟩
      obtain ⟨neigh, mem, isAddr, isStatus⟩ := helloEntries_of_unique ctx unique
      have typed : neigh.linkType ≠ .unspec := by
        rw [isStatus]
        exact lookupLinkStatus_ne_unspec ctx walker
      obtain ⟨hello, inHellos, inHello⟩ := lists.listed neigh mem typed
      refine ⟨hello, inHellos, (answers hello inHellos).resolve_right ?_⟩
      intro nothing
      rcases checkLinkStatusFrom_cases addr hello.neighbors .unspec with
        ⟨-, untyped⟩ | ⟨neighbor, -, -, isTyped, answer⟩
      · exact typed (untyped _ inHello isAddr)
      · exact isTyped (answer.symm.trans nothing)

end Sensing

section Messages

variable {hello : LqHelloMessage ver} {fragments : List (List (HelloBlock ver 4))}

section Decoded

variable {records : List (LqHelloNeighbor ver)}
  (listable : ∀ record ∈ records, record.linkType ∈ LinkType.order)
include listable

private theorem exists_of_mem_decodedNeighbors {neighbor : HelloNeighbor (IpAddr ver)}
    (mem : neighbor ∈ decodedNeighbors (some handler) records) :
    ∃ neigh ∈ records, neighbor = decodeNeighbor (some handler) neigh := by
  have perm : (decodedNeighbors (some handler) records).Perm _ := decodedNeighbors_perm listable
  rw [perm.mem_iff, mem_map] at mem
  obtain ⟨neigh, inFilter, isNeigh⟩ := mem
  exact ⟨neigh, mem_of_mem_filter inFilter, isNeigh.symm⟩

private theorem mem_decodedNeighbors {neigh : LqHelloNeighbor ver} (mem : neigh ∈ records)
    (typed : neigh.linkType ≠ .unspec) :
    decodeNeighbor (some handler) neigh ∈ decodedNeighbors (some handler) records := by
  have perm : (decodedNeighbors (some handler) records).Perm _ := decodedNeighbors_perm listable
  rw [perm.mem_iff, mem_map]
  exact ⟨neigh, mem_filter.mpr ⟨mem, by simp [isCulled, typed]⟩, rfl⟩

end Decoded

private theorem lists_of_decodedAs
    (decodedAs : List.Forall₂
        (fun blocks decoded =>
          DecodedAs (some handler) hello.will hello.qos hello.isHead (blocksRecords blocks) decoded)
        fragments hellos) :
    Lists handler hellos (blocksRecords fragments.flatten) := by
  induction decodedAs with
  | nil =>
    exact ⟨fun _ no => (not_mem_nil no).elim, fun _ no => (not_mem_nil no).elim⟩
  | @cons blocks first restBlocks restHellos isDecoded _ ih =>
    have split : blocksRecords (blocks :: restBlocks).flatten =
          blocksRecords blocks ++ blocksRecords restBlocks.flatten := by
      rw [flatten_cons]
      exact flatMap_append ..
    rw [split]
    constructor
    · intro decoded mem neighbor inNbrs
      rcases mem_cons.mp mem with rfl | inRest
      · rw [isDecoded.neighbors_eq] at inNbrs
        obtain ⟨neigh, inBlocks, isNeigh⟩ :=
          exists_of_mem_decodedNeighbors (fun _ => linkType_mem_order) inNbrs
        exact ⟨neigh, mem_append_left _ inBlocks, isNeigh⟩
      · obtain ⟨neigh, inOthers, isNeigh⟩ := ih.sound decoded inRest neighbor inNbrs
        exact ⟨neigh, mem_append_right _ inOthers, isNeigh⟩
    · intro neigh mem typed
      rcases mem_append.mp mem with inBlocks | inOthers
      · refine ⟨first, mem_cons_self, ?_⟩
        rw [isDecoded.neighbors_eq]
        exact mem_decodedNeighbors (fun _ => linkType_mem_order) inBlocks typed
      · obtain ⟨decoded, inRest, isListed⟩ := ih.listed neigh inOthers typed
        exact ⟨decoded, mem_cons_of_mem first inRest, isListed⟩

theorem Lists.of_grouped {entries : List (LqHelloNeighbor ver)}
    (lists : Lists handler hellos (grouped HelloRecord.group helloGroups entries))
    (listed : ∀ neigh ∈ entries, neigh.group ∈ helloGroups) : Lists handler hellos entries := by
  constructor
  · intro decoded mem neighbor inNbrs
    obtain ⟨neigh, inGroups, isNeigh⟩ := lists.sound decoded mem neighbor inNbrs
    exact ⟨neigh, (mem_grouped.mp inGroups).1, isNeigh⟩
  · intro neigh mem typed
    exact lists.listed neigh (mem_grouped.mpr ⟨mem, listed neigh mem⟩) typed

end Messages

section EndToEnd

variable (cfg : HelloConfig ver) (ctx : LinkContext) (interface : HelloInterface ver)
  (tables : HelloTables ver) (outif : Outif) (handler : LqHandler) (addr : IpAddr ver)

/-- The receiver decodes the entries that the sender made, those of the groups
that a HELLO has. -/
theorem exchange_grouped
    (capacity : lqHelloHeaderSize ver + (helloRecordSize ver 4 + 4) ≤ min 1228 outif.maxsize) :
    ∃ sent messages, serializeLqHello (createLqHello cfg ctx interface tables)
          outif = some sent ∧
        sent.messages = outif.messages ++ messages ∧
        ∀ buffers, List.Forall₂ (fun mem msg => Carries mem 0 msg) buffers messages →
          ∃ hellos,
            (∀ decoded, List.Forall₂ (fun mem hello => Decodes handler mem hello)
                  buffers decoded ↔ decoded = hellos) ∧
              Lists handler hellos (grouped HelloRecord.group helloGroups
                (helloEntries ctx interface.ipAddr tables)) := by
  obtain ⟨sent, fragments, messages, serialized, cut, emits, records⟩ :=
    serializeLqHello_fragmented (createLqHello cfg ctx interface tables) capacity
  refine ⟨sent, messages, serialized, emits.messages_eq, ?_⟩
  intro buffers received
  obtain ⟨hellos, decodes, decodedAs⟩ := decodes_all (some handler) rfl
      (fun other isOther => (Option.some.inj isOther).symm) cut received
  refine ⟨hellos, fun decoded => ⟨fun other => ?_, ?_⟩, ?_⟩
  · exact decodes_all_unique other decodes
  · rintro rfl
    exact decodes
  · exact records ▸ lists_of_decodedAs decodedAs

theorem listed_of_noHysteresis (noHysteresis : ctx.useHysteresis = false) :
    ∀ neigh ∈ helloEntries ctx interface.ipAddr tables, neigh.group ∈ helloGroups := by
  intro neigh mem
  obtain ⟨status, link⟩ := helloEntries_listable noHysteresis mem
  exact mem_product.mpr ⟨status, link⟩

/-- What the receiver at `addr` learns about its link to the sender is right
exactly when the sender lists no two-hop head at that address, or has a
symmetric link to it. -/
theorem linkSensing_sound_iff (noHysteresis : ctx.useHysteresis = false)
    (capacity : lqHelloHeaderSize ver + (helloRecordSize ver 4 + 4) ≤ min 1228 outif.maxsize) :
    ∃ sent messages, serializeLqHello (createLqHello cfg ctx interface tables)
          outif = some sent ∧
        sent.messages = outif.messages ++ messages ∧
        ∀ buffers, List.Forall₂ (fun mem msg => Carries mem 0 msg) buffers messages →
          ∃ hellos,
            (∀ decoded, List.Forall₂ (fun mem hello => Decodes handler mem hello)
                  buffers decoded ↔ decoded = hellos) ∧
              (SensesLinks ctx interface.ipAddr addr tables.links hellos ↔
                TwoHopHeadsLinked ctx interface.ipAddr addr tables) := by
  obtain ⟨sent, messages, serialized, total, exchange⟩ :=
    exchange_grouped cfg ctx interface tables outif handler capacity
  refine ⟨sent, messages, serialized, total, ?_⟩
  intro buffers received
  obtain ⟨hellos, decodes, lists⟩ := exchange buffers received
  have listed := listed_of_noHysteresis ctx interface tables noHysteresis
  exact ⟨hellos, decodes, sensesLinks_iff (lists.of_grouped listed)⟩

end EndToEnd

def sensingConfig : HelloConfig .inet := ⟨.v4 10 0 0 1, 3, 7, 0⟩

def sensingInterface : HelloInterface .inet := ⟨.v4 10 0 0 1, 134, 134⟩

def receiverAddr : IpAddr .inet := .v4 10 0 0 2

def linkedTables : HelloTables .inet where
  links :=
    [{ localIfaceAddr := .v4 10 0 0 1
       neighborIfaceAddr := receiverAddr
       linkSymTimer := true
       asymTime := 100
       linkPending := false
       lostLinkTime := 0
       neighbor := ⟨receiverAddr, .sym, 0, 0, false, false⟩
       linkquality := .ofFour 0 0 255 255 }]
  twoHopNeighbortable := [⟨.v4 10 0 0 3, true, .ofFour 0 0 0 0⟩]

theorem linkSensing_sound_iff_linked : ∃ sent messages, serializeLqHello
          (createLqHello sensingConfig ⟨10, false⟩ sensingInterface
            linkedTables) ⟨1500, 0, 0, []⟩ = some sent ∧
        sent.messages = messages ∧
        ∀ buffers, List.Forall₂ (fun mem msg => Carries mem 0 msg) buffers messages →
          ∃ hellos, List.Forall₂ (fun mem hello => Decodes .etxFfeth mem hello)
                buffers hellos ∧
              SensesLinks ⟨10, false⟩ sensingInterface.ipAddr receiverAddr
                linkedTables.links hellos := by
  obtain ⟨sent, messages, serialized, total, exchange⟩ :=
    linkSensing_sound_iff sensingConfig ⟨10, false⟩ sensingInterface
      linkedTables ⟨1500, 0, 0, []⟩ .etxFfeth receiverAddr rfl (by decide)
  refine ⟨sent, messages, serialized, total, ?_⟩
  intro buffers received
  obtain ⟨hellos, decodes, senses⟩ := exchange buffers received
  refine ⟨hellos, (decodes hellos).mpr rfl, senses.mpr ?_⟩
  intro neigh2 inTable _ isReceiver
  rw [mem_singleton.mp inTable] at isReceiver
  exact absurd isReceiver (by decide)

/-- The receiver is a head two hops away, and the sender does not hear it. -/
def unheardTables : HelloTables .inet where
  links := []
  twoHopNeighbortable := [⟨receiverAddr, true, .ofFour 0 0 0 0⟩]

/-- A head two hops away is told that the sender has a symmetric link to
it. -/
theorem linkSensing_twoHopHead_misled : ¬ ∀ (ver : IpVersion) (cfg : HelloConfig ver)
        (ctx : LinkContext) (interface : HelloInterface ver)
        (tables : HelloTables ver) (outif : Outif)
        (handler : LqHandler) (addr : IpAddr ver),
        ctx.useHysteresis = false →
        lqHelloHeaderSize ver + (helloRecordSize ver 4 + 4) ≤ min 1228 outif.maxsize →
        ∀ sent messages buffers hellos,
          serializeLqHello (createLqHello cfg ctx interface tables) outif = some sent →
          sent.messages = outif.messages ++ messages →
          List.Forall₂ (fun mem msg => Carries mem 0 msg) buffers messages →
          List.Forall₂ (fun mem hello => Decodes handler mem hello) buffers hellos →
          SensesLinks ctx interface.ipAddr addr tables.links hellos := by
  intro sound
  have capacity : lqHelloHeaderSize .inet + (helloRecordSize .inet 4 + 4) ≤ min 1228 1500 := by
    decide
  obtain ⟨sent, messages, serialized, total, exchange⟩ :=
    exchange_grouped sensingConfig ⟨10, false⟩ sensingInterface unheardTables
      ⟨1500, 0, 0, []⟩ .etxFfeth capacity
  have received := carries_map_ofBytes messages
  obtain ⟨hellos, decodes, lists⟩ := exchange _ received
  have senses : SensesLinks ⟨10, false⟩ sensingInterface.ipAddr receiverAddr
        unheardTables.links hellos :=
    sound .inet sensingConfig ⟨10, false⟩ sensingInterface unheardTables
      ⟨1500, 0, 0, []⟩ .etxFfeth receiverAddr rfl capacity sent messages _
      hellos serialized total received ((decodes hellos).mpr rfl)
  have listed := listed_of_noHysteresis ⟨10, false⟩ sensingInterface unheardTables rfl
  obtain ⟨walker, impossible, -⟩ :=
    (sensesLinks_iff (lists.of_grouped listed)).mp senses _ mem_cons_self rfl rfl
  exact not_mem_nil impossible

end QosOlsr
