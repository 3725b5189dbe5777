import QosOlsr.Hello.Blocks
import QosOlsr.LinkSet

/-!
# Building LQ_HELLO messages

`create_lq_hello` of `lq_packet.c` lists two kinds of entries: one for each
address in the link set, and one for each head two hops away.
-/

namespace QosOlsr

open List

variable {ver : IpVersion} {ctx : LinkContext} {outifAddr : IpAddr ver}
  {links : List (LinkEntry ver)}

section

variable (ver : IpVersion)

/-- `struct lq_hello_neighbor`, with the link quality as it is sent. -/
abbrev LqHelloNeighbor := HelloRecord ver 4

/-- `struct lq_hello_message`, with the time in its wire form. -/
structure LqHelloMessage where
  comm : OlsrCommon ver
  htime : UInt8
  will : UInt8
  qos : Nat
  isHead : Nat
  neigh : List (LqHelloNeighbor ver)

structure HelloConfig where
  mainAddr : IpAddr ver
  willingness : UInt8
  qos : Nat
  isHead : Nat

/-- The fields of the interface that go into a HELLO, with the times in their
wire form. -/
structure HelloInterface where
  ipAddr : IpAddr ver
  valtimesHello : UInt8
  helloEtime : UInt8

/-- The fields of `struct neighbor_2_entry` that a HELLO is built from; the
cost is in the form it takes on the wire. -/
structure Neighbor2Entry where
  neighbor2Addr : IpAddr ver
  is2hop : Bool
  pathLinkcost : LqBytes

/-- The tables `create_lq_hello` reads; the two-hop table is listed bucket by
bucket. -/
structure HelloTables where
  links : List (LinkEntry ver)
  twoHopNeighbortable : List (Neighbor2Entry ver)

end

def neighFind (neighs : List (LqHelloNeighbor ver))
    (walker : LinkEntry ver) : Option (LqHelloNeighbor ver) :=
  neighs.find? fun neigh => neigh.addr = walker.neighborIfaceAddr

def linkNeighType (neighbor : NeighborEntry (IpAddr ver)) : NeighType :=
  if neighbor.isMpr ∧ neighbor.myHead then
    .mprHead
  else if neighbor.isHead ≠ 0 then
    .nhead
  else if neighbor.isMpr ∧ ¬ neighbor.myHead then
    .mprNeigh
  else
    match neighbor.status with
    | .sym => .symNeigh
    | .notSym => .notNeigh

def overwriteNeigh (entry : LqHelloNeighbor ver) :
    List (LqHelloNeighbor ver) → List (LqHelloNeighbor ver)
  | [] => []
  | neigh :: rest =>
    if neigh.addr = entry.addr then
      entry :: rest
    else
      neigh :: overwriteNeigh entry rest

section Create

variable (ctx : LinkContext) (outifAddr : IpAddr ver)

def helloLinkType (walker : LinkEntry ver) : LinkType :=
  if walker.localIfaceAddr ≠ outifAddr then
    .unspec
  else
    lookupLinkStatus ctx walker

def linkHelloEntry (walker : LinkEntry ver) : LqHelloNeighbor ver :=
  ⟨helloLinkType ctx outifAddr walker, linkNeighType walker.neighbor,
    walker.neighborIfaceAddr, walker.linkquality.bytes,
    walker.linkquality.length_eq⟩

variable (neighs : List (LqHelloNeighbor ver))

def addLinkEntry (walker : LinkEntry ver) : List (LqHelloNeighbor ver) :=
  let entry := linkHelloEntry ctx outifAddr walker
  match neighFind neighs walker with
  | none => entry :: neighs
  | some neigh =>
    if neigh.linkType = .unspec ∧ entry.linkType ≠ .unspec then
      overwriteNeigh entry neighs
    else
      neighs

def twoHopHelloEntry (neigh2 : Neighbor2Entry ver) : LqHelloNeighbor ver :=
  ⟨.sym, .twoHead, neigh2.neighbor2Addr, neigh2.pathLinkcost.bytes, neigh2.pathLinkcost.length_eq⟩

/-- One round of the loop over the two-hop table.  The `continue` of the
source for an address that is already listed only continues the search for
it, so the entry is made in any case. -/
def addTwoHopHead (neigh2 : Neighbor2Entry ver) : List (LqHelloNeighbor ver) :=
  if ¬ neigh2.is2hop then
    neighs
  else
    twoHopHelloEntry neigh2 :: neighs

def helloEntries (tables : HelloTables ver) : List (LqHelloNeighbor ver) :=
  tables.twoHopNeighbortable.foldl addTwoHopHead
    (tables.links.foldl (addLinkEntry ctx outifAddr) [])

end Create

def createLqHello (cfg : HelloConfig ver) (ctx : LinkContext) (interface : HelloInterface ver)
    (tables : HelloTables ver) : LqHelloMessage ver where
  comm :=
    { type := lqHelloMessage
      vtime := interface.valtimesHello
      orig := cfg.mainAddr
      ttl := 1
      hops := 0 }
  htime := interface.helloEtime
  will := cfg.willingness
  qos := cfg.qos
  isHead := cfg.isHead
  neigh := helloEntries ctx interface.ipAddr tables

section Origin

variable {neighs : List (LqHelloNeighbor ver)}

private theorem mem_overwriteNeigh {entry neigh : LqHelloNeighbor ver}
    (mem : neigh ∈ overwriteNeigh entry neighs) : neigh = entry ∨ neigh ∈ neighs := by
  induction neighs with
  | nil => exact (not_mem_nil mem).elim
  | cons first rest ih =>
    rw [overwriteNeigh] at mem
    split at mem
    · rcases mem_cons.mp mem with isEntry | inRest
      · exact Or.inl isEntry
      · exact Or.inr (mem_cons_of_mem first inRest)
    · rcases mem_cons.mp mem with isFirst | inRest
      · exact Or.inr (isFirst ▸ mem_cons_self)
      · rcases ih inRest with isEntry | older
        · exact Or.inl isEntry
        · exact Or.inr (mem_cons_of_mem first older)

variable {neigh : LqHelloNeighbor ver}

private theorem mem_addLinkEntry {walker : LinkEntry ver}
    (mem : neigh ∈ addLinkEntry ctx outifAddr neighs walker) :
    neigh = linkHelloEntry ctx outifAddr walker ∨ neigh ∈ neighs := by
  unfold addLinkEntry at mem
  dsimp only at mem
  split at mem
  · exact mem_cons.mp mem
  · split at mem
    · exact mem_overwriteNeigh mem
    · exact Or.inr mem

private theorem mem_foldl_addLinkEntry
    (mem : neigh ∈ links.foldl (addLinkEntry ctx outifAddr) neighs) :
    (∃ walker ∈ links, neigh = linkHelloEntry ctx outifAddr walker) ∨ neigh ∈ neighs := by
  induction links generalizing neighs with
  | nil => exact Or.inr mem
  | cons walker rest ih =>
    rcases ih mem with made | earlier
    · obtain ⟨later, inRest, isLater⟩ := made
      exact Or.inl ⟨later, mem_cons_of_mem walker inRest, isLater⟩
    · rcases mem_addLinkEntry earlier with isWalker | older
      · exact Or.inl ⟨walker, mem_cons_self, isWalker⟩
      · exact Or.inr older

theorem mem_foldl_addTwoHopHead
    {table : List (Neighbor2Entry ver)} : neigh ∈ table.foldl addTwoHopHead neighs ↔
      (∃ neigh2 ∈ table, neigh2.is2hop = true ∧ neigh = twoHopHelloEntry neigh2) ∨
      neigh ∈ neighs := by
  induction table generalizing neighs with
  | nil => simp
  | cons neigh2 rest ih =>
    rw [foldl_cons, ih, addTwoHopHead]
    cases is2hop : neigh2.is2hop with
    | false => simp [is2hop]
    | true => simp [is2hop, or_assoc, or_left_comm]

variable {tables : HelloTables ver}

/-- An entry is made from a link or from a head two hops away. -/
theorem mem_helloEntries
    (mem : neigh ∈ helloEntries ctx outifAddr tables) :
    (∃ neigh2 ∈ tables.twoHopNeighbortable, neigh2.is2hop = true ∧
        neigh = twoHopHelloEntry neigh2) ∨
      ∃ walker ∈ tables.links, neigh = linkHelloEntry ctx outifAddr walker := by
  rcases mem_foldl_addTwoHopHead.mp mem with twoHop | linked
  · exact Or.inl twoHop
  · rcases mem_foldl_addLinkEntry linked with made | no
    · exact Or.inr made
    · exact (not_mem_nil no).elim

private theorem linkNeighType_mem_order (neighbor : NeighborEntry (IpAddr ver)) :
    linkNeighType neighbor ∈ NeighType.order := by
  unfold linkNeighType
  cases neighbor.status with
  | sym => split_ifs <;> decide
  | notSym => split_ifs <;> decide

theorem helloEntries_listable
    (noHysteresis : ctx.useHysteresis = false) (mem : neigh ∈ helloEntries ctx outifAddr tables) :
    neigh.neighType ∈ NeighType.order ∧ neigh.linkType ∈ LinkType.order := by
  rcases mem_helloEntries mem with ⟨neigh2, -, -, rfl⟩ | ⟨walker, -, rfl⟩
  · dsimp only [twoHopHelloEntry]
    exact ⟨by decide, by decide⟩
  · refine ⟨linkNeighType_mem_order walker.neighbor, ?_⟩
    change helloLinkType ctx outifAddr walker ∈ LinkType.order
    unfold helloLinkType
    split
    · decide
    · exact lookupLinkStatus_mem_order noHysteresis walker

end Origin

section Listed

variable {outifAddr addr : IpAddr ver} {neighs : List (LqHelloNeighbor ver)}
  {walker : LinkEntry ver}

def listedAs (neighs : List (LqHelloNeighbor ver)) (addr : IpAddr ver) : Option LinkType :=
  (neighs.find? fun neigh => neigh.addr = addr).map HelloRecord.linkType

theorem listedAs_cons (first : LqHelloNeighbor ver)
    (rest : List (LqHelloNeighbor ver)) (addr : IpAddr ver) :
    listedAs (first :: rest) addr =
      if first.addr = addr then some first.linkType else listedAs rest addr := by
  unfold listedAs
  rw [find?_cons]
  by_cases same : first.addr = addr
  · simp [same]
  · simp [same]

theorem exists_of_listedAs {linkType : LinkType} (listed : listedAs neighs addr = some linkType) :
    ∃ neigh ∈ neighs, neigh.addr = addr ∧ neigh.linkType = linkType := by
  obtain ⟨neigh, found, isType⟩ := Option.map_eq_some_iff.mp listed
  refine ⟨neigh, mem_of_find?_eq_some found, ?_, isType⟩
  simpa using find?_some found

theorem listedAs_overwriteNeigh (entry : LqHelloNeighbor ver) :
    listedAs (overwriteNeigh entry neighs) addr =
      if entry.addr = addr then
        (listedAs neighs addr).map fun _ => entry.linkType
      else
        listedAs neighs addr := by
  induction neighs with
  | nil => simp [overwriteNeigh, listedAs]
  | cons first rest ih =>
    rw [overwriteNeigh]
    split
    next overwritten =>
      simp only [listedAs_cons, overwritten]
      split <;> rfl
    next other =>
      simp only [listedAs_cons, ih]
      by_cases isEntry : entry.addr = addr
      · have isOther : first.addr ≠ addr := by
          rw [← isEntry]
          exact other
        simp [isEntry, isOther]
      · simp [isEntry]

/-- A link changes the entry of its own address only, and that only while it
has no link type. -/
theorem listedAs_addLinkEntry : listedAs (addLinkEntry ctx outifAddr neighs walker) addr =
      if walker.neighborIfaceAddr = addr ∧
          (listedAs neighs addr = none ∨ listedAs neighs addr = some .unspec) then
        some (helloLinkType ctx outifAddr walker)
      else
        listedAs neighs addr := by
  by_cases own : walker.neighborIfaceAddr = addr
  · have found : (neighFind neighs walker).map HelloRecord.linkType = listedAs neighs addr := by
      rw [neighFind, own]
      rfl
    unfold addLinkEntry
    cases known : neighFind neighs walker with
    | none =>
      rw [known] at found
      simp [listedAs_cons, linkHelloEntry, own, ← found]
    | some neigh =>
      rw [known] at found
      by_cases silent : neigh.linkType = .unspec
      · by_cases stays : helloLinkType ctx outifAddr walker = .unspec
        · simp [linkHelloEntry, own, ← found, silent, stays]
        · simp [listedAs_overwriteNeigh, linkHelloEntry, own, ← found, silent, stays]
      · simp [linkHelloEntry, own, ← found, silent]
  · unfold addLinkEntry
    cases neighFind neighs walker with
    | none => simp [listedAs_cons, linkHelloEntry, own]
    | some neigh =>
      dsimp only
      split
      · simp [listedAs_overwriteNeigh, linkHelloEntry, own]
      · simp [own]

def ownLink (outifAddr addr : IpAddr ver) (walker : LinkEntry ver) : Bool :=
  walker.localIfaceAddr = outifAddr ∧ walker.neighborIfaceAddr = addr

theorem helloLinkType_of_ownLink (own : ownLink outifAddr addr walker = true) :
    helloLinkType ctx outifAddr walker = lookupLinkStatus ctx walker := by
  obtain ⟨isLocal, -⟩ := of_decide_eq_true own
  rw [helloLinkType, if_neg (not_not.mpr isLocal)]

private theorem listedAs_foldl_of_ne_unspec {linkType : LinkType} (typed : linkType ≠ .unspec)
    (listed : listedAs neighs addr = some linkType) :
    listedAs (links.foldl (addLinkEntry ctx outifAddr) neighs) addr = some linkType := by
  induction links generalizing neighs with
  | nil => exact listed
  | cons walker rest ih =>
    apply ih
    rw [listedAs_addLinkEntry, listed]
    simp [typed]

/-- The only link from the interface to an address is listed with its
status. -/
theorem listedAs_foldl_of_unique
    (silent : listedAs neighs addr = none ∨ listedAs neighs addr = some .unspec)
    (unique : links.filter (ownLink outifAddr addr) = [walker]) :
    listedAs (links.foldl (addLinkEntry ctx outifAddr) neighs) addr =
      some (lookupLinkStatus ctx walker) := by
  induction links generalizing neighs with
  | nil => cases unique
  | cons first rest ih =>
    rw [foldl_cons]
    by_cases own : ownLink outifAddr addr first = true
    · rw [filter_cons_of_pos own] at unique
      obtain ⟨rfl, -⟩ := List.cons.inj unique
      apply listedAs_foldl_of_ne_unspec (lookupLinkStatus_ne_unspec ctx first)
      have isAddr := (of_decide_eq_true own).2
      rw [listedAs_addLinkEntry, if_pos ⟨isAddr, silent⟩, helloLinkType_of_ownLink own]
    · rw [filter_cons_of_neg own] at unique
      apply ih _ unique
      rw [listedAs_addLinkEntry]
      split
      next named =>
        -- a link to the address from another interface
        have elsewhere : first.localIfaceAddr ≠ outifAddr := by
          intro isLocal
          exact own (decide_eq_true ⟨isLocal, named.1⟩)
        rw [helloLinkType, if_pos elsewhere]
        exact Or.inr rfl
      next unnamed => exact silent

end Listed

section Addresses

variable {neighs : List (LqHelloNeighbor ver)}

private theorem map_addr_overwriteNeigh (entry : LqHelloNeighbor ver) :
    (overwriteNeigh entry neighs).map HelloRecord.addr = neighs.map HelloRecord.addr := by
  induction neighs with
  | nil => rfl
  | cons first rest ih =>
    rw [overwriteNeigh]
    split
    next same => rw [map_cons, map_cons, same]
    · rw [map_cons, map_cons, ih]

private theorem map_addr_addLinkEntry (walker : LinkEntry ver) :
    (addLinkEntry ctx outifAddr neighs walker).map HelloRecord.addr =
      if walker.neighborIfaceAddr ∈ neighs.map HelloRecord.addr then
        neighs.map HelloRecord.addr
      else
        walker.neighborIfaceAddr :: neighs.map HelloRecord.addr := by
  rw [addLinkEntry]
  cases known : neighFind neighs walker with
  | none =>
    have isNew : walker.neighborIfaceAddr ∉ neighs.map HelloRecord.addr := by
      simpa [neighFind] using known
    rw [if_neg isNew]
    rfl
  | some neigh =>
    have isAddr : neigh.addr = walker.neighborIfaceAddr := by simpa using find?_some known
    have isOld : walker.neighborIfaceAddr ∈ neighs.map HelloRecord.addr := by
      rw [← isAddr]
      exact mem_map_of_mem (mem_of_find?_eq_some known)
    rw [if_pos isOld]
    dsimp only
    split
    · exact map_addr_overwriteNeigh _
    · rfl

private theorem addrs_foldl_addLinkEntry
    (links : List (LinkEntry ver)) (nodup : (neighs.map HelloRecord.addr).Nodup) :
    ((links.foldl (addLinkEntry ctx outifAddr) neighs).map HelloRecord.addr).Nodup ∧
      ∀ addr, addr ∈ (links.foldl (addLinkEntry ctx outifAddr) neighs).map HelloRecord.addr ↔
      addr ∈ neighs.map HelloRecord.addr ∨ addr ∈ links.map LinkEntry.neighborIfaceAddr := by
  induction links generalizing neighs with
  | nil => exact ⟨nodup, fun addr => by simp⟩
  | cons walker rest ih =>
    have addrs : (addLinkEntry ctx outifAddr neighs walker).map HelloRecord.addr = _ :=
      map_addr_addLinkEntry walker
    rw [foldl_cons, map_cons]
    split at addrs
    next listed =>
      obtain ⟨restNodup, members⟩ := ih (addrs ▸ nodup)
      refine ⟨restNodup, fun addr => ?_⟩
      rw [members, addrs, mem_cons, or_left_comm]
      refine (or_iff_right_of_imp ?_).symm
      rintro rfl
      exact Or.inl listed
    next isNew =>
      obtain ⟨restNodup, members⟩ := ih (addrs ▸ nodup_cons.mpr ⟨isNew, nodup⟩)
      refine ⟨restNodup, fun addr => ?_⟩
      rw [members, addrs, mem_cons, mem_cons, or_assoc, or_left_comm]

def twoHopHeadAddrs (tables : HelloTables ver) : List (IpAddr ver) :=
  (tables.twoHopNeighbortable.filter Neighbor2Entry.is2hop).map Neighbor2Entry.neighbor2Addr

private theorem map_addr_foldl_addTwoHopHead (table : List (Neighbor2Entry ver)) :
    (table.foldl addTwoHopHead neighs).map HelloRecord.addr =
      ((table.filter Neighbor2Entry.is2hop).map Neighbor2Entry.neighbor2Addr).reverse ++
        neighs.map HelloRecord.addr := by
  induction table generalizing neighs with
  | nil => rfl
  | cons neigh2 rest ih =>
    rw [foldl_cons, ih, addTwoHopHead]
    cases is2hop : neigh2.is2hop with
    | false => simp [is2hop]
    | true => simp [is2hop, twoHopHelloEntry]

/-- A HELLO lists each address once exactly if the heads two hops away have
distinct addresses, and none that a link leads to. -/
theorem createLqHello_addrs_nodup_iff (cfg : HelloConfig ver) (ctx : LinkContext)
    (interface : HelloInterface ver) (tables : HelloTables ver) :
    ((createLqHello cfg ctx interface tables).neigh.map HelloRecord.addr).Nodup ↔
      (twoHopHeadAddrs tables).Nodup ∧ ∀ addr ∈ twoHopHeadAddrs tables,
          addr ∉ tables.links.map LinkEntry.neighborIfaceAddr := by
  obtain ⟨linksNodup, linkAddrs⟩ :
      ((tables.links.foldl (addLinkEntry ctx interface.ipAddr) []).map
        HelloRecord.addr).Nodup ∧ _ :=
    addrs_foldl_addLinkEntry tables.links nodup_nil
  have addrs : (createLqHello cfg ctx interface tables).neigh.map HelloRecord.addr =
        (twoHopHeadAddrs tables).reverse ++
          (tables.links.foldl (addLinkEntry ctx interface.ipAddr) []).map HelloRecord.addr :=
    map_addr_foldl_addTwoHopHead tables.twoHopNeighbortable
  rw [addrs, nodup_append', nodup_reverse]
  constructor
  · rintro ⟨headsNodup, -, disjoint⟩
    refine ⟨headsNodup, fun addr isHead isLink => ?_⟩
    exact disjoint (mem_reverse.mpr isHead) ((linkAddrs addr).mpr (Or.inr isLink))
  · rintro ⟨headsNodup, apart⟩
    refine ⟨headsNodup, linksNodup, fun addr isHead isListed => ?_⟩
    rcases (linkAddrs addr).mp isListed with impossible | isLink
    · exact not_mem_nil impossible
    · exact apart addr (mem_reverse.mp isHead) isLink

/-- The neighbour 10.0.0.2, which is a head two hops away as well. -/
def headBehindLink : HelloTables .inet where
  links :=
    [{ localIfaceAddr := .v4 10 0 0 1
       neighborIfaceAddr := .v4 10 0 0 2
       linkSymTimer := true
       asymTime := 0
       linkPending := false
       lostLinkTime := 0
       neighbor := ⟨.v4 10 0 0 2, .sym, 0, 0, false, false⟩
       linkquality := .ofFour 255 255 0 0 }]
  twoHopNeighbortable := [⟨.v4 10 0 0 2, true, .ofFour 0 0 4 0⟩]

/-- The search for the address of a head does not keep it from being listed
again. -/
theorem createLqHello_lists_head_twice :
    (createLqHello ⟨⟨[10, 0, 0, 1], rfl⟩, 3, 0, 0⟩ ⟨0, false⟩ ⟨⟨[10, 0, 0, 1], rfl⟩, 0, 0⟩
        headBehindLink).neigh.map HelloRecord.addr =
      [⟨[10, 0, 0, 2], rfl⟩, ⟨[10, 0, 0, 2], rfl⟩] := by
  decide

end Addresses

end QosOlsr
