import QosOlsr.Neighborhood.TwoHopRuns

/-!
# Links and the neighbours they lead to

The part of `link_set.c` that creates, finds and deletes links, and the part
of `mid_set.c` that changes neighbours and links when an interface address
turns out to belong to another main address.
-/

namespace QosOlsr.Neighborhood

open Library

/-- The fields of `struct interface_olsr` that a link is compared with. -/
structure Interface (Addr : Type) where
  intName : Option String
  ipAddr : Addr

section Links

variable {Addr Bucket : Type} [DecidableEq Addr] (hash : Addr → Bucket)

def isLinkEntry (remote : Addr) (localIf : Interface Addr) (link : LinkEntry Addr) : Bool :=
  remote = link.neighborIfaceAddr &&
    match link.ifName with
    | some name => some name = localIf.intName
    | none => localIf.ipAddr = link.localIfaceAddr

variable [DecidableEq Bucket]

def findLinkEntry (remote : Addr) (localIf : Interface Addr) (tables : Tables Addr Bucket) :
    Option (LinkEntry Addr) :=
  tables.linkSet.find? (isLinkEntry remote localIf)

/-- What `lookup_link_entry` does to the tables: the neighbour behind the link
is renamed if another main address is given. -/
def lookupLinkEntry (remote : Addr) (remoteMain : Option Addr) (localIf : Interface Addr)
    (tables : Tables Addr Bucket) : Option (Tables Addr Bucket) :=
  match findLinkEntry remote localIf tables, remoteMain with
  | some link, some mainAddr => do
    let nbr ← tables.nbr link.neighbor
    if mainAddr ≠ nbr.neighborMainAddr then
      olsrUpdateNeighborMainAddr hash link.neighbor mainAddr tables
    else
      some tables
  | _, _ => some tables

/-- The neighbour that `add_link_entry` connects a new link with. -/
def neighborOfNewLink (remoteMain : Addr) (tables : Tables Addr Bucket) :
    Tables Addr Bucket × Ptr :=
  match olsrLookupNeighborTable hash tables remoteMain with
  | some neighbor => (tables, neighbor.ptr)
  | none => olsrInsertNeighborTable hash remoteMain tables

def queueLinkEntry (remote : Addr) (localIf : Interface Addr) (neighbor : Ptr)
    (tables : Tables Addr Bucket) : Tables Addr Bucket :=
  { tables.writeNbr neighbor
      (fun nbr => { nbr with linkcount := nbr.linkcount + 1 }) with
    linkSet := tables.linkSet ++
        [⟨localIf.intName, localIf.ipAddr, remote, neighbor⟩] }

def addLinkEntry (remote remoteMain : Addr) (localIf : Interface Addr)
    (tables : Tables Addr Bucket) : Option (Tables Addr Bucket) :=
  match findLinkEntry remote localIf tables with
  | some _ => lookupLinkEntry hash remote (some remoteMain) localIf tables
  | none =>
    let found := neighborOfNewLink hash remoteMain tables
    some (queueLinkEntry remote localIf found.2 found.1)

/-- `olsr_delete_link_entry`, of the link at an index of the list. -/
def olsrDeleteLinkEntry (index : Nat) (tables : Tables Addr Bucket) :
    Option (Tables Addr Bucket) := do
  let link ← tables.linkSet[index]?
  let nbr ← tables.nbr link.neighbor
  let tables ←
    if nbr.linkcount = 1 then
      olsrDeleteNeighborTable hash nbr.neighborMainAddr tables
    else
      some <| tables.writeNbr link.neighbor fun nbr =>
        { nbr with linkcount := nbr.linkcount - 1 }
  some { tables with linkSet := tables.linkSet.eraseIdx index }

def replaceNeighborLinkSet (old new : Ptr) (tables : Tables Addr Bucket) : Tables Addr Bucket :=
  { tables with
    linkSet := tables.linkSet.map fun link =>
        if link.neighbor = old then { link with neighbor := new } else link }

/-- The links of the neighbour `aliasAddr` move to its main address. -/
def mergeAliasNeighbor
    (mAddr aliasAddr : Addr) (tables : Tables Addr Bucket) : Tables Addr Bucket :=
  match olsrLookupNeighborTableAlias hash tables aliasAddr,
      olsrLookupNeighborTableAlias hash tables mAddr with
  | some tmpNeigh, some realNeigh =>
    (replaceNeighborLinkSet tmpNeigh.ptr realNeigh.ptr tables).freeNbr tmpNeigh.ptr
  | _, _ => tables

/-- One round of the loop of `insert_mid_tuple`: an alias is no two-hop
neighbour, and no neighbour beside its main address. -/
def dropAliasEntries (mAddr : Addr) (tables : Tables Addr Bucket) (aliasAddr : Addr) :
    Option (Tables Addr Bucket) := do
  let tables ←
    match olsrLookupTwoHopNeighborTableMid hash tables aliasAddr with
    | some twoHopNeighbor => olsrDeleteTwoHopNeighborTable twoHopNeighbor.ptr tables
    | none => some tables
  return mergeAliasNeighbor hash mAddr aliasAddr tables

def insertMidTuple (mAddr aliasAddr : Addr) (tables : Tables Addr Bucket) :
    Option (Tables Addr Bucket) :=
  if midLookupMainAddr tables.mids aliasAddr = some mAddr then
    some tables
  else
    let mids := queueMidTuple tables.mids mAddr aliasAddr
    ((midLookupAliases mids mAddr).map MidAddress.aliasAddr).foldlM
      (dropAliasEntries hash mAddr) { tables with mids := mids }

/-- The part of `insert_mid_alias` for an alias that is in the neighbour
table. -/
def replaceNeighbor (mainAdd aliasAddr : Addr) (tables : Tables Addr Bucket) :
    Option (Tables Addr Bucket) :=
  match olsrLookupNeighborTableAlias hash tables aliasAddr with
  | none => some tables
  | some neOld => do
    let tables ← olsrDeleteNeighborTable hash aliasAddr tables
    let inserted := olsrInsertNeighborTable hash mainAdd tables
    let tables := replaceNeighborLinkSet neOld.ptr inserted.2 inserted.1
    some { tables with mids := olsrCleanupMid tables.mids aliasAddr }

def insertMidAlias (olsrValidateAddress : Addr → Bool) (mainAdd aliasAddr : Addr)
    (tables : Tables Addr Bucket) : Option (Tables Addr Bucket) :=
  if olsrValidateAddress aliasAddr then do
    let tables ← replaceNeighbor hash mainAdd aliasAddr tables
    insertMidTuple hash mainAdd aliasAddr tables
  else
    some tables

end Links

inductive NeighborhoodEvent (Addr : Type) where
  | twoHop (event : TwoHopEvent Addr)
  | addLinkEntry (remote remoteMain : Addr) (localIf : Interface Addr)
  | lookupLinkEntry (remote : Addr) (remoteMain : Option Addr) (localIf : Interface Addr)
  | deleteLinkEntry (index : Nat)
  | insertMidAlias (olsrValidateAddress : Addr → Bool) (mainAdd aliasAddr : Addr)
  | expireMidEntry (mainAddr : Addr)
  | pruneAliases (nowTimes : UInt32) (msg : MidAnnouncement Addr)

section Step

variable {Addr Bucket : Type} [DecidableEq Addr] [DecidableEq Bucket]

/-- One event; it has no result if it follows a pointer to a freed entry. -/
def neighborhoodStep (hash : Addr → Bucket) (tables : Tables Addr Bucket) :
    NeighborhoodEvent Addr → Option (Tables Addr Bucket)
  | .twoHop event => twoHopStep hash tables event
  | .addLinkEntry remote remoteMain localIf => addLinkEntry hash remote remoteMain localIf tables
  | .lookupLinkEntry remote remoteMain localIf =>
    lookupLinkEntry hash remote remoteMain localIf tables
  | .deleteLinkEntry index =>
    if index < tables.linkSet.length then
      olsrDeleteLinkEntry hash index tables
    else
      some tables
  | .insertMidAlias olsrValidateAddress mainAdd aliasAddr =>
    insertMidAlias hash olsrValidateAddress mainAdd aliasAddr tables
  | .expireMidEntry mainAddr => some { tables with mids := olsrCleanupMid tables.mids mainAddr }
  | .pruneAliases nowTimes msg =>
    some { tables with mids := olsrPruneAliases nowTimes msg tables.mids }

end Step

end QosOlsr.Neighborhood
