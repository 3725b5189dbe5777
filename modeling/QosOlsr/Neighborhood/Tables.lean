import QosOlsr.Hello.Message
import QosOlsr.MidSet
import QosOlsr.NeighborTable

/-!
# Neighbours, two-hop neighbours and what links them

`neighbor_table.c`, `two_hop_neighbor_table.c` and `process_message_neighbors`.
A bucket is the part of its table that carries its number, newest entry first;
an entry is in memory as long as it is queued, and no place is used twice.
An operation that follows a pointer to a freed entry has no result.  `hash`
stands for `olsr_ip_hashing`.
-/

namespace QosOlsr.Neighborhood

open Library List

abbrev Ptr : Type := Nat

structure Neighbor2ListEntry where
  nbr2Nbr : Ptr
  neighbor2 : Ptr
  deriving DecidableEq

structure NeighborEntry (Addr Bucket : Type) where
  ptr : Ptr
  bucket : Bucket
  neighborMainAddr : Addr
  status : NeighStatus
  linkcount : Int
  neighborSize : Nat
  neighbor2List : List Neighbor2ListEntry
  deriving DecidableEq

structure NeighborListEntry where
  neighbor : Ptr
  secondHopLinkcost : UInt32
  pathLinkcost : UInt32
  savedPathLinkcost : UInt32
  deriving DecidableEq

structure Neighbor2Entry (Addr Bucket : Type) where
  ptr : Ptr
  bucket : Bucket
  neighbor2Addr : Addr
  neighbor2Pointer : Int16
  is2hop : Bool
  neighbor2Nblist : List NeighborListEntry
  deriving DecidableEq

/-- `struct link_entry`: what tells the link from others, and the neighbour it
leads to. -/
structure LinkEntry (Addr : Type) where
  ifName : Option String
  localIfaceAddr : Addr
  neighborIfaceAddr : Addr
  neighbor : Ptr
  deriving DecidableEq

structure Tables (Addr Bucket : Type) where
  neighbortable : List (NeighborEntry Addr Bucket)
  twoHopNeighbortable : List (Neighbor2Entry Addr Bucket)
  linkSet : List (LinkEntry Addr)
  mids : MidSet Addr
  nextPtr : Ptr
  deriving DecidableEq

def Tables.init (Addr Bucket : Type) : Tables Addr Bucket := ⟨[], [], [], MidSet.init Addr, 0⟩

section Memory

variable {Addr Bucket : Type}

section

variable (tables : Tables Addr Bucket) (ptr : Ptr)

def Tables.nbr : Option (NeighborEntry Addr Bucket) :=
  tables.neighbortable.find? fun entry => entry.ptr = ptr

def Tables.nbr2 : Option (Neighbor2Entry Addr Bucket) :=
  tables.twoHopNeighbortable.find? fun entry => entry.ptr = ptr

def Tables.writeNbr
    (write : NeighborEntry Addr Bucket → NeighborEntry Addr Bucket) : Tables Addr Bucket :=
  { tables with
    neighbortable := modifyKey NeighborEntry.ptr ptr write tables.neighbortable }

def Tables.writeNbr2
    (write : Neighbor2Entry Addr Bucket → Neighbor2Entry Addr Bucket) : Tables Addr Bucket :=
  { tables with
    twoHopNeighbortable := modifyKey Neighbor2Entry.ptr ptr write tables.twoHopNeighbortable }

def Tables.freeNbr : Tables Addr Bucket :=
  { tables with
    neighbortable := tables.neighbortable.eraseP fun entry => entry.ptr = ptr }

def Tables.freeNbr2 : Tables Addr Bucket :=
  { tables with
    twoHopNeighbortable := tables.twoHopNeighbortable.eraseP fun entry => entry.ptr = ptr }

/-- Each entry has its own place in memory, and the next place is free. -/
structure Placed : Prop where
  nbrs_nodup : (tables.neighbortable.map NeighborEntry.ptr).Nodup
  nbr2s_nodup : (tables.twoHopNeighbortable.map Neighbor2Entry.ptr).Nodup
  nbr_lt : ∀ entry ∈ tables.neighbortable, entry.ptr < tables.nextPtr
  nbr2_lt : ∀ entry ∈ tables.twoHopNeighbortable, entry.ptr < tables.nextPtr

end

variable {tables : Tables Addr Bucket} {ptr other : Ptr}

theorem Placed.nbr_iff (placed : Placed tables) {entry : NeighborEntry Addr Bucket} :
    tables.nbr ptr = some entry ↔ entry ∈ tables.neighbortable ∧ entry.ptr = ptr :=
  find?_key_eq_some_iff placed.nbrs_nodup

theorem Placed.nbr2_iff (placed : Placed tables) {entry : Neighbor2Entry Addr Bucket} :
    tables.nbr2 ptr = some entry ↔ entry ∈ tables.twoHopNeighbortable ∧ entry.ptr = ptr :=
  find?_key_eq_some_iff placed.nbr2s_nodup

theorem Placed.nbr_nextPtr (placed : Placed tables) : tables.nbr tables.nextPtr = none := by
  rw [Tables.nbr, find?_key_eq_none_iff]
  intro mem
  obtain ⟨entry, queued, same⟩ := mem_map.mp mem
  exact (placed.nbr_lt entry queued).ne same

theorem Placed.nbr2_nextPtr (placed : Placed tables) : tables.nbr2 tables.nextPtr = none := by
  rw [Tables.nbr2, find?_key_eq_none_iff]
  intro mem
  obtain ⟨entry, queued, same⟩ := mem_map.mp mem
  exact (placed.nbr2_lt entry queued).ne same

variable {write : NeighborEntry Addr Bucket → NeighborEntry Addr Bucket}
  {write2 : Neighbor2Entry Addr Bucket → Neighbor2Entry Addr Bucket}

theorem nbr_writeNbr (keeps : ∀ entry, (write entry).ptr = entry.ptr) :
    (tables.writeNbr ptr write).nbr other =
      if other = ptr then (tables.nbr other).map write
      else tables.nbr other :=
  find?_modifyKey keeps other

theorem nbr2_writeNbr2 (keeps : ∀ entry, (write2 entry).ptr = entry.ptr) :
    (tables.writeNbr2 ptr write2).nbr2 other =
      if other = ptr then (tables.nbr2 other).map write2
      else tables.nbr2 other :=
  find?_modifyKey keeps other

@[simp]
theorem nbr2_writeNbr : (tables.writeNbr ptr write).nbr2 other = tables.nbr2 other := rfl

variable (placed : Placed tables)
include placed

theorem Placed.nbr_freeNbr : (tables.freeNbr ptr).nbr other =
      if other = ptr then none else tables.nbr other :=
  find?_eraseP_key placed.nbrs_nodup other

theorem Placed.nbr2_freeNbr2 : (tables.freeNbr2 ptr).nbr2 other =
      if other = ptr then none else tables.nbr2 other :=
  find?_eraseP_key placed.nbr2s_nodup other

theorem Placed.writeNbr (keeps : ∀ entry, (write entry).ptr = entry.ptr) :
    Placed (tables.writeNbr ptr write) where
  nbrs_nodup := by
    rw [Tables.writeNbr, map_modifyKey keeps]
    exact placed.nbrs_nodup
  nbr2s_nodup := placed.nbr2s_nodup
  nbr_lt := by
    intro entry mem
    rcases (mem_modifyKey_iff placed.nbrs_nodup).mp mem with ⟨queued, -⟩ | ⟨old, queued, -, rfl⟩
    · exact placed.nbr_lt entry queued
    · rw [keeps]
      exact placed.nbr_lt old queued
  nbr2_lt := placed.nbr2_lt

theorem Placed.writeNbr2 (keeps : ∀ entry, (write2 entry).ptr = entry.ptr) :
    Placed (tables.writeNbr2 ptr write2) where
  nbrs_nodup := placed.nbrs_nodup
  nbr2s_nodup := by
    rw [Tables.writeNbr2, map_modifyKey keeps]
    exact placed.nbr2s_nodup
  nbr_lt := placed.nbr_lt
  nbr2_lt := by
    intro entry mem
    rcases (mem_modifyKey_iff placed.nbr2s_nodup).mp mem with ⟨queued, -⟩ | ⟨old, queued, -, rfl⟩
    · exact placed.nbr2_lt entry queued
    · rw [keeps]
      exact placed.nbr2_lt old queued

theorem Placed.freeNbr (ptr : Ptr) : Placed (tables.freeNbr ptr) where
  nbrs_nodup := placed.nbrs_nodup.sublist (eraseP_sublist.map NeighborEntry.ptr)
  nbr2s_nodup := placed.nbr2s_nodup
  nbr_lt := fun entry mem => placed.nbr_lt entry (mem_of_mem_eraseP mem)
  nbr2_lt := placed.nbr2_lt

theorem Placed.freeNbr2 (ptr : Ptr) : Placed (tables.freeNbr2 ptr) where
  nbrs_nodup := placed.nbrs_nodup
  nbr2s_nodup := placed.nbr2s_nodup.sublist (eraseP_sublist.map Neighbor2Entry.ptr)
  nbr_lt := placed.nbr_lt
  nbr2_lt := fun entry mem => placed.nbr2_lt entry (mem_of_mem_eraseP mem)

end Memory

section Lookup

variable {Addr Bucket : Type} [DecidableEq Addr] [DecidableEq Bucket] (hash : Addr → Bucket)

def olsrLookupNeighborTableAlias (tables : Tables Addr Bucket) (dst : Addr) :
    Option (NeighborEntry Addr Bucket) :=
  tables.neighbortable.find? fun entry =>
    entry.bucket = hash dst ∧ entry.neighborMainAddr = dst

def olsrLookupNeighborTable (tables : Tables Addr Bucket) (dst : Addr) :
    Option (NeighborEntry Addr Bucket) :=
  olsrLookupNeighborTableAlias hash tables (neighborKey (midLookupMainAddr tables.mids) dst)

def olsrLookupTwoHopNeighborTable (tables : Tables Addr Bucket) (dest : Addr) :
    Option (Neighbor2Entry Addr Bucket) :=
  tables.twoHopNeighbortable.find? fun entry =>
    entry.bucket = hash dest ∧
      (entry.neighbor2Addr = dest ∨ dest ∈ (midLookupAliases tables.mids entry.neighbor2Addr).map
          MidAddress.aliasAddr)

def olsrLookupTwoHopNeighborTableMid (tables : Tables Addr Bucket) (dest : Addr) :
    Option (Neighbor2Entry Addr Bucket) :=
  tables.twoHopNeighbortable.find? fun entry =>
    entry.bucket = hash dest ∧ entry.neighbor2Addr = dest

/-- `olsr_lookup_my_neighbors`; the walk reads the two-hop neighbours it
passes. -/
def olsrLookupMyNeighbors (tables : Tables Addr Bucket) (neighborMainAddress : Addr) :
    List Neighbor2ListEntry → Option (Option Neighbor2ListEntry)
  | [] => some none
  | entry :: rest => do
    let neighbor2 ← tables.nbr2 entry.neighbor2
    if neighbor2.neighbor2Addr = neighborMainAddress then
      some (some entry)
    else
      olsrLookupMyNeighbors tables neighborMainAddress rest

end Lookup

section Delete

variable {Addr Bucket : Type}

/-- `olsr_del_nbr2_list`: a two-hop neighbour that nothing leads to any more
goes with the entry. -/
def olsrDelNbr2List (neighbor : Ptr) (index : Nat) (tables : Tables Addr Bucket) :
    Option (Tables Addr Bucket) := do
  let nbr ← tables.nbr neighbor
  let nbr2List ← nbr.neighbor2List[index]?
  let nbr2 ← tables.nbr2 nbr2List.neighbor2
  let tables :=
    if nbr2.neighbor2Pointer < 1 then
      tables.freeNbr2 nbr2List.neighbor2
    else
      tables
  some <| tables.writeNbr neighbor fun nbr =>
    { nbr with neighbor2List := nbr.neighbor2List.eraseIdx index }

def olsrDeleteNeighbor2Pointer (neighbor neigh2 : Ptr) (tables : Tables Addr Bucket) :
    Option (Tables Addr Bucket) := do
  let nbr ← tables.nbr neighbor
  match nbr.neighbor2List.findIdx? fun entry => entry.neighbor2 = neigh2 with
  | none => some tables
  | some index => olsrDelNbr2List neighbor index tables

/-- Decrement `neighbor_2_pointer` and call `olsr_delete_neighbor_pointer`. -/
def olsrDeleteNeighborPointer (twoHopEntry neigh : Ptr) (tables : Tables Addr Bucket) :
    Option (Tables Addr Bucket) := do
  let _ ← tables.nbr2 twoHopEntry
  some <| tables.writeNbr2 twoHopEntry fun nbr2 =>
    { nbr2 with
      neighbor2Pointer := nbr2.neighbor2Pointer - 1
      neighbor2Nblist := nbr2.neighbor2Nblist.filter fun entry => entry.neighbor ≠ neigh }

/-- `olsr_delete_two_hop_neighbor_table`; an entry that the loop has freed
cannot be dequeued. -/
def olsrDeleteTwoHopNeighborTable (twoHopNeighbor : Ptr) (tables : Tables Addr Bucket) :
    Option (Tables Addr Bucket) := do
  let nbr2 ← tables.nbr2 twoHopNeighbor
  let tables ←
    nbr2.neighbor2Nblist.foldlM
      (fun tables entry =>
        olsrDeleteNeighbor2Pointer entry.neighbor twoHopNeighbor tables)
      tables
  let _ ← tables.nbr2 twoHopNeighbor
  some (tables.freeNbr2 twoHopNeighbor)

/-- `olsr_expire_nbr2_list`, of the entry at an index of the list of a
neighbour. -/
def olsrExpireNbr2List (neighbor : Ptr) (index : Nat) (tables : Tables Addr Bucket) :
    Option (Tables Addr Bucket) := do
  let nbr ← tables.nbr neighbor
  let nbr2List ← nbr.neighbor2List[index]?
  let tables ← olsrDeleteNeighborPointer nbr2List.neighbor2 nbr2List.nbr2Nbr tables
  olsrDelNbr2List neighbor index tables

/-- The loop of `olsr_delete_neighbor_table`, which always finds the entry to
delete at the front. -/
def deleteNbr2Lists (neighbor : Ptr) :
    List Neighbor2ListEntry → Tables Addr Bucket → Option (Tables Addr Bucket)
  | [], tables => some tables
  | entry :: rest, tables => do
    let tables ← olsrDeleteNeighborPointer entry.neighbor2 neighbor tables
    let tables ← olsrDelNbr2List neighbor 0 tables
    deleteNbr2Lists neighbor rest tables

variable [DecidableEq Addr] [DecidableEq Bucket] (hash : Addr → Bucket)

def olsrDeleteNeighborTable (neighborAddr : Addr) (tables : Tables Addr Bucket) :
    Option (Tables Addr Bucket) :=
  match olsrLookupNeighborTableAlias hash tables neighborAddr with
  | none => some tables
  | some entry => do
    let tables ← deleteNbr2Lists entry.ptr entry.neighbor2List tables
    some (tables.freeNbr entry.ptr)

end Delete

section Insert

variable {Addr Bucket : Type} [DecidableEq Addr] [DecidableEq Bucket] (hash : Addr → Bucket)

def queueNeighbor (mainAddr : Addr) (tables : Tables Addr Bucket) : Tables Addr Bucket :=
  { tables with
    neighbortable :=
      { ptr := tables.nextPtr
        bucket := hash mainAddr
        neighborMainAddr := mainAddr
        status := .notSym
        linkcount := 0
        neighborSize := 0
        neighbor2List := [] } :: tables.neighbortable
    nextPtr := tables.nextPtr + 1 }

def olsrInsertNeighborTable (mainAddr : Addr) (tables : Tables Addr Bucket) :
    Tables Addr Bucket × Ptr :=
  match olsrLookupNeighborTableAlias hash tables mainAddr with
  | some entry => (tables, entry.ptr)
  | none => (queueNeighbor hash mainAddr tables, tables.nextPtr)

def olsrUpdateNeighborMainAddr (ptr : Ptr) (newMainAddr : Addr) (tables : Tables Addr Bucket) :
    Option (Tables Addr Bucket) := do
  let entry ← tables.nbr ptr
  some
    { tables with
      neighbortable :=
        { entry with
          neighborMainAddr := newMainAddr
          bucket := hash newMainAddr } ::
          (tables.freeNbr ptr).neighbortable }

def updateNeighborStatus (ptr : Ptr) (lnk : LinkType) (tables : Tables Addr Bucket) :
    Option (Tables Addr Bucket) := do
  let entry ← tables.nbr ptr
  if lnk = .sym then
    let tables ←
      if entry.status = .notSym then
        match olsrLookupTwoHopNeighborTable hash tables entry.neighborMainAddr with
        | some twoHopNeighbor => olsrDeleteTwoHopNeighborTable twoHopNeighbor.ptr tables
        | none => some tables
      else
        some tables
    some (tables.writeNbr ptr fun entry => { entry with status := .sym })
  else
    some (tables.writeNbr ptr fun entry => { entry with status := .notSym })

def queueTwoHop (neighbor2Addr : Addr) (is2hop : Bool) (tables : Tables Addr Bucket) :
    Tables Addr Bucket :=
  { tables with
    twoHopNeighbortable :=
      { ptr := tables.nextPtr
        bucket := hash neighbor2Addr
        neighbor2Addr := neighbor2Addr
        neighbor2Pointer := 0
        is2hop := is2hop
        neighbor2Nblist := [] } :: tables.twoHopNeighbortable
    nextPtr := tables.nextPtr + 1 }

end Insert

def brokenLinkcost : UInt32 := 0x400000

def linkingThis2Entries {Addr Bucket : Type}
    (neighbor twoHopNeighbor : Ptr) (tables : Tables Addr Bucket) :
    Option (Tables Addr Bucket) := do
  let _ ← tables.nbr neighbor
  let _ ← tables.nbr2 twoHopNeighbor
  let tables :=
    tables.writeNbr2 twoHopNeighbor fun nbr2 =>
      { nbr2 with
        neighbor2Nblist := ⟨neighbor, brokenLinkcost, brokenLinkcost, brokenLinkcost⟩ ::
            nbr2.neighbor2Nblist
        neighbor2Pointer := nbr2.neighbor2Pointer + 1 }
  some <| tables.writeNbr neighbor fun nbr =>
    { nbr with neighbor2List := ⟨neighbor, twoHopNeighbor⟩ :: nbr.neighbor2List }

/-! ## The neighbours in a HELLO -/

/-- What `process_message_neighbors` reads besides the tables and the
message: the own interfaces, `lq_level`, the cost of the best link to the
sender and what the link-quality handler makes of an entry. -/
structure HelloContext (Addr : Type) where
  ifIfwithaddr : Addr → Bool
  lqLevel : Nat
  firstHopPathcost : Option UInt32
  cost : HelloNeighbor Addr → UInt32

/-- The neighbour types that `process_message_neighbors` looks at. -/
def IsListed (status : NeighType) : Prop :=
  status = .symNeigh ∨ status = .mprNeigh ∨ status = .mprHead ∨ status = .nhead ∨ status = .twoHead

instance : DecidablePred IsListed := fun _ =>
  instDecidableOr

def IsHeadStatus (status : NeighType) : Prop :=
  status = .mprHead ∨ status = .nhead ∨ status = .twoHead

instance : DecidablePred IsHeadStatus := fun _ =>
  instDecidableOr

section Hello

variable {Addr Bucket : Type} [DecidableEq Addr] [DecidableEq Bucket]
  (hash : Addr → Bucket) (ctx : HelloContext Addr) (neighbor : Ptr)

def writeWalkers (write : NeighborListEntry → NeighborListEntry)
    (nbr2 : Neighbor2Entry Addr Bucket) : Neighbor2Entry Addr Bucket :=
  { nbr2 with
    neighbor2Nblist := nbr2.neighbor2Nblist.map fun walker =>
        if walker.neighbor = neighbor then write walker else walker }

def messageAddress (tables : Tables Addr Bucket) (msg : HelloNeighbor Addr) : Addr :=
  if ctx.ifIfwithaddr msg.address then
    msg.address
  else
    neighborKey (midLookupMainAddr tables.mids) msg.address

/-- A host that the sender has lost is no two-hop neighbour. -/
def deleteLostTwoHop (status : NeighType) (address : Addr) (tables : Tables Addr Bucket) :
    Option (Tables Addr Bucket) :=
  match olsrLookupTwoHopNeighborTable hash tables address with
  | some twoHopNeighbor =>
    if status.code < 3 then
      olsrDeleteTwoHopNeighborTable twoHopNeighbor.ptr tables
    else
      some tables
  | none => some tables

/-- An entry for a two-hop neighbour that the sender is linked to already. -/
def processKnownTwoHop (status : NeighType) (address : Addr)
    (yet : Neighbor2ListEntry) (tables : Tables Addr Bucket) : Option (Tables Addr Bucket) :=
  let tables :=
    if 0 < ctx.lqLevel then
      tables.writeNbr2 yet.neighbor2 <| writeWalkers neighbor fun walker =>
          { walker with pathLinkcost := brokenLinkcost }
    else
      tables
  deleteLostTwoHop hash status address tables

def processNewTwoHop (status : NeighType) (address : Addr)
    (tables : Tables Addr Bucket) : Option (Tables Addr Bucket) :=
  match olsrLookupNeighborTable hash tables address with
  | some _ => some tables
  | none =>
    match olsrLookupTwoHopNeighborTable hash tables address with
    | none =>
      if IsHeadStatus status then
        linkingThis2Entries neighbor tables.nextPtr
          (queueTwoHop hash address (status ≠ .twoHead) tables)
      else
        some tables
    | some twoHopNeighbor =>
      if 3 ≤ status.code then
        linkingThis2Entries neighbor twoHopNeighbor.ptr tables
      else
        olsrDeleteTwoHopNeighborTable twoHopNeighbor.ptr tables

/-- One round of the first loop of `process_message_neighbors`. -/
def processMessageNeighbor (tables : Tables Addr Bucket)
    (msg : HelloNeighbor Addr) : Option (Tables Addr Bucket) :=
  if ctx.ifIfwithaddr msg.address ∨ ¬ IsListed msg.status then
    some tables
  else do
    let address := messageAddress ctx tables msg
    let nbr ← tables.nbr neighbor
    match ← olsrLookupMyNeighbors tables address nbr.neighbor2List with
    | some yet => processKnownTwoHop hash ctx neighbor msg.status address yet tables
    | none => processNewTwoHop hash neighbor msg.status address tables

/-- One round of the second loop of `process_message_neighbors`; the message
holds the addresses that the first loop wrote to it. -/
def updatePathLinkcost (firstHopPathcost : UInt32) (tables : Tables Addr Bucket)
    (msg : HelloNeighbor Addr) : Option (Tables Addr Bucket) :=
  let address := messageAddress ctx tables msg
  if ctx.ifIfwithaddr address ∨ ¬ IsListed msg.status then
    some tables
  else do
    let nbr ← tables.nbr neighbor
    match ← olsrLookupMyNeighbors tables address nbr.neighbor2List with
    | none => some tables
    | some yet =>
      let newPathLinkcost := firstHopPathcost + ctx.cost msg
      some <| tables.writeNbr2 yet.neighbor2 <| writeWalkers neighbor fun walker =>
          if newPathLinkcost < walker.pathLinkcost then
            { walker with
              secondHopLinkcost := ctx.cost msg
              pathLinkcost := newPathLinkcost
              savedPathLinkcost := newPathLinkcost }
          else
            walker

def processMessageNeighbors (neighbors : List (HelloNeighbor Addr))
    (tables : Tables Addr Bucket) : Option (Tables Addr Bucket) := do
  let tables ← neighbors.foldlM (processMessageNeighbor hash ctx neighbor) tables
  let tables :=
    tables.writeNbr neighbor fun nbr =>
      { nbr with neighborSize := neighbors.length }
  match ctx.firstHopPathcost with
  | some firstHopPathcost =>
    if 0 < ctx.lqLevel then
      neighbors.foldlM (updatePathLinkcost ctx neighbor firstHopPathcost) tables
    else
      some tables
  | none => some tables

end Hello

end QosOlsr.Neighborhood
