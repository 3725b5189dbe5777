import QosOlsr.Library.Runs
import QosOlsr.Tc.Input

/-!
# The link-state database

The vertices, edges and prefixes of `tc_set.c` and `routing_table.c` as blocks
of memory that point to each other.  A freed pointer leads to no block, and an
operation that follows one has no result.  The trees are lists of pointers in
tree order.
-/

namespace QosOlsr.Lsdb

open Library Function

abbrev Ptr := Nat

section

variable (ver : IpVersion)

structure IpNetwork where
  network : IpAddr ver
  prefixLen : Nat
  deriving DecidableEq

inductive RtOrigin where
  | int
  | mid
  | hna
  deriving DecidableEq

structure TcEntry where
  addr : IpAddr ver
  refcount : Nat
  ansn : Nat
  edgeTree : List Ptr
  prefixTree : List Ptr

structure TcEdgeEntry where
  destAddr : IpAddr ver
  edgeInv : Option Ptr
  tc : Ptr
  ansn : Nat

structure RtPath where
  dst : IpNetwork ver
  tc : Ptr
  origin : RtOrigin

/-- `tc_tree` with the blocks in use, and `olsr_cnf->main_addr`. -/
structure Database where
  mainAddr : IpAddr ver
  tcTree : List Ptr
  entries : Ptr → Option (TcEntry ver)
  edges : Ptr → Option (TcEdgeEntry ver)
  paths : Ptr → Option (RtPath ver)

end

variable {ver : IpVersion}

def Database.init (mainAddr : IpAddr ver) : Database ver :=
  ⟨mainAddr, [], fun _ => none, fun _ => none, fun _ => none⟩

namespace Database

variable (db : Database ver)

def addrOf (tc : Ptr) : Option (IpAddr ver) := (db.entries tc).map TcEntry.addr

def destOf (edge : Ptr) : Option (IpAddr ver) := (db.edges edge).map TcEdgeEntry.destAddr

def dstOf (path : Ptr) : Option (IpNetwork ver) := (db.paths path).map RtPath.dst

def setEntry (tc : Ptr) (entry : TcEntry ver) : Database ver :=
  { db with entries := update db.entries tc (some entry) }

def setEdge (edge : Ptr) (value : TcEdgeEntry ver) : Database ver :=
  { db with edges := update db.edges edge (some value) }

def setPath (path : Ptr) (value : RtPath ver) : Database ver :=
  { db with paths := update db.paths path (some value) }

def freeEntry (tc : Ptr) : Database ver := { db with entries := update db.entries tc none }

def freeEdge (edge : Ptr) : Database ver := { db with edges := update db.edges edge none }

def freePath (path : Ptr) : Database ver := { db with paths := update db.paths path none }

end Database

/-- `avl_insert` with `AVL_DUP_NO`: a tree that already holds the key of the
node is left as it is. -/
def avlInsertNoDup {Key : Type} [DecidableEq Key] (rank : Key → Nat) (key : Ptr → Option Key)
    (node : Ptr) (tree : List Ptr) : List Ptr :=
  if tree.any (fun other => key other = key node) then
    tree
  else
    tree.orderedInsert (fun left right => (key left).elim 0 rank ≤ (key right).elim 0 rank) node

/-- The order of `avl_comp_prefix_default`. -/
def prefixKey (dst : IpNetwork ver) : Nat := beValue dst.network.bytes * 256 + dst.prefixLen

/-! ## Lookups -/

def olsrLookupTcEntry (db : Database ver) (adr : IpAddr ver) : Option Ptr :=
  db.tcTree.find? fun tc => db.addrOf tc = some adr

def olsrLookupTcEdge (db : Database ver) (tc : Ptr) (edgeAddr : IpAddr ver) :
    Option Ptr := do
  let entry ← db.entries tc
  entry.edgeTree.find? fun edge => db.destOf edge = some edgeAddr

/-- `avl_find(&tc->prefix_tree, &prefix)`. -/
def findPath (db : Database ver) (tc : Ptr) (dst : IpNetwork ver) : Option Ptr := do
  let entry ← db.entries tc
  entry.prefixTree.find? fun path => db.dstOf path = some dst

/-! ## Reference counts -/

def olsrLockTcEntry (db : Database ver) (tc : Ptr) : Option (Database ver) := do
  let entry ← db.entries tc
  return db.setEntry tc { entry with refcount := entry.refcount + 1 }

def olsrUnlockTcEntry (db : Database ver) (tc : Ptr) : Option (Database ver) := do
  let entry ← db.entries tc
  if entry.refcount - 1 ≠ 0 then
    return db.setEntry tc { entry with refcount := entry.refcount - 1 }
  else
    return db.freeEntry tc

/-! ## Edges -/

section

variable (db : Database ver)

def writeEdgeInv (edge : Ptr) (inv : Option Ptr) :
    Option (Database ver) := do
  let value ← db.edges edge
  return db.setEdge edge { value with edgeInv := inv }

/-- The second half of `olsr_add_tc_edge_entry`, which looks for the inverse
of the edge and connects the two. -/
def connectInverse (tc : Ptr) (addr : IpAddr ver) (edge : Ptr) : Option (Database ver) := do
  let entry ← db.entries tc
  match (olsrLookupTcEntry db addr).bind (olsrLookupTcEdge db · entry.addr) with
  | none => return db
  | some inv => do
    let db ← writeEdgeInv db inv (some edge)
    writeEdgeInv db edge (some inv)

/-- `olsr_add_tc_edge_entry`, with the block `edge` that the allocation
returns. -/
def olsrAddTcEdgeEntry (tc : Ptr) (addr : IpAddr ver)
    (ansn : Nat) (edge : Ptr) : Option (Database ver) := do
  let db := db.setEdge edge ⟨addr, none, tc, ansn⟩
  let entry ← db.entries tc
  let db :=
    db.setEntry tc { entry with edgeTree := avlInsertNoDup addrKey db.destOf edge entry.edgeTree }
  let db ← olsrLockTcEntry db tc
  connectInverse db tc addr edge

def olsrDeleteTcEdgeEntry (edge : Ptr) : Option (Database ver) := do
  let value ← db.edges edge
  let entry ← db.entries value.tc
  let db := db.setEntry value.tc { entry with edgeTree := entry.edgeTree.erase edge }
  let db ← olsrUnlockTcEntry db value.tc
  let db ←
    match value.edgeInv with
    | none => some db
    | some inv => writeEdgeInv db inv none
  return db.freeEdge edge

/-- The body of the loop of `olsr_delete_outdated_tc_edges`. -/
def deleteIfOutdated (tc : Ptr) (db : Database ver) (edge : Ptr) :
    Option (Database ver) := do
  let entry ← db.entries tc
  let value ← db.edges edge
  if seqnoGreaterThan entry.ansn value.ansn then
    olsrDeleteTcEdgeEntry db edge
  else
    return db

/-- `olsr_delete_outdated_tc_edges`.  The loop fetches the next edge before it
deletes the present one, so it visits the edges the tree held at first. -/
def olsrDeleteOutdatedTcEdges
    (tc : Ptr) : Option (Database ver) := do
  let entry ← db.entries tc
  entry.edgeTree.foldlM (deleteIfOutdated tc) db

end

/-- The loop of `olsr_delete_revoked_tc_edges` over the edges left. -/
def deleteRevoked (ansn : Nat) (lowerBorder upperBorder : IpAddr ver) :
    Bool → List Ptr → Database ver → Option (Database ver)
  | _, [], db => some db
  | passedLowerBorder, edge :: rest, db => do
    let value ← db.edges edge
    if passedLowerBorder = false ∧ addrKey value.destAddr < addrKey lowerBorder then
      deleteRevoked ansn lowerBorder upperBorder false rest db
    else if addrKey upperBorder ≤ addrKey value.destAddr then
      return db
    else if seqnoGreaterThan ansn value.ansn then do
      let db ← olsrDeleteTcEdgeEntry db edge
      deleteRevoked ansn lowerBorder upperBorder true rest db
    else
      deleteRevoked ansn lowerBorder upperBorder true rest db

def olsrDeleteRevokedTcEdges (db : Database ver) (tc : Ptr) (ansn : Nat)
    (lowerBorder upperBorder : IpAddr ver) :
    Option (Database ver) := do
  let entry ← db.entries tc
  deleteRevoked ansn lowerBorder upperBorder false entry.edgeTree db

/-! ## Prefixes and vertices -/

def olsrDeleteRtPath (db : Database ver) (path : Ptr) : Option (Database ver) := do
  let value ← db.paths path
  let entry ← db.entries value.tc
  let db := db.setEntry value.tc { entry with prefixTree := entry.prefixTree.erase path }
  let db ← olsrUnlockTcEntry db value.tc
  return db.freePath path

def olsrAllocRtPath (db : Database ver) (tc : Ptr) (dst : IpNetwork ver)
    (origin : RtOrigin) (path : Ptr) : Option (Database ver) := do
  let db := db.setPath path ⟨dst, tc, origin⟩
  let entry ← db.entries tc
  let db :=
    db.setEntry tc
      { entry with prefixTree := avlInsertNoDup prefixKey db.dstOf path entry.prefixTree }
  olsrLockTcEntry db tc

/-- `olsr_insert_routing_table` once it has the vertex of the originator. -/
def insertPath (db : Database ver) (tc : Ptr) (dst : IpNetwork ver)
    (origin : RtOrigin) (path : Ptr) : Option (Database ver) :=
  match findPath db tc dst with
  | some _ => some db
  | none => olsrAllocRtPath db tc dst origin path

structure FreshBlocks where
  tc : Ptr
  hostPath : Ptr
  path : Ptr

section Config

-- `olsr_cnf->maxplen`
variable (maxplen : Nat) (db : Database ver)

/-- `olsr_add_tc_entry`, with the vertex it returns.  Its call of
`olsr_insert_routing_table` comes back to `olsr_locate_tc_entry`, which finds
a vertex of this address in the tree, the new one or an older one. -/
def olsrAddTcEntry (adr : IpAddr ver) (fresh : FreshBlocks) : Option (Database ver × Option Ptr) :=
  if db.mainAddr = zeroAddr ver then
    some (db, none)
  else do
    let db := db.setEntry fresh.tc ⟨adr, 0, 0, [], []⟩
    let db := { db with tcTree := avlInsertNoDup addrKey db.addrOf fresh.tc db.tcTree }
    let db ← olsrLockTcEntry db fresh.tc
    let owner ← olsrLookupTcEntry db adr
    let db ← insertPath db owner ⟨adr, maxplen⟩ .int fresh.hostPath
    return (db, some fresh.tc)

def olsrLocateTcEntry (adr : IpAddr ver)
    (fresh : FreshBlocks) : Option (Database ver × Option Ptr) :=
  match olsrLookupTcEntry db adr with
  | some tc => some (db, some tc)
  | none => olsrAddTcEntry maxplen db adr fresh

def olsrInsertRoutingTable (dst : IpNetwork ver) (originator : IpAddr ver)
    (origin : RtOrigin) (fresh : FreshBlocks) : Option (Database ver) :=
  if maxplen < dst.prefixLen then
    some db
  else do
    let located ← olsrLocateTcEntry maxplen db originator fresh
    match located.2 with
    | none => return located.1
    | some tc => insertPath located.1 tc dst origin fresh.path

def olsrDeleteRoutingTable (dst : IpNetwork ver)
    (originator : IpAddr ver) : Option (Database ver) :=
  if maxplen < dst.prefixLen then
    some db
  else
    match (olsrLookupTcEntry db originator).bind (findPath db · dst) with
    | none => some db
    | some path => olsrDeleteRtPath db path

/-- `olsr_delete_tc_entry`.  `avl_delete` needs a node of the tree. -/
def olsrDeleteTcEntry (tc : Ptr) : Option (Database ver) := do
  let entry ← db.entries tc
  let db ← olsrDeleteRoutingTable maxplen db ⟨entry.addr, maxplen⟩ entry.addr
  let entry ← db.entries tc
  let db ← entry.edgeTree.foldlM olsrDeleteTcEdgeEntry db
  let entry ← db.entries tc
  let db ← entry.prefixTree.foldlM olsrDeleteRtPath db
  if tc ∈ db.tcTree then
    olsrUnlockTcEntry { db with tcTree := db.tcTree.erase tc } tc
  else
    none

end Config

end QosOlsr.Lsdb
