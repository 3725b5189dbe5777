import QosOlsr.Library.Pointers
import QosOlsr.Tc.Database

/-!
# Consistency of the link-state database

Every operation keeps the pointers between vertices, edges and prefixes well
linked, as long as `olsr_add_tc_entry` is called for an address that has no
vertex yet.
-/

namespace QosOlsr.Lsdb

open Library Function List Option

variable {ver : IpVersion} {db : Database ver} {tc edge : Ptr}
  {addr : IpAddr ver} {entry : TcEntry ver}

namespace Database

variable (db : Database ver)

def edgeTreeOf (tc : Ptr) : Option (List Ptr) := (db.entries tc).map TcEntry.edgeTree

def prefixTreeOf (tc : Ptr) : Option (List Ptr) := (db.entries tc).map TcEntry.prefixTree

def edgeOwner (edge : Ptr) : Option Ptr := (db.edges edge).map TcEdgeEntry.tc

def pathOwner (path : Ptr) : Option Ptr := (db.paths path).map RtPath.tc

def endsOf (edge : Ptr) :
    Option (IpAddr ver × IpAddr ver) := do
  let value ← db.edges edge
  let source ← db.addrOf value.tc
  return (source, value.destAddr)

def inverseOf (edge : Ptr) : Option Ptr := (db.edges edge).bind TcEdgeEntry.edgeInv

end Database

/-- Every block is in the tree that its backpointer leads to, and the
reference counts agree. -/
structure Stored (db : Database ver) : Prop where
  tree_nodup : db.tcTree.Nodup
  mem_tree : ∀ tc, tc ∈ db.tcTree ↔ ∃ addr, db.addrOf tc = some addr
  addr_injective :
    ∀ {tc other addr}, db.addrOf tc = some addr → db.addrOf other = some addr → tc = other
  edges : Owns db.edgeTreeOf db.edgeOwner
  paths : Owns db.prefixTreeOf db.pathOwner
  refcount_eq : ∀ {tc entry}, db.entries tc = some entry →
      entry.refcount = 1 + entry.edgeTree.length + entry.prefixTree.length

structure WellLinked (db : Database ver) : Prop where
  stored : Stored db
  paired : Paired db.endsOf db.inverseOf

theorem WellLinked.init (mainAddr : IpAddr ver) : WellLinked (Database.init mainAddr) where
  stored := by
    constructor
    case edges => constructor <;> simp [Database.init, Database.edgeTreeOf, Database.edgeOwner]
    case paths => constructor <;> simp [Database.init, Database.prefixTreeOf, Database.pathOwner]
    all_goals simp [Database.init, Database.addrOf]
  paired := by constructor <;> simp [Database.init, Database.endsOf]

section ChangeEntry

variable {db next : Database ver} {entry changed : TcEntry ver} {value : Option (TcEntry ver)}

theorem edgeTreeOf_of_written (written : next.entries = update db.entries tc value) :
    next.edgeTreeOf = update db.edgeTreeOf tc (value.map TcEntry.edgeTree) := by
  funext other
  by_cases same : other = tc <;> simp [Database.edgeTreeOf, written, same]

theorem prefixTreeOf_of_written (written : next.entries = update db.entries tc value) :
    next.prefixTreeOf = update db.prefixTreeOf tc (value.map TcEntry.prefixTree) := by
  funext other
  by_cases same : other = tc <;> simp [Database.prefixTreeOf, written, same]

theorem addrOf_of_written (present : db.entries tc = some entry)
    (written : next.entries = update db.entries tc (some changed))
    (sameAddr : changed.addr = entry.addr) : next.addrOf = db.addrOf := by
  funext other
  by_cases same : other = tc <;> simp [Database.addrOf, written, same, present, sameAddr]

/-- A vertex keeps its address while its trees and its count change. -/
theorem Stored.changeEntry (stored : Stored db) (present : db.entries tc = some entry)
    (tree : next.tcTree = db.tcTree) (written : next.entries = update db.entries tc (some changed))
    (sameAddr : changed.addr = entry.addr)
    (counted : changed.refcount = 1 + changed.edgeTree.length + changed.prefixTree.length)
    (edges : Owns (update db.edgeTreeOf tc (some changed.edgeTree)) next.edgeOwner)
    (paths : Owns (update db.prefixTreeOf tc (some changed.prefixTree)) next.pathOwner) :
    Stored next := by
  have addrs : next.addrOf = db.addrOf := addrOf_of_written present written sameAddr
  constructor
  case tree_nodup =>
    rw [tree]
    exact stored.tree_nodup
  case mem_tree =>
    rw [tree, addrs]
    exact stored.mem_tree
  case addr_injective =>
    rw [addrs]
    exact stored.addr_injective
  case edges =>
    rw [edgeTreeOf_of_written written]
    exact edges
  case paths =>
    rw [prefixTreeOf_of_written written]
    exact paths
  case refcount_eq =>
    intro other otherEntry present'
    rw [written, update_apply] at present'
    split at present'
    · cases present'
      exact counted
    · exact stored.refcount_eq present'

section

variable (present : db.entries tc = some entry)
include present

theorem edgeTreeOf_eq : db.edgeTreeOf tc = some entry.edgeTree := by
  rw [Database.edgeTreeOf, present, map_some]

theorem prefixTreeOf_eq : db.prefixTreeOf tc = some entry.prefixTree := by
  rw [Database.prefixTreeOf, present, map_some]

theorem addrOf_eq : db.addrOf tc = some entry.addr := by
  rw [Database.addrOf, present, map_some]

theorem exists_entry_of_addrOf (addrs : next.addrOf = db.addrOf) :
    ∃ nextEntry, next.entries tc = some nextEntry := by
  have address : next.addrOf tc = some entry.addr := by rw [addrs, addrOf_eq present]
  obtain ⟨nextEntry, nextPresent, -⟩ := map_eq_some_iff.mp address
  exact ⟨nextEntry, nextPresent⟩

end

theorem Stored.edges_same (stored : Stored db) (present : db.entries tc = some entry) :
    Owns (update db.edgeTreeOf tc (some entry.edgeTree)) db.edgeOwner := by
  rw [← edgeTreeOf_eq present, update_eq_self]
  exact stored.edges

theorem Stored.paths_same (stored : Stored db) (present : db.entries tc = some entry) :
    Owns (update db.prefixTreeOf tc (some entry.prefixTree)) db.pathOwner := by
  rw [← prefixTreeOf_eq present, update_eq_self]
  exact stored.paths

end ChangeEntry

def withInverse (db : Database ver) (inverse : Ptr → Option Ptr) : Database ver :=
  { db with
    edges := fun edge =>
      (db.edges edge).map fun value =>
        { value with edgeInv := inverse edge } }

/-- The database without an edge: its owner loses a reference and the inverse
edge its pointer. -/
def withoutEdge (db : Database ver) (edge : Ptr) (value : TcEdgeEntry ver) (owner : TcEntry ver) :
    Database ver :=
  (withInverse
      (db.setEntry value.tc
        { owner with
          edgeTree := owner.edgeTree.erase edge
          refcount := owner.refcount - 1 })
      (clearInverse db.inverseOf edge)).freeEdge edge

section RemoveEdge

variable {edge : Ptr} {value : TcEdgeEntry ver} {owner : TcEntry ver}

theorem withInverse_inverseOf (db : Database ver) : withInverse db db.inverseOf = db := by
  have same :
      (fun edge =>
        (db.edges edge).map fun value =>
          { value with edgeInv := db.inverseOf edge }) = db.edges := by
    funext edge
    cases present : db.edges edge with
    | none => rfl
    | some value => simp [Database.inverseOf, present]
  rw [withInverse, same]

theorem writeEdgeInv_withInverse {inverse : Ptr → Option Ptr} {target : Option Ptr}
    (present : db.edges edge = some value) : writeEdgeInv (withInverse db inverse) edge target =
      some (withInverse db (update inverse edge target)) := by
  have edges : update
          (fun other => (db.edges other).map fun value => { value with edgeInv := inverse other })
          edge (some { value with edgeInv := target }) =
        fun other =>
          (db.edges other).map fun value =>
            { value with
              edgeInv := update inverse edge target other } := by
    funext other
    by_cases same : other = edge
    · subst other
      simp [present]
    · simp [same]
  simp [writeEdgeInv, withInverse, present, Database.setEdge, edges]

theorem endsOf_eq (present : db.edges edge = some value)
    (owned : db.entries value.tc = some owner) :
    db.endsOf edge = some (owner.addr, value.destAddr) := by
  simp [Database.endsOf, Database.addrOf, present, owned]

theorem Stored.endsOf_mem (stored : Stored db) (present : db.entries tc = some owner)
    (mem : edge ∈ owner.edgeTree) (live : db.edges edge = some value) :
    db.endsOf edge = some (owner.addr, value.destAddr) := by
  have isOwner : db.edgeOwner edge = some tc :=
    (stored.edges.mem_iff (edgeTreeOf_eq present)).mp mem
  rw [Database.edgeOwner, live, map_some, some_inj] at isOwner
  subst tc
  exact endsOf_eq live present

theorem inverseOf_eq (present : db.edges edge = some value) :
    db.inverseOf edge = value.edgeInv := by
  rw [Database.inverseOf, present, bind_some]

theorem Stored.edge_mem (stored : Stored db) (present : db.edges edge = some value)
    (owned : db.entries value.tc = some owner) : edge ∈ owner.edgeTree := by
  rw [stored.edges.mem_iff (edgeTreeOf_eq owned), Database.edgeOwner, present, map_some]

theorem Stored.edge_owned (stored : Stored db) (present : db.edges edge = some value) :
    ∃ owner, db.entries value.tc = some owner := by
  have owner : db.edgeOwner edge = some value.tc := by rw [Database.edgeOwner, present, map_some]
  obtain ⟨_, held⟩ := stored.edges.contained owner
  obtain ⟨entry, found, -⟩ := map_eq_some_iff.mp held
  exact ⟨entry, found⟩

theorem olsrDeleteTcEdgeEntry_eq (linked : WellLinked db) (present : db.edges edge = some value)
    (owned : db.entries value.tc = some owner) :
    olsrDeleteTcEdgeEntry db edge = some (withoutEdge db edge value owner) := by
  have mem : edge ∈ owner.edgeTree := linked.stored.edge_mem present owned
  have counted : owner.refcount - 1 ≠ 0 := by
    have := linked.stored.refcount_eq owned
    have := length_pos_of_mem mem
    omega
  have ends : db.endsOf edge = some (owner.addr, value.destAddr) := endsOf_eq present owned
  have pointer : db.inverseOf edge = value.edgeInv := inverseOf_eq present
  let reduced :=
    db.setEntry value.tc
      { owner with
        edgeTree := owner.edgeTree.erase edge
        refcount := owner.refcount - 1 }
  have unchanged : withInverse reduced db.inverseOf = reduced := withInverse_inverseOf reduced
  have unlocked : olsrUnlockTcEntry
          (db.setEntry value.tc { owner with edgeTree := owner.edgeTree.erase edge })
          value.tc =
        some (withInverse reduced db.inverseOf) := by
    rw [unchanged]
    simp [olsrUnlockTcEntry, Database.setEntry, counted, reduced]
  simp only [olsrDeleteTcEdgeEntry, present, owned, unlocked, bind_eq_bind, bind_some]
  cases inverse : value.edgeInv with
  | none =>
    rw [inverse] at pointer
    simp [withoutEdge, clearInverse_of_none pointer, reduced]
  | some other =>
    rw [inverse] at pointer
    have opposite : db.endsOf other = some (value.destAddr, owner.addr) :=
      (linked.paired.inverse_iff ends).mp pointer
    obtain ⟨value2, present', -⟩ := bind_eq_some_iff.mp opposite
    have written : writeEdgeInv (withInverse reduced db.inverseOf) other none =
          some (withInverse reduced (update db.inverseOf other none)) :=
      writeEdgeInv_withInverse present'
    simp [withoutEdge, clearInverse_of_some pointer, written, reduced]

theorem withoutEdge_edgeOwner :
    (withoutEdge db edge value owner).edgeOwner = update db.edgeOwner edge none := by
  funext other
  by_cases same : other = edge
  · simp [Database.edgeOwner, withoutEdge, Database.freeEdge, same]
  · cases present : db.edges other <;>
      simp [Database.edgeOwner, withoutEdge, Database.freeEdge, same,
        withInverse, Database.setEntry, present]

theorem withoutEdge_addrOf (owned : db.entries value.tc = some owner) :
    (withoutEdge db edge value owner).addrOf = db.addrOf :=
  addrOf_of_written owned rfl rfl

theorem withoutEdge_endsOf (owned : db.entries value.tc = some owner) :
    (withoutEdge db edge value owner).endsOf = update db.endsOf edge none := by
  funext other
  by_cases same : other = edge
  · simp [Database.endsOf, withoutEdge, Database.freeEdge, same]
  · rw [Database.endsOf, withoutEdge_addrOf owned, update_of_ne same]
    cases present : db.edges other <;>
      simp [Database.endsOf, withoutEdge, Database.freeEdge, same,
        withInverse, Database.setEntry, present]

theorem WellLinked.withoutEdge (linked : WellLinked db) (present : db.edges edge = some value)
    (owned : db.entries value.tc = some owner) : WellLinked (withoutEdge db edge value owner) where
  stored := by
    have mem := linked.stored.edge_mem present owned
    refine linked.stored.changeEntry owned rfl rfl rfl ?_ ?_ ?_
    · have := linked.stored.refcount_eq owned
      have := length_erase_of_mem mem
      have := length_pos_of_mem mem
      dsimp only
      omega
    · rw [withoutEdge_edgeOwner]
      exact linked.stored.edges.remove (edgeTreeOf_eq owned)
          ((linked.stored.edges.mem_iff (edgeTreeOf_eq owned)).mp mem)
    · have unchanged := linked.stored.paths_same owned
      exact unchanged
  paired := by
    rw [withoutEdge_endsOf owned]
    refine (linked.paired.remove (endsOf_eq present owned)).congr ?_
    intro other pair ends2
    rw [update_apply] at ends2
    split at ends2
    · cases ends2
    next ne =>
      obtain ⟨value2, present', -⟩ := bind_eq_some_iff.mp ends2
      simp [Database.inverseOf, Lsdb.withoutEdge, Database.freeEdge,
        ne, withInverse, Database.setEntry, present']

end RemoveEdge

section Lookup

theorem addrOf_of_lookup (found : olsrLookupTcEntry db addr = some tc) :
    db.addrOf tc = some addr := by
  simpa using find?_some found

theorem Stored.lookupTcEntry_iff (stored : Stored db) :
    olsrLookupTcEntry db addr = some tc ↔ db.addrOf tc = some addr := by
  refine ⟨addrOf_of_lookup, ?_⟩
  intro address
  have mem : tc ∈ db.tcTree := (stored.mem_tree tc).mpr ⟨addr, address⟩
  cases found : olsrLookupTcEntry db addr with
  | none => exact (find?_eq_none.mp found tc mem (decide_eq_true address)).elim
  | some other => rw [stored.addr_injective (addrOf_of_lookup found) address]

theorem Stored.endsOf_iff (stored : Stored db) {source : IpAddr ver}
    (address : db.addrOf tc = some source) : db.endsOf edge = some (source, addr) ↔
      db.edgeOwner edge = some tc ∧ db.destOf edge = some addr := by
  cases present : db.edges edge with
  | none => simp [Database.endsOf, Database.edgeOwner, present]
  | some value =>
    have owner : db.addrOf value.tc = some source ↔ value.tc = tc := by
      refine ⟨fun same => stored.addr_injective same address, ?_⟩
      rintro rfl
      exact address
    rw [Database.edgeOwner, Database.destOf, present, map_some, map_some, some_inj, ← owner]
    cases source' : db.addrOf value.tc <;> simp [Database.endsOf, present, source']

theorem Stored.lookupTcEdge_sound (stored : Stored db)
    (found : olsrLookupTcEdge db tc addr = some edge) :
    db.edgeOwner edge = some tc ∧ db.destOf edge = some addr := by
  obtain ⟨entry, present, inTree⟩ := bind_eq_some_iff.mp found
  exact ⟨(stored.edges.mem_iff (edgeTreeOf_eq present)).mp (mem_of_find?_eq_some inTree),
      by simpa using find?_some inTree⟩

theorem Stored.lookupTcEdge_complete (stored : Stored db) (owner : db.edgeOwner edge = some tc)
    (destination : db.destOf edge = some addr) : olsrLookupTcEdge db tc addr ≠ none := by
  intro missing
  obtain ⟨blocks, held⟩ := stored.edges.contained owner
  obtain ⟨entry, present, rfl⟩ := map_eq_some_iff.mp held
  rw [olsrLookupTcEdge, present, bind_eq_bind, bind_some] at missing
  exact find?_eq_none.mp missing edge
      ((stored.edges.mem_iff held).mpr owner) (decide_eq_true destination)

end Lookup

theorem avlInsertNoDup_perm {Key : Type} [DecidableEq Key] {rank : Key → Nat}
    {key : Ptr → Option Key} {node : Ptr} {tree : List Ptr}
    (absent : ∀ other ∈ tree, key other ≠ key node) :
    (avlInsertNoDup rank key node tree).Perm (node :: tree) := by
  have unique : ¬ tree.any (fun other => key other = key node) := by simpa using absent
  rw [avlInsertNoDup, if_neg unique]
  exact perm_orderedInsert ..

section AddEdge

variable {ansn : Nat}

theorem withInverse_edgeOwner (db : Database ver) (inverse : Ptr → Option Ptr) :
    (withInverse db inverse).edgeOwner = db.edgeOwner := by
  funext other
  cases present : db.edges other <;> simp [Database.edgeOwner, withInverse, present]

theorem withInverse_endsOf (db : Database ver) (inverse : Ptr → Option Ptr) :
    (withInverse db inverse).endsOf = db.endsOf := by
  have addrs : (withInverse db inverse).addrOf = db.addrOf := rfl
  funext other
  rw [Database.endsOf, addrs]
  cases present : db.edges other <;> simp [Database.endsOf, withInverse, present]

theorem Stored.withInverse (stored : Stored db) (inverse : Ptr → Option Ptr) :
    Stored (withInverse db inverse) where
  tree_nodup := stored.tree_nodup
  mem_tree := stored.mem_tree
  addr_injective := stored.addr_injective
  edges := by
    rw [withInverse_edgeOwner]
    exact stored.edges
  paths := stored.paths
  refcount_eq := stored.refcount_eq

def withEdge (db : Database ver) (tc : Ptr) (entry : TcEntry ver) (addr : IpAddr ver) (ansn : Nat)
    (edge : Ptr) : Database ver :=
  let allocated := db.setEdge edge ⟨addr, none, tc, ansn⟩
  allocated.setEntry tc
    { entry with
      edgeTree := avlInsertNoDup addrKey allocated.destOf edge entry.edgeTree
      refcount := entry.refcount + 1 }

theorem withEdge_edgeOwner :
    (withEdge db tc entry addr ansn edge).edgeOwner = update db.edgeOwner edge (some tc) := by
  funext other
  by_cases same : other = edge <;>
    simp [Database.edgeOwner, withEdge, Database.setEdge, Database.setEntry, same]

theorem withEdge_addrOf (present : db.entries tc = some entry) :
    (withEdge db tc entry addr ansn edge).addrOf = db.addrOf :=
  addrOf_of_written present rfl rfl

theorem withEdge_endsOf (present : db.entries tc = some entry) :
    (withEdge db tc entry addr ansn edge).endsOf =
      update db.endsOf edge (some (entry.addr, addr)) := by
  funext other
  rw [Database.endsOf, withEdge_addrOf present]
  by_cases same : other = edge <;>
    simp [withEdge, Database.setEdge, Database.setEntry, same,
      Database.addrOf, present, Database.endsOf]

theorem withEdge_inverseOf (free : db.edges edge = none) :
    (withEdge db tc entry addr ansn edge).inverseOf = db.inverseOf := by
  funext other
  by_cases same : other = edge <;>
    simp [withEdge, Database.setEdge, Database.setEntry, same, Database.inverseOf, free]

theorem Stored.withEdge (stored : Stored db) (present : db.entries tc = some entry)
    (free : db.edges edge = none) (unknown : olsrLookupTcEdge db tc addr = none) :
    Stored (withEdge db tc entry addr ansn edge) := by
  have unowned : db.edgeOwner edge = none := by rw [Database.edgeOwner, free, map_none]
  have held : db.edgeTreeOf tc = some entry.edgeTree := edgeTreeOf_eq present
  have inserted :
      (avlInsertNoDup addrKey (db.setEdge edge ⟨addr, none, tc, ansn⟩).destOf edge
          entry.edgeTree).Perm
        (edge :: entry.edgeTree) := by
    apply avlInsertNoDup_perm
    intro other mem
    have owner : db.edgeOwner other = some tc := (stored.edges.mem_iff held).mp mem
    have ne : other ≠ edge := by
      rintro rfl
      rw [unowned] at owner
      cases owner
    intro sameKey
    have destination : db.destOf other = some addr := by
      simpa [Database.destOf, Database.setEdge, ne] using sameKey
    exact stored.lookupTcEdge_complete owner destination unknown
  refine stored.changeEntry present rfl rfl rfl ?_ ?_ ?_
  · have := stored.refcount_eq present
    have := inserted.length_eq
    rw [length_cons] at this
    dsimp only
    omega
  · rw [withEdge_edgeOwner]
    exact stored.edges.add held unowned inserted
  · have unchanged := stored.paths_same present
    exact unchanged

/-- The edge from `addr` back to `source` that `connectInverse` looks for. -/
def oppositeOf (db : Database ver) (source addr : IpAddr ver) : Option Ptr :=
  (olsrLookupTcEntry db addr).bind (olsrLookupTcEdge db · source)

theorem Stored.oppositeOf_sound (stored : Stored db) {source : IpAddr ver} {other : Ptr}
    (found : oppositeOf db source addr = some other) : db.endsOf other = some (addr, source) := by
  obtain ⟨neighbor, isNbr, inTree⟩ := bind_eq_some_iff.mp found
  exact (stored.endsOf_iff (addrOf_of_lookup isNbr)).mpr (stored.lookupTcEdge_sound inTree)

theorem Stored.oppositeOf_complete (stored : Stored db) {source : IpAddr ver} {other : Ptr}
    (ends : db.endsOf other = some (addr, source)) : oppositeOf db source addr ≠ none := by
  obtain ⟨value, present, rest⟩ := bind_eq_some_iff.mp ends
  obtain ⟨first, address, same⟩ := bind_eq_some_iff.mp rest
  cases same
  obtain ⟨owner, destination⟩ := (stored.endsOf_iff address).mp ends
  rw [oppositeOf, stored.lookupTcEntry_iff.mpr address, bind_some]
  exact stored.lookupTcEdge_complete owner destination

theorem connectInverse_eq (stored : Stored db) (address : db.addrOf tc = some entry.addr)
    {value : TcEdgeEntry ver} (live : db.edges edge = some value)
    (unconnected : db.inverseOf edge = none) : connectInverse db tc addr edge =
      some (withInverse db (connect db.inverseOf edge (oppositeOf db entry.addr addr))) := by
  obtain ⟨present, isPresent, sameAddr⟩ := map_eq_some_iff.mp address
  rw [connectInverse, isPresent, bind_eq_bind, bind_some, sameAddr, ← oppositeOf]
  cases found : oppositeOf db entry.addr addr with
  | none =>
    have same : connect db.inverseOf edge none = db.inverseOf := by
      rw [connect, ← unconnected, update_eq_self]
    rw [same, withInverse_inverseOf]
    rfl
  | some other =>
    obtain ⟨value2, live2, -⟩ := bind_eq_some_iff.mp (stored.oppositeOf_sound found)
    have first : writeEdgeInv (withInverse db db.inverseOf) other (some edge) =
          some (withInverse db (update db.inverseOf other (some edge))) :=
      writeEdgeInv_withInverse live2
    rw [withInverse_inverseOf] at first
    simp only [first, bind_eq_bind, bind_some]
    exact writeEdgeInv_withInverse live

variable (linked : WellLinked db) (present : db.entries tc = some entry)
  (free : db.edges edge = none) (unknown : olsrLookupTcEdge db tc addr = none)
include linked present free unknown

theorem olsrAddTcEdgeEntry_eq : olsrAddTcEdgeEntry db tc addr ansn edge = some
        (withInverse (withEdge db tc entry addr ansn edge)
          (connect db.inverseOf edge
            (oppositeOf (withEdge db tc entry addr ansn edge) entry.addr addr))) := by
  have inverses : (withEdge db tc entry addr ansn edge).inverseOf = db.inverseOf :=
    withEdge_inverseOf free
  have unconnected : db.inverseOf edge = none := by rw [Database.inverseOf, free, bind_none]
  have address : (withEdge db tc entry addr ansn edge).addrOf tc = some entry.addr := by
    rw [withEdge_addrOf present, addrOf_eq present]
  have locked : olsrLockTcEntry
          ((db.setEdge edge ⟨addr, none, tc, ansn⟩).setEntry tc
            { entry with
              edgeTree := avlInsertNoDup addrKey
                  (db.setEdge edge ⟨addr, none, tc, ansn⟩).destOf edge
                  entry.edgeTree })
          tc =
        some (withEdge db tc entry addr ansn edge) := by
    simp [olsrLockTcEntry, Database.setEntry, withEdge]
  have allocated : (db.setEdge edge ⟨addr, none, tc, ansn⟩).entries tc = some entry := present
  rw [olsrAddTcEdgeEntry]
  simp only [allocated, locked, bind_eq_bind, bind_some]
  rw [connectInverse_eq (linked.stored.withEdge present free unknown) address
    (update_self ..) (inverses ▸ unconnected), inverses]

theorem olsrAddTcEdgeEntry_linked :
    ∃ next, olsrAddTcEdgeEntry db tc addr ansn edge = some next ∧ WellLinked next := by
  have stored : Stored (withEdge db tc entry addr ansn edge) :=
    linked.stored.withEdge present free unknown
  have ends : (withEdge db tc entry addr ansn edge).endsOf =
        update db.endsOf edge (some (entry.addr, addr)) :=
    withEdge_endsOf present
  have address : db.addrOf tc = some entry.addr := addrOf_eq present
  have unused : ∀ other, db.endsOf other ≠ some (entry.addr, addr) := by
    intro other ends2
    obtain ⟨owner, destination⟩ := (linked.stored.endsOf_iff address).mp ends2
    exact linked.stored.lookupTcEdge_complete owner destination unknown
  have noEnds : db.endsOf edge = none := by simp [Database.endsOf, free]
  have sound : ∀ other, oppositeOf (withEdge db tc entry addr ansn edge) entry.addr addr =
            some other →
          update db.endsOf edge (some (entry.addr, addr)) other = some (addr, entry.addr) := by
    intro other found
    rw [← ends]
    exact stored.oppositeOf_sound found
  have complete : ∀ other, update db.endsOf edge (some (entry.addr, addr)) other =
            some (addr, entry.addr) →
          oppositeOf (withEdge db tc entry addr ansn edge) entry.addr addr ≠ none := by
    intro other ends2
    rw [← ends] at ends2
    exact stored.oppositeOf_complete ends2
  refine ⟨_, olsrAddTcEdgeEntry_eq linked present free unknown, stored.withInverse _, ?_⟩
  rw [withInverse_endsOf, ends]
  refine (linked.paired.add noEnds unused sound complete).congr ?_
  intro other pair ends2
  rw [← ends] at ends2
  obtain ⟨value, live, -⟩ := bind_eq_some_iff.mp ends2
  simp [Database.inverseOf, withInverse, live]

end AddEdge

section Paths

variable {tc path : Ptr} {dst : IpNetwork ver} {origin : RtOrigin} {value : RtPath ver}

/-- The pairing of the edges depends on nothing else. -/
theorem WellLinked.of_stored {next : Database ver} (linked : WellLinked db) (stored : Stored next)
    (edges : next.edges = db.edges) (addrs : ∀ {edge value}, db.edges edge = some value →
        next.addrOf value.tc = db.addrOf value.tc) : WellLinked next where
  stored := stored
  paired := by
    have ends : next.endsOf = db.endsOf := by
      funext edge
      rw [Database.endsOf, Database.endsOf, edges]
      cases present : db.edges edge with
      | none => rfl
      | some value => simp only [bind_eq_bind, bind_some, addrs present]
    have inverses : next.inverseOf = db.inverseOf := by
      funext edge
      rw [Database.inverseOf, Database.inverseOf, edges]
    rw [ends, inverses]
    exact linked.paired

theorem Stored.path_owned (stored : Stored db) (present : db.paths path = some value) :
    ∃ owner, db.entries value.tc = some owner := by
  have owner : db.pathOwner path = some value.tc := by rw [Database.pathOwner, present, map_some]
  obtain ⟨_, held⟩ := stored.paths.contained owner
  obtain ⟨entry, found, -⟩ := map_eq_some_iff.mp held
  exact ⟨entry, found⟩

def withoutPath (db : Database ver) (path : Ptr) (value : RtPath ver)
    (owner : TcEntry ver) : Database ver :=
  (db.setEntry value.tc
      { owner with
        prefixTree := owner.prefixTree.erase path
        refcount := owner.refcount - 1 }).freePath path

section

variable (stored : Stored db) (present : db.paths path = some value)
  (owned : db.entries value.tc = some entry)
include stored present owned

theorem Stored.path_mem : path ∈ entry.prefixTree := by
  rw [stored.paths.mem_iff (prefixTreeOf_eq owned), Database.pathOwner, present, map_some]

theorem olsrDeleteRtPath_eq :
    olsrDeleteRtPath db path = some (withoutPath db path value entry) := by
  have counted : entry.refcount - 1 ≠ 0 := by
    have := stored.refcount_eq owned
    have := length_pos_of_mem (stored.path_mem present owned)
    omega
  simp [olsrDeleteRtPath, present, owned, olsrUnlockTcEntry, withoutPath,
    Database.setEntry, counted]

end

theorem WellLinked.withoutPath (linked : WellLinked db) (present : db.paths path = some value)
    (owned : db.entries value.tc = some entry) : WellLinked (withoutPath db path value entry) := by
  have addrs : (Lsdb.withoutPath db path value entry).addrOf = db.addrOf :=
    addrOf_of_written owned rfl rfl
  have mem : path ∈ entry.prefixTree := linked.stored.path_mem present owned
  have owners : (Lsdb.withoutPath db path value entry).pathOwner =
        update db.pathOwner path none := by
    funext other
    by_cases same : other = path <;>
      simp [Database.pathOwner, Lsdb.withoutPath, Database.freePath, Database.setEntry, same]
  have stored : Stored (Lsdb.withoutPath db path value entry) := by
    refine linked.stored.changeEntry owned rfl rfl rfl ?_ ?_ ?_
    · have := linked.stored.refcount_eq owned
      have := length_erase_of_mem mem
      have := length_pos_of_mem mem
      dsimp only
      omega
    · have unchanged := linked.stored.edges_same owned
      exact unchanged
    · rw [owners]
      exact linked.stored.paths.remove (prefixTreeOf_eq owned)
          ((linked.stored.paths.mem_iff (prefixTreeOf_eq owned)).mp mem)
  exact linked.of_stored stored rfl fun _ => congrFun addrs _

def withPath (db : Database ver) (tc : Ptr) (entry : TcEntry ver) (dst : IpNetwork ver)
    (origin : RtOrigin) (path : Ptr) : Database ver :=
  let allocated := db.setPath path ⟨dst, tc, origin⟩
  allocated.setEntry tc
    { entry with
      prefixTree := avlInsertNoDup prefixKey allocated.dstOf path entry.prefixTree
      refcount := entry.refcount + 1 }

theorem olsrAllocRtPath_eq (present : db.entries tc = some entry) :
    olsrAllocRtPath db tc dst origin path = some (withPath db tc entry dst origin path) := by
  have allocated : (db.setPath path ⟨dst, tc, origin⟩).entries tc = some entry := present
  simp [olsrAllocRtPath, allocated, olsrLockTcEntry, Database.setEntry, withPath]

theorem WellLinked.withPath (linked : WellLinked db) (present : db.entries tc = some entry)
    (free : db.paths path = none) (unknown : findPath db tc dst = none) :
    WellLinked (withPath db tc entry dst origin path) := by
  have addrs : (Lsdb.withPath db tc entry dst origin path).addrOf = db.addrOf :=
    addrOf_of_written present rfl rfl
  have unowned : db.pathOwner path = none := by rw [Database.pathOwner, free, map_none]
  have held : db.prefixTreeOf tc = some entry.prefixTree := prefixTreeOf_eq present
  have owners : (Lsdb.withPath db tc entry dst origin path).pathOwner =
        update db.pathOwner path (some tc) := by
    funext other
    by_cases same : other = path <;>
      simp [Database.pathOwner, Lsdb.withPath, Database.setPath, Database.setEntry, same]
  have inserted :
      (avlInsertNoDup prefixKey (db.setPath path ⟨dst, tc, origin⟩).dstOf path
          entry.prefixTree).Perm
        (path :: entry.prefixTree) := by
    rw [findPath, present, bind_eq_bind, bind_some] at unknown
    apply avlInsertNoDup_perm
    intro other mem sameKey
    have ne : other ≠ path := by
      rintro rfl
      have owner := (linked.stored.paths.mem_iff held).mp mem
      rw [unowned] at owner
      cases owner
    have destination : db.dstOf other = some dst := by
      simpa [Database.dstOf, Database.setPath, ne] using sameKey
    exact find?_eq_none.mp unknown other mem (decide_eq_true destination)
  have stored : Stored (Lsdb.withPath db tc entry dst origin path) := by
    refine linked.stored.changeEntry present rfl rfl rfl ?_ ?_ ?_
    · have := linked.stored.refcount_eq present
      have := inserted.length_eq
      rw [length_cons] at this
      dsimp only
      omega
    · have unchanged := linked.stored.edges_same present
      exact unchanged
    · rw [owners]
      exact linked.stored.paths.add held unowned inserted
  exact linked.of_stored stored rfl fun _ => congrFun addrs _

theorem Stored.findPath_sound (stored : Stored db) (found : findPath db tc dst = some path) :
    ∃ value, db.paths path = some value ∧ value.tc = tc ∧ value.dst = dst := by
  obtain ⟨entry, present, chosen⟩ := bind_eq_some_iff.mp found
  have owner : db.pathOwner path = some tc :=
    (stored.paths.mem_iff (prefixTreeOf_eq present)).mp (mem_of_find?_eq_some chosen)
  have isDst : db.dstOf path = some dst := by simpa using find?_some chosen
  obtain ⟨value, live, isTc⟩ := map_eq_some_iff.mp owner
  rw [Database.dstOf, live, map_some, some_inj] at isDst
  exact ⟨value, live, isTc, isDst⟩

theorem insertPath_linked
    (linked : WellLinked db) (present : db.entries tc = some entry) (free : db.paths path = none) :
    ∃ next, insertPath db tc dst origin path = some next ∧ WellLinked next ∧
      next.addrOf = db.addrOf ∧ ∀ other, other ≠ path → next.paths other = db.paths other := by
  cases found : findPath db tc dst with
  | some known => exact ⟨db, by rw [insertPath, found], linked, rfl, fun _ _ => rfl⟩
  | none =>
    refine ⟨withPath db tc entry dst origin path, ?_, ?_, ?_, ?_⟩
    · rw [insertPath, found]
      exact olsrAllocRtPath_eq present
    · exact linked.withPath present free found
    · exact addrOf_of_written present rfl rfl
    · intro other ne
      exact update_of_ne ne _ _

theorem olsrDeleteRtPath_linked (linked : WellLinked db)
    (owned : db.pathOwner path = some tc) : ∃ next, olsrDeleteRtPath db path = some next ∧
      WellLinked next ∧ next.addrOf = db.addrOf ∧ next.edgeTreeOf = db.edgeTreeOf ∧ ∀ blocks,
      db.prefixTreeOf tc = some blocks → next.prefixTreeOf tc = some (blocks.erase path) := by
  obtain ⟨value, present, rfl⟩ := map_eq_some_iff.mp owned
  obtain ⟨entry, entryPresent⟩ := linked.stored.path_owned present
  refine ⟨_, olsrDeleteRtPath_eq linked.stored present entryPresent,
      linked.withoutPath present entryPresent,
      addrOf_of_written entryPresent rfl rfl, ?_, ?_⟩
  · funext other
    by_cases same : other = value.tc <;>
      simp [Database.edgeTreeOf, withoutPath, Database.freePath,
        Database.setEntry, same, entryPresent]
  · intro blocks held
    rw [prefixTreeOf_eq entryPresent] at held
    cases held
    simp [Database.prefixTreeOf, withoutPath, Database.freePath, Database.setEntry]

end Paths

section Loops

theorem olsrDeleteTcEdgeEntry_linked (linked : WellLinked db)
    (owned : db.edgeOwner edge = some tc) : ∃ next, olsrDeleteTcEdgeEntry db edge = some next ∧
      WellLinked next ∧ next.addrOf = db.addrOf ∧ next.edgeOwner = update db.edgeOwner edge none ∧
      ∀ blocks, db.edgeTreeOf tc = some blocks → next.edgeTreeOf tc = some (blocks.erase edge) := by
  obtain ⟨value, present, rfl⟩ := map_eq_some_iff.mp owned
  obtain ⟨entry, entryPresent⟩ := linked.stored.edge_owned present
  refine ⟨_, olsrDeleteTcEdgeEntry_eq linked present entryPresent,
      linked.withoutEdge present entryPresent,
      withoutEdge_addrOf entryPresent, withoutEdge_edgeOwner, ?_⟩
  intro blocks held
  rw [edgeTreeOf_eq entryPresent] at held
  cases held
  simp [Database.edgeTreeOf, withoutEdge, withInverse, Database.freeEdge, Database.setEntry]

variable {edges : List Ptr}

theorem deleteEdges_linked (linked : WellLinked db) (held : db.edgeTreeOf tc = some edges) :
    ∃ next, edges.foldlM olsrDeleteTcEdgeEntry db = some next ∧
      WellLinked next ∧ next.addrOf = db.addrOf ∧ next.edgeTreeOf tc = some [] := by
  -- the edges still to be visited are those the tree still holds
  induction edges generalizing db with
  | nil => exact ⟨db, rfl, linked, rfl, held⟩
  | cons edge rest ih =>
    have owned : db.edgeOwner edge = some tc := (linked.stored.edges.mem_iff held).mp mem_cons_self
    obtain ⟨middle, deleted, midLinked, addrs, -, trees⟩ :=
      olsrDeleteTcEdgeEntry_linked linked owned
    have left : middle.edgeTreeOf tc = some rest := by rw [trees _ held, erase_cons_head]
    obtain ⟨next, ran, nextLinked, nextAddrs, emptied⟩ := ih midLinked left
    refine ⟨next, ?_, nextLinked, nextAddrs.trans addrs, emptied⟩
    rw [foldlM_cons, deleted]
    exact ran

theorem deletePaths_linked
    (linked : WellLinked db) {paths : List Ptr} (held : db.prefixTreeOf tc = some paths) :
    ∃ next, paths.foldlM olsrDeleteRtPath db = some next ∧ WellLinked next ∧ next.addrOf =
      db.addrOf ∧ next.edgeTreeOf = db.edgeTreeOf ∧ next.prefixTreeOf tc = some [] := by
  induction paths generalizing db with
  | nil => exact ⟨db, rfl, linked, rfl, rfl, held⟩
  | cons path rest ih =>
    have owned : db.pathOwner path = some tc := (linked.stored.paths.mem_iff held).mp mem_cons_self
    obtain ⟨middle, deleted, midLinked, addrs, edges, trees⟩ := olsrDeleteRtPath_linked linked owned
    have left : middle.prefixTreeOf tc = some rest := by rw [trees _ held, erase_cons_head]
    obtain ⟨next, ran, nextLinked, nextAddrs, nextEdges, emptied⟩ := ih midLinked left
    refine ⟨next, ?_, nextLinked, nextAddrs.trans addrs, nextEdges.trans edges, emptied⟩
    rw [foldlM_cons, deleted]
    exact ran

theorem edgeOwner_of_deleted {next : Database ver} {rest : List Ptr}
    (owners : next.edgeOwner = update db.edgeOwner edge none) (nodup : (edge :: rest).Nodup)
    (owned : ∀ other ∈ edge :: rest, db.edgeOwner other = some tc) :
    ∀ other ∈ rest, next.edgeOwner other = some tc := by
  intro other mem
  have ne : other ≠ edge := by
    rintro rfl
    exact (nodup_cons.mp nodup).1 mem
  rw [owners, update_of_ne ne]
  exact owned other (mem_cons_of_mem edge mem)

theorem deleteIfOutdated_linked (linked : WellLinked db) (present : db.entries tc = some entry)
    (nodup : edges.Nodup) (owned : ∀ other ∈ edges, db.edgeOwner other = some tc) :
    ∃ next, edges.foldlM (deleteIfOutdated tc) db = some next ∧ WellLinked next := by
  induction edges generalizing db entry with
  | nil => exact ⟨db, rfl, linked⟩
  | cons edge rest ih =>
    have owner := owned edge mem_cons_self
    have restNodup : rest.Nodup := (nodup_cons.mp nodup).2
    obtain ⟨value, live, -⟩ := map_eq_some_iff.mp owner
    by_cases outdated : seqnoGreaterThan entry.ansn value.ansn
    · obtain ⟨middle, deleted, midLinked, addrs, owners, -⟩ :=
        olsrDeleteTcEdgeEntry_linked linked owner
      obtain ⟨middleEntry, middlePresent⟩ := exists_entry_of_addrOf present addrs
      obtain ⟨next, ran, nextLinked⟩ :=
        ih midLinked middlePresent restNodup (edgeOwner_of_deleted owners nodup owned)
      refine ⟨next, ?_, nextLinked⟩
      simp [deleteIfOutdated, present, live, outdated, deleted, ran]
    · obtain ⟨next, ran, nextLinked⟩ := ih linked present restNodup fun other mem =>
            owned other (mem_cons_of_mem edge mem)
      refine ⟨next, ?_, nextLinked⟩
      simp [deleteIfOutdated, present, live, outdated, ran]

theorem deleteRevoked_linked {ansn : Nat}
    {lowerBorder upperBorder : IpAddr ver} {passedLowerBorder : Bool} (linked : WellLinked db)
    (nodup : edges.Nodup) (owned : ∀ other ∈ edges, db.edgeOwner other = some tc) :
    ∃ next, deleteRevoked ansn lowerBorder upperBorder passedLowerBorder edges db = some next ∧
      WellLinked next := by
  induction edges generalizing db passedLowerBorder with
  | nil => exact ⟨db, rfl, linked⟩
  | cons edge rest ih =>
    have owner := owned edge mem_cons_self
    have restNodup : rest.Nodup := (nodup_cons.mp nodup).2
    have restOwned : ∀ other ∈ rest, db.edgeOwner other = some tc :=
      fun other mem => owned other (mem_cons_of_mem edge mem)
    obtain ⟨value, live, -⟩ := map_eq_some_iff.mp owner
    rw [deleteRevoked, live, bind_eq_bind, bind_some]
    split
    · exact ih linked restNodup restOwned
    split
    · exact ⟨db, rfl, linked⟩
    split
    · obtain ⟨middle, deleted, midLinked, -, owners, -⟩ := olsrDeleteTcEdgeEntry_linked linked owner
      rw [deleted]
      exact ih midLinked restNodup (edgeOwner_of_deleted owners nodup owned)
    · exact ih linked restNodup restOwned

end Loops

section Vertices

variable {adr : IpAddr ver}

def withEntry (db : Database ver) (adr : IpAddr ver) (tc : Ptr) : Database ver :=
  let written := db.setEntry tc ⟨adr, 1, 0, [], []⟩
  { written with tcTree := avlInsertNoDup addrKey written.addrOf tc db.tcTree }

theorem withEntry_addrOf : (withEntry db adr tc).addrOf = update db.addrOf tc (some adr) := by
  funext other
  by_cases same : other = tc <;> simp [Database.addrOf, withEntry, Database.setEntry, same]

theorem WellLinked.withEntry (linked : WellLinked db) (free : db.entries tc = none)
    (unknown : olsrLookupTcEntry db adr = none) : WellLinked (withEntry db adr tc) := by
  have noAddr : db.addrOf tc = none := by rw [Database.addrOf, free, map_none]
  have unused : ∀ other, db.addrOf other ≠ some adr := by
    intro other address
    rw [linked.stored.lookupTcEntry_iff.mpr address] at unknown
    cases unknown
  have inserted : (Lsdb.withEntry db adr tc).tcTree.Perm (tc :: db.tcTree) := by
    apply avlInsertNoDup_perm
    intro other mem sameKey
    obtain ⟨addr, address⟩ := (linked.stored.mem_tree other).mp mem
    have ne : other ≠ tc := by
      rintro rfl
      rw [noAddr] at address
      cases address
    have otherAddr : db.addrOf other = some adr := by
      simpa [Database.addrOf, Database.setEntry, ne] using sameKey
    exact unused other otherAddr
  have absent : tc ∉ db.tcTree := by
    intro mem
    obtain ⟨addr, address⟩ := (linked.stored.mem_tree tc).mp mem
    rw [noAddr] at address
    cases address
  have written : (Lsdb.withEntry db adr tc).entries =
        update db.entries tc (some ⟨adr, 1, 0, [], []⟩) :=
    rfl
  have stored : Stored (Lsdb.withEntry db adr tc) := by
    constructor
    case tree_nodup =>
      exact inserted.nodup_iff.mpr (nodup_cons.mpr ⟨absent, linked.stored.tree_nodup⟩)
    case mem_tree =>
      intro other
      rw [inserted.mem_iff, mem_cons, linked.stored.mem_tree, withEntry_addrOf, update_apply]
      by_cases same : other = tc <;> simp [same]
    case addr_injective =>
      rw [withEntry_addrOf]
      exact update_injective linked.stored.addr_injective unused
    case edges =>
      have noTree : db.edgeTreeOf tc = none := by rw [Database.edgeTreeOf, free, map_none]
      rw [edgeTreeOf_of_written written]
      exact linked.stored.edges.addContainer noTree
    case paths =>
      have noTree : db.prefixTreeOf tc = none := by rw [Database.prefixTreeOf, free, map_none]
      rw [prefixTreeOf_of_written written]
      exact linked.stored.paths.addContainer noTree
    case refcount_eq =>
      intro other otherEntry present
      rw [written, update_apply] at present
      split at present
      · cases present
        rfl
      · exact linked.stored.refcount_eq present
  refine linked.of_stored stored rfl ?_
  intro edge value live
  obtain ⟨owner, owned⟩ := linked.stored.edge_owned live
  have ne : value.tc ≠ tc := by
    intro same
    rw [same, free] at owned
    cases owned
  rw [withEntry_addrOf, update_of_ne ne]

variable {maxplen : Nat} {fresh : FreshBlocks}

section

variable (linked : WellLinked db) (freeEntry : db.entries fresh.tc = none)
include linked freeEntry

/-- A new vertex, to which `olsr_insert_routing_table` then comes back. -/
theorem olsrAddTcEntry_eq (unknown : olsrLookupTcEntry db adr = none)
    (known : db.mainAddr ≠ zeroAddr ver) :
    olsrAddTcEntry maxplen db adr fresh =
      (insertPath (withEntry db adr fresh.tc) fresh.tc ⟨adr, maxplen⟩ .int
        fresh.hostPath).map fun next => (next, some fresh.tc) := by
  have address : (withEntry db adr fresh.tc).addrOf fresh.tc = some adr := by
    rw [withEntry_addrOf, update_self]
  have located : olsrLookupTcEntry (withEntry db adr fresh.tc) adr = some fresh.tc :=
    (linked.withEntry freeEntry unknown).stored.lookupTcEntry_iff.mpr address
  have sameAddrs : (db.setEntry fresh.tc ⟨adr, 0, 0, [], []⟩).addrOf =
        (db.setEntry fresh.tc ⟨adr, 1, 0, [], []⟩).addrOf := by
    funext other
    by_cases same : other = fresh.tc <;> simp [Database.addrOf, Database.setEntry, same]
  have locked : olsrLockTcEntry
          { db.setEntry fresh.tc ⟨adr, 0, 0, [], []⟩ with
            tcTree := avlInsertNoDup addrKey (db.setEntry fresh.tc ⟨adr, 0, 0, [], []⟩).addrOf
                fresh.tc db.tcTree }
          fresh.tc =
        some (withEntry db adr fresh.tc) := by
    rw [sameAddrs]
    simp [olsrLockTcEntry, withEntry, Database.setEntry]
  have tree : (db.setEntry fresh.tc ⟨adr, 0, 0, [], []⟩).tcTree = db.tcTree := rfl
  rw [olsrAddTcEntry, if_neg known]
  simp only [tree, locked, located, bind_eq_bind, bind_some]
  cases insertPath (withEntry db adr fresh.tc) fresh.tc ⟨adr, maxplen⟩ .int fresh.hostPath <;> rfl

theorem olsrAddTcEntry_linked
    (freePath : db.paths fresh.hostPath = none) (unknown : olsrLookupTcEntry db adr = none) :
    ∃ next result, olsrAddTcEntry maxplen db adr fresh = some (next, result) ∧
      WellLinked next ∧ (∀ tc, result = some tc → ∃ entry, next.entries tc = some entry) ∧
      ∀ other, other ≠ fresh.hostPath → next.paths other = db.paths other := by
  by_cases lost : db.mainAddr = zeroAddr ver
  · refine ⟨db, none, by rw [olsrAddTcEntry, if_pos lost], linked, ?_, ?_⟩
    · intro tc no
      cases no
    · intro other _
      rfl
  · have added : WellLinked (withEntry db adr fresh.tc) := linked.withEntry freeEntry unknown
    have written : (withEntry db adr fresh.tc).entries fresh.tc = some ⟨adr, 1, 0, [], []⟩ :=
      update_self ..
    obtain ⟨next, inserted, nextLinked, addrs, paths⟩ : ∃ next,
          insertPath (withEntry db adr fresh.tc) fresh.tc ⟨adr, maxplen⟩ .int fresh.hostPath =
            some next ∧
          WellLinked next ∧ next.addrOf = (withEntry db adr fresh.tc).addrOf ∧
            ∀ other, other ≠ fresh.hostPath → next.paths other = db.paths other :=
      insertPath_linked added written freePath
    refine ⟨next, some fresh.tc, ?_, nextLinked, ?_, paths⟩
    · rw [olsrAddTcEntry_eq linked freeEntry unknown lost, inserted, map_some]
    · intro tc same
      cases same
      exact exists_entry_of_addrOf written addrs

theorem olsrLocateTcEntry_linked (freePath : db.paths fresh.hostPath = none) :
    ∃ next result, olsrLocateTcEntry maxplen db adr fresh = some (next, result) ∧
      WellLinked next ∧ (∀ tc, result = some tc → ∃ entry, next.entries tc = some entry) ∧
      ∀ other, other ≠ fresh.hostPath → next.paths other = db.paths other := by
  cases found : olsrLookupTcEntry db adr with
  | none =>
    rw [olsrLocateTcEntry, found]
    exact olsrAddTcEntry_linked linked freeEntry freePath found
  | some tc =>
    refine ⟨db, some tc, by rw [olsrLocateTcEntry, found], linked, ?_, fun _ _ => rfl⟩
    intro other same
    cases same
    obtain ⟨entry, present, -⟩ := map_eq_some_iff.mp (addrOf_of_lookup found)
    exact ⟨entry, present⟩

theorem olsrInsertRoutingTable_linked
    {dst : IpNetwork ver} {origin : RtOrigin} (freeHostPath : db.paths fresh.hostPath = none)
    (freePath : db.paths fresh.path = none) (distinct : fresh.path ≠ fresh.hostPath) : ∃ next,
      olsrInsertRoutingTable maxplen db dst adr origin fresh = some next ∧ WellLinked next := by
  rw [olsrInsertRoutingTable]
  split
  · exact ⟨db, rfl, linked⟩
  · obtain ⟨middle, result, located, midLinked, live, paths⟩ :
        ∃ next result, olsrLocateTcEntry maxplen db adr fresh = some (next, result) ∧ _ :=
      olsrLocateTcEntry_linked linked freeEntry freeHostPath
    rw [located, bind_eq_bind, bind_some]
    cases result with
    | none => exact ⟨middle, rfl, midLinked⟩
    | some tc =>
      obtain ⟨entry, present⟩ := live tc rfl
      have stillFree : middle.paths fresh.path = none := by rw [paths fresh.path distinct, freePath]
      obtain ⟨next, inserted, nextLinked, -⟩ := insertPath_linked midLinked present stillFree
      exact ⟨next, inserted, nextLinked⟩

end

theorem Stored.deleteRoutingTable_cases (stored : Stored db) (maxplen : Nat)
    (dst : IpNetwork ver) (adr : IpAddr ver) :
    (olsrDeleteRoutingTable maxplen db dst adr = some db ∧
        (dst.prefixLen ≤ maxplen → ∀ tc, db.addrOf tc = some adr → findPath db tc dst = none)) ∨
      ∃ path value, olsrDeleteRoutingTable maxplen db dst adr = olsrDeleteRtPath db path ∧
          db.paths path = some value ∧ db.addrOf value.tc = some adr ∧ value.dst = dst := by
  rw [olsrDeleteRoutingTable]
  split
  next bogus => exact Or.inl ⟨rfl, fun fits => absurd fits bogus.not_ge⟩
  · cases found : (olsrLookupTcEntry db adr).bind (findPath db · dst) with
    | none =>
      refine Or.inl ⟨rfl, fun _ tc address => ?_⟩
      rwa [stored.lookupTcEntry_iff.mpr address, bind_some] at found
    | some path =>
      obtain ⟨tc, located, inTree⟩ := bind_eq_some_iff.mp found
      obtain ⟨value, live, rfl, isDst⟩ := stored.findPath_sound inTree
      exact Or.inr ⟨path, value, rfl, live, addrOf_of_lookup located, isDst⟩

theorem olsrDeleteRoutingTable_linked (linked : WellLinked db) {dst : IpNetwork ver} :
    ∃ next, olsrDeleteRoutingTable maxplen db dst adr = some next ∧
      WellLinked next ∧ next.addrOf = db.addrOf := by
  rcases linked.stored.deleteRoutingTable_cases maxplen dst adr with
    ⟨unchanged, -⟩ | ⟨path, value, isDeleted, live, -⟩
  · exact ⟨db, unchanged, linked, rfl⟩
  · have owned : db.pathOwner path = some value.tc := by rw [Database.pathOwner, live, map_some]
    obtain ⟨next, deleted, nextLinked, addrs, -⟩ := olsrDeleteRtPath_linked linked owned
    exact ⟨next, isDeleted.trans deleted, nextLinked, addrs⟩

/-- The database without a vertex that has lost its edges and prefixes. -/
def withoutEntry (db : Database ver) (tc : Ptr) : Database ver :=
  { db.freeEntry tc with tcTree := db.tcTree.erase tc }

theorem withoutEntry_addrOf : (withoutEntry db tc).addrOf = update db.addrOf tc none := by
  funext other
  by_cases same : other = tc <;> simp [Database.addrOf, withoutEntry, Database.freeEntry, same]

theorem WellLinked.withoutEntry (linked : WellLinked db) (noEdges : db.edgeTreeOf tc = some [])
    (noPaths : db.prefixTreeOf tc = some []) : WellLinked (withoutEntry db tc) := by
  have written : (Lsdb.withoutEntry db tc).entries = update db.entries tc none := rfl
  have stored : Stored (Lsdb.withoutEntry db tc) := by
    constructor
    case tree_nodup => exact linked.stored.tree_nodup.erase tc
    case mem_tree =>
      intro other
      have mem : other ∈ (Lsdb.withoutEntry db tc).tcTree ↔ other ≠ tc ∧ other ∈ db.tcTree :=
        linked.stored.tree_nodup.mem_erase_iff
      rw [mem, linked.stored.mem_tree, withoutEntry_addrOf, update_apply]
      by_cases same : other = tc <;> simp [same]
    case addr_injective =>
      intro first second addr firstAddr secondAddr
      rw [withoutEntry_addrOf, update_apply] at firstAddr secondAddr
      split at firstAddr
      · cases firstAddr
      · split at secondAddr
        · cases secondAddr
        · exact linked.stored.addr_injective firstAddr secondAddr
    case edges =>
      rw [edgeTreeOf_of_written written]
      exact linked.stored.edges.removeContainer noEdges
    case paths =>
      rw [prefixTreeOf_of_written written]
      exact linked.stored.paths.removeContainer noPaths
    case refcount_eq =>
      intro other otherEntry present
      rw [written, update_apply] at present
      split at present
      · cases present
      · exact linked.stored.refcount_eq present
  refine linked.of_stored stored rfl ?_
  intro edge value live
  have owned : db.edgeOwner edge = some value.tc := by rw [Database.edgeOwner, live, map_some]
  have ne : value.tc ≠ tc := by
    intro same
    rw [same] at owned
    exact not_mem_nil ((linked.stored.edges.mem_iff noEdges).mpr owned)
  rw [withoutEntry_addrOf, update_of_ne ne]

/-- The host prefix goes first, then the edges, the other prefixes and the
vertex itself. -/
theorem olsrDeleteTcEntry_steps (linked : WellLinked db) (maxplen : Nat)
    (present : db.entries tc = some entry) : ∃ first firstEntry second secondEntry third,
      olsrDeleteRoutingTable maxplen db ⟨entry.addr, maxplen⟩ entry.addr = some first ∧
      first.entries tc = some firstEntry ∧ firstEntry.edgeTree.foldlM olsrDeleteTcEdgeEntry first =
      some second ∧ second.entries tc = some secondEntry ∧
      secondEntry.prefixTree.foldlM olsrDeleteRtPath second = some third ∧ WellLinked second ∧
      WellLinked third ∧ third.edgeTreeOf tc = some [] ∧ third.prefixTreeOf tc = some [] ∧
      olsrDeleteTcEntry maxplen db tc = some (withoutEntry third tc) := by
  obtain ⟨first, hostDeleted, firstLinked, firstAddrs⟩ : ∃ next,
        olsrDeleteRoutingTable maxplen db ⟨entry.addr, maxplen⟩ entry.addr = some next ∧
          WellLinked next ∧ next.addrOf = db.addrOf :=
    olsrDeleteRoutingTable_linked linked
  obtain ⟨firstEntry, firstPresent⟩ := exists_entry_of_addrOf present firstAddrs
  obtain ⟨second, edgesDeleted, secondLinked, secondAddrs, noEdges⟩ :=
    deleteEdges_linked firstLinked (edgeTreeOf_eq firstPresent)
  obtain ⟨secondEntry, present2⟩ := exists_entry_of_addrOf firstPresent secondAddrs
  obtain ⟨third, pathsDeleted, thirdLinked, thirdAddrs, sameEdges, noPaths⟩ :=
    deletePaths_linked secondLinked (prefixTreeOf_eq present2)
  obtain ⟨thirdEntry, present3⟩ := exists_entry_of_addrOf present2 thirdAddrs
  rw [← sameEdges] at noEdges
  have mem : tc ∈ third.tcTree := by
    rw [thirdLinked.stored.mem_tree, Database.addrOf, present3]
    exact ⟨thirdEntry.addr, rfl⟩
  have lastReference : thirdEntry.refcount = 1 := by
    have edges := noEdges
    rw [edgeTreeOf_eq present3, some_inj] at edges
    have paths := noPaths
    rw [prefixTreeOf_eq present3, some_inj] at paths
    rw [thirdLinked.stored.refcount_eq present3, edges, paths]
    rfl
  refine ⟨first, firstEntry, second, secondEntry, third, hostDeleted,
      firstPresent, edgesDeleted, present2, pathsDeleted, secondLinked,
      thirdLinked, noEdges, noPaths, ?_⟩
  simp [olsrDeleteTcEntry, present, hostDeleted, firstPresent, edgesDeleted,
    present2, pathsDeleted, mem, olsrUnlockTcEntry, present3,
    lastReference, withoutEntry, Database.freeEntry]

theorem olsrDeleteTcEntry_linked (linked : WellLinked db) (present : db.entries tc = some entry) :
    ∃ next, olsrDeleteTcEntry maxplen db tc = some next ∧ WellLinked next := by
  obtain ⟨_, _, _, _, third, -, -, -, -, -, -, thirdLinked, noEdges, noPaths, deleted⟩ :=
    olsrDeleteTcEntry_steps linked maxplen present
  exact ⟨_, deleted, thirdLinked.withoutEntry noEdges noPaths⟩

end Vertices

end QosOlsr.Lsdb
