import QosOlsr.Tc.Consistency

/-!
# Runs of the link-state database

The calls that change the database, in any order.  A call is permitted when its
pointers lead to blocks in use and the blocks it allocates are free.
`olsr_add_tc_entry` does not look whether its address has a vertex already.
-/

namespace QosOlsr.Lsdb

open Library Option

inductive LsdbEvent (ver : IpVersion) where
  | addTcEntry (adr : IpAddr ver) (fresh : FreshBlocks)
  | locateTcEntry (adr : IpAddr ver) (fresh : FreshBlocks)
  | addTcEdgeEntry (tc : Ptr) (addr : IpAddr ver) (ansn : Nat) (edge : Ptr)
  | deleteTcEdgeEntry (edge : Ptr)
  | deleteOutdatedTcEdges (tc : Ptr)
  | deleteRevokedTcEdges (tc : Ptr) (ansn : Nat) (lowerBorder upperBorder : IpAddr ver)
  | deleteTcEntry (tc : Ptr)
  | insertRoutingTable
      (dst : IpNetwork ver) (originator : IpAddr ver)
      (origin : RtOrigin) (fresh : FreshBlocks)
  | deleteRoutingTable (dst : IpNetwork ver) (originator : IpAddr ver)
  /-- `olsr_input_tc` and `olsr_tc_update_edge` store the ANSN of a message. -/
  | setEntryAnsn (tc : Ptr) (ansn : Nat)
  | setEdgeAnsn (edge : Ptr) (ansn : Nat)
  /-- The main address of the node changes. -/
  | setMainAddr (addr : IpAddr ver)

variable {ver : IpVersion}

def lsdbStep (maxplen : Nat) (db : Database ver) : LsdbEvent ver → Option (Database ver)
  | .addTcEntry adr fresh => (olsrAddTcEntry maxplen db adr fresh).map Prod.fst
  | .locateTcEntry adr fresh => (olsrLocateTcEntry maxplen db adr fresh).map Prod.fst
  | .addTcEdgeEntry tc addr ansn edge => olsrAddTcEdgeEntry db tc addr ansn edge
  | .deleteTcEdgeEntry edge => olsrDeleteTcEdgeEntry db edge
  | .deleteOutdatedTcEdges tc => olsrDeleteOutdatedTcEdges db tc
  | .deleteRevokedTcEdges tc ansn lowerBorder upperBorder =>
    olsrDeleteRevokedTcEdges db tc ansn lowerBorder upperBorder
  | .deleteTcEntry tc => olsrDeleteTcEntry maxplen db tc
  | .insertRoutingTable dst originator origin fresh =>
    olsrInsertRoutingTable maxplen db dst originator origin fresh
  | .deleteRoutingTable dst originator => olsrDeleteRoutingTable maxplen db dst originator
  | .setEntryAnsn tc ansn => do
    let entry ← db.entries tc
    return db.setEntry tc { entry with ansn := ansn }
  | .setEdgeAnsn edge ansn => do
    let value ← db.edges edge
    return db.setEdge edge { value with ansn := ansn }
  | .setMainAddr addr => some { db with mainAddr := addr }

section

variable (db : Database ver)

def FreshIn (fresh : FreshBlocks) : Prop :=
  (db.entries fresh.tc).isNone ∧ (db.paths fresh.hostPath).isNone ∧
    (db.paths fresh.path).isNone ∧ fresh.path ≠ fresh.hostPath

instance (fresh : FreshBlocks) : Decidable (FreshIn db fresh) := instDecidableAnd

/-- What the callers provide for: pointers to blocks in use, and a new edge
only where `olsr_lookup_tc_edge` has found none. -/
def Permitted : LsdbEvent ver → Prop
  | .addTcEntry _ fresh => FreshIn db fresh
  | .locateTcEntry _ fresh => FreshIn db fresh
  | .addTcEdgeEntry tc addr _ edge =>
    (db.entries tc).isSome ∧ (db.edges edge).isNone ∧ olsrLookupTcEdge db tc addr = none
  | .deleteTcEdgeEntry edge => (db.edges edge).isSome
  | .deleteOutdatedTcEdges tc => (db.entries tc).isSome
  | .deleteRevokedTcEdges tc _ _ _ => (db.entries tc).isSome
  | .deleteTcEntry tc => (db.entries tc).isSome
  | .insertRoutingTable _ _ _ fresh => FreshIn db fresh
  | .deleteRoutingTable _ _ => True
  | .setEntryAnsn tc _ => (db.entries tc).isSome
  | .setEdgeAnsn edge _ => (db.edges edge).isSome
  | .setMainAddr _ => True

instance : (event : LsdbEvent ver) → Decidable (Permitted db event)
  | .addTcEntry _ fresh => inferInstanceAs (Decidable (FreshIn db fresh))
  | .locateTcEntry _ fresh => inferInstanceAs (Decidable (FreshIn db fresh))
  | .addTcEdgeEntry _ _ _ _ => instDecidableAnd
  | .deleteTcEdgeEntry _ => inferInstanceAs (Decidable (_ = true))
  | .deleteOutdatedTcEdges _ => inferInstanceAs (Decidable (_ = true))
  | .deleteRevokedTcEdges _ _ _ _ => inferInstanceAs (Decidable (_ = true))
  | .deleteTcEntry _ => inferInstanceAs (Decidable (_ = true))
  | .insertRoutingTable _ _ _ fresh =>
    inferInstanceAs (Decidable (FreshIn db fresh))
  | .deleteRoutingTable _ _ => inferInstanceAs (Decidable True)
  | .setEntryAnsn _ _ => inferInstanceAs (Decidable (_ = true))
  | .setEdgeAnsn _ _ => inferInstanceAs (Decidable (_ = true))
  | .setMainAddr _ => inferInstanceAs (Decidable True)

/-- `olsr_add_tc_entry` is called only for an address without a vertex. -/
def addsUnknown : LsdbEvent ver → Bool
  | .addTcEntry adr _ => (olsrLookupTcEntry db adr).isNone
  | _ => true

def permittedStep (maxplen : Nat) (db : Database ver) (event : LsdbEvent ver) :
    Option (Database ver) :=
  if Permitted db event then lsdbStep maxplen db event else none

def unknownStep (maxplen : Nat) (db : Database ver) (event : LsdbEvent ver) :
    Option (Database ver) :=
  if addsUnknown db event then permittedStep maxplen db event else none

/-- The consistency of the database as its readers need it: trees hold live
blocks, opposite edges point to each other, an edge without an opposite points
nowhere, and the reference counts are exact. -/
structure LsdbConsistent : Prop where
  vertex_live : ∀ tc ∈ db.tcTree, ∃ entry, db.entries tc = some entry
  edge_live : ∀ tc ∈ db.tcTree, ∀ entry, db.entries tc = some entry →
      ∀ edge ∈ entry.edgeTree, ∃ value, db.edges edge = some value
  mutual_inverse : ∀ a ∈ db.tcTree, ∀ b ∈ db.tcTree, ∀ entryA entryB,
      db.entries a = some entryA → db.entries b = some entryB →
      ∀ e ∈ entryA.edgeTree, ∀ f ∈ entryB.edgeTree, ∀ valueE valueF,
        db.edges e = some valueE → db.edges f = some valueF →
        valueE.destAddr = entryB.addr → valueF.destAddr = entryA.addr →
          valueE.edgeInv = some f ∧ valueF.edgeInv = some e
  no_inverse : ∀ a ∈ db.tcTree, ∀ entryA, db.entries a = some entryA →
      ∀ e ∈ entryA.edgeTree, ∀ valueE, db.edges e = some valueE →
        (∀ b ∈ db.tcTree, ∀ entryB, db.entries b = some entryB → entryB.addr = valueE.destAddr →
          ∀ f ∈ entryB.edgeTree, ∀ valueF, db.edges f = some valueF →
            valueF.destAddr ≠ entryA.addr) →
          valueE.edgeInv = none
  refcount_exact : ∀ tc ∈ db.tcTree, ∀ entry, db.entries tc = some entry →
      entry.refcount = 1 + entry.edgeTree.length + entry.prefixTree.length

end

variable {db : Database ver}

theorem WellLinked.consistent (linked : WellLinked db) : LsdbConsistent db where
  vertex_live := by
    intro tc mem
    obtain ⟨addr, address⟩ := (linked.stored.mem_tree tc).mp mem
    obtain ⟨entry, present, -⟩ := map_eq_some_iff.mp address
    exact ⟨entry, present⟩
  edge_live := by
    intro tc _ entry present edge mem
    have owner : db.edgeOwner edge = some tc :=
      (linked.stored.edges.mem_iff (edgeTreeOf_eq present)).mp mem
    obtain ⟨value, live, -⟩ := map_eq_some_iff.mp owner
    exact ⟨value, live⟩
  mutual_inverse := by
    intro a _ b _ entryA entryB presentA presentB e memberE f memberF
      valueE valueF liveE liveF destE destF
    have endsE := linked.stored.endsOf_mem presentA memberE liveE
    have endsF := linked.stored.endsOf_mem presentB memberF liveF
    rw [destE] at endsE
    rw [destF] at endsF
    rw [← inverseOf_eq liveE, ← inverseOf_eq liveF]
    exact ⟨(linked.paired.inverse_iff endsE).mpr endsF, (linked.paired.inverse_iff endsF).mpr endsE⟩
  no_inverse := by
    intro a _ entryA presentA e memberE valueE liveE alone
    rw [← inverseOf_eq liveE]
    cases pointer : db.inverseOf e with
    | none => rfl
    | some f =>
      have endsE := linked.stored.endsOf_mem presentA memberE liveE
      have endsF := (linked.paired.inverse_iff endsE).mp pointer
      obtain ⟨valueF, liveF, -⟩ := bind_eq_some_iff.mp endsF
      obtain ⟨entryB, presentB⟩ := linked.stored.edge_owned liveF
      rw [endsOf_eq liveF presentB, some_inj, Prod.mk.injEq] at endsF
      have memberB : valueF.tc ∈ db.tcTree := by
        rw [linked.stored.mem_tree, Database.addrOf, presentB]
        exact ⟨entryB.addr, rfl⟩
      exact (alone valueF.tc memberB entryB presentB endsF.1 f
          (linked.stored.edge_mem liveF presentB) valueF liveF
          endsF.2).elim
  refcount_exact := by
    intro tc _ entry present
    exact linked.stored.refcount_eq present

/-! ## Every step keeps the database well linked -/

theorem WellLinked.setEntryAnsn (linked : WellLinked db) {tc : Ptr} {entry : TcEntry ver}
    (present : db.entries tc = some entry) (ansn : Nat) :
    WellLinked (db.setEntry tc { entry with ansn := ansn }) := by
  have addrs : (db.setEntry tc { entry with ansn := ansn }).addrOf = db.addrOf :=
    addrOf_of_written present rfl rfl
  have edges := linked.stored.edges_same present
  have paths := linked.stored.paths_same present
  have counted := linked.stored.refcount_eq present
  have stored : Stored (db.setEntry tc { entry with ansn := ansn }) :=
    linked.stored.changeEntry present rfl rfl rfl counted edges paths
  exact linked.of_stored stored rfl fun _ => congrFun addrs _

theorem WellLinked.setEdgeAnsn (linked : WellLinked db) {edge : Ptr} {value : TcEdgeEntry ver}
    (live : db.edges edge = some value) (ansn : Nat) :
    WellLinked (db.setEdge edge { value with ansn := ansn }) := by
  have owners : (db.setEdge edge { value with ansn := ansn }).edgeOwner = db.edgeOwner := by
    funext other
    by_cases same : other = edge <;> simp [Database.edgeOwner, Database.setEdge, same, live]
  have ends : (db.setEdge edge { value with ansn := ansn }).endsOf = db.endsOf := by
    have addrs : (db.setEdge edge { value with ansn := ansn }).addrOf = db.addrOf := rfl
    funext other
    rw [Database.endsOf, addrs]
    by_cases same : other = edge <;> simp [Database.endsOf, Database.setEdge, same, live]
  have inverses : (db.setEdge edge { value with ansn := ansn }).inverseOf = db.inverseOf := by
    funext other
    by_cases same : other = edge <;> simp [Database.inverseOf, Database.setEdge, same, live]
  constructor
  · constructor
    case edges =>
      rw [owners]
      exact linked.stored.edges
    case addr_injective => exact linked.stored.addr_injective
    case refcount_eq => exact linked.stored.refcount_eq
    case tree_nodup => exact linked.stored.tree_nodup
    case mem_tree => exact linked.stored.mem_tree
    case paths => exact linked.stored.paths
  · rw [ends, inverses]
    exact linked.paired

theorem lsdbStep_linked (linked : WellLinked db) {maxplen : Nat} {event : LsdbEvent ver}
    (permitted : Permitted db event) (unknown : addsUnknown db event) :
    ∃ next, lsdbStep maxplen db event = some next ∧ WellLinked next := by
  cases event with
  | addTcEntry adr fresh =>
    obtain ⟨freeEntry, freeHost, -, -⟩ := permitted
    obtain ⟨next, result, added, nextLinked, -⟩ :=
      olsrAddTcEntry_linked linked (isNone_iff_eq_none.mp freeEntry)
        (isNone_iff_eq_none.mp freeHost) (isNone_iff_eq_none.mp unknown)
    exact ⟨next, congrArg (Option.map Prod.fst) added, nextLinked⟩
  | locateTcEntry adr fresh =>
    obtain ⟨freeEntry, freeHost, -, -⟩ := permitted
    obtain ⟨next, result, located, nextLinked, -⟩ := olsrLocateTcEntry_linked linked
        (isNone_iff_eq_none.mp freeEntry) (isNone_iff_eq_none.mp freeHost)
    exact ⟨next, congrArg (Option.map Prod.fst) located, nextLinked⟩
  | addTcEdgeEntry tc addr ansn edge =>
    obtain ⟨live, free, missing⟩ := permitted
    obtain ⟨entry, present⟩ := isSome_iff_exists.mp live
    exact olsrAddTcEdgeEntry_linked linked present (isNone_iff_eq_none.mp free) missing
  | deleteTcEdgeEntry edge =>
    obtain ⟨value, live⟩ := isSome_iff_exists.mp permitted
    have owner : db.edgeOwner edge = some value.tc := by rw [Database.edgeOwner, live, map_some]
    obtain ⟨next, deleted, nextLinked, -⟩ := olsrDeleteTcEdgeEntry_linked linked owner
    exact ⟨next, deleted, nextLinked⟩
  | deleteOutdatedTcEdges tc =>
    obtain ⟨entry, present⟩ := isSome_iff_exists.mp permitted
    have held := edgeTreeOf_eq present
    obtain ⟨next, deleted, nextLinked⟩ := deleteIfOutdated_linked linked present
        (linked.stored.edges.nodup held)
        fun other mem => (linked.stored.edges.mem_iff held).mp mem
    refine ⟨next, ?_, nextLinked⟩
    simp [lsdbStep, olsrDeleteOutdatedTcEdges, present, deleted]
  | deleteRevokedTcEdges tc ansn lowerBorder upperBorder =>
    obtain ⟨entry, present⟩ := isSome_iff_exists.mp permitted
    have held := edgeTreeOf_eq present
    have revoked : lsdbStep maxplen db (.deleteRevokedTcEdges tc ansn lowerBorder upperBorder) =
          deleteRevoked ansn lowerBorder upperBorder false entry.edgeTree db := by
      simp [lsdbStep, olsrDeleteRevokedTcEdges, present]
    rw [revoked]
    exact deleteRevoked_linked linked (linked.stored.edges.nodup held)
        fun other mem => (linked.stored.edges.mem_iff held).mp mem
  | deleteTcEntry tc =>
    obtain ⟨entry, present⟩ := isSome_iff_exists.mp permitted
    exact olsrDeleteTcEntry_linked linked present
  | insertRoutingTable dst originator origin fresh =>
    obtain ⟨freeEntry, freeHost, freePath, distinct⟩ := permitted
    exact olsrInsertRoutingTable_linked linked
        (isNone_iff_eq_none.mp freeEntry) (isNone_iff_eq_none.mp freeHost)
        (isNone_iff_eq_none.mp freePath) distinct
  | deleteRoutingTable dst originator =>
    obtain ⟨next, deleted, nextLinked, -⟩ := olsrDeleteRoutingTable_linked linked
    exact ⟨next, deleted, nextLinked⟩
  | setEntryAnsn tc ansn =>
    obtain ⟨entry, present⟩ := isSome_iff_exists.mp permitted
    refine ⟨_, ?_, linked.setEntryAnsn present ansn⟩
    simp [lsdbStep, present]
  | setEdgeAnsn edge ansn =>
    obtain ⟨value, live⟩ := isSome_iff_exists.mp permitted
    refine ⟨_, ?_, linked.setEdgeAnsn live ansn⟩
    simp [lsdbStep, live]
  | setMainAddr addr =>
    have stored : Stored { db with mainAddr := addr } :=
      ⟨linked.stored.tree_nodup, linked.stored.mem_tree,
        linked.stored.addr_injective, linked.stored.edges,
        linked.stored.paths, linked.stored.refcount_eq⟩
    exact ⟨_, rfl, linked.of_stored stored rfl fun _ => rfl⟩

theorem unknownStep_linked {maxplen : Nat} {next : Database ver}
    {event : LsdbEvent ver} (linked : WellLinked db)
    (taken : unknownStep maxplen db event = some next) : WellLinked next := by
  rw [unknownStep] at taken
  split at taken
  next unknown =>
    rw [permittedStep] at taken
    split at taken
    next permitted =>
      obtain ⟨result, stepped, resultLinked⟩ :
          ∃ result, lsdbStep maxplen db event = some result ∧ _ :=
        lsdbStep_linked linked permitted unknown
      rw [stepped] at taken
      cases taken
      exact resultLinked
    · cases taken
  · cases taken

/-- From an empty `tc_tree`, in every run of permitted calls in which
`olsr_add_tc_entry` is called for addresses without a vertex only, the
database is consistent and no permitted call follows a dangling pointer. -/
theorem lsdb_consistent_of_unknown (maxplen : Nat) (mainAddr : IpAddr ver)
    (events : List (LsdbEvent ver)) (db : Database ver)
    (run : runEvents (unknownStep maxplen) (Database.init mainAddr) events = some db) :
    LsdbConsistent db ∧
      ∀ event, Permitted db event → addsUnknown db event → (lsdbStep maxplen db event).isSome := by
  have linked : WellLinked db :=
    runEvents_invariant unknownStep_linked (WellLinked.init mainAddr) run
  refine ⟨linked.consistent, ?_⟩
  intro event permitted unknown
  obtain ⟨next, stepped, -⟩ : ∃ next, lsdbStep maxplen db event = some next ∧ _ :=
    lsdbStep_linked linked permitted unknown
  rw [stepped]
  rfl

def hostAddr (host : UInt8) : IpAddr .inet := .v4 10 0 0 host

def twoNodeEvents : List (LsdbEvent .inet) :=
  [.addTcEntry (hostAddr 1) ⟨0, 0, 1⟩, .locateTcEntry (hostAddr 2) ⟨1, 1, 2⟩,
    .addTcEdgeEntry 0 (hostAddr 2) 7 0,
    .addTcEdgeEntry 1 (hostAddr 1) 7 1]

theorem lsdb_consistent_of_unknown_two_nodes : ∃ db,
      runEvents (unknownStep 32) (Database.init (hostAddr 1)) twoNodeEvents = some db ∧
        db.inverseOf 0 = some 1 ∧ LsdbConsistent db := by
  have inverse :
      ((runEvents (unknownStep 32) (Database.init (hostAddr 1))
          twoNodeEvents).map fun db => db.inverseOf 0) =
        some (some 1) := by
    decide
  obtain ⟨db, run, pointer⟩ := map_eq_some_iff.mp inverse
  exact ⟨db, run, pointer, (lsdb_consistent_of_unknown 32 (hostAddr 1) twoNodeEvents db run).1⟩

/-- The node 10.0.0.1 knows a vertex for 10.0.0.2, and one for 10.0.0.9 with
an edge to 10.0.0.2.  Its main address becomes 10.0.0.2:
`olsr_change_myself_tc` deletes its own vertex and adds one for the new
address, and `olsr_calculate_routing_table` puts the edge to the neighbour
10.0.0.9 on that one. -/
def changedMainAddrEvents : List (LsdbEvent .inet) :=
  [.addTcEntry (hostAddr 1) ⟨0, 0, 1⟩, .locateTcEntry (hostAddr 2) ⟨1, 1, 2⟩,
    .locateTcEntry (hostAddr 9) ⟨2, 2, 3⟩,
    .addTcEdgeEntry 2 (hostAddr 2) 7 0,
    .setMainAddr (hostAddr 2),
    .deleteTcEntry 0,
    .addTcEntry (hostAddr 2) ⟨3, 3, 4⟩,
    .addTcEdgeEntry 3 (hostAddr 9) 0 1]

/-- The new vertex is not in the tree, yet the edge of 10.0.0.9 points to its
edge. -/
theorem lsdb_detached_vertex_linked : ∃ db,
      runEvents (permittedStep 32) (Database.init (hostAddr 1)) changedMainAddrEvents = some db ∧
      ¬ LsdbConsistent db := by
  have outcome :
      ((runEvents (permittedStep 32) (Database.init (hostAddr 1))
          changedMainAddrEvents).map fun db =>
            (db.tcTree, db.edgeTreeOf 1, db.addrOf 2, db.edgeTreeOf 2,
              db.destOf 0, db.inverseOf 0)) =
        some ([1, 2], some [], some (hostAddr 9), some [0], some (hostAddr 2), some 1) :=
    rfl
  obtain ⟨db, run, observed⟩ := map_eq_some_iff.mp outcome
  simp only [Prod.mk.injEq] at observed
  obtain ⟨tree, edges1, addr2, edges2, dest0, inverse0⟩ := observed
  refine ⟨db, run, ?_⟩
  intro consistent
  obtain ⟨entry1, present1, noEdges⟩ := map_eq_some_iff.mp edges1
  obtain ⟨entry2, present2, oneEdge⟩ := map_eq_some_iff.mp edges2
  obtain ⟨value, live, destination⟩ := map_eq_some_iff.mp dest0
  rw [Database.addrOf, present2, map_some, some_inj] at addr2
  have pointer : value.edgeInv = none := by
    refine
      consistent.no_inverse 2 (by simp [tree]) entry2 present2 0 (by simp [oneEdge]) value live ?_
    intro b member entryB presentB sameAddr f edgeMember
    rw [tree] at member
    rcases List.mem_pair.mp member with rfl | rfl
    · rw [present1] at presentB
      cases presentB
      rw [noEdges] at edgeMember
      cases edgeMember
    · rw [present2] at presentB
      cases presentB
      rw [addr2, destination] at sameAddr
      exact absurd sameAddr (by decide)
  rw [inverseOf_eq live, pointer] at inverse0
  cases inverse0

end QosOlsr.Lsdb
