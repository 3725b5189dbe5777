import QosOlsr.Library.Loop
import QosOlsr.Tc.Consistency

/-!
# The prefixes of the vertices

What the calls on the link-state database do to the vertices and to the
prefixes in their trees.  A prefix tree is keyed by the prefix alone:
`olsr_delete_routing_table` deletes a prefix whoever has inserted it.
-/

namespace QosOlsr.Lsdb

open Library Function Option

variable {ver : IpVersion} {db next : Database ver} {adr : IpAddr ver} {dst : IpNetwork ver}

def HasVertex (db : Database ver) (adr : IpAddr ver) : Prop := ∃ tc, db.addrOf tc = some adr

def Announces (db : Database ver) (adr : IpAddr ver) (dst : IpNetwork ver) : Prop :=
  ∃ path value, db.paths path = some value ∧ db.addrOf value.tc = some adr ∧ value.dst = dst

structure Good (db : Database ver) (limit : Ptr) : Prop where
  linked : WellLinked db
  entries_free : ∀ {tc}, limit ≤ tc → db.entries tc = none
  edges_free : ∀ {edge}, limit ≤ edge → db.edges edge = none
  paths_free : ∀ {path}, limit ≤ path → db.paths path = none

structure SameRoutes (db next : Database ver) : Prop where
  mainAddr : next.mainAddr = db.mainAddr
  addrOf : next.addrOf = db.addrOf
  paths : next.paths = db.paths

/-- What locating the vertex of `adr` does: a new vertex announces its own
address. -/
structure Located (maxplen : Nat) (adr : IpAddr ver) (db next : Database ver) : Prop where
  mainAddr : next.mainAddr = db.mainAddr
  vertex_iff : ∀ {other}, other ≠ adr → (HasVertex next other ↔ HasVertex db other)
  vertex : HasVertex db adr → HasVertex next adr
  announces : ∀ {other dst}, Announces db other dst → Announces next other dst
  host : HasVertex next adr → ¬ HasVertex db adr → Announces next adr ⟨adr, maxplen⟩
  lost : db.mainAddr = zeroAddr ver → HasVertex next adr → HasVertex db adr

/-- What inserting the prefix `dst` of `originator` does. -/
structure Inserted (maxplen : Nat) (dst : IpNetwork ver) (originator : IpAddr ver)
    (db next : Database ver) : Prop extends Located maxplen originator db next where
  inserted : dst.prefixLen ≤ maxplen → HasVertex next originator → Announces next originator dst
  created : dst.prefixLen ≤ maxplen → db.mainAddr ≠ zeroAddr ver → HasVertex next originator

/-- What deleting the prefix `dst` of `originator` does. -/
structure Deleted (dst : IpNetwork ver) (originator : IpAddr ver)
    (db next : Database ver) : Prop where
  mainAddr : next.mainAddr = db.mainAddr
  addrOf : next.addrOf = db.addrOf
  announces : ∀ {adr other}, Announces db adr other →
      ¬ (adr = originator ∧ other = dst) → Announces next adr other

section Reading

variable {tc : Ptr}

theorem hasVertex_iff_of_addrOf (addrs : next.addrOf = db.addrOf) :
    HasVertex next adr ↔ HasVertex db adr := by
  rw [HasVertex, HasVertex, addrs]

theorem SameRoutes.refl (db : Database ver) : SameRoutes db db := ⟨rfl, rfl, rfl⟩

theorem SameRoutes.trans {middle : Database ver} (first : SameRoutes db middle)
    (second : SameRoutes middle next) : SameRoutes db next where
  mainAddr := second.mainAddr.trans first.mainAddr
  addrOf := second.addrOf.trans first.addrOf
  paths := second.paths.trans first.paths

theorem SameRoutes.announces_iff (same : SameRoutes db next) :
    Announces next adr dst ↔ Announces db adr dst := by
  rw [Announces, Announces, same.addrOf, same.paths]

theorem Stored.hasVertex_iff_lookup (stored : Stored db) :
    HasVertex db adr ↔ (olsrLookupTcEntry db adr).isSome := by
  rw [isSome_iff_exists]
  exact exists_congr fun tc => stored.lookupTcEntry_iff.symm

theorem Stored.not_hasVertex (stored : Stored db) (unknown : olsrLookupTcEntry db adr = none) :
    ¬ HasVertex db adr := by
  rw [stored.hasVertex_iff_lookup, unknown]
  exact Bool.false_ne_true

theorem Stored.findPath_isSome_iff (stored : Stored db) (address : db.addrOf tc = some adr) :
    (findPath db tc dst).isSome ↔ Announces db adr dst := by
  obtain ⟨entry, present, -⟩ := map_eq_some_iff.mp address
  have inTree : ∀ {path}, path ∈ entry.prefixTree ↔ db.pathOwner path = some tc :=
    stored.paths.mem_iff (prefixTreeOf_eq present)
  rw [findPath, present, bind_eq_bind, bind_some, List.find?_isSome]
  constructor
  · rintro ⟨path, mem, isDst⟩
    have owner := inTree.mp mem
    obtain ⟨value, live, rfl⟩ := map_eq_some_iff.mp owner
    rw [decide_eq_true_eq, Database.dstOf, live, map_some, some_inj] at isDst
    exact ⟨path, value, live, address, isDst⟩
  · rintro ⟨path, value, live, owner, rfl⟩
    refine ⟨path, inTree.mpr ?_, decide_eq_true ?_⟩
    · rw [Database.pathOwner, live, map_some, stored.addr_injective owner address]
    · rw [Database.dstOf, live, map_some]

end Reading

section Edges

variable {tc edge : Ptr} {limit : Ptr}

theorem free_of_update {Value : Type} {mem : Ptr → Option Value} {block : Ptr} {value : Value}
    {new : Option Value} (free : ∀ {other}, limit ≤ other → mem other = none)
    (live : mem block = some value) {other : Ptr} (above : limit ≤ other) :
    update mem block new other = none := by
  have ne : other ≠ block := by
    rintro rfl
    rw [free above] at live
    cases live
  rw [update_of_ne ne, free above]

theorem Good.deleteEdge (good : Good db limit)
    (deleted : olsrDeleteTcEdgeEntry db edge = some next) :
    Good next limit ∧ SameRoutes db next := by
  cases live : db.edges edge with
  | none => simp [olsrDeleteTcEdgeEntry, live] at deleted
  | some value =>
    obtain ⟨owner, owned⟩ := good.linked.stored.edge_owned live
    rw [olsrDeleteTcEdgeEntry_eq good.linked live owned] at deleted
    cases deleted
    refine ⟨⟨good.linked.withoutEdge live owned, ?_, ?_, good.paths_free⟩,
        rfl, withoutEdge_addrOf owned, rfl⟩
    · exact free_of_update good.entries_free owned
    · intro other above
      have free := good.edges_free above
      simp [withoutEdge, Database.freeEdge, withInverse, Database.setEntry, update_apply, free]

theorem Good.addEdge (good : Good db limit) {entry : TcEntry ver}
    (present : db.entries tc = some entry) {addr : IpAddr ver}
    {ansn : Nat} (unknown : olsrLookupTcEdge db tc addr = none)
    (added : olsrAddTcEdgeEntry db tc addr ansn limit = some next) :
    Good next (limit + 1) ∧ SameRoutes db next := by
  have free : db.edges limit = none := good.edges_free le_rfl
  obtain ⟨_, result, linked⟩ : ∃ next, olsrAddTcEdgeEntry db tc addr ansn limit = some next ∧
        WellLinked next :=
    olsrAddTcEdgeEntry_linked good.linked present free unknown
  rw [added] at result
  cases result
  rw [olsrAddTcEdgeEntry_eq good.linked present free unknown] at added
  cases added
  refine ⟨⟨linked, ?_, ?_, ?_⟩, rfl, withEdge_addrOf present, rfl⟩
  · intro other above
    exact free_of_update good.entries_free present (Nat.le_of_succ_le above)
  · intro other above
    have ne : other ≠ limit := (Nat.lt_of_succ_le above).ne'
    have free := good.edges_free (Nat.le_of_succ_le above)
    simp [withEdge, withInverse, Database.setEntry, Database.setEdge, ne, free]
  · intro other above
    exact good.paths_free (Nat.le_of_succ_le above)

theorem Good.deleteOutdatedEdges (good : Good db limit)
    (deleted : olsrDeleteOutdatedTcEdges db tc = some next) :
    Good next limit ∧ SameRoutes db next := by
  obtain ⟨entry, -, ran⟩ := bind_eq_some_iff.mp deleted
  refine foldlM_preserves (fun _ st => Good st limit ∧ SameRoutes db st)
      ?_ ⟨good, SameRoutes.refl db⟩ ran
  intro _ edge st after _ holds taken
  obtain ⟨owner, -, taken⟩ := bind_eq_some_iff.mp taken
  obtain ⟨value, -, taken⟩ := bind_eq_some_iff.mp taken
  split at taken
  · have kept := holds.1.deleteEdge taken
    exact ⟨kept.1, holds.2.trans kept.2⟩
  · cases taken
    exact holds

theorem Good.deleteRevokedEdges {ansn : Nat} {lowerBorder upperBorder : IpAddr ver}
    {passedLowerBorder : Bool} {edges : List Ptr} (good : Good db limit)
    (deleted : deleteRevoked ansn lowerBorder upperBorder passedLowerBorder edges db = some next) :
    Good next limit ∧ SameRoutes db next := by
  induction edges generalizing db passedLowerBorder with
  | nil =>
    cases deleted
    exact ⟨good, SameRoutes.refl _⟩
  | cons edge rest ih =>
    obtain ⟨value, -, taken⟩ := bind_eq_some_iff.mp deleted
    split at taken
    · exact ih good taken
    · split at taken
      · cases taken
        exact ⟨good, SameRoutes.refl _⟩
      · split at taken
        · obtain ⟨middle, first, taken⟩ := bind_eq_some_iff.mp taken
          have kept := good.deleteEdge first
          have rest := ih kept.1 taken
          exact ⟨rest.1, kept.2.trans rest.2⟩
        · exact ih good taken

end Edges

section Prefixes

variable {tc path limit : Ptr}

/-- The vertex then has the prefix and every other one that it had. -/
theorem WellLinked.insertPath
    (linked : WellLinked db) (address : db.addrOf tc = some adr) {origin : RtOrigin}
    (free : db.paths path = none) (inserted : insertPath db tc dst origin path = some next) :
    WellLinked next ∧ next.mainAddr = db.mainAddr ∧ next.addrOf = db.addrOf ∧
      next.edges = db.edges ∧ (∀ other, db.entries other = none → next.entries other = none) ∧
      (∀ other, other ≠ path → next.paths other = db.paths other) ∧
      (∀ {other dst}, Announces db other dst → Announces next other dst) ∧
      Announces next adr dst := by
  obtain ⟨entry, present, sameAddr⟩ := map_eq_some_iff.mp address
  cases found : findPath db tc dst with
  | some known =>
    rw [Lsdb.insertPath, found] at inserted
    cases inserted
    have announced : (findPath db tc dst).isSome := by simp [found]
    exact ⟨linked, rfl, rfl, rfl, fun _ => id, fun _ _ => rfl, id,
        (linked.stored.findPath_isSome_iff address).mp announced⟩
  | none =>
    rw [Lsdb.insertPath, found] at inserted
    simp only [olsrAllocRtPath_eq present] at inserted
    cases inserted
    have addrs : (Lsdb.withPath db tc entry dst origin path).addrOf = db.addrOf :=
      addrOf_of_written present rfl rfl
    have others : ∀ other, other ≠ path →
          (Lsdb.withPath db tc entry dst origin path).paths other = db.paths other :=
      fun other ne => update_of_ne ne _ _
    refine ⟨linked.withPath present free found, rfl, addrs, rfl, ?_, others, ?_, ?_⟩
    · intro other unused
      have ne : other ≠ tc := by
        rintro rfl
        rw [present] at unused
        cases unused
      exact (update_of_ne ne _ _).trans unused
    · rintro other otherDst ⟨known, value, live, owner, isDst⟩
      have ne : known ≠ path := by
        rintro rfl
        rw [free] at live
        cases live
      refine ⟨known, value, ?_, ?_, isDst⟩
      · rw [others known ne, live]
      · rw [addrs, owner]
    · refine ⟨path, ⟨dst, tc, origin⟩, update_self .., ?_, rfl⟩
      rw [addrs, address]

theorem Good.deletePath (good : Good db limit) {value : RtPath ver}
    (live : db.paths path = some value) (deleted : olsrDeleteRtPath db path = some next) :
    Good next limit ∧ next.mainAddr = db.mainAddr ∧
      next.addrOf = db.addrOf ∧ ∀ other, other ≠ path → next.paths other = db.paths other := by
  obtain ⟨entry, owned⟩ := good.linked.stored.path_owned live
  rw [olsrDeleteRtPath_eq good.linked.stored live owned] at deleted
  cases deleted
  refine ⟨⟨good.linked.withoutPath live owned, ?_, good.edges_free, ?_⟩, rfl,
      addrOf_of_written owned rfl rfl,
      fun other ne => update_of_ne ne _ _⟩
  · exact free_of_update good.entries_free owned
  · exact free_of_update good.paths_free live

theorem announces_of_others (addrs : next.addrOf = db.addrOf)
    (others : ∀ other, other ≠ path → next.paths other = db.paths other)
    (announced : Announces db adr dst)
    (ne : ∀ {value}, db.paths path = some value → db.addrOf value.tc = some adr → value.dst ≠ dst) :
    Announces next adr dst := by
  obtain ⟨known, value, live, owner, isDst⟩ := announced
  refine ⟨known, value, ?_, addrs ▸ owner, isDst⟩
  rw [others known, live]
  rintro rfl
  exact ne live owner isDst

theorem Good.deleteRoute (good : Good db limit) {maxplen : Nat}
    (deleted : olsrDeleteRoutingTable maxplen db dst adr = some next) :
    Good next limit ∧ Deleted dst adr db next := by
  rcases good.linked.stored.deleteRoutingTable_cases maxplen dst adr with
    ⟨unchanged, -⟩ | ⟨path, value, isDeleted, live, address, sameDst⟩
  · rw [unchanged] at deleted
    cases deleted
    exact ⟨good, rfl, rfl, fun announced _ => announced⟩
  · rw [isDeleted] at deleted
    obtain ⟨nextGood, mainAddr, addrs, others⟩ := good.deletePath live deleted
    refine ⟨nextGood, mainAddr, addrs, ?_⟩
    intro other otherDst announced ne
    refine announces_of_others addrs others announced ?_
    intro owned ownedLive isOther same
    rw [live] at ownedLive
    cases ownedLive
    rw [address, some_inj] at isOther
    exact ne ⟨isOther.symm, same.symm.trans sameDst⟩

end Prefixes

section Vertices

variable {tc limit : Ptr}

/-- The blocks of one call, all from the free part of the memory. -/
def freshBlocks (limit : Ptr) : FreshBlocks := ⟨limit, limit, limit + 1⟩

theorem Located.refl (db : Database ver) (maxplen : Nat) : Located maxplen adr db db where
  mainAddr := rfl
  vertex_iff := fun _ => Iff.rfl
  vertex := id
  announces := id
  host := fun has hasNot => absurd has hasNot
  lost := fun _ => id

theorem Good.mono (good : Good db limit) {larger : Ptr} (le : limit ≤ larger) : Good db larger where
  linked := good.linked
  entries_free := fun above => good.entries_free (le.trans above)
  edges_free := fun above => good.edges_free (le.trans above)
  paths_free := fun above => good.paths_free (le.trans above)

theorem Good.withEntry (good : Good db limit) (unknown : olsrLookupTcEntry db adr = none) :
    Good (withEntry db adr limit) (limit + 1) where
  linked := good.linked.withEntry (good.entries_free le_rfl) unknown
  entries_free := by
    intro other above
    have ne : other ≠ limit := (Nat.lt_of_succ_le above).ne'
    rw [← good.entries_free (Nat.le_of_succ_le above)]
    exact update_of_ne ne _ _
  edges_free := fun above => good.edges_free (Nat.le_of_succ_le above)
  paths_free := fun above => good.paths_free (Nat.le_of_succ_le above)

theorem Good.insertPath (good : Good db limit) (address : db.addrOf tc = some adr)
    {origin : RtOrigin} {path : Ptr} (free : db.paths path = none) (below : path < limit)
    (inserted : insertPath db tc dst origin path = some next) : Good next limit := by
  obtain ⟨linked, -, -, edges, entries, paths, -, -⟩ := good.linked.insertPath address free inserted
  refine ⟨linked, ?_, ?_, ?_⟩
  · exact fun above => entries _ (good.entries_free above)
  · exact fun above => edges ▸ good.edges_free above
  · intro other above
    rw [paths other (below.trans_le above).ne', good.paths_free above]

variable {other : IpAddr ver}

theorem hasVertex_withEntry_iff (free : db.entries tc = none) :
    HasVertex (withEntry db adr tc) other ↔ HasVertex db other ∨ other = adr := by
  have noAddr : db.addrOf tc = none := by rw [Database.addrOf, free, map_none]
  simp only [HasVertex, withEntry_addrOf, update_apply]
  constructor
  · rintro ⟨found, address⟩
    split at address
    · exact Or.inr (some.inj address).symm
    · exact Or.inl ⟨found, address⟩
  · rintro (⟨found, address⟩ | rfl)
    · refine ⟨found, ?_⟩
      rw [if_neg, address]
      rintro rfl
      rw [noAddr] at address
      cases address
    · exact ⟨tc, if_pos rfl⟩

theorem announces_withEntry (free : db.entries tc = none) (announced : Announces db other dst) :
    Announces (withEntry db adr tc) other dst := by
  obtain ⟨path, value, live, owner, isDst⟩ := announced
  refine ⟨path, value, live, ?_, isDst⟩
  rw [withEntry_addrOf, update_of_ne, owner]
  intro same
  rw [same, Database.addrOf, free] at owner
  cases owner

variable {maxplen : Nat} {result : Option Ptr}

theorem Good.addVertex (good : Good db limit) (unknown : olsrLookupTcEntry db adr = none)
    (added : olsrAddTcEntry maxplen db adr (freshBlocks limit) = some (next, result)) :
    Good next (limit + 1) ∧
      Located maxplen adr db next ∧ (∀ tc, result = some tc → next.addrOf tc = some adr) ∧
      (result = none → db.mainAddr = zeroAddr ver ∧ next = db) := by
  have freeEntry : db.entries limit = none := good.entries_free le_rfl
  have freePath : db.paths limit = none := good.paths_free le_rfl
  by_cases lost : db.mainAddr = zeroAddr ver
  · rw [olsrAddTcEntry, if_pos lost] at added
    cases added
    refine ⟨good.mono (Nat.le_succ limit), Located.refl db maxplen, ?_, fun _ => ⟨lost, rfl⟩⟩
    intro tc no
    cases no
  · rw [olsrAddTcEntry_eq good.linked freeEntry unknown lost] at added
    obtain ⟨final, inserted, same⟩ := map_eq_some_iff.mp added
    cases same
    have address : (Lsdb.withEntry db adr limit).addrOf limit = some adr := by
      rw [withEntry_addrOf, update_self]
    have extended := good.withEntry unknown
    obtain ⟨-, mainAddr, addrs, -, -, -, announces, host⟩ :=
      extended.linked.insertPath address freePath inserted
    refine ⟨extended.insertPath address freePath (Nat.lt_succ_self limit) inserted,
        ⟨mainAddr, ?_, ?_, ?_, ?_, fun isLost => absurd isLost lost⟩, ?_, ?_⟩
    · intro other ne
      rw [hasVertex_iff_of_addrOf addrs, hasVertex_withEntry_iff freeEntry, or_iff_left ne]
    · intro has
      rw [hasVertex_iff_of_addrOf addrs, hasVertex_withEntry_iff freeEntry]
      exact Or.inl has
    · exact fun announced => announces (announces_withEntry freeEntry announced)
    · exact fun _ _ => host
    · intro tc same
      cases same
      rw [addrs]
      exact address
    · intro no
      cases no

theorem Good.locateVertex (good : Good db limit)
    (located : olsrLocateTcEntry maxplen db adr (freshBlocks limit) = some (next, result)) :
    Good next (limit + 1) ∧
      Located maxplen adr db next ∧ (∀ tc, result = some tc → next.addrOf tc = some adr) ∧
      (result = none → db.mainAddr = zeroAddr ver ∧ ¬ HasVertex next adr) := by
  rw [olsrLocateTcEntry] at located
  split at located
  next tc found =>
    cases located
    refine ⟨good.mono (Nat.le_succ limit), Located.refl db maxplen, ?_, ?_⟩
    · intro other same
      cases same
      exact addrOf_of_lookup found
    · intro no
      cases no
  next unknown =>
    obtain ⟨nextGood, nextLocated, isVertex, lost⟩ := good.addVertex unknown located
    refine ⟨nextGood, nextLocated, isVertex, ?_⟩
    intro noResult
    obtain ⟨isLost, rfl⟩ := lost noResult
    exact ⟨isLost, good.linked.stored.not_hasVertex unknown⟩

theorem Good.insertRoute (good : Good db limit) {origin : RtOrigin}
    (inserted : olsrInsertRoutingTable maxplen db dst adr origin (freshBlocks limit) = some next) :
    Good next (limit + 2) ∧ Inserted maxplen dst adr db next := by
  rw [olsrInsertRoutingTable] at inserted
  split at inserted
  next bogus =>
    cases inserted
    exact ⟨good.mono (Nat.le_add_right limit 2), Located.refl db maxplen,
        fun valid => absurd valid bogus.not_ge,
        fun valid => absurd valid bogus.not_ge⟩
  · obtain ⟨⟨middle, result⟩, isLocated, rest⟩ := bind_eq_some_iff.mp inserted
    obtain ⟨middleGood, located, isVertex, lost⟩ := good.locateVertex isLocated
    cases result with
    | none =>
      cases rest
      exact ⟨middleGood.mono (Nat.le_succ _), located, fun _ has => absurd has (lost rfl).2,
          fun _ known => absurd (lost rfl).1 known⟩
    | some tc =>
      have address : middle.addrOf tc = some adr := isVertex tc rfl
      have free : middle.paths (limit + 1) = none := middleGood.paths_free le_rfl
      obtain ⟨-, mainAddr, addrs, -, -, -, announces, isInserted⟩ :=
        middleGood.linked.insertPath address free rest
      have vertex_iff : ∀ {other}, HasVertex next other ↔ HasVertex middle other :=
        hasVertex_iff_of_addrOf addrs
      refine ⟨(middleGood.mono (Nat.le_succ _)).insertPath address free (Nat.lt_succ_self _) rest,
          ⟨mainAddr.trans located.mainAddr, ?_, ?_, ?_, ?_, ?_⟩,
          fun _ _ => isInserted,
          fun _ _ => vertex_iff.mpr ⟨tc, address⟩⟩
      · exact fun ne => vertex_iff.trans (located.vertex_iff ne)
      · exact fun has => vertex_iff.mpr (located.vertex has)
      · exact fun announced => announces (located.announces announced)
      · exact fun has hasNot => announces (located.host (vertex_iff.mp has) hasNot)
      · exact fun isLost has => located.lost isLost (vertex_iff.mp has)

/-! A vertex is deleted with all that hangs off it. -/

theorem Good.deleteEdges (good : Good db limit) {edges : List Ptr}
    (deleted : edges.foldlM olsrDeleteTcEdgeEntry db = some next) :
    Good next limit ∧ SameRoutes db next := by
  refine foldlM_preserves (fun _ st => Good st limit ∧ SameRoutes db st)
      ?_ ⟨good, SameRoutes.refl db⟩ deleted
  intro _ edge st after _ holds taken
  have kept := holds.1.deleteEdge taken
  exact ⟨kept.1, holds.2.trans kept.2⟩

theorem Good.deletePaths
    (good : Good db limit) {paths : List Ptr} (owned : ∀ path ∈ paths, db.pathOwner path = some tc)
    (deleted : paths.foldlM olsrDeleteRtPath db = some next) :
    Good next limit ∧ next.mainAddr = db.mainAddr ∧ next.addrOf = db.addrOf ∧
      ∀ other, db.pathOwner other ≠ some tc → next.paths other = db.paths other := by
  refine foldlM_preserves
      (fun _ st =>
        Good st limit ∧ st.mainAddr = db.mainAddr ∧ st.addrOf = db.addrOf ∧
            ∀ other, db.pathOwner other ≠ some tc → st.paths other = db.paths other)
      ?_ ⟨good, rfl, rfl, fun _ _ => rfl⟩ deleted
  rintro _ path st after mem ⟨stateGood, mainAddr, addrs, others⟩ taken
  obtain ⟨value, live, -⟩ := bind_eq_some_iff.mp taken
  obtain ⟨afterGood, afterMainAddr, afterAddrs, afterOthers⟩ := stateGood.deletePath live taken
  refine ⟨afterGood, afterMainAddr.trans mainAddr, afterAddrs.trans addrs, ?_⟩
  intro other isOther
  rw [afterOthers other, others other isOther]
  rintro rfl
  exact isOther (owned other mem)

theorem hasVertex_withoutEntry_iff (stored : Stored db) (address : db.addrOf tc = some adr) :
    HasVertex (withoutEntry db tc) other ↔ HasVertex db other ∧ other ≠ adr := by
  simp only [HasVertex, withoutEntry_addrOf, update_apply]
  constructor
  · rintro ⟨found, isOther⟩
    split at isOther
    · cases isOther
    next ne =>
      refine ⟨⟨found, isOther⟩, ?_⟩
      rintro rfl
      exact ne (stored.addr_injective isOther address)
  · rintro ⟨⟨found, isOther⟩, ne⟩
    refine ⟨found, ?_⟩
    rw [if_neg, isOther]
    rintro rfl
    exact ne (some.inj (isOther.symm.trans address))

/-- Deleting a vertex leaves the other vertices and their prefixes. -/
theorem Good.deleteVertex (good : Good db limit) (address : db.addrOf tc = some adr)
    (deleted : olsrDeleteTcEntry maxplen db tc = some next) : Good next limit ∧ next.mainAddr =
      db.mainAddr ∧ (∀ {other}, HasVertex next other ↔ HasVertex db other ∧ other ≠ adr) ∧
      ∀ {other dst}, Announces db other dst → other ≠ adr → Announces next other dst := by
  obtain ⟨entry, present, rfl⟩ := map_eq_some_iff.mp address
  obtain ⟨first, firstEntry, second, secondEntry, third, hostDeleted, -,
      edgesDeleted, present2, pathsDeleted, -, thirdLinked, noEdges,
      noPaths, result⟩ :=
    olsrDeleteTcEntry_steps good.linked maxplen present
  rw [deleted] at result
  cases result
  obtain ⟨firstGood, host⟩ := good.deleteRoute hostDeleted
  obtain ⟨secondGood, edges⟩ := firstGood.deleteEdges edgesDeleted
  have secondAddr : second.addrOf tc = some entry.addr := by
    rw [edges.addrOf, host.addrOf, address]
  obtain ⟨thirdGood, mainAddr, addrs, others⟩ := secondGood.deletePaths
      (fun path mem =>
        (secondGood.linked.stored.paths.mem_iff (prefixTreeOf_eq present2)).mp mem)
      pathsDeleted
  have thirdAddrs : third.addrOf = db.addrOf := by rw [addrs, edges.addrOf, host.addrOf]
  have thirdAddr : third.addrOf tc = some entry.addr := by rw [thirdAddrs, address]
  refine ⟨⟨?_, ?_, ?_, ?_⟩, ?_, ?_, ?_⟩
  · exact thirdLinked.withoutEntry noEdges noPaths
  · intro other above
    by_cases same : other = tc
    · rw [same]
      exact update_self ..
    · exact (update_of_ne same _ _).trans (thirdGood.entries_free above)
  · exact thirdGood.edges_free
  · exact thirdGood.paths_free
  · exact mainAddr.trans (edges.mainAddr.trans host.mainAddr)
  · intro other
    rw [hasVertex_withoutEntry_iff thirdLinked.stored thirdAddr, hasVertex_iff_of_addrOf thirdAddrs]
  · intro other dst announced ne
    have kept : Announces second other dst :=
      edges.announces_iff.mpr (host.announces announced fun same => ne same.1)
    obtain ⟨path, value, live, owner, isDst⟩ := kept
    have notOwner : value.tc ≠ tc := by
      rintro rfl
      exact ne (some.inj (owner.symm.trans secondAddr))
    refine ⟨path, value, ?_, ?_, isDst⟩
    · refine (others path ?_).trans live
      rw [Database.pathOwner, live, map_some]
      exact fun same => notOwner (some.inj same)
    · rw [withoutEntry_addrOf, update_of_ne notOwner, addrs, owner]

end Vertices

end QosOlsr.Lsdb
