import QosOlsr.Tc.Prefixes

/-!
# Where the prefixes come from

Which calls on the link-state database add a prefix, of which origin, and
which ones only take prefixes away.  No tree ever holds a prefix twice, so that
a deleted prefix is gone, and the blocks in use stay where they are.
-/

namespace QosOlsr.Lsdb

open Library Function Option

variable {ver : IpVersion} {adr : IpAddr ver} {dst : IpNetwork ver}
  {origin : RtOrigin} {limit tc path : Ptr}

/-- The vertex of the address has the prefix in its tree, from this origin. -/
def AnnouncesAs (db : Database ver) (adr : IpAddr ver)
    (dst : IpNetwork ver) (origin : RtOrigin) : Prop :=
  ∃ path value, db.paths path = some value ∧ db.addrOf value.tc = some adr ∧
      value.dst = dst ∧ value.origin = origin

def PrefixesUnique (db : Database ver) : Prop := ∀ path other value otherValue,
    db.paths path = some value → db.paths other = some otherValue →
      value.tc = otherValue.tc → value.dst = otherValue.dst → path = other

structure Sheds (db next : Database ver) : Prop where
  paths : ∀ {path value}, next.paths path = some value → db.paths path = some value
  addrOf : ∀ {tc adr}, next.addrOf tc = some adr → db.addrOf tc = some adr

section Sheds

variable {db middle next : Database ver}

theorem Sheds.refl (db : Database ver) : Sheds db db := ⟨id, id⟩

theorem Sheds.trans (first : Sheds db middle) (second : Sheds middle next) : Sheds db next :=
  ⟨fun live => first.paths (second.paths live), fun address => first.addrOf (second.addrOf address)⟩

theorem SameRoutes.sheds (same : SameRoutes db next) : Sheds db next :=
  ⟨fun live => same.paths ▸ live, fun address => same.addrOf ▸ address⟩

theorem Sheds.announcesAs (sheds : Sheds db next) (announced : AnnouncesAs next adr dst origin) :
    AnnouncesAs db adr dst origin := by
  obtain ⟨path, value, live, owner, isDst, isOrigin⟩ := announced
  exact ⟨path, value, sheds.paths live, sheds.addrOf owner, isDst, isOrigin⟩

theorem Sheds.unique (sheds : Sheds db next) (unique : PrefixesUnique db) : PrefixesUnique next :=
  fun path other value value2 live live2 =>
    unique path other value value2 (sheds.paths live) (sheds.paths live2)

theorem Good.sheds_deletePath (good : Good db limit)
    (deleted : olsrDeleteRtPath db path = some next) : Sheds db next ∧ next.paths path = none := by
  obtain ⟨value, live, -⟩ := bind_eq_some_iff.mp deleted
  obtain ⟨-, -, addrs, others⟩ := good.deletePath live deleted
  obtain ⟨entry, owned⟩ := good.linked.stored.path_owned live
  rw [olsrDeleteRtPath_eq good.linked.stored live owned] at deleted
  have freed : next.paths path = none := by
    cases deleted
    exact update_self ..
  refine ⟨⟨?_, fun address => addrs ▸ address⟩, freed⟩
  intro other value2 live2
  by_cases same : other = path
  · rw [same, freed] at live2
    cases live2
  · rw [← others other same, live2]

theorem Good.sheds_deleteRoute {maxplen : Nat} (good : Good db limit) (unique : PrefixesUnique db)
    (deleted : olsrDeleteRoutingTable maxplen db dst adr = some next) :
    Sheds db next ∧ (dst.prefixLen ≤ maxplen → ¬ AnnouncesAs next adr dst origin) := by
  rcases good.linked.stored.deleteRoutingTable_cases maxplen dst adr with
    ⟨unchanged, missed⟩ | ⟨path, value, isDeleted, live, address, sameDst⟩
  · rw [unchanged] at deleted
    cases deleted
    refine ⟨Sheds.refl _, fun fits announced => ?_⟩
    obtain ⟨path, value, live, owner, isDst, -⟩ := announced
    have found :=
      (good.linked.stored.findPath_isSome_iff owner).mpr ⟨path, value, live, owner, isDst⟩
    rw [missed fits value.tc owner] at found
    cases found
  · rw [isDeleted] at deleted
    obtain ⟨sheds, freed⟩ := good.sheds_deletePath deleted
    refine ⟨sheds, fun _ announced => ?_⟩
    obtain ⟨other, value2, live2, otherOwner, otherDst, -⟩ := announced
    have sameTc : value2.tc = value.tc :=
      good.linked.stored.addr_injective (sheds.addrOf otherOwner) address
    have same : other = path := unique other path value2 value (sheds.paths live2) live
        sameTc (otherDst.trans sameDst.symm)
    rw [same, freed] at live2
    cases live2

theorem Good.sheds_deletePaths {paths : List Ptr} (good : Good db limit)
    (deleted : paths.foldlM olsrDeleteRtPath db = some next) : Sheds db next := by
  have holds : Good next limit ∧ Sheds db next := by
    refine foldlM_preserves (fun _ st => Good st limit ∧ Sheds db st)
        ?_ ⟨good, Sheds.refl db⟩ deleted
    rintro _ path st after - ⟨stateGood, sheds⟩ taken
    obtain ⟨value, live, -⟩ := bind_eq_some_iff.mp taken
    exact ⟨(stateGood.deletePath live taken).1, sheds.trans (stateGood.sheds_deletePath taken).1⟩
  exact holds.2

theorem Good.sheds_deleteVertex {maxplen : Nat} (good : Good db limit) (unique : PrefixesUnique db)
    (address : db.addrOf tc = some adr) (deleted : olsrDeleteTcEntry maxplen db tc = some next) :
    Sheds db next := by
  obtain ⟨entry, present, rfl⟩ := map_eq_some_iff.mp address
  obtain ⟨first, firstEntry, second, secondEntry, third, hostDeleted, -,
      edgesDeleted, -, pathsDeleted, -, -, -, -, result⟩ :=
    olsrDeleteTcEntry_steps good.linked maxplen present
  rw [deleted] at result
  cases result
  obtain ⟨firstGood, -⟩ := good.deleteRoute hostDeleted
  obtain ⟨firstSheds, -⟩ : Sheds db first ∧ (_ → ¬ AnnouncesAs first _ _ RtOrigin.int) :=
    good.sheds_deleteRoute unique hostDeleted
  obtain ⟨secondGood, edges⟩ := firstGood.deleteEdges edgesDeleted
  have thirdSheds : Sheds db third :=
    (firstSheds.trans edges.sheds).trans (secondGood.sheds_deletePaths pathsDeleted)
  refine ⟨fun live => thirdSheds.paths live, ?_⟩
  intro other otherAdr otherAddr
  rw [withoutEntry_addrOf, update_apply] at otherAddr
  split at otherAddr
  · cases otherAddr
  · exact thirdSheds.addrOf otherAddr

end Sheds

section Inserting

variable {db next : Database ver}

theorem WellLinked.announcesAs_insertPath
    (linked : WellLinked db) (address : db.addrOf tc = some adr)
    (unique : PrefixesUnique db) (inserted : Lsdb.insertPath db tc dst origin path = some next) :
    PrefixesUnique next ∧ ∀ {other otherDst origin2}, AnnouncesAs next other otherDst origin2 →
      AnnouncesAs db other otherDst origin2 ∨ other = adr ∧ otherDst = dst ∧ origin2 = origin := by
  obtain ⟨entry, present, sameAddr⟩ := map_eq_some_iff.mp address
  cases found : findPath db tc dst with
  | some known =>
    rw [Lsdb.insertPath, found] at inserted
    cases inserted
    exact ⟨unique, Or.inl⟩
  | none =>
    rw [Lsdb.insertPath, found] at inserted
    simp only [olsrAllocRtPath_eq present] at inserted
    cases inserted
    have addrs : (Lsdb.withPath db tc entry dst origin path).addrOf = db.addrOf :=
      addrOf_of_written present rfl rfl
    have paths : ∀ known, (Lsdb.withPath db tc entry dst origin path).paths known =
          if known = path then some ⟨dst, tc, origin⟩
          else db.paths known :=
      fun known => update_apply ..
    have missing :
        ∀ {known value}, db.paths known = some value → value.tc = tc → value.dst ≠ dst := by
      intro known value live isTc isDst
      have announced : Announces db adr dst := ⟨known, value, live, isTc ▸ address, isDst⟩
      rw [← linked.stored.findPath_isSome_iff address, found] at announced
      cases announced
    constructor
    · intro known other value value2 live live2 sameTc sameDst
      rw [paths] at live live2
      split at live
      next isPath =>
        cases live
        split at live2
        next isOther => rw [isPath, isOther]
        · exact absurd sameDst.symm (missing live2 sameTc.symm)
      · split at live2
        · cases live2
          exact absurd sameDst (missing live sameTc)
        · exact unique known other value value2 live live2 sameTc sameDst
    · rintro other otherDst origin2 ⟨known, value, live, owner, rfl, rfl⟩
      rw [paths] at live
      rw [addrs] at owner
      split at live
      · cases live
        rw [address, some_inj] at owner
        exact Or.inr ⟨owner.symm, rfl, rfl⟩
      · exact Or.inl ⟨known, value, live, owner, rfl, rfl⟩

theorem Good.announcesAs_locateVertex
    {maxplen : Nat} {result : Option Ptr} (good : Good db limit) (unique : PrefixesUnique db)
    (located : olsrLocateTcEntry maxplen db adr (freshBlocks limit) = some (next, result)) :
    PrefixesUnique next ∧ ∀ {other otherDst origin2}, AnnouncesAs next other otherDst origin2 →
      AnnouncesAs db other otherDst origin2 ∨ origin2 = .int := by
  rw [olsrLocateTcEntry] at located
  split at located
  · cases located
    exact ⟨unique, Or.inl⟩
  next unknown =>
    have freeEntry : db.entries limit = none := good.entries_free le_rfl
    by_cases lost : db.mainAddr = zeroAddr ver
    · rw [olsrAddTcEntry, if_pos lost] at located
      cases located
      exact ⟨unique, Or.inl⟩
    · rw [olsrAddTcEntry_eq good.linked freeEntry unknown lost] at located
      obtain ⟨final, inserted, same⟩ := map_eq_some_iff.mp located
      cases same
      have address : (Lsdb.withEntry db adr limit).addrOf limit = some adr := by
        rw [withEntry_addrOf, update_self]
      have extended := good.withEntry unknown
      have sameUnique : PrefixesUnique (Lsdb.withEntry db adr limit) := unique
      obtain ⟨uniqueNext, announced⟩ :=
        extended.linked.announcesAs_insertPath address sameUnique inserted
      refine ⟨uniqueNext, fun isAnnounced => ?_⟩
      rcases announced isAnnounced with old | ⟨-, -, isInt⟩
      · left
        obtain ⟨path, value, live, owner, isDst, isOrigin⟩ := old
        refine ⟨path, value, live, ?_, isDst, isOrigin⟩
        obtain ⟨entry, owned⟩ := good.linked.stored.path_owned live
        rw [withEntry_addrOf, update_of_ne] at owner
        · exact owner
        · intro same
          rw [same, freeEntry] at owned
          cases owned
      · exact Or.inr isInt

theorem Good.announcesAs_insertRoute
    {maxplen : Nat} (good : Good db limit) (unique : PrefixesUnique db)
    (inserted : olsrInsertRoutingTable maxplen db dst adr origin (freshBlocks limit) = some next) :
    PrefixesUnique next ∧ ∀ {other otherDst origin2},
      AnnouncesAs next other otherDst origin2 → AnnouncesAs db other otherDst origin2 ∨
      origin2 = .int ∨ other = adr ∧ otherDst = dst ∧ origin2 = origin := by
  rw [olsrInsertRoutingTable] at inserted
  split at inserted
  · cases inserted
    exact ⟨unique, Or.inl⟩
  · obtain ⟨⟨middle, result⟩, isLocated, rest⟩ := bind_eq_some_iff.mp inserted
    obtain ⟨middleGood, -, isVertex, -⟩ := good.locateVertex isLocated
    obtain ⟨middleUnique, located⟩ := good.announcesAs_locateVertex unique isLocated
    cases result with
    | none =>
      cases rest
      exact ⟨middleUnique, fun announced => (located announced).imp_right Or.inl⟩
    | some tc =>
      obtain ⟨nextUnique, announced⟩ :=
        middleGood.linked.announcesAs_insertPath (isVertex tc rfl) middleUnique rest
      refine ⟨nextUnique, fun isAnnounced => ?_⟩
      rcases announced isAnnounced with old | new
      · exact (located old).imp_right Or.inl
      · exact Or.inr (Or.inr new)

end Inserting

end QosOlsr.Lsdb
