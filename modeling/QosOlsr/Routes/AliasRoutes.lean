import QosOlsr.Routes.HostPrefixes
import QosOlsr.Tc.PrefixOwners

/-!
# Whom the routes of aliases belong to

`olsr_input_mid` registers a new alias together with its prefix; for an alias
that is registered already, for whomever, only the prefix is inserted.  So a
prefix stays behind when one node announces an alias of another.
-/

namespace QosOlsr.Routes

open Library Lsdb List Option

variable {ver : IpVersion} {maxplen : Nat} {st next : RouteState ver}

/-- Every prefix that an alias brought belongs to an alias that is registered
for the owner of the tree. -/
def AliasRoutesOwned (maxplen : Nat) (st : RouteState ver) : Prop :=
  ∀ tc ∈ st.db.tcTree, ∀ entry, st.db.entries tc = some entry →
    ∀ path ∈ entry.prefixTree, ∀ value, st.db.paths path = some value → value.origin = .mid →
        ∃ registered ∈ midLookupAliases st.mid.mids entry.addr,
          value.dst = hostPrefix maxplen registered.aliasAddr

/-- The tables are in order, and prefixes of aliases have their
registration. -/
structure Owned (maxplen : Nat) (st : RouteState ver) : Prop where
  sound : Sound st
  unique : PrefixesUnique st.db
  registered : ∀ {adr dst}, AnnouncesAs st.db adr dst .mid → ∃ aliasAddr,
        dst = hostPrefix maxplen aliasAddr ∧ (aliasAddr, adr) ∈ st.mid.mids.reverseMidSet

section Calls

variable {originator adr : IpAddr ver} {dst : IpNetwork ver} (owned : Owned maxplen st)
include owned

theorem Owned.shed (sound : Sound next) (sheds : Sheds st.db next.db)
    (keeps : ∀ {aliasAddr adr}, (aliasAddr, adr) ∈ st.mid.mids.reverseMidSet →
        AnnouncesAs next.db adr (hostPrefix maxplen aliasAddr) .mid →
        (aliasAddr, adr) ∈ next.mid.mids.reverseMidSet) : Owned maxplen next := by
  refine ⟨sound, sheds.unique owned.unique, ?_⟩
  intro adr dst announced
  obtain ⟨aliasAddr, rfl, queued⟩ := owned.registered (sheds.announcesAs announced)
  exact ⟨aliasAddr, rfl, keeps queued announced⟩

theorem Owned.shedRoutes (good : Good next.db next.limit)
    (sheds : Sheds st.db next.db) (mid : next.mid = st.mid) : Owned maxplen next := by
  refine owned.shed ⟨good, mid ▸ owned.sound.kept⟩ sheds ?_
  rw [mid]
  exact fun queued _ => queued

theorem Owned.deleteRoute (done : deleteRoute maxplen originator st dst = some next) :
    Owned maxplen next ∧ Sheds st.db next.db ∧ next.mid = st.mid ∧
      (dst.prefixLen ≤ maxplen → ¬ AnnouncesAs next.db originator dst .mid) := by
  obtain ⟨good, mid, -⟩ := deleteRoute_spec owned.sound.good done
  obtain ⟨db, deleted, same⟩ := bind_eq_some_iff.mp done
  cases same
  obtain ⟨sheds, gone⟩ := owned.sound.good.sheds_deleteRoute owned.unique deleted
  exact ⟨owned.shedRoutes good sheds mid, sheds, mid, gone⟩

theorem Owned.deleteAliasRoutes {aliases : List (IpAddr ver)}
    (done : deleteAliasRoutes maxplen originator aliases st = some next) :
    Sheds st.db next.db ∧ ∀ aliasAddr ∈ aliases,
      ¬ AnnouncesAs next.db originator (hostPrefix maxplen aliasAddr) .mid := by
  have holds : Owned maxplen next ∧ Sheds st.db next.db ∧
        ∀ dst ∈ aliases.map (hostPrefix maxplen), dst.prefixLen ≤ maxplen →
          ¬ AnnouncesAs next.db originator dst .mid := by
    refine foldlM_preserves
        (fun visited reached =>
          Owned maxplen reached ∧ Sheds st.db reached.db ∧
            ∀ dst ∈ visited, dst.prefixLen ≤ maxplen → ¬ AnnouncesAs reached.db originator dst .mid)
        ?_ ⟨owned, Sheds.refl _, fun _ => nofun⟩ done
    rintro visited dst reached after - ⟨reachedOwned, sheds, gone⟩ taken
    obtain ⟨afterOwned, step, -, isGone⟩ := reachedOwned.deleteRoute taken
    refine ⟨afterOwned, sheds.trans step, ?_⟩
    intro other mem fits announced
    rcases mem_append.mp mem with old | new
    · exact gone other old fits (step.announcesAs announced)
    · obtain rfl := mem_singleton.mp new
      exact isGone fits announced
  refine ⟨holds.2.1, fun aliasAddr mem => ?_⟩
  exact holds.2.2 (hostPrefix maxplen aliasAddr) (mem_map_of_mem mem) le_rfl

theorem Owned.cleanupMid (done : olsrCleanupMid maxplen originator st = some next) :
    Owned maxplen next := by
  obtain ⟨sound, mid, -⟩ := olsrCleanupMid_spec owned.sound done
  obtain ⟨middle, deleted, same⟩ := bind_eq_some_iff.mp done
  obtain ⟨sheds, gone⟩ := owned.deleteAliasRoutes deleted
  have sameDb : next.db = middle.db := by
    cases same
    rfl
  rw [← sameDb] at sheds gone
  refine owned.shed sound sheds ?_
  intro aliasAddr adr queued announced
  rw [mid]
  refine (mem_olsrCleanupMid_iff owned.sound.kept).mpr ⟨queued, ?_⟩
  rintro rfl
  exact gone aliasAddr (owned.sound.kept.mem_midLookupAliases_iff.mpr queued) announced

/-- Inserting a prefix that is no alias's, or one that is registered. -/
theorem Owned.insertRoute {origin : RtOrigin} (hasOwner : origin = .mid → ∃ aliasAddr,
        dst = hostPrefix maxplen aliasAddr ∧ (aliasAddr, originator) ∈ st.mid.mids.reverseMidSet)
    (done : insertRoute maxplen dst originator origin st = some next) : Owned maxplen next := by
  obtain ⟨good, mid, -⟩ := insertRoute_spec done owned.sound.good
  obtain ⟨db, inserted, same⟩ := bind_eq_some_iff.mp done
  cases same
  obtain ⟨unique, source⟩ := owned.sound.good.announcesAs_insertRoute owned.unique inserted
  refine ⟨⟨good, owned.sound.kept⟩, unique, ?_⟩
  intro adr other announced
  rcases source announced with old | no | ⟨rfl, rfl, isOrigin⟩
  · exact owned.registered old
  · cases no
  · exact hasOwner isOrigin.symm

end Calls

section Aliases

variable {ctx : MidContext (IpAddr ver)} {orig aliasAddr : IpAddr ver} {rest : List (IpAddr ver)}

/-- The loop of `olsr_input_mid` before the aliases `rest`, none of which is
registered for another node. -/
structure BeforeOwnAliases (maxplen : Nat) (ctx : MidContext (IpAddr ver)) (orig : IpAddr ver)
    (rest : List (IpAddr ver)) (st : RouteState ver) : Prop where
  owned : Owned maxplen st
  onlyOrig : ∀ aliasAddr ∈ rest, ¬ ctx.isOwnInterface aliasAddr →
      ∀ {mainAddr}, (aliasAddr, mainAddr) ∈ st.mid.mids.reverseMidSet → mainAddr = orig

theorem BeforeOwnAliases.tail (before : BeforeOwnAliases maxplen ctx orig (aliasAddr :: rest) st) :
    BeforeOwnAliases maxplen ctx orig rest st :=
  ⟨before.owned, fun other mem => before.onlyOrig other (mem_cons_of_mem _ mem)⟩

theorem BeforeOwnAliases.register (before : BeforeOwnAliases maxplen ctx orig rest st)
    (isNew : midLookupMainAddr st.mid.mids aliasAddr = none)
    (done : insertMidTuple maxplen orig aliasAddr st = some next) :
    BeforeOwnAliases maxplen ctx orig rest next := by
  rw [insertMidTuple, if_neg (by simp [isNew])] at done
  obtain ⟨middle, inserted, same⟩ := bind_eq_some_iff.mp done
  cases same
  obtain ⟨good, mid, -⟩ := insertRoute_spec inserted before.owned.sound.good
  obtain ⟨db, routed, same⟩ := bind_eq_some_iff.mp inserted
  cases same
  obtain ⟨unique, source⟩ :=
    before.owned.sound.good.announcesAs_insertRoute before.owned.unique routed
  have queued : (QosOlsr.insertMidTuple orig aliasAddr st.mid).mids =
        queueMidTuple st.mid.mids orig aliasAddr := by
    rw [QosOlsr.insertMidTuple, if_neg (by simp [isNew])]
  have queued_iff : ∀ {pair}, pair ∈ (queueMidTuple st.mid.mids orig aliasAddr).reverseMidSet ↔
          pair = (aliasAddr, orig) ∨ pair ∈ st.mid.mids.reverseMidSet :=
    mem_cons
  refine ⟨⟨⟨good, ?_⟩, unique, ?_⟩, ?_⟩
  · simp only [queued]
    exact before.owned.sound.kept.queue orig isNew
  · intro adr dst announced
    simp only [queued, queued_iff]
    rcases source announced with old | no | ⟨rfl, rfl, -⟩
    · obtain ⟨other, isHost, mem⟩ := before.owned.registered old
      exact ⟨other, isHost, Or.inr mem⟩
    · cases no
    · exact ⟨aliasAddr, rfl, Or.inl rfl⟩
  · intro other mem notOwn mainAddr isQueued
    simp only [queued, queued_iff] at isQueued
    rcases isQueued with newest | old
    · exact (Prod.mk.inj newest).2
    · exact before.onlyOrig other mem notOwn old

theorem BeforeOwnAliases.cleanup (before : BeforeOwnAliases maxplen ctx orig rest st)
    (neighbors : List (IpAddr ver)) (isNew : midLookupMainAddr st.mid.mids aliasAddr = none)
    (done : olsrCleanupMid maxplen aliasAddr st = some next) :
    BeforeOwnAliases maxplen ctx orig rest
        { next with mid := { next.mid with neighbors := neighbors } } ∧
      midLookupMainAddr next.mid.mids aliasAddr = none := by
  have cleaned := before.owned.cleanupMid done
  obtain ⟨-, mid, -⟩ := olsrCleanupMid_spec before.owned.sound done
  have fewer :
      ∀ {queued}, queued ∈ next.mid.mids.reverseMidSet → queued ∈ st.mid.mids.reverseMidSet := by
    rw [mid]
    exact mem_of_mem_olsrCleanupMid
  refine ⟨⟨⟨⟨cleaned.sound.good, cleaned.sound.kept⟩, cleaned.unique, cleaned.registered⟩, ?_⟩, ?_⟩
  · intro other mem notOwn mainAddr queued
    exact before.onlyOrig other mem notOwn (fewer queued)
  · rw [midLookupMainAddr_eq_none_iff] at isNew ⊢
    intro queued
    obtain ⟨pair, mem, rfl⟩ := mem_map.mp queued
    exact isNew (mem_map_of_mem (fewer mem))

theorem BeforeOwnAliases.step (before : BeforeOwnAliases maxplen ctx orig (aliasAddr :: rest) st)
    (done : inputMidAlias maxplen ctx orig st aliasAddr = some next) :
    BeforeOwnAliases maxplen ctx orig rest next := by
  rw [inputMidAlias] at done
  split at done
  · cases done
    exact before.tail
  next notOwn =>
    split at done
    next isNew =>
      rw [insertMidAlias] at done
      split at done
      · cases done
        exact before.tail
      · split at done
        · obtain ⟨middle, cleaned, registered⟩ := bind_eq_some_iff.mp done
          have after :=
            before.tail.cleanup (renameNeighbor orig aliasAddr middle.mid.neighbors) isNew cleaned
          exact after.1.register after.2 registered
        · exact before.tail.register isNew done
    next isKnown =>
      obtain ⟨mainAddr, found⟩ := ne_none_iff_exists'.mp isKnown
      have queued := before.owned.sound.kept.midLookupMainAddr_iff.mp found
      obtain rfl := before.onlyOrig aliasAddr mem_cons_self notOwn queued
      have mid := (insertRoute_spec done before.owned.sound.good).2.1
      refine ⟨before.owned.insertRoute (fun _ => ⟨aliasAddr, rfl, queued⟩) done, ?_⟩
      rw [mid]
      exact before.tail.onlyOrig

theorem BeforeOwnAliases.run (before : BeforeOwnAliases maxplen ctx orig rest st)
    (done : rest.foldlM (inputMidAlias maxplen ctx orig) st = some next) : Owned maxplen next := by
  induction rest generalizing st with
  | nil =>
    cases done
    exact before.owned
  | cons aliasAddr rest ih =>
    rw [foldlM_cons] at done
    obtain ⟨middle, taken, done⟩ := bind_eq_some_iff.mp done
    exact ih (before.step taken) done

variable {msg : MidAnnouncement (IpAddr ver)} {nowTimes : UInt32}

private theorem mem_prunedAliases_of_removed {set : MidSet (IpAddr ver)}
    {other mainAddr : IpAddr ver} (queued : (other, mainAddr) ∈ set.reverseMidSet)
    (removed : (other, mainAddr) ∉ (QosOlsr.olsrPruneAliases nowTimes msg set).reverseMidSet) :
    mainAddr = msg.midOrigaddr ∧ other ∈ prunedAliases nowTimes msg set := by
  rw [QosOlsr.olsrPruneAliases] at removed
  rw [prunedAliases, midLookupAliases]
  split at removed
  · exact absurd queued removed
  next entry found =>
    simp only [mem_filter, queued, true_and, decide_eq_true_eq, not_not] at removed
    simp only [found, Option.elim]
    exact removed

theorem Owned.prune (owned : Owned maxplen st)
    (done : olsrPruneAliases maxplen nowTimes msg st = some next) : Owned maxplen next := by
  obtain ⟨middle, deleted, same⟩ := bind_eq_some_iff.mp done
  cases same
  obtain ⟨good, mid, -⟩ := foldlM_deletes deleteRoute_spec owned.sound.good deleted
  obtain ⟨sheds, gone⟩ := owned.deleteAliasRoutes deleted
  rw [mid]
  refine owned.shed ⟨good, owned.sound.kept.prune _ _⟩ sheds ?_
  intro aliasAddr adr queued announced
  by_contra isPruned
  obtain ⟨rfl, inPruned⟩ := mem_prunedAliases_of_removed queued isPruned
  exact gone aliasAddr inPruned announced

end Aliases

section Vertices

variable {originator : IpAddr ver}

section

variable (owned : Owned maxplen st)
include owned

theorem Owned.inputHnaNetwork {ctx : HnaContext ver} {net : IpNetwork ver}
    (done : inputHnaNetwork maxplen ctx originator st net = some next) : Owned maxplen next := by
  rw [Routes.inputHnaNetwork] at done
  split at done
  · cases done
    exact owned
  · split at done
    · cases done
      exact owned
    · split at done
      · cases done
        exact owned
      · have sameRoutes : ∀ hnaSet, Owned maxplen { st with hnaSet := hnaSet } :=
          fun _ => ⟨⟨owned.sound.good, owned.sound.kept⟩, owned.unique, owned.registered⟩
        have notMid : RtOrigin.hna ≠ .mid := by decide
        exact (sameRoutes _).insertRoute (fun isMid => absurd isMid notMid) done

theorem Owned.inputHna {ctx : HnaContext ver} {networks : List (IpNetwork ver)}
    (done : olsrInputHna maxplen ctx originator networks st = some next) : Owned maxplen next := by
  rw [olsrInputHna] at done
  split at done
  · cases done
    exact owned
  · refine foldlM_preserves (fun _ reached => Owned maxplen reached) ?_ owned done
    intro _ net reached after _ reachedOwned taken
    exact reachedOwned.inputHnaNetwork taken

theorem Owned.deleteHnaNetEntry {net : IpNetwork ver}
    (done : olsrDeleteHnaNetEntry maxplen originator st net = some next) :
    Owned maxplen next ∧ next.db.addrOf = st.db.addrOf := by
  obtain ⟨middle, deleted, same⟩ := bind_eq_some_iff.mp done
  cases same
  obtain ⟨-, -, effect⟩ := deleteRoute_spec owned.sound.good deleted
  obtain ⟨middleOwned, -⟩ := owned.deleteRoute deleted
  exact ⟨⟨⟨middleOwned.sound.good, middleOwned.sound.kept⟩, middleOwned.unique,
      middleOwned.registered⟩, effect.addrOf⟩

theorem Owned.deleteVertex {tc : Ptr} {db : Database ver}
    (address : st.db.addrOf tc = some originator)
    (deleted : olsrDeleteTcEntry maxplen st.db tc = some db) :
    Owned maxplen { st with db := db } := by
  obtain ⟨good, -⟩ := owned.sound.good.deleteVertex address deleted
  exact owned.shedRoutes good (owned.sound.good.sheds_deleteVertex owned.unique address deleted) rfl

theorem Owned.clearOriginator {tc : Ptr} (address : st.db.addrOf tc = some originator)
    (done : clearOriginator maxplen originator tc st = some next) : Owned maxplen next := by
  obtain ⟨first, midCleaned, done⟩ := bind_eq_some_iff.mp done
  obtain ⟨second, hnaCleaned, done⟩ := bind_eq_some_iff.mp done
  obtain ⟨db, deleted, same⟩ := bind_eq_some_iff.mp done
  cases same
  obtain ⟨-, -, effect⟩ := olsrCleanupMid_spec owned.sound midCleaned
  have holds : Owned maxplen second ∧ second.db.addrOf = first.db.addrOf := by
    refine foldlM_preserves
        (fun _ reached => Owned maxplen reached ∧ reached.db.addrOf = first.db.addrOf)
        ?_ ⟨owned.cleanupMid midCleaned, rfl⟩ hnaCleaned
    rintro _ net reached after - ⟨reachedOwned, addrs⟩ taken
    obtain ⟨afterOwned, same⟩ := reachedOwned.deleteHnaNetEntry taken
    exact ⟨afterOwned, same.trans addrs⟩
  have stillThere : second.db.addrOf tc = some originator := by rw [holds.2, effect.addrOf, address]
  exact holds.1.deleteVertex stillThere deleted

end

variable {msg : TcAnnouncement ver} {ctx : TcContext ver}

theorem Owned.processTc
    {tc : Ptr} (owned : Owned maxplen st) (address : st.db.addrOf tc = some msg.originator)
    (done : processTc maxplen ctx msg tc st = some next) : Owned maxplen next := by
  obtain ⟨reached, good, same, outcome⟩ := processTc_cases owned.sound.good address done
  have reachedOwned : Owned maxplen reached := owned.shedRoutes good same.routes.sheds same.mid
  rcases outcome with ⟨rfl, _⟩ | ⟨_, cleared⟩
  · exact reachedOwned
  · refine reachedOwned.clearOriginator ?_ cleared
    rw [same.routes.addrOf, address]

theorem Owned.inputTc (owned : Owned maxplen st)
    (done : olsrInputTc maxplen ctx msg st = some next) : Owned maxplen next := by
  rw [olsrInputTc] at done
  split at done
  · cases done
    exact owned
  · split at done
    next tc found =>
      split at done
      · cases done
        exact owned
      · exact owned.processTc (addrOf_of_lookup found) done
    next unknown =>
      obtain ⟨⟨db, result⟩, added, done⟩ := bind_eq_some_iff.mp done
      obtain ⟨tc, isVertex, done⟩ := bind_eq_some_iff.mp done
      obtain ⟨good, -, address, -⟩ := owned.sound.good.addVertex unknown added
      have located : olsrLocateTcEntry maxplen st.db msg.originator
            (freshBlocks st.limit) = some (db, result) := by
        rw [olsrLocateTcEntry, unknown]
        exact added
      obtain ⟨unique, source⟩ := owned.sound.good.announcesAs_locateVertex owned.unique located
      have addedOwned : Owned maxplen { st with db := db, limit := st.limit + 1 } := by
        refine ⟨⟨good, owned.sound.kept⟩, unique, ?_⟩
        intro adr dst announced
        rcases source announced with old | no
        · exact owned.registered old
        · cases no
      exact addedOwned.processTc (address tc isVertex) done

end Vertices

section Runs

/-- Every alias that a processed MID message lists is unknown, an interface of
this node, or registered for the originator already. -/
def ListsOwnAliases (st : RouteState ver) : RouteEvent ver → Prop
  | .inputMid ctx symmetric msg =>
    ctx.olsrValidateAddress msg.midOrigaddr → symmetric →
      ∀ aliasAddr ∈ msg.midAddr, ¬ ctx.isOwnInterface aliasAddr →
        midLookupMainAddr st.mid.mids aliasAddr = none ∨
          midLookupMainAddr st.mid.mids aliasAddr = some msg.midOrigaddr
  | _ => True

instance (st : RouteState ver) :
    (event : RouteEvent ver) → Decidable (ListsOwnAliases st event)
  | .inputMid _ _ _ => inferInstanceAs (Decidable (_ → _))
  | .inputTc _ _ => inferInstanceAs (Decidable True)
  | .inputHna _ _ _ => inferInstanceAs (Decidable True)
  | .expireTcEntry _ => inferInstanceAs (Decidable True)
  | .expireTcEdgeGc _ => inferInstanceAs (Decidable True)
  | .expireMidEntry _ => inferInstanceAs (Decidable True)
  | .expireHnaNetEntry _ _ => inferInstanceAs (Decidable True)
  | .neighborTable _ => inferInstanceAs (Decidable True)

theorem Owned.inputMid
    {ctx : MidContext (IpAddr ver)} {symmetric : Bool} {msg : MidAnnouncement (IpAddr ver)}
    (owned : Owned maxplen st) (own : ListsOwnAliases st (.inputMid ctx symmetric msg))
    (done : olsrInputMid maxplen ctx symmetric msg st = some next) : Owned maxplen next := by
  rw [olsrInputMid] at done
  split at done
  · cases done
    exact owned
  next accepted =>
    simp only [not_or, not_not] at accepted
    obtain ⟨reached, inserted, pruned⟩ := bind_eq_some_iff.mp done
    have before : BeforeOwnAliases maxplen ctx msg.midOrigaddr msg.midAddr st := by
      refine ⟨owned, ?_⟩
      intro aliasAddr mem notOwn mainAddr queued
      have found := owned.sound.kept.midLookupMainAddr_iff.mpr queued
      rcases own accepted.1 accepted.2 aliasAddr mem notOwn with unknown | isOrig
      · rw [found] at unknown
        cases unknown
      · rw [found] at isOrig
        exact some.inj isOrig
    exact (before.run inserted).prune pruned

private theorem routeStep_owned {event : RouteEvent ver} (owned : Owned maxplen st)
    (own : ListsOwnAliases st event) (done : routeStep maxplen st event = some next) :
    Owned maxplen next := by
  cases event with
  | inputTc ctx msg => exact owned.inputTc done
  | inputMid ctx symmetric msg => exact owned.inputMid own done
  | inputHna ctx originator networks => exact owned.inputHna done
  | expireTcEntry adr =>
    obtain ⟨tc, found, done⟩ := bind_eq_some_iff.mp done
    obtain ⟨db, deleted, same⟩ := bind_eq_some_iff.mp done
    cases same
    exact owned.deleteVertex (addrOf_of_lookup found) deleted
  | expireTcEdgeGc adr =>
    obtain ⟨tc, -, done⟩ := bind_eq_some_iff.mp done
    obtain ⟨db, deleted, same⟩ := bind_eq_some_iff.mp done
    cases same
    obtain ⟨good, routes⟩ := owned.sound.good.deleteOutdatedEdges deleted
    exact owned.shedRoutes good routes.sheds rfl
  | expireMidEntry mainAddr => exact owned.cleanupMid done
  | expireHnaNetEntry gw net =>
    obtain ⟨entry, -, done⟩ := bind_eq_some_iff.mp done
    split at done
    · exact (owned.deleteHnaNetEntry done).1
    · cases done
  | neighborTable neighbors =>
    cases done
    exact ⟨⟨owned.sound.good, owned.sound.kept⟩, owned.unique, owned.registered⟩

private theorem initialRoutes_owned {mainAddr : IpAddr ver}
    (started : initialRoutes maxplen mainAddr = some st) : Owned maxplen st := by
  have sound := (initialRoutes_keeps started).1
  obtain ⟨⟨db, result⟩, added, same⟩ := bind_eq_some_iff.mp started
  cases same
  have good := good_init mainAddr
  have located : olsrLocateTcEntry maxplen (Database.init mainAddr) mainAddr
        (freshBlocks 0) = some (db, result) :=
    added
  have empty : PrefixesUnique (Database.init mainAddr) := nofun
  obtain ⟨unique, source⟩ := good.announcesAs_locateVertex empty located
  refine ⟨sound, unique, ?_⟩
  intro adr dst announced
  rcases source announced with ⟨path, value, no, -⟩ | no
  · cases no
  · cases no

theorem Owned.aliasRoutesOwned (owned : Owned maxplen st) : AliasRoutesOwned maxplen st := by
  intro tc _ entry present path mem value live isMid
  have owner : st.db.pathOwner path = some tc :=
    (owned.sound.good.linked.stored.paths.mem_iff (prefixTreeOf_eq present)).mp mem
  rw [Database.pathOwner, live, map_some, some_inj] at owner
  have address : st.db.addrOf value.tc = some entry.addr := by
    rw [owner, Database.addrOf, present, map_some]
  obtain ⟨aliasAddr, isHost, queued⟩ := owned.registered ⟨path, value, live, address, rfl, isMid⟩
  have isListed := owned.sound.kept.mem_midLookupAliases_iff.mpr queued
  obtain ⟨registered, inList, rfl⟩ := mem_map.mp isListed
  exact ⟨registered, inList, isHost⟩

/-- In every run in which no node lists an alias that is registered for
another, every prefix of an alias has its registration. -/
theorem aliasRoutesOwned_of_listsOwnAliases
    (maxplen : Nat) (mainAddr : IpAddr ver) (events : List (RouteEvent ver))
    (start final : RouteState ver) (started : initialRoutes maxplen mainAddr = some start)
    (own : RunMeets (routeStep maxplen) ListsOwnAliases start events)
    (run : runEvents (routeStep maxplen) start events = some final) :
    AliasRoutesOwned maxplen final := by
  have owned : Owned maxplen final :=
    runEvents_invariant_of_meets routeStep_owned (initialRoutes_owned started) own run
  exact owned.aliasRoutesOwned

def ownAliasEvents : List (RouteEvent .inet) :=
  [.inputMid ⟨0, fun _ => true, fun adr => adr = hostAddr 1⟩ true
      ⟨1000, hostAddr 2, [hostAddr 3, hostAddr 4]⟩,
    .inputMid ⟨2000, fun _ => true, fun adr => adr = hostAddr 1⟩ true
      ⟨1000, hostAddr 2, [hostAddr 4]⟩]

theorem aliasRoutesOwned_of_listsOwnAliases_pruned : ∃ start final,
      initialRoutes 32 (hostAddr 1) = some start ∧
        runEvents (routeStep 32) start ownAliasEvents = some final ∧
        (midLookupAliases final.mid.mids (hostAddr 2)).map MidAddress.aliasAddr = [hostAddr 4] ∧
        AliasRoutesOwned 32 final := by
  obtain ⟨start, started, meets, final, run, aliases⟩ : ∃ start,
      initialRoutes 32 (hostAddr 1) = some start ∧
      RunMeets (routeStep 32) ListsOwnAliases start ownAliasEvents ∧
      ∃ final, runEvents (routeStep 32) start ownAliasEvents = some final ∧
        (midLookupAliases final.mid.mids (hostAddr 2)).map MidAddress.aliasAddr = [hostAddr 4] := by
    decide +kernel
  exact ⟨start, final, started, run, aliases,
      aliasRoutesOwned_of_listsOwnAliases 32 (hostAddr 1) ownAliasEvents start
        final started meets run⟩

/-- 10.0.0.2 declares the alias 10.0.0.3, then 10.0.0.4 declares it as well,
and both associations expire. -/
def sharedAliasEvents : List (RouteEvent .inet) :=
  [.inputMid ⟨0, fun _ => true, fun adr => adr = hostAddr 1⟩ true ⟨1000, hostAddr 2, [hostAddr 3]⟩,
    .inputMid ⟨0, fun _ => true, fun adr => adr = hostAddr 1⟩ true ⟨1000, hostAddr 4, [hostAddr 3]⟩,
    .expireMidEntry (hostAddr 2),
    .expireMidEntry (hostAddr 4)]

/-- 10.0.0.4 keeps the prefix of 10.0.0.3, which nobody has as an alias. -/
theorem inputMid_leaves_alias_route : ∃ start final, initialRoutes 32 (hostAddr 1) = some start ∧
        runEvents (routeStep 32) start sharedAliasEvents = some final ∧
        final.mid.mids.reverseMidSet = [] ∧
        ¬ AliasRoutesOwned 32 final := by
  obtain ⟨start, started, final, run, unregistered, noAliases, tree, address, paths,
      leftBehind⟩ : ∃ start, initialRoutes 32 (hostAddr 1) = some start ∧
      ∃ final, runEvents (routeStep 32) start sharedAliasEvents = some final ∧
        final.mid.mids.reverseMidSet.length = 0 ∧
        (midLookupAliases final.mid.mids (hostAddr 4)).length = 0 ∧
        final.db.tcTree = [0, 1, 3] ∧ final.db.addrOf 3 = some (hostAddr 4) ∧
        final.db.prefixTreeOf 3 = some [4, 3] ∧
        (final.db.paths 4).map RtPath.origin = some .mid := by
    decide +kernel
  refine ⟨start, final, started, run, eq_nil_of_length_eq_zero unregistered, fun owned => ?_⟩
  obtain ⟨entry, present, isHost⟩ := map_eq_some_iff.mp address
  rw [prefixTreeOf_eq present, some_inj] at paths
  obtain ⟨value, live, isMid⟩ := map_eq_some_iff.mp leftBehind
  obtain ⟨registered, isListed, -⟩ :=
    owned 3 (by simp [tree]) entry present 4 (by simp [paths]) value live isMid
  rw [isHost, eq_nil_of_length_eq_zero noAliases] at isListed
  cases isListed

end Runs

end QosOlsr.Routes
