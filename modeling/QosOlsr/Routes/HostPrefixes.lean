import QosOlsr.Routes.Tables
import QosOlsr.Tc.DatabaseRuns

/-!
# Host prefixes through runs

A prefix tree does not know who inserted a prefix.  An announced network or an
alias that equals a host prefix takes that prefix with it when it goes.
-/

namespace QosOlsr.Routes

open Library Lsdb List Option

variable {ver : IpVersion} {maxplen : Nat} {st next : RouteState ver}
  {originator : IpAddr ver} {exempt : IpAddr ver → Prop}

structure Sound (st : RouteState ver) : Prop where
  good : Good st.db st.limit
  kept : WellKept st.mid.mids

/-- The host prefixes are there, but for those of exempt vertices and of
aliases that are pending. -/
structure HostsKept (maxplen : Nat) (exempt : IpAddr ver → Prop)
    (pending : IpAddr ver → IpAddr ver → Prop) (st : RouteState ver) : Prop where
  own : ∀ {adr}, ¬ exempt adr → HasVertex st.db adr → Announces st.db adr (hostPrefix maxplen adr)
  aliases : ∀ {aliasAddr mainAddr}, ¬ exempt mainAddr →
      (aliasAddr, mainAddr) ∈ st.mid.mids.reverseMidSet →
      HasVertex st.db mainAddr →
        Announces st.db mainAddr (hostPrefix maxplen aliasAddr) ∨ pending mainAddr aliasAddr

/-- What deleting some prefixes of `originator` does. -/
structure DeletedAll (dsts : List (IpNetwork ver)) (originator : IpAddr ver)
    (db next : Database ver) : Prop where
  mainAddr : next.mainAddr = db.mainAddr
  addrOf : next.addrOf = db.addrOf
  announces : ∀ {adr other}, Announces db adr other →
      ¬ (adr = originator ∧ other ∈ dsts) → Announces next adr other

section Calls

variable {dst : IpNetwork ver}

theorem hostPrefix_injective {adr other : IpAddr ver}
    (same : hostPrefix maxplen adr = hostPrefix maxplen other) : adr = other :=
  (IpNetwork.mk.inj same).1

theorem insertRoute_spec {origin : RtOrigin}
    (done : insertRoute maxplen dst originator origin st = some next) (good : Good st.db st.limit) :
    Good next.db next.limit ∧ next.mid = st.mid ∧
      Inserted maxplen dst originator st.db next.db := by
  obtain ⟨db, inserted, same⟩ := bind_eq_some_iff.mp done
  cases same
  obtain ⟨nextGood, effect⟩ := good.insertRoute inserted
  exact ⟨nextGood, rfl, effect⟩

theorem deleteRoute_spec (good : Good st.db st.limit)
    (done : deleteRoute maxplen originator st dst = some next) :
    Good next.db next.limit ∧ next.mid = st.mid ∧ Deleted dst originator st.db next.db := by
  obtain ⟨db, deleted, same⟩ := bind_eq_some_iff.mp done
  cases same
  obtain ⟨nextGood, effect⟩ := good.deleteRoute deleted
  exact ⟨nextGood, rfl, effect⟩

theorem foldlM_deletes {delete : RouteState ver → IpNetwork ver → Option (RouteState ver)}
    (deletes : ∀ {before after dst}, Good before.db before.limit →
        delete before dst = some after → Good after.db after.limit ∧ after.mid = before.mid ∧
        Deleted dst originator before.db after.db) {dsts : List (IpNetwork ver)}
    (good : Good st.db st.limit) (done : dsts.foldlM delete st = some next) :
    Good next.db next.limit ∧ next.mid = st.mid ∧ DeletedAll dsts originator st.db next.db := by
  refine foldlM_preserves
      (fun visited reached =>
        Good reached.db reached.limit ∧ reached.mid = st.mid ∧
          DeletedAll visited originator st.db reached.db)
      ?_ ⟨good, rfl, rfl, rfl, fun announced _ => announced⟩ done
  rintro visited dst reached after - ⟨reachedGood, mid, before⟩ taken
  obtain ⟨afterGood, afterMid, effect⟩ := deletes reachedGood taken
  refine ⟨afterGood, afterMid.trans mid, effect.mainAddr.trans before.mainAddr,
      effect.addrOf.trans before.addrOf, ?_⟩
  intro adr other announced spared
  rw [mem_append, mem_singleton] at spared
  apply effect.announces
  · exact before.announces announced fun both => spared ⟨both.1, Or.inl both.2⟩
  · exact fun both => spared ⟨both.1, Or.inr both.2⟩

end Calls

section Kept

variable {pending remaining : IpAddr ver → IpAddr ver → Prop}
  (kept : HostsKept maxplen exempt pending st)
include kept

theorem HostsKept.deleteAll
    {dsts : List (IpNetwork ver)} (deleted : DeletedAll dsts originator st.db next.db)
    (fewer : ∀ {queued}, queued ∈ next.mid.mids.reverseMidSet → queued ∈ st.mid.mids.reverseMidSet)
    (own : ¬ exempt originator → HasVertex st.db originator → hostPrefix maxplen originator ∉ dsts)
    (aliases : ∀ {aliasAddr}, ¬ exempt originator →
        HasVertex st.db originator → (aliasAddr, originator) ∈ next.mid.mids.reverseMidSet →
        hostPrefix maxplen aliasAddr ∉ dsts) : HostsKept maxplen exempt pending next where
  own := by
    intro adr counts has
    rw [hasVertex_iff_of_addrOf deleted.addrOf] at has
    apply deleted.announces (kept.own counts has)
    rintro ⟨rfl, isDeleted⟩
    exact own counts has isDeleted
  aliases := by
    intro aliasAddr mainAddr counts registered has
    rw [hasVertex_iff_of_addrOf deleted.addrOf] at has
    refine (kept.aliases counts (fewer registered) has).imp_left ?_
    intro announced
    apply deleted.announces announced
    rintro ⟨rfl, isDeleted⟩
    exact aliases counts has registered isDeleted

/-- A vertex may be located, or a prefix inserted, if a new vertex has no
aliases but those that it announces or that are pending. -/
theorem HostsKept.locate
    (located : Located maxplen originator st.db next.db) (sameMids : next.mid.mids = st.mid.mids)
    (settled : ∀ {mainAddr aliasAddr}, pending mainAddr aliasAddr → HasVertex next.db mainAddr →
        Announces next.db mainAddr (hostPrefix maxplen aliasAddr) ∨ remaining mainAddr aliasAddr)
    (ready : ∀ {aliasAddr}, ¬ exempt originator →
        (aliasAddr, originator) ∈ st.mid.mids.reverseMidSet → ¬ HasVertex st.db originator →
        HasVertex next.db originator → Announces next.db originator (hostPrefix maxplen aliasAddr) ∨
        remaining originator aliasAddr) : HostsKept maxplen exempt remaining next where
  own := by
    intro adr counts has
    by_cases had : HasVertex st.db adr
    · exact located.announces (kept.own counts had)
    · by_cases isNew : adr = originator
      · subst isNew
        exact located.host has had
      · exact absurd ((located.vertex_iff isNew).mp has) had
  aliases := by
    intro aliasAddr mainAddr counts registered has
    rw [sameMids] at registered
    by_cases had : HasVertex st.db mainAddr
    · rcases kept.aliases counts registered had with announced | isPending
      · exact Or.inl (located.announces announced)
      · exact settled isPending has
    · by_cases isNew : mainAddr = originator
      · subst isNew
        exact ready counts registered had has
      · exact absurd ((located.vertex_iff isNew).mp has) had

theorem HostsKept.of_same (same : SameRoutes st.db next.db)
    (sameMids : next.mid.mids = st.mid.mids) : HostsKept maxplen exempt pending next where
  own := by
    intro adr counts has
    rw [hasVertex_iff_of_addrOf same.addrOf] at has
    exact same.announces_iff.mpr (kept.own counts has)
  aliases := by
    intro aliasAddr mainAddr counts registered has
    rw [hasVertex_iff_of_addrOf same.addrOf] at has
    rw [sameMids] at registered
    exact (kept.aliases counts registered has).imp_left same.announces_iff.mpr

theorem HostsKept.weaken {larger : IpAddr ver → Prop} (le : ∀ {adr}, exempt adr → larger adr) :
    HostsKept maxplen larger pending st where
  own := fun counts => kept.own fun isExempt => counts (le isExempt)
  aliases := fun counts => kept.aliases fun isExempt => counts (le isExempt)

end Kept

section Aliases

variable {pending : IpAddr ver → IpAddr ver → Prop} {orig : IpAddr ver} {set : MidSet (IpAddr ver)}

theorem mem_olsrCleanupMid_iff (kept : WellKept set) {aliasAddr mainAddr : IpAddr ver} :
    (aliasAddr, mainAddr) ∈ (QosOlsr.olsrCleanupMid set orig).reverseMidSet ↔
      (aliasAddr, mainAddr) ∈ set.reverseMidSet ∧ mainAddr ≠ orig := by
  rw [QosOlsr.olsrCleanupMid]
  split
  · simp [QosOlsr.olsrDeleteMidEntry]
  next noEntry =>
    refine ⟨fun queued => ⟨queued, ?_⟩, And.left⟩
    rintro rfl
    exact midLookupEntryBymain_eq_none_iff.mp noEntry (kept.isMain queued)

theorem olsrCleanupMid_spec (sound : Sound st) (done : olsrCleanupMid maxplen orig st = some next) :
    Sound next ∧ next.mid =
        { st.mid with
          mids := QosOlsr.olsrCleanupMid st.mid.mids orig } ∧
        DeletedAll
          (((midLookupAliases st.mid.mids orig).map MidAddress.aliasAddr).map (hostPrefix maxplen))
          orig st.db next.db := by
  obtain ⟨middle, deleted, same⟩ := bind_eq_some_iff.mp done
  cases same
  obtain ⟨good, mid, effect⟩ := foldlM_deletes deleteRoute_spec sound.good deleted
  refine ⟨⟨good, ?_⟩, ?_, effect⟩
  · rw [mid]
    exact sound.kept.cleanup orig
  · rw [mid]

/-- Only an address that is its own alias takes its own prefix with it. -/
theorem HostsKept.cleanupMid (kept : HostsKept maxplen exempt pending st) (sound : Sound st)
    (done : olsrCleanupMid maxplen orig st = some next)
    (notOwn : ¬ exempt orig → HasVertex st.db orig → (orig, orig) ∉ st.mid.mids.reverseMidSet) :
    HostsKept maxplen exempt pending next := by
  obtain ⟨-, mid, effect⟩ := olsrCleanupMid_spec sound done
  have registered_iff : ∀ {aliasAddr mainAddr},
        (aliasAddr, mainAddr) ∈ next.mid.mids.reverseMidSet ↔
          (aliasAddr, mainAddr) ∈ st.mid.mids.reverseMidSet ∧ mainAddr ≠ orig := by
    rw [mid]
    exact mem_olsrCleanupMid_iff sound.kept
  refine kept.deleteAll effect (fun queued => (registered_iff.mp queued).1) ?_ ?_
  · intro counts has isDeleted
    obtain ⟨aliasAddr, listed, same⟩ := mem_map.mp isDeleted
    obtain rfl := hostPrefix_injective same
    exact notOwn counts has (sound.kept.mem_midLookupAliases_iff.mp listed)
  · intro aliasAddr _ _ registered
    exact absurd rfl (registered_iff.mp registered).2

def stillListed (ctx : MidContext (IpAddr ver)) (orig : IpAddr ver) (rest : List (IpAddr ver))
    (mainAddr aliasAddr : IpAddr ver) : Prop :=
  mainAddr = orig ∧ aliasAddr ∈ rest ∧ ¬ ctx.isOwnInterface aliasAddr

/-- The loop of `olsr_input_mid` before the aliases `rest`.  As long as the
originator has no vertex, its registered aliases are still to be listed.  Its
aliases are those known before the message or declared by it. -/
structure BeforeAliases (maxplen : Nat) (ctx : MidContext (IpAddr ver)) (orig : IpAddr ver)
    (known : List (MidAddress (IpAddr ver))) (declared rest : List (IpAddr ver))
    (st : RouteState ver) : Prop where
  sound : Sound st
  hosts : HostsKept maxplen (fun _ => False) (stillListed ctx orig rest) st
  listed : ∀ {aliasAddr}, (aliasAddr, orig) ∈ st.mid.mids.reverseMidSet →
      ¬ HasVertex st.db orig →
      st.db.mainAddr ≠ zeroAddr ver → stillListed ctx orig rest orig aliasAddr
  source : ∀ registered ∈ midLookupAliases st.mid.mids orig,
      registered ∈ known ∨ registered.aliasAddr ∈ declared

variable {ctx : MidContext (IpAddr ver)} {known : List (MidAddress (IpAddr ver))}
  {declared rest : List (IpAddr ver)} {aliasAddr : IpAddr ver}

theorem stillListed_cons_iff {mainAddr other : IpAddr ver} :
    stillListed ctx orig (aliasAddr :: rest) mainAddr other ↔ mainAddr = orig ∧ other = aliasAddr ∧
      ¬ ctx.isOwnInterface aliasAddr ∨ stillListed ctx orig rest mainAddr other := by
  simp only [stillListed, mem_cons]
  grind

section

variable (before : BeforeAliases maxplen ctx orig known declared (aliasAddr :: rest) st)
include before

/-- A round that leaves the tables alone passes over an alias that is not
registered, or that is an interface of this node. -/
theorem BeforeAliases.skip
    (skipped : ctx.isOwnInterface aliasAddr ∨ (aliasAddr, orig) ∉ st.mid.mids.reverseMidSet) :
    BeforeAliases maxplen ctx orig known declared rest st := by
  have remains : ∀ {other}, (other, orig) ∈ st.mid.mids.reverseMidSet →
        stillListed ctx orig (aliasAddr :: rest) orig other →
          stillListed ctx orig rest orig other := by
    intro other registered isListed
    rcases stillListed_cons_iff.mp isListed with ⟨-, rfl, notOwn⟩ | remaining
    · rcases skipped with isOwn | notRegistered
      · exact absurd isOwn notOwn
      · exact absurd registered notRegistered
    · exact remaining
  refine ⟨before.sound, ⟨before.hosts.own, ?_⟩, ?_, before.source⟩
  · intro other mainAddr counts registered has
    refine (before.hosts.aliases counts registered has).imp_right ?_
    intro isListed
    obtain rfl := isListed.1
    exact remains registered isListed
  · exact fun registered hasNot known => remains registered (before.listed registered hasNot known)

theorem BeforeAliases.insert
    (done : insertRoute maxplen (hostPrefix maxplen aliasAddr) orig .mid st = some next) :
    BeforeAliases maxplen ctx orig known declared rest next ∧
      next.mid = st.mid ∧ (next.db.mainAddr ≠ zeroAddr ver → HasVertex next.db orig) ∧
      (HasVertex next.db orig → Announces next.db orig (hostPrefix maxplen aliasAddr)) := by
  obtain ⟨good, mid, effect⟩ := insertRoute_spec done before.sound.good
  have announced := effect.inserted (le_refl maxplen)
  have created : next.db.mainAddr ≠ zeroAddr ver → HasVertex next.db orig := by
    rw [effect.mainAddr]
    exact effect.created (le_refl maxplen)
  have settled : ∀ {mainAddr other}, stillListed ctx orig (aliasAddr :: rest) mainAddr other →
        HasVertex next.db mainAddr → Announces next.db mainAddr (hostPrefix maxplen other) ∨
            stillListed ctx orig rest mainAddr other := by
    intro mainAddr other isListed has
    rcases stillListed_cons_iff.mp isListed with ⟨rfl, rfl, -⟩ | remaining
    · exact Or.inl (announced has)
    · exact Or.inr remaining
  refine ⟨⟨⟨good, mid ▸ before.sound.kept⟩, ?_, ?_, ?_⟩, mid, created, announced⟩
  · refine before.hosts.locate effect.toLocated (congrArg _ mid) settled ?_
    intro other _ registered hadNot has
    refine settled (before.listed registered hadNot ?_) has
    exact fun isLost => hadNot (effect.lost isLost has)
  · exact fun _ hasNot isKnown => absurd (created isKnown) hasNot
  · rw [mid]
    exact before.source

end

variable {registered : MidAddress (IpAddr ver)}

/-- Cleaning up one main address adds no alias to another. -/
theorem mem_midLookupAliases_of_cleanup (kept : WellKept set) {mainAddr : IpAddr ver}
    (isListed : registered ∈ midLookupAliases (QosOlsr.olsrCleanupMid set orig) mainAddr) :
    registered ∈ midLookupAliases set mainAddr := by
  rw [(kept.cleanup orig).mem_aliases_iff] at isListed
  rw [kept.mem_aliases_iff]
  obtain ⟨entry, mem, isMain, inEntry⟩ := isListed
  refine ⟨entry, ?_, isMain, inEntry⟩
  rw [QosOlsr.olsrCleanupMid] at mem
  split at mem
  · exact (kept.mem_olsrDeleteMidEntry.mp mem).1
  · exact mem

theorem BeforeAliases.cleanup (before : BeforeAliases maxplen ctx orig known declared rest st)
    (neighbors : List (IpAddr ver)) (isNew : midLookupMainAddr st.mid.mids aliasAddr = none)
    (done : olsrCleanupMid maxplen aliasAddr st = some next) :
    BeforeAliases maxplen ctx orig known declared rest
        { next with mid := { next.mid with neighbors := neighbors } } ∧
      midLookupMainAddr next.mid.mids aliasAddr = none := by
  obtain ⟨sound, mid, effect⟩ := olsrCleanupMid_spec before.sound done
  have unregistered := midLookupMainAddr_eq_none_iff.mp isNew
  have fewer :
      ∀ {queued}, queued ∈ next.mid.mids.reverseMidSet → queued ∈ st.mid.mids.reverseMidSet := by
    rw [mid]
    exact mem_of_mem_olsrCleanupMid
  have hosts : HostsKept maxplen (fun _ => False) (stillListed ctx orig rest)
        next := by
    apply before.hosts.cleanupMid before.sound done
    exact fun _ _ own => unregistered (mem_map_of_mem own)
  refine ⟨⟨⟨sound.good, sound.kept⟩, ⟨hosts.own, hosts.aliases⟩, ?_, ?_⟩, ?_⟩
  · intro other registered hasNot isKnown
    refine before.listed (fewer registered) ?_ ?_
    · rwa [← hasVertex_iff_of_addrOf effect.addrOf]
    · rwa [← effect.mainAddr]
  · intro registered isListed
    refine before.source registered ?_
    simp only [mid] at isListed
    exact mem_midLookupAliases_of_cleanup before.sound.kept isListed
  · rw [midLookupMainAddr_eq_none_iff]
    intro queued
    obtain ⟨pair, mem, rfl⟩ := mem_map.mp queued
    exact unregistered (mem_map_of_mem (fewer mem))

section

variable (before : BeforeAliases maxplen ctx orig known declared (aliasAddr :: rest) st)
  (isDeclared : aliasAddr ∈ declared)
include before isDeclared

theorem BeforeAliases.register (isNew : midLookupMainAddr st.mid.mids aliasAddr = none)
    (done : insertMidTuple maxplen orig aliasAddr st = some next) :
    BeforeAliases maxplen ctx orig known declared rest next := by
  rw [insertMidTuple, if_neg (by simp [isNew])] at done
  obtain ⟨middle, inserted, same⟩ := bind_eq_some_iff.mp done
  cases same
  obtain ⟨after, mid, created, announced⟩ := before.insert inserted
  have queued : (QosOlsr.insertMidTuple orig aliasAddr middle.mid).mids =
        queueMidTuple st.mid.mids orig aliasAddr := by
    rw [QosOlsr.insertMidTuple, mid, if_neg (by simp [isNew])]
  refine ⟨⟨after.sound.good, ?_⟩, ⟨after.hosts.own, ?_⟩, ?_, ?_⟩
  · simp only [queued]
    exact before.sound.kept.queue orig isNew
  · intro other mainAddr counts registered has
    simp only [queued] at registered
    rcases mem_cons.mp registered with newest | old
    · obtain ⟨rfl, rfl⟩ := Prod.mk.inj newest
      exact Or.inl (announced has)
    · rw [← mid] at old
      exact after.hosts.aliases counts old has
  · exact fun _ hasNot isKnown => absurd (created isKnown) hasNot
  · simp only [queued]
    rw [midLookupAliases_queueMidTuple]
    intro registered isListed
    rcases mem_cons.mp isListed with rfl | old
    · exact Or.inr isDeclared
    · exact before.source registered old

/-- One round of the loop of `olsr_input_mid`. -/
theorem BeforeAliases.step (done : inputMidAlias maxplen ctx orig st aliasAddr = some next) :
    BeforeAliases maxplen ctx orig known declared rest next := by
  rw [inputMidAlias] at done
  split at done
  next isOwn =>
    cases done
    exact before.skip (Or.inl isOwn)
  · split at done
    next isNew =>
      rw [insertMidAlias] at done
      split at done
      · cases done
        refine before.skip (Or.inr fun registered => ?_)
        exact midLookupMainAddr_eq_none_iff.mp isNew (mem_map_of_mem registered)
      · split at done
        · obtain ⟨middle, cleaned, registered⟩ := bind_eq_some_iff.mp done
          have after :=
            before.cleanup (renameNeighbor orig aliasAddr middle.mid.neighbors) isNew cleaned
          exact after.1.register isDeclared after.2 registered
        · exact before.register isDeclared isNew done
    · exact (before.insert done).1

end

theorem BeforeAliases.run (before : BeforeAliases maxplen ctx orig known declared rest st)
    (areDeclared : ∀ aliasAddr ∈ rest, aliasAddr ∈ declared)
    (done : rest.foldlM (inputMidAlias maxplen ctx orig) st = some next) :
    BeforeAliases maxplen ctx orig known declared [] next := by
  induction rest generalizing st with
  | nil =>
    cases done
    exact before
  | cons aliasAddr rest ih =>
    rw [foldlM_cons] at done
    obtain ⟨middle, taken, done⟩ := bind_eq_some_iff.mp done
    have here := areDeclared aliasAddr mem_cons_self
    exact ih (before.step here taken)
        (fun other mem => areDeclared other (mem_cons_of_mem _ mem))
        done

variable {msg : MidAnnouncement (IpAddr ver)}

private theorem prune_separates {nowTimes : UInt32} {other mainAddr : IpAddr ver}
    (queued : (other, mainAddr) ∈ (QosOlsr.olsrPruneAliases nowTimes msg set).reverseMidSet)
    (isOrig : mainAddr = msg.midOrigaddr) : other ∉ prunedAliases nowTimes msg set := by
  rw [QosOlsr.olsrPruneAliases] at queued
  rw [prunedAliases, midLookupAliases]
  split at queued
  next noEntry => simp [noEntry]
  next entry found =>
    have stays := (mem_filter.mp queued).2
    rw [decide_eq_true_eq] at stays
    simp only [found, Option.elim]
    exact fun isPruned => stays ⟨isOrig, isPruned⟩

abbrev AllKept (maxplen : Nat) (st : RouteState ver) : Prop :=
  HostsKept maxplen (fun _ => False) (fun _ _ => False) st

/-- Pruning takes no host prefix, unless it removes the originator itself. -/
theorem BeforeAliases.prune
    (before : BeforeAliases maxplen ctx msg.midOrigaddr known msg.midAddr [] st)
    (keepsOwn : ∀ registered ∈ known, registered.aliasAddr = msg.midOrigaddr →
        keepsAlias ctx.nowTimes msg.midAddr registered)
    (done : olsrPruneAliases maxplen ctx.nowTimes msg st = some next) :
    Sound next ∧ AllKept maxplen next := by
  obtain ⟨middle, deleted, same⟩ := bind_eq_some_iff.mp done
  cases same
  obtain ⟨good, mid, effect⟩ := foldlM_deletes deleteRoute_spec before.sound.good deleted
  have hosts : AllKept maxplen st := by
    refine ⟨before.hosts.own, ?_⟩
    intro other mainAddr counts registered has
    refine (before.hosts.aliases counts registered has).imp_right ?_
    exact fun isListed => not_mem_nil isListed.2.1
  rw [mid]
  refine ⟨⟨good, before.sound.kept.prune _ _⟩, ?_⟩
  refine hosts.deleteAll effect (fun queued => mem_of_mem_olsrPruneAliases queued) ?_ ?_
  · intro _ _ isDeleted
    obtain ⟨pruned, isPruned, same⟩ := mem_map.mp isDeleted
    obtain rfl := hostPrefix_injective same
    obtain ⟨registered, isRemoved, isOrig⟩ := mem_map.mp isPruned
    obtain ⟨isListed, notKept⟩ := mem_filter.mp isRemoved
    rw [decide_eq_true_eq] at notKept
    rcases before.source registered isListed with isKnown | isDeclared
    · exact notKept (keepsOwn registered isKnown isOrig)
    · exact notKept (by simp [keepsAlias, isDeclared])
  · intro other _ _ queued isDeleted
    obtain ⟨pruned, isPruned, same⟩ := mem_map.mp isDeleted
    obtain rfl := hostPrefix_injective same
    exact prune_separates queued rfl isPruned

end Aliases

section Vertices

/-- A vertex for the address, or no alias that a new vertex would lack. -/
def vertexOrNoAliases (st : RouteState ver) (adr : IpAddr ver) : Bool :=
  (olsrLookupTcEntry st.db adr).isSome ∨ midLookupAliases st.mid.mids adr = []

private theorem not_registered_of_nil (kept : WellKept st.mid.mids)
    (noAliases : midLookupAliases st.mid.mids originator = []) {aliasAddr : IpAddr ver} :
    (aliasAddr, originator) ∉ st.mid.mids.reverseMidSet := by
  rw [← kept.mem_midLookupAliases_iff, noAliases]
  exact not_mem_nil

theorem HostsKept.locateReady (kept : HostsKept maxplen exempt (fun _ _ => False) st)
    (sound : Sound st) (located : Located maxplen originator st.db next.db)
    (sameMids : next.mid.mids = st.mid.mids)
    (ready : ¬ exempt originator → vertexOrNoAliases st originator) :
    HostsKept maxplen exempt (fun _ _ => False) next := by
  refine kept.locate located sameMids (fun no => no.elim) ?_
  intro aliasAddr counts registered hadNot _
  have vertexOr := of_decide_eq_true (ready counts)
  rcases vertexOr with has | noAliases
  · exact absurd (sound.good.linked.stored.hasVertex_iff_lookup.mpr has) hadNot
  · exact absurd registered (not_registered_of_nil sound.kept noAliases)

private theorem inputHnaNetwork_spec
    {ctx : HnaContext ver} {net : IpNetwork ver} (good : Good st.db st.limit)
    (done : inputHnaNetwork maxplen ctx originator st net = some next) :
    Good next.db next.limit ∧ next.mid = st.mid ∧ Located maxplen originator st.db next.db := by
  have unchanged : Good st.db st.limit ∧ st.mid = st.mid ∧ Located maxplen originator st.db st.db :=
    ⟨good, rfl, Located.refl st.db maxplen⟩
  rw [inputHnaNetwork] at done
  split at done
  · cases done
    exact unchanged
  · split at done
    · cases done
      exact unchanged
    · split at done
      · cases done
        exact unchanged
      · rw [olsrUpdateHnaEntry] at done
        obtain ⟨nextGood, mid, effect⟩ := insertRoute_spec done good
        exact ⟨nextGood, mid, effect.toLocated⟩

private theorem olsrInputHna_keeps {ctx : HnaContext ver} {networks : List (IpNetwork ver)}
    (sound : Sound st) (kept : AllKept maxplen st) (ready : vertexOrNoAliases st originator)
    (done : olsrInputHna maxplen ctx originator networks st = some next) :
    Sound next ∧ AllKept maxplen next := by
  rw [olsrInputHna] at done
  split at done
  · cases done
    exact ⟨sound, kept⟩
  · have holds : Sound next ∧ AllKept maxplen next ∧ vertexOrNoAliases next originator := by
      refine foldlM_preserves
          (fun _ reached =>
            Sound reached ∧ AllKept maxplen reached ∧ vertexOrNoAliases reached originator)
          ?_ ⟨sound, kept, ready⟩ done
      rintro _ net reached after - ⟨isSound, isKept, isReady⟩ taken
      obtain ⟨good, mid, located⟩ := inputHnaNetwork_spec isSound.good taken
      refine ⟨⟨good, mid ▸ isSound.kept⟩, ?_, ?_⟩
      · exact isKept.locateReady isSound located (congrArg _ mid) fun _ => isReady
      · rcases of_decide_eq_true isReady with has | noAliases
        · refine decide_eq_true (Or.inl ?_)
          rw [← good.linked.stored.hasVertex_iff_lookup]
          exact located.vertex (isSound.good.linked.stored.hasVertex_iff_lookup.mpr has)
        · exact decide_eq_true (Or.inr (by rw [mid, noAliases]))
    exact ⟨holds.1, holds.2.1⟩

/-! A TC message changes edges, unless it creates or clears a vertex. -/

structure SameTables (st next : RouteState ver) : Prop where
  routes : SameRoutes st.db next.db
  mid : next.mid = st.mid
  hnaSet : next.hnaSet = st.hnaSet

theorem SameTables.trans {middle : RouteState ver} (first : SameTables st middle)
    (second : SameTables middle next) : SameTables st next where
  routes := first.routes.trans second.routes
  mid := second.mid.trans first.mid
  hnaSet := second.hnaSet.trans first.hnaSet

variable {ctx : TcContext ver} {tc : Ptr}

private theorem olsrTcUpdateEdge_spec {ansn : Nat} {neighbor : IpAddr ver}
    (good : Good st.db st.limit) (address : st.db.addrOf tc = some originator)
    (done : olsrTcUpdateEdge ctx tc ansn st neighbor = some next) :
    Good next.db next.limit ∧ SameTables st next := by
  obtain ⟨entry, present, -⟩ := map_eq_some_iff.mp address
  rw [olsrTcUpdateEdge] at done
  split at done
  next unknown =>
    split at done
    · obtain ⟨db, added, same⟩ := bind_eq_some_iff.mp done
      cases same
      obtain ⟨nextGood, routes⟩ := good.addEdge present unknown added
      exact ⟨nextGood, routes, rfl, rfl⟩
    · cases done
      exact ⟨good, SameRoutes.refl _, rfl, rfl⟩
  next edge _ =>
    obtain ⟨value, live, same⟩ := bind_eq_some_iff.mp done
    cases same
    refine ⟨⟨good.linked.setEdgeAnsn live ansn, ?_, ?_, ?_⟩, ⟨rfl, rfl, rfl⟩, rfl, rfl⟩
    · exact good.entries_free
    · exact free_of_update good.edges_free live
    · exact good.paths_free

private theorem foldlM_olsrTcUpdateEdge {ansn : Nat} {neighbors : List (IpAddr ver)}
    (good : Good st.db st.limit) (address : st.db.addrOf tc = some originator)
    (done : neighbors.foldlM (olsrTcUpdateEdge ctx tc ansn) st = some next) :
    Good next.db next.limit ∧ SameTables st next := by
  refine foldlM_preserves
      (fun _ reached => Good reached.db reached.limit ∧ SameTables st reached)
      ?_ ⟨good, SameRoutes.refl _, rfl, rfl⟩ done
  rintro _ neighbor reached after - ⟨reachedGood, same⟩ taken
  have stillThere : reached.db.addrOf tc = some originator := by rw [same.routes.addrOf, address]
  obtain ⟨afterGood, step⟩ := olsrTcUpdateEdge_spec reachedGood stillThere taken
  exact ⟨afterGood, same.trans step⟩

/-- Everything that is deleted belongs to the originator. -/
theorem clearOriginator_keeps (sound : Sound st)
    (kept : HostsKept maxplen (fun adr => adr = originator) (fun _ _ => False) st)
    (address : st.db.addrOf tc = some originator)
    (done : clearOriginator maxplen originator tc st = some next) :
    Sound next ∧ AllKept maxplen next := by
  obtain ⟨first, midCleaned, done⟩ := bind_eq_some_iff.mp done
  obtain ⟨second, hnaCleaned, done⟩ := bind_eq_some_iff.mp done
  obtain ⟨db, deleted, same⟩ := bind_eq_some_iff.mp done
  cases same
  obtain ⟨firstSound, -, firstEffect⟩ := olsrCleanupMid_spec sound midCleaned
  have firstKept := kept.cleanupMid sound midCleaned fun counts => absurd rfl counts
  obtain ⟨secondGood, secondMid, secondEffect⟩ :
      Good second.db second.limit ∧ second.mid = first.mid ∧
        DeletedAll _ originator first.db second.db := by
    refine foldlM_deletes ?_ firstSound.good hnaCleaned
    intro before after dst good taken
    obtain ⟨middle, routeDeleted, same⟩ := bind_eq_some_iff.mp taken
    cases same
    have effect := deleteRoute_spec good routeDeleted
    exact effect
  have secondKept : HostsKept maxplen (fun adr => adr = originator) (fun _ _ => False) second := by
    refine firstKept.deleteAll secondEffect ?_ ?_ ?_
    · rw [secondMid]
      exact id
    · exact fun counts => absurd rfl counts
    · exact fun counts => absurd rfl counts
  have secondAddr : second.db.addrOf tc = some originator := by
    rw [secondEffect.addrOf, firstEffect.addrOf, address]
  obtain ⟨good, -, vertex_iff, announces⟩ := secondGood.deleteVertex secondAddr deleted
  refine ⟨⟨good, secondMid ▸ firstSound.kept⟩, ?_, ?_⟩
  · intro adr _ has
    have had := vertex_iff.mp has
    exact announces (secondKept.own had.2 had.1) had.2
  · intro aliasAddr mainAddr _ registered has
    have had := vertex_iff.mp has
    exact (secondKept.aliases had.2 registered had.1).imp_left
        fun announced => announces announced had.2

def clears (msg : TcAnnouncement ver) : Bool :=
  msg.neighbors = [] ∧ msg.lowerBorder = 0xff ∧ msg.upperBorder = 0xff

variable {msg : TcAnnouncement ver}

theorem clears_of_borders {borders : IpAddr ver × IpAddr ver} (found : tcBorders msg = some borders)
    (empty : msg.neighbors = []) : clears msg := by
  rw [tcBorders] at found
  split at found
  next isEmpty => exact decide_eq_true isEmpty
  · simp [empty] at found

/-- A message changes edges only, or clears all of its originator. -/
theorem processTc_cases (good : Good st.db st.limit)
    (address : st.db.addrOf tc = some msg.originator)
    (done : processTc maxplen ctx msg tc st = some next) :
    ∃ reached : RouteState ver, Good reached.db reached.limit ∧ SameTables st reached ∧
      (next = reached ∧ ¬ clears msg ∨
        clears msg ∧ clearOriginator maxplen msg.originator tc reached = some next) := by
  obtain ⟨entry, present, done⟩ := bind_eq_some_iff.mp done
  obtain ⟨updated, isUpdated, done⟩ := bind_eq_some_iff.mp done
  have noted : SameRoutes st.db (st.db.setEntry tc { entry with ansn := msg.ansn }) :=
    ⟨rfl, addrOf_of_written present rfl rfl, rfl⟩
  have notedGood : Good (st.db.setEntry tc { entry with ansn := msg.ansn }) st.limit :=
    ⟨good.linked.setEntryAnsn present msg.ansn, free_of_update good.entries_free present,
      good.edges_free, good.paths_free⟩
  have notedAddr : (st.db.setEntry tc { entry with ansn := msg.ansn }).addrOf tc =
        some msg.originator := by
    rw [noted.addrOf, address]
  obtain ⟨updatedGood, same⟩ := foldlM_olsrTcUpdateEdge notedGood notedAddr isUpdated
  have routes : SameRoutes st.db updated.db := noted.trans same.routes
  split at done
  next noBorders =>
    cases done
    refine ⟨_, updatedGood, ⟨routes, same.mid, same.hnaSet⟩, .inl ⟨rfl, fun isClear => ?_⟩⟩
    rw [tcBorders, if_pos (of_decide_eq_true isClear)] at noBorders
    cases noBorders
  next borders found =>
    obtain ⟨db, revoked, done⟩ := bind_eq_some_iff.mp done
    obtain ⟨owner, -, revoked⟩ := bind_eq_some_iff.mp revoked
    obtain ⟨revokedGood, revokedRoutes⟩ := updatedGood.deleteRevokedEdges revoked
    refine ⟨{ updated with db := db }, revokedGood,
      ⟨routes.trans revokedRoutes, same.mid, same.hnaSet⟩, ?_⟩
    split at done
    next empty => exact .inr ⟨clears_of_borders found empty, done⟩
    next nonempty =>
      cases done
      exact .inl ⟨rfl, fun isClear => nonempty (of_decide_eq_true isClear).1⟩

theorem processTc_keeps (sound : Sound st)
    (kept : HostsKept maxplen (fun adr => clears msg ∧ adr = msg.originator) (fun _ _ => False) st)
    (address : st.db.addrOf tc = some msg.originator)
    (done : processTc maxplen ctx msg tc st = some next) : Sound next ∧ AllKept maxplen next := by
  obtain ⟨reached, good, same, outcome⟩ := processTc_cases sound.good address done
  have reachedSound : Sound reached := ⟨good, same.mid ▸ sound.kept⟩
  have reachedKept := kept.of_same same.routes (congrArg MidState.mids same.mid)
  rcases outcome with ⟨rfl, doesNotClear⟩ | ⟨_, cleared⟩
  · exact ⟨reachedSound, reachedKept.weaken fun both => doesNotClear both.1⟩
  · refine clearOriginator_keeps reachedSound (reachedKept.weaken And.right) ?_ cleared
    rw [same.routes.addrOf, address]

private theorem olsrInputTc_keeps (sound : Sound st)
    (kept : AllKept maxplen st) (ready : clears msg ∨ vertexOrNoAliases st msg.originator)
    (done : olsrInputTc maxplen ctx msg st = some next) : Sound next ∧ AllKept maxplen next := by
  have weaker : HostsKept maxplen (fun adr => clears msg ∧ adr = msg.originator)
        (fun _ _ => False) st :=
    kept.weaken fun no => no.elim
  rw [olsrInputTc] at done
  split at done
  · cases done
    exact ⟨sound, kept⟩
  · split at done
    next tc found =>
      split at done
      · cases done
        exact ⟨sound, kept⟩
      · exact processTc_keeps sound weaker (addrOf_of_lookup found) done
    next unknown =>
      obtain ⟨⟨db, result⟩, added, done⟩ := bind_eq_some_iff.mp done
      obtain ⟨tc, isVertex, done⟩ := bind_eq_some_iff.mp done
      obtain ⟨good, located, address, -⟩ := sound.good.addVertex unknown added
      refine processTc_keeps ?_ ?_ (address tc isVertex) done
      · exact ⟨good, sound.kept⟩
      · refine weaker.locateReady sound located rfl ?_
        intro counts
        exact ready.resolve_left fun isClear => counts ⟨isClear, rfl⟩

end Vertices

section Runs

/-- No event of the run takes a prefix that a vertex needs, or creates a
vertex without the prefixes of its aliases: a new vertex has no aliases
registered, or a MID message lists them all; an alias that goes is not its own
main address; and a network that goes is neither the gateway's own address nor
one of its aliases. -/
def SparesHosts (maxplen : Nat) (st : RouteState ver) : RouteEvent ver → Prop
  | .inputTc _ msg => clears msg ∨ vertexOrNoAliases st msg.originator
  | .inputMid ctx _ msg =>
    ((olsrLookupTcEntry st.db msg.midOrigaddr).isSome ∨ ∀ registered ∈
          midLookupAliases st.mid.mids msg.midOrigaddr,
        registered.aliasAddr ∈ msg.midAddr ∧ ¬ ctx.isOwnInterface registered.aliasAddr) ∧
      ∀ registered ∈ midLookupAliases st.mid.mids msg.midOrigaddr,
        registered.aliasAddr = msg.midOrigaddr → keepsAlias ctx.nowTimes msg.midAddr registered
  | .inputHna _ originator _ => vertexOrNoAliases st originator
  | .expireMidEntry mainAddr =>
    (olsrLookupTcEntry st.db mainAddr).isSome →
      ∀ registered ∈ midLookupAliases st.mid.mids mainAddr, registered.aliasAddr ≠ mainAddr
  | .expireHnaNetEntry gw net =>
    (olsrLookupTcEntry st.db gw).isSome → net.prefixLen = maxplen → net.network ≠ gw ∧
          ∀ registered ∈ midLookupAliases st.mid.mids gw, net.network ≠ registered.aliasAddr
  | .expireTcEntry _ => True
  | .expireTcEdgeGc _ => True
  | .neighborTable _ => True

instance (st : RouteState ver) : (event : RouteEvent ver) →
      Decidable (SparesHosts maxplen st event)
  | .inputTc _ _ => instDecidableOr
  | .inputMid _ _ _ => instDecidableAnd
  | .inputHna _ _ _ => inferInstanceAs (Decidable (_ = true))
  | .expireMidEntry _ => inferInstanceAs (Decidable (_ → _))
  | .expireHnaNetEntry _ _ => inferInstanceAs (Decidable (_ → _))
  | .expireTcEntry _ => inferInstanceAs (Decidable True)
  | .expireTcEdgeGc _ => inferInstanceAs (Decidable True)
  | .neighborTable _ => inferInstanceAs (Decidable True)

private theorem olsrInputMid_keeps {ctx : MidContext (IpAddr ver)} {symmetric : Bool}
    {msg : MidAnnouncement (IpAddr ver)} (sound : Sound st) (kept : AllKept maxplen st)
    (spares : SparesHosts maxplen st (.inputMid ctx symmetric msg))
    (done : olsrInputMid maxplen ctx symmetric msg st = some next) :
    Sound next ∧ AllKept maxplen next := by
  rw [olsrInputMid] at done
  split at done
  · cases done
    exact ⟨sound, kept⟩
  · obtain ⟨reached, inserted, pruned⟩ := bind_eq_some_iff.mp done
    have before : BeforeAliases maxplen ctx msg.midOrigaddr
          (midLookupAliases st.mid.mids msg.midOrigaddr)
          msg.midAddr msg.midAddr st := by
      refine ⟨sound, ⟨kept.own, ?_⟩, ?_, fun _ => Or.inl⟩
      · intro aliasAddr mainAddr counts registered has
        exact (kept.aliases counts registered has).imp_right False.elim
      · intro aliasAddr registered hasNot _
        rcases spares.1 with has | allListed
        · exact absurd (sound.good.linked.stored.hasVertex_iff_lookup.mpr has) hasNot
        · have isListed := sound.kept.mem_midLookupAliases_iff.mpr registered
          obtain ⟨entry, inList, rfl⟩ := mem_map.mp isListed
          exact ⟨rfl, allListed entry inList⟩
    exact (before.run (fun _ => id) inserted).prune spares.2 pruned

private theorem expireHnaNetEntry_keeps {gw : IpAddr ver} {net : IpNetwork ver} (sound : Sound st)
    (kept : AllKept maxplen st) (spares : SparesHosts maxplen st (.expireHnaNetEntry gw net))
    (done : olsrDeleteHnaNetEntry maxplen gw st net = some next) :
    Sound next ∧ AllKept maxplen next := by
  obtain ⟨middle, deleted, same⟩ := bind_eq_some_iff.mp done
  cases same
  obtain ⟨good, mid, effect⟩ := deleteRoute_spec sound.good deleted
  have all : DeletedAll [net] gw st.db middle.db :=
    ⟨effect.mainAddr, effect.addrOf, fun announced spared =>
      effect.announces announced fun both => spared ⟨both.1, mem_singleton.mpr both.2⟩⟩
  have spared : HasVertex st.db gw → ∀ {adr}, hostPrefix maxplen adr = net →
          adr ≠ gw ∧ (adr, gw) ∉ st.mid.mids.reverseMidSet := by
    intro has adr same
    subst same
    have isKnown := sound.good.linked.stored.hasVertex_iff_lookup.mp has
    obtain ⟨notGateway, notAlias⟩ := spares isKnown rfl
    refine ⟨notGateway, fun registered => ?_⟩
    have isListed := sound.kept.mem_midLookupAliases_iff.mpr registered
    obtain ⟨entry, inList, isAlias⟩ := mem_map.mp isListed
    exact notAlias entry inList isAlias.symm
  refine ⟨⟨good, mid ▸ sound.kept⟩, kept.deleteAll all ?_ ?_ ?_⟩
  · rw [mid]
    exact id
  · intro _ has isDeleted
    exact (spared has (mem_singleton.mp isDeleted)).1 rfl
  · intro aliasAddr _ has registered isDeleted
    rw [mid] at registered
    exact (spared has (mem_singleton.mp isDeleted)).2 registered

private theorem routeStep_keeps {event : RouteEvent ver} (holds : Sound st ∧ AllKept maxplen st)
    (spares : SparesHosts maxplen st event) (done : routeStep maxplen st event = some next) :
    Sound next ∧ AllKept maxplen next := by
  obtain ⟨sound, kept⟩ := holds
  cases event with
  | inputTc ctx msg => exact olsrInputTc_keeps sound kept spares done
  | inputMid ctx symmetric msg => exact olsrInputMid_keeps sound kept spares done
  | inputHna ctx originator networks => exact olsrInputHna_keeps sound kept spares done
  | expireTcEntry adr =>
    obtain ⟨tc, found, done⟩ := bind_eq_some_iff.mp done
    obtain ⟨db, deleted, same⟩ := bind_eq_some_iff.mp done
    cases same
    obtain ⟨good, -, vertex_iff, announces⟩ :=
      sound.good.deleteVertex (addrOf_of_lookup found) deleted
    refine ⟨⟨good, sound.kept⟩, ?_, ?_⟩
    · intro other counts has
      have had := vertex_iff.mp has
      exact announces (kept.own counts had.1) had.2
    · intro aliasAddr mainAddr counts registered has
      have had := vertex_iff.mp has
      exact
        (kept.aliases counts registered had.1).imp_left fun announced => announces announced had.2
  | expireTcEdgeGc adr =>
    obtain ⟨tc, -, done⟩ := bind_eq_some_iff.mp done
    obtain ⟨db, deleted, same⟩ := bind_eq_some_iff.mp done
    cases same
    obtain ⟨good, routes⟩ := sound.good.deleteOutdatedEdges deleted
    exact ⟨⟨good, sound.kept⟩, kept.of_same routes rfl⟩
  | expireMidEntry mainAddr =>
    refine ⟨(olsrCleanupMid_spec sound done).1, ?_⟩
    refine kept.cleanupMid sound done ?_
    intro _ has registered
    have isListed := sound.kept.mem_midLookupAliases_iff.mpr registered
    obtain ⟨entry, inList, isAlias⟩ := mem_map.mp isListed
    have isKnown := sound.good.linked.stored.hasVertex_iff_lookup.mp has
    exact spares isKnown entry inList isAlias
  | expireHnaNetEntry gw net =>
    obtain ⟨entry, -, done⟩ := bind_eq_some_iff.mp done
    split at done
    · exact expireHnaNetEntry_keeps sound kept spares done
    · cases done
  | neighborTable neighbors =>
    cases done
    exact ⟨⟨sound.good, sound.kept⟩, kept.own, kept.aliases⟩

theorem good_init (mainAddr : IpAddr ver) : Good (Database.init mainAddr) 0 :=
  ⟨WellLinked.init mainAddr, fun _ => rfl, fun _ => rfl, fun _ => rfl⟩

theorem initialRoutes_keeps {mainAddr : IpAddr ver}
    (started : initialRoutes maxplen mainAddr = some st) : Sound st ∧ AllKept maxplen st := by
  obtain ⟨⟨db, result⟩, added, same⟩ := bind_eq_some_iff.mp started
  cases same
  have noVertex : ∀ {adr}, ¬ HasVertex (Database.init mainAddr) adr := by
    rintro adr ⟨tc, no⟩
    cases no
  obtain ⟨nextGood, located, -, -⟩ := (good_init mainAddr).addVertex rfl added
  refine ⟨⟨nextGood, WellKept.init⟩, ?_, fun _ no => nomatch no⟩
  intro adr _ has
  by_cases isNew : adr = mainAddr
  · subst isNew
    exact located.host has noVertex
  · exact absurd ((located.vertex_iff isNew).mp has) noVertex

private theorem HostPrefixesKept.of_allKept (sound : Sound st) (kept : AllKept maxplen st) :
    HostPrefixesKept maxplen st where
  own := by
    intro tc _ entry present
    have address : st.db.addrOf tc = some entry.addr := by rw [Database.addrOf, present, map_some]
    rw [sound.good.linked.stored.findPath_isSome_iff address]
    exact kept.own not_false ⟨tc, address⟩
  aliases := by
    intro tc _ entry present registered isListed
    have address : st.db.addrOf tc = some entry.addr := by rw [Database.addrOf, present, map_some]
    have queued := sound.kept.mem_midLookupAliases_iff.mp (mem_map_of_mem isListed)
    rw [sound.good.linked.stored.findPath_isSome_iff address]
    exact (kept.aliases not_false queued ⟨tc, address⟩).resolve_right not_false

/-- In every run of messages and expiries that spares the host prefixes, every
vertex keeps the prefix of its address and those of its aliases. -/
theorem hostPrefixesKept_of_sparesHosts
    (maxplen : Nat) (mainAddr : IpAddr ver) (events : List (RouteEvent ver))
    (start final : RouteState ver) (started : initialRoutes maxplen mainAddr = some start)
    (spares : RunMeets (routeStep maxplen) (SparesHosts maxplen) start events)
    (run : runEvents (routeStep maxplen) start events = some final) :
    HostPrefixesKept maxplen final := by
  have holds : Sound final ∧ AllKept maxplen final :=
    runEvents_invariant_of_meets routeStep_keeps (initialRoutes_keeps started) spares run
  exact HostPrefixesKept.of_allKept holds.1 holds.2

def hearsAll : HnaContext .inet := ⟨true, fun _ => false, fun adr => adr = hostAddr 1, []⟩

/-- 10.0.0.2 declares the alias 10.0.0.3, announces a network that expires, and
sends a TC message. -/
def sparingEvents : List (RouteEvent .inet) :=
  [.inputMid ⟨0, fun _ => true, fun adr => adr = hostAddr 1⟩ true ⟨1000, hostAddr 2, [hostAddr 3]⟩,
    .inputHna hearsAll (hostAddr 2) [⟨hostAddr 0, 24⟩],
    .expireHnaNetEntry (hostAddr 2) ⟨hostAddr 0, 24⟩,
    .inputTc ⟨true, false, fun _ => true⟩ ⟨hostAddr 2, 7, 0, 0, [hostAddr 1]⟩]

theorem hostPrefixesKept_of_sparesHosts_alias : ∃ start final,
      initialRoutes 32 (hostAddr 1) = some start ∧
        runEvents (routeStep 32) start sparingEvents = some final ∧
        (midLookupAliases final.mid.mids (hostAddr 2)).length = 1 ∧
        HostPrefixesKept 32 final := by
  obtain ⟨start, started, meets, final, run, oneAlias⟩ : ∃ start,
      initialRoutes 32 (hostAddr 1) = some start ∧
      RunMeets (routeStep 32) (SparesHosts 32) start sparingEvents ∧
      ∃ final, runEvents (routeStep 32) start sparingEvents = some final ∧
        (midLookupAliases final.mid.mids (hostAddr 2)).length = 1 := by
    decide +kernel
  exact ⟨start, final, started, run, oneAlias,
      hostPrefixesKept_of_sparesHosts 32 (hostAddr 1) sparingEvents start final started meets run⟩

/-- 10.0.0.2 announces its own address as a network, and the network
expires. -/
def ownNetworkEvents : List (RouteEvent .inet) :=
  [.inputHna hearsAll (hostAddr 2) [⟨hostAddr 2, 32⟩],
    .expireHnaNetEntry (hostAddr 2) ⟨hostAddr 2, 32⟩]

/-- The vertex of 10.0.0.2 stays, without the prefix of its address. -/
theorem expireHnaNetEntry_takes_host_prefix : ∃ start final,
      initialRoutes 32 (hostAddr 1) = some start ∧
        runEvents (routeStep 32) start ownNetworkEvents = some final ∧
        ¬ HostPrefixesKept 32 final := by
  obtain ⟨start, started, final, run, tree, address, missing⟩ : ∃ start,
      initialRoutes 32 (hostAddr 1) = some start ∧
      ∃ final, runEvents (routeStep 32) start ownNetworkEvents = some final ∧
        final.db.tcTree = [0, 1] ∧ final.db.addrOf 1 = some (hostAddr 2) ∧
        findPath final.db 1 (hostPrefix 32 (hostAddr 2)) = none := by
    decide +kernel
  refine ⟨start, final, started, run, fun kept => ?_⟩
  obtain ⟨entry, present, isHost⟩ := map_eq_some_iff.mp address
  have found := kept.own 1 (by simp [tree]) entry present
  rw [isHost, missing] at found
  cases found

end Runs

end QosOlsr.Routes
