import QosOlsr.Gateways.Choosing
import QosOlsr.Tc.Consistency

/-!
# The bookkeeping of gateways is memory safe

Gateways are freed only when no container refers to them.  With the lists kept
consistent by every choice, no event follows a pointer to freed memory, as long
as no tunnel fails for a full list whose last element is the current gateway.
-/

namespace QosOlsr.Gateways

open Library List Option

variable {ver : IpVersion} {st : GwState ver} {gw : Ptr} {cfg : GwConfig} {world : GwWorld ver}

/-- What holds of a gateway by itself.  The length of the external prefix is
never anything but zero. -/
structure EntryOk (entry : GatewayEntry ver) : Prop where
  noPrefix : entry.externalPrefixLen = 0
  onlyIpv4 : ver = .inet → entry.ipv6 = false
  notFired : entry.cleanupTimer ≠ .fired
  retired : entry.cleanupTimer ≠ .unset →
    entry.ipv4 = false ∧ entry.ipv6 = false ∧ entry.expireTimer = false

structure GwInv (st : GwState ver) : Prop where
  lists : ListsOk st
  current : CurrentOk st
  held : ∀ gw entry, st.entries gw = some entry → gw ∈ st.gatewayTree
  treeNodup : st.gatewayTree.Nodup
  originators : ∀ left ∈ st.gatewayTree, ∀ right ∈ st.gatewayTree,
    st.originatorOf left = st.originatorOf right → left = right
  fresh : ∀ gw, st.nextPtr ≤ gw → st.entries gw = none
  entryOk : ∀ gw entry, st.entries gw = some entry → EntryOk entry
  unlisted : ∀ gw entry, st.entries gw = some entry → entry.cleanupTimer ≠ .unset → ¬ Refers st gw

section Invariant

theorem GwInv.entry (inv : GwInv st) (inTree : gw ∈ st.gatewayTree) :
    ∃ entry, st.entries gw = some entry :=
  isSome_iff_exists.mp (inv.lists.present gw inTree)

theorem Refers.inTree (ok : ListsOk st) (refers : Refers st gw) : gw ∈ st.gatewayTree := by
  obtain ⟨family, container, listed, ofGw⟩ := refers
  obtain ⟨other, ofOther, inTree⟩ := ok.live family container listed
  have same : other = gw := some.inj (ofOther.symm.trans ofGw)
  exact same ▸ inTree

variable {after : GwState ver}

/-- An operation on the lists keeps the invariant. -/
theorem GwInv.of_chooses (inv : GwInv st) (ok : ListsOk after)
    (current : CurrentOk after) (chooses : Chooses st after) : GwInv after := by
  constructor
  case lists => exact ok
  case current => exact current
  case held =>
    rw [chooses.entries, chooses.tree]
    exact inv.held
  case treeNodup =>
    rw [chooses.tree]
    exact inv.treeNodup
  case originators =>
    simpa only [GwState.originatorOf, chooses.entries, chooses.tree] using inv.originators
  case fresh =>
    intro gw beyond
    rw [chooses.entries]
    exact inv.fresh gw (chooses.nextPtr.trans beyond)
  case entryOk =>
    rw [chooses.entries]
    exact inv.entryOk
  case unlisted =>
    intro gw entry isEntry scheduled refers
    rw [chooses.entries] at isEntry
    rcases chooses.refers gw refers with refers | ⟨other, isOther, flagged⟩
    · exact inv.unlisted gw entry isEntry scheduled refers
    · cases isEntry.symm.trans isOther
      obtain ⟨no4, no6, _⟩ := (inv.entryOk gw entry isEntry).retired scheduled
      simp [no4, no6] at flagged

theorem SameLists.inv (same : SameLists st after) (inv : GwInv st) : GwInv after := by
  obtain ⟨_, ⟨⟩, ok, current, chooses⟩ := same.works inv.lists inv.current
  exact inv.of_chooses ok current chooses

variable {result : Option (GwState ver)}

theorem GwInv.of_works (inv : GwInv st) (works : Works st result) :
    ∃ after, result = some after ∧ GwInv after ∧ Chooses st after := by
  obtain ⟨after, reached, ok, current, chooses⟩ := works
  exact ⟨after, reached, inv.of_chooses ok current chooses, chooses⟩

theorem GwInv.of_settles (inv : GwInv st) (settles : Settles st result) : ∃ after,
      result = some after ∧ GwInv after ∧ Chooses st after ∧ (Ordered st → Ordered after) := by
  obtain ⟨after, reached, invAfter, chooses⟩ := inv.of_works settles.1
  exact ⟨after, reached, invAfter, chooses, settles.2 after reached⟩

theorem Ordered.frame (ordered : Ordered st) (lists : after.lists = st.lists)
    (containers : after.containers = st.containers) (costs : ∀ gw, Refers st gw →
        (after.entries gw).map GatewayEntry.pathCost = (st.entries gw).map GatewayEntry.pathCost) :
    Ordered after := by
  intro family
  have same : ∀ container ∈ (st.lists family).items,
      after.costOf container = st.costOf container := by
    intro container listed
    have sameGw : after.gwOf container = st.gwOf container := by
      rw [GwState.gwOf, GwState.gwOf, containers]
    rw [GwState.costOf, GwState.costOf, sameGw]
    cases ofGw : st.gwOf container with
    | none => rfl
    | some gw => rw [bind_some, bind_some, costs gw ⟨family, container, listed, ofGw⟩]
  rw [lists]
  exact (ordered family).imp_of_mem fun isLeft isRight le => by rwa [same _ isLeft, same _ isRight]

end Invariant

section Tree

variable {written : GatewayEntry ver} {other : Ptr}

theorem GwState.setEntry_entries :
    (st.setEntry gw written).entries other =
      if other = gw then some written else st.entries other := by
  by_cases same : other = gw
  · simp [GwState.setEntry, same]
  · simp [GwState.setEntry, same]

theorem refers_setEntry_iff : Refers (st.setEntry gw written) other ↔ Refers st other := Iff.rfl

theorem ListsOk.setEntry (ok : ListsOk st) (written : GatewayEntry ver) :
    ListsOk (st.setEntry gw written) := by
  refine ⟨ok.list, ok.live, ok.distinct, ok.disjoint, ok.fresh, ?_⟩
  intro other inTree
  rw [GwState.setEntry_entries]
  split
  · rfl
  · exact ok.present other inTree

theorem ordered_setEntry {entry written : GatewayEntry ver} (isEntry : st.entries gw = some entry)
    (same : written.pathCost = entry.pathCost) (ordered : Ordered st) :
    Ordered (st.setEntry gw written) := by
  refine ordered.frame rfl rfl fun other _ => ?_
  rw [GwState.setEntry_entries]
  split
  next isGw =>
    subst isGw
    simp [isEntry, same]
  · rfl

variable {entry : GatewayEntry ver}

theorem GwInv.setEntry (inv : GwInv st) (isEntry : st.entries gw = some entry)
    (written : GatewayEntry ver) (same : written.originator = entry.originator)
    (ok : EntryOk written) (unlisted : written.cleanupTimer ≠ .unset → ¬ Refers st gw) :
    GwInv (st.setEntry gw written) := by
  have originators : ∀ other, (st.setEntry gw written).originatorOf other =
        st.originatorOf other := by
    intro other
    simp only [GwState.originatorOf, GwState.setEntry_entries]
    split
    next isGw =>
      subst isGw
      simp [isEntry, same]
    · rfl
  constructor
  case lists => exact inv.lists.setEntry written
  case current => exact inv.current
  case held =>
    intro other value isValue
    rw [GwState.setEntry_entries] at isValue
    split at isValue
    next isGw => exact isGw ▸ inv.held gw entry isEntry
    · exact inv.held other value isValue
  case treeNodup => exact inv.treeNodup
  case originators =>
    intro left inLeft right inRight sameOriginator
    rw [originators, originators] at sameOriginator
    exact inv.originators left inLeft right inRight sameOriginator
  case fresh =>
    intro other beyond
    rw [GwState.setEntry_entries, if_neg]
    · exact inv.fresh other beyond
    · rintro rfl
      have none := inv.fresh other beyond
      simp [isEntry] at none
  case entryOk =>
    intro other value isValue
    rw [GwState.setEntry_entries] at isValue
    split at isValue
    · cases isValue
      exact ok
    · exact inv.entryOk other value isValue
  case unlisted =>
    intro other value isValue scheduled
    rw [GwState.setEntry_entries] at isValue
    rw [refers_setEntry_iff]
    split at isValue
    next isGw =>
      cases isValue
      exact isGw ▸ unlisted scheduled
    · exact inv.unlisted other value isValue scheduled

theorem GwInv.insertGateway
    (inv : GwInv st) {originator : IpAddr ver} (missing : st.findGateway originator = none) :
    GwInv (insertGateway originator st) ∧ (insertGateway originator st).entries st.nextPtr =
      some (newGateway originator) ∧ (Ordered st → Ordered (insertGateway originator st)) ∧
      ¬ Refers (insertGateway originator st) st.nextPtr := by
  have entries : ∀ other, (Gateways.insertGateway originator st).entries other =
        if other = st.nextPtr then some (newGateway originator)
        else st.entries other := fun _ => GwState.setEntry_entries
  have unknown : ∀ other ∈ st.gatewayTree, other ≠ st.nextPtr := by
    rintro other inTree rfl
    obtain ⟨entry, isEntry⟩ := inv.entry inTree
    simp [inv.fresh st.nextPtr le_rfl] at isEntry
  have originators : ∀ other ∈ st.gatewayTree,
      (Gateways.insertGateway originator st).originatorOf other = st.originatorOf other := by
    intro other inTree
    rw [GwState.originatorOf, entries, if_neg (unknown other inTree)]
    rfl
  have new : (Gateways.insertGateway originator st).originatorOf st.nextPtr = some originator := by
    rw [GwState.originatorOf, entries, if_pos rfl]
    rfl
  have others : ∀ other ∈ st.gatewayTree, st.originatorOf other ≠ some originator := by
    simpa [GwState.findGateway] using missing
  have perm : (Gateways.insertGateway originator st).gatewayTree.Perm
        (st.nextPtr :: st.gatewayTree) := by
    apply Lsdb.avlInsertNoDup_perm
    intro other inTree
    have ne := others other inTree
    rw [← originators other inTree, ← new] at ne
    exact ne
  have mem : ∀ {other}, other ∈ (Gateways.insertGateway originator st).gatewayTree ↔
        other = st.nextPtr ∨ other ∈ st.gatewayTree := by
    intro other
    rw [perm.mem_iff, mem_cons]
  refine
    ⟨?_, by rw [entries, if_pos rfl], fun ordered => ordered.frame rfl rfl fun gw refers => by
        rw [entries, if_neg (unknown gw (refers.inTree inv.lists))],
      fun refers => unknown _ (Refers.inTree inv.lists refers) rfl⟩
  constructor
  case lists =>
    refine ⟨inv.lists.list, ?_, inv.lists.distinct, inv.lists.disjoint, ?_, ?_⟩
    · intro family container listed
      obtain ⟨gw, ofGw, inTree⟩ := inv.lists.live family container listed
      exact ⟨gw, ofGw, mem.mpr (.inr inTree)⟩
    · intro container beyond
      exact inv.lists.fresh container (Nat.le_of_succ_le beyond)
    · intro gw inTree
      rw [entries]
      split
      · rfl
      · rcases mem.mp inTree with isNew | inTree
        · contradiction
        · exact inv.lists.present gw inTree
  case current => exact inv.current
  case held =>
    intro gw entry isEntry
    rw [entries] at isEntry
    split at isEntry
    next isNew => exact mem.mpr (.inl isNew)
    · exact mem.mpr (.inr (inv.held gw entry isEntry))
  case treeNodup =>
    refine perm.nodup_iff.mpr (nodup_cons.mpr ⟨?_, inv.treeNodup⟩)
    intro inTree
    exact unknown _ inTree rfl
  case originators =>
    intro left inLeft right inRight same
    rcases mem.mp inLeft with rfl | inLeft <;> rcases mem.mp inRight with rfl | inRight
    · rfl
    · rw [new, originators right inRight] at same
      exact absurd same.symm (others right inRight)
    · rw [new, originators left inLeft] at same
      exact absurd same (others left inLeft)
    · rw [originators left inLeft, originators right inRight] at same
      exact inv.originators left inLeft right inRight same
  case fresh =>
    intro gw beyond
    rw [entries, if_neg (Nat.ne_of_gt beyond)]
    exact inv.fresh gw (Nat.le_of_succ_le beyond)
  case entryOk =>
    intro gw entry isEntry
    rw [entries] at isEntry
    split at isEntry
    · cases isEntry
      exact ⟨rfl, fun _ => rfl, nofun, fun scheduled => absurd rfl scheduled⟩
    · exact inv.entryOk gw entry isEntry
  case unlisted =>
    intro gw entry isEntry scheduled
    rw [entries] at isEntry
    split at isEntry
    · cases isEntry
      exact absurd rfl scheduled
    · exact inv.unlisted gw entry isEntry scheduled

def withoutGateway (st : GwState ver) (gw : Ptr) : GwState ver :=
  { st with
    entries := Function.update st.entries gw none
    gatewayTree := st.gatewayTree.erase gw }

theorem withoutGateway_entries : (withoutGateway st gw).entries other =
      if other = gw then none else st.entries other := by
  by_cases same : other = gw
  · simp [withoutGateway, same]
  · simp [withoutGateway, same]

theorem GwInv.withoutGateway (inv : GwInv st) (unlisted : ¬ Refers st gw) :
    GwInv (withoutGateway st gw) := by
  have mem : ∀ {other}, other ∈ (Gateways.withoutGateway st gw).gatewayTree ↔
        other ≠ gw ∧ other ∈ st.gatewayTree :=
    inv.treeNodup.mem_erase_iff
  have kept : ∀ {other entry},
      (Gateways.withoutGateway st gw).entries other = some entry →
        other ≠ gw ∧ st.entries other = some entry := by
    intro other entry isEntry
    rw [withoutGateway_entries] at isEntry
    split at isEntry
    · cases isEntry
    next apart => exact ⟨apart, isEntry⟩
  have originators : ∀ {other}, other ≠ gw →
      (Gateways.withoutGateway st gw).originatorOf other = st.originatorOf other := by
    intro other apart
    rw [GwState.originatorOf, withoutGateway_entries, if_neg apart]
    rfl
  constructor
  case lists =>
    refine ⟨inv.lists.list, ?_, inv.lists.distinct, inv.lists.disjoint, inv.lists.fresh, ?_⟩
    · intro family container listed
      obtain ⟨other, ofOther, inTree⟩ := inv.lists.live family container listed
      refine ⟨other, ofOther, mem.mpr ⟨?_, inTree⟩⟩
      rintro rfl
      exact unlisted ⟨family, container, listed, ofOther⟩
    · intro other inTree
      obtain ⟨apart, inTree⟩ := mem.mp inTree
      rw [withoutGateway_entries, if_neg apart]
      exact inv.lists.present other inTree
  case current => exact inv.current
  case held =>
    intro other entry isEntry
    obtain ⟨apart, isEntry⟩ := kept isEntry
    exact mem.mpr ⟨apart, inv.held other entry isEntry⟩
  case treeNodup => exact inv.treeNodup.erase gw
  case originators =>
    intro left inLeft right inRight same
    obtain ⟨apartLeft, inLeft⟩ := mem.mp inLeft
    obtain ⟨apartRight, inRight⟩ := mem.mp inRight
    rw [originators apartLeft, originators apartRight] at same
    exact inv.originators left inLeft right inRight same
  case fresh =>
    intro other beyond
    rw [withoutGateway_entries, inv.fresh other beyond, ite_self]
  case entryOk =>
    intro other entry isEntry
    exact inv.entryOk other entry (kept isEntry).2
  case unlisted =>
    intro other entry isEntry
    exact inv.unlisted other entry (kept isEntry).2

theorem ordered_withoutGateway (unlisted : ¬ Refers st gw) (ordered : Ordered st) :
    Ordered (withoutGateway st gw) := by
  refine ordered.frame rfl rfl fun other refers => ?_
  rw [withoutGateway_entries, if_neg]
  rintro rfl
  exact unlisted refers

theorem cleanupGatewayHandler_eq (isEntry : st.entries gw = some entry) (no4 : entry.ipv4 = false)
    (no6 : entry.ipv6 = false) : cleanupGatewayHandler gw st = some (withoutGateway st gw) := by
  simp [cleanupGatewayHandler, isEntry, no4, no6, withoutGateway]

end Tree

section Deleting

/-- A gateway is out of a list, and out of the other one if it was. -/
theorem dropGateway_spec (gw : Ptr) (family : Family) (ok : ListsOk st) (current : CurrentOk st) :
    ∃ after, dropGateway family gw st = some after ∧ ListsOk after ∧
      CurrentOk after ∧ Chooses st after ∧ (Ordered st → Ordered after) ∧
      (∀ container ∈ (after.lists family).items, after.gwOf container ≠ some gw) ∧
      (∀ other, (∀ container ∈ (st.lists other).items, st.gwOf container ≠ some gw) →
        ∀ container ∈ (after.lists other).items, after.gwOf container ≠ some gw) := by
  obtain ⟨found, searched, isFound, isMissing⟩ := ok.find family gw
  cases found with
  | none =>
    exact
      ⟨st, by simp [dropGateway, searched], ok, current, .refl st, id,
        isMissing rfl, fun _ absent => absent⟩
  | some container =>
    obtain ⟨listed, ofGw⟩ := isFound container rfl
    obtain ⟨curGw, isCurrentGw, _⟩ := ok.olsrGetInetGateway current family
    let left : GwState ver := if curGw = some gw then st.setCurrent family none else st
    have okLeft : ListsOk left ∧ CurrentOk left ∧ Chooses st left ∧
        left.lists = st.lists ∧ left.containers = st.containers ∧
        left.current family ≠ some container := by
      by_cases same : curGw = some gw
      · have isLeft : left = st.setCurrent family none := if_pos same
        rw [isLeft]
        refine ⟨⟨ok.list, ok.live, ok.distinct, ok.disjoint, ok.fresh,
            ok.present⟩, ?_, ⟨rfl, rfl, fun _ => Or.inl, le_rfl⟩, rfl, rfl,
            by simp [GwState.setCurrent]⟩
        intro other kept isCur
        by_cases own : other = family
        · subst own
          simp [GwState.setCurrent] at isCur
        · simp [GwState.setCurrent, own] at isCur
          exact current other kept isCur
      · have isLeft : left = st := if_neg same
        rw [isLeft]
        refine ⟨ok, current, .refl st, rfl, rfl, ?_⟩
        intro isCur
        have held := gwOf_eq_some_iff.mp ofGw
        simp [olsrGetInetGateway, isCur, held] at isCurrentGw
        exact same isCurrentGw.symm
    obtain ⟨okLeft, currentLeft, chooses, lists, containers, apart⟩ := okLeft
    have listedLeft : container ∈ (left.lists family).items := by
      rw [lists]
      exact listed
    have sameGw : left.gwOf = st.gwOf := by
      funext other
      simp only [GwState.gwOf, containers]
    refine ⟨withoutContainer left family container, ?_, okLeft.withoutContainer listedLeft,
        currentLeft.withoutContainer okLeft listedLeft apart,
        chooses.trans (chooses_withoutContainer okLeft listedLeft), ?_, ?_, ?_⟩
    · have removed := okLeft.removeGatewayFromList listedLeft
      simpa [dropGateway, searched, isCurrentGw, left] using removed
    · intro ordered
      exact ordered_withoutContainer okLeft listedLeft
        (ordered.frame lists containers fun _ _ => by rw [chooses.entries])
    · intro kept isKept
      obtain ⟨inList, ne⟩ := (mem_withoutContainer_iff okLeft listedLeft).mp isKept
      rw [gwOf_withoutContainer ne, sameGw]
      rw [lists] at inList
      intro ofSame
      exact ne (ok.distinct family kept inList container listed (ofSame.trans ofGw.symm))
    · intro other absent kept isKept
      obtain ⟨inList, ne⟩ := (mem_withoutContainer_iff okLeft listedLeft).mp isKept
      rw [gwOf_withoutContainer ne, sameGw]
      rw [lists] at inList
      exact absent kept inList

/-- A gateway is on its way out: in no list, and freed or about to be. -/
def Retired (st : GwState ver) (gw : Ptr) : Prop :=
  ¬ Refers st gw ∧ ∀ entry, st.entries gw = some entry →
    entry.ipv4 = false ∧ entry.ipv6 = false ∧ entry.cleanupTimer = .running

theorem Retired.of_chooses {after : GwState ver} (retired : Retired st gw)
    (chooses : Chooses st after) : Retired after gw := by
  refine ⟨?_, by simpa only [chooses.entries] using retired.2⟩
  intro refers
  rcases chooses.refers gw refers with refers | ⟨entry, isEntry, flagged⟩
  · exact retired.1 refers
  · obtain ⟨no4, no6, _⟩ := retired.2 entry isEntry
    simp [no4, no6] at flagged

variable {entry : GatewayEntry ver}

theorem removeGateway_spec (cfg : GwConfig) (inv : GwInv st) (keeps : KeepsCurrent world)
    (isEntry : st.entries gw = some entry) (unscheduled : entry.cleanupTimer = .unset)
    (expired : entry.expireTimer = false) (immediate : Bool) :
    ∃ after, removeGateway cfg world gw immediate st = some after ∧
      GwInv after ∧ (Ordered st → Ordered after) ∧ Retired after gw := by
  have okEntry := inv.entryOk gw entry isEntry
  let cleared : GatewayEntry ver := { entry with ipv4 := false, ipv4nat := false, ipv6 := false }
  have okCleared : EntryOk cleared :=
    ⟨okEntry.noPrefix, fun _ => rfl, okEntry.notFired, fun scheduled =>
      absurd unscheduled scheduled⟩
  have start : GwInv (st.setEntry gw cleared) :=
    inv.setEntry isEntry cleared rfl okCleared fun scheduled => absurd unscheduled scheduled
  obtain ⟨handled, isHandled, invHandled, chosen, ordered⟩ :=
    start.of_settles (settles_gwDefaultDeleteHandler cfg start.lists start.current keeps gw)
  obtain ⟨dropped4, isDropped4, ok4, current4, chooses4, ordered4, absent4, _⟩ :=
    dropGateway_spec gw .ipv4 invHandled.lists invHandled.current
  obtain ⟨dropped6, isDropped6, ok6, current6, chooses6, ordered6, absent6, frame6⟩ :=
    dropGateway_spec gw .ipv6 ok4 current4
  have inv6 : GwInv dropped6 :=
    (invHandled.of_chooses ok4 current4 chooses4).of_chooses ok6 current6 chooses6
  have unlisted : ¬ Refers dropped6 gw := by
    rintro ⟨family, container, listed, ofGw⟩
    cases family with
    | ipv4 => exact frame6 .ipv4 absent4 container listed ofGw
    | ipv6 => exact absent6 container listed ofGw
  have entry6 : dropped6.entries gw = some cleared := by
    rw [((chosen.trans chooses4).trans chooses6).entries, GwState.setEntry_entries, if_pos rfl]
  have scheduling : ∃ scheduled, scheduleCleanup gw immediate dropped6 = some scheduled ∧
        GwInv scheduled ∧ (Ordered dropped6 → Ordered scheduled) ∧ Retired scheduled gw := by
    cases immediate with
    | true =>
      refine ⟨withoutGateway dropped6 gw, cleanupGatewayHandler_eq entry6 rfl rfl,
          inv6.withoutGateway unlisted, ordered_withoutGateway unlisted, unlisted, ?_⟩
      intro value isValue
      rw [withoutGateway_entries, if_pos rfl] at isValue
      cases isValue
    | false =>
      refine ⟨dropped6.setEntry gw { cleared with cleanupTimer := .running },
          by simp [scheduleCleanup, entry6],
          inv6.setEntry entry6 _ rfl ?_ fun _ => unlisted,
          ordered_setEntry entry6 rfl, unlisted, ?_⟩
      · exact ⟨okEntry.noPrefix, fun _ => rfl, nofun, fun _ => ⟨rfl, rfl, expired⟩⟩
      · intro value isValue
        rw [GwState.setEntry_entries, if_pos rfl] at isValue
        cases isValue
        exact ⟨rfl, rfl, rfl⟩
  obtain ⟨scheduled, isScheduled, invScheduled, orderedScheduled, retired⟩ := scheduling
  have kept : Ordered st → Ordered scheduled := fun isOrdered =>
    orderedScheduled (ordered6 (ordered4 (ordered (ordered_setEntry isEntry rfl isOrdered))))
  simp only [removeGateway, isEntry, bind_eq_bind, bind_some]
  rw [isHandled, bind_some, isDropped4, bind_some, isDropped6, bind_some, isScheduled, bind_some]
  unfold chooseMissing
  split
  · obtain ⟨after, reached, invAfter, chooses, orderedAfter⟩ := invScheduled.of_settles
        (settles_gwDefaultChoosegwHandler cfg invScheduled.lists invScheduled.current keeps _ _)
    exact ⟨after, reached, invAfter, orderedAfter ∘ kept, retired.of_chooses chooses⟩
  · exact ⟨scheduled, rfl, invScheduled, kept, retired⟩

variable (prefixLen : Nat)

def Unflags (entry : GatewayEntry ver) : Prop :=
  prefixLen = forceDeleteGwEntry ∨ (clearFlags prefixLen entry).ipv4 = false ∧
      (clearFlags prefixLen entry).ipv6 = false

theorem clearFlags_eq (entry : GatewayEntry ver) :
    ∃ ipv4 ipv4nat ipv6, clearFlags prefixLen entry =
        { entry with ipv4 := ipv4, ipv4nat := ipv4nat, ipv6 := ipv6 } ∧
      (entry.ipv4 = false → ipv4 = false) ∧
      (entry.ipv6 = false → ipv6 = false) := by
  unfold clearFlags
  split
  · exact ⟨_, _, _, rfl, fun _ => rfl, id⟩
  · split
    · exact ⟨_, _, _, rfl, id, fun _ => rfl⟩
    · exact ⟨_, _, _, rfl, id, id⟩

theorem EntryOk.clearFlags (ok : EntryOk entry) (prefixLen : Nat) :
    EntryOk (clearFlags prefixLen entry) := by
  obtain ⟨ipv4, ipv4nat, ipv6, isCleared, less4, less6⟩ := clearFlags_eq prefixLen entry
  rw [isCleared]
  refine ⟨ok.noPrefix, fun inet => less6 (ok.onlyIpv4 inet), ok.notFired, ?_⟩
  intro scheduled
  obtain ⟨no4, no6, expired⟩ := ok.retired scheduled
  exact ⟨less4 no4, less6 no6, expired⟩

theorem clearFlags_timers (entry : GatewayEntry ver) (expireTimer : Bool) (cleanupTimer : GwTimer) :
    clearFlags prefixLen
        { entry with
          expireTimer := expireTimer
          cleanupTimer := cleanupTimer } =
      { clearFlags prefixLen entry with
        expireTimer := expireTimer
        cleanupTimer := cleanupTimer } := by
  unfold clearFlags
  split
  · rfl
  · split <;> rfl

theorem not_retired_of_flagged (isEntry : st.entries gw = some entry)
    (flagged : ¬ (entry.ipv4 = false ∧ entry.ipv6 = false)) : ¬ Retired st gw := by
  intro retired
  obtain ⟨no4, no6, _⟩ := retired.2 entry isEntry
  exact flagged ⟨no4, no6⟩

theorem olsrDeleteGatewayTreeEntry_spec
    (cfg : GwConfig) (inv : GwInv st) (keeps : KeepsCurrent world)
    (isEntry : st.entries gw = some entry) (prefixLen : Nat) (immediate : Bool) : ∃ after,
      olsrDeleteGatewayTreeEntry cfg world gw prefixLen immediate st = some after ∧ GwInv after ∧
      (Ordered st → Ordered after) ∧ (Retired after gw ↔ Unflags prefixLen entry) := by
  have okEntry := inv.entryOk gw entry isEntry
  unfold olsrDeleteGatewayTreeEntry
  simp only [isEntry, bind_eq_bind, bind_some]
  set timer := if immediate = true then GwTimer.unset else entry.cleanupTimer with isTimer
  have timerFrom : timer ≠ .unset → timer = entry.cleanupTimer := by
    intro scheduled
    rw [isTimer] at scheduled ⊢
    split at scheduled
    · exact absurd rfl scheduled
    next kept => rw [if_neg kept]
  have okStopped : EntryOk { entry with expireTimer := false, cleanupTimer := timer } := by
    refine ⟨okEntry.noPrefix, okEntry.onlyIpv4, ?_, ?_⟩
    · intro fired
      have scheduled : timer ≠ .unset := by
        rintro isUnset
        simp [isUnset] at fired
      exact okEntry.notFired ((timerFrom scheduled).symm.trans fired)
    · intro scheduled
      obtain ⟨no4, no6, _⟩ := okEntry.retired (timerFrom scheduled ▸ scheduled)
      exact ⟨no4, no6, rfl⟩
  split
  next unscheduled =>
    have isUnset : timer = .unset := by
      rcases unscheduled with isUnset | flagged
      · exact isUnset
      · by_contra scheduled
        obtain ⟨no4, no6, _⟩ := okStopped.retired scheduled
        simp only at no4 no6
        simp [no4, no6] at flagged
    rw [isUnset] at okStopped ⊢
    rw [clearFlags_timers]
    have okCleared := okStopped.clearFlags prefixLen
    rw [clearFlags_timers] at okCleared
    have same : (clearFlags prefixLen entry).originator = entry.originator ∧
        (clearFlags prefixLen entry).pathCost = entry.pathCost := by
      obtain ⟨_, _, _, isCleared, _⟩ := clearFlags_eq prefixLen entry
      rw [isCleared]
      exact ⟨rfl, rfl⟩
    have start := inv.setEntry isEntry
        { clearFlags prefixLen entry with
          expireTimer := false
          cleanupTimer := .unset }
        same.1 okCleared fun scheduled => absurd rfl scheduled
    have ordered : Ordered st → Ordered (st.setEntry gw
        { clearFlags prefixLen entry with expireTimer := false, cleanupTimer := .unset }) :=
      ordered_setEntry isEntry same.2
    have written : (st.setEntry gw
        { clearFlags prefixLen entry with
          expireTimer := false
          cleanupTimer := .unset }).entries gw =
        some
          { clearFlags prefixLen entry with
            expireTimer := false
            cleanupTimer := .unset } := by
      rw [GwState.setEntry_entries, if_pos rfl]
    split
    next removes =>
      obtain ⟨after, reached, invAfter, orderedAfter, retired⟩ :=
        removeGateway_spec cfg start keeps written rfl rfl immediate
      exact ⟨after, reached, invAfter, orderedAfter ∘ ordered, iff_of_true retired removes⟩
    next stays =>
      have flagged := not_or.mp stays
      split
      · obtain ⟨after, reached, invAfter, chooses, orderedAfter⟩ := start.of_settles
            (settles_gwDefaultUpdateHandler cfg start.lists start.current keeps
              (start.held gw _ written))
        refine ⟨after, reached, invAfter, orderedAfter ∘ ordered, iff_of_false ?_ stays⟩
        rw [← chooses.entries] at written
        exact not_retired_of_flagged written flagged.2
      · exact
          ⟨_, rfl, start, ordered, iff_of_false (not_retired_of_flagged written flagged.2) stays⟩
  next scheduled =>
    have isScheduled : timer ≠ .unset := fun isUnset => scheduled (.inl isUnset)
    obtain ⟨no4, no6, _⟩ := okStopped.retired isScheduled
    have wasScheduled := timerFrom isScheduled ▸ isScheduled
    have unlisted := inv.unlisted gw entry isEntry wasScheduled
    refine
      ⟨_, rfl, inv.setEntry isEntry _ rfl okStopped fun _ => unlisted, ordered_setEntry isEntry rfl,
        iff_of_true ⟨unlisted, ?_⟩ (.inr ?_)⟩
    · intro value isValue
      rw [GwState.setEntry_entries, if_pos rfl] at isValue
      cases isValue
      refine ⟨no4, no6, ?_⟩
      have notFired := okStopped.notFired
      simp only at notFired
      cases isKind : timer with
      | unset => exact absurd isKind isScheduled
      | running => rfl
      | fired => exact absurd isKind notFired
    · obtain ⟨ipv4, ipv4nat, ipv6, isCleared, less4, less6⟩ := clearFlags_eq prefixLen entry
      rw [isCleared]
      exact ⟨less4 no4, less6 no6⟩

theorem findGateway_spec (inv : GwInv st) {originator : IpAddr ver}
    (found : st.findGateway originator = some gw) :
    ∃ entry, st.entries gw = some entry ∧ entry.originator = originator := by
  obtain ⟨entry, isEntry⟩ := inv.entry (mem_of_find?_eq_some found)
  have matched := find?_some found
  simp [GwState.originatorOf, isEntry] at matched
  exact ⟨entry, isEntry, matched⟩

theorem GwInv.findGateway_eq (inv : GwInv st) (isEntry : st.entries gw = some entry) :
    st.findGateway entry.originator = some gw := by
  have inTree := inv.held gw entry isEntry
  have own : st.originatorOf gw = some entry.originator := by simp [GwState.originatorOf, isEntry]
  cases found : st.findGateway entry.originator with
  | none =>
    simp only [GwState.findGateway, find?_eq_none] at found
    exact absurd (by simpa using own) (found gw inTree)
  | some other =>
    obtain ⟨value, isValue, same⟩ := findGateway_spec inv found
    have others : st.originatorOf other = some entry.originator := by
      simp [GwState.originatorOf, isValue, same]
    rw [inv.originators other (inv.held other value isValue) gw inTree (others.trans own.symm)]

theorem expireGatewayHandler_spec (cfg : GwConfig)
    (inv : GwInv st) (keeps : KeepsCurrent world) (isEntry : st.entries gw = some entry) :
    ∃ after, expireGatewayHandler cfg world gw st = some after ∧
      GwInv after ∧ (Ordered st → Ordered after) ∧ (Retired after gw ↔ Unflags 0 entry) := by
  have noPrefix := (inv.entryOk gw entry isEntry).noPrefix
  have found := inv.findGateway_eq isEntry
  simpa [expireGatewayHandler, isEntry, olsrDeleteGatewayEntry, found, noPrefix]
    using olsrDeleteGatewayTreeEntry_spec cfg inv keeps isEntry 0 false

end Deleting

section Announcements

/-- A mask that is compared with the IPv6 Internet prefix has no flags where it
would be equal. -/
theorem hnaFlag_ipv6InternetRoute (flag : UInt8) : hnaFlag ipv6InternetRoute 3 flag = false := by
  have byte : hnaByte ipv6InternetRoute 3 1 = 0 := by decide
  simp [hnaFlag, byte]

variable {entry : GatewayEntry ver}

private theorem announcedEntry_noPrefix (mask : IpAddr ver)
    (prefixLen : Nat) (seqno : UInt16) (noPrefix : entry.externalPrefixLen = 0) :
    (announcedEntry mask prefixLen seqno entry).externalPrefixLen = 0 := by
  simp only [announcedEntry]
  split
  next resets =>
    rw [if_neg]
    rintro ⟨flagged, isRoute⟩
    rw [isRoute, resets.2, hnaFlag_ipv6InternetRoute] at flagged
    cases flagged
  · exact noPrefix

private theorem announcedEntry_onlyIpv4 (mask : IpAddr ver) (prefixLen : Nat) (seqno : UInt16)
    (entry : GatewayEntry ver) (inet : ver = .inet) :
    (announcedEntry mask prefixLen seqno entry).ipv6 = false := by
  subst inet
  rfl

private theorem GwState.setEntry_setEntry (first second : GatewayEntry ver) :
    (st.setEntry gw first).setEntry gw second = st.setEntry gw second := by
  simp [GwState.setEntry]

variable {written : GatewayEntry ver}

theorem GwState.costOf_setEntry {container : Ptr} :
    (st.setEntry gw written).costOf container =
      if st.gwOf container = some gw then written.pathCost else st.costOf container := by
  have same : (st.setEntry gw written).gwOf container = st.gwOf container := rfl
  rw [GwState.costOf, GwState.costOf, same]
  cases st.gwOf container with
  | none => rfl
  | some other =>
    by_cases isGw : other = gw
    · simp [GwState.setEntry_entries, isGw]
    · simp [GwState.setEntry_entries, isGw]

/-- The place of a gateway in the lists is that of an infinite cost. -/
def InPlace (st : GwState ver) (gw : Ptr) : Prop :=
  ∀ family, (st.lists family).items.Pairwise fun left right =>
    (st.gwOf left = some gw → int64Max ≤ st.costOf right) ∧
      (st.gwOf right = some gw → st.costOf left ≤ int64Max)

theorem InPlace.of_unlisted (ordered : Ordered st) (unlisted : ¬ Refers st gw) : InPlace st gw := by
  intro family
  refine (ordered family).imp_of_mem fun isLeft isRight _ => ⟨fun ofGw => ?_, fun ofGw => ?_⟩
  · exact absurd ⟨family, _, isLeft, ofGw⟩ unlisted
  · exact absurd ⟨family, _, isRight, ofGw⟩ unlisted

theorem InPlace.ordered_setEntry (inPlace : InPlace st gw) (infinite : written.pathCost = int64Max)
    (ordered : Ordered st) : Ordered (st.setEntry gw written) := by
  intro family
  refine ((ordered family).and (inPlace family)).imp fun {left right} ⟨le, isLeft, isRight⟩ => ?_
  rw [GwState.costOf_setEntry, GwState.costOf_setEntry, infinite]
  by_cases ofLeft : st.gwOf left = some gw <;> by_cases ofRight : st.gwOf right = some gw
  · rw [if_pos ofLeft, if_pos ofRight]
  · rw [if_pos ofLeft, if_neg ofRight]
    exact isLeft ofLeft
  · rw [if_neg ofLeft, if_pos ofRight]
    exact isRight ofRight
  · rwa [if_neg ofLeft, if_neg ofRight]

theorem resortLists_spec (gw : Ptr) (ok : ListsOk st) (current : CurrentOk st) (pathCost : Int) :
    Works st (resortLists gw pathCost st) ∧ ∀ after, resortLists gw pathCost st = some after →
      (∀ family, SortedBut st gw (st.lists family).items) →
      (pathCost = int64Max → Ordered st) → Ordered after := by
  unfold resortLists
  split
  next changed =>
    obtain ⟨items4, permuted4, is4, sorted4⟩ := resortGateway_spec ok .ipv4 gw
    obtain ⟨_, ⟨⟩, ok4, current4, chooses4⟩ := works_permuteList ok current permuted4
    obtain ⟨items6, permuted6, is6, sorted6⟩ := resortGateway_spec ok4 .ipv6 gw
    rw [is4, bind_eq_bind, bind_some, is6]
    refine ⟨(works_permuteList ok4 current4 permuted6).of_chooses chooses4, ?_⟩
    rintro _ ⟨⟩ but _ family
    cases family with
    | ipv4 => exact sorted4 (but .ipv4)
    | ipv6 => exact sorted6 (but .ipv6)
  next same =>
    refine ⟨works_some ok current, ?_⟩
    rintro _ ⟨⟩ _ ordered
    exact ordered (not_not.mp same).symm

theorem refreshGateway_spec (cfg : GwConfig) (inv : GwInv st) (keeps : KeepsCurrent world)
    (isEntry : st.entries gw = some entry) (mask : IpAddr ver) (prefixLen : Nat) (seqno : UInt16) :
    ∃ after, refreshGateway cfg world mask prefixLen seqno gw st = some after ∧ GwInv after ∧
        (Ordered st →
          (gwDefaultGetcosts cfg world (announcedEntry mask prefixLen seqno entry) = int64Max →
            InPlace st gw) → Ordered after) ∧
        ((announcedEntry mask prefixLen seqno entry).uplink ≠ 0 →
          (announcedEntry mask prefixLen seqno entry).downlink ≠ 0 → ∃ pathCost, after.entries gw =
              some
                { announcedEntry mask prefixLen seqno entry with
                  expireTimer := true
                  cleanupTimer := .unset
                  pathCost := pathCost }) := by
  have noPrefix := announcedEntry_noPrefix mask prefixLen seqno
      (inv.entryOk gw entry isEntry).noPrefix
  have onlyIpv4 := announcedEntry_onlyIpv4 mask prefixLen seqno entry
  have same : (announcedEntry mask prefixLen seqno entry).originator = entry.originator := rfl
  have infinite : (announcedEntry mask prefixLen seqno entry).pathCost = int64Max := rfl
  unfold refreshGateway
  simp only [isEntry, bind_eq_bind, bind_some]
  generalize announcedEntry mask prefixLen seqno entry = announced at *
  split
  next noSpeed =>
    -- no bandwidth: the gateway is freed at once
    have okStopped : EntryOk { announced with expireTimer := false, cleanupTimer := .unset } :=
      ⟨noPrefix, onlyIpv4, nofun, fun scheduled => absurd rfl scheduled⟩
    have okCleared := okStopped.clearFlags forceDeleteGwEntry
    rw [clearFlags_timers] at okCleared
    have sameCleared : (clearFlags forceDeleteGwEntry announced).originator = entry.originator ∧
        (clearFlags forceDeleteGwEntry announced).pathCost = int64Max := by
      obtain ⟨_, _, _, isCleared, _⟩ := clearFlags_eq forceDeleteGwEntry announced
      rw [isCleared]
      exact ⟨same, infinite⟩
    have start := inv.setEntry isEntry
        { clearFlags forceDeleteGwEntry announced with
          expireTimer := false
          cleanupTimer := .unset }
        sameCleared.1 okCleared fun scheduled => absurd rfl scheduled
    have noCosts : gwDefaultGetcosts cfg world announced = int64Max := by
      rw [gwDefaultGetcosts]
      split
      · rfl
      · exact if_pos (.inr noSpeed)
    obtain ⟨after, reached, invAfter, ordered, _⟩ := removeGateway_spec cfg start keeps
        (by rw [GwState.setEntry_entries, if_pos rfl]) rfl rfl true
    refine ⟨after, ?_, invAfter, fun isOrdered inPlace =>
        ordered ((inPlace noCosts).ordered_setEntry sameCleared.2 isOrdered), fun up down => ?_⟩
    · simpa [olsrDeleteGatewayTreeEntry, GwState.setEntry_entries,
        GwState.setEntry_setEntry, clearFlags_timers] using reached
    · simp [up, down] at noSpeed
  · have start := inv.setEntry isEntry
        { announced with
          expireTimer := true
          cleanupTimer := .unset
          pathCost := gwDefaultGetcosts cfg world announced }
        same ⟨noPrefix, onlyIpv4, nofun, fun scheduled => absurd rfl scheduled⟩
        fun scheduled => absurd rfl scheduled
    obtain ⟨resorts, orderedSorted⟩ := resortLists_spec gw start.lists start.current
        (gwDefaultGetcosts cfg world announced)
    obtain ⟨sorted, isSorted, invSorted, choosesSorted⟩ := start.of_works resorts
    obtain ⟨after, reached, invAfter, chooses, ordered⟩ := invSorted.of_settles
        (settles_gwDefaultUpdateHandler cfg invSorted.lists invSorted.current keeps
          (choosesSorted.tree ▸ inv.held gw entry isEntry))
    refine
      ⟨after, by simpa [isSorted] using reached, invAfter, ?_, fun _ _ =>
        ⟨gwDefaultGetcosts cfg world announced, ?_⟩⟩
    · intro isOrdered inPlace
      refine ordered (orderedSorted sorted isSorted (fun family => ?_) fun isInfinite =>
        (inPlace isInfinite).ordered_setEntry isInfinite isOrdered)
      refine (isOrdered family).imp fun le notLeft notRight => ?_
      rw [GwState.costOf_setEntry, GwState.costOf_setEntry]
      rwa [if_neg (by exact notLeft), if_neg (by exact notRight)]
    · rw [chooses.entries, choosesSorted.entries, GwState.setEntry_entries, if_pos rfl]

/-- An announcement that leaves a gateway at the infinite cost finds it in its
place. -/
def KeepsOrder (cfg : GwConfig) (st : GwState ver) (event : GwWorld ver × GwEvent ver) : Prop :=
  match event.2 with
  | .update originator mask prefixLen seqno =>
    ∀ gw entry, st.findGateway originator = some gw → st.entries gw = some entry →
      0 < olsrSeqnoDiff seqno entry.seqno →
      gwDefaultGetcosts cfg event.1 (announcedEntry mask prefixLen seqno entry) = int64Max →
        InPlace st gw
  | _ => True

private theorem olsrUpdateGatewayEntry_spec (cfg : GwConfig) (inv : GwInv st)
    (keeps : KeepsCurrent world) (originator mask : IpAddr ver) (prefixLen : Nat) (seqno : UInt16) :
    ∃ after, olsrUpdateGatewayEntry cfg world originator mask prefixLen seqno
        st = some after ∧ GwInv after ∧
      (KeepsOrder cfg st (world, .update originator mask prefixLen seqno) →
        Ordered st → Ordered after) := by
  unfold olsrUpdateGatewayEntry
  split
  next missing =>
    obtain ⟨invInserted, isNew, orderedNew, unlisted⟩ := inv.insertGateway missing
    obtain ⟨after, reached, invAfter, ordered, _⟩ :=
      refreshGateway_spec cfg invInserted keeps isNew mask prefixLen seqno
    exact ⟨after, reached, invAfter, fun _ isOrdered =>
        ordered (orderedNew isOrdered) fun _ => .of_unlisted (orderedNew isOrdered) unlisted⟩
  next gw found =>
    obtain ⟨entry, isEntry, _⟩ := findGateway_spec inv found
    simp only [isEntry, bind_eq_bind, bind_some]
    split
    · exact ⟨st, rfl, inv, fun _ => id⟩
    next newer =>
      obtain ⟨after, reached, invAfter, ordered, _⟩ :=
        refreshGateway_spec cfg inv keeps isEntry mask prefixLen seqno
      exact ⟨after, reached, invAfter, fun keepsOrder isOrdered =>
          ordered isOrdered (keepsOrder gw entry found isEntry (not_le.mp newer))⟩

end Announcements

section Runs

theorem gwStep_spec (cfg : GwConfig) (inv : GwInv st) {event : GwWorld ver × GwEvent ver}
    (keeps : KeepsCurrent event.1) : ∃ next, gwStep cfg st event = some next ∧
      GwInv next ∧ (KeepsOrder cfg st event → Ordered st → Ordered next) := by
  obtain ⟨world, event⟩ := event
  have unchanged := settles_some inv.lists inv.current
  have works : ∀ {result : Option (GwState ver)} {keepsOrder : Prop}, Settles st result →
      ∃ next, result = some next ∧ GwInv next ∧ (keepsOrder → Ordered st → Ordered next) := by
    intro result keepsOrder settles
    obtain ⟨after, reached, invAfter, _, ordered⟩ := inv.of_settles settles
    exact ⟨after, reached, invAfter, fun _ => ordered⟩
  cases event with
  | update originator mask prefixLen seqno =>
    exact olsrUpdateGatewayEntry_spec cfg inv keeps originator mask prefixLen seqno
  | expire gw =>
    simp only [gwStep]
    split
    next fires =>
      obtain ⟨entry, isEntry, _⟩ := any_eq_true _ _ |>.mp fires
      obtain ⟨after, reached, invAfter, ordered, _⟩ :=
        expireGatewayHandler_spec cfg inv keeps isEntry
      exact ⟨after, reached, invAfter, fun _ => ordered⟩
    · exact works unchanged
  | cleanup gw =>
    simp only [gwStep]
    split
    next fires =>
      obtain ⟨entry, isEntry, running⟩ := any_eq_true _ _ |>.mp fires
      have scheduled : entry.cleanupTimer ≠ .unset := by
        simp only [decide_eq_true_eq] at running
        simp [running]
      obtain ⟨no4, no6, _⟩ := (inv.entryOk gw entry isEntry).retired scheduled
      refine
        ⟨withoutGateway st gw, ?_, inv.withoutGateway (inv.unlisted gw entry isEntry scheduled),
          fun _ => ordered_withoutGateway (inv.unlisted gw entry isEntry scheduled)⟩
      simp [fireCleanup, cleanupGatewayHandler_eq isEntry no4 no6, withoutGateway_entries]
    · exact works unchanged
  | delete originator prefixLen immediate =>
    simp only [gwStep, olsrDeleteGatewayEntry]
    split
    · exact works unchanged
    next gw found =>
      obtain ⟨entry, isEntry, _⟩ := findGateway_spec inv found
      obtain ⟨after, reached, invAfter, ordered, _⟩ :=
        olsrDeleteGatewayTreeEntry_spec cfg inv keeps isEntry prefixLen immediate
      exact ⟨after, reached, invAfter, fun _ => ordered⟩
  | setInet gw ipv4 ipv6 =>
    simp only [gwStep]
    split
    next inTree =>
      apply works
      obtain ⟨⟨after, flag, set, ok, current, chooses⟩, ordered⟩ :=
        settlesWith_olsrSetInetGateway cfg inv.lists inv.current keeps inTree ipv4 ipv6
      exact
        ⟨⟨after, by simp [set], ok, current, chooses⟩,
          by simpa [set] using ordered (after, flag) set⟩
    · exact works unchanged
  | takeDown => exact works (settles_gwTakedownTimerCallback cfg inv.lists inv.current)
  | lossCheck => exact works (settles_olsrTriggerGatewaylossCheck cfg inv.lists inv.current keeps)
  | select =>
    simp only [gwStep]
    split
    · exact works (settles_gwDefaultTimer cfg inv.lists inv.current keeps)
    · exact works unchanged
  | startup => exact works (settles_gwDefaultStartupHandler cfg inv.lists inv.current)

theorem gwInv_initGateways (cfg : GwConfig) : GwInv (initGateways ver cfg) := by
  refine
    { lists :=
        { list := fun _ => ⟨.nil, rfl, Nat.zero_le _, cfg.useCount_pos⟩
          live := nofun
          distinct := nofun
          disjoint := nofun
          fresh := fun _ _ => rfl
          present := nofun }
      current := nofun
      held := nofun
      treeNodup := .nil
      originators := nofun
      fresh := fun _ _ => rfl
      entryOk := nofun
      unlisted := nofun }

/-- The current gateways are in their lists, the lists hold gateways of the tree
and none twice, and the counts are right. -/
structure GwSafe (st : GwState ver) : Prop where
  current : ∀ family container, st.current family = some container →
    container ∈ (st.lists family).items
  elements : ∀ family, ∀ container ∈ (st.lists family).items,
    ∃ gw entry, st.containers container = some ⟨gw⟩ ∧
      gw ∈ st.gatewayTree ∧ st.entries gw = some entry
  gateways : ∀ family, ((st.lists family).items.map st.gwOf).Nodup
  count : ∀ family, (st.lists family).count = (st.lists family).items.length ∧
      (st.lists family).count ≤ (st.lists family).countMax

theorem GwInv.safe (inv : GwInv st) : GwSafe st := by
  constructor
  case current => exact inv.current
  case elements =>
    intro family container listed
    exact inv.lists.container listed
  case gateways =>
    intro family
    refine List.Nodup.map_on ?_ (inv.lists.list family).nodup
    intro left inLeft right inRight
    exact inv.lists.distinct family left inLeft right inRight
  case count =>
    intro family
    have counted := (inv.lists.list family).count
    exact ⟨counted, counted ▸ (inv.lists.list family).bounded⟩

theorem gwRun_inv (cfg : GwConfig) (events : List (GwWorld ver × GwEvent ver))
    (keeps : RunMeets (gwStep cfg) (fun _ event => KeepsCurrent event.1)
      (initGateways ver cfg) events) :
    ∃ final, runEvents (gwStep cfg) (initGateways ver cfg) events = some final ∧ GwInv final :=
  runEvents_exists_of_meets
    (fun inv keeps => (gwStep_spec cfg inv keeps).imp fun _ next => ⟨next.1, next.2.1⟩)
    (gwInv_initGateways cfg) keeps

/-- Whatever happens, the bookkeeping is safe, if no tunnel fails for a full
list whose last element is the current gateway. -/
theorem gwRun_safe (cfg : GwConfig) (events : List (GwWorld ver × GwEvent ver))
    (keeps : RunMeets (gwStep cfg) (fun _ event => KeepsCurrent event.1)
      (initGateways ver cfg) events) :
    ∃ final, runEvents (gwStep cfg) (initGateways ver cfg) events = some final ∧ GwSafe final := by
  obtain ⟨final, finished, inv⟩ := gwRun_inv cfg events keeps
  exact ⟨final, finished, inv.safe⟩

def singleConfig : GwConfig where
  useNiit := false
  smartGwAllowNat := true
  smartGwThresh := 0
  smartGwUseCount := 1
  smartGwTakedownPercentage := 25
  smartGwStablecount := 1
  smartGwWeightExitlinkUp := 1
  smartGwWeightExitlinkDown := 1
  smartGwWeightEtx := 1
  smartGwDividerEtx := 0
  smartGwPathMaxCostEtxMax := 2560
  hasIpv4Gateway := false
  hasIpv6Gateway := false
  useCount_pos := by decide

def firstGateway : IpAddr .inet := .v4 10 0 0 1
def secondGateway : IpAddr .inet := .v4 10 0 0 2
def ipv4Mask : IpAddr .inet := .v4 0 3 11 11

def worldOf (first second : Option Nat) (addTunnel : Bool) : GwWorld .inet where
  tcCost := fun originator =>
    if originator = firstGateway then first
    else if originator = secondGateway then second
    else none
  tcCount := 3
  addTunnel := fun _ _ _ => addTunnel

/-- The first gateway is selected, and reachable no more after the second one
has announced itself; the tunnel to the second one fails. -/
def failedReplacement : List (GwWorld .inet × GwEvent .inet) :=
  [(worldOf (some 2000) none true, .update firstGateway ipv4Mask 0 1),
    (worldOf (some 2000) none true, .startup),
    (worldOf (some 2000) none true, .select),
    (worldOf (some 2000) (some 1000) true, .update secondGateway ipv4Mask 0 1),
    (worldOf none (some 1000) false, .lossCheck)]

theorem failedReplacement_dangles : ∃ final,
      runEvents (gwStep singleConfig) (initGateways .inet singleConfig)
        failedReplacement = some final ∧
      (∃ container, final.current .ipv4 = some container ∧
        final.containers container = none) ∧ ¬ GwSafe final := by
  obtain ⟨final, finished, isCurrent, empty, freed⟩ : ∃ final,
      runEvents (gwStep singleConfig) (initGateways .inet singleConfig) failedReplacement =
        some final ∧ final.current .ipv4 = some 1 ∧ (final.lists .ipv4).items = [] ∧
        (final.containers 1).isNone := by
    decide +kernel
  refine ⟨final, finished, ⟨1, isCurrent, isNone_iff_eq_none.mp freed⟩, ?_⟩
  intro safe
  have listed := safe.current .ipv4 1 isCurrent
  simp [empty] at listed

/-- The same run with a tunnel that can be made. -/
theorem gwRun_safe_replacement : ∃ final,
      runEvents (gwStep singleConfig) (initGateways .inet singleConfig)
        [(worldOf (some 2000) none true, .update firstGateway ipv4Mask 0 1),
          (worldOf (some 2000) none true, .startup),
          (worldOf (some 2000) none true, .select),
          (worldOf none (some 1000) true, .update secondGateway ipv4Mask 0 1),
          (worldOf none (some 1000) true, .lossCheck)] =
        some final ∧ GwSafe final := by
  have keeps : ∀ first second, KeepsCurrent (worldOf first second true) :=
    fun _ _ _ _ _ _ _ _ _ => rfl
  refine gwRun_safe singleConfig _ ?_
  simp [RunMeets, keeps]

end Runs

end QosOlsr.Gateways
