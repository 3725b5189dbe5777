import QosOlsr.Gateways.Tables

/-!
# Gateway lists

What holds of the gateway lists whenever they are used, and that removing,
adding and sorting keep it.
-/

namespace QosOlsr.Gateways

open Function List Option

variable {ver : IpVersion}

section

variable (st : GwState ver)

def GwState.gwOf (container : Ptr) : Option Ptr := (st.containers container).map GwContainer.gw

def Refers (gw : Ptr) : Prop :=
  ∃ family, ∃ container ∈ (st.lists family).items, st.gwOf container = some gw

structure ListOk (list : GwList) : Prop where
  nodup : list.items.Nodup
  count : list.count = list.items.length
  bounded : list.items.length ≤ list.countMax
  positive : 0 < list.countMax

structure ListsOk : Prop where
  list : ∀ family, ListOk (st.lists family)
  live : ∀ family, ∀ container ∈ (st.lists family).items,
    ∃ gw, st.gwOf container = some gw ∧ gw ∈ st.gatewayTree
  distinct : ∀ family, ∀ left ∈ (st.lists family).items,
    ∀ right ∈ (st.lists family).items, st.gwOf left = st.gwOf right → left = right
  disjoint : ∀ left right, ∀ container ∈ (st.lists left).items,
    container ∈ (st.lists right).items → left = right
  fresh : ∀ container, st.nextPtr ≤ container → st.containers container = none
  present : ∀ gw ∈ st.gatewayTree, (st.entries gw).isSome

def GwState.costOf (container : Ptr) : Int :=
  (((st.gwOf container).bind st.entries).map GatewayEntry.pathCost).getD 0

def SortedItems (items : List Ptr) : Prop :=
  items.Pairwise fun left right => st.costOf left ≤ st.costOf right

instance (items : List Ptr) : Decidable (SortedItems st items) :=
  inferInstanceAs (Decidable (List.Pairwise _ items))

def Ordered : Prop := ∀ family, SortedItems st (st.lists family).items

def CurrentOk : Prop :=
  ∀ family container, st.current family = some container → container ∈ (st.lists family).items

end

theorem listOk_update {lists : Family → GwList} (ok : ∀ family, ListOk (lists family))
    {family : Family} {list : GwList} (okList : ListOk list)
    (other : Family) : ListOk (update lists family list other) := by
  by_cases same : other = family
  · subst same
    simpa using okList
  · simpa [same] using ok other

section ContainerLemmas

variable {st : GwState ver} {family : Family}

theorem gwOf_eq_some_iff {container gw : Ptr} :
    st.gwOf container = some gw ↔ st.containers container = some ⟨gw⟩ := by
  rw [GwState.gwOf, map_eq_some_iff]
  constructor
  · rintro ⟨⟨_⟩, found, rfl⟩
    exact found
  · intro found
    exact ⟨_, found, rfl⟩

theorem ListsOk.container
    (ok : ListsOk st) {container : Ptr} (listed : container ∈ (st.lists family).items) : ∃ gw entry,
      st.containers container = some ⟨gw⟩ ∧ gw ∈ st.gatewayTree ∧ st.entries gw = some entry := by
  obtain ⟨gw, refers, inTree⟩ := ok.live family container listed
  obtain ⟨entry, held⟩ := isSome_iff_exists.mp (ok.present gw inTree)
  exact ⟨gw, entry, gwOf_eq_some_iff.mp refers, inTree, held⟩

theorem costOf_eq {container gw : Ptr} {entry : GatewayEntry ver}
    (held : st.containers container = some ⟨gw⟩) (isEntry : st.entries gw = some entry) :
    st.costOf container = entry.pathCost := by
  simp [GwState.costOf, GwState.gwOf, held, isEntry]

private theorem findContainer_spec {gw : Ptr} {items : List Ptr}
    (live : ∀ container ∈ items, ∃ other, st.gwOf container = some other) :
    ∃ found, findContainer st gw items = some found ∧
      (∀ container, found = some container → container ∈ items ∧ st.gwOf container = some gw) ∧
      (found = none → ∀ container ∈ items, st.gwOf container ≠ some gw) := by
  induction items with
  | nil => exact ⟨none, rfl, by simp, by simp⟩
  | cons container rest ih =>
    obtain ⟨other, refers⟩ := live container (by simp)
    have held := gwOf_eq_some_iff.mp refers
    by_cases same : other = gw
    · subst same
      refine ⟨some container, by simp [findContainer, held], ?_, nofun⟩
      intro first isFirst
      cases isFirst
      exact ⟨by simp, refers⟩
    · obtain ⟨found, searched, isFound, isMissing⟩ :=
        ih fun listed mem => live listed (by simp [mem])
      refine ⟨found, by simpa [findContainer, held, same] using searched, ?_, ?_⟩
      · intro listed isListed
        obtain ⟨mem, ofGw⟩ := isFound listed isListed
        exact ⟨by simp [mem], ofGw⟩
      · intro missing listed mem
        rcases mem_cons.mp mem with rfl | mem
        · simpa [refers] using same
        · exact isMissing missing listed mem

theorem ListsOk.find (ok : ListsOk st) (family : Family) (gw : Ptr) :
    ∃ found, olsrGwListFind st family gw = some found ∧
      (∀ container, found = some container →
        container ∈ (st.lists family).items ∧ st.gwOf container = some gw) ∧
      (found = none → ∀ container ∈ (st.lists family).items, st.gwOf container ≠ some gw) :=
  findContainer_spec fun container listed => (ok.live family container listed).imp fun _ => And.left

theorem placeContainer_spec
    (st : GwState ver) (cost : Int) (added : Ptr) {items : List Ptr} (live : ∀ container ∈ items,
        ∃ gw entry, st.containers container = some ⟨gw⟩ ∧ st.entries gw = some entry) :
    ∃ placed, placeContainer st cost added items = some placed ∧ placed.Perm (added :: items) ∧
      (st.costOf added = cost → SortedItems st items → SortedItems st placed) := by
  induction items with
  | nil => exact ⟨[added], rfl, .refl _, fun _ _ => pairwise_singleton ..⟩
  | cons container rest ih =>
    obtain ⟨gw, entry, held, isEntry⟩ := live container (by simp)
    have isCost := costOf_eq held isEntry
    by_cases cheaper : cost ≤ entry.pathCost
    · refine
        ⟨added :: container :: rest, by simp [placeContainer, held, isEntry, cheaper], .refl _, ?_⟩
      intro own sorted
      refine pairwise_cons.mpr ⟨?_, sorted⟩
      intro other mem
      rw [own]
      rcases mem_cons.mp mem with rfl | mem
      · exact isCost ▸ cheaper
      · exact cheaper.trans (isCost ▸ rel_of_pairwise_cons sorted mem)
    · obtain ⟨placed, isPlaced, perm, ordered⟩ := ih fun listed mem => live listed (by simp [mem])
      refine
        ⟨container :: placed, by simp [placeContainer, held, isEntry, cheaper, isPlaced],
          (perm.cons container).trans (.swap ..), ?_⟩
      intro own sorted
      refine pairwise_cons.mpr ⟨?_, ordered own sorted.of_cons⟩
      intro other mem
      rcases mem_cons.mp (perm.mem_iff.mp mem) with rfl | mem
      · rw [own, isCost]
        exact (not_le.mp cheaper).le
      · exact rel_of_pairwise_cons sorted mem

end ContainerLemmas

/-! ## What an operation on the lists leaves alone -/

def Flagged (st : GwState ver) (gw : Ptr) : Prop :=
  ∃ entry, st.entries gw = some entry ∧ (entry.ipv4 ∨ entry.ipv6)

/-- The tree is as it was, and a gateway that came into a list has a flag
set. -/
structure Chooses (before after : GwState ver) : Prop where
  entries : after.entries = before.entries
  tree : after.gatewayTree = before.gatewayTree
  refers : ∀ gw, Refers after gw → Refers before gw ∨ Flagged before gw
  nextPtr : before.nextPtr ≤ after.nextPtr

theorem Chooses.refl (st : GwState ver) : Chooses st st := ⟨rfl, rfl, fun _ => Or.inl, le_rfl⟩

theorem Chooses.trans {before via after : GwState ver}
    (first : Chooses before via) (second : Chooses via after) : Chooses before after := by
  refine ⟨second.entries.trans first.entries, second.tree.trans first.tree, ?_,
      first.nextPtr.trans second.nextPtr⟩
  intro gw refers
  rcases second.refers gw refers with refers | ⟨entry, held, flagged⟩
  · exact first.refers gw refers
  · exact .inr ⟨entry, first.entries ▸ held, flagged⟩

def Works (before : GwState ver) (result : Option (GwState ver)) : Prop :=
  ∃ after, result = some after ∧ ListsOk after ∧ CurrentOk after ∧ Chooses before after

/-- An operation that also leaves ordered lists in order. -/
def Settles (before : GwState ver) (result : Option (GwState ver)) : Prop :=
  Works before result ∧ ∀ after, result = some after → Ordered before → Ordered after

section WorksLemmas

variable {before : GwState ver} {result : Option (GwState ver)}
  {next : GwState ver → Option (GwState ver)}

theorem works_some (ok : ListsOk before) (current : CurrentOk before) :
    Works before (some before) :=
  ⟨before, rfl, ok, current, .refl before⟩

theorem Works.of_chooses {start : GwState ver} (chooses : Chooses start before)
    (works : Works before result) : Works start result := by
  obtain ⟨after, reached, ok, current, choosesAfter⟩ := works
  exact ⟨after, reached, ok, current, chooses.trans choosesAfter⟩

theorem settles_some (ok : ListsOk before) (current : CurrentOk before) :
    Settles before (some before) :=
  ⟨works_some ok current, fun _ same => some.inj same ▸ id⟩

theorem Settles.of_chooses {start : GwState ver} (chooses : Chooses start before)
    (ordered : Ordered start → Ordered before) (settles : Settles before result) :
    Settles start result :=
  ⟨settles.1.of_chooses chooses, fun after reached isOrdered =>
    settles.2 after reached (ordered isOrdered)⟩

theorem Settles.bind
    (first : Settles before result) (second : ∀ after, ListsOk after → CurrentOk after →
        Chooses before after → Settles after (next after)) : Settles before (result >>= next) := by
  obtain ⟨⟨via, rfl, ok, current, chooses⟩, ordered⟩ := first
  exact (second via ok current chooses).of_chooses chooses (ordered via rfl)

end WorksLemmas

section Containers

variable {st : GwState ver} {family : Family}

def withoutContainer (st : GwState ver) (family : Family) (container : Ptr) : GwState ver :=
  (st.setList family
    { st.lists family with
      items := (st.lists family).items.erase container
      count := (st.lists family).count - 1 }).freeContainer container

variable {container : Ptr}

theorem ListsOk.removeGatewayFromList (ok : ListsOk st)
    (listed : container ∈ (st.lists family).items) :
    removeGatewayFromList st family container = some (withoutContainer st family container) := by
  obtain ⟨gw, _, held, _⟩ := ok.container listed
  have counted : (st.lists family).count ≠ 0 := by
    rw [(ok.list family).count]
    exact (length_pos_of_mem listed).ne'
  simp [Gateways.removeGatewayFromList, olsrGwListRemove, counted, held, withoutContainer]

variable {other : Family}

theorem mem_withoutContainer_iff (ok : ListsOk st) {listed : Ptr}
    (mem : container ∈ (st.lists family).items) :
    listed ∈ ((withoutContainer st family container).lists other).items ↔
      listed ∈ (st.lists other).items ∧ listed ≠ container := by
  by_cases same : other = family
  · subst same
    simp [withoutContainer, GwState.freeContainer, GwState.setList,
      (ok.list other).nodup.mem_erase_iff, and_comm]
  · have apart : listed ∈ (st.lists other).items → listed ≠ container := by
      rintro inOther rfl
      exact same (ok.disjoint _ _ _ inOther mem)
    simpa [withoutContainer, GwState.freeContainer, GwState.setList, same] using apart

theorem gwOf_withoutContainer {other : Ptr} (apart : other ≠ container) :
    (withoutContainer st family container).gwOf other = st.gwOf other := by
  simp [withoutContainer, GwState.freeContainer, GwState.setList, GwState.gwOf, apart]

theorem costOf_withoutContainer {other : Ptr} (apart : other ≠ container) :
    (withoutContainer st family container).costOf other = st.costOf other := by
  rw [GwState.costOf, GwState.costOf, gwOf_withoutContainer apart]
  rfl

section

variable (ok : ListsOk st) (listed : container ∈ (st.lists family).items)
include ok listed

theorem ordered_withoutContainer (ordered : Ordered st) :
    Ordered (withoutContainer st family container) := by
  intro other
  have shorter : ((withoutContainer st family container).lists other).items.Sublist
      (st.lists other).items := by
    by_cases same : other = family
    · subst same
      simp [withoutContainer, GwState.freeContainer, GwState.setList, erase_sublist]
    · simp [withoutContainer, GwState.freeContainer, GwState.setList, same]
  refine ((ordered other).sublist shorter).imp_of_mem fun isLeft isRight le => ?_
  rwa [costOf_withoutContainer ((mem_withoutContainer_iff ok listed).mp isLeft).2,
    costOf_withoutContainer ((mem_withoutContainer_iff ok listed).mp isRight).2]

theorem ListsOk.withoutContainer : ListsOk (withoutContainer st family container) := by
  have mem : ∀ {other : Family} {kept : Ptr},
      kept ∈ ((Gateways.withoutContainer st family container).lists other).items ↔
        kept ∈ (st.lists other).items ∧ kept ≠ container :=
    mem_withoutContainer_iff ok listed
  have shorter := length_erase_of_mem listed
  have bounded := (ok.list family).bounded
  constructor
  case list =>
    exact listOk_update ok.list
        { nodup := (ok.list family).nodup.erase container
          count := by simp only [shorter, (ok.list family).count]
          bounded := by simp only [shorter]; omega
          positive := (ok.list family).positive }
  case live =>
    intro other kept isKept
    rw [mem] at isKept
    rw [gwOf_withoutContainer isKept.2]
    exact ok.live other kept isKept.1
  case distinct =>
    intro other left isLeft right isRight same
    rw [mem] at isLeft isRight
    rw [gwOf_withoutContainer isLeft.2, gwOf_withoutContainer isRight.2] at same
    exact ok.distinct other left isLeft.1 right isRight.1 same
  case disjoint =>
    intro left right kept inLeft inRight
    exact ok.disjoint left right kept (mem.mp inLeft).1 (mem.mp inRight).1
  case fresh =>
    intro kept beyond
    by_cases same : kept = container
    · exact same ▸ update_self ..
    · exact (update_of_ne same _ _).trans (ok.fresh kept beyond)
  case present => exact ok.present

private theorem Refers.of_withoutContainer {gw : Ptr}
    (refers : Refers (Gateways.withoutContainer st family container) gw) :
    ∃ other, ∃ kept ∈ (st.lists other).items, kept ≠ container ∧ st.gwOf kept = some gw := by
  obtain ⟨other, kept, isKept, ofGw⟩ := refers
  obtain ⟨inOther, apart⟩ := (mem_withoutContainer_iff ok listed).mp isKept
  exact ⟨other, kept, inOther, apart, gwOf_withoutContainer apart ▸ ofGw⟩

theorem chooses_withoutContainer : Chooses st (withoutContainer st family container) := by
  refine ⟨rfl, rfl, fun gw refers => .inl ?_, le_rfl⟩
  obtain ⟨other, kept, inOther, _, ofGw⟩ := refers.of_withoutContainer ok listed
  exact ⟨other, kept, inOther, ofGw⟩

theorem CurrentOk.withoutContainer
    (current : CurrentOk st) (apart : st.current family ≠ some container) :
    CurrentOk (withoutContainer st family container) := by
  intro other kept isCur
  have inOther := current other kept isCur
  refine (mem_withoutContainer_iff ok listed).mpr ⟨inOther, ?_⟩
  rintro rfl
  have same := ok.disjoint _ _ _ inOther listed
  subst same
  exact apart isCur

end

def withContainer (st : GwState ver) (family : Family) (newGw : Ptr)
    (items : List Ptr) : GwState ver :=
  ({ st with
    containers := update st.containers st.nextPtr (some ⟨newGw⟩)
    nextPtr := st.nextPtr + 1 }.setList family
      { st.lists family with
        items := items
        count := (st.lists family).count + 1 }).setCurrent family (some st.nextPtr)

theorem ListsOk.nextPtr_not_mem (ok : ListsOk st) : st.nextPtr ∉ (st.lists family).items := by
  intro listed
  obtain ⟨gw, _, held, _⟩ := ok.container listed
  simp [ok.fresh st.nextPtr le_rfl] at held

variable {newGw : Ptr}

theorem ListsOk.addContainer (ok : ListsOk st) (inTree : newGw ∈ st.gatewayTree)
    (room : olsrGwListFull (st.lists family) = false) :
    ∃ items, items.Perm (st.nextPtr :: (st.lists family).items) ∧
      addContainer family newGw st = some (withContainer st family newGw items) ∧
      (SortedItems (withContainer st family newGw items) (st.lists family).items →
        SortedItems (withContainer st family newGw items) items) := by
  obtain ⟨entry, isEntry⟩ := isSome_iff_exists.mp (ok.present newGw inTree)
  have live : ∀ container ∈ (st.lists family).items, ∃ gw held,
      update st.containers st.nextPtr (some ⟨newGw⟩) container =
        some ⟨gw⟩ ∧ st.entries gw = some held := by
    intro container listed
    obtain ⟨gw, held, isContainer, _, isHeld⟩ := ok.container listed
    have apart : container ≠ st.nextPtr := by
      rintro rfl
      exact ok.nextPtr_not_mem listed
    exact ⟨gw, held, (update_of_ne apart _ _).trans isContainer, isHeld⟩
  obtain ⟨items, placed, perm, sorted⟩ := placeContainer_spec
      { st with
        containers := update st.containers st.nextPtr (some ⟨newGw⟩)
        nextPtr := st.nextPtr + 1 }
      entry.pathCost st.nextPtr live
  refine ⟨items, perm, ?_, sorted (costOf_eq (update_self ..) isEntry)⟩
  simp [Gateways.addContainer, olsrGwListAdd, room, isEntry, placed, withContainer]

variable {items : List Ptr}

theorem mem_withContainer_iff {listed : Ptr}
    (perm : items.Perm (st.nextPtr :: (st.lists family).items)) :
    listed ∈ ((withContainer st family newGw items).lists other).items ↔
      (listed = st.nextPtr ∧ other = family) ∨ listed ∈ (st.lists other).items := by
  by_cases same : other = family
  · subst same
    simp [withContainer, GwState.setCurrent, GwState.setList, perm.mem_iff]
  · simp [withContainer, GwState.setCurrent, GwState.setList, same]

theorem gwOf_withContainer (other : Ptr) : (withContainer st family newGw items).gwOf other =
      if other = st.nextPtr then some newGw else st.gwOf other := by
  by_cases same : other = st.nextPtr
  · simp [withContainer, GwState.setCurrent, GwState.setList, GwState.gwOf, same]
  · simp [withContainer, GwState.setCurrent, GwState.setList, GwState.gwOf, same]

theorem ordered_withContainer (ok : ListsOk st) (ordered : Ordered st)
    (sorted : SortedItems (withContainer st family newGw items) (st.lists family).items →
      SortedItems (withContainer st family newGw items) items) :
    Ordered (withContainer st family newGw items) := by
  have same : ∀ {other : Family} {listed : Ptr}, listed ∈ (st.lists other).items →
      (withContainer st family newGw items).costOf listed = st.costOf listed := by
    intro other listed isListed
    rw [GwState.costOf, gwOf_withContainer, if_neg]
    · rfl
    · rintro rfl
      exact ok.nextPtr_not_mem isListed
  have kept : ∀ other, SortedItems (withContainer st family newGw items)
      (st.lists other).items := fun other =>
    (ordered other).imp_of_mem fun isLeft isRight le => by rwa [same isLeft, same isRight]
  intro other
  by_cases own : other = family
  · subst own
    have isList : ((withContainer st other newGw items).lists other).items = items := by
      simp [withContainer, GwState.setCurrent, GwState.setList]
    rw [isList]
    exact sorted (kept other)
  · have isList : ((withContainer st family newGw items).lists other).items =
        (st.lists other).items := by
      simp [withContainer, GwState.setCurrent, GwState.setList, own]
    rw [isList]
    exact kept other

theorem ListsOk.withContainer (ok : ListsOk st) (inTree : newGw ∈ st.gatewayTree)
    (room : olsrGwListFull (st.lists family) = false)
    (unlisted : ∀ container ∈ (st.lists family).items, st.gwOf container ≠ some newGw)
    (perm : items.Perm (st.nextPtr :: (st.lists family).items)) :
    ListsOk (withContainer st family newGw items) := by
  have mem : ∀ {other : Family} {listed : Ptr},
      listed ∈ ((Gateways.withContainer st family newGw items).lists other).items ↔
        (listed = st.nextPtr ∧ other = family) ∨ listed ∈ (st.lists other).items :=
    mem_withContainer_iff perm
  have new : ∀ {other : Family} {listed : Ptr},
      listed ∈ (st.lists other).items → listed ≠ st.nextPtr := by
    rintro other listed isListed rfl
    exact ok.nextPtr_not_mem isListed
  have longer : items.length = (st.lists family).items.length + 1 := by
    simpa using perm.length_eq
  have counted := (ok.list family).count
  simp only [olsrGwListFull, decide_eq_false_iff_not] at room
  constructor
  case list =>
    exact listOk_update ok.list
        { nodup :=
            perm.nodup_iff.mpr (nodup_cons.mpr ⟨ok.nextPtr_not_mem, (ok.list family).nodup⟩)
          count := by simp only [longer, counted]
          bounded := by simp only [longer]; omega
          positive := (ok.list family).positive }
  case live =>
    intro other listed isListed
    rcases mem.mp isListed with ⟨rfl, _⟩ | isListed
    · exact ⟨newGw, by simp [gwOf_withContainer], inTree⟩
    · rw [gwOf_withContainer, if_neg (new isListed)]
      exact ok.live other listed isListed
  case distinct =>
    intro other left isLeft right isRight same
    rw [gwOf_withContainer, gwOf_withContainer] at same
    rcases mem.mp isLeft with ⟨rfl, rfl⟩ | isLeft <;>
      rcases mem.mp isRight with ⟨rfl, isOwn⟩ | isRight
    · rfl
    · rw [if_pos rfl, if_neg (new isRight)] at same
      exact absurd same.symm (unlisted right isRight)
    · rw [if_pos rfl, if_neg (new isLeft)] at same
      exact absurd same (unlisted left (isOwn ▸ isLeft))
    · rw [if_neg (new isLeft), if_neg (new isRight)] at same
      exact ok.distinct other left isLeft right isRight same
  case disjoint =>
    intro left right listed inLeft inRight
    rcases mem.mp inLeft with ⟨rfl, rfl⟩ | oldLeft <;>
      rcases mem.mp inRight with ⟨isNew, rfl⟩ | oldRight
    · rfl
    · exact absurd rfl (new oldRight)
    · exact absurd isNew (new oldLeft)
    · exact ok.disjoint left right listed oldLeft oldRight
  case fresh =>
    intro listed beyond
    have apart : listed ≠ st.nextPtr := Nat.ne_of_gt beyond
    exact (update_of_ne apart _ _).trans (ok.fresh listed (Nat.le_of_lt beyond))
  case present => exact ok.present

theorem CurrentOk.withContainer (current : ∀ other ≠ family,
        ∀ container, st.current other = some container → container ∈ (st.lists other).items)
    (perm : items.Perm (st.nextPtr :: (st.lists family).items)) :
    CurrentOk (withContainer st family newGw items) := by
  intro other container isCur
  rw [mem_withContainer_iff perm]
  by_cases same : other = family
  · subst same
    simp [Gateways.withContainer, GwState.setCurrent] at isCur
    exact .inl ⟨isCur.symm, rfl⟩
  · simp [Gateways.withContainer, GwState.setCurrent, GwState.setList, same] at isCur
    exact .inr (current other same container isCur)

theorem chooses_withContainer (ok : ListsOk st) (flagged : Flagged st newGw)
    (perm : items.Perm (st.nextPtr :: (st.lists family).items)) :
    Chooses st (withContainer st family newGw items) := by
  refine ⟨rfl, rfl, ?_, Nat.le_succ _⟩
  rintro gw ⟨other, listed, isListed, ofGw⟩
  rw [gwOf_withContainer] at ofGw
  rcases (mem_withContainer_iff perm).mp isListed with ⟨rfl, _⟩ | isListed
  · rw [if_pos rfl] at ofGw
    cases ofGw
    exact .inr flagged
  · rw [if_neg] at ofGw
    · exact .inl ⟨other, listed, isListed, ofGw⟩
    · rintro rfl
      exact ok.nextPtr_not_mem isListed

def permuteList (st : GwState ver) (family : Family) (items : List Ptr) : GwState ver :=
  st.setList family { st.lists family with items := items }

theorem ListsOk.olsrGwListUpdate (ok : ListsOk st) (listed : container ∈ (st.lists family).items) :
    ∃ items, items.Perm (st.lists family).items ∧
      olsrGwListUpdate st family container = some (permuteList st family items) ∧
      (SortedItems st ((st.lists family).items.erase container) → SortedItems st items) := by
  obtain ⟨gw, entry, held, _, isEntry⟩ := ok.container listed
  have counted : (st.lists family).count ≠ 0 := by
    rw [(ok.list family).count]
    exact (length_pos_of_mem listed).ne'
  have room : (st.lists family).count - 1 < (st.lists family).countMax := by
    have bounded := (ok.list family).bounded
    have isCount := (ok.list family).count
    omega
  have live : ∀ other ∈ (st.lists family).items.erase container,
      ∃ otherGw held, st.containers other = some ⟨otherGw⟩ ∧ st.entries otherGw = some held := by
    intro other inList
    obtain ⟨otherGw, held, isContainer, _, isHeld⟩ := ok.container (mem_of_mem_erase inList)
    exact ⟨otherGw, held, isContainer, isHeld⟩
  obtain ⟨items, placed, perm, sorted⟩ := placeContainer_spec
      (st.setList family
        { st.lists family with
          items := (st.lists family).items.erase container
          count := (st.lists family).count - 1 })
      entry.pathCost container live
  have restored : (st.lists family).count - 1 + 1 = (st.lists family).count := by omega
  refine ⟨items, perm.trans (perm_cons_erase listed).symm, ?_, sorted (costOf_eq held isEntry)⟩
  simp only [GwState.setList] at placed
  simp [Gateways.olsrGwListUpdate, olsrGwListRemove, olsrGwListAdd,
    counted, held, isEntry, placed, permuteList, olsrGwListFull, room, restored, GwState.setList]

theorem mem_permuteList_iff (perm : items.Perm (st.lists family).items) :
    container ∈ ((permuteList st family items).lists other).items ↔
      container ∈ (st.lists other).items := by
  by_cases same : other = family
  · subst same
    simp [permuteList, GwState.setList, perm.mem_iff]
  · simp [permuteList, GwState.setList, same]

theorem ListsOk.permuteList (ok : ListsOk st) (perm : items.Perm (st.lists family).items) :
    ListsOk (permuteList st family items) := by
  have mem : ∀ {other : Family} {container : Ptr},
      container ∈ ((Gateways.permuteList st family
        items).lists other).items ↔ container ∈ (st.lists other).items :=
    mem_permuteList_iff perm
  constructor
  case list =>
    exact listOk_update ok.list
        { nodup := perm.nodup_iff.mpr (ok.list family).nodup
          count := (ok.list family).count.trans perm.length_eq.symm
          bounded := perm.length_eq.trans_le (ok.list family).bounded
          positive := (ok.list family).positive }
  case live =>
    intro other container listed
    exact ok.live other container (mem.mp listed)
  case distinct =>
    intro other left isLeft right isRight
    exact ok.distinct other left (mem.mp isLeft) right (mem.mp isRight)
  case disjoint =>
    intro left right container inLeft inRight
    exact ok.disjoint left right container (mem.mp inLeft) (mem.mp inRight)
  case fresh => exact ok.fresh
  case present => exact ok.present

theorem works_permuteList (ok : ListsOk st) (current : CurrentOk st)
    (perm : items.Perm (st.lists family).items) :
    Works st (some (permuteList st family items)) := by
  refine ⟨_, rfl, ok.permuteList perm, ?_, rfl, rfl, ?_, le_rfl⟩
  · intro other kept isCur
    exact (mem_permuteList_iff perm).mpr (current other kept isCur)
  · rintro kept ⟨other, listed, isListed, ofGw⟩
    exact .inl ⟨other, listed, (mem_permuteList_iff perm).mp isListed, ofGw⟩

/-- In order but for a gateway whose cost is new. -/
def SortedBut (st : GwState ver) (gw : Ptr) (items : List Ptr) : Prop :=
  items.Pairwise fun left right =>
    st.gwOf left ≠ some gw → st.gwOf right ≠ some gw → st.costOf left ≤ st.costOf right

theorem SortedBut.sorted {gw : Ptr} (but : SortedBut st gw items)
    (unlisted : ∀ container ∈ items, st.gwOf container ≠ some gw) : SortedItems st items :=
  but.imp_of_mem fun isLeft isRight le => le (unlisted _ isLeft) (unlisted _ isRight)

/-- The gateway is moved to where its new cost has it. -/
theorem resortGateway_spec (ok : ListsOk st) (family : Family) (gw : Ptr) :
    ∃ items, items.Perm (st.lists family).items ∧
      resortGateway family gw st = some (permuteList st family items) ∧
      (SortedBut st gw (st.lists family).items → SortedItems st items) := by
  obtain ⟨found, searched, isFound, isMissing⟩ := ok.find family gw
  cases found with
  | none =>
    exact ⟨(st.lists family).items, .refl _, by
        simp [resortGateway, searched, permuteList, GwState.setList],
        fun but => but.sorted (isMissing rfl)⟩
  | some container =>
    obtain ⟨listed, ofGw⟩ := isFound container rfl
    obtain ⟨items, perm, updated, sorted⟩ := ok.olsrGwListUpdate listed
    refine
      ⟨items, perm, by simp [resortGateway, searched, updated],
        fun but => sorted (SortedBut.sorted (but.sublist (erase_sublist ..)) ?_)⟩
    intro other mem same
    obtain ⟨apart, inList⟩ := (ok.list family).nodup.mem_erase_iff.mp mem
    exact apart (ok.distinct family other inList container listed (same.trans ofGw.symm))

end Containers

end QosOlsr.Gateways
