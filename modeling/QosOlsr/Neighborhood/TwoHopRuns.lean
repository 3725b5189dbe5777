import QosOlsr.Hashing
import QosOlsr.Neighborhood.TwoHop

/-!
# Runs of the two-hop neighbour tables

Linking and HELLO processing, and the invariant over whole runs: HELLOs,
expiries, changes of the neighbour table and of the status of neighbours, in
any order and with one fixed association of interfaces to main addresses.
-/

namespace QosOlsr.Neighborhood

open Library List Option

variable {Addr Bucket : Type} {tables : Tables Addr Bucket} {neighbor twoHop : Ptr}
  {nbr2 : Neighbor2Entry Addr Bucket} {nbr : NeighborEntry Addr Bucket}

section Linking

variable {hash : Addr → Bucket}

/-! ## Writes beside the links -/

theorem crossLinked_writeNbr {write : NeighborEntry Addr Bucket → NeighborEntry Addr Bucket}
    (cross : CrossLinked hash tables) (keepsPtr : ∀ entry, (write entry).ptr = entry.ptr)
    (keepsList : ∀ entry, (write entry).neighbor2List = entry.neighbor2List) :
    CrossLinked hash (tables.writeNbr neighbor write) := by
  have lists : twoHops (tables.writeNbr neighbor write) = twoHops tables := by
    funext other
    rw [twoHops, nbr_writeNbr keepsPtr, twoHops]
    split
    · cases tables.nbr other with
      | none => rfl
      | some nbr => simp [keepsList]
    · rfl
  refine ⟨⟨cross.toPlaced.writeNbr keepsPtr, lists ▸ cross.mirrors, ?_,
      cross.counted, cross.hashed, cross.unique⟩, cross.reached⟩
  intro other nbr' found' entry listed
  rw [nbr_writeNbr keepsPtr] at found'
  split_ifs at found'
  · obtain ⟨nbr, found, rfl⟩ := map_eq_some_iff.mp found'
    rw [keepsList] at listed
    exact cross.owned found entry listed
  · exact cross.owned found' entry listed

theorem ptr_writeWalkers (neighbor : Ptr) (write : NeighborListEntry → NeighborListEntry)
    (nbr2 : Neighbor2Entry Addr Bucket) :
    (writeWalkers neighbor write nbr2).ptr = nbr2.ptr := rfl

variable {write : NeighborListEntry → NeighborListEntry}

theorem map_writeWalkers (keeps : ∀ walker, (write walker).neighbor = walker.neighbor)
    (nbr2 : Neighbor2Entry Addr Bucket) :
    (writeWalkers neighbor write nbr2).neighbor2Nblist.map NeighborListEntry.neighbor =
      nbr2.neighbor2Nblist.map NeighborListEntry.neighbor := by
  rw [writeWalkers, List.map_map]
  apply map_congr_left
  intro walker _
  rw [Function.comp_apply]
  split
  · exact keeps walker
  · rfl

variable {other : Ptr}

theorem nbr2_writeWalkers (keeps : ∀ walker, (write walker).neighbor = walker.neighbor)
    {nbr2' : Neighbor2Entry Addr Bucket}
    (found' : (tables.writeNbr2 twoHop (writeWalkers neighbor write)).nbr2 other = some nbr2') :
    ∃ nbr2, tables.nbr2 other = some nbr2 ∧ nbr2'.neighbor2Nblist.map NeighborListEntry.neighbor =
      nbr2.neighbor2Nblist.map NeighborListEntry.neighbor ∧
      nbr2'.neighbor2Pointer = nbr2.neighbor2Pointer ∧
      nbr2'.bucket = nbr2.bucket ∧ nbr2'.neighbor2Addr = nbr2.neighbor2Addr := by
  rw [nbr2_writeNbr2 (ptr_writeWalkers neighbor write)] at found'
  split_ifs at found'
  · obtain ⟨nbr2, found, rfl⟩ := map_eq_some_iff.mp found'
    exact ⟨nbr2, found, map_writeWalkers keeps nbr2, rfl, rfl, rfl⟩
  · exact ⟨nbr2', found', rfl, rfl, rfl, rfl⟩

private theorem crossLinked_writeWalkers (cross : CrossLinked hash tables)
    (keeps : ∀ walker, (write walker).neighbor = walker.neighbor) :
    CrossLinked hash (tables.writeNbr2 twoHop (writeWalkers neighbor write)) := by
  have lists : oneHops (tables.writeNbr2 twoHop (writeWalkers neighbor write)) =
        oneHops tables := by
    funext other
    rw [oneHops, nbr2_writeNbr2 (ptr_writeWalkers neighbor write), oneHops]
    split
    · cases tables.nbr2 other with
      | none => rfl
      | some nbr2 => exact map_writeWalkers keeps nbr2
    · rfl
  refine
    ⟨⟨cross.toPlaced.writeNbr2 (ptr_writeWalkers neighbor write), ?_, cross.owned, ?_, ?_, ?_⟩, ?_⟩
  · rw [lists]
    exact cross.mirrors
  · intro other nbr2' found'
    obtain ⟨nbr2, found, list, pointer, -⟩ := nbr2_writeWalkers keeps found'
    have length := congrArg List.length list
    rw [length_map, length_map] at length
    rw [pointer, length]
    exact cross.counted found
  · intro other nbr2' found'
    obtain ⟨nbr2, found, -, -, bucket, address⟩ := nbr2_writeWalkers keeps found'
    rw [bucket, address]
    exact cross.hashed found
  · intro first second nbr2' otherNbr2' found' other' same
    obtain ⟨nbr2, found, -, -, -, address⟩ := nbr2_writeWalkers keeps found'
    obtain ⟨otherNbr2, found2, -, -, -, otherAddr⟩ := nbr2_writeWalkers keeps other'
    exact cross.unique found found2 (address.symm.trans (same.trans otherAddr))
  · intro other nbr2' found' empty
    obtain ⟨nbr2, found, list, -⟩ := nbr2_writeWalkers keeps found'
    rw [empty, map_nil] at list
    exact cross.reached found (map_eq_nil_iff.mp list.symm)

private theorem placed_queueNeighbor (placed : Placed tables) (mainAddr : Addr) :
    Placed (queueNeighbor hash mainAddr tables) where
  nbrs_nodup := by
    refine nodup_cons.mpr ⟨?_, placed.nbrs_nodup⟩
    exact find?_key_eq_none_iff.mp placed.nbr_nextPtr
  nbr2s_nodup := placed.nbr2s_nodup
  nbr_lt := by
    intro entry mem
    rcases mem_cons.mp mem with rfl | old
    · exact Nat.lt_succ_self _
    · exact Nat.lt_succ_of_lt (placed.nbr_lt entry old)
  nbr2_lt := fun entry mem => Nat.lt_succ_of_lt (placed.nbr2_lt entry mem)

theorem nbr_queueNeighbor {mainAddr : Addr} :
    (queueNeighbor hash mainAddr tables).nbr other =
      if other = tables.nextPtr then
        some ⟨tables.nextPtr, hash mainAddr, mainAddr, .notSym, 0, 0, []⟩
      else
        tables.nbr other := by
  rw [Tables.nbr, queueNeighbor, find?_cons]
  split <;> grind [Tables.nbr]

private theorem crossLinked_queueNeighbor (cross : CrossLinked hash tables) (mainAddr : Addr) :
    CrossLinked hash (queueNeighbor hash mainAddr tables) := by
  have lists : twoHops (queueNeighbor hash mainAddr tables) = twoHops tables := by
    funext other
    rw [twoHops, nbr_queueNeighbor, twoHops]
    split
    next isNew => rw [isNew, cross.toPlaced.nbr_nextPtr]; rfl
    · rfl
  refine ⟨⟨placed_queueNeighbor cross.toPlaced mainAddr, ?_, ?_, cross.counted,
      cross.hashed, cross.unique⟩, cross.reached⟩
  · rw [lists]
    exact cross.mirrors
  · intro other nbr' found' entry listed
    rw [nbr_queueNeighbor] at found'
    split_ifs at found'
    · cases found'
      cases listed
    · exact cross.owned found' entry listed

variable {neighbor2Addr : Addr}

theorem nbr2_queueTwoHop {is2hop : Bool} :
    (queueTwoHop hash neighbor2Addr is2hop tables).nbr2 other =
      if other = tables.nextPtr then
        some ⟨tables.nextPtr, hash neighbor2Addr, neighbor2Addr, 0, is2hop, []⟩
      else
        tables.nbr2 other := by
  rw [Tables.nbr2, queueTwoHop, find?_cons]
  split <;> grind [Tables.nbr2]

theorem sameNeighbors_queueTwoHop {is2hop : Bool} :
    SameNeighbors tables (queueTwoHop hash neighbor2Addr is2hop tables) :=
  ⟨rfl, rfl, rfl⟩

private theorem linked_queueTwoHop (cross : CrossLinked hash tables)
    (isNew : ∀ {twoHop nbr2}, tables.nbr2 twoHop = some nbr2 → nbr2.neighbor2Addr ≠ neighbor2Addr)
    (is2hop : Bool) : Linked hash (queueTwoHop hash neighbor2Addr is2hop tables) := by
  have lists : oneHops (queueTwoHop hash neighbor2Addr is2hop tables) = oneHops tables := by
    funext other
    rw [oneHops, nbr2_queueTwoHop, oneHops]
    split
    next isFresh => rw [isFresh, cross.toPlaced.nbr2_nextPtr]; rfl
    · rfl
  refine ⟨⟨cross.nbrs_nodup, ?_, ?_, ?_⟩, ?_, cross.owned, ?_, ?_, ?_⟩
  · refine nodup_cons.mpr ⟨?_, cross.nbr2s_nodup⟩
    exact find?_key_eq_none_iff.mp cross.toPlaced.nbr2_nextPtr
  · exact fun entry mem => Nat.lt_succ_of_lt (cross.nbr_lt entry mem)
  · intro entry mem
    rcases mem_cons.mp mem with rfl | old
    · exact Nat.lt_succ_self _
    · exact Nat.lt_succ_of_lt (cross.nbr2_lt entry old)
  · rw [lists]
    exact cross.mirrors
  · intro other nbr2' found'
    rw [nbr2_queueTwoHop] at found'
    split_ifs at found'
    · cases found'
      rfl
    · exact cross.counted found'
  · intro other nbr2' found'
    rw [nbr2_queueTwoHop] at found'
    split_ifs at found'
    · cases found'
      rfl
    · exact cross.hashed found'
  · intro first second nbr2' otherNbr2' found' other' same
    rw [nbr2_queueTwoHop] at found' other'
    split_ifs at found' other' with isFirst isSecond isSecond
    · exact isFirst.trans isSecond.symm
    · cases found'
      exact absurd same.symm (isNew other')
    · cases other'
      exact absurd same (isNew found')
    · exact cross.unique found' other' same

def addNeighbor (neighbor : Ptr) (nbr2 : Neighbor2Entry Addr Bucket) : Neighbor2Entry Addr Bucket :=
  { nbr2 with
    neighbor2Nblist := ⟨neighbor, brokenLinkcost, brokenLinkcost, brokenLinkcost⟩ ::
        nbr2.neighbor2Nblist
    neighbor2Pointer := nbr2.neighbor2Pointer + 1 }

def addTwoHop (neighbor twoHop : Ptr) (nbr : NeighborEntry Addr Bucket) :
    NeighborEntry Addr Bucket :=
  { nbr with neighbor2List := ⟨neighbor, twoHop⟩ :: nbr.neighbor2List }

theorem ptr_addNeighbor (neighbor : Ptr) (nbr2 : Neighbor2Entry Addr Bucket) :
    (addNeighbor neighbor nbr2).ptr = nbr2.ptr := rfl

theorem ptr_addTwoHop (neighbor twoHop : Ptr) (nbr : NeighborEntry Addr Bucket) :
    (addTwoHop neighbor twoHop nbr).ptr = nbr.ptr := rfl

def linkedTables (neighbor twoHop : Ptr) (tables : Tables Addr Bucket) : Tables Addr Bucket :=
  (tables.writeNbr2 twoHop (addNeighbor neighbor)).writeNbr neighbor (addTwoHop neighbor twoHop)

theorem linkingThis2Entries_eq (found : tables.nbr neighbor = some nbr)
    (found2 : tables.nbr2 twoHop = some nbr2) :
    linkingThis2Entries neighbor twoHop tables = some (linkedTables neighbor twoHop tables) := by
  rw [linkingThis2Entries, found, found2]
  rfl

theorem sameNeighbors_linkedTables : SameNeighbors tables (linkedTables neighbor twoHop tables) :=
  sameNeighbors_writeNbr2.trans (sameNeighbors_writeNbr fun _ => rfl)

theorem nbr2_linkedTables : (linkedTables neighbor twoHop tables).nbr2 other =
      if other = twoHop then (tables.nbr2 other).map (addNeighbor neighbor)
      else tables.nbr2 other := by
  rw [linkedTables, nbr2_writeNbr, nbr2_writeNbr2 (ptr_addNeighbor neighbor)]

/-- Linking two entries that are not linked keeps both sides equal. -/
theorem linked_linkedTables (linked : Linked hash tables) (found : tables.nbr neighbor = some nbr)
    (found2 : tables.nbr2 twoHop = some nbr2) (apart : twoHop ∉ twoHops tables neighbor)
    (room : nbr2.neighbor2Nblist.length < 32767) :
    Linked hash (linkedTables neighbor twoHop tables) := by
  have counted := linked.counted found2
  have old : ∀ {other nbr2'}, (linkedTables neighbor twoHop tables).nbr2 other = some nbr2' →
          ∃ before, tables.nbr2 other = some before ∧
            nbr2'.bucket = before.bucket ∧ nbr2'.neighbor2Addr = before.neighbor2Addr := by
    intro other nbr2' found'
    rw [nbr2_linkedTables] at found'
    split_ifs at found'
    · obtain ⟨before, wasFound, rfl⟩ := map_eq_some_iff.mp found'
      exact ⟨before, wasFound, rfl, rfl⟩
    · exact ⟨nbr2', found', rfl, rfl⟩
  refine ⟨(linked.toPlaced.writeNbr2 (ptr_addNeighbor neighbor)).writeNbr
      (ptr_addTwoHop neighbor twoHop), ?_, ?_, ?_, ?_, ?_⟩
  · have rights : twoHops (linkedTables neighbor twoHop tables) =
          Function.update (twoHops tables) neighbor (twoHop :: twoHops tables neighbor) := by
      rw [twoHops_of_nbr found]
      exact twoHops_writeNbr (ptr_addTwoHop neighbor twoHop) found
    have lefts : oneHops (linkedTables neighbor twoHop tables) =
          Function.update (oneHops tables) twoHop (neighbor :: oneHops tables twoHop) := by
      rw [oneHops_of_nbr2 found2]
      exact oneHops_writeNbr2 (ptr_addNeighbor neighbor) found2
    rw [rights, lefts]
    exact linked.mirrors.link apart
  · intro other nbr' found' entry listed
    rw [linkedTables, nbr_writeNbr (ptr_addTwoHop neighbor twoHop)] at found'
    split_ifs at found' with same
    · obtain ⟨before, wasFound, rfl⟩ := map_eq_some_iff.mp found'
      rcases mem_cons.mp listed with rfl | older
      · exact same.symm
      · exact linked.owned wasFound entry older
    · exact linked.owned found' entry listed
  · intro other nbr2' found'
    rw [nbr2_linkedTables] at found'
    split_ifs at found' with same
    · rw [same, found2] at found'
      cases found'
      have increased :
          (addNeighbor neighbor nbr2).neighbor2Pointer.toInt = nbr2.neighbor2Pointer.toInt + 1 :=
        toInt_add_one (by omega) (by omega)
      rw [increased, counted, addNeighbor, length_cons]
      rfl
    · exact linked.counted found'
  · intro other nbr2' found'
    obtain ⟨before, wasFound, bucket, address⟩ := old found'
    rw [bucket, address]
    exact linked.hashed wasFound
  · intro first second nbr2' otherNbr2' found' other' same
    obtain ⟨before, wasFound, -, address⟩ := old found'
    obtain ⟨otherBefore, otherFound, -, otherAddr⟩ := old other'
    exact linked.unique wasFound otherFound (address.symm.trans (same.trans otherAddr))

theorem SameNeighbors.nbr_isSome
    {before after : Tables Addr Bucket} (same : SameNeighbors before after)
    (found : (before.nbr neighbor).isSome) : (after.nbr neighbor).isSome := by
  have ptrs :
      after.neighbortable.map NeighborEntry.ptr = before.neighbortable.map NeighborEntry.ptr := by
    have firsts := congrArg (List.map Prod.fst) same.cores
    rwa [List.map_map, List.map_map] at firsts
  rw [← ne_none_iff_isSome] at found ⊢
  rw [Tables.nbr, ne_eq, find?_key_eq_none_iff] at found ⊢
  rwa [ptrs]

/-- A HELLO of this neighbour can be processed: the links are consistent and
every counter has room for the neighbour. -/
structure HelloReady (hash : Addr → Bucket) (neighbor : Ptr) (tables : Tables Addr Bucket) :
    Prop extends CrossLinked hash tables where
  known : (tables.nbr neighbor).isSome
  room : ∀ {twoHop nbr2}, tables.nbr2 twoHop = some nbr2 →
      neighbor ∉ nbr2.neighbor2Nblist.map NeighborListEntry.neighbor →
        nbr2.neighbor2Nblist.length < 32767

theorem helloReady_writeWalkers {walked : Ptr} (ready : HelloReady hash neighbor tables)
    (keeps : ∀ walker, (write walker).neighbor = walker.neighbor) :
    HelloReady hash neighbor (tables.writeNbr2 twoHop (writeWalkers walked write)) where
  toCrossLinked := crossLinked_writeWalkers ready.toCrossLinked keeps
  known := ready.known
  room := by
    intro other nbr2' found' apart
    obtain ⟨nbr2, found, list, -⟩ := nbr2_writeWalkers keeps found'
    have length := congrArg List.length list
    rw [length_map, length_map] at length
    rw [list] at apart
    rw [length]
    exact ready.room found apart

theorem helloReady_deleteTwoHop (ready : HelloReady hash neighbor tables)
    (found2 : tables.nbr2 twoHop = some nbr2) :
    ∃ after, olsrDeleteTwoHopNeighborTable twoHop tables = some after ∧
      HelloReady hash neighbor after ∧ SameNeighbors tables after := by
  obtain ⟨after, done, cross, same, others⟩ := crossLinked_deleteTwoHop ready.toCrossLinked found2
  refine ⟨after, done, ⟨cross, same.nbr_isSome ready.known, ?_⟩, same⟩
  intro other nbr2' found' apart
  rw [others] at found'
  split_ifs at found'
  exact ready.room found' apart

/-- After linking, the counter of the two-hop neighbour needs no more room for
this neighbour. -/
theorem helloReady_linkedTables (linked : Linked hash tables)
    (known : (tables.nbr neighbor).isSome) (found2 : tables.nbr2 twoHop = some nbr2)
    (apart : twoHop ∉ twoHops tables neighbor) (roomHere : nbr2.neighbor2Nblist.length < 32767)
    (others : ∀ {other otherNbr2}, other ≠ twoHop → tables.nbr2 other = some otherNbr2 →
          otherNbr2.neighbor2Nblist ≠ [] ∧
            (neighbor ∉ otherNbr2.neighbor2Nblist.map NeighborListEntry.neighbor →
              otherNbr2.neighbor2Nblist.length < 32767)) :
    ∃ after, linkingThis2Entries neighbor twoHop tables = some after ∧
      HelloReady hash neighbor after ∧ SameNeighbors tables after := by
  obtain ⟨nbr, found⟩ := isSome_iff_exists.mp known
  refine ⟨_, linkingThis2Entries_eq found found2,
      ⟨⟨linked_linkedTables linked found found2 apart roomHere, ?_⟩,
        sameNeighbors_linkedTables.nbr_isSome known, ?_⟩,
      sameNeighbors_linkedTables⟩
  · intro other nbr2' found'
    rw [nbr2_linkedTables] at found'
    split_ifs at found' with same
    · obtain ⟨before, -, rfl⟩ := map_eq_some_iff.mp found'
      exact cons_ne_nil _ _
    · exact (others same found').1
  · intro other nbr2' found' notLinked
    rw [nbr2_linkedTables] at found'
    split_ifs at found' with same
    · obtain ⟨before, -, rfl⟩ := map_eq_some_iff.mp found'
      exact absurd mem_cons_self notLinked
    · exact (others same found').2 notLinked

end Linking

section Hello

variable [DecidableEq Addr] {hash : Addr → Bucket} {address : Addr}

theorem olsrLookupMyNeighbors_of_inMemory (address : Addr) {entries : List Neighbor2ListEntry}
    (inMemory : ∀ entry ∈ entries, ∃ nbr2, tables.nbr2 entry.neighbor2 = some nbr2) :
    ∃ result, olsrLookupMyNeighbors tables address entries = some result ∧
      (result = none → ∀ entry ∈ entries, ∀ nbr2,
          tables.nbr2 entry.neighbor2 = some nbr2 → nbr2.neighbor2Addr ≠ address) := by
  induction entries with
  | nil => exact ⟨none, rfl, fun _ _ no => nomatch no⟩
  | cons entry rest ih =>
    obtain ⟨nbr2, found⟩ := inMemory entry mem_cons_self
    rw [olsrLookupMyNeighbors, found]
    simp only [bind_eq_bind, bind_some]
    split
    · exact ⟨some entry, rfl, fun no => nomatch no⟩
    next ne =>
      obtain ⟨result, done, missed⟩ := ih fun entry mem =>
          inMemory entry (mem_cons_of_mem _ mem)
      refine ⟨result, done, fun isNone other mem nbr2' found' => ?_⟩
      rcases mem_cons.mp mem with rfl | later
      · rw [found] at found'
        cases found'
        exact ne
      · exact missed isNone other later nbr2' found'

theorem CrossLinked.olsrLookupMyNeighbors_exists (cross : CrossLinked hash tables)
    (found : tables.nbr neighbor = some nbr) (address : Addr) :
    ∃ result, olsrLookupMyNeighbors tables address nbr.neighbor2List = some result ∧
        (result = none → ∀ twoHop nbr2, tables.nbr2 twoHop = some nbr2 →
            nbr2.neighbor2Addr = address → twoHop ∉ twoHops tables neighbor) := by
  obtain ⟨result, done, missed⟩ :=
    olsrLookupMyNeighbors_of_inMemory address fun entry listed => cross.nbr2_of_listed found listed
  refine ⟨result, done, fun isNone twoHop nbr2 found2 isAddr linked => ?_⟩
  rw [twoHops_of_nbr found, List.mem_map] at linked
  obtain ⟨entry, listed, rfl⟩ := linked
  exact missed isNone entry listed nbr2 found2 isAddr

variable [DecidableEq Bucket]

theorem nbr2_of_lookupTwoHop (placed : Placed tables)
    (lookup : olsrLookupTwoHopNeighborTable hash tables address = some nbr2) :
    tables.nbr2 nbr2.ptr = some nbr2 :=
  placed.nbr2_iff.mpr ⟨mem_of_find?_eq_some lookup, rfl⟩

private theorem ne_of_lookupTwoHop_eq_none (placed : Placed tables) (hashed : ∀ {twoHop nbr2},
        tables.nbr2 twoHop = some nbr2 → nbr2.bucket = hash nbr2.neighbor2Addr)
    (lookup : olsrLookupTwoHopNeighborTable hash tables address = none)
    (found2 : tables.nbr2 twoHop = some nbr2) : nbr2.neighbor2Addr ≠ address := by
  intro isAddr
  have mem := (placed.nbr2_iff.mp found2).1
  have notFound := find?_eq_none.mp lookup nbr2 mem
  rw [hashed found2, isAddr] at notFound
  simp at notFound

def IsMainAddress (mids : MidSet Addr) (address : Addr) : Prop := ∀ entry ∈ mids.midSet,
    address ∈ entry.aliases.map MidAddress.aliasAddr → entry.mainAddr = address

instance (mids : MidSet Addr) (address : Addr) : Decidable (IsMainAddress mids address) :=
  inferInstanceAs (Decidable (∀ entry ∈ mids.midSet, _))

private theorem IsMainAddress.eq_of_alias
    {mids : MidSet Addr} {mainAddr : Addr} (isMain : IsMainAddress mids address)
    (isAlias : address ∈ (midLookupAliases mids mainAddr).map MidAddress.aliasAddr) :
    mainAddr = address := by
  rw [midLookupAliases] at isAlias
  cases found : midLookupEntryBymain mids mainAddr with
  | none =>
    rw [found] at isAlias
    cases isAlias
  | some entry =>
    rw [found] at isAlias
    have queued := of_find?_key_eq_some found
    rw [← queued.2]
    exact isMain entry queued.1 isAlias

theorem address_of_lookupTwoHop (isMain : IsMainAddress tables.mids address)
    (lookup : olsrLookupTwoHopNeighborTable hash tables address = some nbr2) :
    nbr2.neighbor2Addr = address := by
  have matched := find?_some lookup
  simp only [decide_eq_true_eq] at matched
  rcases matched.2 with isAddr | isAlias
  · exact isAddr
  · exact isMain.eq_of_alias isAlias

variable {status : NeighType}

theorem isHeadStatus_of_listed (listed : IsListed status) (head : 3 ≤ status.code) :
    IsHeadStatus status := by
  rcases listed with rfl | rfl | listed
  · exact absurd head (by decide)
  · exact absurd head (by decide)
  · exact listed

variable {ctx : HelloContext Addr}

private theorem processKnownTwoHop_ready
    {yet : Neighbor2ListEntry} (ready : HelloReady hash neighbor tables) :
    ∃ after, processKnownTwoHop hash ctx neighbor status address yet tables = some after ∧
      HelloReady hash neighbor after ∧ SameNeighbors tables after := by
  rw [processKnownTwoHop]
  have reset : ∃ between,
        (if 0 < ctx.lqLevel then
          tables.writeNbr2 yet.neighbor2 <| writeWalkers neighbor fun walker =>
              { walker with pathLinkcost := brokenLinkcost }
        else
          tables) = between ∧
          HelloReady hash neighbor between ∧ SameNeighbors tables between := by
    split
    · exact ⟨_, rfl, helloReady_writeWalkers ready fun _ => rfl, sameNeighbors_writeNbr2⟩
    · exact ⟨_, rfl, ready, SameNeighbors.refl tables⟩
  obtain ⟨between, isBetween, readyMid, sameMid⟩ := reset
  simp only [isBetween, deleteLostTwoHop]
  cases lookup : olsrLookupTwoHopNeighborTable hash between address with
  | none => exact ⟨between, rfl, readyMid, sameMid⟩
  | some nbr2 =>
    simp only []
    split
    · obtain ⟨after, done, readyAfter, same⟩ :=
        helloReady_deleteTwoHop readyMid (nbr2_of_lookupTwoHop readyMid.toPlaced lookup)
      exact ⟨after, done, readyAfter, sameMid.trans same⟩
    · exact ⟨between, rfl, readyMid, sameMid⟩

private theorem processNewTwoHop_ready (ready : HelloReady hash neighbor tables)
    (listed : IsListed status) (isMain : IsHeadStatus status → IsMainAddress tables.mids address)
    (apart : ∀ twoHop nbr2, tables.nbr2 twoHop = some nbr2 →
        nbr2.neighbor2Addr = address → twoHop ∉ twoHops tables neighbor) :
    ∃ after, processNewTwoHop hash neighbor status address tables = some after ∧
      HelloReady hash neighbor after ∧ SameNeighbors tables after := by
  rw [processNewTwoHop]
  split
  · exact ⟨tables, rfl, ready, SameNeighbors.refl tables⟩
  · split
    next lookup =>
      split
      · have isNew :
            ∀ {twoHop nbr2}, tables.nbr2 twoHop = some nbr2 → nbr2.neighbor2Addr ≠ address :=
          ne_of_lookupTwoHop_eq_none ready.toPlaced ready.hashed lookup
        have unused : tables.nextPtr ∉ twoHops tables neighbor := by
          intro linked
          obtain ⟨nbr2, found2⟩ := nbr2_of_mem_oneHops (ready.mirrors.mem_iff.mp linked)
          rw [ready.toPlaced.nbr2_nextPtr] at found2
          cases found2
        obtain ⟨after, done, readyAfter, same⟩ := helloReady_linkedTables
            (linked_queueTwoHop ready.toCrossLinked isNew (status ≠ .twoHead))
            ready.known (nbr2_queueTwoHop.trans (if_pos rfl)) unused
            (Nat.zero_lt_succ _)
            fun ne found => by
              rw [nbr2_queueTwoHop, if_neg ne] at found
              exact ⟨ready.reached found, ready.room found⟩
        exact ⟨after, done, readyAfter, sameNeighbors_queueTwoHop.trans same⟩
      · exact ⟨tables, rfl, ready, SameNeighbors.refl tables⟩
    next nbr2 lookup =>
      have found2 := nbr2_of_lookupTwoHop ready.toPlaced lookup
      split
      next head =>
        have isAddr := address_of_lookupTwoHop (isMain (isHeadStatus_of_listed listed head)) lookup
        have notLinked := apart nbr2.ptr nbr2 found2 isAddr
        have notInList : neighbor ∉ nbr2.neighbor2Nblist.map NeighborListEntry.neighbor := by
          rw [← oneHops_of_nbr2 found2]
          exact fun linked => notLinked (ready.mirrors.mem_iff.mpr linked)
        exact helloReady_linkedTables ready.toLinked ready.known found2 notLinked
            (ready.room found2 notInList)
            fun _ found => ⟨ready.reached found, ready.room found⟩
      · exact helloReady_deleteTwoHop ready found2

/-- The condition on an entry of a HELLO: an entry for a head is looked up
under an address that is no alias of another one. -/
def ListsMainAddress (ctx : HelloContext Addr) (tables : Tables Addr Bucket)
    (msg : HelloNeighbor Addr) : Prop :=
  ¬ ctx.ifIfwithaddr msg.address → IsHeadStatus msg.status →
    IsMainAddress tables.mids (messageAddress ctx tables msg)

instance (ctx : HelloContext Addr) (tables : Tables Addr Bucket) (msg : HelloNeighbor Addr) :
    Decidable (ListsMainAddress ctx tables msg) :=
  inferInstanceAs (Decidable (_ → _ → _))

variable {msg : HelloNeighbor Addr}

theorem processMessageNeighbor_ready
    (ready : HelloReady hash neighbor tables) (listsMain : ListsMainAddress ctx tables msg) :
    ∃ after, processMessageNeighbor hash ctx neighbor tables msg = some after ∧
      HelloReady hash neighbor after ∧ SameNeighbors tables after := by
  rw [processMessageNeighbor]
  split
  · exact ⟨tables, rfl, ready, SameNeighbors.refl tables⟩
  next processed =>
    rw [not_or, not_not] at processed
    obtain ⟨nbr, found⟩ := isSome_iff_exists.mp ready.known
    obtain ⟨result, walked, missed⟩ :=
      ready.toCrossLinked.olsrLookupMyNeighbors_exists found (messageAddress ctx tables msg)
    simp only [found, walked, bind_eq_bind, bind_some]
    cases result with
    | none => exact processNewTwoHop_ready ready processed.2 (listsMain processed.1) (missed rfl)
    | some yet => exact processKnownTwoHop_ready ready

omit [DecidableEq Bucket] in
theorem ListsMainAddress.of_same {after : Tables Addr Bucket}
    (listsMain : ListsMainAddress ctx tables msg) (same : SameNeighbors tables after) :
    ListsMainAddress ctx after msg := by
  rw [ListsMainAddress, messageAddress, same.mids]
  exact listsMain

variable {messages : List (HelloNeighbor Addr)}

private theorem foldlM_processMessageNeighbor : ∀ {tables : Tables Addr Bucket},
      HelloReady hash neighbor tables → (∀ msg ∈ messages, ListsMainAddress ctx tables msg) →
      ∃ after, messages.foldlM (processMessageNeighbor hash ctx neighbor) tables = some after ∧
      HelloReady hash neighbor after ∧ SameNeighbors tables after := by
  induction messages with
  | nil =>
    intro tables ready _
    exact ⟨tables, rfl, ready, SameNeighbors.refl tables⟩
  | cons msg rest ih =>
    intro tables ready listsMain
    obtain ⟨next, taken, readyNext, sameNext⟩ :=
      processMessageNeighbor_ready ready (listsMain msg mem_cons_self)
    obtain ⟨after, done, readyAfter, same⟩ := ih readyNext fun later mem =>
        (listsMain later (mem_cons_of_mem _ mem)).of_same sameNext
    refine ⟨after, ?_, readyAfter, sameNext.trans same⟩
    rw [foldlM_cons, taken]
    exact done

omit [DecidableEq Bucket] in
private theorem foldlM_updatePathLinkcost {firstHopPathcost : UInt32} :
    ∀ {tables : Tables Addr Bucket}, HelloReady hash neighbor tables → ∃ after,
      messages.foldlM (updatePathLinkcost ctx neighbor firstHopPathcost) tables = some after ∧
      HelloReady hash neighbor after ∧ SameNeighbors tables after := by
  induction messages with
  | nil =>
    intro tables ready
    exact ⟨tables, rfl, ready, SameNeighbors.refl tables⟩
  | cons msg rest ih =>
    intro tables ready
    have step : ∃ next, updatePathLinkcost ctx neighbor firstHopPathcost tables
              msg = some next ∧
            HelloReady hash neighbor next ∧ SameNeighbors tables next := by
      rw [updatePathLinkcost]
      simp only []
      split
      · exact ⟨tables, rfl, ready, SameNeighbors.refl tables⟩
      · obtain ⟨nbr, found⟩ := isSome_iff_exists.mp ready.known
        obtain ⟨result, walked, -⟩ := ready.toCrossLinked.olsrLookupMyNeighbors_exists found
            (messageAddress ctx tables msg)
        simp only [found, walked, bind_eq_bind, bind_some]
        cases result with
        | none => exact ⟨tables, rfl, ready, SameNeighbors.refl tables⟩
        | some yet =>
          refine ⟨_, rfl, helloReady_writeWalkers ready ?_, sameNeighbors_writeNbr2⟩
          intro walker
          split <;> rfl
    obtain ⟨next, taken, readyNext, sameNext⟩ := step
    obtain ⟨after, done, readyAfter, same⟩ := ih readyNext
    refine ⟨after, ?_, readyAfter, sameNext.trans same⟩
    rw [foldlM_cons, taken]
    exact done

theorem processMessageNeighbors_ready (ready : HelloReady hash neighbor tables)
    (listsMain : ∀ msg ∈ messages, ListsMainAddress ctx tables msg) :
    ∃ after, processMessageNeighbors hash ctx neighbor messages tables = some after ∧
      CrossLinked hash after ∧ SameNeighbors tables after := by
  obtain ⟨via, done, readyVia, sameVia⟩ := foldlM_processMessageNeighbor ready listsMain
  let sized := via.writeNbr neighbor fun nbr => { nbr with neighborSize := messages.length }
  have sameSized : SameNeighbors via sized := sameNeighbors_writeNbr fun _ => rfl
  have readySized : HelloReady hash neighbor sized :=
    ⟨crossLinked_writeNbr readyVia.toCrossLinked (fun _ => rfl) (fun _ => rfl),
      sameSized.nbr_isSome readyVia.known, readyVia.room⟩
  simp only [processMessageNeighbors, done, bind_eq_bind, bind_some]
  split
  · split
    · obtain ⟨after, updated, readyAfter, same⟩ := foldlM_updatePathLinkcost readySized
      exact ⟨after, updated, readyAfter.toCrossLinked, sameVia.trans (sameSized.trans same)⟩
    · exact ⟨sized, rfl, readySized.toCrossLinked, sameVia.trans sameSized⟩
  · exact ⟨sized, rfl, readySized.toCrossLinked, sameVia.trans sameSized⟩

theorem updateNeighborStatus_crossLinked
    {lnk : LinkType} (cross : CrossLinked hash tables) (found : tables.nbr neighbor = some nbr) :
    ∃ after, updateNeighborStatus hash neighbor lnk tables = some after ∧
      CrossLinked hash after ∧ SameNeighbors tables after := by
  have written : ∀ (status : NeighStatus) {via : Tables Addr Bucket},
        CrossLinked hash via → SameNeighbors tables via →
        CrossLinked hash
            (via.writeNbr neighbor fun entry => { entry with status := status }) ∧
          SameNeighbors tables
            (via.writeNbr neighbor fun entry => { entry with status := status }) :=
    fun status via crossVia sameVia =>
      ⟨crossLinked_writeNbr crossVia (fun _ => rfl) (fun _ => rfl),
        sameVia.trans (sameNeighbors_writeNbr fun _ => rfl)⟩
  simp only [updateNeighborStatus, found, bind_eq_bind, bind_some]
  split
  · split
    · cases lookup : olsrLookupTwoHopNeighborTable hash tables nbr.neighborMainAddr with
      | none => exact ⟨_, rfl, written .sym cross (SameNeighbors.refl tables)⟩
      | some nbr2 =>
        obtain ⟨via, done, crossVia, sameVia, -⟩ :=
          crossLinked_deleteTwoHop cross (nbr2_of_lookupTwoHop cross.toPlaced lookup)
        simp only [done, bind_some]
        exact ⟨_, rfl, written .sym crossVia sameVia⟩
    · exact ⟨_, rfl, written .sym cross (SameNeighbors.refl tables)⟩
  · exact ⟨_, rfl, written .notSym cross (SameNeighbors.refl tables)⟩

end Hello

section Runs

variable [DecidableEq Addr] [DecidableEq Bucket]

inductive TwoHopEvent (Addr : Type) where
  | processMessageNeighbors
      (ctx : HelloContext Addr) (neighbor : Ptr)
      (neighbors : List (HelloNeighbor Addr))
  | expireNbr2List (neighbor : Ptr) (index : Nat)
  | deleteTwoHop (twoHop : Ptr)
  | updateNeighborStatus (neighbor : Ptr) (lnk : LinkType)
  | insertNeighbor (mainAddr : Addr)
  | deleteNeighbor (neighborAddr : Addr)

omit [DecidableEq Addr] [DecidableEq Bucket] in
def canOccur (tables : Tables Addr Bucket) : TwoHopEvent Addr → Bool
  | .processMessageNeighbors _ neighbor _ => (tables.nbr neighbor).isSome
  | .expireNbr2List neighbor index =>
    (tables.nbr neighbor).any fun nbr => index < nbr.neighbor2List.length
  | .deleteTwoHop twoHop => (tables.nbr2 twoHop).isSome
  | .updateNeighborStatus neighbor _ => (tables.nbr neighbor).isSome
  | .insertNeighbor _ => true
  | .deleteNeighbor _ => true

def handleTwoHopEvent (hash : Addr → Bucket) (tables : Tables Addr Bucket) :
    TwoHopEvent Addr → Option (Tables Addr Bucket)
  | .processMessageNeighbors ctx neighbor neighbors =>
    processMessageNeighbors hash ctx neighbor neighbors tables
  | .expireNbr2List neighbor index => olsrExpireNbr2List neighbor index tables
  | .deleteTwoHop twoHop => olsrDeleteTwoHopNeighborTable twoHop tables
  | .updateNeighborStatus neighbor lnk => updateNeighborStatus hash neighbor lnk tables
  | .insertNeighbor mainAddr => some (olsrInsertNeighborTable hash mainAddr tables).1
  | .deleteNeighbor neighborAddr => olsrDeleteNeighborTable hash neighborAddr tables

/-- One event; it has no result if it follows a pointer to a freed entry. -/
def twoHopStep (hash : Addr → Bucket) (tables : Tables Addr Bucket)
    (event : TwoHopEvent Addr) : Option (Tables Addr Bucket) :=
  if canOccur tables event then
    handleTwoHopEvent hash tables event
  else
    some tables

/-- A HELLO lists no head under an alias of another address, and no counter is
at its limit. -/
def LinksCleanly (tables : Tables Addr Bucket) : TwoHopEvent Addr → Prop
  | .processMessageNeighbors ctx _ neighbors =>
    (∀ msg ∈ neighbors, ListsMainAddress ctx tables msg) ∧
      ∀ nbr2 ∈ tables.twoHopNeighbortable, nbr2.neighbor2Nblist.length < 32767
  | _ => True

instance (tables : Tables Addr Bucket) (event : TwoHopEvent Addr) :
    Decidable (LinksCleanly tables event) :=
  match event with
  | .processMessageNeighbors .. => instDecidableAnd
  | .expireNbr2List .. => isTrue trivial
  | .deleteTwoHop .. => isTrue trivial
  | .updateNeighborStatus .. => isTrue trivial
  | .insertNeighbor .. => isTrue trivial
  | .deleteNeighbor .. => isTrue trivial

variable {hash : Addr → Bucket}

theorem crossLinked_insertNeighborTable (cross : CrossLinked hash tables) (mainAddr : Addr) :
    CrossLinked hash (olsrInsertNeighborTable hash mainAddr tables).1 := by
  rw [olsrInsertNeighborTable]
  split
  · exact cross
  · exact crossLinked_queueNeighbor cross mainAddr

theorem crossLinked_twoHopStep {event : TwoHopEvent Addr} (cross : CrossLinked hash tables)
    (cleanly : LinksCleanly tables event) :
    ∃ after, twoHopStep hash tables event = some after ∧ CrossLinked hash after := by
  rw [twoHopStep]
  split
  next possible =>
    cases event with
    | processMessageNeighbors ctx neighbor neighbors =>
      have ready : HelloReady hash neighbor tables :=
        ⟨cross, possible, fun found2 _ => cleanly.2 _ (cross.toPlaced.nbr2_iff.mp found2).1⟩
      obtain ⟨after, done, kept, -⟩ := processMessageNeighbors_ready ready cleanly.1
      exact ⟨after, done, kept⟩
    | expireNbr2List neighbor index =>
      cases found : tables.nbr neighbor with
      | none => simp [canOccur, found] at possible
      | some nbr =>
        have inside : index < nbr.neighbor2List.length := by simpa [canOccur, found] using possible
        obtain ⟨after, done, kept, -⟩ := crossLinked_expireNbr2List cross found inside
        exact ⟨after, done, kept⟩
    | deleteTwoHop twoHop =>
      obtain ⟨nbr2, found2⟩ := isSome_iff_exists.mp possible
      obtain ⟨after, done, kept, -⟩ := crossLinked_deleteTwoHop cross found2
      exact ⟨after, done, kept⟩
    | updateNeighborStatus neighbor lnk =>
      obtain ⟨nbr, found⟩ := isSome_iff_exists.mp possible
      obtain ⟨after, done, kept, -⟩ := updateNeighborStatus_crossLinked cross found
      exact ⟨after, done, kept⟩
    | insertNeighbor mainAddr => exact ⟨_, rfl, crossLinked_insertNeighborTable cross mainAddr⟩
    | deleteNeighbor nbrAddr =>
      obtain ⟨after, done, kept, -⟩ := crossLinked_deleteNeighborTable cross nbrAddr
      exact ⟨after, done, kept⟩
  · exact ⟨tables, rfl, cross⟩

omit [DecidableEq Addr] [DecidableEq Bucket] in
theorem crossLinked_init (mids : MidSet Addr) : CrossLinked hash
      ({ Tables.init Addr Bucket with mids := mids }) := by
  refine ⟨⟨⟨nodup_nil, nodup_nil, ?_, ?_⟩, ⟨?_, ?_, ?_⟩, ?_, ?_, ?_, ?_⟩, ?_⟩
  · exact fun _ no => nomatch no
  · exact fun _ no => nomatch no
  · exact fun {_ _} => ⟨(nomatch ·), (nomatch ·)⟩
  · exact fun _ => nodup_nil
  · exact fun _ => nodup_nil
  · exact fun no => nomatch no
  · exact fun no => nomatch no
  · exact fun no => nomatch no
  · exact fun no => nomatch no
  · exact fun no => nomatch no

/-- The links are stored once on each side, between entries of the two tables,
and counted; every two-hop neighbour is reached and has its own address. -/
structure LinksAgree (tables : Tables Addr Bucket) : Prop where
  once_iff : ∀ nbr ∈ tables.neighbortable, ∀ nbr2 ∈ tables.twoHopNeighbortable,
      (nbr.neighbor2List.map Neighbor2ListEntry.neighbor2).count nbr2.ptr = 1 ↔
        (nbr2.neighbor2Nblist.map NeighborListEntry.neighbor).count nbr.ptr = 1
  twoHops_once :
    ∀ nbr ∈ tables.neighbortable, (nbr.neighbor2List.map Neighbor2ListEntry.neighbor2).Nodup
  twoHops_queued : ∀ nbr ∈ tables.neighbortable, ∀ entry ∈ nbr.neighbor2List,
      ∃ nbr2 ∈ tables.twoHopNeighbortable, nbr2.ptr = entry.neighbor2
  oneHops_once :
    ∀ nbr2 ∈ tables.twoHopNeighbortable, (nbr2.neighbor2Nblist.map NeighborListEntry.neighbor).Nodup
  oneHops_queued : ∀ nbr2 ∈ tables.twoHopNeighbortable, ∀ entry ∈ nbr2.neighbor2Nblist,
      ∃ nbr ∈ tables.neighbortable, nbr.ptr = entry.neighbor
  counted : ∀ nbr2 ∈ tables.twoHopNeighbortable,
      nbr2.neighbor2Pointer.toInt = nbr2.neighbor2Nblist.length ∧ 1 ≤ nbr2.neighbor2Pointer.toInt
  addresses_once : (tables.twoHopNeighbortable.map Neighbor2Entry.neighbor2Addr).Nodup

omit [DecidableEq Addr] [DecidableEq Bucket] in
theorem CrossLinked.linksAgree (cross : CrossLinked hash tables) : LinksAgree tables := by
  have nbrOf : ∀ nbr ∈ tables.neighbortable, tables.nbr nbr.ptr = some nbr :=
    fun nbr mem => cross.toPlaced.nbr_iff.mpr ⟨mem, rfl⟩
  have nbr2Of : ∀ nbr2 ∈ tables.twoHopNeighbortable, tables.nbr2 nbr2.ptr = some nbr2 :=
    fun nbr2 mem => cross.toPlaced.nbr2_iff.mpr ⟨mem, rfl⟩
  refine ⟨?_, ?_, ?_, ?_, ?_, ?_, ?_⟩
  · intro nbr mem nbr2 member2
    rw [← twoHops_of_nbr (nbrOf nbr mem), ← oneHops_of_nbr2 (nbr2Of nbr2 member2),
      (cross.mirrors.rights_nodup nbr.ptr).count,
      (cross.mirrors.lefts_nodup nbr2.ptr).count]
    simp [cross.mirrors.mem_iff]
  · intro nbr mem
    rw [← twoHops_of_nbr (nbrOf nbr mem)]
    exact cross.mirrors.rights_nodup nbr.ptr
  · intro nbr mem entry listed
    obtain ⟨nbr2, found2⟩ := cross.nbr2_of_listed (nbrOf nbr mem) listed
    exact ⟨nbr2, cross.toPlaced.nbr2_iff.mp found2⟩
  · intro nbr2 member2
    rw [← oneHops_of_nbr2 (nbr2Of nbr2 member2)]
    exact cross.mirrors.lefts_nodup nbr2.ptr
  · intro nbr2 member2 entry listed
    have linked : entry.neighbor ∈ oneHops tables nbr2.ptr := by
      rw [oneHops_of_nbr2 (nbr2Of nbr2 member2)]
      exact mem_map_of_mem listed
    obtain ⟨nbr, found⟩ := nbr_of_mem_twoHops (cross.mirrors.mem_iff.mpr linked)
    exact ⟨nbr, cross.toPlaced.nbr_iff.mp found⟩
  · intro nbr2 member2
    have found2 := nbr2Of nbr2 member2
    have reached := length_pos_of_ne_nil (cross.reached found2)
    have counted := cross.counted found2
    exact ⟨counted, by omega⟩
  · apply List.Nodup.map_on _ (List.Nodup.of_map _ cross.nbr2s_nodup)
    intro nbr2 member2 other otherMem same
    have samePtr := cross.unique (nbr2Of nbr2 member2) (nbr2Of other otherMem) same
    exact inj_on_of_nodup_map cross.nbr2s_nodup member2 otherMem samePtr

/-- In every run whose HELLOs list heads under main addresses, with any
association of interfaces, no freed entry is used and the links agree. -/
theorem linksAgree_of_linksCleanly
    (hash : Addr → Bucket) (mids : MidSet Addr) (events : List (TwoHopEvent Addr))
    (cleanly : RunMeets (twoHopStep hash) LinksCleanly
        { Tables.init Addr Bucket with mids := mids } events) :
    ∃ final, runEvents (twoHopStep hash)
          { Tables.init Addr Bucket with mids := mids } events =
          some final ∧
        LinksAgree final := by
  obtain ⟨final, finished, cross⟩ :=
    runEvents_exists_of_meets crossLinked_twoHopStep (crossLinked_init mids) cleanly
  exact ⟨final, finished, cross.linksAgree⟩

end Runs

def hostAddr (host : UInt8) : IpAddr .inet := .v4 10 0 0 host

def plainHello : HelloContext (IpAddr .inet) := ⟨fun _ => false, 2, none, fun _ => 0⟩

def headEntry (host : UInt8) : HelloNeighbor (IpAddr .inet) := ⟨.nhead, .sym, hostAddr host, []⟩

/-- A neighbour joins and lists a head, twice. -/
theorem linksAgree_of_linksCleanly_head_listed_twice : ∃ final, runEvents (twoHopStep olsrIpHashing)
          { Tables.init (IpAddr .inet) UInt32 with
            mids := MidSet.init (IpAddr .inet) }
          [.insertNeighbor (hostAddr 1), .processMessageNeighbors plainHello 0 [headEntry 8],
            .processMessageNeighbors plainHello 0 [headEntry 8]] =
          some final ∧
        LinksAgree final := by
  apply linksAgree_of_linksCleanly
  decide +kernel

/-- What two association messages leave: 10.0.0.8 announces 10.0.0.6, and
10.0.0.6 announces 10.0.0.7. -/
def chainedMids : MidSet (IpAddr .inet) :=
  let ctx : MidContext (IpAddr .inet) := ⟨0, fun _ => true, fun _ => false⟩
  let first := olsrInputMid ctx true ⟨9, hostAddr 8, [hostAddr 6]⟩ ⟨MidSet.init _, []⟩
  (olsrInputMid ctx true ⟨9, hostAddr 6, [hostAddr 7]⟩ first).mids

/-- The neighbour lists the heads 10.0.0.8 and 10.0.0.7.  The second one is
looked up as 10.0.0.6, which is in the bucket of 10.0.0.8 and its alias: the
two-hop neighbour is linked to the same neighbour a second time. -/
theorem processMessageNeighbors_links_twice : ∃ final, runEvents (twoHopStep olsrIpHashing)
          { Tables.init (IpAddr .inet) UInt32 with mids := chainedMids }
          [.insertNeighbor (hostAddr 1),
            .processMessageNeighbors plainHello 0 [headEntry 8, headEntry 7]] = some final ∧
        ¬ LinksAgree final := by
  have twice :
      (runEvents (twoHopStep olsrIpHashing)
          { Tables.init (IpAddr .inet) UInt32 with mids := chainedMids }
          [.insertNeighbor (hostAddr 1),
            .processMessageNeighbors plainHello 0 [headEntry 8, headEntry 7]]).any
        (fun final => final.neighbortable.any fun nbr =>
          ¬ (nbr.neighbor2List.map Neighbor2ListEntry.neighbor2).Nodup) := by
    decide +kernel
  obtain ⟨final, finished, repeats⟩ := (Option.any_eq_true _ _).mp twice
  rw [List.any_eq_true] at repeats
  obtain ⟨nbr, member, repeated⟩ := repeats
  refine ⟨final, finished, fun agree => ?_⟩
  exact absurd (agree.twoHops_once nbr member) (by simpa using repeated)

end QosOlsr.Neighborhood
