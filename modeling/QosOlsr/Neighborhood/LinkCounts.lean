import QosOlsr.Neighborhood.Keys

/-!
# Counting the links of a neighbour

`linkcount` says how many links lead to a neighbour; the last one to go takes
the neighbour with it.  The functions of `mid_set.c` that replace a neighbour
redirect links without counting them.
-/

namespace QosOlsr.Neighborhood

open Library List

section Counts

variable {Addr Bucket : Type} {tables after : Tables Addr Bucket} {hash : Addr → Bucket}

def linksTo (tables : Tables Addr Bucket) (ptr : Ptr) : Nat :=
  (tables.linkSet.map LinkEntry.neighbor).count ptr

/-- Every link leads to a neighbour, and every neighbour counts its links. -/
structure Counted (tables : Tables Addr Bucket) : Prop where
  attached : ∀ link ∈ tables.linkSet, ∃ nbr, tables.nbr link.neighbor = some nbr
  counts : ∀ {ptr nbr}, tables.nbr ptr = some nbr → nbr.linkcount = linksTo tables ptr

theorem SameNeighbors.map_nbr (same : SameNeighbors tables after) (ptr : Ptr) :
    (after.nbr ptr).map NeighborEntry.core = (tables.nbr ptr).map NeighborEntry.core := by
  have searched : ∀ entries : List (NeighborEntry Addr Bucket),
        (entries.find? fun entry => entry.ptr = ptr).map NeighborEntry.core =
          (entries.map NeighborEntry.core).find? fun core => core.1 = ptr := by
    intro entries
    rw [find?_map]
    rfl
  rw [Tables.nbr, Tables.nbr, searched, searched, same.cores]

variable {ptr : Ptr} {nbr : NeighborEntry Addr Bucket}

private theorem SameNeighbors.nbr_eq_some (same : SameNeighbors tables after)
    (found : after.nbr ptr = some nbr) :
    ∃ before, tables.nbr ptr = some before ∧ before.core = nbr.core := by
  have core := same.map_nbr ptr
  rw [found, Option.map_some] at core
  exact Option.map_eq_some_iff.mp core.symm

theorem Counted.of_same (counted : Counted tables) (same : SameNeighbors tables after) :
    Counted after where
  attached := by
    intro link mem
    rw [same.linkSet] at mem
    obtain ⟨nbr, found⟩ := counted.attached link mem
    have core := same.map_nbr link.neighbor
    rw [found, Option.map_some] at core
    obtain ⟨nbr', found', -⟩ := Option.map_eq_some_iff.mp core
    exact ⟨nbr', found'⟩
  counts := by
    intro ptr nbr found
    obtain ⟨before, wasFound, core⟩ := same.nbr_eq_some found
    have counts := counted.counts wasFound
    simp only [NeighborEntry.core, Prod.mk.injEq] at core
    rw [← core.2.2.2, counts, linksTo, linksTo, same.linkSet]

/-- The consistency of the two-hop links does not depend on the links and the
association set. -/
theorem CrossLinked.of_tables
    (cross : CrossLinked hash tables) (nbrs : after.neighbortable = tables.neighbortable)
    (nbr2s : after.twoHopNeighbortable = tables.twoHopNeighbortable)
    (next : after.nextPtr = tables.nextPtr) : CrossLinked hash after := by
  obtain ⟨nbrs', nbr2s', links', mids', next'⟩ := after
  obtain rfl : nbrs' = _ := nbrs
  obtain rfl : nbr2s' = _ := nbr2s
  obtain rfl : next' = _ := next
  exact ⟨⟨⟨cross.nbrs_nodup, cross.nbr2s_nodup, cross.nbr_lt, cross.nbr2_lt⟩,
      cross.mirrors, cross.owned, cross.counted, cross.hashed,
      cross.unique⟩, cross.reached⟩

private theorem Counted.linksTo_eq_zero (counted : Counted tables) (free : tables.nbr ptr = none) :
    linksTo tables ptr = 0 := by
  rw [linksTo, List.count_eq_zero, List.mem_map]
  rintro ⟨link, mem, rfl⟩
  obtain ⟨nbr, found⟩ := counted.attached link mem
  rw [free] at found
  cases found

private theorem counted_queueNeighbor (counted : Counted tables)
    (placed : Placed tables) (mainAddr : Addr) : Counted (queueNeighbor hash mainAddr tables) where
  attached := by
    intro link mem
    obtain ⟨nbr, found⟩ := counted.attached link mem
    rw [nbr_queueNeighbor]
    split
    · exact ⟨_, rfl⟩
    · exact ⟨nbr, found⟩
  counts := by
    intro ptr nbr found
    have unused := counted.linksTo_eq_zero placed.nbr_nextPtr
    rw [nbr_queueNeighbor] at found
    split_ifs at found with isNew
    · cases found
      rw [isNew]
      exact (congrArg Nat.cast unused).symm
    · exact counted.counts found

private theorem counted_freeNbr (counted : Counted tables) (placed : Placed tables)
    (unused : linksTo tables ptr = 0) : Counted (tables.freeNbr ptr) where
  attached := by
    intro link mem
    have ne : link.neighbor ≠ ptr := by
      rintro rfl
      rw [linksTo, List.count_eq_zero] at unused
      exact unused (mem_map_of_mem mem)
    rw [placed.nbr_freeNbr, if_neg ne]
    exact counted.attached link mem
  counts := by
    intro other nbr found
    rw [placed.nbr_freeNbr] at found
    split_ifs at found
    exact counted.counts found

/-! ## Creating and deleting links -/

private theorem counted_queueLinkEntry (counted : Counted tables) {neighbor : Ptr}
    (found : tables.nbr neighbor = some nbr) (remote : Addr) (localIf : Interface Addr) :
    Counted (queueLinkEntry remote localIf neighbor tables) := by
  have lookup : ∀ other, (queueLinkEntry remote localIf neighbor tables).nbr other =
        if other = neighbor then
          (tables.nbr other).map fun nbr => { nbr with linkcount := nbr.linkcount + 1 }
        else
          tables.nbr other := by
    intro other
    apply find?_modifyKey
    exact fun _ => rfl
  have links : ∀ other, linksTo (queueLinkEntry remote localIf neighbor tables) other =
        linksTo tables other + if neighbor = other then 1 else 0 := by
    intro other
    simp only [linksTo, queueLinkEntry, map_append, count_append,
      map_cons, map_nil, count_singleton, beq_iff_eq]
  refine ⟨?_, ?_⟩
  · intro link mem
    rw [lookup]
    rcases mem_append.mp mem with old | isNew
    · obtain ⟨nbr', found'⟩ := counted.attached link old
      rw [found']
      split
      · exact ⟨_, rfl⟩
      · exact ⟨_, rfl⟩
    · rw [mem_singleton.mp isNew, if_pos rfl, found]
      exact ⟨_, rfl⟩
  · intro other nbr' found'
    rw [lookup] at found'
    rw [links]
    split_ifs at found' with same
    · obtain ⟨before, wasFound, rfl⟩ := Option.map_eq_some_iff.mp found'
      have counts := counted.counts wasFound
      rw [if_pos same.symm]
      simp only [counts]
      push_cast
      rfl
    · rw [if_neg fun equal => same equal.symm]
      exact counted.counts found'

variable {link : LinkEntry Addr} {index : Nat}

theorem linksTo_eraseIdx {links : List (LinkEntry Addr)}
    (listed : links[index]? = some link) (ptr : Ptr) :
    (links.map LinkEntry.neighbor).count ptr =
      ((links.eraseIdx index).map LinkEntry.neighbor).count ptr +
        if link.neighbor = ptr then 1 else 0 := by
  obtain ⟨inside, isLink⟩ := List.getElem?_eq_some_iff.mp listed
  have perm := getElem_cons_eraseIdx_perm inside
  rw [← (perm.map LinkEntry.neighbor).count_eq ptr, map_cons, count_cons, isLink]
  simp only [beq_iff_eq]

/-- One link less, and one less in the count of its neighbour. -/
theorem counted_dropLink (counted : Counted tables) (listed : tables.linkSet[index]? = some link) :
    Counted
      { tables.writeNbr link.neighbor (fun nbr => { nbr with linkcount := nbr.linkcount - 1 }) with
        linkSet := tables.linkSet.eraseIdx index } := by
  have lookup : ∀ other,
        (tables.writeNbr link.neighbor fun nbr =>
            { nbr with linkcount := nbr.linkcount - 1 }).nbr other =
          if other = link.neighbor then
            (tables.nbr other).map fun nbr => { nbr with linkcount := nbr.linkcount - 1 }
          else
            tables.nbr other := by
    intro other
    apply nbr_writeNbr
    exact fun _ => rfl
  refine ⟨?_, ?_⟩
  · intro other mem
    obtain ⟨nbr, found⟩ := counted.attached other (mem_of_mem_eraseIdx mem)
    change ∃ nbr, (tables.writeNbr _ _).nbr other.neighbor = some nbr
    rw [lookup, found]
    split
    · exact ⟨_, rfl⟩
    · exact ⟨_, rfl⟩
  · intro other nbr' found'
    change (tables.writeNbr _ _).nbr other = some nbr' at found'
    have fewer := linksTo_eraseIdx listed other
    rw [lookup] at found'
    split_ifs at found' with same
    · obtain ⟨before, wasFound, rfl⟩ := Option.map_eq_some_iff.mp found'
      have counts := counted.counts wasFound
      rw [if_pos same.symm] at fewer
      rw [linksTo, fewer] at counts
      simp only [counts, linksTo]
      push_cast
      ring
    · rw [if_neg fun equal => same equal.symm, Nat.add_zero] at fewer
      have counts := counted.counts found'
      rw [linksTo, fewer] at counts
      exact counts

private theorem counted_dropLastLink (counted : Counted tables) (placed : Placed tables)
    (listed : tables.linkSet[index]? = some link) (found : tables.nbr link.neighbor = some nbr)
    (isLast : nbr.linkcount = 1) :
    Counted
      { tables.freeNbr link.neighbor with
        linkSet := tables.linkSet.eraseIdx index } := by
  have fewer := linksTo_eraseIdx listed
  have none : ((tables.linkSet.eraseIdx index).map LinkEntry.neighbor).count link.neighbor = 0 := by
    have counts := counted.counts found
    have here := fewer link.neighbor
    rw [if_pos rfl] at here
    rw [linksTo] at counts
    omega
  refine ⟨?_, ?_⟩
  · intro other mem
    have ne : other.neighbor ≠ link.neighbor := by
      intro same
      exact List.count_eq_zero.mp none (same ▸ mem_map_of_mem mem)
    obtain ⟨nbr', found'⟩ := counted.attached other (mem_of_mem_eraseIdx mem)
    refine ⟨nbr', ?_⟩
    change (tables.freeNbr link.neighbor).nbr other.neighbor = _
    rw [placed.nbr_freeNbr, if_neg ne]
    exact found'
  · intro other nbr' found'
    change (tables.freeNbr link.neighbor).nbr other = some nbr' at found'
    rw [placed.nbr_freeNbr] at found'
    split_ifs at found' with same
    have here := fewer other
    rw [if_neg fun equal => same equal.symm, Nat.add_zero] at here
    have counts := counted.counts found'
    rw [linksTo, here] at counts
    exact counts

def renamed (hash : Addr → Bucket) (newMainAddr : Addr)
    (entry : NeighborEntry Addr Bucket) : NeighborEntry Addr Bucket :=
  { entry with
    neighborMainAddr := newMainAddr
    bucket := hash newMainAddr }

def renamedTables (hash : Addr → Bucket) (entry : NeighborEntry Addr Bucket) (newMainAddr : Addr)
    (tables : Tables Addr Bucket) : Tables Addr Bucket :=
  { tables with
    neighbortable := renamed hash newMainAddr entry ::
        (tables.freeNbr entry.ptr).neighbortable }

variable {entry : NeighborEntry Addr Bucket}

private theorem olsrUpdateNeighborMainAddr_eq
    (placed : Placed tables) (found : tables.nbr ptr = some entry)
    (newMainAddr : Addr) : olsrUpdateNeighborMainAddr hash ptr newMainAddr tables =
      some (renamedTables hash entry newMainAddr tables) := by
  rw [olsrUpdateNeighborMainAddr, found, ← (placed.nbr_iff.mp found).2]
  rfl

theorem nbr_renamedTables (placed : Placed tables) {newMainAddr : Addr} {other : Ptr} :
    (renamedTables hash entry newMainAddr tables).nbr other =
      if other = entry.ptr then
        some (renamed hash newMainAddr entry)
      else
        tables.nbr other := by
  by_cases same : other = entry.ptr
  · rw [if_pos same, Tables.nbr, renamedTables, find?_cons_of_pos]
    simp [renamed, same]
  · rw [if_neg same, Tables.nbr, renamedTables, find?_cons_of_neg]
    · exact placed.nbr_freeNbr.trans (if_neg same)
    · exact fun equal => same (of_decide_eq_true equal).symm

private theorem placed_renamedTables (placed : Placed tables) (found : tables.nbr ptr = some entry)
    (newMainAddr : Addr) : Placed (renamedTables hash entry newMainAddr tables) where
  nbrs_nodup := by
    refine nodup_cons.mpr ⟨?_, (placed.freeNbr entry.ptr).nbrs_nodup⟩
    intro present
    obtain ⟨other, mem, same⟩ := List.mem_map.mp present
    exact ((mem_eraseP_key_iff placed.nbrs_nodup).mp mem).2 same
  nbr2s_nodup := placed.nbr2s_nodup
  nbr_lt := by
    intro other mem
    rcases mem_cons.mp mem with rfl | old
    · exact placed.nbr_lt entry (placed.nbr_iff.mp found).1
    · exact placed.nbr_lt other (mem_of_mem_eraseP old)
  nbr2_lt := placed.nbr2_lt

private theorem crossLinked_renamedTables (cross : CrossLinked hash tables)
    (found : tables.nbr ptr = some entry) (newMainAddr : Addr) :
    CrossLinked hash (renamedTables hash entry newMainAddr tables) := by
  have isPtr := (cross.toPlaced.nbr_iff.mp found).2
  have lists : twoHops (renamedTables hash entry newMainAddr tables) = twoHops tables := by
    funext other
    rw [twoHops, nbr_renamedTables cross.toPlaced, twoHops]
    split
    next same =>
      rw [same, isPtr, found]
      rfl
    · rfl
  refine ⟨⟨placed_renamedTables cross.toPlaced found newMainAddr, ?_, ?_,
      cross.counted, cross.hashed, cross.unique⟩, cross.reached⟩
  · rw [lists]
    exact cross.mirrors
  · intro other nbr' found' listed
    rw [nbr_renamedTables cross.toPlaced] at found'
    split_ifs at found' with same
    · cases found'
      rw [same, isPtr]
      exact cross.owned found listed
    · exact cross.owned found' listed

private theorem counted_renamedTables (counted : Counted tables) (placed : Placed tables)
    (found : tables.nbr ptr = some entry) (newMainAddr : Addr) :
    Counted (renamedTables hash entry newMainAddr tables) := by
  have isPtr := (placed.nbr_iff.mp found).2
  refine ⟨?_, ?_⟩
  · intro link mem
    rw [nbr_renamedTables placed]
    split
    · exact ⟨_, rfl⟩
    · exact counted.attached link mem
  · intro other nbr' found'
    rw [nbr_renamedTables placed] at found'
    split_ifs at found' with same
    · cases found'
      have counts := counted.counts found
      rw [same, isPtr]
      exact counts
    · exact counted.counts found'

end Counts

structure Settled {Addr Bucket : Type} (hash : Addr → Bucket) (tables : Tables Addr Bucket) : Prop
    extends CrossLinked hash tables, Counted tables

section Steps

variable {Addr Bucket : Type} {tables : Tables Addr Bucket}
  {hash : Addr → Bucket} {after : Tables Addr Bucket}

theorem Settled.of_same (settled : Settled hash tables)
    (cross : CrossLinked hash after) (same : SameNeighbors tables after) : Settled hash after :=
  ⟨cross, settled.toCounted.of_same same⟩

variable [DecidableEq Addr]

theorem settled_lookupLinkEntry (settled : Settled hash tables)
    (remote : Addr) (remoteMain : Option Addr) (localIf : Interface Addr) : ∃ after,
      lookupLinkEntry hash remote remoteMain localIf tables = some after ∧ Settled hash after := by
  unfold lookupLinkEntry
  split
  next link mainAddr found =>
    obtain ⟨nbr, foundNbr⟩ := settled.attached link (mem_of_find?_eq_some found)
    simp only [foundNbr, Option.bind_eq_bind, Option.bind_some]
    split
    · exact ⟨_, olsrUpdateNeighborMainAddr_eq settled.toPlaced foundNbr mainAddr,
          crossLinked_renamedTables settled.toCrossLinked foundNbr mainAddr,
          counted_renamedTables settled.toCounted settled.toPlaced foundNbr mainAddr⟩
    · exact ⟨tables, rfl, settled⟩
  · exact ⟨tables, rfl, settled⟩

variable [DecidableEq Bucket]

theorem counted_insertNeighborTable (settled : Settled hash tables) (mainAddr : Addr) :
    Counted (olsrInsertNeighborTable hash mainAddr tables).1 := by
  rw [olsrInsertNeighborTable]
  split
  · exact settled.toCounted
  · exact counted_queueNeighbor settled.toCounted settled.toPlaced mainAddr

private theorem counted_withoutNeighbor (settled : Settled hash tables) {nbrAddr : Addr}
    (unused : (olsrLookupNeighborTableAlias hash tables nbrAddr).all fun nbr => nbr.linkcount = 0) :
    Counted (withoutNeighbor hash nbrAddr tables) := by
  rw [withoutNeighbor]
  split
  · exact settled.toCounted
  next nbr lookup =>
    have counts := settled.counts (nbr_of_lookup settled.toPlaced lookup)
    rw [lookup, Option.all_some, decide_eq_true_eq] at unused
    rw [unused] at counts
    exact counted_freeNbr settled.toCounted settled.toPlaced (by exact_mod_cast counts.symm)

omit [DecidableEq Addr] [DecidableEq Bucket] in
private theorem settled_queueLinkEntry (settled : Settled hash tables) {neighbor : Ptr}
    {nbr : NeighborEntry Addr Bucket} (found : tables.nbr neighbor = some nbr) (remote : Addr)
    (localIf : Interface Addr) : Settled hash (queueLinkEntry remote localIf neighbor tables) := by
  refine ⟨?_, counted_queueLinkEntry settled.toCounted found remote localIf⟩
  have counting : CrossLinked hash
        (tables.writeNbr neighbor fun nbr => { nbr with linkcount := nbr.linkcount + 1 }) :=
    crossLinked_writeNbr settled.toCrossLinked (fun _ => rfl) fun _ => rfl
  exact counting.of_tables rfl rfl rfl

private theorem settled_neighborOfNewLink (settled : Settled hash tables) (remoteMain : Addr) :
    Settled hash (neighborOfNewLink hash remoteMain tables).1 ∧ ∃ nbr,
        (neighborOfNewLink hash remoteMain tables).1.nbr
            (neighborOfNewLink hash remoteMain tables).2 =
          some nbr := by
  rw [neighborOfNewLink]
  split
  next nbr lookup => exact ⟨settled, nbr, nbr_of_lookup settled.toPlaced lookup⟩
  · refine ⟨⟨crossLinked_insertNeighborTable settled.toCrossLinked remoteMain,
        counted_insertNeighborTable settled remoteMain⟩, ?_⟩
    rw [olsrInsertNeighborTable]
    split
    next nbr lookup => exact ⟨nbr, nbr_of_lookup settled.toPlaced lookup⟩
    · exact ⟨_, nbr_queueNeighbor.trans (if_pos rfl)⟩

theorem settled_addLinkEntry
    (settled : Settled hash tables) (remote remoteMain : Addr) (localIf : Interface Addr) : ∃ after,
      addLinkEntry hash remote remoteMain localIf tables = some after ∧ Settled hash after := by
  rw [addLinkEntry]
  split
  · exact settled_lookupLinkEntry settled remote (some remoteMain) localIf
  · obtain ⟨next, nbr, found⟩ := settled_neighborOfNewLink settled remoteMain
    exact ⟨_, rfl, settled_queueLinkEntry next found remote localIf⟩

/-- The neighbour that goes with its last link is the link's own. -/
def deletesOwnNeighbor (hash : Addr → Bucket) (index : Nat) (tables : Tables Addr Bucket) : Bool :=
  (tables.linkSet[index]?).all fun link =>
    (tables.nbr link.neighbor).all fun nbr =>
      nbr.linkcount ≠ 1 ||
        (olsrLookupNeighborTableAlias hash tables
          nbr.neighborMainAddr).any fun found => found.ptr = link.neighbor

private theorem settled_deleteLinkEntry (settled : Settled hash tables) {index : Nat}
    (inside : index < tables.linkSet.length) (own : deletesOwnNeighbor hash index tables) :
    ∃ after, olsrDeleteLinkEntry hash index tables = some after ∧ Settled hash after := by
  have listed := getElem?_eq_getElem inside
  obtain ⟨nbr, found⟩ := settled.attached _ (getElem_mem inside)
  simp only [deletesOwnNeighbor, listed, found, Option.all_some,
    Bool.or_eq_true, decide_eq_true_eq] at own
  simp only [olsrDeleteLinkEntry, listed, found, Option.bind_eq_bind, Option.bind_some]
  split
  next isLast =>
    obtain ⟨entry, lookup, isOwn⟩ :=
      (Option.any_eq_true _ _).mp (own.resolve_left (not_not_intro isLast))
    obtain ⟨via, done, cross, same⟩ :=
      crossLinked_deleteNeighborTable settled.toCrossLinked nbr.neighborMainAddr
    rw [withoutNeighbor, lookup] at same
    simp only [of_decide_eq_true isOwn] at same
    refine ⟨{ via with linkSet := via.linkSet.eraseIdx index },
        by rw [done]; rfl, cross.of_tables rfl rfl rfl, ?_⟩
    have last := counted_dropLastLink settled.toCounted settled.toPlaced listed found isLast
    refine last.of_same ⟨same.cores, ?_, same.mids⟩
    exact congrArg (List.eraseIdx · index) same.linkSet
  · refine ⟨_, rfl, ?_, counted_dropLink settled.toCounted listed⟩
    have counting : CrossLinked hash
          (tables.writeNbr tables.linkSet[index].neighbor fun nbr =>
            { nbr with linkcount := nbr.linkcount - 1 }) :=
      crossLinked_writeNbr settled.toCrossLinked (fun _ => rfl) fun _ => rfl
    exact counting.of_tables rfl rfl rfl

/-! ## Inserting an alias -/

theorem SameNeighbors.lookup_eq_none (same : SameNeighbors tables after) {dst : Addr}
    (notFound : olsrLookupNeighborTableAlias hash tables dst = none) :
    olsrLookupNeighborTableAlias hash after dst = none := by
  rw [olsrLookupNeighborTableAlias, find?_eq_none] at notFound ⊢
  intro entry mem
  have inCores := mem_map_of_mem (f := NeighborEntry.core) mem
  rw [same.cores] at inCores
  obtain ⟨before, wasMem, core⟩ := List.mem_map.mp inCores
  have ne := notFound before wasMem
  simp only [NeighborEntry.core, Prod.mk.injEq] at core
  rw [core.2.1, core.2.2.1] at ne
  exact ne

/-- No neighbour has to make room for the alias, and none for an alias that
the main address had before. -/
def insertsCleanly (hash : Addr → Bucket) (olsrValidateAddress : Addr → Bool)
    (mainAdd aliasAddr : Addr) (tables : Tables Addr Bucket) : Bool :=
  let isFree := fun adr =>
    (olsrLookupNeighborTableAlias hash tables adr).isNone
  !olsrValidateAddress aliasAddr || isFree aliasAddr &&
      (midLookupMainAddr tables.mids aliasAddr = some mainAdd || isFree mainAdd ||
        ((midLookupAliases tables.mids mainAdd).map MidAddress.aliasAddr).all isFree)

private theorem settled_dropAliasEntries (settled : Settled hash tables)
    {mAddr aliasAddr : Addr} (free : olsrLookupNeighborTableAlias hash tables aliasAddr = none ∨
        olsrLookupNeighborTableAlias hash tables mAddr = none) :
    ∃ after, dropAliasEntries hash mAddr tables aliasAddr = some after ∧
      Settled hash after ∧ SameNeighbors tables after := by
  have undisturbed : ∀ {between : Tables Addr Bucket}, SameNeighbors tables between →
        mergeAliasNeighbor hash mAddr aliasAddr between = between := by
    intro between same
    rw [mergeAliasNeighbor]
    split
    next foundAlias foundMain =>
      rcases free with notFound | notFound
      · rw [same.lookup_eq_none notFound] at foundAlias
        cases foundAlias
      · rw [same.lookup_eq_none notFound] at foundMain
        cases foundMain
    · rfl
  simp only [dropAliasEntries, Option.bind_eq_bind]
  split
  next nbr2 lookup =>
    have found2 := settled.toPlaced.nbr2_iff.mpr ⟨mem_of_find?_eq_some lookup, rfl⟩
    obtain ⟨between, done, cross, same, -⟩ := crossLinked_deleteTwoHop settled.toCrossLinked found2
    refine ⟨between, ?_, settled.of_same cross same, same⟩
    rw [done]
    exact congrArg some (undisturbed same)
  · exact ⟨tables, congrArg some (undisturbed (SameNeighbors.refl tables)), settled,
        SameNeighbors.refl tables⟩

private theorem settled_insertMidTuple (settled : Settled hash tables)
    {mAddr aliasAddr : Addr} (isFree : olsrLookupNeighborTableAlias hash tables aliasAddr = none)
    (free : midLookupMainAddr tables.mids aliasAddr = some mAddr ∨
        olsrLookupNeighborTableAlias hash tables mAddr = none ∨
        ∀ adr ∈ (midLookupAliases tables.mids mAddr).map MidAddress.aliasAddr,
        olsrLookupNeighborTableAlias hash tables adr = none) :
    ∃ after, insertMidTuple hash mAddr aliasAddr tables = some after ∧ Settled hash after := by
  rw [insertMidTuple]
  split
  · exact ⟨tables, rfl, settled⟩
  next isNew =>
    let queued : Tables Addr Bucket :=
      { tables with mids := queueMidTuple tables.mids mAddr aliasAddr }
    have settledQueued : Settled hash queued :=
      ⟨settled.toCrossLinked.of_tables rfl rfl rfl, ⟨settled.attached, settled.counts⟩⟩
    have eachFree : ∀ adr ∈ (midLookupAliases queued.mids mAddr).map MidAddress.aliasAddr,
          olsrLookupNeighborTableAlias hash queued adr = none ∨
            olsrLookupNeighborTableAlias hash queued mAddr = none := by
      intro adr listed
      rw [midLookupAliases_queueMidTuple, map_cons] at listed
      rcases mem_cons.mp listed with rfl | older
      · exact Or.inl isFree
      · rcases free.resolve_left isNew with mainFree | aliasesFree
        · exact Or.inr mainFree
        · exact Or.inl (aliasesFree adr older)
    obtain ⟨after, done, settledAfter, -⟩ := foldlM_invariant
        (fun _ next => Settled hash next ∧ SameNeighbors queued next)
        (fun listed held => by
          have freeNow := (eachFree _ listed).imp held.2.lookup_eq_none held.2.lookup_eq_none
          obtain ⟨next, taken, settledNext, sameNext⟩ := settled_dropAliasEntries held.1 freeNow
          exact ⟨next, taken, settledNext, held.2.trans sameNext⟩)
        ⟨settledQueued, SameNeighbors.refl queued⟩
    exact ⟨after, done, settledAfter⟩

private theorem settled_insertMidAlias
    (settled : Settled hash tables) {olsrValidateAddress : Addr → Bool} {mainAdd aliasAddr : Addr}
    (cleanly : insertsCleanly hash olsrValidateAddress mainAdd aliasAddr tables) :
    ∃ after, insertMidAlias hash olsrValidateAddress mainAdd aliasAddr tables = some after ∧
      Settled hash after := by
  rw [insertMidAlias]
  split
  next valid =>
    simp only [insertsCleanly, valid, Bool.not_true, Bool.false_or,
      Bool.and_eq_true, Bool.or_eq_true, Option.isNone_iff_eq_none,
      List.all_eq_true, decide_eq_true_eq, or_assoc] at cleanly
    obtain ⟨isFree, free⟩ := cleanly
    rw [replaceNeighbor, isFree]
    exact settled_insertMidTuple settled isFree free
  · exact ⟨tables, rfl, settled⟩

/-- Each event keeps the links of neighbours and two-hop neighbours, and the
counts: a HELLO links cleanly, a deleted neighbour has no link or is the one
its last link leads to, and no alias displaces a neighbour. -/
def CountsCleanly (hash : Addr → Bucket) (tables : Tables Addr Bucket) :
    NeighborhoodEvent Addr → Prop
  | .twoHop (.deleteNeighbor neighborAddr) =>
    (olsrLookupNeighborTableAlias hash tables neighborAddr).all fun nbr => nbr.linkcount = 0
  | .twoHop event => LinksCleanly tables event
  | .deleteLinkEntry index => deletesOwnNeighbor hash index tables
  | .insertMidAlias olsrValidateAddress mainAdd aliasAddr =>
    insertsCleanly hash olsrValidateAddress mainAdd aliasAddr tables
  | _ => True

private theorem settled_twoHopStep (settled : Settled hash tables) {event : TwoHopEvent Addr}
    (cleanly : CountsCleanly hash tables (.twoHop event)) :
    ∃ after, twoHopStep hash tables event = some after ∧ Settled hash after := by
  have links : LinksCleanly tables event := by
    cases event with
    | deleteNeighbor nbrAddr => trivial
    | _ => exact cleanly
  obtain ⟨after, done, cross⟩ := crossLinked_twoHopStep settled.toCrossLinked links
  refine ⟨after, done, cross, Counted.of_same ?_ (sameNeighbors_of_twoHopStep done)⟩
  cases event with
  | insertNeighbor mainAddr => exact counted_insertNeighborTable settled mainAddr
  | deleteNeighbor nbrAddr => exact counted_withoutNeighbor settled cleanly
  | _ => exact settled.toCounted

private theorem settled_neighborhoodStep {event : NeighborhoodEvent Addr}
    (settled : Settled hash tables) (cleanly : CountsCleanly hash tables event) :
    ∃ after, neighborhoodStep hash tables event = some after ∧ Settled hash after := by
  cases event with
  | twoHop event => exact settled_twoHopStep settled cleanly
  | addLinkEntry remote remoteMain localIf =>
    exact settled_addLinkEntry settled remote remoteMain localIf
  | lookupLinkEntry remote remoteMain localIf =>
    exact settled_lookupLinkEntry settled remote remoteMain localIf
  | deleteLinkEntry index =>
    rw [neighborhoodStep]
    split
    next inside => exact settled_deleteLinkEntry settled inside cleanly
    · exact ⟨tables, rfl, settled⟩
  | insertMidAlias olsrValidateAddress mainAdd aliasAddr =>
    exact settled_insertMidAlias settled cleanly
  | expireMidEntry mainAddr =>
    exact ⟨_, rfl, settled.toCrossLinked.of_tables rfl rfl rfl, ⟨settled.attached, settled.counts⟩⟩
  | pruneAliases nowTimes msg =>
    exact ⟨_, rfl, settled.toCrossLinked.of_tables rfl rfl rfl, ⟨settled.attached, settled.counts⟩⟩

/-- Links lead to neighbours, neighbours count them, and no two-hop link leads
to a neighbour that is not in its table. -/
structure ReferencesHold (tables : Tables Addr Bucket) : Prop where
  attached : ∀ link ∈ tables.linkSet, ∃ nbr ∈ tables.neighbortable, nbr.ptr = link.neighbor
  counted : ∀ nbr ∈ tables.neighbortable,
      nbr.linkcount = (tables.linkSet.filter fun link => link.neighbor = nbr.ptr).length
  oneHops_queued : ∀ nbr2 ∈ tables.twoHopNeighbortable, ∀ entry ∈ nbr2.neighbor2Nblist,
      ∃ nbr ∈ tables.neighbortable, nbr.ptr = entry.neighbor
  owners_queued : ∀ nbr ∈ tables.neighbortable, ∀ entry ∈ nbr.neighbor2List,
      ∃ owner ∈ tables.neighbortable, owner.ptr = entry.nbr2Nbr

omit [DecidableEq Addr] [DecidableEq Bucket] in
private theorem Settled.referencesHold (settled : Settled hash tables) : ReferencesHold tables where
  attached := by
    intro link mem
    obtain ⟨nbr, found⟩ := settled.attached link mem
    exact ⟨nbr, settled.toPlaced.nbr_iff.mp found⟩
  counted := by
    intro nbr mem
    rw [settled.counts (settled.toPlaced.nbr_iff.mpr ⟨mem, rfl⟩), linksTo,
      List.count, countP_map, countP_eq_length_filter]
    rfl
  oneHops_queued := settled.toCrossLinked.linksAgree.oneHops_queued
  owners_queued := by
    intro nbr mem entry listed
    refine ⟨nbr, mem, ?_⟩
    exact (settled.owned (settled.toPlaced.nbr_iff.mpr ⟨mem, rfl⟩) entry listed).symm

/-- In every run whose events keep the counts, no freed entry is used and all
references hold. -/
theorem referencesHold_of_countsCleanly
    (hash : Addr → Bucket) (events : List (NeighborhoodEvent Addr))
    (cleanly : RunMeets (neighborhoodStep hash)
        (CountsCleanly hash) (Tables.init Addr Bucket) events) :
    ∃ final, runEvents (neighborhoodStep hash) (Tables.init Addr Bucket)
          events = some final ∧
        ReferencesHold final := by
  have initially : Settled hash (Tables.init Addr Bucket) :=
    ⟨crossLinked_init (MidSet.init Addr),
      ⟨fun _ impossible => (not_mem_nil impossible).elim, fun impossible => nomatch impossible⟩⟩
  obtain ⟨final, finished, settled⟩ :=
    runEvents_exists_of_meets settled_neighborhoodStep initially cleanly
  exact ⟨final, finished, settled.referencesHold⟩

instance (hash : Addr → Bucket) (tables : Tables Addr Bucket) (event : NeighborhoodEvent Addr) :
    Decidable (CountsCleanly hash tables event) :=
  match event with
  | .twoHop (.deleteNeighbor _) => inferInstanceAs (Decidable (_ = true))
  | .twoHop (.insertNeighbor _) => isTrue trivial
  | .twoHop (.deleteTwoHop _) => isTrue trivial
  | .twoHop (.expireNbr2List ..) => isTrue trivial
  | .twoHop (.updateNeighborStatus ..) => isTrue trivial
  | .twoHop (.processMessageNeighbors ctx neighbor neighbors) =>
    inferInstanceAs
      (Decidable
        (LinksCleanly tables (.processMessageNeighbors ctx neighbor neighbors)))
  | .addLinkEntry .. => isTrue trivial
  | .lookupLinkEntry .. => isTrue trivial
  | .deleteLinkEntry _ => inferInstanceAs (Decidable (_ = true))
  | .insertMidAlias .. => inferInstanceAs (Decidable (_ = true))
  | .expireMidEntry _ => isTrue trivial
  | .pruneAliases .. => isTrue trivial

end Steps

/-- Two interfaces of one node, an alias of it that is no neighbour, and a
link that ends. -/
theorem referencesHold_of_countsCleanly_two_links : ∃ final,
      runEvents (neighborhoodStep olsrIpHashing) (Tables.init (IpAddr .inet) UInt32)
          [.addLinkEntry (hostAddr 2) (hostAddr 2) wlan,
            .addLinkEntry (hostAddr 3) (hostAddr 2) wlan,
            .insertMidAlias (fun _ => true) (hostAddr 2) (hostAddr 3),
            .deleteLinkEntry 0] = some final ∧
        ReferencesHold final := by
  apply referencesHold_of_countsCleanly
  decide +kernel

/-- A HELLO comes from 10.0.0.2, which 10.0.0.3 then announces as one of its
interfaces: the link is handed over to a neighbour that does not count it. -/
theorem insertMidAlias_loses_count : ∃ final, runEvents (neighborhoodStep olsrIpHashing)
          (Tables.init (IpAddr .inet) UInt32)
          [.addLinkEntry (hostAddr 2) (hostAddr 2) wlan,
            .insertMidAlias (fun _ => true) (hostAddr 3) (hostAddr 2)] =
          some final ∧
        final.neighbortable.map NeighborEntry.linkcount = [0] ∧
        final.linkSet.length = 1 ∧ ¬ ReferencesHold final := by
  have computed :
      (runEvents (neighborhoodStep olsrIpHashing) (Tables.init (IpAddr .inet) UInt32)
          [.addLinkEntry (hostAddr 2) (hostAddr 2) wlan,
            .insertMidAlias (fun _ => true) (hostAddr 3) (hostAddr 2)]).map
        (fun final => (final.neighbortable.map NeighborEntry.linkcount, final.linkSet.length)) =
        some ([0], 1) := by
    decide +kernel
  obtain ⟨final, finished, counts⟩ := Option.map_eq_some_iff.mp computed
  obtain ⟨counts, length⟩ := Prod.mk.inj counts
  refine ⟨final, finished, counts, length, fun holds => ?_⟩
  obtain ⟨nbr, table, noLinks⟩ := map_eq_singleton_iff.mp counts
  obtain ⟨link, links⟩ := length_eq_one_iff.mp length
  obtain ⟨owner, member, isOwner⟩ := holds.attached link (by rw [links]; exact mem_cons_self)
  have isNbr : owner = nbr := by simpa [table] using member
  have counted := holds.counted nbr (by rw [table]; exact mem_cons_self)
  rw [noLinks, links, filter_cons_of_pos] at counted
  · cases counted
  · rw [← isOwner, isNbr, decide_eq_true_eq]

end QosOlsr.Neighborhood
