import QosOlsr.Library.Mirrored
import QosOlsr.Neighborhood.Tables

/-!
# Links between neighbours and two-hop neighbours

That a two-hop neighbour is reached through a neighbour is stored in a list of
each and in `neighbor_2_pointer`; the operations keep the three in agreement.
-/

namespace QosOlsr.Neighborhood

open Library Function

variable {counter : Int16} {entry : Neighbor2ListEntry} {index : Nat}

theorem toInt_sub_one (positive : 1 ≤ counter.toInt) : (counter - 1).toInt = counter.toInt - 1 := by
  have bound := counter.toInt_lt
  rw [Int16.toInt_sub]
  apply Int.bmod_eq_of_le <;> simp <;> omega

theorem toInt_add_one (nonneg : 0 ≤ counter.toInt) (room : counter.toInt < 32767) :
    (counter + 1).toInt = counter.toInt + 1 := by
  rw [Int16.toInt_add]
  apply Int.bmod_eq_of_le <;> simp <;> omega

theorem int16_lt_one_iff : counter < 1 ↔ counter.toInt < 1 := Int16.lt_iff_toInt_lt

section Links

variable {Addr Bucket : Type}

section

variable (tables : Tables Addr Bucket)

def twoHops (neighbor : Ptr) : List Ptr :=
  ((tables.nbr neighbor).elim [] NeighborEntry.neighbor2List).map Neighbor2ListEntry.neighbor2

def oneHops (twoHop : Ptr) : List Ptr :=
  ((tables.nbr2 twoHop).elim [] Neighbor2Entry.neighbor2Nblist).map NeighborListEntry.neighbor

structure Linked (hash : Addr → Bucket) (tables : Tables Addr Bucket) : Prop
    extends Placed tables where
  mirrors : Mirrors (twoHops tables) (oneHops tables)
  owned : ∀ {neighbor nbr}, tables.nbr neighbor = some nbr →
      ∀ entry ∈ nbr.neighbor2List, entry.nbr2Nbr = neighbor
  counted : ∀ {twoHop nbr2}, tables.nbr2 twoHop = some nbr2 →
      nbr2.neighbor2Pointer.toInt = nbr2.neighbor2Nblist.length
  hashed : ∀ {twoHop nbr2}, tables.nbr2 twoHop = some nbr2 → nbr2.bucket = hash nbr2.neighbor2Addr
  unique : ∀ {twoHop other nbr2 otherNbr2}, tables.nbr2 twoHop = some nbr2 →
      tables.nbr2 other = some otherNbr2 →
        nbr2.neighbor2Addr = otherNbr2.neighbor2Addr → twoHop = other

structure CrossLinked (hash : Addr → Bucket) (tables : Tables Addr Bucket) : Prop
    extends Linked hash tables where
  reached : ∀ {twoHop nbr2}, tables.nbr2 twoHop = some nbr2 → nbr2.neighbor2Nblist ≠ []

def NeighborEntry.core (entry : NeighborEntry Addr Bucket) : Ptr × Bucket × Addr × Int :=
  (entry.ptr, entry.bucket, entry.neighborMainAddr, entry.linkcount)

/-- The neighbours are the same but for their links to two-hop neighbours and
what a HELLO says about them. -/
structure SameNeighbors (before after : Tables Addr Bucket) : Prop where
  cores : after.neighbortable.map NeighborEntry.core = before.neighbortable.map NeighborEntry.core
  linkSet : after.linkSet = before.linkSet
  mids : after.mids = before.mids

theorem SameNeighbors.refl : SameNeighbors tables tables := ⟨rfl, rfl, rfl⟩

end

theorem SameNeighbors.trans {before via after : Tables Addr Bucket}
    (first : SameNeighbors before via) (second : SameNeighbors via after) :
    SameNeighbors before after :=
  ⟨second.cores.trans first.cores, second.linkSet.trans first.linkSet, second.mids.trans first.mids⟩

variable {hash : Addr → Bucket} {tables : Tables Addr Bucket} {neighbor twoHop : Ptr}
  {nbr : NeighborEntry Addr Bucket}

theorem twoHops_of_nbr (found : tables.nbr neighbor = some nbr) :
    twoHops tables neighbor = nbr.neighbor2List.map Neighbor2ListEntry.neighbor2 := by
  rw [twoHops, found]
  rfl

variable {nbr2 : Neighbor2Entry Addr Bucket}

theorem oneHops_of_nbr2 (found : tables.nbr2 twoHop = some nbr2) :
    oneHops tables twoHop = nbr2.neighbor2Nblist.map NeighborListEntry.neighbor := by
  rw [oneHops, found]
  rfl

theorem nbr2_of_mem_oneHops (linked : neighbor ∈ oneHops tables twoHop) :
    ∃ nbr2, tables.nbr2 twoHop = some nbr2 := by
  cases found : tables.nbr2 twoHop with
  | none =>
    rw [oneHops, found] at linked
    cases linked
  | some nbr2 => exact ⟨nbr2, rfl⟩

theorem nbr_of_mem_twoHops (linked : twoHop ∈ twoHops tables neighbor) :
    ∃ nbr, tables.nbr neighbor = some nbr := by
  cases found : tables.nbr neighbor with
  | none =>
    rw [twoHops, found] at linked
    cases linked
  | some nbr => exact ⟨nbr, rfl⟩

variable {write : NeighborEntry Addr Bucket → NeighborEntry Addr Bucket}
  {write2 : Neighbor2Entry Addr Bucket → Neighbor2Entry Addr Bucket}

theorem twoHops_writeNbr (keeps : ∀ entry, (write entry).ptr = entry.ptr)
    (found : tables.nbr neighbor = some nbr) :
    twoHops (tables.writeNbr neighbor write) = update (twoHops tables) neighbor
        ((write nbr).neighbor2List.map Neighbor2ListEntry.neighbor2) := by
  funext other
  rw [twoHops, nbr_writeNbr keeps, update_apply]
  split
  next same =>
    rw [same, found]
    rfl
  · rfl

theorem oneHops_writeNbr2 (keeps : ∀ entry, (write2 entry).ptr = entry.ptr)
    (found : tables.nbr2 twoHop = some nbr2) :
    oneHops (tables.writeNbr2 twoHop write2) = update (oneHops tables) twoHop
        ((write2 nbr2).neighbor2Nblist.map NeighborListEntry.neighbor) := by
  funext other
  rw [oneHops, nbr2_writeNbr2 keeps, update_apply]
  split
  next same =>
    rw [same, found]
    rfl
  · rfl

@[simp]
theorem twoHops_writeNbr2 : twoHops (tables.writeNbr2 twoHop write2) = twoHops tables := rfl

@[simp]
private theorem twoHops_freeNbr2 : twoHops (tables.freeNbr2 twoHop) = twoHops tables := rfl

private theorem Placed.oneHops_freeNbr2 (placed : Placed tables) :
    oneHops (tables.freeNbr2 twoHop) = update (oneHops tables) twoHop [] := by
  funext other
  rw [oneHops, placed.nbr2_freeNbr2, update_apply]
  split
  · rfl
  · rfl

theorem Placed.twoHops_freeNbr (placed : Placed tables) :
    twoHops (tables.freeNbr neighbor) = update (twoHops tables) neighbor [] := by
  funext other
  rw [twoHops, placed.nbr_freeNbr, update_apply]
  split
  · rfl
  · rfl

theorem sameNeighbors_writeNbr (keeps : ∀ entry, (write entry).core = entry.core) :
    SameNeighbors tables (tables.writeNbr neighbor write) where
  cores := map_modifyKey keeps
  linkSet := rfl
  mids := rfl

theorem sameNeighbors_writeNbr2 :
    SameNeighbors tables (tables.writeNbr2 twoHop write2) := ⟨rfl, rfl, rfl⟩

theorem sameNeighbors_freeNbr2 : SameNeighbors tables (tables.freeNbr2 twoHop) := ⟨rfl, rfl, rfl⟩

def dropEntry (index : Nat) (nbr : NeighborEntry Addr Bucket) : NeighborEntry Addr Bucket :=
  { nbr with neighbor2List := nbr.neighbor2List.eraseIdx index }

theorem ptr_dropEntry (index : Nat) (nbr : NeighborEntry Addr Bucket) :
    (dropEntry index nbr).ptr = nbr.ptr := rfl

def eraseNbr2 (neighbor : Ptr) (index : Nat) (tables : Tables Addr Bucket) : Tables Addr Bucket :=
  tables.writeNbr neighbor (dropEntry index)

theorem olsrDelNbr2List_eq (found : tables.nbr neighbor = some nbr)
    (listed : nbr.neighbor2List[index]? = some entry)
    (found2 : tables.nbr2 entry.neighbor2 = some nbr2) :
    olsrDelNbr2List neighbor index tables =
      some (eraseNbr2 neighbor index
        (if nbr2.neighbor2Pointer < 1 then
          tables.freeNbr2 entry.neighbor2
        else
          tables)) := by
  simp only [olsrDelNbr2List, found, listed, found2, Option.bind_eq_bind, Option.bind_some]
  rfl

theorem sameNeighbors_eraseNbr2 : SameNeighbors tables (eraseNbr2 neighbor index tables) :=
  sameNeighbors_writeNbr fun _ => rfl

variable {entries : List Neighbor2ListEntry}

private theorem map_eraseIdx_of_nodup (nodup : (entries.map Neighbor2ListEntry.neighbor2).Nodup)
    (listed : entries[index]? = some entry) :
    (entries.eraseIdx index).map Neighbor2ListEntry.neighbor2 =
      (entries.map Neighbor2ListEntry.neighbor2).erase entry.neighbor2 := by
  obtain ⟨inside, isEntry⟩ := List.getElem?_eq_some_iff.mp listed
  have erased := nodup.erase_getElem index (by rw [List.length_map]; exact inside)
  rw [List.getElem_map, isEntry] at erased
  rw [erased, List.eraseIdx_map]

theorem twoHops_eraseNbr2
    (nodup : (twoHops tables neighbor).Nodup) (found : tables.nbr neighbor = some nbr)
    (listed : nbr.neighbor2List[index]? = some entry) : twoHops (eraseNbr2 neighbor index tables) =
      update (twoHops tables) neighbor ((twoHops tables neighbor).erase entry.neighbor2) := by
  rw [twoHops_of_nbr found] at nodup ⊢
  rw [eraseNbr2, twoHops_writeNbr (ptr_dropEntry index) found, dropEntry,
    map_eraseIdx_of_nodup nodup listed]

def dropNeighbor (neighbor : Ptr) (nbr2 : Neighbor2Entry Addr Bucket) :
    Neighbor2Entry Addr Bucket :=
  { nbr2 with
    neighbor2Pointer := nbr2.neighbor2Pointer - 1
    neighbor2Nblist := nbr2.neighbor2Nblist.filter fun entry => entry.neighbor ≠ neighbor }

theorem ptr_dropNeighbor (neighbor : Ptr) (nbr2 : Neighbor2Entry Addr Bucket) :
    (dropNeighbor neighbor nbr2).ptr = nbr2.ptr := rfl

private theorem olsrDeleteNeighborPointer_eq (found2 : tables.nbr2 twoHop = some nbr2) :
    olsrDeleteNeighborPointer twoHop neighbor tables =
      some (tables.writeNbr2 twoHop (dropNeighbor neighbor)) := by
  rw [olsrDeleteNeighborPointer, found2]
  rfl

theorem map_dropNeighbor (nodup : (nbr2.neighbor2Nblist.map NeighborListEntry.neighbor).Nodup) :
    (dropNeighbor neighbor nbr2).neighbor2Nblist.map NeighborListEntry.neighbor =
      (nbr2.neighbor2Nblist.map NeighborListEntry.neighbor).erase neighbor := by
  rw [nodup.erase_eq_filter, List.filter_map]
  apply congrArg
  apply List.filter_congr
  intro entry _
  simp only [ne_eq, Function.comp_apply, bne, beq_eq_decide, decide_not]

private theorem counted_dropNeighbor
    (nodup : (nbr2.neighbor2Nblist.map NeighborListEntry.neighbor).Nodup)
    (counted : nbr2.neighbor2Pointer.toInt = nbr2.neighbor2Nblist.length)
    (linked : neighbor ∈ nbr2.neighbor2Nblist.map NeighborListEntry.neighbor) :
    (dropNeighbor neighbor nbr2).neighbor2Pointer.toInt =
      (dropNeighbor neighbor nbr2).neighbor2Nblist.length := by
  have positive := List.length_pos_of_mem linked
  have shorter := List.length_erase_of_mem linked
  rw [← map_dropNeighbor nodup, List.length_map, List.length_map] at shorter
  rw [List.length_map] at positive
  have less : (dropNeighbor neighbor nbr2).neighbor2Pointer.toInt =
      nbr2.neighbor2Pointer.toInt - 1 :=
    toInt_sub_one (by omega)
  omega

/-- The tables once the link at an index of a neighbour's list is gone. -/
def unlinked (neighbor : Ptr) (index : Nat) (twoHop : Ptr) (nbr2 : Neighbor2Entry Addr Bucket)
    (tables : Tables Addr Bucket) : Tables Addr Bucket :=
  eraseNbr2 neighbor index <|
    if (dropNeighbor neighbor nbr2).neighbor2Pointer < 1 then
      (tables.writeNbr2 twoHop (dropNeighbor neighbor)).freeNbr2 twoHop
    else
      tables.writeNbr2 twoHop (dropNeighbor neighbor)

theorem unlink_eq (found : tables.nbr neighbor = some nbr)
    (listed : nbr.neighbor2List[index]? = some entry)
    (found2 : tables.nbr2 entry.neighbor2 = some nbr2) :
    (do
      let tables ← olsrDeleteNeighborPointer entry.neighbor2 neighbor tables
      olsrDelNbr2List neighbor index tables) =
      some (unlinked neighbor index entry.neighbor2 nbr2 tables) := by
  rw [olsrDeleteNeighborPointer_eq found2]
  have dropped : (tables.writeNbr2 entry.neighbor2 (dropNeighbor neighbor)).nbr2 entry.neighbor2 =
        some (dropNeighbor neighbor nbr2) := by
    rw [nbr2_writeNbr2 (ptr_dropNeighbor neighbor), if_pos rfl, found2]
    rfl
  exact olsrDelNbr2List_eq found listed dropped

section Unlinked

variable {nbr : NeighborEntry Addr Bucket} {nbr2 : Neighbor2Entry Addr Bucket}

theorem sameNeighbors_unlinked :
    SameNeighbors tables (unlinked neighbor index twoHop nbr2 tables) := by
  rw [unlinked]
  split
  · exact (sameNeighbors_writeNbr2.trans sameNeighbors_freeNbr2).trans sameNeighbors_eraseNbr2
  · exact sameNeighbors_writeNbr2.trans sameNeighbors_eraseNbr2

private theorem placed_unlinked (placed : Placed tables) :
    Placed (unlinked neighbor index twoHop nbr2 tables) := by
  have dropped : Placed (tables.writeNbr2 twoHop (dropNeighbor neighbor)) :=
    placed.writeNbr2 (ptr_dropNeighbor neighbor)
  rw [unlinked]
  split
  · exact (dropped.freeNbr2 twoHop).writeNbr (ptr_dropEntry index)
  · exact dropped.writeNbr (ptr_dropEntry index)

theorem nbr_unlinked {other : Ptr} : (unlinked neighbor index twoHop nbr2 tables).nbr other =
      if other = neighbor then (tables.nbr other).map (dropEntry index)
      else tables.nbr other := by
  rw [unlinked, eraseNbr2, nbr_writeNbr (ptr_dropEntry index)]
  split_ifs <;> rfl

theorem nbr2_unlinked (placed : Placed tables) (found2 : tables.nbr2 twoHop = some nbr2)
    {other : Ptr} :
    (unlinked neighbor index twoHop nbr2 tables).nbr2 other =
      if other = twoHop then
        if (dropNeighbor neighbor nbr2).neighbor2Pointer < 1 then none
        else some (dropNeighbor neighbor nbr2)
      else
        tables.nbr2 other := by
  have dropped : Placed (tables.writeNbr2 twoHop (dropNeighbor neighbor)) :=
    placed.writeNbr2 (ptr_dropNeighbor neighbor)
  rw [unlinked, eraseNbr2, nbr2_writeNbr]
  split
  · rw [dropped.nbr2_freeNbr2, nbr2_writeNbr2 (ptr_dropNeighbor neighbor)]
    split_ifs <;> rfl
  · rw [nbr2_writeNbr2 (ptr_dropNeighbor neighbor)]
    split
    next same =>
      rw [same, found2]
      rfl
    · rfl

theorem twoHops_unlinked (nodup : (twoHops tables neighbor).Nodup)
    (found : tables.nbr neighbor = some nbr) (listed : nbr.neighbor2List[index]? = some entry) :
    twoHops (unlinked neighbor index twoHop nbr2 tables) =
      update (twoHops tables) neighbor ((twoHops tables neighbor).erase entry.neighbor2) := by
  rw [← twoHops_eraseNbr2 nodup found listed]
  funext other
  rw [twoHops, nbr_unlinked, twoHops, eraseNbr2, nbr_writeNbr (ptr_dropEntry index)]

private theorem oneHops_unlinked (placed : Placed tables) (nodup : (oneHops tables twoHop).Nodup)
    (found2 : tables.nbr2 twoHop = some nbr2)
    (counted : (dropNeighbor neighbor nbr2).neighbor2Pointer.toInt =
        (dropNeighbor neighbor nbr2).neighbor2Nblist.length) :
    oneHops (unlinked neighbor index twoHop nbr2 tables) =
      update (oneHops tables) twoHop ((oneHops tables twoHop).erase neighbor) := by
  rw [oneHops_of_nbr2 found2] at nodup ⊢
  funext other
  rw [oneHops, nbr2_unlinked placed found2, update_apply, ← map_dropNeighbor nodup]
  split_ifs with same isLast
  · rw [int16_lt_one_iff] at isLast
    have empty : (dropNeighbor neighbor nbr2).neighbor2Nblist = [] :=
      List.length_eq_zero_iff.mp (by omega)
    rw [empty]
    rfl
  · rfl
  · rfl

/-- Unlinking on both sides keeps the links consistent; a two-hop neighbour
that was reached by this link only is freed with it. -/
theorem crossLinked_unlinked (cross : CrossLinked hash tables)
    (found : tables.nbr neighbor = some nbr) (listed : nbr.neighbor2List[index]? = some entry)
    (found2 : tables.nbr2 entry.neighbor2 = some nbr2) :
    CrossLinked hash (unlinked neighbor index entry.neighbor2 nbr2 tables) := by
  have inList : entry.neighbor2 ∈ twoHops tables neighbor := by
    rw [twoHops_of_nbr found]
    exact List.mem_map_of_mem (List.mem_of_getElem? listed)
  have linked := cross.mirrors.mem_iff.mp inList
  have nodup := cross.mirrors.lefts_nodup entry.neighbor2
  have counted := counted_dropNeighbor (oneHops_of_nbr2 found2 ▸ nodup)
      (cross.counted found2) (oneHops_of_nbr2 found2 ▸ linked)
  have old : ∀ {other nbr2'},
        (unlinked neighbor index entry.neighbor2 nbr2 tables).nbr2 other = some nbr2' →
          (∃ before, tables.nbr2 other = some before ∧
            nbr2'.bucket = before.bucket ∧ nbr2'.neighbor2Addr = before.neighbor2Addr) ∧
            nbr2'.neighbor2Pointer.toInt = nbr2'.neighbor2Nblist.length ∧
              nbr2'.neighbor2Nblist ≠ [] := by
    intro other nbr2' found'
    rw [nbr2_unlinked cross.toPlaced found2] at found'
    split_ifs at found' with same isLast
    · cases found'
      rw [int16_lt_one_iff] at isLast
      refine ⟨⟨nbr2, same ▸ found2, rfl, rfl⟩, counted, ?_⟩
      intro empty
      rw [empty, List.length_nil] at counted
      omega
    · exact ⟨⟨nbr2', found', rfl, rfl⟩, cross.counted found', cross.reached found'⟩
  refine ⟨⟨placed_unlinked cross.toPlaced, ?_, ?_, ?_, ?_, ?_⟩, ?_⟩
  · rw [twoHops_unlinked (cross.mirrors.rights_nodup neighbor) found listed,
      oneHops_unlinked cross.toPlaced nodup found2 counted]
    exact cross.mirrors.unlink neighbor entry.neighbor2
  · intro other nbr' found' entry' listed'
    rw [nbr_unlinked] at found'
    split_ifs at found' with same
    · obtain ⟨before, wasFound, rfl⟩ := Option.map_eq_some_iff.mp found'
      exact cross.owned wasFound entry' (List.mem_of_mem_eraseIdx listed')
    · exact cross.owned found' entry' listed'
  · intro other nbr2' found'
    exact (old found').2.1
  · intro other nbr2' found'
    obtain ⟨⟨before, wasFound, bucket, address⟩, -⟩ := old found'
    rw [bucket, address]
    exact cross.hashed wasFound
  · intro first second nbr2' other2' found' other' same
    obtain ⟨⟨before, wasFound, -, address⟩, -⟩ := old found'
    obtain ⟨⟨otherBefore, otherFound, -, otherAddr⟩, -⟩ := old other'
    exact cross.unique wasFound otherFound (address.symm.trans (same.trans otherAddr))
  · intro other nbr2' found'
    exact (old found').2.2

end Unlinked

theorem CrossLinked.nbr2_of_listed (cross : CrossLinked hash tables)
    (found : tables.nbr neighbor = some nbr) (listed : entry ∈ nbr.neighbor2List) :
    ∃ nbr2, tables.nbr2 entry.neighbor2 = some nbr2 := by
  have inList : entry.neighbor2 ∈ twoHops tables neighbor := by
    rw [twoHops_of_nbr found]
    exact List.mem_map_of_mem listed
  exact nbr2_of_mem_oneHops (cross.mirrors.mem_iff.mp inList)

/-! ## Expiry and deletion -/

theorem crossLinked_expireNbr2List (cross : CrossLinked hash tables)
    (found : tables.nbr neighbor = some nbr) (inside : index < nbr.neighbor2List.length) :
    ∃ after, olsrExpireNbr2List neighbor index tables = some after ∧
      CrossLinked hash after ∧ SameNeighbors tables after := by
  have listed := List.getElem?_eq_getElem inside
  have mem := List.getElem_mem inside
  obtain ⟨nbr2, found2⟩ := cross.nbr2_of_listed found mem
  refine ⟨_, ?_, crossLinked_unlinked cross found listed found2, sameNeighbors_unlinked⟩
  rw [← unlink_eq found listed found2, ← cross.owned found _ mem]
  rw [olsrExpireNbr2List, cross.owned found _ mem, found]
  simp only [Option.bind_eq_bind, Option.bind_some, listed, cross.owned found _ mem]

/-- The loop of `olsr_delete_neighbor_table` empties the neighbour's list. -/
theorem crossLinked_deleteNbr2Lists :
    ∀ {tables : Tables Addr Bucket} {nbr : NeighborEntry Addr Bucket},
      CrossLinked hash tables → tables.nbr neighbor = some nbr → nbr.neighbor2List = entries →
      ∃ after nbr', deleteNbr2Lists neighbor entries tables = some after ∧ CrossLinked hash after ∧
      SameNeighbors tables after ∧ after.nbr neighbor = some nbr' ∧ nbr'.neighbor2List = [] := by
  induction entries with
  | nil =>
    intro tables nbr cross found empty
    exact ⟨tables, nbr, rfl, cross, SameNeighbors.refl tables, found, empty⟩
  | cons entry rest ih =>
    intro tables nbr cross found list
    have listed : nbr.neighbor2List[0]? = some entry := by rw [list]; rfl
    obtain ⟨nbr2, found2⟩ := cross.nbr2_of_listed found (List.mem_of_getElem? listed)
    have next := crossLinked_unlinked cross found listed found2
    have foundNext : (unlinked neighbor 0 entry.neighbor2 nbr2 tables).nbr neighbor =
          some (dropEntry 0 nbr) := by
      rw [nbr_unlinked, if_pos rfl, found]
      rfl
    have listNext : (dropEntry 0 nbr).neighbor2List = rest := by
      rw [dropEntry, list]
      rfl
    obtain ⟨after, nbr', done, kept, same, last⟩ := ih next foundNext listNext
    refine ⟨after, nbr', ?_, kept, sameNeighbors_unlinked.trans same, last⟩
    have taken := unlink_eq found listed found2
    rw [Option.bind_eq_bind] at taken
    rw [deleteNbr2Lists, Option.bind_eq_bind, ← done]
    calc
      _ = ((olsrDeleteNeighborPointer entry.neighbor2 neighbor tables).bind
            fun tables => olsrDelNbr2List neighbor 0 tables).bind
            (deleteNbr2Lists neighbor rest) :=
          (Option.bind_assoc _ _ _).symm
      _ = _ := by rw [taken]; rfl

theorem SameNeighbors.freeNbr {before after : Tables Addr Bucket}
    (same : SameNeighbors before after) (ptr : Ptr) :
    SameNeighbors (before.freeNbr ptr) (after.freeNbr ptr) where
  cores := by
    have erased : ∀ entries : List (NeighborEntry Addr Bucket),
          (entries.eraseP fun entry => entry.ptr = ptr).map NeighborEntry.core =
            (entries.map NeighborEntry.core).eraseP fun core => core.1 = ptr := by
      intro entries
      rw [List.eraseP_map]
      rfl
    rw [Tables.freeNbr, Tables.freeNbr, erased, erased, same.cores]
  linkSet := same.linkSet
  mids := same.mids

private theorem crossLinked_freeNbr (cross : CrossLinked hash tables)
    (found : tables.nbr neighbor = some nbr) (empty : nbr.neighbor2List = []) :
    CrossLinked hash (tables.freeNbr neighbor) := by
  refine ⟨⟨cross.toPlaced.freeNbr neighbor, ?_, ?_, cross.counted, cross.hashed,
      cross.unique⟩, cross.reached⟩
  · have unchanged : update (twoHops tables) neighbor [] = twoHops tables := by
      apply update_eq_self_iff.mpr
      rw [twoHops_of_nbr found, empty]
      rfl
    rw [cross.toPlaced.twoHops_freeNbr, unchanged]
    exact cross.mirrors
  · intro other nbr' found' entry listed
    rw [cross.toPlaced.nbr_freeNbr] at found'
    split_ifs at found'
    exact cross.owned found' entry listed

section DeleteNeighbor

variable [DecidableEq Addr] [DecidableEq Bucket]

theorem nbr_of_lookup (placed : Placed tables) {dst : Addr} {entry : NeighborEntry Addr Bucket}
    (found : olsrLookupNeighborTableAlias hash tables dst = some entry) :
    tables.nbr entry.ptr = some entry :=
  placed.nbr_iff.mpr ⟨List.mem_of_find?_eq_some found, rfl⟩

def withoutNeighbor (hash : Addr → Bucket) (neighborAddr : Addr)
    (tables : Tables Addr Bucket) : Tables Addr Bucket :=
  match olsrLookupNeighborTableAlias hash tables neighborAddr with
  | none => tables
  | some entry => tables.freeNbr entry.ptr

theorem crossLinked_deleteNeighborTable (cross : CrossLinked hash tables)
    (nbrAddr : Addr) : ∃ after, olsrDeleteNeighborTable hash nbrAddr tables = some after ∧
      CrossLinked hash after ∧ SameNeighbors (withoutNeighbor hash nbrAddr tables) after := by
  rw [olsrDeleteNeighborTable, withoutNeighbor]
  cases lookup : olsrLookupNeighborTableAlias hash tables nbrAddr with
  | none => exact ⟨tables, rfl, cross, SameNeighbors.refl tables⟩
  | some entry =>
    have found := nbr_of_lookup cross.toPlaced lookup
    obtain ⟨after, nbr, done, kept, same, last, empty⟩ :=
      crossLinked_deleteNbr2Lists cross found rfl
    refine
      ⟨after.freeNbr entry.ptr, ?_, crossLinked_freeNbr kept last empty, same.freeNbr entry.ptr⟩
    simp only [done, Option.bind_eq_bind, Option.bind_some]

end DeleteNeighbor

/-! ## Deleting a two-hop neighbour -/

/-- Where a neighbour's list holds the two-hop neighbour, its entry is
removed. -/
theorem olsrDeleteNeighbor2Pointer_eq (found : tables.nbr neighbor = some nbr)
    (found2 : tables.nbr2 twoHop = some nbr2) (stays : ¬ nbr2.neighbor2Pointer < 1)
    (linked : twoHop ∈ twoHops tables neighbor) : ∃ index entry, nbr.neighbor2List[index]? =
      some entry ∧ entry.neighbor2 = twoHop ∧ olsrDeleteNeighbor2Pointer neighbor twoHop tables =
      some (eraseNbr2 neighbor index tables) := by
  rw [twoHops_of_nbr found, List.mem_map] at linked
  obtain ⟨mem, inList, isTwoHop⟩ := linked
  cases searched : nbr.neighbor2List.findIdx? fun entry => entry.neighbor2 = twoHop with
  | none =>
    rw [List.findIdx?_eq_none_iff] at searched
    simpa [isTwoHop] using searched mem inList
  | some index =>
    obtain ⟨inside, isEntry, -⟩ := List.findIdx?_eq_some_iff_getElem.mp searched
    have listed := List.getElem?_eq_getElem inside
    have same : nbr.neighbor2List[index].neighbor2 = twoHop := by simpa using isEntry
    refine ⟨index, _, listed, same, ?_⟩
    rw [olsrDeleteNeighbor2Pointer, found]
    simp only [Option.bind_eq_bind, Option.bind_some, searched]
    rw [olsrDelNbr2List_eq found listed (same ▸ found2), if_neg stays]

/-- A two-hop neighbour is taken from the lists of some neighbours, and
nothing else happens. -/
structure Trims (twoHop : Ptr) (neighbors : List Ptr)
    (before after : Tables Addr Bucket) : Prop where
  placed : Placed after
  twoHops_eq : ∀ neighbor, twoHops after neighbor =
      if neighbor ∈ neighbors then (twoHops before neighbor).erase twoHop
      else twoHops before neighbor
  lists : ∀ {neighbor nbr'}, after.nbr neighbor = some nbr' →
      ∃ nbr, before.nbr neighbor = some nbr ∧ nbr'.neighbor2List ⊆ nbr.neighbor2List
  twoHopNeighbortable : after.twoHopNeighbortable = before.twoHopNeighbortable
  same : SameNeighbors before after

theorem Trims.refl (placed : Placed tables) (twoHop : Ptr) : Trims twoHop [] tables tables where
  placed := placed
  twoHops_eq := fun _ => rfl
  lists := fun found => ⟨_, found, List.Subset.refl _⟩
  twoHopNeighbortable := rfl
  same := SameNeighbors.refl tables

theorem Trims.cons {after : Tables Addr Bucket} {neighbors : List Ptr}
    (nodup : (twoHops tables neighbor).Nodup) (notLater : neighbor ∉ neighbors)
    (found : tables.nbr neighbor = some nbr) (listed : nbr.neighbor2List[index]? = some entry)
    (isTwoHop : entry.neighbor2 = twoHop)
    (later : Trims twoHop neighbors (eraseNbr2 neighbor index tables) after) :
    Trims twoHop (neighbor :: neighbors) tables after where
  placed := later.placed
  twoHops_eq := by
    intro other
    rw [later.twoHops_eq, twoHops_eraseNbr2 nodup found listed, isTwoHop, update_apply]
    by_cases same : other = neighbor
    · rw [same, if_pos rfl, if_neg notLater, if_pos List.mem_cons_self]
    · rw [if_neg same]
      simp [same]
  lists := by
    intro other nbr' found'
    obtain ⟨via, foundBetween, within⟩ := later.lists found'
    rw [eraseNbr2, nbr_writeNbr (ptr_dropEntry index)] at foundBetween
    split_ifs at foundBetween
    · obtain ⟨old, wasFound, rfl⟩ := Option.map_eq_some_iff.mp foundBetween
      exact ⟨old, wasFound, fun _ mem => List.mem_of_mem_eraseIdx (within mem)⟩
    · exact ⟨via, foundBetween, within⟩
  twoHopNeighbortable := later.twoHopNeighbortable
  same := sameNeighbors_eraseNbr2.trans later.same

/-- The loop of `olsr_delete_two_hop_neighbor_table`.  The counter is not
written, so that the two-hop neighbour stays in memory until the end. -/
theorem foldlM_olsrDeleteNeighbor2Pointer {entries : List NeighborListEntry}
    (stays : ¬ nbr2.neighbor2Pointer < 1) :
    ∀ {tables : Tables Addr Bucket}, Placed tables → tables.nbr2 twoHop = some nbr2 →
      (entries.map NeighborListEntry.neighbor).Nodup →
      (∀ neighbor, (twoHops tables neighbor).Nodup) →
      (∀ neighbor ∈ entries.map NeighborListEntry.neighbor, twoHop ∈ twoHops tables neighbor) →
      ∃ after, entries.foldlM
            (fun tables entry => olsrDeleteNeighbor2Pointer entry.neighbor twoHop tables)
            tables = some after ∧
          Trims twoHop (entries.map NeighborListEntry.neighbor) tables after := by
  induction entries with
  | nil =>
    intro tables placed _ _ _ _
    exact ⟨tables, rfl, Trims.refl placed twoHop⟩
  | cons first rest ih =>
    intro tables placed found2 nodup listsNodup linked
    rw [List.map_cons, List.nodup_cons] at nodup
    have linkedFirst := linked first.neighbor List.mem_cons_self
    obtain ⟨nbr, found⟩ := nbr_of_mem_twoHops linkedFirst
    obtain ⟨index, entry, listed, isTwoHop, taken⟩ :=
      olsrDeleteNeighbor2Pointer_eq found found2 stays linkedFirst
    have lists : twoHops (eraseNbr2 first.neighbor index tables) =
          update (twoHops tables) first.neighbor
            ((twoHops tables first.neighbor).erase entry.neighbor2) :=
      twoHops_eraseNbr2 (listsNodup first.neighbor) found listed
    have nodupNext :
        ∀ neighbor, (twoHops (eraseNbr2 first.neighbor index tables) neighbor).Nodup := by
      intro neighbor
      rw [lists, update_apply]
      split
      · exact (listsNodup first.neighbor).erase entry.neighbor2
      · exact listsNodup neighbor
    have linkedNext : ∀ neighbor ∈ rest.map NeighborListEntry.neighbor,
          twoHop ∈ twoHops (eraseNbr2 first.neighbor index tables) neighbor := by
      intro neighbor later
      have ne : neighbor ≠ first.neighbor := fun same => nodup.1 (same ▸ later)
      rw [lists, update_of_ne ne]
      exact linked neighbor (List.mem_cons_of_mem _ later)
    obtain ⟨after, done, trims⟩ :=
      ih (placed.writeNbr (ptr_dropEntry index)) found2 nodup.2 nodupNext linkedNext
    refine ⟨after, ?_, ?_⟩
    · rw [List.foldlM_cons, taken]
      exact done
    · exact Trims.cons (listsNodup first.neighbor) nodup.1 found listed isTwoHop trims

/-- Deleting a two-hop neighbour removes it from all lists. -/
theorem crossLinked_deleteTwoHop (cross : CrossLinked hash tables)
    (found2 : tables.nbr2 twoHop = some nbr2) :
    ∃ after, olsrDeleteTwoHopNeighborTable twoHop tables = some after ∧
        CrossLinked hash after ∧ SameNeighbors tables after ∧ ∀ other, after.nbr2 other =
            if other = twoHop then none else tables.nbr2 other := by
  have counted := cross.counted found2
  have reached := List.length_pos_of_ne_nil (cross.reached found2)
  have stays : ¬ nbr2.neighbor2Pointer < 1 := by
    rw [int16_lt_one_iff]
    omega
  have neighbors := oneHops_of_nbr2 found2
  obtain ⟨via, done, trims⟩ := foldlM_olsrDeleteNeighbor2Pointer stays cross.toPlaced found2
      (neighbors ▸ cross.mirrors.lefts_nodup twoHop)
      cross.mirrors.rights_nodup
      (fun neighbor mem => cross.mirrors.mem_iff.mpr (neighbors ▸ mem))
  have nbr2_between : ∀ other, via.nbr2 other = tables.nbr2 other := by
    intro other
    rw [Tables.nbr2, trims.twoHopNeighbortable]
    rfl
  have nbr2_after : ∀ other, (via.freeNbr2 twoHop).nbr2 other =
        if other = twoHop then none else tables.nbr2 other := by
    intro other
    rw [trims.placed.nbr2_freeNbr2, nbr2_between]
  have old : ∀ {other nbr2'}, (via.freeNbr2 twoHop).nbr2 other = some nbr2' →
        tables.nbr2 other = some nbr2' := by
    intro other nbr2' found'
    rw [nbr2_after] at found'
    split_ifs at found'
    exact found'
  refine ⟨via.freeNbr2 twoHop, ?_, ?_, trims.same.trans sameNeighbors_freeNbr2, nbr2_after⟩
  · rw [olsrDeleteTwoHopNeighborTable, found2]
    simp only [Option.bind_eq_bind, Option.bind_some, done]
    rw [nbr2_between, found2]
    rfl
  · refine ⟨⟨trims.placed.freeNbr2 twoHop, ?_, ?_, fun found' => cross.counted (old found'),
        fun found' => cross.hashed (old found'),
        fun found' other' => cross.unique (old found') (old other')⟩,
        fun found' => cross.reached (old found')⟩
    · have lists : twoHops (via.freeNbr2 twoHop) =
            fun neighbor => (twoHops tables neighbor).erase twoHop := by
        funext neighbor
        rw [twoHops_freeNbr2, trims.twoHops_eq, ← neighbors]
        split
        · rfl
        next notLinked =>
          rw [List.erase_of_not_mem]
          exact fun linked => notLinked (cross.mirrors.mem_iff.mp linked)
      have lefts : oneHops (via.freeNbr2 twoHop) = update (oneHops tables) twoHop [] := by
        rw [← cross.toPlaced.oneHops_freeNbr2]
        funext other
        rw [oneHops, nbr2_after, oneHops, cross.toPlaced.nbr2_freeNbr2]
      rw [lists, lefts]
      exact cross.mirrors.clear twoHop
    · intro neighbor nbr' found' entry listed
      obtain ⟨nbr, found, within⟩ := trims.lists found'
      exact cross.owned found entry (within listed)

end Links

end QosOlsr.Neighborhood
