import QosOlsr.Library.Loop
import QosOlsr.Neighborhood.Links

/-!
# One neighbour per main address

`olsr_insert_neighbor_table` asks whether there is an entry under the address;
`olsr_update_neighbor_main_addr` does not.  All other operations keep the
addresses distinct.
-/

namespace QosOlsr.Neighborhood

open Library List Option

variable {Addr Bucket : Type} {tables after : Tables Addr Bucket} {neighbor : Ptr}
  {ctx : HelloContext Addr}

/-! ## Steps that add no link -/

/-- A preorder of tables that every elementary step follows, but for those that
add a neighbour, a two-hop neighbour or a link. -/
structure Deleting {Addr Bucket : Type}
    (Follows : Tables Addr Bucket → Tables Addr Bucket → Prop) : Prop where
  refl : ∀ tables, Follows tables tables
  trans : ∀ {tables next after}, Follows tables next → Follows next after → Follows tables after
  writeNbr2 : ∀ {tables twoHop write}, Follows tables (tables.writeNbr2 twoHop write)
  freeNbr2 : ∀ {tables twoHop}, Follows tables (tables.freeNbr2 twoHop)
  writeNbr : ∀ {tables neighbor write}, (∀ entry, (write entry).core = entry.core) →
    (∀ entry, (write entry).neighbor2List ⊆ entry.neighbor2List) →
      Follows tables (tables.writeNbr neighbor write)

namespace Deleting

variable {Follows : Tables Addr Bucket → Tables Addr Bucket → Prop}

section

variable (deleting : Deleting Follows)
include deleting

theorem delNbr2List {index : Nat}
    (done : olsrDelNbr2List neighbor index tables = some after) : Follows tables after := by
  simp only [olsrDelNbr2List, bind_eq_bind, bind_eq_some_iff] at done
  obtain ⟨nbr, -, entry, -, nbr2, -, ⟨⟩⟩ := done
  refine deleting.trans ?_ (deleting.writeNbr (fun _ => rfl) fun _ => eraseIdx_subset)
  split
  · exact deleting.freeNbr2
  · exact deleting.refl tables

variable {twoHop : Ptr}

theorem deleteNeighborPointer
    (done : olsrDeleteNeighborPointer twoHop neighbor tables = some after) :
    Follows tables after := by
  simp only [olsrDeleteNeighborPointer, bind_eq_bind, bind_eq_some_iff] at done
  obtain ⟨nbr2, -, ⟨⟩⟩ := done
  exact deleting.writeNbr2

private theorem deleteNeighbor2Pointer
    (done : olsrDeleteNeighbor2Pointer neighbor twoHop tables = some after) :
    Follows tables after := by
  simp only [olsrDeleteNeighbor2Pointer, bind_eq_bind, bind_eq_some_iff] at done
  obtain ⟨nbr, -, rest⟩ := done
  split at rest
  · cases rest
    exact deleting.refl tables
  · exact deleting.delNbr2List rest

theorem deleteTwoHop
    (done : olsrDeleteTwoHopNeighborTable twoHop tables = some after) : Follows tables after := by
  simp only [olsrDeleteTwoHopNeighborTable, bind_eq_bind, bind_eq_some_iff] at done
  obtain ⟨nbr2, -, between, looped, -, -, ⟨⟩⟩ := done
  have reached : Follows tables between := foldlM_preserves (fun _ next => Follows tables next)
      (fun _ follows taken => deleting.trans follows (deleting.deleteNeighbor2Pointer taken))
      (deleting.refl tables) looped
  exact deleting.trans reached deleting.freeNbr2

theorem expireNbr2List {index : Nat}
    (done : olsrExpireNbr2List neighbor index tables = some after) : Follows tables after := by
  simp only [olsrExpireNbr2List, bind_eq_bind, bind_eq_some_iff] at done
  obtain ⟨nbr, -, entry, -, via, dropped, deleted⟩ := done
  exact deleting.trans (deleting.deleteNeighborPointer dropped) (deleting.delNbr2List deleted)

theorem deleteNbr2Lists {entries : List Neighbor2ListEntry}
    (done : Neighborhood.deleteNbr2Lists neighbor entries tables = some after) :
    Follows tables after := by
  induction entries generalizing tables with
  | nil =>
    rw [← some.inj done]
    exact deleting.refl tables
  | cons entry rest ih =>
    simp only [Neighborhood.deleteNbr2Lists, bind_eq_bind, bind_eq_some_iff] at done
    obtain ⟨dropped, isDropped, next, isNext, isAfter⟩ := done
    have first := deleting.trans (deleting.deleteNeighborPointer isDropped)
      (deleting.delNbr2List isNext)
    exact deleting.trans first (ih isAfter)

theorem updateNeighborStatus [DecidableEq Addr] [DecidableEq Bucket]
    {hash : Addr → Bucket} {lnk : LinkType}
    (done : Neighborhood.updateNeighborStatus hash neighbor lnk tables = some after) :
    Follows tables after := by
  simp only [Neighborhood.updateNeighborStatus, bind_eq_bind, bind_eq_some_iff] at done
  obtain ⟨nbr, -, rest⟩ := done
  have written : ∀ {via : Tables Addr Bucket} {status : NeighStatus}, Follows tables via →
          Follows tables (via.writeNbr neighbor fun entry => { entry with status := status }) :=
    fun follows =>
      deleting.trans follows (deleting.writeNbr (fun _ => rfl) fun _ => List.Subset.refl _)
  split at rest
  · split at rest
    · split at rest
      · obtain ⟨via, deleted, ⟨⟩⟩ := bind_eq_some_iff.mp rest
        exact written (deleting.deleteTwoHop deleted)
      · exact some.inj rest ▸ written (deleting.refl tables)
    · exact some.inj rest ▸ written (deleting.refl tables)
  · exact some.inj rest ▸ written (deleting.refl tables)

end

variable [DecidableEq Addr]

theorem updatePathLinkcost (deleting : Deleting Follows) {firstHopPathcost : UInt32}
    {msg : HelloNeighbor Addr}
    (done : Neighborhood.updatePathLinkcost ctx neighbor firstHopPathcost tables msg = some after) :
    Follows tables after := by
  simp only [Neighborhood.updatePathLinkcost] at done
  split at done
  · exact some.inj done ▸ deleting.refl tables
  · simp only [bind_eq_bind, bind_eq_some_iff] at done
    obtain ⟨nbr, -, result, -, rest⟩ := done
    split at rest
    · exact some.inj rest ▸ deleting.refl tables
    · exact some.inj rest ▸ deleting.writeNbr2

theorem processMessageNeighbors [DecidableEq Bucket] (deleting : Deleting Follows)
    {hash : Addr → Bucket} {messages : List (HelloNeighbor Addr)} {looped : Tables Addr Bucket}
    (isLooped : messages.foldlM (processMessageNeighbor hash ctx neighbor) tables = some looped)
    (done : Neighborhood.processMessageNeighbors hash ctx neighbor messages tables = some after) :
    Follows looped after := by
  have sized : Follows looped
        (looped.writeNbr neighbor fun nbr => { nbr with neighborSize := messages.length }) :=
    deleting.writeNbr (fun _ => rfl) fun _ => List.Subset.refl _
  simp only [Neighborhood.processMessageNeighbors, isLooped, bind_eq_bind, bind_some] at done
  split at done
  · split at done
    · exact foldlM_preserves (fun _ next => Follows looped next)
          (fun _ follows taken => deleting.trans follows (deleting.updatePathLinkcost taken))
          sized done
    · exact some.inj done ▸ sized
  · exact some.inj done ▸ sized

end Deleting

section Same

theorem deleting_sameNeighbors : Deleting (@SameNeighbors Addr Bucket) where
  refl := SameNeighbors.refl
  trans := SameNeighbors.trans
  writeNbr2 := sameNeighbors_writeNbr2
  freeNbr2 := sameNeighbors_freeNbr2
  writeNbr keeps _ := sameNeighbors_writeNbr keeps

private theorem sameNeighbors_of_foldlM
    {Item : Type*} {step : Tables Addr Bucket → Item → Option (Tables Addr Bucket)}
    {items : List Item} (keeps : ∀ {item : Item} {tables next : Tables Addr Bucket},
        step tables item = some next → SameNeighbors tables next)
    (done : items.foldlM step tables = some after) : SameNeighbors tables after :=
  foldlM_preserves (fun _ next => SameNeighbors tables next)
    (fun _ same taken => same.trans (keeps taken)) (SameNeighbors.refl tables) done

theorem sameNeighbors_of_linking {twoHop : Ptr}
    (done : linkingThis2Entries neighbor twoHop tables = some after) :
    SameNeighbors tables after := by
  simp only [linkingThis2Entries, bind_eq_bind, bind_eq_some_iff] at done
  obtain ⟨nbr, -, nbr2, -, ⟨⟩⟩ := done
  exact sameNeighbors_writeNbr2.trans (sameNeighbors_writeNbr fun _ => rfl)

variable [DecidableEq Addr] [DecidableEq Bucket] {hash : Addr → Bucket} {status : NeighType}
  {address : Addr}

private theorem sameNeighbors_of_processKnownTwoHop {yet : Neighbor2ListEntry}
    (done : processKnownTwoHop hash ctx neighbor status address yet tables = some after) :
    SameNeighbors tables after := by
  rw [processKnownTwoHop, deleteLostTwoHop] at done
  generalize isReset : (if 0 < ctx.lqLevel then _ else tables) = reset at done
  have sameReset : SameNeighbors tables reset := by
    rw [← isReset]
    split
    · exact sameNeighbors_writeNbr2
    · exact SameNeighbors.refl tables
  split at done
  · split at done
    · exact sameReset.trans (deleting_sameNeighbors.deleteTwoHop done)
    · exact some.inj done ▸ sameReset
  · exact some.inj done ▸ sameReset

private theorem sameNeighbors_of_processNewTwoHop
    (done : processNewTwoHop hash neighbor status address tables = some after) :
    SameNeighbors tables after := by
  rw [processNewTwoHop] at done
  split at done
  · exact some.inj done ▸ SameNeighbors.refl tables
  · split at done
    · split at done
      · exact sameNeighbors_queueTwoHop.trans (sameNeighbors_of_linking done)
      · exact some.inj done ▸ SameNeighbors.refl tables
    · split at done
      · exact sameNeighbors_of_linking done
      · exact deleting_sameNeighbors.deleteTwoHop done

private theorem sameNeighbors_of_processMessageNeighbor {msg : HelloNeighbor Addr}
    (done : processMessageNeighbor hash ctx neighbor tables msg = some after) :
    SameNeighbors tables after := by
  rw [processMessageNeighbor] at done
  split at done
  · exact some.inj done ▸ SameNeighbors.refl tables
  · simp only [bind_eq_bind, bind_eq_some_iff] at done
    obtain ⟨nbr, -, result, -, rest⟩ := done
    split at rest
    · exact sameNeighbors_of_processKnownTwoHop rest
    · exact sameNeighbors_of_processNewTwoHop rest

private theorem sameNeighbors_of_processMessageNeighbors {messages : List (HelloNeighbor Addr)}
    (done : processMessageNeighbors hash ctx neighbor messages tables = some after) :
    SameNeighbors tables after := by
  obtain ⟨looped, isLooped, -⟩ := bind_eq_some_iff.mp done
  exact (sameNeighbors_of_foldlM sameNeighbors_of_processMessageNeighbor isLooped).trans
      (deleting_sameNeighbors.processMessageNeighbors isLooped done)

theorem sameNeighbors_of_deleteNeighborTable {nbrAddr : Addr}
    (done : olsrDeleteNeighborTable hash nbrAddr tables = some after) :
    SameNeighbors (withoutNeighbor hash nbrAddr tables) after := by
  rw [olsrDeleteNeighborTable] at done
  rw [withoutNeighbor]
  cases lookup : olsrLookupNeighborTableAlias hash tables nbrAddr with
  | none =>
    rw [lookup] at done
    exact some.inj done ▸ SameNeighbors.refl tables
  | some entry =>
    rw [lookup] at done
    obtain ⟨via, looped, ⟨⟩⟩ := bind_eq_some_iff.mp done
    exact (deleting_sameNeighbors.deleteNbr2Lists looped).freeNbr entry.ptr

def neighborsAfter (hash : Addr → Bucket) (tables : Tables Addr Bucket) :
    TwoHopEvent Addr → Tables Addr Bucket
  | .insertNeighbor mainAddr => (olsrInsertNeighborTable hash mainAddr tables).1
  | .deleteNeighbor neighborAddr => withoutNeighbor hash neighborAddr tables
  | _ => tables

theorem sameNeighbors_of_twoHopStep {event : TwoHopEvent Addr}
    (done : twoHopStep hash tables event = some after) :
    SameNeighbors (neighborsAfter hash tables event) after := by
  rw [twoHopStep] at done
  cases event with
  | insertNeighbor mainAddr => exact some.inj done ▸ SameNeighbors.refl _
  | deleteNeighbor nbrAddr => exact sameNeighbors_of_deleteNeighborTable done
  | processMessageNeighbors ctx neighbor neighbors =>
    split at done
    · exact sameNeighbors_of_processMessageNeighbors done
    · exact some.inj done ▸ SameNeighbors.refl tables
  | expireNbr2List neighbor index =>
    split at done
    · exact deleting_sameNeighbors.expireNbr2List done
    · exact some.inj done ▸ SameNeighbors.refl tables
  | deleteTwoHop twoHop =>
    split at done
    · exact deleting_sameNeighbors.deleteTwoHop done
    · exact some.inj done ▸ SameNeighbors.refl tables
  | updateNeighborStatus neighbor lnk =>
    split at done
    · exact deleting_sameNeighbors.updateNeighborStatus done
    · exact some.inj done ▸ SameNeighbors.refl tables

end Same

section Keys

variable {hash : Addr → Bucket}

/-- No two neighbours have the same main address, and each is in the bucket of
its own. -/
structure KeysUnique (hash : Addr → Bucket) (tables : Tables Addr Bucket) : Prop where
  addresses_nodup : (tables.neighbortable.map NeighborEntry.neighborMainAddr).Nodup
  hashed : ∀ entry ∈ tables.neighbortable, entry.bucket = hash entry.neighborMainAddr

def NeighborEntry.place (entry : NeighborEntry Addr Bucket) : Bucket × Addr :=
  (entry.bucket, entry.neighborMainAddr)

section

variable (keys : KeysUnique hash tables)
include keys

theorem KeysUnique.of_places
    (places : after.neighbortable.map NeighborEntry.place =
        tables.neighbortable.map NeighborEntry.place) :
    KeysUnique hash after where
  addresses_nodup := by
    have addrs := congrArg (List.map Prod.snd) places
    rw [List.map_map, List.map_map] at addrs
    exact addrs ▸ keys.addresses_nodup
  hashed := by
    intro entry mem
    have placed := mem_map_of_mem (f := NeighborEntry.place) mem
    rw [places] at placed
    obtain ⟨before, wasMem, place⟩ := List.mem_map.mp placed
    obtain ⟨bucket, address⟩ := Prod.mk.inj place
    rw [← bucket, ← address]
    exact keys.hashed before wasMem

theorem KeysUnique.of_same (same : SameNeighbors tables after) : KeysUnique hash after := by
  apply keys.of_places
  have places :=
    congrArg (List.map fun core : Ptr × Bucket × Addr × Int => (core.2.1, core.2.2.1)) same.cores
  rwa [List.map_map, List.map_map] at places

theorem KeysUnique.freeNbr (ptr : Ptr) : KeysUnique hash (tables.freeNbr ptr) where
  addresses_nodup := keys.addresses_nodup.sublist
      (eraseP_sublist.map NeighborEntry.neighborMainAddr)
  hashed := fun entry mem => keys.hashed entry (mem_of_mem_eraseP mem)

theorem KeysUnique.cons {entry : NeighborEntry Addr Bucket}
    (isNew : entry.neighborMainAddr ∉ tables.neighbortable.map NeighborEntry.neighborMainAddr)
    (hashed : entry.bucket = hash entry.neighborMainAddr)
    (queued : after.neighbortable = entry :: tables.neighbortable) : KeysUnique hash after where
  addresses_nodup := by
    rw [queued]
    exact nodup_cons.mpr ⟨isNew, keys.addresses_nodup⟩
  hashed := by
    rw [queued]
    intro other mem
    rcases mem_cons.mp mem with rfl | old
    · exact hashed
    · exact keys.hashed other old

end

variable [DecidableEq Addr] [DecidableEq Bucket]

section

variable (keys : KeysUnique hash tables)
include keys

/-- Where the buckets are right, a lookup misses no entry. -/
theorem KeysUnique.lookup_eq_none_iff {dst : Addr} : olsrLookupNeighborTableAlias hash tables dst =
      none ↔ dst ∉ tables.neighbortable.map NeighborEntry.neighborMainAddr := by
  rw [olsrLookupNeighborTableAlias, List.find?_eq_none, List.mem_map, not_exists]
  apply forall_congr'
  intro entry
  rw [not_and]
  apply imp_congr_right
  intro mem
  have hashed := keys.hashed entry mem
  simp only [decide_eq_true_eq, not_and]
  constructor
  · rintro ne rfl
    exact ne hashed rfl
  · exact fun ne _ => ne

theorem KeysUnique.withoutNeighbor (nbrAddr : Addr) :
    KeysUnique hash (withoutNeighbor hash nbrAddr tables) := by
  rw [Neighborhood.withoutNeighbor]
  split
  · exact keys
  next entry _ => exact keys.freeNbr entry.ptr

theorem KeysUnique.insertNeighborTable (mainAddr : Addr) :
    KeysUnique hash (olsrInsertNeighborTable hash mainAddr tables).1 := by
  rw [olsrInsertNeighborTable]
  split
  · exact keys
  next lookup => exact keys.cons (keys.lookup_eq_none_iff.mp lookup) rfl rfl

private theorem KeysUnique.updateNeighborMainAddr {ptr : Ptr} {newMainAddr : Addr}
    (isNew : olsrLookupNeighborTableAlias hash tables newMainAddr = none)
    (done : olsrUpdateNeighborMainAddr hash ptr newMainAddr tables = some after) :
    KeysUnique hash after := by
  obtain ⟨entry, -, ⟨⟩⟩ := bind_eq_some_iff.mp done
  refine (keys.freeNbr ptr).cons ?_ rfl rfl
  intro present
  apply keys.lookup_eq_none_iff.mp isNew
  exact (eraseP_sublist.map NeighborEntry.neighborMainAddr).subset present

end

/-- The link leads to a neighbour under the given main address, or the
address is free. -/
def renamesCleanly (hash : Addr → Bucket) (remote remoteMain : Addr)
    (localIf : Interface Addr) (tables : Tables Addr Bucket) : Bool :=
  (findLinkEntry remote localIf tables).all fun link =>
    (tables.nbr link.neighbor).all fun nbr =>
      remoteMain = nbr.neighborMainAddr ||
        (olsrLookupNeighborTableAlias hash tables remoteMain).isNone

section

variable (keys : KeysUnique hash tables)
include keys

theorem KeysUnique.lookupLinkEntry
    {remote : Addr} {remoteMain : Option Addr} {localIf : Interface Addr} (cleanly : ∀ mainAddr,
        remoteMain = some mainAddr → renamesCleanly hash remote mainAddr localIf tables)
    (done : lookupLinkEntry hash remote remoteMain localIf tables = some after) :
    KeysUnique hash after := by
  unfold Neighborhood.lookupLinkEntry at done
  split at done
  next link mainAddr found =>
    obtain ⟨nbr, foundNbr, rest⟩ := bind_eq_some_iff.mp done
    have clean := cleanly mainAddr rfl
    simp only [renamesCleanly, found, foundNbr, all_some,
      Bool.or_eq_true, decide_eq_true_eq, isNone_iff_eq_none] at clean
    split at rest
    next renamed => exact keys.updateNeighborMainAddr (clean.resolve_left renamed) rest
    · exact some.inj rest ▸ keys
  · exact some.inj done ▸ keys

theorem KeysUnique.addLinkEntry {remote remoteMain : Addr} {localIf : Interface Addr}
    (cleanly : renamesCleanly hash remote remoteMain localIf tables)
    (done : addLinkEntry hash remote remoteMain localIf tables = some after) :
    KeysUnique hash after := by
  unfold Neighborhood.addLinkEntry at done
  split at done
  · apply keys.lookupLinkEntry _ done
    rintro mainAddr ⟨⟩
    exact cleanly
  · cases done
    have found : KeysUnique hash (neighborOfNewLink hash remoteMain tables).1 := by
      rw [neighborOfNewLink]
      split
      · exact keys
      · exact keys.insertNeighborTable remoteMain
    exact found.of_places (map_modifyKey fun _ => rfl)

theorem KeysUnique.deleteNeighborTable {nbrAddr : Addr}
    (done : olsrDeleteNeighborTable hash nbrAddr tables = some after) : KeysUnique hash after :=
  (keys.withoutNeighbor nbrAddr).of_same (sameNeighbors_of_deleteNeighborTable done)

theorem KeysUnique.twoHopStep {event : TwoHopEvent Addr}
    (done : twoHopStep hash tables event = some after) : KeysUnique hash after := by
  apply KeysUnique.of_same _ (sameNeighbors_of_twoHopStep done)
  cases event with
  | insertNeighbor mainAddr => exact keys.insertNeighborTable mainAddr
  | deleteNeighbor nbrAddr => exact keys.withoutNeighbor nbrAddr
  | _ => exact keys

theorem KeysUnique.deleteLinkEntry {index : Nat}
    (done : olsrDeleteLinkEntry hash index tables = some after) : KeysUnique hash after := by
  simp only [olsrDeleteLinkEntry, bind_eq_bind, bind_eq_some_iff] at done
  obtain ⟨link, -, nbr, -, rest⟩ := done
  split at rest
  · obtain ⟨via, deleted, ⟨⟩⟩ := bind_eq_some_iff.mp rest
    exact (keys.deleteNeighborTable deleted).of_places rfl
  · cases rest
    exact keys.of_places (map_modifyKey fun _ => rfl)

theorem KeysUnique.dropAliasEntries {mAddr aliasAddr : Addr}
    (done : dropAliasEntries hash mAddr tables aliasAddr = some after) : KeysUnique hash after := by
  have dropped : ∀ {via : Tables Addr Bucket}, KeysUnique hash via →
        KeysUnique hash (mergeAliasNeighbor hash mAddr aliasAddr via) := by
    intro via keysBetween
    rw [mergeAliasNeighbor]
    split
    next tmpNeigh realNeigh _ _ => exact (keysBetween.freeNbr tmpNeigh.ptr).of_places rfl
    · exact keysBetween
  simp only [Neighborhood.dropAliasEntries, bind_eq_bind] at done
  split at done
  · obtain ⟨via, deleted, ⟨⟩⟩ := bind_eq_some_iff.mp done
    exact dropped (keys.of_same (deleting_sameNeighbors.deleteTwoHop deleted))
  · cases done
    exact dropped keys

theorem KeysUnique.insertMidTuple {mAddr aliasAddr : Addr}
    (done : insertMidTuple hash mAddr aliasAddr tables = some after) : KeysUnique hash after := by
  rw [Neighborhood.insertMidTuple] at done
  split at done
  · exact some.inj done ▸ keys
  · have queued : KeysUnique hash
          { tables with mids := queueMidTuple tables.mids mAddr aliasAddr } :=
      keys.of_places rfl
    exact foldlM_preserves (fun _ next => KeysUnique hash next)
        (fun _ held taken => KeysUnique.dropAliasEntries held taken) queued
        done

theorem KeysUnique.insertMidAlias {olsrValidateAddress : Addr → Bool} {mainAdd aliasAddr : Addr}
    (done : insertMidAlias hash olsrValidateAddress mainAdd aliasAddr tables = some after) :
    KeysUnique hash after := by
  rw [Neighborhood.insertMidAlias] at done
  split at done
  · obtain ⟨replaced, isReplaced, inserted⟩ := bind_eq_some_iff.mp done
    refine KeysUnique.insertMidTuple ?_ inserted
    rw [replaceNeighbor] at isReplaced
    split at isReplaced
    · exact some.inj isReplaced ▸ keys
    · obtain ⟨deleted, isDeleted, ⟨⟩⟩ := bind_eq_some_iff.mp isReplaced
      exact ((keys.deleteNeighborTable isDeleted).insertNeighborTable mainAdd).of_places rfl
  · exact some.inj done ▸ keys

end

/-- A HELLO that finds its link names the neighbour by its main address or by
one that no neighbour has. -/
def RenamesCleanly (hash : Addr → Bucket) (tables : Tables Addr Bucket) :
    NeighborhoodEvent Addr → Prop
  | .addLinkEntry remote remoteMain localIf => renamesCleanly hash remote remoteMain localIf tables
  | .lookupLinkEntry remote (some remoteMain) localIf =>
    renamesCleanly hash remote remoteMain localIf tables
  | _ => True

instance (hash : Addr → Bucket) (tables : Tables Addr Bucket) (event : NeighborhoodEvent Addr) :
    Decidable (RenamesCleanly hash tables event) :=
  match event with
  | .twoHop _ => isTrue trivial
  | .addLinkEntry .. => inferInstanceAs (Decidable (_ = true))
  | .lookupLinkEntry _ none _ => isTrue trivial
  | .lookupLinkEntry _ (some _) _ => inferInstanceAs (Decidable (_ = true))
  | .deleteLinkEntry _ => isTrue trivial
  | .insertMidAlias .. => isTrue trivial
  | .expireMidEntry _ => isTrue trivial
  | .pruneAliases .. => isTrue trivial

private theorem keysUnique_neighborhoodStep {event : NeighborhoodEvent Addr}
    (keys : KeysUnique hash tables) (cleanly : RenamesCleanly hash tables event)
    (taken : neighborhoodStep hash tables event = some after) : KeysUnique hash after := by
  cases event with
  | twoHop event => exact keys.twoHopStep taken
  | addLinkEntry remote remoteMain localIf => exact keys.addLinkEntry cleanly taken
  | lookupLinkEntry remote remoteMain localIf =>
    apply keys.lookupLinkEntry _ taken
    rintro mainAddr rfl
    exact cleanly
  | deleteLinkEntry index =>
    rw [neighborhoodStep] at taken
    split at taken
    · exact keys.deleteLinkEntry taken
    · exact some.inj taken ▸ keys
  | insertMidAlias olsrValidateAddress mainAdd aliasAddr => exact keys.insertMidAlias taken
  | expireMidEntry mainAddr => exact some.inj taken ▸ keys.of_places rfl
  | pruneAliases nowTimes msg => exact some.inj taken ▸ keys.of_places rfl

/-- In every run that renames neighbours to free addresses only, there is one
neighbour per main address. -/
theorem keysUnique_of_renamesCleanly
    (hash : Addr → Bucket) (events : List (NeighborhoodEvent Addr)) (final : Tables Addr Bucket)
    (cleanly : RunMeets (neighborhoodStep hash)
        (RenamesCleanly hash) (Tables.init Addr Bucket) events)
    (finished : runEvents (neighborhoodStep hash) (Tables.init Addr Bucket) events = some final) :
    KeysUnique hash final := by
  have initially : KeysUnique hash (Tables.init Addr Bucket) :=
    ⟨nodup_nil, fun _ impossible => nomatch impossible⟩
  exact runEvents_invariant_of_meets keysUnique_neighborhoodStep initially cleanly finished

end Keys

def wlan : Interface (IpAddr .inet) := ⟨some "wlan0", hostAddr 1⟩

/-- A neighbour changes its main address to one that is free. -/
theorem keysUnique_of_renamesCleanly_new_address : ∃ final,
      runEvents (neighborhoodStep olsrIpHashing) (Tables.init (IpAddr .inet) UInt32)
          [.addLinkEntry (hostAddr 2) (hostAddr 2) wlan,
            .addLinkEntry (hostAddr 3) (hostAddr 3) wlan,
            .addLinkEntry (hostAddr 3) (hostAddr 4) wlan] = some final ∧
        KeysUnique olsrIpHashing final := by
  cases finished :
    runEvents (neighborhoodStep olsrIpHashing) (Tables.init (IpAddr .inet) UInt32)
      [.addLinkEntry (hostAddr 2) (hostAddr 2) wlan, .addLinkEntry (hostAddr 3) (hostAddr 3) wlan,
        .addLinkEntry (hostAddr 3) (hostAddr 4) wlan] with
  | none => exact absurd finished (by decide +kernel)
  | some final =>
    refine ⟨final, rfl, ?_⟩
    exact keysUnique_of_renamesCleanly olsrIpHashing _ final (by decide +kernel) finished

/-- HELLOs arrive from the interfaces 10.0.0.2 and 10.0.0.3 of one node, which
call it by different main addresses at first and then by the same one: the
second neighbour is renamed although there is one with that address. -/
theorem lookupLinkEntry_duplicates_address : ∃ final, runEvents (neighborhoodStep olsrIpHashing)
          (Tables.init (IpAddr .inet) UInt32)
          [.addLinkEntry (hostAddr 2) (hostAddr 2) wlan,
            .addLinkEntry (hostAddr 3) (hostAddr 3) wlan,
            .addLinkEntry (hostAddr 3) (hostAddr 2) wlan] = some final ∧
        final.neighbortable.map NeighborEntry.neighborMainAddr = [hostAddr 2, hostAddr 2] ∧
        ¬ KeysUnique olsrIpHashing final := by
  have addresses :
      (runEvents (neighborhoodStep olsrIpHashing) (Tables.init (IpAddr .inet) UInt32)
          [.addLinkEntry (hostAddr 2) (hostAddr 2) wlan,
            .addLinkEntry (hostAddr 3) (hostAddr 3) wlan,
            .addLinkEntry (hostAddr 3) (hostAddr 2) wlan]).map
        (fun final => final.neighbortable.map NeighborEntry.neighborMainAddr) =
        some [hostAddr 2, hostAddr 2] := by
    decide +kernel
  obtain ⟨final, finished, twice⟩ := map_eq_some_iff.mp addresses
  refine ⟨final, finished, twice, fun keys => ?_⟩
  have nodup := keys.addresses_nodup
  rw [twice] at nodup
  exact absurd nodup (by decide)

end QosOlsr.Neighborhood
