import QosOlsr.Library.Loop
import QosOlsr.Library.Mirrored
import QosOlsr.MidSet

/-!
# The memory of the interface association set

`mid_set.c` with its pointers.  A `mid_address` is chained to the aliases of its
`mid_entry`, queued in the bucket of its address in `reverse_mid_set`, and leads
back to the entry.  Memory and `hash` are as for the neighbour tables.
-/

namespace QosOlsr.MidTables

open Library Function List Option

variable {Addr Bucket : Type} {hash : Addr → Bucket}

abbrev Ptr : Type := Nat

structure AddressNode (Addr Bucket : Type) where
  ptr : Ptr
  bucket : Bucket
  aliasAddr : Addr
  mainEntry : Ptr
  vtime : UInt32
  deriving DecidableEq

/-- `struct mid_entry`, with the chain of its aliases. -/
structure EntryNode (Addr Bucket : Type) where
  ptr : Ptr
  bucket : Bucket
  mainAddr : Addr
  aliases : List Ptr
  deriving DecidableEq

structure Tables (Addr Bucket : Type) where
  midSet : List (EntryNode Addr Bucket)
  reverseMidSet : List (AddressNode Addr Bucket)
  nextPtr : Ptr
  deriving DecidableEq

def Tables.init (Addr Bucket : Type) : Tables Addr Bucket := ⟨[], [], 0⟩

structure State (Addr Bucket : Type) where
  tables : Tables Addr Bucket
  neighbors : List Addr
  deriving DecidableEq

section Memory

variable (tables : Tables Addr Bucket)

def Tables.entry (ptr : Ptr) : Option (EntryNode Addr Bucket) :=
  tables.midSet.find? fun entry => entry.ptr = ptr

def Tables.address (ptr : Ptr) : Option (AddressNode Addr Bucket) :=
  tables.reverseMidSet.find? fun node => node.ptr = ptr

def Tables.writeAliases (ptr : Ptr) (write : List Ptr → List Ptr) : Tables Addr Bucket :=
  { tables with
    midSet := modifyKey EntryNode.ptr ptr
        (fun entry => { entry with aliases := write entry.aliases })
        tables.midSet }

def Tables.writeVtime (ptr : Ptr) (vtime : UInt32) : Tables Addr Bucket :=
  { tables with
    reverseMidSet := modifyKey AddressNode.ptr ptr (fun node => { node with vtime := vtime })
        tables.reverseMidSet }

def Tables.freeEntry (ptr : Ptr) : Tables Addr Bucket :=
  { tables with midSet := tables.midSet.eraseP fun entry => entry.ptr = ptr }

def Tables.freeAddress (ptr : Ptr) : Tables Addr Bucket :=
  { tables with reverseMidSet := tables.reverseMidSet.eraseP fun node => node.ptr = ptr }

/-- `DEQUEUE_ELEM` and `free` of an alias that must be in memory. -/
def dequeueAlias (ptr : Ptr) : Option (Tables Addr Bucket) := do
  let _ ← tables.address ptr
  some (tables.freeAddress ptr)

def olsrDeleteMidEntry (mid : Ptr) (tables : Tables Addr Bucket) : Option (Tables Addr Bucket) := do
  let entry ← tables.entry mid
  let tables ← entry.aliases.foldlM dequeueAlias tables
  some (tables.freeEntry mid)

end Memory

section Operations

variable [DecidableEq Addr] [DecidableEq Bucket] (hash : Addr → Bucket)

section

variable (tables : Tables Addr Bucket)

def midLookupMainAddr (adr : Addr) : Option (Option Addr) :=
  match tables.reverseMidSet.find? fun node =>
      node.bucket = hash adr ∧ node.aliasAddr = adr with
  | none => some none
  | some node => do
    let entry ← tables.entry node.mainEntry
    some (some entry.mainAddr)

def midLookupEntryBymain (adr : Addr) : Option (EntryNode Addr Bucket) :=
  tables.midSet.find? fun entry =>
    entry.bucket = hash adr ∧ entry.mainAddr = adr

/-- `olsr_cleanup_mid`, and what `insert_mid_alias` does about an entry under
the alias. -/
def olsrCleanupMid (orig : Addr) (tables : Tables Addr Bucket) : Option (Tables Addr Bucket) :=
  match midLookupEntryBymain hash tables orig with
  | some entry => olsrDeleteMidEntry entry.ptr tables
  | none => some tables

def Tables.queueAlias (aliasAddr : Addr) (mid : Ptr) : Tables Addr Bucket :=
  { (tables.writeAliases mid fun aliases => tables.nextPtr :: aliases) with
    reverseMidSet := ⟨tables.nextPtr, hash aliasAddr, aliasAddr, mid, 0⟩ :: tables.reverseMidSet
    nextPtr := tables.nextPtr + 1 }

def Tables.queueEntry (mAddr : Addr) : Tables Addr Bucket :=
  { tables with
    midSet := ⟨tables.nextPtr, hash mAddr, mAddr, []⟩ :: tables.midSet
    nextPtr := tables.nextPtr + 1 }

def readAliases (aliases : List Ptr) : Option (List Addr) :=
  aliases.mapM fun ptr => (tables.address ptr).map AddressNode.aliasAddr

end

/-- The part of `insert_mid_tuple` that queues the alias; the last loop walks
the aliases of the entry. -/
def queueMidTuple (mAddr aliasAddr : Addr) (mid : Ptr) (st : State Addr Bucket) :
    Option (State Addr Bucket) := do
  let tables := st.tables.queueAlias hash aliasAddr mid
  let entry ← tables.entry mid
  let aliases ← readAliases tables entry.aliases
  some ⟨tables, dropBogusNeighbors mAddr st.neighbors aliases⟩

def insertMidTuple (mAddr aliasAddr : Addr) (st : State Addr Bucket) :
    Option (State Addr Bucket) := do
  let registered ← midLookupMainAddr hash st.tables aliasAddr
  if registered = some mAddr then
    some st
  else
    match midLookupEntryBymain hash st.tables mAddr with
    | some entry => queueMidTuple hash mAddr aliasAddr entry.ptr st
    | none =>
      queueMidTuple hash mAddr aliasAddr st.tables.nextPtr
        { st with tables := st.tables.queueEntry hash mAddr }

def insertMidAlias (ctx : MidContext Addr) (mainAdd aliasAddr : Addr)
    (st : State Addr Bucket) : Option (State Addr Bucket) :=
  if ¬ ctx.olsrValidateAddress aliasAddr then
    some st
  else if aliasAddr ∈ st.neighbors then do
    let tables ← olsrCleanupMid hash aliasAddr st.tables
    insertMidTuple hash mainAdd aliasAddr ⟨tables, renameNeighbor mainAdd aliasAddr st.neighbors⟩
  else
    insertMidTuple hash mainAdd aliasAddr st

def pruneAlias (nowTimes : UInt32) (msg : MidAnnouncement Addr) (mid : Ptr)
    (tables : Tables Addr Bucket) (ptr : Ptr) :
    Option (Tables Addr Bucket) := do
  let node ← tables.address ptr
  if keepsAlias nowTimes msg.midAddr ⟨node.aliasAddr, node.vtime⟩ then
    if node.aliasAddr ∈ msg.midAddr then
      some (tables.writeVtime ptr (nowTimes + msg.vtime))
    else
      some tables
  else
    dequeueAlias (tables.writeAliases mid fun aliases => aliases.erase ptr) ptr

def olsrPruneAliases (nowTimes : UInt32) (msg : MidAnnouncement Addr)
    (tables : Tables Addr Bucket) : Option (Tables Addr Bucket) :=
  match midLookupEntryBymain hash tables msg.midOrigaddr with
  | none => some tables
  | some entry => entry.aliases.foldlM (pruneAlias nowTimes msg entry.ptr) tables

def inputMidAlias (ctx : MidContext Addr) (origaddr : Addr) (st : State Addr Bucket)
    (aliasAddr : Addr) : Option (State Addr Bucket) :=
  if ctx.isOwnInterface aliasAddr then
    some st
  else do
    let registered ← midLookupMainAddr hash st.tables aliasAddr
    if registered = none then
      insertMidAlias hash ctx origaddr aliasAddr st
    else
      some st

/-- `olsr_input_mid`; `symmetric` is what `check_neighbor_link` says about the
sender. -/
def olsrInputMid (ctx : MidContext Addr) (symmetric : Bool) (msg : MidAnnouncement Addr)
    (st : State Addr Bucket) : Option (State Addr Bucket) :=
  if ¬ ctx.olsrValidateAddress msg.midOrigaddr ∨ ¬ symmetric then
    some st
  else do
    let st ← msg.midAddr.foldlM (inputMidAlias hash ctx msg.midOrigaddr) st
    let tables ← olsrPruneAliases hash ctx.nowTimes msg st.tables
    some { st with tables := tables }

/-- The part of `olsr_hello_tap` that registers the sender's interface. -/
def helloTapAlias (ctx : MidContext Addr) (sourceAddr fromAddr : Addr)
    (st : State Addr Bucket) : Option (State Addr Bucket) :=
  if sourceAddr ≠ fromAddr ∧ ctx.olsrValidateAddress fromAddr then do
    let registered ← midLookupMainAddr hash st.tables fromAddr
    if registered = none ∨ registered = some sourceAddr then
      insertMidAlias hash ctx sourceAddr fromAddr st
    else
      some st
  else
    some st

/-- Messages, the expiry of an entry, an empty topology message that cleans one
up, and what happens to the neighbour table meanwhile. -/
inductive Event (Addr : Type) where
  | inputMid
      (ctx : MidContext Addr) (symmetric : Bool)
      (msg : MidAnnouncement Addr)
  | helloTap (ctx : MidContext Addr) (sourceAddr fromAddr : Addr)
  | expireMidEntry (mid : Ptr)
  | cleanupMid (orig : Addr)
  | neighborTable (neighbors : List Addr)

def step (st : State Addr Bucket) : Event Addr → Option (State Addr Bucket)
  | .inputMid ctx symmetric msg => olsrInputMid hash ctx symmetric msg st
  | .helloTap ctx sourceAddr fromAddr => helloTapAlias hash ctx sourceAddr fromAddr st
  | .expireMidEntry mid =>
    if (st.tables.entry mid).isSome then do
      let tables ← olsrDeleteMidEntry mid st.tables
      some { st with tables := tables }
    else
      some st
  | .cleanupMid orig => do
    let tables ← olsrCleanupMid hash orig st.tables
    some { st with tables := tables }
  | .neighborTable neighbors => some { st with neighbors := neighbors }

end Operations

structure TablesMirror {Addr Bucket : Type} (hash : Addr → Bucket)
    (tables : Tables Addr Bucket) : Prop where
  /-- An alias in the chain of an entry is queued once, in the bucket of its
  address, and leads back to the entry. -/
  queued_once : ∀ entry ∈ tables.midSet, ∀ ptr ∈ entry.aliases,
      (tables.reverseMidSet.map AddressNode.ptr).count ptr = 1 ∧ ∃ node ∈ tables.reverseMidSet,
          node.ptr = ptr ∧ node.bucket = hash node.aliasAddr ∧ node.mainEntry = entry.ptr
  /-- A queued alias is in the chain of the entry that it leads to. -/
  chained : ∀ node ∈ tables.reverseMidSet,
      ∃ entry ∈ tables.midSet, entry.ptr = node.mainEntry ∧ entry.aliases.count node.ptr = 1
  /-- No address is an alias of two main addresses. -/
  one_main : ∀ first ∈ tables.midSet, ∀ second ∈ tables.midSet,
      ∀ node ∈ tables.reverseMidSet, ∀ other ∈ tables.reverseMidSet,
        node.ptr ∈ first.aliases → other.ptr ∈ second.aliases → node.aliasAddr = other.aliasAddr →
            first.mainAddr = second.mainAddr

section Consistent

def aliasesOf (tables : Tables Addr Bucket) (mid : Ptr) : List Ptr :=
  (tables.entry mid).elim [] EntryNode.aliases

def mainsOf (tables : Tables Addr Bucket) (ptr : Ptr) : List Ptr :=
  (tables.address ptr).elim [] fun node => [node.mainEntry]

/-- Places, addresses and buckets are in order, and both tables hold the same
aliases. -/
structure Consistent (hash : Addr → Bucket) (tables : Tables Addr Bucket) : Prop where
  entries_nodup : (tables.midSet.map EntryNode.ptr).Nodup
  addresses_nodup : (tables.reverseMidSet.map AddressNode.ptr).Nodup
  entry_lt : ∀ entry ∈ tables.midSet, entry.ptr < tables.nextPtr
  address_lt : ∀ node ∈ tables.reverseMidSet, node.ptr < tables.nextPtr
  aliases_nodup : (tables.reverseMidSet.map AddressNode.aliasAddr).Nodup
  hashed : ∀ node ∈ tables.reverseMidSet, node.bucket = hash node.aliasAddr
  mirrors : Mirrors (aliasesOf tables) (mainsOf tables)

variable {tables : Tables Addr Bucket} {mid ptr : Ptr} {entry : EntryNode Addr Bucket}
  {node : AddressNode Addr Bucket}

theorem Consistent.init : Consistent hash (Tables.init Addr Bucket) where
  entries_nodup := nodup_nil
  addresses_nodup := nodup_nil
  entry_lt := nofun
  address_lt := nofun
  aliases_nodup := nodup_nil
  hashed := nofun
  mirrors := ⟨fun {_ _} => ⟨nofun, nofun⟩, fun _ => nodup_nil, fun _ => nodup_nil⟩

theorem Consistent.entry_iff (consistent : Consistent hash tables) :
    tables.entry mid = some entry ↔ entry ∈ tables.midSet ∧ entry.ptr = mid :=
  find?_key_eq_some_iff consistent.entries_nodup

theorem Consistent.address_iff (consistent : Consistent hash tables) :
    tables.address ptr = some node ↔ node ∈ tables.reverseMidSet ∧ node.ptr = ptr :=
  find?_key_eq_some_iff consistent.addresses_nodup

theorem aliasesOf_of_entry (found : tables.entry mid = some entry) :
    aliasesOf tables mid = entry.aliases := by
  rw [aliasesOf, found]
  rfl

theorem mainsOf_of_address (found : tables.address ptr = some node) :
    mainsOf tables ptr = [node.mainEntry] := by
  rw [mainsOf, found]
  rfl

theorem mem_mainsOf_iff :
    mid ∈ mainsOf tables ptr ↔ ∃ node, tables.address ptr = some node ∧ node.mainEntry = mid := by
  rw [mainsOf]
  cases tables.address ptr with
  | none => simp
  | some node =>
    simp only [Option.elim, mem_singleton, some.injEq, exists_eq_left']
    exact eq_comm

theorem Consistent.address_of_chained (consistent : Consistent hash tables)
    (chained : ptr ∈ aliasesOf tables mid) :
    ∃ node, tables.address ptr = some node ∧ node.mainEntry = mid :=
  mem_mainsOf_iff.mp (consistent.mirrors.mem_iff.mp chained)

theorem Consistent.entry_of_queued (consistent : Consistent hash tables)
    (queued : node ∈ tables.reverseMidSet) :
    ∃ entry, tables.entry node.mainEntry = some entry ∧ node.ptr ∈ entry.aliases := by
  have found : tables.address node.ptr = some node := consistent.address_iff.mpr ⟨queued, rfl⟩
  have chained : node.ptr ∈ aliasesOf tables node.mainEntry :=
    consistent.mirrors.mem_iff.mpr (mem_mainsOf_iff.mpr ⟨node, found, rfl⟩)
  cases isEntry : tables.entry node.mainEntry with
  | none =>
    rw [aliasesOf, isEntry] at chained
    cases chained
  | some entry =>
    rw [aliasesOf_of_entry isEntry] at chained
    exact ⟨entry, rfl, chained⟩

private theorem Consistent.tablesMirror (consistent : Consistent hash tables) :
    TablesMirror hash tables where
  queued_once := by
    intro entry mem ptr chained
    have isEntry : tables.entry entry.ptr = some entry := consistent.entry_iff.mpr ⟨mem, rfl⟩
    rw [← aliasesOf_of_entry isEntry] at chained
    obtain ⟨node, found, back⟩ := consistent.address_of_chained chained
    obtain ⟨queued, rfl⟩ := consistent.address_iff.mp found
    refine ⟨?_, node, queued, rfl, consistent.hashed node queued, back⟩
    exact count_eq_one_of_mem consistent.addresses_nodup (mem_map_of_mem queued)
  chained := by
    intro node queued
    obtain ⟨entry, isEntry, chained⟩ := consistent.entry_of_queued queued
    obtain ⟨mem, isPtr⟩ := consistent.entry_iff.mp isEntry
    refine ⟨entry, mem, isPtr, ?_⟩
    apply count_eq_one_of_mem _ chained
    rw [← aliasesOf_of_entry isEntry]
    exact consistent.mirrors.rights_nodup _
  one_main := by
    intro first inFirst second inSecond node queued other otherQueued chained
      otherChained sameAddress
    obtain rfl : node = other :=
      inj_on_of_nodup_map consistent.aliases_nodup queued otherQueued sameAddress
    have leads : ∀ entry ∈ tables.midSet, node.ptr ∈ entry.aliases →
          tables.entry node.mainEntry = some entry := by
      intro entry mem chained
      have isEntry : tables.entry entry.ptr = some entry := consistent.entry_iff.mpr ⟨mem, rfl⟩
      rw [← aliasesOf_of_entry isEntry] at chained
      obtain ⟨found, isFound, back⟩ := consistent.address_of_chained chained
      rw [consistent.address_iff.mpr ⟨queued, rfl⟩] at isFound
      cases isFound
      rw [back]
      exact isEntry
    have same := (leads first inFirst chained).symm.trans (leads second inSecond otherChained)
    rw [some.inj same]

/-! ## Memory after an operation -/

variable {write : List Ptr → List Ptr}

theorem entry_writeAliases {other : Ptr} :
    (tables.writeAliases mid write).entry other =
      if other = mid then
        (tables.entry other).map fun entry =>
          { entry with aliases := write entry.aliases }
      else
        tables.entry other := by
  apply find?_modifyKey
  exact fun _ => rfl

theorem aliasesOf_writeAliases (write : List Ptr → List Ptr)
    (found : tables.entry mid = some entry) : aliasesOf (tables.writeAliases mid write) =
      update (aliasesOf tables) mid (write (aliasesOf tables mid)) := by
  funext other
  rw [aliasesOf, entry_writeAliases, update_apply, aliasesOf_of_entry found]
  split
  next same =>
    rw [same, found]
    rfl
  · rfl

section

variable (consistent : Consistent hash tables)
include consistent

private theorem Consistent.mainsOf_freeAddress (ptr : Ptr) :
    mainsOf (tables.freeAddress ptr) = update (mainsOf tables) ptr [] := by
  funext other
  rw [mainsOf, Tables.address, Tables.freeAddress,
    find?_eraseP_key consistent.addresses_nodup, update_apply]
  split
  · rfl
  · rfl

private theorem Consistent.aliasesOf_freeEntry (mid : Ptr) :
    aliasesOf (tables.freeEntry mid) = update (aliasesOf tables) mid [] := by
  funext other
  rw [aliasesOf, Tables.entry, Tables.freeEntry,
    find?_eraseP_key consistent.entries_nodup, update_apply]
  split
  · rfl
  · rfl

theorem Consistent.address_nextPtr : tables.address tables.nextPtr = none := by
  rw [Tables.address, find?_key_eq_none_iff, List.mem_map]
  rintro ⟨node, queued, isNext⟩
  exact (consistent.address_lt node queued).ne isNext

theorem Consistent.entry_nextPtr : tables.entry tables.nextPtr = none := by
  rw [Tables.entry, find?_key_eq_none_iff, List.mem_map]
  rintro ⟨entry, mem, isNext⟩
  exact (consistent.entry_lt entry mem).ne isNext

end

def Tables.without (tables : Tables Addr Bucket) (ptrs : List Ptr) : Tables Addr Bucket :=
  { tables with
    reverseMidSet := tables.reverseMidSet.filter fun node => node.ptr ∉ ptrs }

theorem address_without {ptrs : List Ptr} : (tables.without ptrs).address ptr =
      if ptr ∈ ptrs then none else tables.address ptr := by
  have filtered : (tables.without ptrs).address ptr =
        if decide (ptr ∉ ptrs) then tables.address ptr else none :=
    find?_filter_key (fun ptr => decide (ptr ∉ ptrs)) ptr
  rw [filtered]
  by_cases mem : ptr ∈ ptrs
  · simp [mem]
  · simp [mem]

private theorem foldlM_dequeueAlias {ptrs : List Ptr}
    (places : (tables.reverseMidSet.map AddressNode.ptr).Nodup) (nodup : ptrs.Nodup)
    (inMemory : ∀ ptr ∈ ptrs, ∃ node, tables.address ptr = some node) :
    ptrs.foldlM dequeueAlias tables = some (tables.without ptrs) := by
  induction ptrs generalizing tables with
  | nil => simp [Tables.without]
  | cons first rest ih =>
    rw [nodup_cons] at nodup
    obtain ⟨node, found⟩ := inMemory first mem_cons_self
    have freed : tables.freeAddress first = tables.without [first] := by
      rw [Tables.freeAddress, eraseP_key_eq_filter places, Tables.without]
      simp
    have taken : dequeueAlias tables first = some (tables.without [first]) := by
      rw [dequeueAlias, found, ← freed]
      rfl
    rw [foldlM_cons, taken, bind_eq_bind, bind_some, ih]
    · rw [Tables.without, Tables.without, List.filter_filter, Tables.without]
      simp [Bool.and_comm]
    · exact places.sublist (filter_sublist.map AddressNode.ptr)
    · exact nodup.2
    · intro ptr mem
      obtain ⟨other, isOther⟩ := inMemory ptr (mem_cons_of_mem first mem)
      refine ⟨other, ?_⟩
      rw [address_without, if_neg]
      · exact isOther
      · rintro same
        rw [mem_singleton.mp same] at mem
        exact nodup.1 mem

theorem Consistent.deleteMidEntry
    (consistent : Consistent hash tables) (found : tables.entry mid = some entry) :
    ∃ after, olsrDeleteMidEntry mid tables = some after ∧ Consistent hash after ∧
      after.midSet.Sublist tables.midSet ∧ after.reverseMidSet.Sublist tables.reverseMidSet := by
  have chain := aliasesOf_of_entry found
  have dequeued :
      entry.aliases.foldlM dequeueAlias tables = some (tables.without entry.aliases) := by
    apply foldlM_dequeueAlias consistent.addresses_nodup
    · rw [← chain]
      exact consistent.mirrors.rights_nodup mid
    · intro ptr mem
      rw [← chain] at mem
      obtain ⟨node, isNode, -⟩ := consistent.address_of_chained mem
      exact ⟨node, isNode⟩
  have fewer : (tables.without entry.aliases).reverseMidSet.Sublist tables.reverseMidSet :=
    filter_sublist
  have mains :
      mainsOf (tables.without entry.aliases) = fun ptr => (mainsOf tables ptr).erase mid := by
    funext ptr
    rw [mainsOf, address_without]
    split
    next mem =>
      rw [← chain] at mem
      obtain ⟨node, isNode, back⟩ := consistent.address_of_chained mem
      rw [mainsOf_of_address isNode, back]
      simp
    next notMem =>
      rw [erase_of_not_mem]
      · rfl
      · rw [← chain] at notMem
        exact fun mem => notMem (consistent.mirrors.mem_iff.mpr mem)
  refine ⟨(tables.without entry.aliases).freeEntry mid, ?_, ?_, eraseP_sublist, fewer⟩
  · rw [olsrDeleteMidEntry, found]
    simp only [bind_eq_bind, bind_some, dequeued]
  · refine ⟨?_, ?_, ?_, ?_, ?_, ?_, ?_⟩
    · exact consistent.entries_nodup.sublist (eraseP_sublist.map EntryNode.ptr)
    · exact consistent.addresses_nodup.sublist (fewer.map AddressNode.ptr)
    · exact fun other mem => consistent.entry_lt other (mem_of_mem_eraseP mem)
    · exact fun node mem => consistent.address_lt node (fewer.subset mem)
    · exact consistent.aliases_nodup.sublist (fewer.map AddressNode.aliasAddr)
    · exact fun node mem => consistent.hashed node (fewer.subset mem)
    · have lists : aliasesOf ((tables.without entry.aliases).freeEntry mid) =
            update (aliasesOf tables) mid [] :=
        consistent.aliasesOf_freeEntry mid
      have backs : mainsOf ((tables.without entry.aliases).freeEntry mid) =
            fun ptr => (mainsOf tables ptr).erase mid :=
        mains
      rw [lists, backs]
      exact (consistent.mirrors.symm.clear mid).symm

theorem Consistent.writeVtime (consistent : Consistent hash tables) (ptr : Ptr) (vtime : UInt32) :
    Consistent hash (tables.writeVtime ptr vtime) := by
  have keeps : ∀ {Image : Type} (image : AddressNode Addr Bucket → Image),
        (∀ node, image { node with vtime := vtime } = image node) →
          (tables.writeVtime ptr vtime).reverseMidSet.map image = tables.reverseMidSet.map image :=
    fun image same => map_modifyKey same
  have old : ∀ node' ∈ (tables.writeVtime ptr vtime).reverseMidSet, ∃ node ∈ tables.reverseMidSet,
          node'.ptr = node.ptr ∧ node'.bucket = node.bucket ∧ node'.aliasAddr = node.aliasAddr := by
    intro node' mem
    rcases (mem_modifyKey_iff consistent.addresses_nodup).mp mem with
      ⟨queued, -⟩ | ⟨node, queued, -, rfl⟩
    · exact ⟨node', queued, rfl, rfl, rfl⟩
    · exact ⟨node, queued, rfl, rfl, rfl⟩
  have backs : mainsOf (tables.writeVtime ptr vtime) = mainsOf tables := by
    funext other
    have found : (tables.writeVtime ptr vtime).address other =
          if other = ptr then
            (tables.address other).map fun node => { node with vtime := vtime }
          else
            tables.address other := by
      apply find?_modifyKey
      exact fun _ => rfl
    rw [mainsOf, found, mainsOf]
    split
    · cases tables.address other with
      | none => rfl
      | some node => rfl
    · rfl
  refine ⟨consistent.entries_nodup, ?_, consistent.entry_lt, ?_, ?_, ?_, ?_⟩
  · rw [keeps AddressNode.ptr fun _ => rfl]
    exact consistent.addresses_nodup
  · intro node' mem
    obtain ⟨node, queued, same, -⟩ := old node' mem
    rw [same]
    exact consistent.address_lt node queued
  · rw [keeps AddressNode.aliasAddr fun _ => rfl]
    exact consistent.aliases_nodup
  · intro node' mem
    obtain ⟨node, queued, -, bucket, address⟩ := old node' mem
    rw [bucket, address]
    exact consistent.hashed node queued
  · rw [backs]
    exact consistent.mirrors

theorem mem_map_writeAliases :
    (tables.writeAliases mid write).midSet.map EntryNode.ptr = tables.midSet.map EntryNode.ptr := by
  apply map_modifyKey
  exact fun _ => rfl

theorem Consistent.entry_lt_writeAliases (consistent : Consistent hash tables) (mid : Ptr)
    (write : List Ptr → List Ptr) :
    ∀ entry ∈ (tables.writeAliases mid write).midSet, entry.ptr < tables.nextPtr := by
  intro entry mem
  have inPlaces := mem_map_of_mem (f := EntryNode.ptr) mem
  rw [mem_map_writeAliases] at inPlaces
  obtain ⟨old, isOld, same⟩ := List.mem_map.mp inPlaces
  rw [← same]
  exact consistent.entry_lt old isOld

theorem aliasesOf_unlink (chained : ptr ∈ aliasesOf tables mid) :
    aliasesOf ((tables.writeAliases mid fun aliases => aliases.erase ptr).freeAddress ptr) =
      update (aliasesOf tables) mid ((aliasesOf tables mid).erase ptr) := by
  cases isEntry : tables.entry mid with
  | none =>
    rw [aliasesOf, isEntry] at chained
    cases chained
  | some entry => exact aliasesOf_writeAliases (fun aliases => aliases.erase ptr) isEntry

theorem Consistent.unlink (consistent : Consistent hash tables)
    (chained : ptr ∈ aliasesOf tables mid) :
    Consistent hash
      ((tables.writeAliases mid fun aliases => aliases.erase ptr).freeAddress ptr) := by
  have fewer : (tables.freeAddress ptr).reverseMidSet.Sublist tables.reverseMidSet := eraseP_sublist
  refine ⟨?_, consistent.addresses_nodup.sublist (fewer.map AddressNode.ptr),
      consistent.entry_lt_writeAliases mid fun aliases => aliases.erase ptr,
      fun node mem => consistent.address_lt node (fewer.subset mem),
      consistent.aliases_nodup.sublist (fewer.map AddressNode.aliasAddr),
      fun node mem => consistent.hashed node (fewer.subset mem), ?_⟩
  · rw [Tables.freeAddress, mem_map_writeAliases]
    exact consistent.entries_nodup
  · obtain ⟨node, isNode, back⟩ := consistent.address_of_chained chained
    have backs : mainsOf
            ((tables.writeAliases mid fun aliases => aliases.erase ptr).freeAddress ptr) =
          update (mainsOf tables) ptr ((mainsOf tables ptr).erase mid) := by
      rw [mainsOf_of_address isNode, back]
      simp only [erase_cons_head]
      exact consistent.mainsOf_freeAddress ptr
    rw [aliasesOf_unlink chained, backs]
    exact consistent.mirrors.unlink mid ptr

theorem Consistent.queueEntry (consistent : Consistent hash tables) (mAddr : Addr) :
    Consistent hash (tables.queueEntry hash mAddr) := by
  have lists : aliasesOf (tables.queueEntry hash mAddr) = aliasesOf tables := by
    funext other
    by_cases isNew : tables.nextPtr = other
    · subst isNew
      rw [aliasesOf, aliasesOf, consistent.entry_nextPtr]
      simp [Tables.entry, Tables.queueEntry]
    · simp [aliasesOf, Tables.entry, Tables.queueEntry, isNew]
  refine ⟨?_, consistent.addresses_nodup, ?_,
      fun node queued => Nat.lt_succ_of_lt (consistent.address_lt node queued),
      consistent.aliases_nodup, consistent.hashed, ?_⟩
  · refine nodup_cons.mpr ⟨?_, consistent.entries_nodup⟩
    exact find?_key_eq_none_iff.mp consistent.entry_nextPtr
  · intro entry mem
    rcases mem_cons.mp mem with rfl | old
    · exact Nat.lt_succ_self _
    · exact Nat.lt_succ_of_lt (consistent.entry_lt entry old)
  · rw [lists]
    exact consistent.mirrors

/-- A new alias of an entry is queued in both tables. -/
theorem Consistent.queueAlias (consistent : Consistent hash tables) {aliasAddr : Addr}
    (isNew : aliasAddr ∉ tables.reverseMidSet.map AddressNode.aliasAddr)
    (found : tables.entry mid = some entry) :
    Consistent hash (tables.queueAlias hash aliasAddr mid) := by
  have unused : mainsOf tables tables.nextPtr = [] := by
    rw [mainsOf, consistent.address_nextPtr]
    rfl
  have apart : tables.nextPtr ∉ aliasesOf tables mid := by
    intro chained
    rw [consistent.mirrors.mem_iff, unused] at chained
    cases chained
  have lists : aliasesOf (tables.queueAlias hash aliasAddr mid) =
        update (aliasesOf tables) mid (tables.nextPtr :: aliasesOf tables mid) :=
    aliasesOf_writeAliases (fun aliases => tables.nextPtr :: aliases) found
  have backs : mainsOf (tables.queueAlias hash aliasAddr mid) =
        update (mainsOf tables) tables.nextPtr (mid :: mainsOf tables tables.nextPtr) := by
    rw [unused]
    funext other
    rw [update_apply]
    by_cases isNext : tables.nextPtr = other
    · simp [mainsOf, Tables.address, Tables.queueAlias, isNext]
    · simp [mainsOf, Tables.address, Tables.queueAlias, isNext, Ne.symm isNext]
  refine ⟨?_, ?_, ?_, ?_, ?_, ?_, ?_⟩
  · rw [Tables.queueAlias, mem_map_writeAliases]
    exact consistent.entries_nodup
  · refine nodup_cons.mpr ⟨?_, consistent.addresses_nodup⟩
    exact find?_key_eq_none_iff.mp consistent.address_nextPtr
  · exact fun other mem => Nat.lt_succ_of_lt (consistent.entry_lt_writeAliases _ _ other mem)
  · intro node mem
    rcases mem_cons.mp mem with rfl | old
    · exact Nat.lt_succ_self _
    · exact Nat.lt_succ_of_lt (consistent.address_lt node old)
  · exact nodup_cons.mpr ⟨isNew, consistent.aliases_nodup⟩
  · intro node mem
    rcases mem_cons.mp mem with rfl | old
    · rfl
    · exact consistent.hashed node old
  · rw [lists, backs]
    exact consistent.mirrors.link apart

end Consistent

section Registering

variable {tables after : Tables Addr Bucket}
  {st : State Addr Bucket} {mAddr aliasAddr : Addr} {mid : Ptr} {ptrs : List Ptr}

private theorem Consistent.readAliases_exists
    (consistent : Consistent hash tables) (chained : ptrs ⊆ aliasesOf tables mid) :
    ∃ aliases, readAliases tables ptrs = some aliases := by
  induction ptrs with
  | nil => exact ⟨[], rfl⟩
  | cons ptr rest ih =>
    obtain ⟨node, found, -⟩ := consistent.address_of_chained (chained mem_cons_self)
    obtain ⟨aliases, isRest⟩ := ih fun other mem => chained (mem_cons_of_mem ptr mem)
    rw [readAliases] at isRest
    refine ⟨node.aliasAddr :: aliases, ?_⟩
    rw [readAliases, mapM_cons, found, isRest]
    rfl

variable [DecidableEq Addr]

theorem Consistent.queueMidTuple
    {entry : EntryNode Addr Bucket} (consistent : Consistent hash st.tables)
    (isNew : aliasAddr ∉ st.tables.reverseMidSet.map AddressNode.aliasAddr)
    (found : st.tables.entry mid = some entry) :
    ∃ next, MidTables.queueMidTuple hash mAddr aliasAddr mid st = some next ∧
      Consistent hash next.tables := by
  have queued := consistent.queueAlias isNew found
  have foundNext : (st.tables.queueAlias hash aliasAddr mid).entry mid =
        some { entry with
          aliases := st.tables.nextPtr :: entry.aliases } := by
    have written : (st.tables.queueAlias hash aliasAddr mid).entry mid =
          (st.tables.writeAliases mid fun aliases => st.tables.nextPtr :: aliases).entry mid :=
      rfl
    rw [written, entry_writeAliases, if_pos rfl, found]
    rfl
  obtain ⟨aliases, isRead⟩ := queued.readAliases_exists
      (List.Subset.refl (aliasesOf (st.tables.queueAlias hash aliasAddr mid) mid))
  rw [aliasesOf_of_entry foundNext] at isRead
  refine ⟨⟨st.tables.queueAlias hash aliasAddr mid,
      dropBogusNeighbors mAddr st.neighbors aliases⟩, ?_, queued⟩
  simp only [MidTables.queueMidTuple, foundNext, isRead, bind_eq_bind, bind_some]

/-- One round of the pruning; the rest of the chain stays. -/
theorem Consistent.pruneAlias {mid ptr : Ptr} (consistent : Consistent hash tables)
    (nowTimes : UInt32) (msg : MidAnnouncement Addr) (chained : ptr ∈ aliasesOf tables mid) :
    ∃ next, MidTables.pruneAlias nowTimes msg mid tables ptr = some next ∧ Consistent hash next ∧
      ∀ other ∈ aliasesOf tables mid, other ≠ ptr → other ∈ aliasesOf next mid := by
  obtain ⟨node, found, -⟩ := consistent.address_of_chained chained
  rw [MidTables.pruneAlias, found]
  simp only [bind_eq_bind, bind_some]
  split
  · split
    · exact ⟨_, rfl, consistent.writeVtime ptr _, fun _ mem _ => mem⟩
    · exact ⟨tables, rfl, consistent, fun _ mem _ => mem⟩
  · have inMemory :
        (tables.writeAliases mid fun aliases => aliases.erase ptr).address ptr = some node :=
      found
    refine ⟨_, ?_, consistent.unlink chained, ?_⟩
    · rw [dequeueAlias, inMemory]
      rfl
    · intro other mem ne
      rw [aliasesOf_unlink chained, update_self]
      exact (mem_erase_of_ne ne).mpr mem

private theorem Consistent.foldlM_pruneAlias
    (consistent : Consistent hash tables) (nowTimes : UInt32) (msg : MidAnnouncement Addr)
    (nodup : ptrs.Nodup) (chained : ∀ ptr ∈ ptrs, ptr ∈ aliasesOf tables mid) :
    ∃ after, ptrs.foldlM (MidTables.pruneAlias nowTimes msg mid) tables = some after ∧
      Consistent hash after := by
  induction ptrs generalizing tables with
  | nil => exact ⟨tables, rfl, consistent⟩
  | cons ptr rest ih =>
    rw [nodup_cons] at nodup
    obtain ⟨next, taken, consistentNext, others⟩ :=
      consistent.pruneAlias nowTimes msg (chained ptr mem_cons_self)
    obtain ⟨after, done, okAfter⟩ := ih consistentNext nodup.2 fun other mem => by
        apply others other (chained other (mem_cons_of_mem ptr mem))
        rintro rfl
        exact nodup.1 mem
    refine ⟨after, ?_, okAfter⟩
    rw [foldlM_cons, taken]
    exact done

variable [DecidableEq Bucket]

/-- If the address is registered at all, then for this main address. -/
def OnlyFor (tables : Tables Addr Bucket) (aliasAddr mAddr : Addr) : Prop :=
  ∀ node ∈ tables.reverseMidSet, node.aliasAddr = aliasAddr →
    ∀ entry, tables.entry node.mainEntry = some entry → entry.mainAddr = mAddr

theorem Consistent.midLookupMainAddr_exists (consistent : Consistent hash tables)
    (adr : Addr) : ∃ registered, midLookupMainAddr hash tables adr = some registered ∧
      (registered = none → adr ∉ tables.reverseMidSet.map AddressNode.aliasAddr) ∧
      ∀ mAddr, registered = some mAddr →
      OnlyFor tables adr mAddr ∧ ∀ other, OnlyFor tables adr other → mAddr = other := by
  rw [midLookupMainAddr]
  split
  next missed =>
    refine ⟨none, rfl, ?_, nofun⟩
    intro _ registered
    obtain ⟨node, queued, isAddr⟩ := List.mem_map.mp registered
    have notFound := find?_eq_none.mp missed node queued
    rw [consistent.hashed node queued, isAddr] at notFound
    simp at notFound
  next node isNode =>
    have queued := mem_of_find?_eq_some isNode
    have matched := find?_some isNode
    simp only [decide_eq_true_eq] at matched
    obtain ⟨entry, found, -⟩ := consistent.entry_of_queued queued
    simp only [found, bind_eq_bind, bind_some]
    refine ⟨some entry.mainAddr, rfl, nofun, ?_⟩
    rintro mAddr isMain
    cases isMain
    refine ⟨?_, fun other onlyFor => onlyFor node queued matched.2 entry found⟩
    intro other otherQueued otherAddr otherEntry found2
    obtain rfl : other = node :=
      inj_on_of_nodup_map consistent.aliases_nodup otherQueued queued
        (otherAddr.trans matched.2.symm)
    rw [found] at found2
    cases found2
    rfl

omit [DecidableEq Addr] [DecidableEq Bucket] in
theorem onlyFor_of_not_mem (isNew : aliasAddr ∉ tables.reverseMidSet.map AddressNode.aliasAddr) :
    OnlyFor tables aliasAddr mAddr := by
  intro node queued isAddr
  exact absurd (isAddr ▸ mem_map_of_mem queued) isNew

omit [DecidableEq Addr] [DecidableEq Bucket] in
private theorem OnlyFor.of_sublist
    (onlyFor : OnlyFor tables aliasAddr mAddr) (consistent : Consistent hash tables)
    (okAfter : Consistent hash after) (entries : after.midSet.Sublist tables.midSet)
    (addrs : after.reverseMidSet.Sublist tables.reverseMidSet) : OnlyFor after aliasAddr mAddr := by
  intro node queued isAddr entry found
  obtain ⟨mem, isPtr⟩ := okAfter.entry_iff.mp found
  apply onlyFor node (addrs.subset queued) isAddr
  exact consistent.entry_iff.mpr ⟨entries.subset mem, isPtr⟩

theorem Consistent.insertMidTuple
    (consistent : Consistent hash st.tables) (onlyFor : OnlyFor st.tables aliasAddr mAddr) :
    ∃ next, MidTables.insertMidTuple hash mAddr aliasAddr st = some next ∧
      Consistent hash next.tables := by
  obtain ⟨registered, looked, missed, leads⟩ := consistent.midLookupMainAddr_exists aliasAddr
  rw [MidTables.insertMidTuple, looked]
  simp only [bind_eq_bind, bind_some]
  split
  · exact ⟨st, rfl, consistent⟩
  next notRegistered =>
    have isNew : aliasAddr ∉ st.tables.reverseMidSet.map AddressNode.aliasAddr := by
      cases registered with
      | none => exact missed rfl
      | some other =>
        have same := (leads other rfl).2 mAddr onlyFor
        exact absurd (congrArg some same) notRegistered
    split
    next entry lookup =>
      have found : st.tables.entry entry.ptr = some entry :=
        consistent.entry_iff.mpr ⟨mem_of_find?_eq_some lookup, rfl⟩
      exact consistent.queueMidTuple isNew found
    · have queued : Consistent hash
            ({ st with
              tables := st.tables.queueEntry hash mAddr }).tables :=
        consistent.queueEntry mAddr
      apply queued.queueMidTuple
      · exact isNew
      · exact find?_cons_of_pos (decide_eq_true rfl)

theorem Consistent.cleanupMid (consistent : Consistent hash tables)
    (orig : Addr) : ∃ after, olsrCleanupMid hash orig tables = some after ∧ Consistent hash after ∧
      after.midSet.Sublist tables.midSet ∧ after.reverseMidSet.Sublist tables.reverseMidSet := by
  rw [olsrCleanupMid]
  split
  next entry lookup =>
    apply consistent.deleteMidEntry
    exact consistent.entry_iff.mpr ⟨mem_of_find?_eq_some lookup, rfl⟩
  · exact ⟨tables, rfl, consistent, List.Sublist.refl _, List.Sublist.refl _⟩

section

variable (consistent : Consistent hash st.tables) (ctx : MidContext Addr)
include consistent

theorem Consistent.insertMidAlias (onlyFor : OnlyFor st.tables aliasAddr mAddr) :
    ∃ next, MidTables.insertMidAlias hash ctx mAddr aliasAddr st = some next ∧
      Consistent hash next.tables := by
  rw [MidTables.insertMidAlias]
  split
  · exact ⟨st, rfl, consistent⟩
  · split
    · obtain ⟨after, cleaned, okAfter, entries, addrs⟩ := consistent.cleanupMid aliasAddr
      rw [cleaned, bind_eq_bind, bind_some]
      have renamed : Consistent hash
            (State.mk after (renameNeighbor mAddr aliasAddr st.neighbors)).tables :=
        okAfter
      apply renamed.insertMidTuple
      exact onlyFor.of_sublist consistent okAfter entries addrs
    · exact consistent.insertMidTuple onlyFor

theorem Consistent.inputMidAlias (origaddr aliasAddr : Addr) :
    ∃ next, MidTables.inputMidAlias hash ctx origaddr st aliasAddr = some next ∧
      Consistent hash next.tables := by
  rw [MidTables.inputMidAlias]
  split
  · exact ⟨st, rfl, consistent⟩
  · obtain ⟨registered, looked, missed, -⟩ := consistent.midLookupMainAddr_exists aliasAddr
    simp only [looked, bind_eq_bind, bind_some]
    split
    next isNone => exact consistent.insertMidAlias ctx (onlyFor_of_not_mem (missed isNone))
    · exact ⟨st, rfl, consistent⟩

theorem Consistent.helloTapAlias (sourceAddr fromAddr : Addr) :
    ∃ next, MidTables.helloTapAlias hash ctx sourceAddr fromAddr st = some next ∧
      Consistent hash next.tables := by
  rw [MidTables.helloTapAlias]
  split
  · obtain ⟨registered, looked, missed, leads⟩ := consistent.midLookupMainAddr_exists fromAddr
    simp only [looked, bind_eq_bind, bind_some]
    split
    next fits =>
      apply consistent.insertMidAlias ctx
      rcases fits with isNone | isSource
      · exact onlyFor_of_not_mem (missed isNone)
      · exact (leads sourceAddr isSource).1
    · exact ⟨st, rfl, consistent⟩
  · exact ⟨st, rfl, consistent⟩

end

theorem Consistent.pruneAliases (consistent : Consistent hash tables) (nowTimes : UInt32)
    (msg : MidAnnouncement Addr) :
    ∃ after, olsrPruneAliases hash nowTimes msg tables = some after ∧ Consistent hash after := by
  rw [olsrPruneAliases]
  split
  · exact ⟨tables, rfl, consistent⟩
  next entry lookup =>
    have found : tables.entry entry.ptr = some entry :=
      consistent.entry_iff.mpr ⟨mem_of_find?_eq_some lookup, rfl⟩
    have chain := aliasesOf_of_entry found
    apply consistent.foldlM_pruneAlias
    · rw [← chain]
      exact consistent.mirrors.rights_nodup entry.ptr
    · intro ptr mem
      rwa [chain]

theorem Consistent.inputMid (consistent : Consistent hash st.tables) (ctx : MidContext Addr)
    (symmetric : Bool) (msg : MidAnnouncement Addr) :
    ∃ next, olsrInputMid hash ctx symmetric msg st = some next ∧ Consistent hash next.tables := by
  rw [olsrInputMid]
  split
  · exact ⟨st, rfl, consistent⟩
  · obtain ⟨inserted, isInserted, consistentInserted⟩ : ∃ inserted, msg.midAddr.foldlM
              (MidTables.inputMidAlias hash ctx msg.midOrigaddr) st = some inserted ∧ _ :=
      foldlM_invariant
        (fun _ (reached : State Addr Bucket) => Consistent hash reached.tables)
        (fun {_ aliasAddr _} _ reached =>
          Consistent.inputMidAlias reached ctx msg.midOrigaddr aliasAddr)
        consistent
    obtain ⟨after, pruned, okAfter⟩ := Consistent.pruneAliases consistentInserted ctx.nowTimes msg
    refine ⟨{ inserted with tables := after }, ?_, okAfter⟩
    simp only [isInserted, pruned, bind_eq_bind, bind_some]

end Registering

section Runs

variable [DecidableEq Addr] [DecidableEq Bucket]

theorem Consistent.step {st : State Addr Bucket} (consistent : Consistent hash st.tables)
    (event : Event Addr) :
    ∃ next, MidTables.step hash st event = some next ∧ Consistent hash next.tables := by
  cases event with
  | inputMid ctx symmetric msg => exact consistent.inputMid ctx symmetric msg
  | helloTap ctx sourceAddr fromAddr => exact consistent.helloTapAlias ctx sourceAddr fromAddr
  | expireMidEntry mid =>
    rw [MidTables.step]
    split
    next isEntry =>
      obtain ⟨entry, found⟩ := isSome_iff_exists.mp isEntry
      obtain ⟨after, deleted, okAfter, -⟩ := consistent.deleteMidEntry found
      refine ⟨{ st with tables := after }, ?_, okAfter⟩
      rw [deleted]
      rfl
    · exact ⟨st, rfl, consistent⟩
  | cleanupMid orig =>
    obtain ⟨after, cleaned, okAfter, -⟩ := consistent.cleanupMid orig
    refine ⟨{ st with tables := after }, ?_, okAfter⟩
    rw [MidTables.step, cleaned]
    rfl
  | neighborTable neighbors => exact ⟨{ st with neighbors := neighbors }, rfl, consistent⟩

/-- Every run succeeds, and both tables hold the same aliases in the end. -/
theorem tablesMirror_of_run (hash : Addr → Bucket) (neighbors : List Addr)
    (events : List (Event Addr)) :
    ∃ final, runEvents (MidTables.step hash)
          ⟨Tables.init Addr Bucket, neighbors⟩ events = some final ∧
        TablesMirror hash final.tables := by
  have initially : Consistent hash (State.mk (Tables.init Addr Bucket) neighbors).tables :=
    Consistent.init
  obtain ⟨final, finished, consistent⟩ := runEvents_exists
      (fun st : State Addr Bucket => Consistent hash st.tables)
      (fun event consistent => Consistent.step consistent event)
      events initially
  exact ⟨final, finished, consistent.tablesMirror⟩

end Runs

end QosOlsr.MidTables
