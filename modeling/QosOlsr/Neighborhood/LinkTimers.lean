import QosOlsr.Neighborhood.LinkCounts

/-!
# Timers of the two-hop links

Each entry of a neighbour's two-hop list has a timer.  A HELLO that finds the
entry sets it; one that creates the entry calls `olsr_change_timer`, which does
nothing for a timer that was never started.  An entry is known by the neighbour
and the two-hop neighbour that it links.
-/

namespace QosOlsr.Neighborhood

open Library Function List Option

variable {Addr Bucket : Type} {ctx : HelloContext Addr} {neighbor : Ptr}
  {msg : HelloNeighbor Addr} {address : Addr}

/-- The tables, and the entries whose `nbr2_list_timer` is running. -/
structure TimedTables (Addr Bucket : Type) where
  tables : Tables Addr Bucket
  timers : List (Ptr × Ptr)

section Timed

/-- `olsr_set_timer` of an entry; a time of zero stops the timer. -/
def olsrSetTimer (vtime : Nat) (entry : Ptr × Ptr) (timers : List (Ptr × Ptr)) : List (Ptr × Ptr) :=
  if vtime = 0 then
    timers.filter fun other => other ≠ entry
  else if entry ∈ timers then
    timers
  else
    entry :: timers

def runningTimers (tables : Tables Addr Bucket) (timers : List (Ptr × Ptr)) : List (Ptr × Ptr) :=
  timers.filter fun entry => entry.2 ∈ twoHops tables entry.1

variable [DecidableEq Addr] [DecidableEq Bucket] (hash : Addr → Bucket)

section

variable (ctx : HelloContext Addr)

def IsConsidered (msg : HelloNeighbor Addr) : Prop :=
  ctx.ifIfwithaddr msg.address = false ∧ IsListed msg.status

instance (msg : HelloNeighbor Addr) : Decidable (IsConsidered ctx msg) := instDecidableAnd

/-- The timers once an entry of a HELLO has refreshed the link that it finds.
For a new link `linking_this_2_entries` passes a null pointer to
`olsr_change_timer`. -/
def refreshTimer (vtime : Nat) (neighbor : Ptr)
    (st : TimedTables Addr Bucket) (msg : HelloNeighbor Addr) : Option (List (Ptr × Ptr)) :=
  if IsConsidered ctx msg then do
    let nbr ← st.tables.nbr neighbor
    match ← olsrLookupMyNeighbors st.tables
        (messageAddress ctx st.tables msg) nbr.neighbor2List with
    | some yet => some (olsrSetTimer vtime (neighbor, yet.neighbor2) st.timers)
    | none => some st.timers
  else
    some st.timers

def timedRound (vtime : Nat) (neighbor : Ptr)
    (st : TimedTables Addr Bucket) (msg : HelloNeighbor Addr) :
    Option (TimedTables Addr Bucket) := do
  let timers ← refreshTimer ctx vtime neighbor st msg
  let tables ← processMessageNeighbor hash ctx neighbor st.tables msg
  some ⟨tables, runningTimers tables timers⟩

/-- `process_message_neighbors`; the timers are those that its first loop
leaves. -/
def timedHello (vtime : Nat) (neighbor : Ptr) (neighbors : List (HelloNeighbor Addr))
    (st : TimedTables Addr Bucket) : Option (TimedTables Addr Bucket) := do
  let looped ← neighbors.foldlM (timedRound hash ctx vtime neighbor) st
  let tables ← processMessageNeighbors hash ctx neighbor neighbors st.tables
  some ⟨tables, looped.timers⟩

end

/-- What changes the links and their timers; the association set may change in
any way between the messages. -/
inductive TimedEvent (Addr : Type) where
  | hello
      (ctx : HelloContext Addr) (vtime : Nat) (neighbor : Ptr)
      (neighbors : List (HelloNeighbor Addr))
  | expire (neighbor : Ptr) (index : Nat)
  | deleteTwoHop (twoHop : Ptr)
  | updateNeighborStatus (neighbor : Ptr) (lnk : LinkType)
  | insertNeighbor (mainAddr : Addr)
  | deleteNeighbor (neighborAddr : Addr)
  | changeMids (mids : MidSet Addr)

variable (st : TimedTables Addr Bucket)

def isRunning (neighbor : Ptr) (index : Nat) : Bool :=
  (twoHops st.tables neighbor)[index]?.any fun twoHop =>
    (neighbor, twoHop) ∈ st.timers

def untimedStep (event : TwoHopEvent Addr) :
    Option (TimedTables Addr Bucket) := do
  let tables ← twoHopStep hash st.tables event
  some ⟨tables, runningTimers tables st.timers⟩

def timedStep : TimedEvent Addr → Option (TimedTables Addr Bucket)
  | .hello ctx vtime neighbor neighbors =>
    if (st.tables.nbr neighbor).isSome then
      timedHello hash ctx vtime neighbor neighbors st
    else
      some st
  | .expire neighbor index =>
    if isRunning st neighbor index then
      untimedStep hash st (.expireNbr2List neighbor index)
    else
      some st
  | .deleteTwoHop twoHop => untimedStep hash st (.deleteTwoHop twoHop)
  | .updateNeighborStatus neighbor lnk => untimedStep hash st (.updateNeighborStatus neighbor lnk)
  | .insertNeighbor mainAddr => untimedStep hash st (.insertNeighbor mainAddr)
  | .deleteNeighbor neighborAddr => untimedStep hash st (.deleteNeighbor neighborAddr)
  | .changeMids mids => some { st with tables := { st.tables with mids := mids } }

structure LinksExpire : Prop where
  running :
    ∀ {neighbor twoHop}, twoHop ∈ twoHops st.tables neighbor → (neighbor, twoHop) ∈ st.timers
  removed : ∀ {neighbor index twoHop}, (twoHops st.tables neighbor)[index]? = some twoHop →
        ∃ next, timedStep hash st (.expire neighbor index) = some next ∧
            twoHop ∉ twoHops next.tables neighbor

def linkedAddresses (tables : Tables Addr Bucket) (neighbor : Ptr) : List Addr :=
  (twoHops tables neighbor).filterMap fun twoHop =>
    (tables.nbr2 twoHop).map Neighbor2Entry.neighbor2Addr

def IsLinking (ctx : HelloContext Addr) (tables : Tables Addr Bucket)
    (msg : HelloNeighbor Addr) : Prop :=
  IsConsidered ctx msg ∧ IsHeadStatus msg.status ∧
    olsrLookupNeighborTable hash tables (messageAddress ctx tables msg) = none

instance (ctx : HelloContext Addr) (tables : Tables Addr Bucket) (msg : HelloNeighbor Addr) :
    Decidable (IsLinking hash ctx tables msg) :=
  instDecidableAnd

/-- An entry for no head, whose lookup may yield the two-hop neighbour with an
address. -/
def IsUnlinking (ctx : HelloContext Addr) (tables : Tables Addr Bucket)
    (msg : HelloNeighbor Addr) (address : Addr) : Prop :=
  IsConsidered ctx msg ∧ msg.status.code < 3 ∧ hash address =
      hash (messageAddress ctx tables msg) ∧
    (address = messageAddress ctx tables msg ∨ messageAddress ctx tables msg ∈
        (midLookupAliases tables.mids address).map MidAddress.aliasAddr)

instance (ctx : HelloContext Addr) (tables : Tables Addr Bucket)
    (msg : HelloNeighbor Addr) (address : Addr) :
    Decidable (IsUnlinking hash ctx tables msg address) :=
  instDecidableAnd

/-- The addresses that the sender is still linked to after an entry. -/
def linkedAfter (ctx : HelloContext Addr) (tables : Tables Addr Bucket)
    (linked : List Addr) (msg : HelloNeighbor Addr) : List Addr :=
  if IsLinking hash ctx tables msg then
    messageAddress ctx tables msg :: linked
  else
    linked.filter fun address =>
      ¬ IsUnlinking hash ctx tables msg address

/-- Every entry that creates a link is followed by one that lists the same
address again. -/
def RelistsNew (ctx : HelloContext Addr) (tables : Tables Addr Bucket) :
    List Addr → List (HelloNeighbor Addr) → Prop
  | _, [] => True
  | linked, msg :: rest =>
    (IsLinking hash ctx tables msg →
      messageAddress ctx tables msg ∉ linked → ∃ later ∈ rest, IsConsidered ctx later ∧
          messageAddress ctx tables later = messageAddress ctx tables msg) ∧
      RelistsNew ctx tables (linkedAfter hash ctx tables linked msg) rest

instance RelistsNew.decidable (ctx : HelloContext Addr) (tables : Tables Addr Bucket) :
    ∀ (linked : List Addr) (messages : List (HelloNeighbor Addr)),
      Decidable (RelistsNew hash ctx tables linked messages)
  | _, [] => isTrue trivial
  | linked, msg :: rest =>
    have := RelistsNew.decidable ctx tables (linkedAfter hash ctx tables linked msg) rest
    instDecidableAnd

def ArmsLinks : TimedEvent Addr → Prop
  | .hello ctx vtime neighbor neighbors =>
    LinksCleanly st.tables (.processMessageNeighbors ctx neighbor neighbors) ∧ vtime ≠ 0 ∧
      RelistsNew hash ctx st.tables (linkedAddresses st.tables neighbor) neighbors
  | _ => True

instance (event : TimedEvent Addr) : Decidable (ArmsLinks hash st event) :=
  match event with
  | .hello .. => instDecidableAnd
  | .expire .. => isTrue trivial
  | .deleteTwoHop .. => isTrue trivial
  | .updateNeighborStatus .. => isTrue trivial
  | .insertNeighbor .. => isTrue trivial
  | .deleteNeighbor .. => isTrue trivial
  | .changeMids .. => isTrue trivial

end Timed

section Shrinking

variable {tables next after : Tables Addr Bucket}

def Shrinks (before after : Tables Addr Bucket) : Prop :=
  ∀ left, twoHops after left ⊆ twoHops before left

theorem Shrinks.refl (tables : Tables Addr Bucket) : Shrinks tables tables :=
  fun _ => List.Subset.refl _

theorem Shrinks.trans (first : Shrinks tables next) (second : Shrinks next after) :
    Shrinks tables after :=
  fun left => List.Subset.trans (second left) (first left)

private theorem shrinks_writeNbr {write : NeighborEntry Addr Bucket → NeighborEntry Addr Bucket}
    (keeps : ∀ entry, (write entry).ptr = entry.ptr)
    (within : ∀ entry, (write entry).neighbor2List ⊆ entry.neighbor2List) :
    Shrinks tables (tables.writeNbr neighbor write) := by
  intro left walked linked
  rw [twoHops, nbr_writeNbr keeps] at linked
  rw [twoHops]
  split at linked
  · cases found : tables.nbr left with
    | none =>
      rw [found] at linked
      cases linked
    | some nbr =>
      rw [found] at linked
      exact map_subset _ (within nbr) linked
  · exact linked

theorem deleting_shrinks : Deleting (@Shrinks Addr Bucket) where
  refl := Shrinks.refl
  trans := Shrinks.trans
  writeNbr2 := Shrinks.refl _
  freeNbr2 := Shrinks.refl _
  writeNbr keeps within := shrinks_writeNbr (fun entry => congrArg Prod.fst (keeps entry)) within

variable [DecidableEq Addr] [DecidableEq Bucket] {hash : Addr → Bucket}

private theorem shrinks_insertNeighborTable (mainAddr : Addr) :
    Shrinks tables (olsrInsertNeighborTable hash mainAddr tables).1 := by
  rw [olsrInsertNeighborTable]
  split
  · exact Shrinks.refl tables
  · intro left walked linked
    rw [twoHops, nbr_queueNeighbor] at linked
    rw [twoHops]
    split at linked
    · cases linked
    · exact linked

private theorem shrinks_deleteNeighborTable (cross : CrossLinked hash tables) {nbrAddr : Addr}
    (done : olsrDeleteNeighborTable hash nbrAddr tables = some after) : Shrinks tables after := by
  rw [olsrDeleteNeighborTable] at done
  split at done
  · cases done
    exact Shrinks.refl tables
  next entry lookup =>
    obtain ⟨between, deleted, ⟨⟩⟩ := bind_eq_some_iff.mp done
    apply Shrinks.trans (deleting_shrinks.deleteNbr2Lists deleted)
    obtain ⟨reached, nbr, isReached, kept, -⟩ :=
      crossLinked_deleteNbr2Lists cross (nbr_of_lookup cross.toPlaced lookup) rfl
    cases deleted.symm.trans isReached
    intro left walked linked
    rw [kept.toPlaced.twoHops_freeNbr, update_apply] at linked
    split at linked
    · cases linked
    · exact linked

def IsHello : TwoHopEvent Addr → Prop
  | .processMessageNeighbors .. => True
  | _ => False

private theorem shrinks_twoHopStep {event : TwoHopEvent Addr} (cross : CrossLinked hash tables)
    (noHello : ¬ IsHello event) (done : twoHopStep hash tables event = some after) :
    Shrinks tables after := by
  rw [twoHopStep] at done
  split at done
  · cases event with
    | processMessageNeighbors => exact absurd trivial noHello
    | expireNbr2List => exact deleting_shrinks.expireNbr2List done
    | deleteTwoHop => exact deleting_shrinks.deleteTwoHop done
    | updateNeighborStatus => exact deleting_shrinks.updateNeighborStatus done
    | insertNeighbor mainAddr =>
      cases done
      exact shrinks_insertNeighborTable mainAddr
    | deleteNeighbor => exact shrinks_deleteNeighborTable cross done
  · cases done
    exact Shrinks.refl tables

end Shrinking

section Rounds

variable {hash : Addr → Bucket} {tables between next : Tables Addr Bucket}

theorem mem_linkedAddresses :
    address ∈ linkedAddresses tables neighbor ↔ ∃ twoHop ∈ twoHops tables neighbor,
      ∃ nbr2, tables.nbr2 twoHop = some nbr2 ∧ nbr2.neighbor2Addr = address := by
  simp [linkedAddresses]

theorem nbr2_of_writeWalkers {twoHop walked other : Ptr}
    (write : NeighborListEntry → NeighborListEntry) (found : tables.nbr2 other = some nbr2) :
    ∃ reset, (tables.writeNbr2 twoHop (writeWalkers walked write)).nbr2 other = some reset ∧
      reset.neighbor2Addr = nbr2.neighbor2Addr := by
  rw [nbr2_writeNbr2 (ptr_writeWalkers walked write), found]
  split
  · exact ⟨_, rfl, rfl⟩
  · exact ⟨_, rfl, rfl⟩

theorem twoHops_linkedTables (twoHop : Ptr) (found : tables.nbr neighbor = some nbr) :
    twoHops (linkedTables neighbor twoHop tables) =
      update (twoHops tables) neighbor (twoHop :: twoHops tables neighbor) := by
  have foundWritten : (tables.writeNbr2 twoHop (addNeighbor neighbor)).nbr neighbor = some nbr :=
    found
  rw [linkedTables, twoHops_writeNbr (ptr_addTwoHop neighbor twoHop) foundWritten,
    twoHops_writeNbr2, twoHops_of_nbr found]
  rfl

variable {twoHop : Ptr}

theorem mem_linkedAddresses_linkedTables (found : tables.nbr neighbor = some nbr)
    (found2 : tables.nbr2 twoHop = some nbr2) :
    nbr2.neighbor2Addr ∈ linkedAddresses (linkedTables neighbor twoHop tables) neighbor := by
  rw [mem_linkedAddresses, twoHops_linkedTables twoHop found, update_self]
  refine ⟨twoHop, mem_cons_self, addNeighbor neighbor nbr2, ?_, rfl⟩
  rw [nbr2_linkedTables, if_pos rfl, found2]
  rfl

variable [DecidableEq Addr] [DecidableEq Bucket]

structure LinkStep (hash : Addr → Bucket) (ctx : HelloContext Addr)
    (neighbor : Ptr) (tables : Tables Addr Bucket)
    (msg : HelloNeighbor Addr) (next : Tables Addr Bucket) : Prop where
  /-- A new link is one of the sender to the address of the entry. -/
  old_or_new : ∀ {left twoHop}, twoHop ∈ twoHops next left → twoHop ∈ twoHops tables left ∨
        left = neighbor ∧ IsLinking hash ctx tables msg ∧
          messageAddress ctx tables msg ∉ linkedAddresses tables neighbor ∧
          ∃ nbr2, next.nbr2 twoHop = some nbr2 ∧ nbr2.neighbor2Addr = messageAddress ctx tables msg
  address_eq : ∀ {twoHop nbr2 nbr2'}, tables.nbr2 twoHop = some nbr2 →
      next.nbr2 twoHop = some nbr2' → nbr2'.neighbor2Addr = nbr2.neighbor2Addr
  kept : ∀ {left twoHop nbr2}, twoHop ∈ twoHops tables left → tables.nbr2 twoHop = some nbr2 →
      ¬ IsUnlinking hash ctx tables msg nbr2.neighbor2Addr → twoHop ∈ twoHops next left

theorem linkStep_refl : LinkStep hash ctx neighbor tables msg tables where
  old_or_new linked := Or.inl linked
  address_eq found found' := by
    rw [found] at found'
    cases found'
    rfl
  kept linked _ _ := linked

variable {nbr2 : Neighbor2Entry Addr Bucket}

theorem linkStep_deleteTwoHop (cross : CrossLinked hash tables)
    (found2 : tables.nbr2 twoHop = some nbr2)
    (unlinking : IsUnlinking hash ctx tables msg nbr2.neighbor2Addr)
    (done : olsrDeleteTwoHopNeighborTable twoHop tables = some next) :
    LinkStep hash ctx neighbor tables msg next := by
  obtain ⟨after, taken, crossAfter, -, others⟩ := crossLinked_deleteTwoHop cross found2
  cases done.symm.trans taken
  refine ⟨?_, ?_, ?_⟩
  · exact fun linked => Or.inl (deleting_shrinks.deleteTwoHop done _ linked)
  · intro walked before after found found'
    rw [others] at found'
    split at found'
    · cases found'
    · rw [found] at found'
      cases found'
      rfl
  · intro left walked before linked found stays
    have ne : walked ≠ twoHop := by
      rintro rfl
      rw [found2] at found
      cases found
      exact stays unlinking
    apply crossAfter.mirrors.mem_iff.mpr
    rw [oneHops, others, if_neg ne]
    exact cross.mirrors.mem_iff.mp linked

theorem LinkStep.of_reset {twoHop walked : Ptr} {write : NeighborListEntry → NeighborListEntry}
    (step : LinkStep hash ctx neighbor
        (tables.writeNbr2 twoHop (writeWalkers walked write)) msg next)
    (shrinks : Shrinks tables next) :
    LinkStep hash ctx neighbor tables msg next where
  old_or_new linked := Or.inl (shrinks _ linked)
  address_eq := by
    intro other nbr2 nbr2' found found'
    obtain ⟨reset, written, address⟩ := nbr2_of_writeWalkers write found
    exact (step.address_eq written found').trans address
  kept := by
    intro left other nbr2 linked found stays
    obtain ⟨reset, written, address⟩ := nbr2_of_writeWalkers write found
    apply step.kept linked written
    rw [address]
    exact stays

theorem isUnlinking_of_lookup (linked : Linked hash tables)
    (considered : IsConsidered ctx msg) (small : msg.status.code < 3)
    (lookup : olsrLookupTwoHopNeighborTable hash tables
        (messageAddress ctx tables msg) = some nbr2) :
    IsUnlinking hash ctx tables msg nbr2.neighbor2Addr := by
  have matched := find?_some lookup
  simp only [decide_eq_true_eq] at matched
  rw [linked.hashed (nbr2_of_lookupTwoHop linked.toPlaced lookup)] at matched
  exact ⟨considered, small, matched⟩

private theorem linkStep_processKnownTwoHop
    {yet : Neighbor2ListEntry} (ready : HelloReady hash neighbor tables)
    (considered : IsConsidered ctx msg)
    (done : processKnownTwoHop hash ctx neighbor msg.status
        (messageAddress ctx tables msg) yet tables = some next) :
    LinkStep hash ctx neighbor tables msg next := by
  have onward : ∀ {between : Tables Addr Bucket}, HelloReady hash neighbor between →
        deleteLostTwoHop hash msg.status (messageAddress ctx between msg) between = some next →
        LinkStep hash ctx neighbor between msg next ∧ Shrinks between next := by
    intro between readyMid rest
    rw [deleteLostTwoHop] at rest
    split at rest
    next nbr2 lookup =>
      split at rest
      next small =>
        refine ⟨?_, deleting_shrinks.deleteTwoHop rest⟩
        exact linkStep_deleteTwoHop readyMid.toCrossLinked
            (nbr2_of_lookupTwoHop readyMid.toPlaced lookup)
            (isUnlinking_of_lookup readyMid.toLinked considered small lookup)
            rest
      · rw [← some.inj rest]
        exact ⟨linkStep_refl, Shrinks.refl between⟩
    · rw [← some.inj rest]
      exact ⟨linkStep_refl, Shrinks.refl between⟩
  rw [processKnownTwoHop] at done
  by_cases resets : 0 < ctx.lqLevel
  · simp only [if_pos resets] at done
    have readyReset : HelloReady hash neighbor
          (tables.writeNbr2 yet.neighbor2 <| writeWalkers neighbor fun walker =>
              { walker with pathLinkcost := brokenLinkcost }) :=
      helloReady_writeWalkers ready fun _ => rfl
    obtain ⟨step, shrinks⟩ := onward readyReset done
    exact step.of_reset shrinks
  · simp only [if_neg resets] at done
    exact (onward ready done).1

variable {nbr : NeighborEntry Addr Bucket}

/-- Linking the sender with a two-hop neighbour, which may have been queued for
that. -/
theorem linkStep_linkedTables (linking : IsLinking hash ctx tables msg)
    (apart : messageAddress ctx tables msg ∉ linkedAddresses tables neighbor)
    (sameLists : twoHops between = twoHops tables) (queued : ∀ {other otherNbr2},
        tables.nbr2 other = some otherNbr2 → between.nbr2 other = some otherNbr2)
    (found : between.nbr neighbor = some nbr) (found2 : between.nbr2 twoHop = some nbr2)
    (address : nbr2.neighbor2Addr = messageAddress ctx tables msg) :
    LinkStep hash ctx neighbor tables msg (linkedTables neighbor twoHop between) := by
  have lists := twoHops_linkedTables twoHop found
  rw [sameLists] at lists
  have foundNext :
      (linkedTables neighbor twoHop between).nbr2 twoHop = some (addNeighbor neighbor nbr2) := by
    rw [nbr2_linkedTables, if_pos rfl, found2]
    rfl
  refine ⟨?_, ?_, ?_⟩
  · intro left walked linked
    rw [lists, update_apply] at linked
    split at linked
    next isSender =>
      rcases mem_cons.mp linked with rfl | old
      · exact Or.inr ⟨isSender, linking, apart, _, foundNext, address⟩
      · exact Or.inl (isSender ▸ old)
    · exact Or.inl linked
  · intro walked before after wasFound isFound
    rw [nbr2_linkedTables, queued wasFound] at isFound
    split at isFound
    · cases isFound
      rfl
    · cases isFound
      rfl
  · intro left walked before linked _ _
    rw [lists, update_apply]
    split
    next isSender => exact mem_cons_of_mem _ (isSender ▸ linked)
    · exact linked

private theorem linkStep_processNewTwoHop
    (ready : HelloReady hash neighbor tables) (considered : IsConsidered ctx msg)
    (listsMain : ListsMainAddress ctx tables msg)
    (apart : messageAddress ctx tables msg ∉ linkedAddresses tables neighbor)
    (done : processNewTwoHop hash neighbor msg.status
        (messageAddress ctx tables msg) tables = some next) :
    LinkStep hash ctx neighbor tables msg next := by
  obtain ⟨nbr, found⟩ := isSome_iff_exists.mp ready.known
  rw [processNewTwoHop] at done
  split at done
  · cases done
    exact linkStep_refl
  next notNbr =>
    split at done
    next lookup =>
      split at done
      next head =>
        have foundQueued :
            (queueTwoHop hash (messageAddress ctx tables msg)
              (msg.status ≠ .twoHead) tables).nbr neighbor = some nbr :=
          found
        rw [linkingThis2Entries_eq foundQueued (nbr2_queueTwoHop.trans (if_pos rfl))] at done
        cases done
        refine linkStep_linkedTables ⟨considered, head, notNbr⟩ apart
            ?_ ?_ foundQueued (nbr2_queueTwoHop.trans (if_pos rfl)) rfl
        · rfl
        intro other otherNbr2 wasFound
        rw [nbr2_queueTwoHop, if_neg]
        · exact wasFound
        · rintro rfl
          rw [ready.toPlaced.nbr2_nextPtr] at wasFound
          cases wasFound
      · cases done
        exact linkStep_refl
    next nbr2 lookup =>
      have found2 := nbr2_of_lookupTwoHop ready.toPlaced lookup
      split at done
      next isHead =>
        have head := isHeadStatus_of_listed considered.2 isHead
        rw [linkingThis2Entries_eq found found2] at done
        cases done
        apply linkStep_linkedTables ⟨considered, head, notNbr⟩ apart rfl id found found2
        apply address_of_lookupTwoHop _ lookup
        exact listsMain (by simp [considered.1]) head
      next small =>
        exact linkStep_deleteTwoHop ready.toCrossLinked found2
            (isUnlinking_of_lookup ready.toLinked considered (Nat.lt_of_not_le small) lookup)
            done

private theorem linkStep_processMessageNeighbor (ready : HelloReady hash neighbor tables)
    (listsMain : ListsMainAddress ctx tables msg)
    (done : processMessageNeighbor hash ctx neighbor tables msg = some next) :
    LinkStep hash ctx neighbor tables msg next := by
  rw [processMessageNeighbor] at done
  split at done
  · cases done
    exact linkStep_refl
  next processed =>
    rw [not_or, not_not, Bool.not_eq_true] at processed
    obtain ⟨nbr, found⟩ := isSome_iff_exists.mp ready.known
    obtain ⟨result, walked, missed⟩ :=
      ready.toCrossLinked.olsrLookupMyNeighbors_exists found (messageAddress ctx tables msg)
    simp only [found, walked, bind_eq_bind, bind_some] at done
    cases result with
    | none =>
      apply linkStep_processNewTwoHop ready processed listsMain _ done
      rw [mem_linkedAddresses]
      rintro ⟨twoHop, linked, nbr2, found2, isAddr⟩
      exact missed rfl twoHop nbr2 found2 isAddr linked
    | some yet => exact linkStep_processKnownTwoHop ready processed done

end Rounds

section Timers

variable {hash : Addr → Bucket} {vtime : Nat}
  {rest : List (HelloNeighbor Addr)} {linked : List Addr} {start tables : Tables Addr Bucket}
  {st : TimedTables Addr Bucket} {left twoHop : Ptr}

theorem mem_runningTimers : (left, twoHop) ∈ runningTimers tables timers ↔
      (left, twoHop) ∈ timers ∧ twoHop ∈ twoHops tables left := by
  simp [runningTimers]

variable [DecidableEq Addr]

theorem address_of_lookupMyNeighbors {entries : List Neighbor2ListEntry} {yet : Neighbor2ListEntry}
    (walked : olsrLookupMyNeighbors tables address entries = some (some yet)) : yet ∈ entries ∧
      ∃ nbr2, tables.nbr2 yet.neighbor2 = some nbr2 ∧ nbr2.neighbor2Addr = address := by
  induction entries with
  | nil => cases walked
  | cons entry rest ih =>
    rw [olsrLookupMyNeighbors] at walked
    obtain ⟨nbr2, found2, onward⟩ := bind_eq_some_iff.mp walked
    split at onward
    next isAddr =>
      cases onward
      exact ⟨mem_cons_self, nbr2, found2, isAddr⟩
    · obtain ⟨inRest, address⟩ := ih onward
      exact ⟨mem_cons_of_mem entry inRest, address⟩

theorem SameNeighbors.messageAddress_eq (same : SameNeighbors start tables) :
    messageAddress ctx tables msg = messageAddress ctx start msg := by
  rw [messageAddress, messageAddress, same.mids]

variable [DecidableEq Bucket]

theorem code_of_isHeadStatus
    {status : NeighType} (head : IsHeadStatus status) : 3 ≤ status.code := by
  rcases head with rfl | rfl | rfl
  · decide
  · decide
  · decide

variable {timers : List (Ptr × Ptr)}

theorem mem_olsrSetTimer (nonzero : vtime ≠ 0) {entry other : Ptr × Ptr} :
    other ∈ olsrSetTimer vtime entry timers ↔ other = entry ∨ other ∈ timers := by
  rw [olsrSetTimer, if_neg nonzero]
  split
  next running =>
    constructor
    · exact Or.inr
    · rintro (rfl | mem)
      · exact running
      · exact mem
  · exact mem_cons

omit [DecidableEq Bucket] in
/-- An entry starts the timer of the sender's link to its address, and stops
none. -/
theorem refreshTimer_spec (cross : CrossLinked hash st.tables)
    (known : (st.tables.nbr neighbor).isSome) (nonzero : vtime ≠ 0) :
    ∃ timers, refreshTimer ctx vtime neighbor st msg = some timers ∧
        (∀ entry ∈ st.timers, entry ∈ timers) ∧
        (IsConsidered ctx msg → ∀ {twoHop nbr2}, twoHop ∈ twoHops st.tables neighbor →
            st.tables.nbr2 twoHop = some nbr2 →
            nbr2.neighbor2Addr = messageAddress ctx st.tables msg →
              (neighbor, twoHop) ∈ timers) := by
  rw [refreshTimer]
  split
  next considered =>
    obtain ⟨nbr, found⟩ := isSome_iff_exists.mp known
    obtain ⟨result, walked, missed⟩ :=
      cross.olsrLookupMyNeighbors_exists found (messageAddress ctx st.tables msg)
    simp only [found, walked, bind_eq_bind, bind_some]
    cases result with
    | none =>
      refine ⟨st.timers, rfl, fun _ mem => mem, ?_⟩
      intro _ twoHop nbr2 linked found2 isAddr
      exact absurd linked (missed rfl twoHop nbr2 found2 isAddr)
    | some yet =>
      refine ⟨_, rfl, ?_, ?_⟩
      · intro entry mem
        exact (mem_olsrSetTimer nonzero).mpr (Or.inr mem)
      · intro _ twoHop nbr2 linked found2 isAddr
        obtain ⟨-, yetNbr2, foundYet, yetAddr⟩ := address_of_lookupMyNeighbors walked
        have isYet : twoHop = yet.neighbor2 :=
          cross.unique found2 foundYet (isAddr.trans yetAddr.symm)
        rw [mem_olsrSetTimer nonzero, isYet]
        exact Or.inl rfl
  next skipped =>
    refine ⟨st.timers, rfl, fun _ mem => mem, ?_⟩
    exact fun considered => absurd considered skipped

/-- What the first loop keeps.  Each link has its timer, or the sender is about
to list its address again; and the sender has the links that it is supposed to
have. -/
structure Arming (hash : Addr → Bucket) (ctx : HelloContext Addr) (neighbor : Ptr)
    (start : Tables Addr Bucket) (linked : List Addr) (rest : List (HelloNeighbor Addr))
    (st : TimedTables Addr Bucket) : Prop extends HelloReady hash neighbor st.tables where
  same : SameNeighbors start st.tables
  armed : ∀ {left twoHop}, twoHop ∈ twoHops st.tables left → (left, twoHop) ∈ st.timers ∨
        left = neighbor ∧ ∃ nbr2, st.tables.nbr2 twoHop = some nbr2 ∧
            ∃ later ∈ rest, IsConsidered ctx later ∧
              messageAddress ctx start later = nbr2.neighbor2Addr
  linked : linked ⊆ linkedAddresses st.tables neighbor

omit [DecidableEq Addr] [DecidableEq Bucket] in
theorem SameNeighbors.symm (same : SameNeighbors start tables) : SameNeighbors tables start :=
  ⟨same.cores.symm, same.linkSet.symm, same.mids.symm⟩

theorem SameNeighbors.isLinking_iff (same : SameNeighbors start tables) :
    IsLinking hash ctx tables msg ↔ IsLinking hash ctx start msg := by
  have found_iff : ∀ {before after : Tables Addr Bucket} {dst : Addr}, SameNeighbors before after →
        olsrLookupNeighborTable hash before dst = none →
          olsrLookupNeighborTable hash after dst = none := by
    intro before after dst same notFound
    rw [olsrLookupNeighborTable] at notFound ⊢
    rw [same.mids]
    exact same.lookup_eq_none notFound
  rw [IsLinking, IsLinking, same.messageAddress_eq]
  exact and_congr_right fun _ => and_congr_right fun _ => ⟨found_iff same.symm, found_iff same⟩

variable {next : Tables Addr Bucket}

/-- Links that the entry does not remove stay, under their addresses. -/
theorem LinkStep.mem_linkedAddresses (step : LinkStep hash ctx neighbor tables msg next)
    (cross : CrossLinked hash next) (linked : address ∈ linkedAddresses tables neighbor)
    (stays : ¬ IsUnlinking hash ctx tables msg address) :
    address ∈ linkedAddresses next neighbor := by
  rw [Neighborhood.mem_linkedAddresses] at linked ⊢
  obtain ⟨twoHop, inList, before, wasFound, rfl⟩ := linked
  have kept := step.kept inList wasFound stays
  obtain ⟨nbr2, found2⟩ := nbr2_of_mem_oneHops (cross.mirrors.mem_iff.mp kept)
  exact ⟨twoHop, kept, nbr2, found2, step.address_eq wasFound found2⟩

/-- After a round, the links are those of before or awaited. -/
theorem Arming.armed_timedRound (arming : Arming hash ctx neighbor start linked (msg :: rest) st)
    (relists : IsLinking hash ctx start msg →
        messageAddress ctx start msg ∉ linked → ∃ later ∈ rest,
        IsConsidered ctx later ∧ messageAddress ctx start later = messageAddress ctx start msg)
    (timersKept : ∀ entry ∈ st.timers, entry ∈ timers) (started : IsConsidered ctx msg →
        ∀ {twoHop nbr2}, twoHop ∈ twoHops st.tables neighbor → st.tables.nbr2 twoHop = some nbr2 →
        nbr2.neighbor2Addr = messageAddress ctx st.tables msg → (neighbor, twoHop) ∈ timers)
    (step : LinkStep hash ctx neighbor st.tables msg next) (cross : CrossLinked hash next)
    (inList : twoHop ∈ twoHops next left) : (left, twoHop) ∈ timers ∨
      left = neighbor ∧ ∃ nbr2, next.nbr2 twoHop = some nbr2 ∧ ∃ later ∈ rest,
      IsConsidered ctx later ∧ messageAddress ctx start later = nbr2.neighbor2Addr := by
  obtain ⟨nbr2, found2⟩ := nbr2_of_mem_oneHops (cross.mirrors.mem_iff.mp inList)
  rcases step.old_or_new inList with old | ⟨isSender, linking, apart, new⟩
  · rcases arming.armed old with mem | ⟨isSender, awaited⟩
    · exact Or.inl (timersKept _ mem)
    · obtain ⟨before, wasFound, later, mem, considered, isAddr⟩ := awaited
      rcases mem_cons.mp mem with rfl | inRest
      · left
        rw [isSender] at old ⊢
        apply started considered old wasFound
        rw [arming.same.messageAddress_eq, isAddr]
      · refine Or.inr ⟨isSender, nbr2, found2, later, inRest, considered, ?_⟩
        rw [isAddr, step.address_eq wasFound found2]
  · obtain ⟨after, isFound, isAddr⟩ := new
    rw [arming.same.messageAddress_eq] at apart isAddr
    obtain ⟨later, inRest, considered, sameAddr⟩ :=
      relists (arming.same.isLinking_iff.mp linking)
        fun wasLinked => apart (arming.linked wasLinked)
    refine Or.inr ⟨isSender, after, isFound, later, inRest, considered, ?_⟩
    rw [sameAddr, isAddr]

/-- An entry for a head that is no neighbour leaves the sender linked to it. -/
theorem mem_linkedAddresses_of_isLinking (ready : HelloReady hash neighbor tables)
    (listsMain : ListsMainAddress ctx tables msg) (linking : IsLinking hash ctx tables msg)
    (step : LinkStep hash ctx neighbor tables msg next) (cross : CrossLinked hash next)
    (done : processMessageNeighbor hash ctx neighbor tables msg = some next) :
    messageAddress ctx tables msg ∈ linkedAddresses next neighbor := by
  obtain ⟨considered, head, notNbr⟩ := linking
  have large := code_of_isHeadStatus head
  obtain ⟨nbr, found⟩ := isSome_iff_exists.mp ready.known
  by_cases already : messageAddress ctx tables msg ∈ linkedAddresses tables neighbor
  · apply step.mem_linkedAddresses cross already
    rintro ⟨-, small, -⟩
    omega
  · rw [processMessageNeighbor, if_neg (by simp [considered.1, considered.2])] at done
    simp only [found, bind_eq_bind, bind_some, bind_eq_some_iff] at done
    obtain ⟨result, walked, done⟩ := done
    cases result with
    | some yet =>
      obtain ⟨listed, nbr2, found2, isAddr⟩ := address_of_lookupMyNeighbors walked
      refine absurd (mem_linkedAddresses.mpr ?_) already
      refine ⟨yet.neighbor2, ?_, nbr2, found2, isAddr⟩
      rw [twoHops_of_nbr found]
      exact mem_map_of_mem listed
    | none =>
      simp only [processNewTwoHop, notNbr] at done
      split at done
      next lookup =>
        have foundQueued :
            (queueTwoHop hash (messageAddress ctx tables msg)
              (msg.status ≠ .twoHead) tables).nbr neighbor = some nbr :=
          found
        rw [if_pos head, linkingThis2Entries_eq foundQueued
          (nbr2_queueTwoHop.trans (if_pos rfl))] at done
        cases done
        exact mem_linkedAddresses_linkedTables foundQueued (nbr2_queueTwoHop.trans (if_pos rfl))
      next nbr2 lookup =>
        have found2 := nbr2_of_lookupTwoHop ready.toPlaced lookup
        have isAddr := address_of_lookupTwoHop (listsMain (by simp [considered.1]) head) lookup
        rw [if_pos large, linkingThis2Entries_eq found found2] at done
        rw [← some.inj done, ← isAddr]
        exact mem_linkedAddresses_linkedTables found found2

theorem Arming.timedRound (arming : Arming hash ctx neighbor start linked (msg :: rest) st)
    (listsMain : ListsMainAddress ctx start msg)
    (nonzero : vtime ≠ 0) (relists : IsLinking hash ctx start msg →
        messageAddress ctx start msg ∉ linked → ∃ later ∈ rest,
        IsConsidered ctx later ∧ messageAddress ctx start later = messageAddress ctx start msg) :
    ∃ next, Neighborhood.timedRound hash ctx vtime neighbor st msg = some next ∧
      processMessageNeighbor hash ctx neighbor st.tables msg = some next.tables ∧
      Arming hash ctx neighbor start (linkedAfter hash ctx start linked msg) rest next := by
  have listsNow := listsMain.of_same arming.same
  obtain ⟨timers, refreshed, timersKept, started⟩ :
      ∃ timers, refreshTimer ctx vtime neighbor st msg = some timers ∧ _ :=
    refreshTimer_spec arming.toCrossLinked arming.known nonzero
  obtain ⟨tables, processed, ready, same⟩ :=
    processMessageNeighbor_ready arming.toHelloReady listsNow
  have step := linkStep_processMessageNeighbor arming.toHelloReady listsNow processed
  refine
    ⟨⟨tables, runningTimers tables timers⟩, ?_, processed, ready, arming.same.trans same, ?_, ?_⟩
  · rw [Neighborhood.timedRound, refreshed, processed]
    rfl
  · intro left twoHop inList
    rcases arming.armed_timedRound relists timersKept started step
        ready.toCrossLinked inList with mem | awaited
    · exact Or.inl (mem_runningTimers.mpr ⟨mem, inList⟩)
    · exact Or.inr awaited
  · intro address mem
    rw [linkedAfter] at mem
    split at mem
    next linking =>
      have isLinking := arming.same.isLinking_iff.mpr linking
      have joined := mem_linkedAddresses_of_isLinking arming.toHelloReady listsNow
          isLinking step ready.toCrossLinked processed
      rcases mem_cons.mp mem with rfl | old
      · rwa [arming.same.messageAddress_eq] at joined
      · apply step.mem_linkedAddresses ready.toCrossLinked (arming.linked old)
        rintro ⟨-, small, -⟩
        have large := code_of_isHeadStatus linking.2.1
        omega
    · obtain ⟨old, stays⟩ := mem_filter.mp mem
      apply step.mem_linkedAddresses ready.toCrossLinked (arming.linked old)
      rw [IsUnlinking, arming.same.messageAddress_eq, arming.same.mids]
      exact of_decide_eq_true stays

/-- The first loop ends with a timer for every link. -/
theorem Arming.foldlM {messages : List (HelloNeighbor Addr)}
    (arming : Arming hash ctx neighbor start linked messages st)
    (listsMain : ∀ msg ∈ messages, ListsMainAddress ctx start msg)
    (nonzero : vtime ≠ 0) (relists : RelistsNew hash ctx start linked messages) :
    ∃ looped, messages.foldlM (Neighborhood.timedRound hash ctx vtime neighbor) st = some looped ∧
      messages.foldlM (processMessageNeighbor hash ctx neighbor) st.tables = some looped.tables ∧
      ∀ {left twoHop}, twoHop ∈ twoHops looped.tables left → (left, twoHop) ∈ looped.timers := by
  induction messages generalizing st linked with
  | nil =>
    refine ⟨st, rfl, rfl, ?_⟩
    intro left twoHop inList
    rcases arming.armed inList with mem | ⟨-, nbr2, -, later, none, -⟩
    · exact mem
    · cases none
  | cons msg rest ih =>
    obtain ⟨next, taken, processed, armingNext⟩ :=
      arming.timedRound (listsMain msg mem_cons_self) nonzero relists.1
    obtain ⟨looped, isLooped, isProcessed, armed⟩ := ih armingNext
        (fun later mem => listsMain later (mem_cons_of_mem msg mem))
        relists.2
    refine ⟨looped, ?_, ?_, armed⟩
    · rw [foldlM_cons, taken]
      exact isLooped
    · rw [foldlM_cons, processed]
      exact isProcessed

end Timers

section Runs

variable [DecidableEq Addr] [DecidableEq Bucket] {hash : Addr → Bucket}
  {st : TimedTables Addr Bucket}

structure Armed (hash : Addr → Bucket) (st : TimedTables Addr Bucket) : Prop
    extends CrossLinked hash st.tables where
  running : ∀ {left twoHop}, twoHop ∈ twoHops st.tables left → (left, twoHop) ∈ st.timers

private theorem armed_timedHello {vtime : Nat} {neighbors : List (HelloNeighbor Addr)}
    (armed : Armed hash st) (known : (st.tables.nbr neighbor).isSome)
    (arms : ArmsLinks hash st (.hello ctx vtime neighbor neighbors)) :
    ∃ next, timedHello hash ctx vtime neighbor neighbors st = some next ∧ Armed hash next := by
  obtain ⟨⟨listsMain, room⟩, nonzero, relists⟩ := arms
  have ready : HelloReady hash neighbor st.tables :=
    ⟨armed.toCrossLinked, known, fun found2 _ => room _ (armed.toPlaced.nbr2_iff.mp found2).1⟩
  have arming : Arming hash ctx neighbor st.tables
        (linkedAddresses st.tables neighbor) neighbors st :=
    ⟨ready, SameNeighbors.refl _, fun linked => Or.inl (armed.running linked), List.Subset.refl _⟩
  obtain ⟨looped, isLooped, isProcessed, running⟩ := arming.foldlM listsMain nonzero relists
  obtain ⟨after, done, cross, -⟩ := processMessageNeighbors_ready ready listsMain
  refine ⟨⟨after, looped.timers⟩, ?_, cross, ?_⟩
  · rw [timedHello, isLooped, done]
    rfl
  · intro left twoHop linked
    exact running (deleting_shrinks.processMessageNeighbors isProcessed done left linked)

theorem armed_untimedStep {event : TwoHopEvent Addr} (armed : Armed hash st)
    (noHello : ¬ IsHello event) :
    ∃ next, untimedStep hash st event = some next ∧ Armed hash next := by
  have cleanly : LinksCleanly st.tables event := by
    cases event with
    | processMessageNeighbors => exact absurd trivial noHello
    | _ => trivial
  obtain ⟨after, done, cross⟩ := crossLinked_twoHopStep armed.toCrossLinked cleanly
  refine ⟨⟨after, runningTimers after st.timers⟩, ?_, cross, ?_⟩
  · rw [untimedStep, done]
    rfl
  · intro left twoHop linked
    have old := shrinks_twoHopStep armed.toCrossLinked noHello done left linked
    exact mem_runningTimers.mpr ⟨armed.running old, linked⟩

private theorem armed_timedStep {event : TimedEvent Addr} (armed : Armed hash st)
    (arms : ArmsLinks hash st event) :
    ∃ next, timedStep hash st event = some next ∧ Armed hash next := by
  rw [timedStep.eq_def]
  cases event with
  | hello ctx vtime neighbor neighbors =>
    dsimp only
    split
    next known => exact armed_timedHello armed known arms
    · exact ⟨st, rfl, armed⟩
  | expire neighbor index =>
    dsimp only
    split
    · exact armed_untimedStep armed id
    · exact ⟨st, rfl, armed⟩
  | deleteTwoHop => exact armed_untimedStep armed id
  | updateNeighborStatus => exact armed_untimedStep armed id
  | insertNeighbor => exact armed_untimedStep armed id
  | deleteNeighbor => exact armed_untimedStep armed id
  | changeMids mids => exact ⟨_, rfl, armed.toCrossLinked.of_tables rfl rfl rfl, armed.running⟩

private theorem Armed.linksExpire (armed : Armed hash st) : LinksExpire hash st where
  running := armed.running
  removed := by
    intro neighbor index twoHop isTwoHop
    have linked := mem_of_getElem? isTwoHop
    obtain ⟨nbr, found⟩ := nbr_of_mem_twoHops linked
    have nodup := armed.mirrors.rights_nodup neighbor
    have running : isRunning st neighbor index = true := by
      simp [isRunning, isTwoHop, armed.running linked]
    rw [twoHops_of_nbr found, getElem?_map, map_eq_some_iff] at isTwoHop
    obtain ⟨entry, listed, rfl⟩ := isTwoHop
    obtain ⟨inside, isEntry⟩ := List.getElem?_eq_some_iff.mp listed
    obtain ⟨nbr2, found2⟩ := armed.toCrossLinked.nbr2_of_listed found (mem_of_getElem? listed)
    have owned := armed.owned found entry (mem_of_getElem? listed)
    have possible : canOccur st.tables (.expireNbr2List neighbor index) = true := by
      simp [canOccur, found, inside]
    have expired : olsrExpireNbr2List neighbor index st.tables =
          some (unlinked neighbor index entry.neighbor2 nbr2 st.tables) := by
      rw [← unlink_eq found listed found2, olsrExpireNbr2List, found]
      simp only [bind_eq_bind, bind_some, listed, owned]
    refine ⟨⟨unlinked neighbor index entry.neighbor2 nbr2 st.tables, runningTimers
          (unlinked neighbor index entry.neighbor2 nbr2 st.tables)
          st.timers⟩, ?_, ?_⟩
    · rw [timedStep, if_pos running, untimedStep, twoHopStep, if_pos possible,
        handleTwoHopEvent, expired]
      rfl
    · rw [twoHops_unlinked nodup found listed, update_self]
      exact List.Nodup.not_mem_erase nodup

/-- In every run in which no HELLO creates a link without listing its address
once more, every link has a timer that removes it. -/
theorem linksExpire_of_armsLinks
    (hash : Addr → Bucket) (mids : MidSet Addr) (events : List (TimedEvent Addr))
    (arms : RunMeets (timedStep hash) (ArmsLinks hash)
        ⟨{ Tables.init Addr Bucket with mids := mids }, []⟩ events) :
    ∃ final, runEvents (timedStep hash)
          ⟨{ Tables.init Addr Bucket with mids := mids }, []⟩ events =
          some final ∧
        LinksExpire hash final := by
  have initially : Armed hash ⟨{ Tables.init Addr Bucket with mids := mids }, []⟩ :=
    ⟨crossLinked_init mids, fun impossible => nomatch impossible⟩
  obtain ⟨final, finished, armed⟩ := runEvents_exists_of_meets armed_timedStep initially arms
  exact ⟨final, finished, armed.linksExpire⟩

end Runs

/-- A neighbour joins, lists a head twice in one HELLO, and once in the next. -/
theorem linksExpire_of_armsLinks_listed_twice : ∃ final, runEvents (timedStep olsrIpHashing)
          ⟨{ Tables.init (IpAddr .inet) UInt32 with
              mids := MidSet.init (IpAddr .inet) }, []⟩
          [.insertNeighbor (hostAddr 1), .hello plainHello 6000 0 [headEntry 8, headEntry 8],
            .hello plainHello 6000 0 [headEntry 8]] =
          some final ∧
        LinksExpire olsrIpHashing final := by
  apply linksExpire_of_armsLinks
  decide +kernel

/-- A neighbour joins and lists a head once: the link has no timer. -/
theorem hello_links_without_timer : ∃ final, runEvents (timedStep olsrIpHashing)
          ⟨{ Tables.init (IpAddr .inet) UInt32 with
              mids := MidSet.init (IpAddr .inet) }, []⟩
          [.insertNeighbor (hostAddr 1), .hello plainHello 6000 0 [headEntry 8]] = some final ∧
        ¬ LinksExpire olsrIpHashing final := by
  have linked :
      (runEvents (timedStep olsrIpHashing)
          ⟨{ Tables.init (IpAddr .inet) UInt32 with
              mids := MidSet.init (IpAddr .inet) }, []⟩
          [.insertNeighbor (hostAddr 1), .hello plainHello 6000 0 [headEntry 8]]).map
        (fun final => (twoHops final.tables 0, final.timers)) =
        some ([1], []) := by
    decide +kernel
  obtain ⟨final, finished, seen⟩ := map_eq_some_iff.mp linked
  obtain ⟨isLinked, noTimer⟩ := Prod.mk.inj seen
  refine ⟨final, finished, fun expire => ?_⟩
  have running := expire.running (isLinked ▸ mem_singleton_self 1)
  rw [noTimer] at running
  cases running

end QosOlsr.Neighborhood
