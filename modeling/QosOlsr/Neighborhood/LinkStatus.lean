import QosOlsr.LinkSet
import QosOlsr.Neighborhood.LinkCounts

/-!
# Link sensing and the status of neighbours

`update_link_entry` and the expiry of the symmetry timer of `link_set.c` set the
status of the neighbour that a link leads to.  `get_neighbor_status` does not
follow the pointers of the links but looks them up under the main address and
the aliases that the association set knows.
-/

namespace QosOlsr.Neighborhood

open Library Function List Option

variable {Addr Bucket : Type}

/-- What the status of a link depends on, from `struct link_entry`.  A timer
is given by its clock. -/
structure LinkSensing where
  linkSymTimer : Option UInt32
  linkTimer : Option UInt32
  asymTime : UInt32
  prevStatus : LinkType
  linkPending : Bool
  lostLinkTime : UInt32
  linkQuality : ℚ
  deriving DecidableEq

/-- The clock, the configuration, the random value of a timer and `ifnet`. -/
structure SensingContext (Addr : Type) where
  nowTimes : UInt32
  useHysteresis : Bool
  thrHigh : ℚ
  thrLow : ℚ
  randomVal : UInt32
  ifnet : List (Interface Addr)

/-- The tables, and the rest of the link at each index of the list. -/
structure SensedTables (Addr Bucket : Type) where
  tables : Tables Addr Bucket
  sensing : Nat → LinkSensing

section Sensing

section OneLink

variable (ctx : SensingContext Addr)

def lookupLinkStatus (link : LinkSensing) : LinkType :=
  if ctx.useHysteresis ∧ ¬ olsrIsTimedOut ctx.nowTimes link.lostLinkTime then
    .lost
  else if ctx.useHysteresis ∧ link.linkPending then
    .hide
  else if link.linkSymTimer.isSome then
    .sym
  else if ¬ olsrIsTimedOut ctx.nowTimes link.asymTime then
    .asym
  else
    .lost

/-- The clock that `olsr_set_timer` gives a timer; without a time the timer is
stopped. -/
def timerClock (relTime jitterPct : UInt32) : Option UInt32 :=
  if relTime = 0 then
    none
  else
    some (calcJitter ctx.nowTimes relTime jitterPct ctx.randomVal)

def neighbHoldTime : UInt32 := 10000

def olsrSetLinkTimer (relTimer : UInt32) (link : LinkSensing) : LinkSensing :=
  { link with linkTimer := timerClock ctx relTimer 5 }

/-- `olsr_process_hysteresis`; it follows the pointer to the link timer. -/
def olsrProcessHysteresis (link : LinkSensing) : Option LinkSensing :=
  if ctx.thrHigh < link.linkQuality then
    some
      { link with
        linkPending := false
        lostLinkTime := ctx.nowTimes - 1 }
  else if link.linkQuality < ctx.thrLow then do
    let clock ← link.linkTimer
    some
      { link with
        linkPending := true
        lostLinkTime := min (ctx.nowTimes + neighbHoldTime) clock }
  else
    some link

def newSensing (vtime : UInt32) : LinkSensing := olsrSetLinkTimer ctx vtime
    { linkSymTimer := none
      linkTimer := none
      asymTime := 0
      prevStatus := .asym
      linkPending := ctx.useHysteresis
      lostLinkTime :=
        if ctx.useHysteresis then ctx.nowTimes + vtime else 0
      linkQuality := 0 }

/-- The `switch` of `update_link_entry` over the status in the HELLO. -/
def noteStatus (status : LinkType) (vtime : UInt32) (link : LinkSensing) : LinkSensing :=
  let link :=
    { link with
      asymTime := ctx.nowTimes + vtime
      prevStatus := status }
  match status with
  | .lost => { link with linkSymTimer := none }
  | .sym | .asym =>
    olsrSetLinkTimer ctx (vtime + neighbHoldTime)
      { link with linkSymTimer := timerClock ctx vtime 0 }
  | .unspec | .hide => link

/-- The part of `update_link_entry` between the lookup of the link and the
update of its neighbour. -/
def senseLink (status : LinkType) (vtime : UInt32) (link : LinkSensing) : Option LinkSensing :=
  let link := noteStatus ctx status vtime link
  let link :=
    if link.linkTimer.all (· < link.asymTime) then
      olsrSetLinkTimer ctx (olsrGetTimeDue ctx.nowTimes link.asymTime) link
    else
      link
  if ctx.useHysteresis then
    olsrProcessHysteresis ctx link
  else
    some link

end OneLink

/-! ## The neighbour of a link -/

variable [DecidableEq Addr]

/-- The index of the link that `lookup_link_entry` returns. -/
def findLinkIndex (remote : Addr) (localIf : Interface Addr) (links : List (LinkEntry Addr)) :
    Option Nat :=
  links.findIdx? (isLinkEntry remote localIf)

/-- The addresses that `get_neighbor_status` looks links up under. -/
def neighborAddresses (mids : MidSet Addr) (address : Addr) : List Addr :=
  let mainAddr := (midLookupMainAddr mids address).getD address
  mainAddr :: (midLookupAliases mids mainAddr).map MidAddress.aliasAddr

def getNeighborStatus (ctx : SensingContext Addr) (st : SensedTables Addr Bucket)
    (address : Addr) : LinkType :=
  if ctx.ifnet.any fun ifs =>
      (neighborAddresses st.tables.mids address).any fun adr =>
        (findLinkIndex adr ifs st.tables.linkSet).any fun index =>
          lookupLinkStatus ctx (st.sensing index) = .sym then
    .sym
  else
    .unspec

variable [DecidableEq Bucket] (hash : Addr → Bucket) (ctx : SensingContext Addr)

/-- `update_neighbor_status` with what `get_neighbor_status` finds. -/
def updateStatusOf (index : Nat) (address : Addr) (st : SensedTables Addr Bucket) :
    Option (SensedTables Addr Bucket) := do
  let link ← st.tables.linkSet[index]?
  let tables ← updateNeighborStatus hash link.neighbor (getNeighborStatus ctx st address) st.tables
  some { st with tables := tables }

def updateLinkEntry (remote : Addr) (msg : HelloMessage Addr) (inIf : Interface Addr)
    (st : SensedTables Addr Bucket) :
    Option (SensedTables Addr Bucket × Nat) := do
  let vtime := meToReltime msg.vtime
  let known := findLinkIndex remote inIf st.tables.linkSet
  let index := known.getD st.tables.linkSet.length
  let tables ← addLinkEntry hash remote msg.sourceAddr inIf st.tables
  let link ←
    senseLink ctx (checkLinkStatus inIf.ipAddr msg) vtime
      (known.elim (newSensing ctx vtime) st.sensing)
  let st ← updateStatusOf hash ctx index remote ⟨tables, update st.sensing index link⟩
  some (st, index)

/-- `olsr_expire_link_sym_timer` of the link at an index. -/
def olsrExpireLinkSymTimer (index : Nat) (st : SensedTables Addr Bucket) :
    Option (SensedTables Addr Bucket) := do
  let entry ← st.tables.linkSet[index]?
  let link := { st.sensing index with linkSymTimer := none }
  if link.prevStatus ≠ .sym then
    some { st with sensing := update st.sensing index link }
  else
    updateStatusOf hash ctx index entry.neighborIfaceAddr
      { st with
        sensing := update st.sensing index
            { link with prevStatus := lookupLinkStatus ctx link } }

/-- A HELLO on an interface of `ifnet`, or the expiry of a symmetry timer. -/
inductive SensingEvent (Addr : Type) where
  | hello (remote : Addr) (msg : HelloMessage Addr) (inIf : Nat)
  | expireLinkSym (index : Nat)

def sensingStep (st : SensedTables Addr Bucket) :
    SensingEvent Addr → Option (SensedTables Addr Bucket × Nat)
  | .hello remote msg inIf => do
    let inIf ← ctx.ifnet[inIf]?
    updateLinkEntry hash ctx remote msg inIf st
  | .expireLinkSym index => (olsrExpireLinkSymTimer hash ctx index st).map (·, index)

/-! ## Status and lookups -/

variable (st : SensedTables Addr Bucket)

/-- The neighbour that a link leads to is symmetric exactly if one of its links
is. -/
def StatusFollowsLinks (index : Nat) : Prop :=
  ∀ link, st.tables.linkSet[index]? = some link →
    ((st.tables.nbr link.neighbor).map NeighborEntry.status = some .sym ↔
      ∃ other entry, st.tables.linkSet[other]? = some entry ∧ entry.neighbor = link.neighbor ∧
        lookupLinkStatus ctx (st.sensing other) = .sym)

/-- `get_neighbor_status` looks at the link at an index. -/
def LooksAt (tables : Tables Addr Bucket) (address : Addr) (index : Nat) : Prop :=
  ∃ ifs ∈ ctx.ifnet, ∃ adr ∈ neighborAddresses tables.mids address,
    findLinkIndex adr ifs tables.linkSet = some index

def LeadsTo (tables : Tables Addr Bucket) (neighbor : Ptr) (index : Nat) : Prop :=
  ∃ link, tables.linkSet[index]? = some link ∧ link.neighbor = neighbor

/-- One link aside, there is a symmetric link among those found under the
address exactly if there is one among those that lead to the neighbour. -/
def LookupsAgree (address : Addr) (neighbor : Ptr) (index : Nat) : Prop :=
  (∃ other, other ≠ index ∧ LooksAt ctx st.tables address other ∧
      lookupLinkStatus ctx (st.sensing other) = .sym) ↔
    ∃ other, other ≠ index ∧ LeadsTo st.tables neighbor other ∧
      lookupLinkStatus ctx (st.sensing other) = .sym

/-- After a HELLO with this status the link is symmetric: the sender hears the
node, or at least does not say that it has lost it, and the hysteresis does not
hide the link. -/
def HearsNode (status : LinkType) (link : LinkSensing) : Prop :=
  (status = .sym ∨ status = .asym ∨ status ≠ .lost ∧ link.linkSymTimer.isSome) ∧
    (ctx.useHysteresis → ctx.thrHigh < link.linkQuality ∨
        ¬ link.linkQuality < ctx.thrLow ∧ link.linkPending = false ∧
          olsrIsTimedOut ctx.nowTimes link.lostLinkTime)

def neighborOfLink (remote sourceAddr : Addr) (inIf : Interface Addr)
    (tables : Tables Addr Bucket) : Ptr :=
  match findLinkEntry remote inIf tables with
  | some link => link.neighbor
  | none => (neighborOfNewLink hash sourceAddr tables).2

/-- The addresses lead to the links of the neighbour, as far as it matters.  A
HELLO that makes its link symmetric needs no other.  An expiry after a HELLO
that did not call the link symmetric leaves the status as it is. -/
def FindsLinks : SensingEvent Addr → Prop
  | .hello remote msg inIf =>
    ∀ localIf, ctx.ifnet[inIf]? = some localIf →
      let known := findLinkIndex remote localIf st.tables.linkSet
      HearsNode ctx (checkLinkStatus localIf.ipAddr msg)
          (known.elim (newSensing ctx (meToReltime msg.vtime)) st.sensing) ∨
        LookupsAgree ctx st remote
          (neighborOfLink hash remote msg.sourceAddr localIf st.tables)
          (known.getD st.tables.linkSet.length)
  | .expireLinkSym index =>
    ∀ link, st.tables.linkSet[index]? = some link →
      if (st.sensing index).prevStatus = .sym then
        LookupsAgree ctx st link.neighborIfaceAddr link.neighbor index
      else
        ((st.tables.nbr link.neighbor).map NeighborEntry.status = some .sym ↔
          ∃ other, other ≠ index ∧ LeadsTo st.tables link.neighbor other ∧
            lookupLinkStatus ctx (st.sensing other) = .sym)

end Sensing

section OneLink

variable {Addr : Type} {ctx : SensingContext Addr} {link : LinkSensing}

theorem lookupLinkStatus_eq_sym_iff : lookupLinkStatus ctx link = .sym ↔
      link.linkSymTimer.isSome ∧
        (ctx.useHysteresis →
          olsrIsTimedOut ctx.nowTimes link.lostLinkTime ∧ link.linkPending = false) := by
  unfold lookupLinkStatus
  grind

theorem timerClock_isSome {relTime jitterPct : UInt32} (positive : relTime ≠ 0) :
    (timerClock ctx relTime jitterPct).isSome := by
  rw [timerClock, if_neg positive, isSome_some]

variable {vtime : UInt32}

private theorem noteStatus_fields (ctx : SensingContext Addr) (positive : vtime ≠ 0)
    (status : LinkType) (link : LinkSensing) :
    let noted := noteStatus ctx status vtime link
    noted.asymTime = ctx.nowTimes + vtime ∧ noted.linkPending = link.linkPending ∧
      noted.lostLinkTime = link.lostLinkTime ∧
      noted.linkQuality = link.linkQuality ∧
      (noted.linkSymTimer.isSome ↔ status = .sym ∨ status = .asym ∨
          status ≠ .lost ∧ link.linkSymTimer.isSome) := by
  cases status <;> simp [noteStatus, olsrSetLinkTimer, timerClock_isSome positive]

private theorem olsrProcessHysteresis_spec (timed : link.linkTimer.isSome) :
    ∃ processed, olsrProcessHysteresis ctx link = some processed ∧
      processed.linkSymTimer = link.linkSymTimer ∧
      (olsrIsTimedOut ctx.nowTimes processed.lostLinkTime ∧ processed.linkPending = false ↔
        ctx.thrHigh < link.linkQuality ∨
          ¬ link.linkQuality < ctx.thrLow ∧ link.linkPending = false ∧
            olsrIsTimedOut ctx.nowTimes link.lostLinkTime) := by
  obtain ⟨clock, isClock⟩ := isSome_iff_exists.mp timed
  unfold olsrProcessHysteresis
  split
  next high =>
    refine ⟨_, rfl, rfl, ?_⟩
    simp [high, olsrIsTimedOut_before]
  next notHigh =>
    split
    next low =>
      rw [isClock]
      exact ⟨_, rfl, rfl, by simp [low, notHigh]⟩
    next notLow =>
      refine ⟨link, rfl, rfl, ?_⟩
      rw [and_comm]
      simp [notLow, notHigh]

private theorem extendLinkTimer_fields (atLeast : 1 < vtime) (atMost : vtime < 0x3fffffff)
    (asym : link.asymTime = ctx.nowTimes + vtime) :
    let extended :=
      if link.linkTimer.all (· < link.asymTime) then
        olsrSetLinkTimer ctx (olsrGetTimeDue ctx.nowTimes link.asymTime) link
      else
        link
    extended.linkTimer.isSome ∧ extended.linkSymTimer = link.linkSymTimer ∧
      extended.linkPending = link.linkPending ∧
      extended.lostLinkTime = link.lostLinkTime ∧
      extended.linkQuality = link.linkQuality := by
  intro extended
  simp only [extended]
  split
  · refine ⟨?_, rfl, rfl, rfl, rfl⟩
    rw [asym]
    exact timerClock_isSome (olsrGetTimeDue_ne_zero ctx.nowTimes atLeast atMost)
  next running =>
    refine ⟨?_, rfl, rfl, rfl, rfl⟩
    cases timer : link.linkTimer with
    | none => simp [timer] at running
    | some clock => rfl

/-- `update_link_entry` leaves the link symmetric exactly as `HearsNode`
says. -/
theorem senseLink_spec (ctx : SensingContext Addr) (atLeast : 1 < vtime)
    (atMost : vtime < 0x3fffffff) (status : LinkType) (link : LinkSensing) :
    ∃ sensed, senseLink ctx status vtime link = some sensed ∧
      (lookupLinkStatus ctx sensed = .sym ↔ HearsNode ctx status link) := by
  have positive : vtime ≠ 0 := by
    rintro rfl
    simp at atLeast
  obtain ⟨asym, pending, lost, quality, timer⟩ := noteStatus_fields ctx positive status link
  obtain ⟨running, sameTimer, samePending, sameLost, sameQuality⟩ :=
    extendLinkTimer_fields atLeast atMost asym
  rw [← sameTimer] at timer
  rw [← samePending] at pending
  rw [← sameLost] at lost
  rw [← sameQuality] at quality
  unfold senseLink
  split
  next hysteresis =>
    obtain ⟨processed, done, symTimer, visible⟩ := olsrProcessHysteresis_spec running
    refine ⟨processed, done, ?_⟩
    rw [lookupLinkStatus_eq_sym_iff, symTimer, timer, visible, HearsNode, pending, lost, quality]
  next noHysteresis =>
    refine ⟨_, rfl, ?_⟩
    rw [lookupLinkStatus_eq_sym_iff, timer, HearsNode]
    simp [noHysteresis]

end OneLink

section Lookups

variable [DecidableEq Addr] {ctx : SensingContext Addr}

/-- What is registered under a main address is among its aliases. -/
def AliasesListed (set : MidSet Addr) : Prop :=
  ∀ adr mainAddr, midLookupMainAddr set adr = some mainAddr →
    adr ∈ (midLookupAliases set mainAddr).map MidAddress.aliasAddr

/-- So it is in the sets that a run reaches, which are well kept. -/
theorem aliasesListed_of_wellKept {set : MidSet Addr} (kept : WellKept set) : AliasesListed set :=
  fun _ _ found => kept.mem_midLookupAliases_iff.mpr (kept.midLookupMainAddr_iff.mp found)

private theorem AliasesListed.mem_neighborAddresses {mids : MidSet Addr}
    (listed : AliasesListed mids) (address : Addr) : address ∈ neighborAddresses mids address := by
  rw [neighborAddresses]
  cases registered : midLookupMainAddr mids address with
  | none => exact mem_cons_self
  | some mainAddr => exact mem_cons_of_mem _ (listed address mainAddr registered)

private theorem getNeighborStatus_eq_sym_iff {st : SensedTables Addr Bucket}
    {address : Addr} : getNeighborStatus ctx st address = .sym ↔ ∃ other,
      LooksAt ctx st.tables address other ∧ lookupLinkStatus ctx (st.sensing other) = .sym := by
  rw [getNeighborStatus]
  split
  next found =>
    simp only [List.any_eq_true, Option.any_eq_true, decide_eq_true_eq] at found
    obtain ⟨ifs, active, adr, known, other, isFound, isSym⟩ := found
    exact iff_of_true rfl ⟨other, ⟨ifs, active, adr, known, isFound⟩, isSym⟩
  next missed =>
    refine iff_of_false LinkType.noConfusion ?_
    rintro ⟨other, ⟨ifs, active, adr, known, isFound⟩, isSym⟩
    apply missed
    simp only [List.any_eq_true, Option.any_eq_true, decide_eq_true_eq]
    exact ⟨ifs, active, adr, known, other, isFound, isSym⟩

end Lookups

section Calls

variable {hash : Addr → Bucket} {ctx : SensingContext Addr}
  {tables after : Tables Addr Bucket} {st next : SensedTables Addr Bucket} {index other : Nat}
  {remote sourceAddr : Addr} {inIf : Interface Addr} {neighbor : Ptr}

theorem exists_leadsTo_iff {Holds : Nat → Prop} :
    (∃ other entry, tables.linkSet[other]? = some entry ∧ entry.neighbor = neighbor ∧ Holds other) ↔
      ∃ other, LeadsTo tables neighbor other ∧ Holds other := by
  constructor
  · rintro ⟨other, entry, present, leads, holds⟩
    exact ⟨other, ⟨entry, present, leads⟩, holds⟩
  · rintro ⟨other, ⟨entry, present, leads⟩, holds⟩
    exact ⟨other, entry, present, leads, holds⟩

variable [DecidableEq Addr]

private theorem lookupLinkEntry_links {remoteMain : Option Addr}
    (done : lookupLinkEntry hash remote remoteMain inIf tables = some after) :
    after.linkSet = tables.linkSet ∧ after.mids = tables.mids := by
  unfold lookupLinkEntry at done
  split at done
  · obtain ⟨nbr, -, rest⟩ := bind_eq_some_iff.mp done
    split at rest
    · obtain ⟨entry, -, isAfter⟩ := bind_eq_some_iff.mp rest
      cases isAfter
      exact ⟨rfl, rfl⟩
    · cases rest
      exact ⟨rfl, rfl⟩
  · cases done
    exact ⟨rfl, rfl⟩

private theorem findLinkEntry_eq_none_iff :
    findLinkEntry remote inIf tables = none ↔ findLinkIndex remote inIf tables.linkSet = none := by
  rw [findLinkEntry, findLinkIndex, find?_eq_none, findIdx?_eq_none_iff]
  simp

private theorem findLinkEntry_of_index
    (found : findLinkIndex remote inIf tables.linkSet = some index) :
    ∃ link, tables.linkSet[index]? = some link ∧ findLinkEntry remote inIf tables = some link := by
  rw [findLinkIndex, findIdx?_eq_some_iff_getElem] at found
  obtain ⟨inside, matches_, earlier⟩ := found
  refine ⟨tables.linkSet[index], getElem?_eq_getElem inside, ?_⟩
  rw [findLinkEntry, find?_eq_some_iff_getElem]
  exact ⟨matches_, index, inside, rfl, by simpa using earlier⟩

/-- A link that is queued last is found only where no other is. -/
theorem findLinkIndex_append {adr : Addr} {ifs : Interface Addr} {links : List (LinkEntry Addr)}
    {added : LinkEntry Addr} (ne : other ≠ links.length) :
    findLinkIndex adr ifs (links ++ [added]) = some other ↔
      findLinkIndex adr ifs links = some other := by
  rw [findLinkIndex, findLinkIndex, findIdx?_append, findIdx?_singleton]
  cases List.findIdx? (isLinkEntry adr ifs) links with
  | some found => simp
  | none =>
    split
    · simp [ne.symm]
    · simp

variable [DecidableEq Bucket] {lnk : LinkType}

private theorem updateNeighborStatus_writes
    (done : updateNeighborStatus hash neighbor lnk tables = some after) :
    ∃ via : Tables Addr Bucket, after = via.writeNbr neighbor fun entry =>
          { entry with status := if lnk = .sym then .sym else .notSym } := by
  simp only [updateNeighborStatus, bind_eq_bind, bind_eq_some_iff] at done
  obtain ⟨nbr, -, rest⟩ := done
  split at rest
  next isSym =>
    rw [if_pos isSym]
    split at rest
    · split at rest
      · obtain ⟨via, -, isAfter⟩ := bind_eq_some_iff.mp rest
        exact ⟨via, (some.inj isAfter).symm⟩
      · exact ⟨tables, (some.inj rest).symm⟩
    · exact ⟨tables, (some.inj rest).symm⟩
  next notSym =>
    rw [if_neg notSym]
    exact ⟨tables, (some.inj rest).symm⟩

private theorem status_updateNeighborStatus
    (done : updateNeighborStatus hash neighbor lnk tables = some after) :
    (after.nbr neighbor).map NeighborEntry.status = some .sym ↔ lnk = .sym := by
  obtain ⟨nbr, found, -⟩ := bind_eq_some_iff.mp done
  have core := (deleting_sameNeighbors.updateNeighborStatus done).map_nbr neighbor
  rw [found, map_some] at core
  obtain ⟨via, rfl⟩ := updateNeighborStatus_writes done
  obtain ⟨nbr', found', -⟩ := map_eq_some_iff.mp core
  rw [found', map_some, some_inj]
  rw [nbr_writeNbr, if_pos rfl] at found'
  · obtain ⟨before, -, rfl⟩ := map_eq_some_iff.mp found'
    by_cases isSym : lnk = .sym <;> simp [isSym]
  · exact fun _ => rfl

variable {link : LinkEntry Addr} {address : Addr}

/-- Once the status is updated, it is a matter of what the lookups find. -/
theorem statusFollowsLinks_updateStatusOf
    (done : updateStatusOf hash ctx index address st = some next)
    (present : st.tables.linkSet[index]? = some link) :
    StatusFollowsLinks ctx next index ↔
      ((∃ other, LooksAt ctx st.tables address other ∧
          lookupLinkStatus ctx (st.sensing other) = .sym) ↔
        ∃ other, LeadsTo st.tables link.neighbor other ∧
          lookupLinkStatus ctx (st.sensing other) = .sym) := by
  simp only [updateStatusOf, present, bind_eq_bind, bind_some] at done
  obtain ⟨after, updated, isNext⟩ := bind_eq_some_iff.mp done
  cases isNext
  have sameLinks := (deleting_sameNeighbors.updateNeighborStatus updated).linkSet
  have status := status_updateNeighborStatus updated
  rw [getNeighborStatus_eq_sym_iff] at status
  simp only [StatusFollowsLinks, sameLinks, present, some.injEq, forall_eq']
  rw [status, exists_leadsTo_iff]

private theorem neighborOfNewLink_links (hash : Addr → Bucket) (mainAddr : Addr)
    (tables : Tables Addr Bucket) : (neighborOfNewLink hash mainAddr tables).1.linkSet =
      tables.linkSet ∧ (neighborOfNewLink hash mainAddr tables).1.mids = tables.mids := by
  rw [neighborOfNewLink]
  split
  · exact ⟨rfl, rfl⟩
  · rw [olsrInsertNeighborTable]
    split
    · exact ⟨rfl, rfl⟩
    · exact ⟨rfl, rfl⟩

/-- What `add_link_entry` does to the links: the one at the index is the link
of the HELLO, the others are as they were. -/
structure AddsLink (remote : Addr) (inIf : Interface Addr) (neighbor : Ptr) (index : Nat)
    (tables after : Tables Addr Bucket) : Prop where
  mids : after.mids = tables.mids
  leads : LeadsTo after neighbor index
  found : findLinkIndex remote inIf after.linkSet = some index
  looks : ∀ {other}, other ≠ index → ∀ adr ifs,
      (findLinkIndex adr ifs after.linkSet = some other ↔
        findLinkIndex adr ifs tables.linkSet = some other)
  links : ∀ {other}, other ≠ index → after.linkSet[other]? = tables.linkSet[other]?

private theorem isLinkEntry_self
    {Addr : Type} [DecidableEq Addr] (remote : Addr) (inIf : Interface Addr) (neighbor : Ptr) :
    isLinkEntry remote inIf ⟨inIf.intName, inIf.ipAddr, remote, neighbor⟩ = true := by
  cases name : inIf.intName <;> simp [isLinkEntry, name]

theorem addsLink_of_addLinkEntry
    (done : addLinkEntry hash remote sourceAddr inIf tables = some after) :
    AddsLink remote inIf (neighborOfLink hash remote sourceAddr inIf tables)
      ((findLinkIndex remote inIf tables.linkSet).getD tables.linkSet.length)
      tables after := by
  cases known : findLinkIndex remote inIf tables.linkSet with
  | some index =>
    obtain ⟨link, present, isFound⟩ := findLinkEntry_of_index known
    rw [addLinkEntry, isFound] at done
    obtain ⟨sameLinks, sameMids⟩ := lookupLinkEntry_links done
    rw [neighborOfLink, isFound, getD_some]
    constructor
    case mids => exact sameMids
    case leads => exact ⟨link, sameLinks ▸ present, rfl⟩
    case found => exact sameLinks ▸ known
    case looks => exact fun _ adr ifs => by rw [sameLinks]
    case links => exact fun _ => by rw [sameLinks]
  | none =>
    have missed := findLinkEntry_eq_none_iff.mpr known
    obtain ⟨sameLinks, sameMids⟩ := neighborOfNewLink_links hash sourceAddr tables
    rw [addLinkEntry, missed] at done
    cases done
    rw [neighborOfLink, missed, getD_none]
    let added : LinkEntry Addr :=
      ⟨inIf.intName, inIf.ipAddr, remote, (neighborOfNewLink hash sourceAddr tables).2⟩
    have links :
        (queueLinkEntry remote inIf (neighborOfNewLink hash sourceAddr tables).2
            (neighborOfNewLink hash sourceAddr tables).1).linkSet =
          tables.linkSet ++ [added] := by
      rw [queueLinkEntry, sameLinks]
    constructor
    case mids => exact sameMids
    case leads => exact ⟨added, by rw [links]; simp, rfl⟩
    case found =>
      rw [links, findLinkIndex, findIdx?_append,
        ← findLinkIndex, known, none_or, findIdx?_singleton, isLinkEntry_self]
      simp
    case looks =>
      intro other ne adr ifs
      rw [links]
      exact findLinkIndex_append ne
    case links =>
      intro other ne
      rw [links, getElem?_append]
      split
      · rfl
      next outside => rw [getElem?_eq_none (by simp; omega), getElem?_eq_none (by omega)]

theorem exists_found_iff {Found Before Sym Was : Nat → Prop}
    (index : Nat) (found : ∀ other, other ≠ index → (Found other ↔ Before other))
    (sym : ∀ other, other ≠ index → (Sym other ↔ Was other)) : (∃ other, Found other ∧ Sym other) ↔
      Found index ∧ Sym index ∨ ∃ other, other ≠ index ∧ Before other ∧ Was other := by
  constructor
  · rintro ⟨other, isFound, isSym⟩
    by_cases same : other = index
    · exact Or.inl (same ▸ ⟨isFound, isSym⟩)
    · exact Or.inr ⟨other, same, (found other same).mp isFound, (sym other same).mp isSym⟩
  · rintro (both | ⟨other, ne, wasFound, wasSym⟩)
    · exact ⟨index, both⟩
    · exact ⟨other, (found other ne).mpr wasFound, (sym other ne).mpr wasSym⟩

theorem exists_other_iff {Found Sym Was : Nat → Prop} (index : Nat) (notSym : ¬ Sym index)
    (sym : ∀ other, other ≠ index → (Sym other ↔ Was other)) :
    (∃ other, Found other ∧ Sym other) ↔ ∃ other, other ≠ index ∧ Found other ∧ Was other := by
  rw [exists_found_iff index (fun _ _ => Iff.rfl) sym]
  simp only [notSym, and_false, false_or]

omit [DecidableEq Bucket] in
private theorem AddsLink.looksAt_iff (adds : AddsLink remote inIf neighbor index tables after)
    (ne : other ≠ index) : LooksAt ctx after address other ↔ LooksAt ctx tables address other := by
  simp only [LooksAt, adds.mids, adds.looks ne]

omit [DecidableEq Bucket] in
private theorem AddsLink.leadsTo_iff {reached : Ptr}
    (adds : AddsLink remote inIf neighbor index tables after) (ne : other ≠ index) :
    LeadsTo after reached other ↔ LeadsTo tables reached other := by
  rw [LeadsTo, LeadsTo, adds.links ne]

omit [DecidableEq Bucket] in
private theorem AddsLink.looksAt (adds : AddsLink remote inIf neighbor index tables after)
    (listed : AliasesListed tables.mids) (active : inIf ∈ ctx.ifnet) :
    LooksAt ctx after remote index := by
  refine ⟨inIf, active, remote, ?_, adds.found⟩
  rw [adds.mids]
  exact listed.mem_neighborAddresses remote

private theorem AddsLink.followsLinks_iff {sensed : LinkSensing}
    (adds : AddsLink remote inIf neighbor index st.tables after)
    (listed : AliasesListed st.tables.mids) (active : inIf ∈ ctx.ifnet)
    (done : updateStatusOf hash ctx index remote
          ⟨after, update st.sensing index sensed⟩ =
        some next) :
    StatusFollowsLinks ctx next index ↔ lookupLinkStatus ctx sensed = .sym ∨
        LookupsAgree ctx st remote neighbor index := by
  obtain ⟨entry, present, leads⟩ := adds.leads
  have sameSensing : ∀ other, other ≠ index →
        (lookupLinkStatus ctx (update st.sensing index sensed other) = .sym ↔
          lookupLinkStatus ctx (st.sensing other) = .sym) := by
    intro other ne
    rw [update_of_ne ne]
  rw [statusFollowsLinks_updateStatusOf done present, leads,
    exists_found_iff index (fun _ => adds.looksAt_iff) sameSensing,
    exists_found_iff index (fun _ => adds.leadsTo_iff) sameSensing,
    update_self, LookupsAgree]
  simp only [adds.looksAt listed active, adds.leads, true_and]
  by_cases isSym : lookupLinkStatus ctx sensed = .sym
  · simp only [isSym, true_or]
  · simp only [isSym, false_or]

private theorem statusFollowsLinks_updateLinkEntry {msg : HelloMessage Addr}
    (listed : AliasesListed st.tables.mids) (active : inIf ∈ ctx.ifnet)
    (done : updateLinkEntry hash ctx remote msg inIf st = some (next, index)) :
    StatusFollowsLinks ctx next index ↔ HearsNode ctx (checkLinkStatus inIf.ipAddr msg)
          ((findLinkIndex remote inIf st.tables.linkSet).elim
            (newSensing ctx (meToReltime msg.vtime))
            st.sensing) ∨
        LookupsAgree ctx st remote
          (neighborOfLink hash remote msg.sourceAddr inIf st.tables)
          ((findLinkIndex remote inIf st.tables.linkSet).getD st.tables.linkSet.length) := by
  simp only [updateLinkEntry, bind_eq_bind, bind_eq_some_iff] at done
  obtain ⟨after, added, sensed, isSensed, updated, isUpdated, isResult⟩ := done
  cases isResult
  obtain ⟨atLeast, atMost⟩ := meToReltime_bounds msg.vtime
  obtain ⟨again, isAgain, hears⟩ := senseLink_spec ctx atLeast atMost
      (checkLinkStatus inIf.ipAddr msg)
      ((findLinkIndex remote inIf st.tables.linkSet).elim
        (newSensing ctx (meToReltime msg.vtime)) st.sensing)
  rw [isSensed] at isAgain
  cases isAgain
  rw [(addsLink_of_addLinkEntry added).followsLinks_iff listed active isUpdated, hears]

private theorem statusFollowsLinks_expireLinkSym (present : st.tables.linkSet[index]? = some link)
    (done : olsrExpireLinkSymTimer hash ctx index st = some next) :
    StatusFollowsLinks ctx next index ↔
      if (st.sensing index).prevStatus = .sym then
        LookupsAgree ctx st link.neighborIfaceAddr link.neighbor index
      else
        ((st.tables.nbr link.neighbor).map NeighborEntry.status = some .sym ↔
          ∃ other, other ≠ index ∧ LeadsTo st.tables link.neighbor other ∧
            lookupLinkStatus ctx (st.sensing other) = .sym) := by
  simp only [olsrExpireLinkSymTimer, present, bind_eq_bind, bind_some] at done
  have sameSensing : ∀ (sensed : LinkSensing) other, other ≠ index →
        (lookupLinkStatus ctx (update st.sensing index sensed other) = .sym ↔
          lookupLinkStatus ctx (st.sensing other) = .sym) := by
    intro sensed other ne
    rw [update_of_ne ne]
  have expired : ∀ sensed : LinkSensing, sensed.linkSymTimer = none →
        ¬ lookupLinkStatus ctx (update st.sensing index sensed index) = .sym := by
    intro sensed stopped
    rw [update_self, lookupLinkStatus_eq_sym_iff, stopped]
    exact fun running => nomatch running.1
  split at done
  next notSym =>
    cases done
    rw [if_neg notSym]
    simp only [StatusFollowsLinks, present, some.injEq, forall_eq', exists_leadsTo_iff]
    let sensed : LinkSensing := { st.sensing index with linkSymTimer := none }
    rw [exists_other_iff index (expired sensed rfl) (sameSensing sensed)]
  next isSym =>
    let sensed : LinkSensing :=
      { st.sensing index with
        linkSymTimer := none
        prevStatus := lookupLinkStatus ctx
            { st.sensing index with linkSymTimer := none } }
    have wasSym : (st.sensing index).prevStatus = .sym := not_not.mp isSym
    rw [if_pos wasSym, statusFollowsLinks_updateStatusOf done present,
      exists_other_iff index (expired sensed rfl) (sameSensing sensed),
      exists_other_iff index (expired sensed rfl) (sameSensing sensed),
      LookupsAgree]

/-- The interface is one of `ifnet`, the link one of the list. -/
def IsPossible (ctx : SensingContext Addr) (st : SensedTables Addr Bucket) :
    SensingEvent Addr → Prop
  | .hello _ _ inIf => inIf < ctx.ifnet.length
  | .expireLinkSym index => index < st.tables.linkSet.length

theorem exists_updateStatusOf (settled : Settled hash tables)
    (present : tables.linkSet[index]? = some link) (address : Addr) (sensing : Nat → LinkSensing) :
    ∃ next, updateStatusOf hash ctx index address ⟨tables, sensing⟩ = some next := by
  obtain ⟨nbr, found⟩ := settled.attached link (mem_of_getElem? present)
  obtain ⟨after, updated, -⟩ : ∃ after, updateNeighborStatus hash link.neighbor
            (getNeighborStatus ctx ⟨tables, sensing⟩ address) tables =
          some after ∧ _ :=
    updateNeighborStatus_crossLinked settled.toCrossLinked found
  simp only [updateStatusOf, present, bind_eq_bind, bind_some]
  exact ⟨_, bind_eq_some_iff.mpr ⟨after, updated, rfl⟩⟩

private theorem exists_updateLinkEntry
    (settled : Settled hash st.tables) (msg : HelloMessage Addr) :
    ∃ next index, updateLinkEntry hash ctx remote msg inIf st = some (next, index) := by
  obtain ⟨after, added, afterSettled⟩ := settled_addLinkEntry settled remote msg.sourceAddr inIf
  obtain ⟨atLeast, atMost⟩ := meToReltime_bounds msg.vtime
  obtain ⟨sensed, isSensed, -⟩ := senseLink_spec ctx atLeast atMost
      (checkLinkStatus inIf.ipAddr msg)
      ((findLinkIndex remote inIf st.tables.linkSet).elim
        (newSensing ctx (meToReltime msg.vtime)) st.sensing)
  obtain ⟨entry, present, -⟩ := (addsLink_of_addLinkEntry added).leads
  simp only [updateLinkEntry, added, isSensed, bind_eq_bind, bind_some]
  rcases exists_updateStatusOf afterSettled present remote _ with ⟨next, updated⟩
  exact ⟨next, _, bind_eq_some_iff.mpr ⟨next, updated, rfl⟩⟩

private theorem exists_expireLinkSym (settled : Settled hash st.tables)
    (present : st.tables.linkSet[index]? = some link) :
    ∃ next, olsrExpireLinkSymTimer hash ctx index st = some next := by
  simp only [olsrExpireLinkSymTimer, present, bind_eq_bind, bind_some]
  split
  · exact ⟨_, rfl⟩
  · exact exists_updateStatusOf settled present _ _

/-- Where no pointer dangles, every event is carried out. -/
theorem exists_sensingStep (event : SensingEvent Addr) (settled : Settled hash st.tables)
    (possible : IsPossible ctx st event) :
    ∃ next index, sensingStep hash ctx st event = some (next, index) := by
  cases event with
  | hello remote msg inIf =>
    rw [sensingStep, getElem?_eq_getElem possible]
    exact exists_updateLinkEntry settled msg
  | expireLinkSym index =>
    obtain ⟨next, expired⟩ := exists_expireLinkSym settled (getElem?_eq_getElem possible)
    exact ⟨next, index, by rw [sensingStep, expired, map_some]⟩

/-- After a HELLO and after the expiry of a symmetry timer the status of the
neighbour follows its links exactly if the lookups by address find them. -/
theorem statusFollowsLinks_iff (hash : Addr → Bucket) (ctx : SensingContext Addr)
    (st : SensedTables Addr Bucket) (event : SensingEvent Addr)
    (listed : AliasesListed st.tables.mids) :
    (Settled hash st.tables → IsPossible ctx st event →
        ∃ next index, sensingStep hash ctx st event = some (next, index)) ∧
      ∀ next index, sensingStep hash ctx st event = some (next, index) →
          (StatusFollowsLinks ctx next index ↔ FindsLinks hash ctx st event) := by
  refine ⟨fun settled => exists_sensingStep event settled, ?_⟩
  intro next index done
  cases event with
  | hello remote msg inIf =>
    obtain ⟨localIf, active, updated⟩ := bind_eq_some_iff.mp done
    simp only [FindsLinks, active, some.injEq, forall_eq']
    exact statusFollowsLinks_updateLinkEntry listed (mem_of_getElem? active) updated
  | expireLinkSym expiring =>
    obtain ⟨after, expired, isNext⟩ := map_eq_some_iff.mp done
    cases isNext
    obtain ⟨link, present, -⟩ := bind_eq_some_iff.mp expired
    simp only [FindsLinks, present, some.injEq, forall_eq']
    exact statusFollowsLinks_expireLinkSym present expired

end Calls

def twoInterfaces (nowTimes : UInt32) : SensingContext (IpAddr .inet) :=
  ⟨nowTimes, false, 0, 0, 0, [wlan, ⟨some "wlan1", hostAddr 9⟩]⟩

def helloOf (neighbors : List (HelloNeighbor (IpAddr .inet))) : HelloMessage (IpAddr .inet) :=
  ⟨0, 0, hostAddr 2, 0, 0, 1, 3, 0, 0, neighbors⟩

def noLinks : SensedTables (IpAddr .inet) UInt32 :=
  ⟨Tables.init (IpAddr .inet) UInt32, fun _ => newSensing (twoInterfaces 0) 0⟩

/-- The node 10.0.0.2 has declared its second interface 10.0.0.3. -/
def aliasDeclared : SensedTables (IpAddr .inet) UInt32 :=
  { noLinks with
    tables.mids := queueMidTuple (MidSet.init (IpAddr .inet)) (hostAddr 2) (hostAddr 3) }

/-- A HELLO from 10.0.0.2 makes its link symmetric.  One from 10.0.0.3 that does
not list 10.0.0.9 adds a link that is not, and the neighbour stays symmetric by
the first link, which is found under the main address of 10.0.0.3. -/
theorem statusFollowsLinks_iff_two_links : ∃ before next,
      sensingStep olsrIpHashing (twoInterfaces 0) aliasDeclared
          (.hello (hostAddr 2) (helloOf [⟨.symNeigh, .sym, hostAddr 1, []⟩]) 0) =
        some (before, 0) ∧
      sensingStep olsrIpHashing (twoInterfaces 0) before (.hello (hostAddr 3) (helloOf []) 1) =
        some (next, 1) ∧
      StatusFollowsLinks (twoInterfaces 0) next 1 := by
  have computed :
      ((sensingStep olsrIpHashing (twoInterfaces 0) aliasDeclared
          (.hello (hostAddr 2) (helloOf [⟨.symNeigh, .sym, hostAddr 1, []⟩]) 0)).bind
        fun before =>
          (sensingStep olsrIpHashing (twoInterfaces 0) before.1
            (.hello (hostAddr 3) (helloOf []) 1)).map fun next =>
              ((before.2, next.2), decide (before.1.tables.mids = aliasDeclared.tables.mids ∧
                lookupLinkStatus (twoInterfaces 0) (before.1.sensing 0) = .sym ∧
                findLinkIndex (hostAddr 2) wlan before.1.tables.linkSet = some 0 ∧
                findLinkIndex (hostAddr 3) ⟨some "wlan1", hostAddr 9⟩ before.1.tables.linkSet =
                  none ∧
                before.1.tables.linkSet.map LinkEntry.neighbor = [0] ∧
                neighborOfLink olsrIpHashing (hostAddr 3) (hostAddr 2)
                  ⟨some "wlan1", hostAddr 9⟩ before.1.tables = 0))) =
        some ((0, 1), true) := by
    decide +kernel
  obtain ⟨⟨before, first⟩, isFirst, rest⟩ := bind_eq_some_iff.mp computed
  obtain ⟨⟨next, second⟩, isSecond, facts⟩ := map_eq_some_iff.mp rest
  simp only [Prod.mk.injEq, decide_eq_true_eq] at facts
  obtain ⟨⟨rfl, rfl⟩, mids, isSym, found, unknown, leads, neighbor⟩ := facts
  have listed : AliasesListed before.tables.mids := by
    rw [mids]
    exact aliasesListed_of_wellKept (WellKept.init.queue (hostAddr 2) rfl)
  refine ⟨before, next, isFirst, isSecond, ?_⟩
  rw [(statusFollowsLinks_iff olsrIpHashing (twoInterfaces 0) before _ listed).2 next 1 isSecond]
  rintro localIf ⟨⟩
  obtain ⟨link, links, leadsTo⟩ := map_eq_singleton_iff.mp leads
  right
  rw [unknown, links]
  change LookupsAgree _ _ _ (neighborOfLink _ _ (hostAddr 2) _ _) _
  rw [neighbor]
  have looks : LooksAt (twoInterfaces 0) before.tables (hostAddr 3) 0 :=
    ⟨wlan, mem_cons_self, hostAddr 2, by rw [mids]; decide +kernel, found⟩
  have leads : LeadsTo before.tables 0 0 := ⟨link, by rw [links]; rfl, leadsTo⟩
  exact iff_of_true ⟨0, Nat.zero_ne_one, looks, isSym⟩ ⟨0, Nat.zero_ne_one, leads, isSym⟩

/-- What a state says about its first neighbour: where the links lead, its
status, and the status of the first link. -/
def firstNeighbor (ctx : SensingContext (IpAddr .inet)) (st : SensedTables (IpAddr .inet) UInt32) :
    List Ptr × Option NeighStatus × LinkType :=
  (st.tables.linkSet.map LinkEntry.neighbor, (st.tables.nbr 0).map NeighborEntry.status,
    lookupLinkStatus ctx (st.sensing 0))

/-- The first neighbour of 10.0.0.1 is the node 10.0.0.2, which has a second
interface 10.0.0.3.  A HELLO from 10.0.0.2 makes the neighbour symmetric; the
first HELLO from 10.0.0.3, which does not list 10.0.0.9 yet, takes that back
although the first link is symmetric.  And a neighbour whose HELLO called the
link asymmetric stays symmetric when the timer of its only link expires. -/
theorem updateLinkEntry_loses_links :
    (∃ before next, sensingStep olsrIpHashing (twoInterfaces 0) noLinks
          (.hello (hostAddr 2) (helloOf [⟨.symNeigh, .sym, hostAddr 1, []⟩]) 0) =
        some (before, 0) ∧
      sensingStep olsrIpHashing (twoInterfaces 0) before (.hello (hostAddr 3) (helloOf []) 1) =
        some (next, 1) ∧
      ¬ StatusFollowsLinks (twoInterfaces 0) next 1) ∧
    ∃ before next, sensingStep olsrIpHashing (twoInterfaces 0) noLinks
          (.hello (hostAddr 2) (helloOf [⟨.symNeigh, .asym, hostAddr 1, []⟩]) 0) =
        some (before, 0) ∧
      sensingStep olsrIpHashing (twoInterfaces 62) before (.expireLinkSym 0) = some (next, 0) ∧
      ¬ StatusFollowsLinks (twoInterfaces 62) next 0 := by
  constructor
  · have computed :
        ((sensingStep olsrIpHashing (twoInterfaces 0) noLinks
            (.hello (hostAddr 2) (helloOf [⟨.symNeigh, .sym, hostAddr 1, []⟩]) 0)).bind
          fun before =>
            (sensingStep olsrIpHashing (twoInterfaces 0) before.1
              (.hello (hostAddr 3) (helloOf []) 1)).map fun next =>
                ((before.2, next.2), firstNeighbor (twoInterfaces 0) next.1)) =
          some ((0, 1), [0, 0], some .notSym, .sym) := by
      decide +kernel
    obtain ⟨⟨before, first⟩, isFirst, rest⟩ := bind_eq_some_iff.mp computed
    obtain ⟨⟨next, second⟩, isSecond, facts⟩ := map_eq_some_iff.mp rest
    simp only [firstNeighbor, Prod.mk.injEq] at facts
    obtain ⟨⟨rfl, rfl⟩, leads, status, isSym⟩ := facts
    refine ⟨before, next, isFirst, isSecond, fun follows => ?_⟩
    obtain ⟨first, others, links, leadsFirst, isRest⟩ := map_eq_cons_iff.mp leads
    obtain ⟨second, rfl, leadsSecond⟩ := map_eq_singleton_iff.mp isRest
    have follows := follows second (by rw [links]; rfl)
    have becomes :=
      follows.mpr ⟨0, first, by rw [links]; rfl, leadsFirst.trans leadsSecond.symm, isSym⟩
    rw [leadsSecond, status] at becomes
    cases becomes
  · have computed :
        ((sensingStep olsrIpHashing (twoInterfaces 0) noLinks
            (.hello (hostAddr 2) (helloOf [⟨.symNeigh, .asym, hostAddr 1, []⟩]) 0)).bind
          fun before =>
            (sensingStep olsrIpHashing (twoInterfaces 62) before.1
              (.expireLinkSym 0)).map fun next =>
                ((before.2, next.2), firstNeighbor (twoInterfaces 62) next.1)) =
          some ((0, 0), [0], some .sym, .lost) := by
      decide +kernel
    obtain ⟨⟨before, first⟩, isFirst, rest⟩ := bind_eq_some_iff.mp computed
    obtain ⟨⟨next, second⟩, isSecond, facts⟩ := map_eq_some_iff.mp rest
    simp only [firstNeighbor, Prod.mk.injEq] at facts
    obtain ⟨⟨rfl, rfl⟩, leads, status, isLost⟩ := facts
    refine ⟨before, next, isFirst, isSecond, fun follows => ?_⟩
    obtain ⟨link, links, leadsTo⟩ := map_eq_singleton_iff.mp leads
    have follows := follows link (by rw [links]; rfl)
    rw [leadsTo] at follows
    obtain ⟨other, entry, present, -, isSym⟩ := follows.mp status
    have inside : other < 1 := by
      rw [links] at present
      exact (List.getElem?_eq_some_iff.mp present).1
    rw [Nat.lt_one_iff.mp inside, isLost] at isSym
    cases isSym

end QosOlsr.Neighborhood
