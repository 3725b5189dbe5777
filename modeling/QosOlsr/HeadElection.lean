import QosOlsr.ClusterHead

/-!
# How many cluster heads a node has

`olsr_find_head` of `mpr.c` and the runs of both elections.  `olsr_find_head`
takes the mark only from heads that are no longer symmetric, so a node that
still has a head, or is one itself, can get another.
-/

namespace QosOlsr

open Library List Option

universe u

variable {Addr : Type u} {neighbors : List (NeighborEntry Addr)} {env : HeadEnv Addr}
  {isHead : UInt16}

section FindHead

section

variable (entry : NeighborEntry Addr)

def NeighborEntry.SymHead : Prop := entry.isHead ≠ 0 ∧ entry.status = .sym

def NeighborEntry.Disconnected : Prop := entry.isHead ≠ 0 ∧ entry.status = .notSym

instance : Decidable entry.SymHead := instDecidableAnd

instance : Decidable entry.Disconnected := instDecidableAnd

end

/-- `max_qos` and `max_ip` after one more neighbour; there is none before
`head_found` is set, and the first head passes the comparison with 0. -/
def betterHead (best : Option (Nat × Addr)) (entry : NeighborEntry Addr) : Option (Nat × Addr) :=
  match best with
  | none => some (entry.qos, entry.neighborMainAddr)
  | some (maxQos, maxIp) =>
    if maxQos ≤ entry.qos then
      some (entry.qos, entry.neighborMainAddr)
    else
      some (maxQos, maxIp)

def scanExistingHeads : Option (Nat × Addr) → List (NeighborEntry Addr) →
      Option (Nat × Addr) × List (NeighborEntry Addr)
  | best, [] => (best, [])
  | best, entry :: rest =>
    if entry.isHead = 0 ∨ entry.status = .notSym then
      let kept :=
        if entry.isHead ≠ 0 then
          { entry with isMpr := false, myHead := false }
        else
          entry
      let scanned := scanExistingHeads best rest
      (scanned.1, kept :: scanned.2)
    else
      let scanned := scanExistingHeads (betterHead best entry) rest
      (scanned.1, entry :: scanned.2)

variable [DecidableEq Addr]

def olsrFindHead (env : HeadEnv Addr) (isHead : UInt16) (neighbors : List (NeighborEntry Addr)) :
    UInt16 × List (NeighborEntry Addr) :=
  let scanned := scanExistingHeads none neighbors
  match scanned.1 with
  | some best => (isHead, electHead env best.2 scanned.2)
  | none => olsrCalculateHead env isHead scanned.2

/-- `olsr_insert_neighbor_table`: a new entry goes to the front of its
bucket. -/
def olsrInsertNeighborTable (hash : Addr → Nat) (mainAddr : Addr)
    (neighbors : List (NeighborEntry Addr)) : List (NeighborEntry Addr) :=
  if neighbors.any fun entry => entry.neighborMainAddr = mainAddr then
    neighbors
  else
    let before := neighbors.takeWhile fun entry =>
      hash entry.neighborMainAddr < hash mainAddr
    let behind := neighbors.dropWhile fun entry =>
      hash entry.neighborMainAddr < hash mainAddr
    before ++ ⟨mainAddr, .notSym, 0, 0, false, false⟩ :: behind

/-- `olsr_delete_neighbor_table`: a node that loses its head looks for another
one. -/
def olsrDeleteNeighborTable (env : HeadEnv Addr) (isHead : UInt16) (neighborAddr : Addr)
    (neighbors : List (NeighborEntry Addr)) : UInt16 × List (NeighborEntry Addr) :=
  let isEntry (entry : NeighborEntry Addr) : Bool := entry.neighborMainAddr = neighborAddr
  match neighbors.find? isEntry with
  | none => (isHead, neighbors)
  | some entry =>
    if entry.myHead then
      olsrFindHead env isHead (neighbors.eraseP isEntry)
    else
      (isHead, neighbors.eraseP isEntry)

end FindHead

/-- `update_neighbor_status`, as far as it changes the entry. -/
def updateNeighborStatus {Addr : Type u} (link : LinkType) (entry : NeighborEntry Addr) :
    NeighborEntry Addr :=
  { entry with status := if link = .sym then .sym else .notSym }

@[simp]
private theorem updateNeighborStatus_myHead (link : LinkType) (entry : NeighborEntry Addr) :
    (updateNeighborStatus link entry).myHead = entry.myHead :=
  rfl

section HeadCount

def headCount (neighbors : List (NeighborEntry Addr)) : Nat := neighbors.countP NeighborEntry.myHead

theorem headCount_eq_zero_iff :
    headCount neighbors = 0 ↔ ∀ entry ∈ neighbors, entry.myHead = false := by
  simp [headCount, countP_eq_zero]

variable {write : NeighborEntry Addr → NeighborEntry Addr}

theorem headCount_modify (kept : ∀ entry, (write entry).myHead = entry.myHead)
    (neighbors : List (NeighborEntry Addr)) (position : Nat) :
    headCount (neighbors.modify position write) = headCount neighbors := by
  induction neighbors generalizing position with
  | nil => simp
  | cons entry rest ih =>
    cases position with
    | zero => simp [headCount, countP_cons, kept]
    | succ before =>
      have := ih before
      simp only [headCount, modify_succ_cons, countP_cons] at this ⊢
      rw [this]

variable [DecidableEq Addr]

private theorem updateNeighborEntry_of_absent {key : Addr}
    (absent : ∀ entry ∈ neighbors, entry.neighborMainAddr ≠ key) :
    updateNeighborEntry key write neighbors = neighbors := by
  induction neighbors with
  | nil => rfl
  | cons entry rest ih =>
    rw [updateNeighborEntry, if_neg (absent entry mem_cons_self),
      ih fun other mem => absent other (mem_cons_of_mem _ mem)]

theorem headCount_electHead_le (env : HeadEnv Addr) (addr : Addr)
    (neighbors : List (NeighborEntry Addr)) :
    headCount (electHead env addr neighbors) ≤ headCount neighbors + 1 := by
  unfold electHead
  induction neighbors with
  | nil => simp [updateNeighborEntry, headCount]
  | cons entry rest ih =>
    rw [updateNeighborEntry]
    split
    · simp only [headCount, countP_cons]
      split <;> split <;> omega
    · simp only [headCount, countP_cons] at ih ⊢
      omega

private theorem headCount_electHead_of_lookup {addr : Addr} {entry : NeighborEntry Addr}
    (found : olsrLookupNeighborTable env.midLookupMainAddr neighbors addr = some entry)
    (marked : entry.myHead = true) :
    headCount (electHead env addr neighbors) = headCount neighbors := by
  unfold electHead
  unfold olsrLookupNeighborTable at found
  induction neighbors with
  | nil => rfl
  | cons first rest ih =>
    rw [updateNeighborEntry]
    split
    next isKey =>
      rw [find?_cons_of_pos (by simpa using isKey)] at found
      cases found
      simp [headCount, marked]
    next other =>
      rw [find?_cons_of_neg (by simpa using other)] at found
      have := ih found
      simp only [headCount, countP_cons] at this ⊢
      rw [this]

theorem electHead_of_lookup_eq_none {addr : Addr}
    (unknown : olsrLookupNeighborTable env.midLookupMainAddr neighbors addr = none) :
    electHead env addr neighbors = neighbors := by
  unfold olsrLookupNeighborTable at unknown
  rw [find?_eq_none] at unknown
  apply updateNeighborEntry_of_absent
  intro entry mem same
  exact unknown entry mem (by simpa using same)

end HeadCount

section Scans

section

variable (entry : NeighborEntry Addr)

def clearDisconnected : NeighborEntry Addr :=
  if entry.Disconnected then
    { entry with isMpr := false, myHead := false }
  else
    entry

@[simp]
theorem clearDisconnected_neighborMainAddr :
    (clearDisconnected entry).neighborMainAddr = entry.neighborMainAddr := by
  rw [clearDisconnected]
  split <;> rfl

theorem clearDisconnected_myHead :
    (clearDisconnected entry).myHead = true ↔ entry.myHead = true ∧ ¬ entry.Disconnected := by
  rw [clearDisconnected]
  split
  next cleared => simp [cleared]
  next kept => simp [kept]

end

section

variable (best : Option (Nat × Addr))

private theorem scanExistingHeads_eq (neighbors : List (NeighborEntry Addr)) :
    scanExistingHeads best neighbors =
      ((neighbors.filter fun entry => entry.SymHead).foldl betterHead best,
        neighbors.map clearDisconnected) := by
  induction neighbors generalizing best with
  | nil => rfl
  | cons entry rest ih =>
    rw [scanExistingHeads]
    split
    next noHead =>
      have notHead : ¬ entry.SymHead := by
        rintro ⟨head, symmetric⟩
        rcases noHead with zero | lost
        · exact head zero
        · rw [symmetric] at lost
          cases lost
      have cleared :
          (if entry.isHead ≠ 0 then
              { entry with isMpr := false, myHead := false }
            else
              entry) = clearDisconnected entry := by
        rw [clearDisconnected]
        by_cases zero : entry.isHead = 0
        · simp [zero, NeighborEntry.Disconnected]
        · have lost := noHead.resolve_left zero
          simp [zero, lost, NeighborEntry.Disconnected]
      simp only [ih, cleared, map_cons]
      rw [filter_cons_of_neg (by simpa using notHead)]
    next head =>
      have isHead : entry.SymHead := by
        rw [not_or] at head
        refine ⟨head.1, ?_⟩
        cases status : entry.status with
        | sym => rfl
        | notSym => exact absurd status head.2
      have kept : clearDisconnected entry = entry := by
        rw [clearDisconnected, if_neg]
        rintro ⟨-, lost⟩
        rw [isHead.2] at lost
        cases lost
      simp only [ih, map_cons, kept]
      rw [filter_cons_of_pos (by simpa using isHead), foldl_cons]

private theorem betterHead_ne_none (entry : NeighborEntry Addr) : betterHead best entry ≠ none := by
  unfold betterHead
  split
  · exact some_ne_none _
  · split <;> exact some_ne_none _

private theorem foldl_betterHead_eq_none_iff (heads : List (NeighborEntry Addr)) :
    heads.foldl betterHead best = none ↔ best = none ∧ heads = [] := by
  induction heads generalizing best with
  | nil => simp
  | cons entry rest ih =>
    rw [foldl_cons, ih]
    simp [betterHead_ne_none]

end

/-- A head of greater `qos` than all others is the one the scan ends with. -/
theorem foldl_betterHead_of_best {head : NeighborEntry Addr} (heads : List (NeighborEntry Addr))
    (best : Option (Nat × Addr)) (greatest : ∀ other ∈ heads, other ≠ head → other.qos < head.qos)
    (leads : best = some (head.qos, head.neighborMainAddr) ∨
        head ∈ heads ∧ ∀ qos addr, best = some (qos, addr) → qos < head.qos) :
    heads.foldl betterHead best = some (head.qos, head.neighborMainAddr) := by
  induction heads generalizing best with
  | nil => exact leads.resolve_right fun no => not_mem_nil no.1
  | cons entry rest ih =>
    rw [foldl_cons]
    apply ih
    · exact fun other mem => greatest other (mem_cons_of_mem _ mem)
    · by_cases same : entry = head
      · left
        subst same
        rcases leads with rfl | ⟨-, less⟩
        · simp [betterHead]
        · cases best with
          | none => rfl
          | some pair => exact if_pos (less pair.1 pair.2 rfl).le
      · have smaller := greatest entry mem_cons_self same
        rcases leads with rfl | ⟨mem, less⟩
        · left
          exact if_neg (not_le.mpr smaller)
        · right
          have inRest : head ∈ rest := (mem_cons.mp mem).resolve_left fun equal =>
              same equal.symm
          refine ⟨inRest, fun qos addr isBest => ?_⟩
          cases best with
          | none =>
            cases isBest
            exact smaller
          | some pair =>
            have before := less pair.1 pair.2 rfl
            rw [betterHead] at isBest
            split at isBest
            · cases isBest
              exact smaller
            · cases isBest
              exact before

variable [DecidableEq Addr]

theorem olsrLookupNeighborTable_map {write : NeighborEntry Addr → NeighborEntry Addr}
    (kept : ∀ entry, (write entry).neighborMainAddr = entry.neighborMainAddr)
    (midLookupMainAddr : Addr → Option Addr) (neighbors : List (NeighborEntry Addr)) (dst : Addr) :
    olsrLookupNeighborTable midLookupMainAddr (neighbors.map write) dst =
      (olsrLookupNeighborTable midLookupMainAddr neighbors dst).map write := by
  unfold olsrLookupNeighborTable
  rw [find?_map]
  congr 2
  funext entry
  simp [kept]

section

variable (env : HeadEnv Addr)

section

variable (entry : NeighborEntry Addr)

def resetLinked : NeighborEntry Addr :=
  if env.hasBestLink entry.neighborMainAddr then
    { entry with isMpr := false, myHead := false }
  else
    entry

def IsCandidate : Prop := env.hasBestLink entry.neighborMainAddr = true ∧ entry.status = .sym

instance : Decidable (IsCandidate env entry) := instDecidableAnd

end

def headCandidates (neighbors : List (NeighborEntry Addr)) : List (NeighborEntry Addr) :=
  neighbors.filter fun entry => IsCandidate env entry

variable (scan : HeadScan Addr)

def noteCandidate (entry : NeighborEntry Addr) : HeadScan Addr where
  maxQos := max scan.maxQos entry.qos
  maxIp :=
    if scan.maxQos < entry.qos then entry.neighborMainAddr else scan.maxIp
  prevHeadIp :=
    if entry.myHead then entry.neighborMainAddr else scan.prevHeadIp
  maxPrevHeadQos := if entry.myHead then entry.qos else scan.maxPrevHeadQos

theorem scanHeadCandidates_eq
    (neighbors : List (NeighborEntry Addr)) : scanHeadCandidates env scan neighbors =
      ((headCandidates env neighbors).foldl noteCandidate scan,
        neighbors.map (resetLinked env)) := by
  fun_induction scanHeadCandidates env scan neighbors with
  | case1 => rfl
  | case2 scan entry rest linked reset lost final scanned isScanned ih =>
    cases isScanned.symm.trans ih
    simp [headCandidates, IsCandidate, resetLinked, linked, lost, reset]
  | case3 scan entry rest linked reset symmetric withHead withMax final scanned isScanned ih =>
    cases isScanned.symm.trans ih
    have isSym : entry.status = .sym := by
      cases isStatus : entry.status with
      | sym => rfl
      | notSym => exact absurd isStatus symmetric
    have noted : withMax = noteCandidate scan entry := by
      simp only [withMax, withHead, noteCandidate]
      rcases lt_or_ge scan.maxQos entry.qos with greater | le
      · cases entry.myHead <;> simp [greater, greater.le]
      · cases entry.myHead <;> simp [le.not_gt, le]
    simp [headCandidates, IsCandidate, resetLinked, linked, isSym, reset, noted]
  | case4 scan entry rest unlinked final scanned isScanned ih =>
    cases isScanned.symm.trans ih
    simp [headCandidates, IsCandidate, resetLinked, unlinked]

/-- The node leads the scan until a neighbour of greater `qos` is met. -/
def LeadsScan : Prop := env.qos ≤ scan.maxQos ∧ (scan.maxQos = env.qos → scan.maxIp = env.mainAddr)

end

private theorem scanHeadCandidates_leads {scan : HeadScan Addr}
    (leads : LeadsScan env scan) (neighbors : List (NeighborEntry Addr)) :
    LeadsScan env (scanHeadCandidates env scan neighbors).1 := by
  rw [scanHeadCandidates_eq]
  refine foldlRecOn _ _ leads fun scan leads entry _ => ?_
  rw [LeadsScan, noteCandidate]
  dsimp only
  have := leads.1
  split
  next greater => omega
  next le => rwa [max_eq_left (not_lt.mp le)]

/-- Without a marked neighbour the previous head is what the scan started
with. -/
theorem scanHeadCandidates_previous (env : HeadEnv Addr) (scan : HeadScan Addr)
    (unmarked : ∀ entry ∈ neighbors, entry.myHead = false) :
    let final := (scanHeadCandidates env scan neighbors).1
    final.prevHeadIp = scan.prevHeadIp ∧ final.maxPrevHeadQos = scan.maxPrevHeadQos := by
  rw [scanHeadCandidates_eq]
  refine foldlRecOn (motive := fun (final : HeadScan Addr) => final.prevHeadIp = scan.prevHeadIp ∧
    final.maxPrevHeadQos = scan.maxPrevHeadQos) _ _ ⟨rfl, rfl⟩ ?_
  intro middle kept entry mem
  simpa [noteCandidate, unmarked entry (mem_filter.mp mem).1] using kept

end Scans

section Elections

private theorem headCount_clearDisconnected_le (neighbors : List (NeighborEntry Addr)) :
    headCount (neighbors.map clearDisconnected) ≤ headCount neighbors := by
  unfold headCount
  rw [countP_map]
  apply countP_mono_left
  intro entry _ marked
  exact ((clearDisconnected_myHead entry).mp marked).1

variable [DecidableEq Addr]

def SelfElected (isHead : UInt16) : Prop := isHead = 1 ∨ isHead = 3

instance (isHead : UInt16) : Decidable (SelfElected isHead) := instDecidableOr

structure OneHead (isHead : UInt16) (neighbors : List (NeighborEntry Addr)) : Prop where
  value : HeadFlagValue isHead
  count_le : headCount neighbors ≤ 1
  alone : SelfElected isHead → headCount neighbors = 0

section

variable (env : HeadEnv Addr) (neighbors : List (NeighborEntry Addr))

def OwnAddrUnknown : Prop :=
  olsrLookupNeighborTable env.midLookupMainAddr neighbors env.mainAddr = none

/-- `olsr_calculate_head` finds a link to every neighbour that is marked. -/
structure CalculatesCleanly
    : Prop where
  own : OwnAddrUnknown env neighbors
  linked : ∀ entry ∈ neighbors, entry.myHead = true → env.hasBestLink entry.neighborMainAddr = true

/-- A symmetric head of greater `qos` than all others, under its own
address. -/
structure LeadingHead
    (head : NeighborEntry Addr) : Prop where
  symHead : head.SymHead
  greatest : ∀ other ∈ neighbors, other.SymHead → other ≠ head → other.qos < head.qos
  found : olsrLookupNeighborTable env.midLookupMainAddr neighbors head.neighborMainAddr = some head

/-- `olsr_find_head` meets no mark that it would leave beside a new one. -/
def FindsCleanly (isHead : UInt16) (neighbors : List (NeighborEntry Addr)) : Prop :=
  if neighbors.any fun entry => entry.SymHead then
    ¬ SelfElected isHead ∧ ∀ entry ∈ neighbors, entry.myHead = true →
        entry.Disconnected ∨ LeadingHead env neighbors entry
  else
    CalculatesCleanly env (neighbors.map clearDisconnected)

end

omit [DecidableEq Addr] in
private theorem updateOwnElection_selfElected {scan : HeadScan Addr}
    (value : HeadFlagValue isHead) (previous : SelfElected isHead → scan.maxPrevHeadQos = env.qos)
    (elected : SelfElected (updateOwnElection env scan isHead)) : env.qos = scan.maxQos := by
  by_contra behind
  rw [updateOwnElection] at elected
  rcases value with rfl | rfl | rfl | rfl
  · simp [behind, SelfElected] at elected
  · simp [behind, SelfElected, previous (Or.inl rfl)] at elected
  · simp [behind, SelfElected] at elected
  · simp [behind, SelfElected, previous (Or.inr rfl)] at elected

theorem OneHead.olsrCalculateHead_oneHead (oneHead : OneHead isHead neighbors)
    (clean : CalculatesCleanly env neighbors) :
    OneHead (olsrCalculateHead env isHead neighbors).1
      (olsrCalculateHead env isHead neighbors).2 := by
  have value := (olsrCalculateHead_bits env neighbors oneHead.value).1
  generalize isStart : scanStart env isHead = start
  have outcome : olsrCalculateHead env isHead neighbors = concludeHeadElection env isHead
          (scanHeadCandidates env start neighbors).1
          (scanHeadCandidates env start neighbors).2 := by
    rw [← isStart]
    rfl
  have leads : LeadsScan env (scanHeadCandidates env start neighbors).1 := by
    apply scanHeadCandidates_leads
    rw [← isStart]
    exact ⟨le_rfl, fun _ => rfl⟩
  have scanned := congrArg Prod.snd (scanHeadCandidates_eq env start neighbors)
  have previous : SelfElected isHead → (scanHeadCandidates env start neighbors).1.prevHeadIp =
            env.mainAddr ∧
          (scanHeadCandidates env start neighbors).1.maxPrevHeadQos = env.qos := by
    intro elected
    have kept :=
      scanHeadCandidates_previous env start (headCount_eq_zero_iff.mp (oneHead.alone elected))
    rw [← isStart] at kept ⊢
    refine ⟨kept.1, kept.2.trans ?_⟩
    exact if_pos elected
  rw [outcome] at value ⊢
  generalize scanHeadCandidates env start neighbors = result at leads scanned previous value ⊢
  -- the scan takes every mark, and at most one is set behind it
  have unmarked : headCount result.2 = 0 := by
    rw [scanned, headCount_eq_zero_iff]
    intro entry mem
    obtain ⟨before, inNbrs, rfl⟩ := mem_map.mp mem
    rw [resetLinked]
    split
    · rfl
    next unlinked =>
      by_contra marked
      exact unlinked (clean.linked before inNbrs (by simpa using marked))
  have own : olsrLookupNeighborTable env.midLookupMainAddr result.2 env.mainAddr = none := by
    have kept : ∀ entry : NeighborEntry Addr, (resetLinked env entry).neighborMainAddr =
            entry.neighborMainAddr := by
      intro entry
      rw [resetLinked]
      split <;> rfl
    rw [scanned, olsrLookupNeighborTable_map kept,
      show olsrLookupNeighborTable _ _ _ = none from clean.own]
    rfl
  refine ⟨value, ?_, ?_⟩
  · rw [concludeHeadElection]
    split
    · exact unmarked.le.trans (Nat.zero_le 1)
    · dsimp only
      split
      · have counted := headCount_electHead_le env result.1.prevHeadIp result.2
        rw [unmarked] at counted
        exact counted
      · have counted := headCount_electHead_le env result.1.maxIp result.2
        rw [unmarked] at counted
        exact counted
  · rw [concludeHeadElection]
    split
    · exact fun _ => unmarked
    · dsimp only
      split
      · intro elected
        rw [(previous elected).1, electHead_of_lookup_eq_none own]
        exact unmarked
      · intro elected
        have top :=
          updateOwnElection_selfElected oneHead.value (fun before => (previous before).2) elected
        rw [leads.2 top.symm, electHead_of_lookup_eq_none own]
        exact unmarked

theorem OneHead.olsrFindHead_oneHead (oneHead : OneHead isHead neighbors)
    (clean : FindsCleanly env isHead neighbors) :
    OneHead (olsrFindHead env isHead neighbors).1 (olsrFindHead env isHead neighbors).2 := by
  have fewer := headCount_clearDisconnected_le neighbors
  rw [olsrFindHead, scanExistingHeads_eq]
  dsimp only
  rw [FindsCleanly] at clean
  split
  next best isBest =>
    have found : (neighbors.any fun entry => entry.SymHead) = true := by
      by_contra none
      have empty : (neighbors.filter fun entry => entry.SymHead) = [] := by
        rw [filter_eq_nil_iff]
        intro entry mem head
        exact none (any_eq_true.mpr ⟨entry, mem, head⟩)
      rw [empty] at isBest
      cases isBest
    rw [if_pos found] at clean
    obtain ⟨notSelf, marks⟩ := clean
    refine ⟨oneHead.value, ?_, fun elected => absurd elected notSelf⟩
    by_cases unmarked : headCount (neighbors.map clearDisconnected) = 0
    · have := headCount_electHead_le env best.2 (neighbors.map clearDisconnected)
      dsimp only
      omega
    · -- the mark that stays is on the head that is elected again
      rw [headCount_eq_zero_iff] at unmarked
      push Not at unmarked
      obtain ⟨kept, mem, marked⟩ := unmarked
      obtain ⟨head, inNbrs, rfl⟩ := mem_map.mp mem
      obtain ⟨wasMarked, connected⟩ := (clearDisconnected_myHead head).mp (by simpa using marked)
      have leading := (marks head inNbrs wasMarked).resolve_left connected
      have isLeading : best = (head.qos, head.neighborMainAddr) := by
        apply some.inj
        rw [← isBest]
        apply foldl_betterHead_of_best
        · intro other otherMem ne
          rw [mem_filter] at otherMem
          exact leading.greatest other otherMem.1 (by simpa using otherMem.2) ne
        · refine Or.inr ⟨?_, fun _ _ no => nomatch no⟩
          rw [mem_filter]
          exact ⟨inNbrs, by simpa using leading.symHead⟩
      have lookup : olsrLookupNeighborTable env.midLookupMainAddr
              (neighbors.map clearDisconnected) best.2 =
            some (clearDisconnected head) := by
        rw [isLeading, olsrLookupNeighborTable_map clearDisconnected_neighborMainAddr,
          leading.found]
        rfl
      dsimp only
      rw [headCount_electHead_of_lookup lookup (by simpa using marked)]
      exact fewer.trans oneHead.count_le
  next none =>
    have notFound : ¬ (neighbors.any fun entry => entry.SymHead) = true := by
      rw [foldl_betterHead_eq_none_iff] at none
      intro found
      obtain ⟨entry, mem, head⟩ := any_eq_true.mp found
      have inFilter : entry ∈ neighbors.filter fun entry => entry.SymHead :=
        mem_filter.mpr ⟨mem, head⟩
      rw [none.2] at inFilter
      cases inFilter
    rw [if_neg notFound] at clean
    have cleared : OneHead isHead (neighbors.map clearDisconnected) :=
      ⟨oneHead.value, fewer.trans oneHead.count_le, fun elected => by
        have := oneHead.alone elected
        omega⟩
    exact cleared.olsrCalculateHead_oneHead clean

end Elections

structure ElectionState (Addr : Type u) where
  selectors : SelectorState Addr
  neighbors : List (NeighborEntry Addr)
  deriving DecidableEq

/-- What changes the table, the flag or what the elections read.  A neighbour
that the source holds a pointer to is given by its position in the table. -/
inductive ElectionEvent (Addr : Type u) where
  | calculateHead (env : HeadEnv Addr)
  | findHead (env : HeadEnv Addr)
  | updateNeighborStatus (position : Nat) (link : LinkType)
  | hello (msg : HelloMessage Addr) (ifAddr : Addr) (position : Nat)
  | insertNeighbor (mainAddr : Addr)
  | deleteNeighbor (env : HeadEnv Addr) (neighborAddr : Addr)
  | expireMprSel (addr : Addr)
  | expireHeadSel (addr : Addr)

section Runs

private theorem headCount_eraseP {isEntry : NeighborEntry Addr → Bool} {entry : NeighborEntry Addr}
    (found : neighbors.find? isEntry = some entry) :
    headCount neighbors = headCount (neighbors.eraseP isEntry) +
        if entry.myHead then 1 else 0 := by
  induction neighbors with
  | nil => cases found
  | cons first rest ih =>
    cases isFirst : isEntry first with
    | true =>
      rw [find?_cons_of_pos isFirst] at found
      cases found
      rw [eraseP_cons_of_pos isFirst, headCount, headCount, countP_cons]
    | false =>
      have other : ¬ isEntry first = true := by simp [isFirst]
      rw [find?_cons_of_neg other] at found
      have := ih found
      simp only [headCount, countP_cons, eraseP_cons_of_neg other] at this ⊢
      omega

variable [DecidableEq Addr]

/-- The part of `olsr_hello_tap` that takes over the quality of service and
the head flag of the sender. -/
def updateNeighborHello (msg : HelloMessage Addr) (entry : NeighborEntry Addr) :
    NeighborEntry Addr :=
  { entry with qos := msg.qos, isHead := msg.isHead }

omit [DecidableEq Addr] in
@[simp]
private theorem updateNeighborHello_myHead (msg : HelloMessage Addr) (entry : NeighborEntry Addr) :
    (updateNeighborHello msg entry).myHead = entry.myHead :=
  rfl

def ElectionState.conclude (st : ElectionState Addr)
    (outcome : UInt16 × List (NeighborEntry Addr)) : ElectionState Addr where
  selectors := { st.selectors with isHead := outcome.1 }
  neighbors := outcome.2

def electionStep (hash : Addr → Nat) (st : ElectionState Addr) :
    ElectionEvent Addr → Option (ElectionState Addr)
  | .calculateHead env =>
    some (st.conclude (olsrCalculateHead env st.selectors.isHead st.neighbors))
  | .findHead env =>
    some (st.conclude (olsrFindHead env st.selectors.isHead st.neighbors))
  | .updateNeighborStatus position link =>
    some
      { st with
        neighbors := st.neighbors.modify position
            (QosOlsr.updateNeighborStatus link) }
  | .hello msg ifAddr position =>
    some
      { selectors := olsrHelloTapSelectors st.selectors msg ifAddr
        neighbors := st.neighbors.modify position (updateNeighborHello msg) }
  | .insertNeighbor mainAddr =>
    some
      { st with
        neighbors := olsrInsertNeighborTable hash mainAddr st.neighbors }
  | .deleteNeighbor env neighborAddr =>
    some
      (st.conclude
        (olsrDeleteNeighborTable env st.selectors.isHead neighborAddr st.neighbors))
  | .expireMprSel addr =>
    (olsrExpireMprSelEntry st.selectors addr).map fun selectors =>
      { st with selectors := selectors }
  | .expireHeadSel addr =>
    (olsrExpireHeadSelEntry st.selectors addr).map fun selectors =>
      { st with selectors := selectors }

/-- The elections meet no mark that they would leave beside a new one. -/
def ElectsCleanly (st : ElectionState Addr) : ElectionEvent Addr → Prop
  | .calculateHead env => CalculatesCleanly env st.neighbors
  | .findHead env => FindsCleanly env st.selectors.isHead st.neighbors
  | .deleteNeighbor env _ => OwnAddrUnknown env st.neighbors
  | _ => True

def SameElection (before after : UInt16) : Prop :=
  HeadFlagValue after ∧ (SelfElected after ↔ SelfElected before)

instance (before after : UInt16) : Decidable (SameElection before after) := instDecidableAnd

theorem sameElection_refl (value : HeadFlagValue isHead) : SameElection isHead isHead :=
  ⟨value, Iff.rfl⟩

private theorem sameElection_clear (selected : isHead = 2 ∨ isHead = 3) :
    SameElection isHead (isHead - 2) := by
  rcases selected with rfl | rfl <;> decide

private theorem olsrHelloTapSelectors_sameElection {st : SelectorState Addr}
    (value : HeadFlagValue st.isHead) (msg : HelloMessage Addr) (ifAddr : Addr) :
    SameElection st.isHead (olsrHelloTapSelectors st msg ifAddr).isHead := by
  cases head : lookupHeadStatus msg ifAddr with
  | false =>
    rw [(olsrHelloTapSelectors_of_not_head st head).1]
    exact sameElection_refl value
  | true =>
    have isFlag : (olsrHelloTapSelectors st msg ifAddr).isHead =
          if st.isHead < 3 ∧ st.isHead ≠ 2 then
            st.isHead + 2
          else
            st.isHead := by
      unfold olsrHelloTapSelectors
      cases lookupMprStatus msg ifAddr <;>
        simp only [head, if_true, Bool.false_eq_true, if_false,
          olsrUpdateHeadsSet_isHead, olsrUpdateMprsSet_isHead] <;>
        split <;> simp
    rw [isFlag]
    rcases value with isValue | isValue | isValue | isValue <;> rw [isValue] <;> decide

theorem expireSelEntry_sameElection {st next : SelectorState Addr} (value : HeadFlagValue st.isHead)
    {addr : Addr} (expired : olsrExpireMprSelEntry st addr = some next ∨
        olsrExpireHeadSelEntry st addr = some next) : SameElection st.isHead next.isHead := by
  unfold olsrExpireMprSelEntry olsrExpireHeadSelEntry at expired
  rcases expired with expired | expired
  all_goals
    split at expired
    · dsimp only at expired
      split at expired
      next emptied =>
        cases expired
        exact sameElection_clear emptied.1
      · cases expired
        exact sameElection_refl value
    · cases expired

omit [DecidableEq Addr] in
theorem OneHead.of_sameElection {before after : UInt16} {changed : List (NeighborEntry Addr)}
    (oneHead : OneHead before neighbors) (same : SameElection before after)
    (count : headCount changed = headCount neighbors) : OneHead after changed := by
  refine ⟨same.1, ?_, ?_⟩
  · rw [count]
    exact oneHead.count_le
  · intro elected
    rw [count]
    exact oneHead.alone (same.2.mp elected)

private theorem headCount_olsrInsertNeighborTable (hash : Addr → Nat) (mainAddr : Addr)
    (neighbors : List (NeighborEntry Addr)) :
    headCount (olsrInsertNeighborTable hash mainAddr neighbors) = headCount neighbors := by
  rw [olsrInsertNeighborTable]
  split
  · rfl
  · have split := takeWhile_append_dropWhile
        (p := fun entry : NeighborEntry Addr =>
          decide (hash entry.neighborMainAddr < hash mainAddr))
        (l := neighbors)
    have counted := congrArg headCount split
    simp only [headCount, countP_append] at counted ⊢
    rw [countP_cons_of_neg (by simp), counted]

theorem OwnAddrUnknown.sublist {remaining : List (NeighborEntry Addr)}
    (own : OwnAddrUnknown env neighbors) (sublist : remaining.Sublist neighbors) :
    OwnAddrUnknown env remaining := by
  unfold OwnAddrUnknown olsrLookupNeighborTable at own ⊢
  rw [find?_eq_none] at own ⊢
  exact fun entry mem => own entry (sublist.subset mem)

private theorem findsCleanly_of_unmarked (notSelf : ¬ SelfElected isHead)
    (unmarked : headCount neighbors = 0) (own : OwnAddrUnknown env neighbors) :
    FindsCleanly env isHead neighbors := by
  rw [headCount_eq_zero_iff] at unmarked
  rw [FindsCleanly]
  split
  · refine ⟨notSelf, fun entry mem marked => ?_⟩
    rw [unmarked entry mem] at marked
    cases marked
  · refine ⟨?_, ?_⟩
    · rw [OwnAddrUnknown, olsrLookupNeighborTable_map clearDisconnected_neighborMainAddr,
        show olsrLookupNeighborTable _ _ _ = none from own]
      rfl
    · intro entry mem marked
      obtain ⟨before, inNbrs, rfl⟩ := mem_map.mp mem
      have wasMarked := ((clearDisconnected_myHead before).mp marked).1
      rw [unmarked before inNbrs] at wasMarked
      cases wasMarked

private theorem OneHead.olsrDeleteNeighborTable_oneHead (oneHead : OneHead isHead neighbors)
    (own : OwnAddrUnknown env neighbors) (nbrAddr : Addr) :
    OneHead (olsrDeleteNeighborTable env isHead nbrAddr neighbors).1
      (olsrDeleteNeighborTable env isHead nbrAddr neighbors).2 := by
  rw [olsrDeleteNeighborTable]
  split
  · exact oneHead
  next entry found =>
    have counted := headCount_eraseP found
    have atMost := oneHead.count_le
    cases marked : entry.myHead with
    | true =>
      rw [marked, if_pos rfl] at counted
      have unmarked : headCount
            (neighbors.eraseP fun entry => decide (entry.neighborMainAddr = nbrAddr)) = 0 := by
        omega
      have notSelf : ¬ SelfElected isHead := by
        intro elected
        have := oneHead.alone elected
        omega
      have left : OneHead isHead
            (neighbors.eraseP fun entry => decide (entry.neighborMainAddr = nbrAddr)) :=
        ⟨oneHead.value, by omega, fun _ => unmarked⟩
      exact left.olsrFindHead_oneHead
          (findsCleanly_of_unmarked notSelf unmarked (own.sublist eraseP_sublist))
    | false =>
      rw [marked] at counted
      exact oneHead.of_sameElection (sameElection_refl oneHead.value) counted.symm

private theorem electionStep_oneHead {hash : Addr → Nat} {st next : ElectionState Addr}
    {event : ElectionEvent Addr} (oneHead : OneHead st.selectors.isHead st.neighbors)
    (clean : ElectsCleanly st event) (taken : electionStep hash st event = some next) :
    OneHead next.selectors.isHead next.neighbors := by
  have unchanged := sameElection_refl oneHead.value
  cases event with
  | calculateHead env =>
    cases taken
    exact oneHead.olsrCalculateHead_oneHead clean
  | findHead env =>
    cases taken
    exact oneHead.olsrFindHead_oneHead clean
  | updateNeighborStatus position link =>
    cases taken
    exact
      oneHead.of_sameElection unchanged (headCount_modify (updateNeighborStatus_myHead link) _ _)
  | hello msg ifAddr position =>
    cases taken
    exact oneHead.of_sameElection (olsrHelloTapSelectors_sameElection oneHead.value msg ifAddr)
        (headCount_modify (updateNeighborHello_myHead msg) _ _)
  | insertNeighbor mainAddr =>
    cases taken
    exact oneHead.of_sameElection unchanged (headCount_olsrInsertNeighborTable hash mainAddr _)
  | deleteNeighbor env nbrAddr =>
    cases taken
    exact oneHead.olsrDeleteNeighborTable_oneHead clean nbrAddr
  | expireMprSel addr =>
    obtain ⟨selectors, expired, rfl⟩ := map_eq_some_iff.mp taken
    exact oneHead.of_sameElection (expireSelEntry_sameElection oneHead.value (.inl expired)) rfl
  | expireHeadSel addr =>
    obtain ⟨selectors, expired, rfl⟩ := map_eq_some_iff.mp taken
    exact oneHead.of_sameElection (expireSelEntry_sameElection oneHead.value (.inr expired)) rfl

def ElectionState.init (Addr : Type u) : ElectionState Addr := ⟨SelectorState.init Addr, []⟩

private theorem selfElected_of_odd (value : HeadFlagValue isHead)
    (odd : isHead.toNat % 2 = 1) : SelfElected isHead := by
  rcases value with rfl | rfl | rfl | rfl <;> simp [SelfElected] at odd ⊢

/-- In every run in which the elections meet no mark that they would leave
beside a new one, a node has one head at most, itself or a neighbour. -/
theorem oneHead_of_electsCleanly
    (hash : Addr → Nat) (events : List (ElectionEvent Addr)) {final : ElectionState Addr}
    (clean : RunMeets (electionStep hash) ElectsCleanly (ElectionState.init Addr) events)
    (run : runEvents (electionStep hash) (ElectionState.init Addr) events = some final) :
    headCount final.neighbors ≤ 1 ∧
      (final.selectors.isHead.toNat % 2 = 1 → headCount final.neighbors = 0) := by
  have initially :
      OneHead (ElectionState.init Addr).selectors.isHead (ElectionState.init Addr).neighbors :=
    ⟨Or.inl rfl, Nat.zero_le 1, fun _ => rfl⟩
  have invariant : OneHead final.selectors.isHead final.neighbors :=
    runEvents_invariant_of_meets electionStep_oneHead initially clean run
  exact ⟨invariant.count_le, fun odd => invariant.alone (selfElected_of_odd invariant.value odd)⟩

end Runs

def announcingHello (sourceAddr qos isHead : Nat) : HelloMessage Nat where
  vtime := 0
  htime := 0
  sourceAddr := sourceAddr
  packetSeqNumber := 0
  hopCount := 0
  ttl := 1
  willingness := 3
  qos := qos
  isHead := isHead
  neighbors := []

def linkedEnv : HeadEnv Nat where
  qos := 50
  mainAddr := 1
  lqLevel := 2
  linkSet := [⟨2, 1, .sym, 1024, none⟩]
  midLookupMainAddr _ := none

def oneHeadEvents : List (ElectionEvent Nat) :=
  [.insertNeighbor 2, .updateNeighborStatus 0 .sym,
    .hello (announcingHello 2 95 1) 1 0, .calculateHead linkedEnv]

theorem oneHead_of_electsCleanly_elected : ∃ final,
      runEvents (electionStep id) (ElectionState.init Nat) oneHeadEvents = some final ∧
        headCount final.neighbors = 1 ∧ headCount final.neighbors ≤ 1 := by
  have clean : RunMeets (electionStep id) ElectsCleanly (ElectionState.init Nat) oneHeadEvents := by
    refine ⟨trivial, fun _ inserted => ?_⟩
    cases inserted
    refine ⟨trivial, fun _ updated => ?_⟩
    cases updated
    refine ⟨trivial, fun _ announced => ?_⟩
    cases announced
    exact ⟨⟨rfl, by decide⟩, fun _ _ => trivial⟩
  exact ⟨_, rfl, rfl, (oneHead_of_electsCleanly id oneHeadEvents clean rfl).1⟩

/-- The head 2 of the node still is symmetric when the head 4 is lost, and the
head 3 has a greater quality by then. -/
def twoHeadsEvents : List (ElectionEvent Nat) := oneHeadEvents ++
    [.insertNeighbor 3, .updateNeighborStatus 1 .sym, .hello (announcingHello 3 100 1) 1 1,
      .insertNeighbor 4, .updateNeighborStatus 2 .sym,
      .hello (announcingHello 4 10 1) 1 2,
      .updateNeighborStatus 2 .asym, .findHead linkedEnv]

/-- The loss of any head makes a node look for one, though it has one. -/
theorem findHead_second_head : ¬ ∀ (events : List (ElectionEvent Nat)) (final : ElectionState Nat),
        runEvents (electionStep id) (ElectionState.init Nat) events = some final →
          headCount final.neighbors ≤ 1 ∧
            (final.selectors.isHead.toNat % 2 = 1 → headCount final.neighbors = 0) := by
  intro unique
  have two :
      (runEvents (electionStep id) (ElectionState.init Nat)
          twoHeadsEvents).map (fun final => headCount final.neighbors) =
        some 2 := by
    decide
  obtain ⟨final, run, count⟩ := map_eq_some_iff.mp two
  have := (unique twoHeadsEvents final run).1
  omega

end QosOlsr
