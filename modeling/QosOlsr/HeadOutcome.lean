import QosOlsr.HeadElection

/-!
# Who is head after a head calculation

The previous head stays while it has nine tenths of the greatest `qos`;
otherwise the first neighbour with the greatest `qos` is elected, or the node
itself.
-/

namespace QosOlsr

open List Option

universe u

variable {Addr : Type u}

/-- The greatest `qos` and the first candidate that has it. -/
structure FoundMax (scan final : HeadScan Addr) (candidates : List (NeighborEntry Addr)) :
    Prop where
  bounds : ∀ entry ∈ candidates, entry.qos ≤ final.maxQos
  first : (final.maxQos = scan.maxQos ∧ final.maxIp = scan.maxIp) ∨ scan.maxQos < final.maxQos ∧
        ∃ first, (candidates.find? fun entry => entry.qos = final.maxQos) = some first ∧
          final.maxIp = first.neighborMainAddr

private theorem foundMax_foldl (scan : HeadScan Addr) (candidates : List (NeighborEntry Addr)) :
    FoundMax scan (candidates.foldl noteCandidate scan) candidates := by
  induction candidates using List.reverseRecOn with
  | nil => exact ⟨by simp, Or.inl ⟨rfl, rfl⟩⟩
  | append_singleton front last ih =>
    rw [foldl_append, foldl_cons, foldl_nil]
    generalize front.foldl noteCandidate scan = middle at ih
    obtain ⟨bounds, first⟩ := ih
    constructor
    case bounds =>
      intro entry isMem
      rcases mem_append.mp isMem with inFront | isLast
      · exact (bounds entry inFront).trans (le_max_left _ _)
      · rw [mem_singleton.mp isLast]
        exact le_max_right _ _
    case first =>
      unfold noteCandidate
      dsimp only
      by_cases greater : middle.maxQos < last.qos
      · right
        rw [max_eq_right greater.le, if_pos greater]
        have scanLe : scan.maxQos ≤ middle.maxQos := by
          rcases first with ⟨same, -⟩ | ⟨less, -⟩
          · exact same.ge
          · exact less.le
        refine ⟨scanLe.trans_lt greater, last, ?_, rfl⟩
        rw [find?_append, find?_eq_none.mpr]
        · simp
        · intro entry inFront
          have := bounds entry inFront
          simp only [decide_eq_true_eq]
          omega
      · rw [max_eq_left (Nat.le_of_not_lt greater), if_neg greater]
        rcases first with same | ⟨less, found, isFound, maxIp⟩
        · exact Or.inl same
        · refine Or.inr ⟨less, found, ?_, maxIp⟩
          rw [find?_append, isFound]
          rfl

def previousHead (candidates : List (NeighborEntry Addr)) : Option (NeighborEntry Addr) :=
  (candidates.filter fun entry => entry.myHead).getLast?

theorem foldl_noteCandidate_previous
    (scan : HeadScan Addr) (cands : List (NeighborEntry Addr)) :
    let final := cands.foldl noteCandidate scan
    final.prevHeadIp = (previousHead cands).elim scan.prevHeadIp
          NeighborEntry.neighborMainAddr ∧
      final.maxPrevHeadQos = (previousHead cands).elim scan.maxPrevHeadQos NeighborEntry.qos := by
  induction cands using List.reverseRecOn with
  | nil => exact ⟨rfl, rfl⟩
  | append_singleton front last ih =>
    unfold previousHead
    rw [foldl_append, foldl_cons, foldl_nil, filter_append]
    by_cases isHead : last.myHead = true
    · simp [noteCandidate, isHead]
    · simp only [noteCandidate, isHead, if_false, Bool.false_eq_true,
        filter_cons_of_neg, not_false_eq_true, filter_nil, append_nil]
      exact ih

def Marked (table : List (NeighborEntry Addr)) (entry : NeighborEntry Addr) : Prop :=
  ∃ after ∈ table, after.neighborMainAddr = entry.neighborMainAddr ∧ after.myHead = true

private theorem foldl_noteCandidate_maxQos (cands : List (NeighborEntry Addr)) :
    ∀ scan : HeadScan Addr, (cands.foldl noteCandidate scan).maxQos =
      (cands.map NeighborEntry.qos).foldl max scan.maxQos := by
  induction cands with
  | nil => exact fun _ => rfl
  | cons entry rest ih =>
    intro scan
    rw [foldl_cons, ih]
    rfl

private theorem previousHead_mem
    {candidates : List (NeighborEntry Addr)} {head : NeighborEntry Addr}
    (isPrev : previousHead candidates = some head) : head ∈ candidates :=
  (mem_filter.mp (mem_of_getLast? isPrev)).1

private theorem updateOwnElection_of_leads {scan : HeadScan Addr} (value : HeadFlagValue isHead)
    (leads : env.qos = scan.maxQos) : SelfElected (updateOwnElection env scan isHead) := by
  unfold updateOwnElection
  rcases value with rfl | rfl | rfl | rfl <;> simp [leads, SelfElected]

variable [DecidableEq Addr]

/-- The table leads from the main address of a candidate to the candidate, and
from the node's own main address to none. -/
structure FindsCandidates (env : HeadEnv Addr) (neighbors : List (NeighborEntry Addr)) : Prop where
  distinct : (neighbors.map NeighborEntry.neighborMainAddr).Nodup
  unaliased : ∀ entry ∈ headCandidates env neighbors,
      neighborKey env.midLookupMainAddr entry.neighborMainAddr = entry.neighborMainAddr
  own : ∀ entry ∈ headCandidates env neighbors,
      entry.neighborMainAddr ≠ neighborKey env.midLookupMainAddr env.mainAddr

variable {neighbors : List (NeighborEntry Addr)}

/-- Where the addresses are distinct, a write by address is a write to all
entries of the address. -/
theorem updateNeighborEntry_eq_map (key : Addr) (write : NeighborEntry Addr → NeighborEntry Addr)
    (distinct : (neighbors.map NeighborEntry.neighborMainAddr).Nodup) :
    updateNeighborEntry key write neighbors = neighbors.map fun entry =>
        if entry.neighborMainAddr = key then write entry else entry := by
  induction neighbors with
  | nil => rfl
  | cons entry rest ih =>
    rw [map_cons, nodup_cons] at distinct
    rw [updateNeighborEntry, map_cons]
    by_cases isKey : entry.neighborMainAddr = key
    · rw [if_pos isKey, if_pos isKey]
      have unchanged :
          rest.map (fun other =>
            if other.neighborMainAddr = key then write other else other) =
            rest.map id := by
        apply map_congr_left
        intro other inRest
        have notKey : other.neighborMainAddr ≠ key := by
          intro otherKey
          refine distinct.1 (List.mem_map.mpr ⟨other, inRest, ?_⟩)
          rw [otherKey, isKey]
        exact if_neg notKey
      rw [unchanged, List.map_id]
    · rw [if_neg isKey, if_neg isKey, ih distinct.2]

section

variable (env : HeadEnv Addr)

@[simp]
theorem resetLinked_neighborMainAddr (entry : NeighborEntry Addr) :
    (resetLinked env entry).neighborMainAddr = entry.neighborMainAddr := by
  unfold resetLinked
  split <;> rfl

/-- After an election by address a candidate has the mark when the address
leads to it. -/
theorem FindsCandidates.marked_electHead_iff {env : HeadEnv Addr}
    (finds : FindsCandidates env neighbors) {entry : NeighborEntry Addr}
    (isCand : entry ∈ headCandidates env neighbors) (addr : Addr) :
    Marked (electHead env addr (neighbors.map (resetLinked env))) entry ↔
      entry.neighborMainAddr = neighborKey env.midLookupMainAddr addr := by
  obtain ⟨isMem, isIn⟩ := mem_filter.mp isCand
  have linked : env.hasBestLink entry.neighborMainAddr = true := (of_decide_eq_true isIn).1
  have resetDistinct :
      ((neighbors.map (resetLinked env)).map NeighborEntry.neighborMainAddr).Nodup := by
    rw [List.map_map]
    simpa [Function.comp_def] using finds.distinct
  unfold electHead Marked
  rw [updateNeighborEntry_eq_map _ _ resetDistinct, List.map_map]
  simp only [List.mem_map, Function.comp_apply, exists_exists_and_eq_and]
  constructor
  · rintro ⟨other, otherMem, sameAddr, isMarked⟩
    have same : other = entry := by
      refine inj_on_of_nodup_map finds.distinct otherMem isMem ?_
      rw [← sameAddr]
      split <;> simp
    subst same
    by_contra notKey
    rw [if_neg (by simpa using notKey)] at isMarked
    simp [resetLinked, linked] at isMarked
  · intro isKey
    refine ⟨entry, isMem, ?_, ?_⟩
    · rw [if_pos (by simpa using isKey)]
      simp
    · rw [if_pos (by simpa using isKey)]

variable (neighbors : List (NeighborEntry Addr))

def greatestQos : Nat := ((headCandidates env neighbors).map NeighborEntry.qos).foldl max env.qos

def KeepsHead (head : NeighborEntry Addr) : Prop :=
  previousHead (headCandidates env neighbors) = some head ∧
    9 * greatestQos env neighbors ≤ 10 * head.qos

/-- No candidate was head, and the node itself keeps nine tenths. -/
def KeepsSelf (isHead : UInt16) (neighbors : List (NeighborEntry Addr)) : Prop :=
  previousHead (headCandidates env neighbors) = none ∧
    SelfElected isHead ∧ 9 * greatestQos env neighbors ≤ 10 * env.qos

def OnlyMarked (neighbors table : List (NeighborEntry Addr)) (head : NeighborEntry Addr) : Prop :=
  head ∈ headCandidates env neighbors ∧
    ∀ entry ∈ headCandidates env neighbors, Marked table entry ↔ entry = head

structure ElectsHead (isHead : UInt16) (neighbors : List (NeighborEntry Addr)) : Prop where
  keepsHead : ∀ head, KeepsHead env neighbors head →
      OnlyMarked env neighbors (olsrCalculateHead env isHead neighbors).2 head
  keepsSelf : KeepsSelf env isHead neighbors → ∀ entry ∈ headCandidates env neighbors,
        ¬Marked (olsrCalculateHead env isHead neighbors).2 entry
  electsNeighbor : (¬∃ head, KeepsHead env neighbors head) → ¬KeepsSelf env isHead neighbors →
    (∃ entry ∈ headCandidates env neighbors, env.qos < entry.qos) → ∃ first,
        ((headCandidates env neighbors).find? fun entry =>
          entry.qos = greatestQos env neighbors) = some first ∧
        OnlyMarked env neighbors (olsrCalculateHead env isHead neighbors).2 first
  electsSelf : (¬∃ head, KeepsHead env neighbors head) → ¬KeepsSelf env isHead neighbors →
    (¬∃ entry ∈ headCandidates env neighbors, env.qos < entry.qos) →
      (∀ entry ∈ headCandidates env neighbors,
        ¬Marked (olsrCalculateHead env isHead neighbors).2 entry) ∧
      SelfElected (olsrCalculateHead env isHead neighbors).1

end

def scanEnd (env : HeadEnv Addr) (isHead : UInt16)
    (neighbors : List (NeighborEntry Addr)) : HeadScan Addr :=
  (headCandidates env neighbors).foldl noteCandidate (scanStart env isHead)

theorem olsrCalculateHead_eq (env : HeadEnv Addr) (isHead : UInt16)
    (neighbors : List (NeighborEntry Addr)) :
    olsrCalculateHead env isHead neighbors =
      concludeHeadElection env isHead (scanEnd env isHead neighbors)
        (neighbors.map (resetLinked env)) := by
  rw [olsrCalculateHead, scanHeadCandidates_eq]
  rfl

section Outcome

variable {env : HeadEnv Addr} {isHead : UInt16} {neighbors : List (NeighborEntry Addr)}

theorem scanEnd_maxQos : (scanEnd env isHead neighbors).maxQos = greatestQos env neighbors :=
  foldl_noteCandidate_maxQos _ _

theorem FindsCandidates.onlyMarked_electHead (finds : FindsCandidates env neighbors)
    {head : NeighborEntry Addr} (isCand : head ∈ headCandidates env neighbors) :
    OnlyMarked env neighbors
      (electHead env head.neighborMainAddr (neighbors.map (resetLinked env))) head := by
  refine ⟨isCand, fun entry entryCandidate => ?_⟩
  rw [finds.marked_electHead_iff entryCandidate, finds.unaliased head isCand]
  constructor
  · exact inj_on_of_nodup_map finds.distinct (mem_filter.mp entryCandidate).1
        (mem_filter.mp isCand).1
  · exact congrArg NeighborEntry.neighborMainAddr

theorem FindsCandidates.not_marked_electHead_own
    (finds : FindsCandidates env neighbors) : ∀ entry ∈ headCandidates env neighbors,
      ¬Marked (electHead env env.mainAddr (neighbors.map (resetLinked env))) entry := by
  intro entry isCand
  rw [finds.marked_electHead_iff isCand]
  exact finds.own entry isCand

theorem olsrCalculateHead_of_keeps (positive : 0 < greatestQos env neighbors)
    (isKnown :
      (olsrLookupNeighborTable env.midLookupMainAddr (neighbors.map (resetLinked env))
        (scanEnd env isHead neighbors).prevHeadIp).isSome ∨ isHead = 1 ∨ isHead = 3)
    (keeps : 9 * greatestQos env neighbors ≤ 10 * (scanEnd env isHead neighbors).maxPrevHeadQos) :
    olsrCalculateHead env isHead neighbors =
      (isHead, electHead env (scanEnd env isHead neighbors).prevHeadIp
          (neighbors.map (resetLinked env))) := by
  rw [olsrCalculateHead_eq]
  unfold concludeHeadElection
  rw [scanEnd_maxQos, if_neg (Nat.ne_of_gt positive)]
  exact if_pos ⟨isKnown, keeps⟩

theorem olsrCalculateHead_of_not_keeps (positive : 0 < greatestQos env neighbors)
    (loses : ¬9 * greatestQos env neighbors ≤ 10 * (scanEnd env isHead neighbors).maxPrevHeadQos) :
    olsrCalculateHead env isHead neighbors =
      (updateOwnElection env (scanEnd env isHead neighbors) isHead,
        electHead env (scanEnd env isHead neighbors).maxIp (neighbors.map (resetLinked env))) := by
  rw [olsrCalculateHead_eq]
  unfold concludeHeadElection
  rw [scanEnd_maxQos, if_neg (Nat.ne_of_gt positive)]
  exact if_neg fun keeps => loses keeps.2

theorem not_keeps_of_others (positive : 0 < greatestQos env neighbors)
    (noHead : ¬∃ head, KeepsHead env neighbors head) (notSelf : ¬KeepsSelf env isHead neighbors) :
    ¬9 * greatestQos env neighbors ≤ 10 * (scanEnd env isHead neighbors).maxPrevHeadQos := by
  have previousQos :=
    (foldl_noteCandidate_previous (scanStart env isHead) (headCandidates env neighbors)).2
  unfold scanEnd
  rw [previousQos]
  cases isPrev : previousHead (headCandidates env neighbors) with
  | some head =>
    intro keeps
    exact noHead ⟨head, isPrev, keeps⟩
  | none =>
    unfold scanStart
    by_cases isSelf : isHead = 1 ∨ isHead = 3
    · rw [elim_none, if_pos isSelf]
      intro keeps
      exact notSelf ⟨isPrev, isSelf, keeps⟩
    · rw [elim_none, if_neg isSelf]
      dsimp only
      omega

end Outcome

/-- Every head calculation with a `qos` above 0 elects as described, where the
table leads to the candidates. -/
theorem olsrCalculateHead_electsHead (env : HeadEnv Addr) (isHead : UInt16)
    (neighbors : List (NeighborEntry Addr)) (value : HeadFlagValue isHead)
    (finds : FindsCandidates env neighbors) (positive : 0 < greatestQos env neighbors) :
    ElectsHead env isHead neighbors := by
  have previous :=
    foldl_noteCandidate_previous (scanStart env isHead) (headCandidates env neighbors)
  have found : FoundMax (scanStart env isHead)
      (scanEnd env isHead neighbors) (headCandidates env neighbors) :=
    foundMax_foldl _ _
  constructor
  case keepsHead =>
    rintro head ⟨isPrevious, keeps⟩
    have isCandidate := previousHead_mem isPrevious
    have prevHeadIp : (scanEnd env isHead neighbors).prevHeadIp = head.neighborMainAddr := by
      rw [scanEnd, previous.1, isPrevious]
      rfl
    have prevQos : (scanEnd env isHead neighbors).maxPrevHeadQos = head.qos := by
      rw [scanEnd, previous.2, isPrevious]
      rfl
    have isFound :
        (olsrLookupNeighborTable env.midLookupMainAddr (neighbors.map (resetLinked env))
          (scanEnd env isHead neighbors).prevHeadIp).isSome := by
      rw [prevHeadIp, olsrLookupNeighborTable_map (by simp),
        isSome_map, olsrLookupNeighborTable, find?_isSome]
      refine ⟨head, (mem_filter.mp isCandidate).1, ?_⟩
      simpa using (finds.unaliased head isCandidate).symm
    rw [olsrCalculateHead_of_keeps positive (Or.inl isFound)
      (by rw [prevQos]; exact keeps), prevHeadIp]
    exact finds.onlyMarked_electHead isCandidate
  case keepsSelf =>
    rintro ⟨isPrevious, isSelf, keeps⟩
    have prevHeadIp : (scanEnd env isHead neighbors).prevHeadIp = env.mainAddr := by
      rw [scanEnd, previous.1, isPrevious]
      rfl
    have prevQos : (scanEnd env isHead neighbors).maxPrevHeadQos = env.qos := by
      rw [scanEnd, previous.2, isPrevious]
      exact if_pos isSelf
    rw [olsrCalculateHead_of_keeps positive (Or.inr isSelf)
      (by rw [prevQos]; exact keeps), prevHeadIp]
    exact finds.not_marked_electHead_own
  case electsNeighbor =>
    intro noHead notSelf hasGreater
    obtain ⟨entry, isCandidate, greater⟩ := hasGreater
    rw [olsrCalculateHead_of_not_keeps positive (not_keeps_of_others positive noHead notSelf)]
    have entryLe := found.bounds entry isCandidate
    rcases found.first with ⟨same, -⟩ | ⟨-, first, isFirst, maxIp⟩
    · have ownMax : (scanEnd env isHead neighbors).maxQos = env.qos := same
      omega
    · rw [scanEnd_maxQos] at isFirst
      refine ⟨first, isFirst, ?_⟩
      rw [maxIp]
      exact finds.onlyMarked_electHead (mem_of_find?_eq_some isFirst)
  case electsSelf =>
    intro noHead notSelf noGreater
    rw [olsrCalculateHead_of_not_keeps positive (not_keeps_of_others positive noHead notSelf)]
    rcases found.first with ⟨same, maxIp⟩ | ⟨greater, first, isFirst, -⟩
    · constructor
      · rw [maxIp]
        exact finds.not_marked_electHead_own
      · exact updateOwnElection_of_leads value same.symm
    · have firstQos := find?_some isFirst
      simp only [decide_eq_true_eq] at firstQos
      refine absurd ⟨first, mem_of_find?_eq_some isFirst, ?_⟩ noGreater
      rw [firstQos]
      exact greater

def outcomeEnv : HeadEnv Nat where
  qos := 10
  mainAddr := 1
  lqLevel := 2
  linkSet := [⟨5, 1, .sym, 1024, none⟩, ⟨6, 1, .sym, 1024, none⟩]
  midLookupMainAddr := fun _ => none

def closeNeighbors : List (NeighborEntry Nat) :=
  [⟨5, .sym, 100, 0, false, false⟩, ⟨6, .sym, 95, 0, true, true⟩]

theorem olsrCalculateHead_electsHead_close :
    KeepsHead outcomeEnv closeNeighbors ⟨6, .sym, 95, 0, true, true⟩ ∧
      OnlyMarked outcomeEnv closeNeighbors (olsrCalculateHead outcomeEnv 0 closeNeighbors).2
        ⟨6, .sym, 95, 0, true, true⟩ := by
  have keeps : KeepsHead outcomeEnv closeNeighbors ⟨6, .sym, 95, 0, true, true⟩ :=
    ⟨by decide, by decide⟩
  have finds : FindsCandidates outcomeEnv closeNeighbors := ⟨by decide, by decide, by decide⟩
  exact ⟨keeps,
      (olsrCalculateHead_electsHead outcomeEnv 0 closeNeighbors (by decide)
        finds (by decide)).keepsHead _ keeps⟩

/-- Two entries under one main address, as a renamed neighbour leaves them; the
second was the head. -/
def renamedNeighbors : List (NeighborEntry Nat) :=
  [⟨5, .sym, 80, 0, false, false⟩, ⟨5, .sym, 90, 0, true, true⟩]

/-- The mark goes to the entry that the lookup finds first. -/
theorem olsrCalculateHead_renamed :
    KeepsHead outcomeEnv renamedNeighbors ⟨5, .sym, 90, 0, true, true⟩ ∧
      (olsrCalculateHead outcomeEnv 0 renamedNeighbors).2 =
        [⟨5, .sym, 80, 0, true, true⟩, ⟨5, .sym, 90, 0, false, false⟩] :=
  ⟨⟨by decide, by decide⟩, by decide⟩

end QosOlsr
