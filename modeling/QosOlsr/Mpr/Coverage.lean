import QosOlsr.Mpr.Relays

/-!
# Coverage, symmetric relays and announced changes

Each two-hop neighbour is covered by the first best path to it, and only new
relays are announced.
-/

namespace QosOlsr.Mpr

open List

universe u v

variable {Addr : Type u} {Ptr : Type v} [DecidableEq Addr]

section

variable (cfg : Config Addr) (tables : Tables Addr Ptr) (neigh2 : Neighbor2Entry Addr Ptr)

/-- A path with this cost is usable and better than the direct link, if there
is one. -/
def Beats (cost : Nat) : Prop :=
  cost < linkCostBroken ∧ ∀ neigh, asSymNeighbor cfg tables neigh2 = some neigh → ∃ linkcost,
        cfg.bestLinkcost (tables.nbr neigh).neighborMainAddr = some linkcost ∧
        cost < linkcost

def Considered : Prop :=
  ∀ neigh, asSymNeighbor cfg tables neigh2 = some neigh → ∃ linkcost,
      cfg.bestLinkcost (tables.nbr neigh).neighborMainAddr = some linkcost ∧
      ∃ walker ∈ neigh2.neighbor2Nblist, walker.pathLinkcost < linkcost

/-- The two-hop neighbour has `is_2hop` unset and no good path through a
symmetric neighbour, and the neighbour is the first of its list. -/
structure FallsBackTo
    (ptr : Ptr) : Prop where
  coverage : 0 < cfg.mprCoverage
  notTwoHop : neigh2.is2hop = false
  considered : Considered cfg tables neigh2
  noPath : ∀ walker ∈ neigh2.neighbor2Nblist,
      (tables.nbr walker.neighbor).status = .sym → ¬Beats cfg tables neigh2 walker.pathLinkcost
  first : ∃ walker, neigh2.neighbor2Nblist.head? = some walker ∧ walker.neighbor = ptr

/-- The neighbour has the first best path to the two-hop neighbour, and it is
a good one. -/
structure HasGoodPath
    (ptr : Ptr) : Prop where
  coverage : 0 < cfg.mprCoverage
  path : ∃ walker, FirstBestPath tables.nbr neigh2.neighbor2Nblist walker ∧
      Beats cfg tables neigh2 walker.pathLinkcost ∧
      walker.neighbor = ptr

end

variable {tables : Tables Addr Ptr} {cfg : Config Addr} {neigh2 : Neighbor2Entry Addr Ptr}

theorem bestOneHop_eq_some_iff :
    (∃ best1hop, bestOneHop cfg tables neigh2 = some best1hop) ↔ Considered cfg tables neigh2 := by
  unfold bestOneHop Considered
  cases asSymNeighbor cfg tables neigh2 with
  | none => simp
  | some neigh => simp [Option.filter_eq_some_iff]

theorem beats_iff {best1hop : Nat} (isBest : bestOneHop cfg tables neigh2 = some best1hop)
    (cost : Nat) : Beats cfg tables neigh2 cost ↔ cost < linkCostBroken ∧ cost < best1hop := by
  unfold bestOneHop at isBest
  unfold Beats
  refine and_congr_right fun usable => ?_
  cases isNbr : asSymNeighbor cfg tables neigh2 with
  | none =>
    rw [isNbr] at isBest
    obtain rfl := Option.some.inj isBest
    simp [usable]
  | some neigh =>
    rw [isNbr] at isBest
    obtain ⟨linkcostEq, -⟩ := Option.filter_eq_some_iff.mp isBest
    simp [linkcostEq]

private theorem Considered.of_beats
    {walker : NeighborListEntry Ptr} (isMem : walker ∈ neigh2.neighbor2Nblist)
    (beats : Beats cfg tables neigh2 walker.pathLinkcost) : Considered cfg tables neigh2 := by
  intro neigh isNbr
  obtain ⟨linkcost, linkcostEq, isBetter⟩ := beats.2 neigh isNbr
  exact ⟨linkcost, linkcostEq, walker, isMem, isBetter⟩

variable {ptr : Ptr}

private theorem selectedWalker_eq_some_iff {best1hop : Nat}
    (coverage : 0 < cfg.mprCoverage) (isBest : bestOneHop cfg tables neigh2 = some best1hop) :
    selectedWalker tables.nbr neigh2 best1hop = some ptr ↔
      HasGoodPath cfg tables neigh2 ptr ∨ FallsBackTo cfg tables neigh2 ptr := by
  unfold selectedWalker
  cases found : bestWalker tables.nbr (fun _ => false) best1hop neigh2.neighbor2Nblist with
  | some neigh =>
    obtain ⟨walker, walkerBest, usable, isBetter, isNeigh⟩ := bestWalker_eq_some_iff.mp found
    have beats := (beats_iff isBest _).mpr ⟨usable, isBetter⟩
    constructor
    · intro isPtr
      rw [Option.some.inj isPtr] at isNeigh
      exact Or.inl ⟨coverage, walker, walkerBest, beats, isNeigh⟩
    · rintro (goodPath | fallsBack)
      · obtain ⟨other, otherBest, otherBeats, isPtr⟩ := goodPath.path
        have found2 := bestWalker_eq_some_iff.mpr
            ⟨other, otherBest, ((beats_iff isBest _).mp otherBeats).1,
              ((beats_iff isBest _).mp otherBeats).2, isPtr⟩
        exact found.symm.trans found2
      · exact absurd beats
          (fallsBack.noPath walker walkerBest.firstLeast.mem walkerBest.firstLeast.ok)
  | none =>
    have noPath : ∀ walker ∈ neigh2.neighbor2Nblist, (tables.nbr walker.neighbor).status = .sym →
            ¬Beats cfg tables neigh2 walker.pathLinkcost := by
      intro walker isMem isSym beats
      obtain ⟨usable, isBetter⟩ := (beats_iff isBest _).mp beats
      obtain ⟨best, bestPath⟩ := exists_firstBestPath ⟨walker, isMem, isSym⟩
      have notAbove := bestPath.firstLeast.least isMem isSym
      have isFound := bestWalker_eq_some_iff.mpr
          ⟨best, bestPath, notAbove.trans_lt usable, notAbove.trans_lt isBetter, rfl⟩
      rw [found] at isFound
      cases isFound
    have noGoodPath : ¬HasGoodPath cfg tables neigh2 ptr := by
      intro goodPath
      obtain ⟨walker, walkerBest, beats, -⟩ := goodPath.path
      exact noPath walker walkerBest.firstLeast.mem walkerBest.firstLeast.ok beats
    rw [or_iff_right noGoodPath]
    by_cases notTwoHop : neigh2.is2hop = false
    · simp only [if_pos notTwoHop, Option.map_eq_some_iff]
      constructor
      · intro isFirst
        exact ⟨coverage, notTwoHop, bestOneHop_eq_some_iff.mp ⟨best1hop, isBest⟩, noPath, isFirst⟩
      · exact FallsBackTo.first
    · simp only [if_neg notTwoHop, reduceCtorEq, false_iff]
      intro fallsBack
      exact notTwoHop fallsBack.notTwoHop

private theorem selectedFor_eq_some_iff : selectedFor cfg tables neigh2 = some ptr ↔
      HasGoodPath cfg tables neigh2 ptr ∨ FallsBackTo cfg tables neigh2 ptr := by
  unfold selectedFor
  by_cases noCoverage : cfg.mprCoverage = 0
  · simp only [if_pos noCoverage, reduceCtorEq, false_iff]
    rintro (goodPath | fallsBack)
    · exact goodPath.coverage.ne' noCoverage
    · exact fallsBack.coverage.ne' noCoverage
  · rw [if_neg noCoverage]
    have coverage : 0 < cfg.mprCoverage := Nat.pos_of_ne_zero noCoverage
    cases isBest : bestOneHop cfg tables neigh2 with
    | some best1hop =>
      rw [Option.bind_some]
      exact selectedWalker_eq_some_iff coverage isBest
    | none =>
      have passedOver : ¬Considered cfg tables neigh2 := by
        intro considered
        obtain ⟨best1hop, isSome⟩ := bestOneHop_eq_some_iff.mpr considered
        rw [isBest] at isSome
        cases isSome
      simp only [Option.bind_none, reduceCtorEq, false_iff]
      rintro (goodPath | fallsBack)
      · obtain ⟨walker, walkerBest, beats, -⟩ := goodPath.path
        exact passedOver (Considered.of_beats walkerBest.firstLeast.mem beats)
      · exact passedOver fallsBack.considered

variable [DecidableEq Ptr]

def IsSelected (cfg : Config Addr) (tables : Tables Addr Ptr) (ptr : Ptr) : Prop :=
  ∃ neigh2 ∈ tables.twoHopNeighbortable, HasGoodPath cfg tables neigh2 ptr ∨
      FallsBackTo cfg tables neigh2 ptr

/-- The first pass does not clear `is_mpr` of the neighbour. -/
def Neighbor.KeepsMpr (neigh : Neighbor Addr) : Prop := neigh.isHead ≠ 0 ∨ neigh.myHead = true

omit [DecidableEq Ptr] in
theorem isSelected_iff : IsSelected cfg tables ptr ↔
      some ptr ∈ tables.twoHopNeighbortable.map (selectedFor cfg tables) := by
  simp only [List.mem_map, selectedFor_eq_some_iff]
  rfl

omit [DecidableEq Ptr] in
theorem IsSelected.mem (isSelected : IsSelected cfg tables ptr) : ptr ∈ tables.neighbortable := by
  obtain ⟨neigh2, isMem, goodPath | fallsBack⟩ := isSelected
  · obtain ⟨walker, walkerBest, -, rfl⟩ := goodPath.path
    exact tables.linked neigh2 isMem walker walkerBest.firstLeast.mem
  · obtain ⟨walker, isFirst, rfl⟩ := fallsBack.first
    exact tables.linked neigh2 isMem walker (mem_of_head? isFirst)

omit [DecidableEq Addr] [DecidableEq Ptr] in
theorem Neighbor.IsAlways.sym {neigh : Neighbor Addr} (isAlways : neigh.IsAlways) :
    neigh.status = .sym := by
  cases isStatus : neigh.status with
  | sym => rfl
  | notSym => exact absurd (Or.inl isStatus) isAlways

omit [DecidableEq Addr] [DecidableEq Ptr] in
private theorem resetFlags_isMpr_iff (neigh : Neighbor Addr) (flags : MprFlags) :
    (resetFlags neigh flags).isMpr = true ↔
      neigh.IsAlways ∨ neigh.KeepsMpr ∧ flags.isMpr = true := by
  unfold resetFlags Neighbor.KeepsMpr
  by_cases isAlways : neigh.IsAlways
  · simp [isAlways]
  · by_cases isCleared : neigh.isHead = 0 ∧ neigh.myHead = false
    · simp [isAlways, isCleared]
    · have keeps : neigh.isHead ≠ 0 ∨ neigh.myHead = true := by
        simpa only [Decidable.not_and_iff_or_not, Bool.not_eq_false] using isCleared
      simp [isAlways, isCleared, keeps]

section Outcome

variable {cfg : Config Addr} {tables : Tables Addr Ptr}
  {flags : Ptr → MprFlags} {after : Outcome Ptr} (isHead : cfg.isHead ≠ 0)
  (calculated : olsrCalculateLqMpr cfg tables flags = some after)

include isHead calculated

theorem olsrCalculateLqMpr_marksAll : ∃ st, after.flags = st.flags ∧
      after.signalled = (st.mprChanges && decide (0 < cfg.tcRedundancy)) ∧
      MarksAll (tables.neighbortable.foldl (resetNeighbor tables) ⟨flags, false⟩) st
        (tables.twoHopNeighbortable.map (selectedFor cfg tables)) := by
  rw [olsrCalculateLqMpr, if_neg isHead] at calculated
  obtain ⟨st, covered, rfl⟩ := Option.map_eq_some_iff.mp calculated
  exact ⟨st, rfl, rfl, foldlM_coverTwoHop_marksAll _ covered⟩

theorem olsrCalculateLqMpr_isMpr_iff (inTable : ptr ∈ tables.neighbortable) :
    (after.flags ptr).isMpr = true ↔ (tables.nbr ptr).IsAlways ∨
      (tables.nbr ptr).KeepsMpr ∧ (flags ptr).isMpr = true ∨ IsSelected cfg tables ptr := by
  obtain ⟨st, flagsEq, -, marks⟩ := olsrCalculateLqMpr_marksAll isHead calculated
  rw [flagsEq, marks.isMpr, isSelected_iff,
    (foldl_resetNeighbor tables tables.nodup _).1 ptr, if_pos inTable,
    resetFlags_isMpr_iff, or_assoc]

private theorem olsrCalculateLqMpr_signalled_iff :
    after.signalled = true ↔ 0 < cfg.tcRedundancy ∧ ∃ ptr ∈ tables.neighbortable,
      (flags ptr).isMpr = false ∧ ((tables.nbr ptr).IsAlways ∨ IsSelected cfg tables ptr) := by
  obtain ⟨st, -, signalledEq, marks⟩ := olsrCalculateLqMpr_marksAll isHead calculated
  obtain ⟨resetEq, resetChanges⟩ := foldl_resetNeighbor tables tables.nodup ⟨flags, false⟩
  rw [signalledEq, Bool.and_eq_true, decide_eq_true_eq, and_comm, marks.changes, resetChanges]
  refine and_congr_right fun _ => ?_
  have wasMprEq {ptr : Ptr} (inTable : ptr ∈ tables.neighbortable) :
      ((tables.neighbortable.foldl (resetNeighbor tables)
        ⟨flags, false⟩).flags ptr).wasMpr = (flags ptr).isMpr := by
    rw [resetEq ptr, if_pos inTable]
    rfl
  constructor
  · rintro ((changed | ⟨ptr, inTable, isAlways, wasNot⟩) | ⟨ptr, isMem, wasNot⟩)
    · cases changed
    · exact ⟨ptr, inTable, wasNot, Or.inl isAlways⟩
    · have isSelected := isSelected_iff.mpr isMem
      rw [wasMprEq isSelected.mem] at wasNot
      exact ⟨ptr, isSelected.mem, wasNot, Or.inr isSelected⟩
  · rintro ⟨ptr, inTable, wasNot, isAlways | isSelected⟩
    · exact Or.inl (Or.inr ⟨ptr, inTable, isAlways, wasNot⟩)
    · refine Or.inr ⟨ptr, isSelected_iff.mp isSelected, ?_⟩
      rw [wasMprEq inTable]
      exact wasNot

end Outcome

/-- Every entry that would fall back has a neighbour to fall back to. -/
theorem olsrCalculateLqMpr_isSome (hasNbr : ∀ neigh2 ∈ tables.twoHopNeighbortable,
        neigh2.is2hop = false → neigh2.neighbor2Nblist ≠ [])
    (flags : Ptr → MprFlags) : ∃ after, olsrCalculateLqMpr cfg tables flags = some after := by
  have covered : ∀ (neigh2s : List (Neighbor2Entry Addr Ptr)),
        (∀ neigh2 ∈ neigh2s, neigh2.is2hop = false → neigh2.neighbor2Nblist ≠ []) →
        ∀ st : State Ptr, ∃ after, neigh2s.foldlM (coverTwoHop cfg tables) st = some after := by
    intro neigh2s
    induction neigh2s with
    | nil => exact fun _ st => ⟨st, rfl⟩
    | cons neigh2 rest ih =>
      intro allHave st
      obtain ⟨middle, firstEq⟩ :=
        Option.isSome_iff_exists.mp (coverTwoHop_isSome (allHave neigh2 mem_cons_self) st)
      obtain ⟨after, restEq⟩ :=
        ih (fun other inRest => allHave other (mem_cons_of_mem _ inRest)) middle
      refine ⟨after, ?_⟩
      rw [foldlM_cons]
      exact Option.bind_eq_some_iff.mpr ⟨middle, firstEq, restEq⟩
  unfold olsrCalculateLqMpr
  by_cases isHead : cfg.isHead = 0
  · exact ⟨_, if_pos isHead⟩
  · obtain ⟨after, coveredEq⟩ := covered _ hasNbr _
    rw [if_neg isHead, coveredEq]
    exact ⟨_, rfl⟩

/-- One neighbour, with a path of cost 1024 to each given two-hop
neighbour. -/
def oneNeighborTables (neigh : Neighbor Nat) (twoHops : List Nat) : Tables Nat Unit where
  neighbortable := [()]
  nbr _ := neigh
  twoHopNeighbortable := twoHops.map fun addr => ⟨addr, true, [⟨(), 1024⟩]⟩
  nodup := nodup_singleton ()
  linked _ _ _ _ := mem_singleton_self ()

def headConfig : Config Nat where
  isHead := 1
  mprCoverage := 1
  tcRedundancy := 2
  lqLevel := 2
  linkSet := [⟨1, 9, .sym, 512, none⟩]
  midLookupMainAddr _ := none

def symNeighbor : Neighbor Nat := ⟨1, .sym, 3, 0, false⟩

/-- A symmetric neighbour and one that is not, with a better path to the
two-hop neighbour. -/
def twoNeighborTables : Tables Nat Bool where
  neighbortable := [true, false]
  nbr isSym := if isSym then symNeighbor else ⟨3, .notSym, 3, 0, false⟩
  twoHopNeighbortable := [⟨2, true, [⟨false, 512⟩, ⟨true, 1024⟩]⟩]
  nodup := by decide
  linked := by decide

/-- Every relay is symmetric when no head that is a relay has lost its
symmetry and no entry falls back to a neighbour that is not symmetric. -/
theorem olsrCalculateLqMpr_onlySym_iff {cfg : Config Addr} {tables : Tables Addr Ptr}
    {flags : Ptr → MprFlags} {after : Outcome Ptr} (isHead : 1 ≤ cfg.isHead)
    (calculated : olsrCalculateLqMpr cfg tables flags = some after) :
    (∀ ptr ∈ tables.neighbortable,
      (after.flags ptr).isMpr = true → (tables.nbr ptr).status = .sym) ↔
    (∀ ptr ∈ tables.neighbortable,
      (tables.nbr ptr).KeepsMpr → (flags ptr).isMpr = true → (tables.nbr ptr).status = .sym) ∧
    ∀ neigh2 ∈ tables.twoHopNeighbortable, ∀ ptr,
      FallsBackTo cfg tables neigh2 ptr → (tables.nbr ptr).status = .sym := by
  have isMprIff {ptr : Ptr} (inTable : ptr ∈ tables.neighbortable) :=
    olsrCalculateLqMpr_isMpr_iff (Nat.ne_of_gt isHead) calculated inTable
  constructor
  · intro onlySym
    constructor
    · intro ptr inTable keeps wasMpr
      exact onlySym ptr inTable ((isMprIff inTable).mpr (Or.inr (Or.inl ⟨keeps, wasMpr⟩)))
    · intro neigh2 isMem ptr fallsBack
      have isSelected : IsSelected cfg tables ptr := ⟨neigh2, isMem, Or.inr fallsBack⟩
      exact onlySym ptr isSelected.mem ((isMprIff isSelected.mem).mpr (Or.inr (Or.inr isSelected)))
  · rintro ⟨headsSym, fallbacksSym⟩ ptr inTable isMpr
    rcases (isMprIff inTable).mp isMpr with isAlways | ⟨keeps, wasMpr⟩ | isSelected
    · exact isAlways.sym
    · exact headsSym ptr inTable keeps wasMpr
    · obtain ⟨neigh2, isMem, goodPath | fallsBack⟩ := isSelected
      · obtain ⟨walker, walkerBest, -, rfl⟩ := goodPath.path
        exact walkerBest.firstLeast.ok
      · exact fallbacksSym neigh2 isMem ptr fallsBack

theorem olsrCalculateLqMpr_onlySym_twoNeighbors : ∃ after,
      olsrCalculateLqMpr headConfig twoNeighborTables (fun _ => ⟨true, false, false⟩) = some after ∧
      ∀ ptr ∈ twoNeighborTables.neighbortable, (after.flags ptr).isMpr = true →
        (twoNeighborTables.nbr ptr).status = .sym := by
  obtain ⟨after, calculated⟩ := @olsrCalculateLqMpr_isSome _ _ _ twoNeighborTables
      headConfig _ (by decide) (fun _ => ⟨true, false, false⟩)
  refine ⟨after, calculated, (olsrCalculateLqMpr_onlySym_iff (by decide) calculated).mpr ⟨?_, ?_⟩⟩
  · rintro (_ | _) - keeps -
    · exact absurd keeps (by simp [twoNeighborTables, Neighbor.KeepsMpr])
    · rfl
  · intro neigh2 isMem ptr fallsBack
    obtain rfl := mem_singleton.mp isMem
    cases fallsBack.notTwoHop

/-- The neighbour was chosen as head, and its link is not symmetric any
more. -/
def lostHead : Neighbor Nat := ⟨1, .notSym, 3, 0, true⟩

/-- The lost head is a relay still. -/
theorem olsrCalculateLqMpr_lostHead : lostHead.status = .notSym ∧
      (olsrCalculateLqMpr headConfig (oneNeighborTables lostHead [])
        (fun _ => ⟨true, true, false⟩)).map
        (fun after => (after.flags ()).isMpr) = some true := by
  decide

/-- A change of the relays is announced when no relay is dropped, or when
there is a new one besides. -/
theorem olsrCalculateLqMpr_announced_iff
    {cfg : Config Addr} {tables : Tables Addr Ptr} {flags : Ptr → MprFlags} {after : Outcome Ptr}
    (isHead : 1 ≤ cfg.isHead) (redundancy : 0 < cfg.tcRedundancy)
    (calculated : olsrCalculateLqMpr cfg tables flags = some after) :
    ((∃ ptr ∈ tables.neighbortable, (after.flags ptr).isMpr ≠ (flags ptr).isMpr) →
      after.signalled = true) ↔
    (∀ ptr ∈ tables.neighbortable, (flags ptr).isMpr = true →
      (tables.nbr ptr).KeepsMpr ∨ (tables.nbr ptr).IsAlways ∨ IsSelected cfg tables ptr) ∨
    ∃ ptr ∈ tables.neighbortable, (flags ptr).isMpr = false ∧
      ((tables.nbr ptr).IsAlways ∨ IsSelected cfg tables ptr) := by
  have headNe : cfg.isHead ≠ 0 := Nat.ne_of_gt isHead
  have isMprIff {ptr : Ptr} (inTable : ptr ∈ tables.neighbortable) :=
    olsrCalculateLqMpr_isMpr_iff headNe calculated inTable
  have signalledIff := olsrCalculateLqMpr_signalled_iff headNe calculated
  constructor
  · intro announced
    by_cases isNew : ∃ ptr ∈ tables.neighbortable, (flags ptr).isMpr = false ∧
          ((tables.nbr ptr).IsAlways ∨ IsSelected cfg tables ptr)
    · exact Or.inr isNew
    · left
      intro ptr inTable wasMpr
      by_contra isDropped
      have notMpr : ¬(after.flags ptr).isMpr = true := by
        rw [isMprIff inTable]
        rintro (isAlways | ⟨keeps, -⟩ | isSelected)
        · exact isDropped (Or.inr (Or.inl isAlways))
        · exact isDropped (Or.inl keeps)
        · exact isDropped (Or.inr (Or.inr isSelected))
      have differs : (after.flags ptr).isMpr ≠ (flags ptr).isMpr := by
        rw [wasMpr]
        exact notMpr
      have signalled := announced ⟨ptr, inTable, differs⟩
      exact isNew (signalledIff.mp signalled).2
  · rintro (allStay | isNew) ⟨ptr, inTable, differs⟩
    · refine signalledIff.mpr ⟨redundancy, ptr, inTable, ?_⟩
      cases wasMpr : (flags ptr).isMpr with
      | true =>
        rw [wasMpr] at differs
        refine absurd ((isMprIff inTable).mpr ?_) differs
        rcases allStay ptr inTable wasMpr with keeps | isAlways | isSelected
        · exact Or.inr (Or.inl ⟨keeps, wasMpr⟩)
        · exact Or.inl isAlways
        · exact Or.inr (Or.inr isSelected)
      | false =>
        rw [wasMpr] at differs
        refine ⟨rfl, ?_⟩
        rcases (isMprIff inTable).mp (Bool.eq_true_of_not_eq_false differs) with
          isAlways | ⟨-, isMpr⟩ | isSelected
        · exact Or.inl isAlways
        · rw [wasMpr] at isMpr
          cases isMpr
        · exact Or.inr isSelected
    · exact signalledIff.mpr ⟨redundancy, isNew⟩

theorem olsrCalculateLqMpr_announced_twoNeighbors : ∃ after,
      olsrCalculateLqMpr headConfig twoNeighborTables (fun _ => ⟨false, false, false⟩) =
        some after ∧
      (after.flags true).isMpr = true ∧ after.signalled = true := by
  have computed : (olsrCalculateLqMpr headConfig twoNeighborTables
      (fun _ => ⟨false, false, false⟩)).map (fun after => (after.flags true).isMpr) =
        some true := by
    decide
  obtain ⟨after, calculated, isMpr⟩ := Option.map_eq_some_iff.mp computed
  have announced := (olsrCalculateLqMpr_announced_iff (by decide) (by decide) calculated).mpr
      (Or.inl fun _ _ wasMpr => absurd wasMpr (by decide))
  exact ⟨after, calculated, isMpr, announced ⟨true, mem_cons_self, by simp [isMpr]⟩⟩

/-- The only two-hop neighbour has gone: the relay is dropped and nothing is
announced. -/
theorem olsrCalculateLqMpr_droppedRelay :
    (olsrCalculateLqMpr headConfig (oneNeighborTables symNeighbor [])
      (fun _ => ⟨true, true, false⟩)).map
      (fun after => ((after.flags ()).isMpr, after.signalled)) = some (false, false) := by
  decide

end QosOlsr.Mpr
