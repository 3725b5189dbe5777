import QosOlsr.Spf.Relaxing

/-!
# The run finds the shortest paths

A run in which no sum wraps around ends, and it leaves every vertex with the
least cost of all walks to it.  A sum can wrap around although no simple walk is
that dear.
-/

namespace QosOlsr.Spf

open Library List Option

universe u w

variable {V : Type u} {Link : Type w} {edgeTrees : EdgeTrees V} {myself : V}
  {preset : V → Option Link} {st : SpfState V Link} {cost : Nat} {visited : List V}

/-- A walk that visits no vertex twice, and that no walk to its end undercuts. -/
structure CheapestWalk (edgeTrees : EdgeTrees V) (myself : V) (visited : List V) (cost : Nat) :
    Prop where
  simple : SimpleWalk (usableSteps edgeTrees) myself visited cost
  least : ∀ other otherCost, Walk (usableSteps edgeTrees) myself other otherCost →
      other.getLastD myself = visited.getLastD myself → cost ≤ otherCost

/-- The cost of a cheapest walk to a vertex that gets a cost, and of one more
edge, does not wrap around. -/
def CheapestSumsFit (edgeTrees : EdgeTrees V) (myself : V) : Prop :=
  ∀ visited cost, CheapestWalk edgeTrees myself visited cost → cost < 2 ^ 32 - 1 →
    ∀ step ∈ usableSteps edgeTrees (visited.getLastD myself), cost + step.2 < 2 ^ 32

theorem le_routeCostBroken (cost : UInt32) : cost ≤ routeCostBroken :=
  UInt32.le_iff_toNat_le.mpr (Nat.le_sub_one_of_lt cost.toNat_lt)

section Settled

variable {tc : V} (invariant : RoundInvariant edgeTrees myself preset st)
include invariant

private theorem RoundInvariant.settled_of_lt
    (early : tc ∈ st.pathList ∨ tc ∈ st.candTree.head? ∨ st.candTree = []) {vertex : V}
    (cheaper : st.pathCost vertex < st.pathCost tc) : vertex ∈ st.pathList := by
  have isLabelled := UInt32.lt_of_lt_of_le cheaper (le_routeCostBroken _)
  refine (mem_append.mp ((invariant.labelled vertex).mpr isLabelled)).resolve_right ?_
  intro isCand
  obtain ⟨-, treeSorted, settledLe⟩ := pairwise_append.mp invariant.sorted
  refine UInt32.not_lt.mpr ?_ cheaper
  rcases early with isSettled | isBest | ended
  · exact settledLe tc isSettled vertex isCand
  · obtain ⟨rest, treeEq⟩ := head?_eq_some_iff.mp isBest
    rw [treeEq] at treeSorted isCand
    rcases mem_cons.mp isCand with rfl | inRest
    · exact UInt32.le_refl _
    · exact rel_of_pairwise_cons treeSorted inRest
  · simp [ended] at isCand

/-- No walk is cheaper than the cost of a settled vertex or of the best
candidate; where the run has ended, none is cheaper than the cost of its end. -/
theorem RoundInvariant.pathCost_le_cost
    (early : tc ∈ st.pathList ∨ tc ∈ st.candTree.head? ∨ st.candTree = [])
    (walk : Walk (usableSteps edgeTrees) myself visited cost)
    (ends : visited.getLastD myself = tc) : (st.pathCost tc).toNat ≤ cost := by
  have least := walk.potential_le
    (fun vertex => min (st.pathCost vertex).toNat (st.pathCost tc).toNat) (st.pathCost tc).toNat
    ?_ ?_ ?_
  · simpa only [ends, min_self] using least
  · simp [invariant.ownCost, zeroRouteCost]
  · exact fun vertex => Nat.min_le_right ..
  · intro vertex below step isStep
    have cheaper : (st.pathCost vertex).toNat < (st.pathCost tc).toNat := by omega
    have settled := invariant.settled_of_lt early (UInt32.lt_iff_toNat_lt.mpr cheaper)
    have relaxed := invariant.relaxed vertex settled step isStep
    omega

theorem RoundInvariant.cheapestWalk (isEarly : tc ∈ st.pathList ∨ tc ∈ st.candTree.head?) :
    ∃ visited, Describes edgeTrees myself preset st.pathList st tc visited ∧
      CheapestWalk edgeTrees myself visited (st.pathCost tc).toNat := by
  have isMem : tc ∈ st.pathList ++ st.candTree := mem_append.mpr (isEarly.imp_right mem_of_head?)
  obtain ⟨visited, described⟩ := invariant.described tc ((invariant.labelled tc).mp isMem)
  refine ⟨visited, described, described.simple, fun other otherCost walk sameEnd => ?_⟩
  exact invariant.pathCost_le_cost (isEarly.imp_right .inl) walk (sameEnd.trans described.ends)

theorem RoundInvariant.sums_lt (fits : CheapestSumsFit edgeTrees myself)
    (isBest : tc ∈ st.candTree.head?) :
    ∀ step ∈ usableSteps edgeTrees tc, (st.pathCost tc).toNat + step.2 < 2 ^ 32 := by
  obtain ⟨visited, described, cheapest⟩ := invariant.cheapestWalk (.inr isBest)
  have isLabelled := (invariant.labelled tc).mp (mem_append_right _ (mem_of_head? isBest))
  intro step isStep
  exact fits visited _ cheapest (UInt32.lt_iff_toNat_lt.mp isLabelled) step
    (described.ends.symm ▸ isStep)

end Settled

theorem RoundInvariant.runFits [DecidableEq V]
    (sums : CheapestSumsFit edgeTrees myself) (fuel : Nat) : ∀ {st : SpfState V Link},
      RoundInvariant edgeTrees myself preset st → RunFits edgeTrees fuel st := by
  induction fuel with
  | zero => exact fun _ => trivial
  | succ fuel ih =>
    intro st invariant tc isBest
    have roundFits := invariant.sums_lt sums isBest
    refine ⟨roundFits, fun next roundEq => ?_⟩
    obtain ⟨other, otherEq, otherInvariant, -⟩ := invariant.spfRound isBest roundFits
    cases otherEq.symm.trans roundEq
    exact ih otherInvariant

theorem RoundInvariant.olsrSpfRunFull
    [DecidableEq V] [Fintype V] (fuel : Nat) : ∀ {st : SpfState V Link},
      RoundInvariant edgeTrees myself preset st → Fintype.card V < st.pathList.length + fuel →
      RunFits edgeTrees fuel st → ∃ final, Spf.olsrSpfRunFull edgeTrees fuel st = some final ∧
      RoundInvariant edgeTrees myself preset final ∧ final.candTree = [] := by
  induction fuel with
  | zero =>
    intro st invariant enough _
    have nodup := (nodup_append.mp invariant.nodup).1
    exact absurd enough (Nat.not_lt.mpr nodup.length_le_card)
  | succ fuel ih =>
    intro st invariant enough fits
    unfold Spf.olsrSpfRunFull
    cases treeEq : st.candTree with
    | nil => exact ⟨st, rfl, invariant, treeEq⟩
    | cons tc rest =>
      have isBest : tc ∈ st.candTree.head? := by simp [treeEq]
      obtain ⟨roundFits, laterFits⟩ := fits tc isBest
      obtain ⟨next, roundEq, nextInv, pathListEq⟩ := invariant.spfRound isBest roundFits
      have nextEnough : Fintype.card V < next.pathList.length + fuel := by
        rw [pathListEq, length_append, length_singleton]
        omega
      simp only [roundEq, bind_some]
      exact ih nextInv nextEnough (laterFits next roundEq)

section

variable (edgeTrees : EdgeTrees V)

def WalkTo (myself tc : V) (cost : Nat) : Prop := ∃ visited,
    Walk (usableSteps edgeTrees) myself visited cost ∧
    visited.getLastD myself = tc

/-- Every vertex has the least cost of the walks to it, and the path list holds
the vertices that have a walk to them, in the order of their costs. -/
structure ShortestPaths (myself : V) (final : SpfState V Link) :
    Prop where
  least : ∀ tc, (∃ cost, WalkTo edgeTrees myself tc cost) →
      IsLeast {cost | WalkTo edgeTrees myself tc cost} (final.pathCost tc).toNat
  broken : ∀ tc, (¬∃ cost, WalkTo edgeTrees myself tc cost) → final.pathCost tc = routeCostBroken
  mem_pathList : ∀ tc, tc ∈ final.pathList ↔ ∃ cost, WalkTo edgeTrees myself tc cost
  nodup : final.pathList.Nodup
  sorted : final.pathList.Pairwise fun left right => final.pathCost left ≤ final.pathCost right

/-- The sums of simple walks stay below `ROUTE_COST_BROKEN`. -/
def SimpleSumsBelow (myself : V) : Prop := ∀ visited cost,
    SimpleWalk (usableSteps edgeTrees) myself visited cost → cost < 2 ^ 32 - 1

/-- The sum of a simple walk and one more usable edge at its end, which may
lead back to a vertex of the walk, does not wrap around. -/
def NextSumsFit (myself : V) : Prop := ∀ visited cost,
    SimpleWalk (usableSteps edgeTrees) myself visited cost →
      ∀ step ∈ usableSteps edgeTrees (visited.getLastD myself), cost + step.2 < 2 ^ 32

end

theorem NextSumsFit.cheapest (nextSums : NextSumsFit edgeTrees myself) :
    CheapestSumsFit edgeTrees myself :=
  fun visited cost cheapest _ => nextSums visited cost cheapest.simple

section

variable (invariant : RoundInvariant edgeTrees myself preset st) (ended : st.candTree = [])
  (simpleSums : SimpleSumsBelow edgeTrees myself)
include invariant ended simpleSums

private theorem RoundInvariant.mem_pathList_of_walk
    (walk : Walk (usableSteps edgeTrees) myself visited cost) :
    visited.getLastD myself ∈ st.pathList := by
  have labelled := invariant.labelled
  rw [ended, append_nil] at labelled
  induction walk with
  | nil =>
    refine (labelled myself).mpr ?_
    rw [invariant.ownCost]
    decide
  | @snoc visited cost next weight _ step ih =>
    rw [getLastD_concat]
    obtain ⟨route, described⟩ := invariant.described _ ((labelled _).mp ih)
    by_cases isVisited : next ∈ myself :: route
    · rcases described.inner next isVisited with isSettled | rfl
      · exact isSettled
      · exact ih
    -- a new vertex makes the simple walk longer, and its sum is a bound
    · have longer : SimpleWalk (usableSteps edgeTrees) myself (route ++ [next])
            ((st.pathCost (visited.getLastD myself)).toNat + weight) := by
        constructor
        case walk =>
          refine described.simple.walk.snoc ?_
          rw [described.ends]
          exact step
        case nodup =>
          rw [← cons_append]
          exact nodup_append.mpr
              ⟨described.simple.nodup, nodup_singleton next,
                fun vertex isOld other isNew same =>
                  isVisited (mem_singleton.mp isNew ▸ same ▸ isOld)⟩
      have relaxed := invariant.relaxed _ ih (next, weight) step
      refine (labelled next).mpr ?_
      rw [UInt32.lt_iff_toNat_lt]
      exact relaxed.trans_lt (simpleSums _ _ longer)

/-- What the invariant says of the vertices once the run has ended. -/
theorem RoundInvariant.shortestPaths : ShortestPaths edgeTrees myself st := by
  have labelled := invariant.labelled
  have nodup := invariant.nodup
  have sorted := invariant.sorted
  rw [ended, append_nil] at labelled nodup sorted
  have reached : ∀ tc, tc ∈ st.pathList → WalkTo edgeTrees myself tc (st.pathCost tc).toNat := by
    intro tc isSettled
    obtain ⟨visited, described⟩ := invariant.described tc ((labelled tc).mp isSettled)
    exact ⟨visited, described.simple.walk, described.ends⟩
  have settled : ∀ tc, tc ∈ st.pathList ↔ ∃ cost, WalkTo edgeTrees myself tc cost := by
    intro tc
    constructor
    · exact fun isSettled => ⟨_, reached tc isSettled⟩
    · rintro ⟨cost, visited, walk, rfl⟩
      exact invariant.mem_pathList_of_walk ended simpleSums walk
  constructor
  case least =>
    intro tc hasWalk
    refine ⟨reached tc ((settled tc).mpr hasWalk), ?_⟩
    rintro cost ⟨visited, walk, rfl⟩
    exact invariant.pathCost_le_cost (.inr (.inr ended)) walk rfl
  case broken =>
    intro tc noWalk
    have notBelow : ¬st.pathCost tc < routeCostBroken := by
      rw [← labelled tc, settled tc]
      exact noWalk
    exact UInt32.le_antisymm (le_routeCostBroken _) (UInt32.not_lt.mp notBelow)
  case mem_pathList => exact settled
  case nodup => exact nodup
  case sorted => exact sorted

end

/-- The run ends with the shortest paths, in at most one round for each
vertex. -/
theorem olsrSpfRunFull_shortestPaths [DecidableEq V] [Fintype V] (edgeTrees : EdgeTrees V)
    (myself : V) (preset : V → Option Link) (simpleSums : SimpleSumsBelow edgeTrees myself)
    (nextSums : NextSumsFit edgeTrees myself) (fuel : Nat) (enough : Fintype.card V < fuel) :
    ∃ final, olsrSpfRunFull edgeTrees fuel (spfStart myself preset) = some final ∧
      ShortestPaths edgeTrees myself final := by
  have invariant := RoundInvariant.spfStart edgeTrees myself preset
  obtain ⟨final, runEq, finalInvariant, ended⟩ :=
    invariant.olsrSpfRunFull fuel (by simpa [spfStart] using enough)
      (invariant.runFits nextSums.cheapest fuel)
  exact ⟨final, runEq, finalInvariant.shortestPaths ended simpleSums⟩

theorem weight_le_of_mem_usableSteps
    {tc : V} {step : V × Nat} (isStep : step ∈ usableSteps edgeTrees tc) : step.2 ≤ 2 ^ 22 - 1 := by
  obtain ⟨edge, -, edgeStep⟩ := mem_usableSteps_iff.mp isStep
  obtain ⟨-, below, weightEq⟩ := SpfEdge.mem_step?_iff.mp edgeStep
  have bound : edge.cost.toNat < 2 ^ 22 := UInt32.lt_iff_toNat_lt.mp below
  omega

/-- Among at most 1024 vertices no sum comes near the end of the range. -/
theorem sum_lt_of_card_le [Fintype V] (small : Fintype.card V ≤ 1024)
    (simple : SimpleWalk (usableSteps edgeTrees) myself visited cost) :
    cost + (2 ^ 22 - 1) < 2 ^ 32 - 1 := by
  have costLe := simple.walk.cost_le fun _ _ isStep => weight_le_of_mem_usableSteps isStep
  have short := simple.length_lt_card
  omega

private theorem simpleSumsBelow_of_card_le [Fintype V] (small : Fintype.card V ≤ 1024) :
    SimpleSumsBelow edgeTrees myself := by
  intro visited cost simple
  have := sum_lt_of_card_le small simple
  omega

theorem nextSumsFit_of_card_le [Fintype V] (small : Fintype.card V ≤ 1024) :
    NextSumsFit edgeTrees myself := by
  intro visited cost simple step isStep
  have := sum_lt_of_card_le small simple
  have := weight_le_of_mem_usableSteps isStep
  omega

/-- Three hosts; the edge from the first to the second is dearer than the way
over the third. -/
def triangle : EdgeTrees (Fin 3)
  | 0 => [⟨some 1, 5⟩, ⟨some 2, 1⟩]
  | 1 => [⟨some 0, 5⟩, ⟨some 2, 2⟩]
  | 2 => [⟨some 0, 1⟩, ⟨some 1, 2⟩]

theorem olsrSpfRunFull_triangle : SimpleSumsBelow triangle 0 ∧ NextSumsFit triangle 0 ∧ ∃ final,
        olsrSpfRunFull triangle 4 (spfStart 0 fun _ => (none : Option Unit)) = some final ∧
        ShortestPaths triangle 0 final :=
  have simpleSums := simpleSumsBelow_of_card_le (by decide)
  have nextSums := nextSumsFit_of_card_le (by decide)
  ⟨simpleSums, nextSums,
    olsrSpfRunFull_shortestPaths triangle 0 _ simpleSums nextSums 4 (by decide)⟩

/-! ## A sum that wraps around -/

/-- An edge with an inverse leads to a vertex that has an edge back. -/
def InversesConsistent (edgeTrees : EdgeTrees V) : Prop :=
  ∀ tc, ∀ edge ∈ edgeTrees tc, ∀ newTc ∈ edge.inv, ∃ back ∈ edgeTrees newTc, back.inv = some tc

def forwardEdge (host : Fin 1025) : List (SpfEdge (Fin 1025)) :=
  if below : host.val + 1 < 1025 then
    [⟨some ⟨host.val + 1, below⟩, 4194303⟩]
  else
    []

/-- The edge from a host of the line to the one before.  All but the last are
broken. -/
def backwardEdge (host : Fin 1025) : List (SpfEdge (Fin 1025)) :=
  if host.val = 0 then
    []
  else
    [⟨some ⟨host.val - 1, by omega⟩,
      if host.val = 1024 then 2000 else linkCostBroken⟩]

def line : EdgeTrees (Fin 1025) := fun host => backwardEdge host ++ forwardEdge host

/-- The costs on the line when the vertices up to `count` are labelled. -/
def lineState (count : Fin 1025) (pathList : List (Fin 1025)) : SpfState (Fin 1025) Unit where
  pathCost := fun host =>
    if host ≤ count then
      UInt32.ofNat (host.val * 4194303)
    else
      routeCostBroken
  nextHop := fun _ => none
  hops := fun host => if host ≤ count then UInt8.ofNat host.val else 0
  candTree := [count]
  pathList := pathList

private theorem inversesConsistent_line : InversesConsistent line := by
  rintro host edge edgeMem newTc isInv
  rcases mem_append.mp edgeMem with isBack | isForward
  · unfold backwardEdge at isBack
    split at isBack
    · cases isBack
    next notFirst =>
      obtain rfl := mem_singleton.mp isBack
      obtain rfl : (⟨host.val - 1, by omega⟩ : Fin 1025) = newTc := some.inj isInv
      refine ⟨⟨some host, 4194303⟩, mem_append_right _ ?_, rfl⟩
      have below : host.val - 1 + 1 < 1025 := by omega
      have same : (⟨host.val - 1 + 1, below⟩ : Fin 1025) = host := by
        apply Fin.ext
        simp only
        omega
      unfold forwardEdge
      rw [dif_pos below, same]
      exact mem_singleton_self _
  · unfold forwardEdge at isForward
    split at isForward
    next below =>
      obtain rfl := mem_singleton.mp isForward
      obtain rfl : (⟨host.val + 1, below⟩ : Fin 1025) = newTc := some.inj isInv
      unfold line backwardEdge
      simp
    · cases isForward

private theorem usableSteps_line {host : Fin 1025} {step : Fin 1025 × Nat}
    (isStep : step ∈ usableSteps line host) :
    step.1.val = host.val + 1 ∧ step.2 = 4194303 ∨ host.val = 1024 ∧ step.1.val = 1023 := by
  obtain ⟨edge, edgeMem, edgeStep⟩ := mem_usableSteps_iff.mp isStep
  obtain ⟨isInv, below, weightEq⟩ := SpfEdge.mem_step?_iff.mp edgeStep
  rcases mem_append.mp edgeMem with isBack | isForward
  · right
    unfold backwardEdge at isBack
    split at isBack
    · cases isBack
    next notFirst =>
      obtain rfl := mem_singleton.mp isBack
      have target := congrArg Fin.val (some.inj isInv)
      split at below
      next isLast =>
        simp only [isLast] at target
        exact ⟨isLast, target.symm⟩
      · exact absurd below (UInt32.lt_irrefl _)
  · left
    unfold forwardEdge at isForward
    split at isForward
    next inLine =>
      obtain rfl := mem_singleton.mp isForward
      have target := congrArg Fin.val (some.inj isInv)
      exact ⟨target.symm, weightEq.symm⟩
    · cases isForward

/-- A walk on the line that visits no vertex twice goes forward. -/
theorem simpleWalk_line {visited : List (Fin 1025)}
    (walk : Walk (usableSteps line) 0 visited cost) : ((0 : Fin 1025) :: visited).Nodup →
      (visited.getLastD 0).val = visited.length ∧ cost = visited.length * 4194303 ∧
      ∀ host : Fin 1025, host.val ≤ visited.length → host ∈ (0 : Fin 1025) :: visited := by
  induction walk with
  | nil =>
    intro _
    refine ⟨rfl, rfl, fun host isFirst => ?_⟩
    exact mem_singleton.mpr (Fin.ext (Nat.le_zero.mp isFirst))
  | @snoc visited cost next weight _ step ih =>
    intro nodup
    rw [← cons_append] at nodup
    obtain ⟨visitedNodup, -, apart⟩ := nodup_append.mp nodup
    obtain ⟨atEnd, costEq, all⟩ := ih visitedNodup
    rw [getLastD_concat, length_append, length_singleton]
    rcases usableSteps_line step with ⟨isNext, weightEq⟩ | ⟨isLast, isBack⟩
    · simp only at isNext weightEq
      refine ⟨by omega, by omega, fun host isBelow => ?_⟩
      rw [← cons_append]
      by_cases isNew : host.val = visited.length + 1
      · have same : host = next := Fin.ext (by omega)
        exact mem_append_right _ (mem_singleton.mpr same)
      · exact mem_append_left _ (all host (by omega))
    · have isVisited := all next (by simp only at isBack; omega)
      exact absurd rfl (apart next isVisited next (mem_singleton_self next))

private theorem simpleSumsBelow_line : SimpleSumsBelow line 0 := by
  intro visited cost simple
  obtain ⟨atEnd, costEq, -⟩ := simpleWalk_line simple.walk simple.nodup
  have inLine := (visited.getLastD 0).isLt
  omega

private theorem foldlM_backwardEdge {host : Fin 1025} (notLast : host.val ≠ 1024)
    (st : SpfState (Fin 1025) Unit) : (backwardEdge host).foldlM (relaxEdge host) st = some st := by
  unfold backwardEdge
  split
  · rfl
  · rw [foldlM_cons]
    rfl

variable {host next : Fin 1025}

theorem lineCost_succ (isNext : next.val = host.val + 1) :
    UInt32.ofNat (host.val * 4194303) + 4194303 = UInt32.ofNat (next.val * 4194303) := by
  rw [isNext, Nat.succ_mul, UInt32.ofNat_add]
  rfl

theorem lineCost_lt (host : Fin 1025) : UInt32.ofNat (host.val * 4194303) < routeCostBroken := by
  have inLine := host.isLt
  have inRange : host.val * 4194303 < UInt32.size := by
    change _ < 4294967296
    omega
  rw [UInt32.lt_iff_toNat_lt, UInt32.toNat_ofNat_of_lt' inRange]
  change _ < 4294967295
  omega

theorem moveToPathList_line (isNext : next.val = host.val + 1) (pathList : List (Fin 1025)) :
    moveToPathList
        (improvePath (lineState host pathList) host next
          (UInt32.ofNat (next.val * 4194303)) [host]) host =
      some (lineState next (pathList ++ [host])) := by
  have inRange : ∀ index : Fin 1025, index.val * 4194303 < UInt32.size := by
    intro index
    change _ < 4294967296
    omega
  have floor : UInt32.ofNat (host.val * 4194303) ≤ UInt32.ofNat (next.val * 4194303) := by
    rw [UInt32.le_iff_toNat_le, UInt32.toNat_ofNat_of_lt' (inRange next),
      UInt32.toNat_ofNat_of_lt' (inRange host)]
    omega
  have labelled : ∀ index : Fin 1025, index ≠ next → (index ≤ host ↔ index ≤ next) := by
    intro index isOther
    have apart : index.val ≠ next.val := fun same => isOther (Fin.ext same)
    rw [Fin.le_def, Fin.le_def]
    omega
  have costs : Function.update (lineState host pathList).pathCost next
          (UInt32.ofNat (next.val * 4194303)) =
        (lineState next (pathList ++ [host])).pathCost := by
    funext index
    by_cases isNew : index = next
    · subst isNew
      simp [lineState]
    · simp [lineState, isNew, labelled index isNew]
  have hops : Function.update (lineState host pathList).hops next
          ((lineState host pathList).hops host + 1) =
        (lineState next (pathList ++ [host])).hops := by
    funext index
    by_cases isNew : index = next
    · subst isNew
      simp [lineState, isNext, UInt8.ofNat_add]
    · simp [lineState, isNew, labelled index isNew]
  have tree : olsrSpfAddCandTree (lineState next (pathList ++ [host])).pathCost [host]
        next = [host, next] := by
    have below : host ≤ next := by
      rw [Fin.le_def]
      omega
    rw [olsrSpfAddCandTree_cons [] (by simpa [lineState, below] using floor)]
    rfl
  simp only [moveToPathList, improvePath, costs, hops, tree,
    olsrSpfDelCandTree, mem_cons_self, if_true, erase_cons_head, map_some]
  rfl

theorem lineState_pathCost_of_le {count : Fin 1025} (labelled : host ≤ count)
    (pathList : List (Fin 1025)) :
    (lineState count pathList).pathCost host = UInt32.ofNat (host.val * 4194303) :=
  if_pos labelled

theorem lineState_pathCost_of_not_le {count : Fin 1025} (unlabelled : ¬host ≤ count)
    (pathList : List (Fin 1025)) : (lineState count pathList).pathCost host = routeCostBroken :=
  if_neg unlabelled

section

variable (isNext : next.val = host.val + 1)
include isNext

theorem relaxEdge_forward (pathList : List (Fin 1025)) :
    relaxEdge host (lineState host pathList) ⟨some next, 4194303⟩ = some
        (improvePath (lineState host pathList) host next
          (UInt32.ofNat (next.val * 4194303)) [host]) := by
  have unlabelled : ¬next ≤ host := by
    rw [Fin.le_def]
    omega
  have dropEq : dropCandidate (lineState host pathList) next = some [host] := by
    unfold dropCandidate
    rw [lineState_pathCost_of_not_le unlabelled, if_neg (UInt32.lt_irrefl _)]
    rfl
  have usable : (4194303 : UInt32) < linkCostBroken := by decide
  have relaxEq : relaxEdge host (lineState host pathList) ⟨some next, 4194303⟩ = _ :=
    relaxEdge_of_usable host _ rfl usable
  simp only at relaxEq
  rw [relaxEq, lineState_pathCost_of_le le_rfl, lineCost_succ isNext,
    lineState_pathCost_of_not_le unlabelled, if_pos (lineCost_lt next), dropEq, map_some]

theorem forwardEdge_eq : forwardEdge host = [⟨some next, 4194303⟩] := by
  have below : host.val + 1 < 1025 := by omega
  have nextEq : (⟨host.val + 1, below⟩ : Fin 1025) = next := Fin.ext isNext.symm
  unfold forwardEdge
  rw [dif_pos below, nextEq]

/-- A round settles one host of the line and labels the next. -/
theorem spfRound_line (pathList : List (Fin 1025)) :
    spfRound line (lineState host pathList) host = some (lineState next (pathList ++ [host])) := by
  have notLast : host.val ≠ 1024 := by omega
  have relaxEq : olsrSpfRelax line (lineState host pathList) host = some
          (improvePath (lineState host pathList) host next
            (UInt32.ofNat (next.val * 4194303)) [host]) := by
    unfold olsrSpfRelax line
    rw [foldlM_append, foldlM_backwardEdge notLast, forwardEdge_eq isNext,
      bind_eq_bind, bind_some, foldlM_cons, relaxEdge_forward isNext]
    rfl
  unfold spfRound
  rw [relaxEq, bind_some]
  exact moveToPathList_line isNext pathList

end

/-- The sum of the last host and its backward edge wraps around, so that the
host before it, which is settled, looks like a candidate with a dearer path. -/
theorem relaxEdge_line_last {last before : Fin 1025} (isLast : last.val = 1024)
    (isBefore : before.val = 1023) (pathList : List (Fin 1025)) :
    relaxEdge last (lineState last pathList) ⟨some before, 2000⟩ = none := by
  have below : before ≤ last := by
    rw [Fin.le_def]
    omega
  have other : before ≠ last := by
    rintro rfl
    omega
  have usable : (2000 : UInt32) < linkCostBroken := by decide
  have wraps : UInt32.ofNat (last.val * 4194303) + 2000 < UInt32.ofNat (before.val * 4194303) := by
    rw [isLast, isBefore]
    decide
  have dropEq : dropCandidate (lineState last pathList) before = none := by
    unfold dropCandidate olsrSpfDelCandTree
    rw [lineState_pathCost_of_le below, if_pos (lineCost_lt before)]
    exact if_neg (fun isMem => other (mem_singleton.mp isMem))
  have relaxEq : relaxEdge last (lineState last pathList) ⟨some before, 2000⟩ = _ :=
    relaxEdge_of_usable last _ rfl usable
  simp only at relaxEq
  rw [relaxEq, lineState_pathCost_of_le le_rfl,
    lineState_pathCost_of_le below, if_pos wraps, dropEq, map_none]

private theorem spfRound_line_last {last : Fin 1025} (isLast : last.val = 1024)
    (pathList : List (Fin 1025)) : spfRound line (lineState last pathList) last = none := by
  have notFirst : last.val ≠ 0 := by omega
  have atEnd : ¬last.val + 1 < 1025 := by omega
  have isBefore : last.val - 1 = 1023 := by omega
  have edgesEq : line last = [⟨some ⟨last.val - 1, by omega⟩, 2000⟩] := by
    unfold line backwardEdge forwardEdge
    rw [if_neg notFirst, dif_neg atEnd, if_pos isLast, append_nil]
  unfold spfRound olsrSpfRelax
  rw [edgesEq, foldlM_cons, relaxEdge_line_last isLast isBefore]
  rfl

private theorem olsrSpfRunFull_lineState
    (fuel : Nat) : ∀ (host : Fin 1025) (pathList : List (Fin 1025)),
      olsrSpfRunFull line fuel (lineState host pathList) = none := by
  induction fuel with
  | zero => exact fun _ _ => rfl
  | succ fuel ih =>
    intro host pathList
    change (spfRound line (lineState host pathList) host).bind (olsrSpfRunFull line fuel) = none
    by_cases isLast : host.val = 1024
    · rw [spfRound_line_last isLast]
      rfl
    · have below : host.val + 1 < 1025 := by omega
      let next : Fin 1025 := ⟨host.val + 1, below⟩
      have isNext : next.val = host.val + 1 := rfl
      rw [spfRound_line isNext]
      exact ih _ _

theorem lineState_zero : lineState 0 [] = spfStart 0 fun _ => none := by
  unfold lineState spfStart
  congr 1
  · funext host
    by_cases isFirst : host = 0
    · subst isFirst
      rfl
    · simp [isFirst]
  · funext host
    by_cases isFirst : host = 0
    · subst isFirst
      rfl
    · simp [isFirst]

/-- On the line no simple walk reaches `ROUTE_COST_BROKEN`, and the run has no
result after any number of rounds: it takes a settled host off the candidate
tree. -/
theorem olsrSpfRunFull_line : InversesConsistent line ∧ SimpleSumsBelow line 0 ∧ ∀ fuel,
        olsrSpfRunFull line fuel (spfStart 0 fun _ => (none : Option Unit)) = none := by
  refine ⟨inversesConsistent_line, simpleSumsBelow_line, fun fuel => ?_⟩
  rw [← lineState_zero]
  exact olsrSpfRunFull_lineState fuel 0 []

end QosOlsr.Spf
