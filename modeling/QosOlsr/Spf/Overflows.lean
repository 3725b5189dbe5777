import QosOlsr.Spf.ShortestPaths

/-!
# Wrapping costs and hop counts

No sum wraps around while `olsr_spf_run_full` runs, exactly if that is so for
every cheapest path and one more edge, and no hop count if these are short
enough.  Nothing in the code sees to that: on a long line of hosts both numbers
wrap.
-/

namespace QosOlsr.Spf

open Library List Option

universe u w

variable {V : Type u} {Link : Type w}

private theorem RoundInvariant.mem_pathList_of_cost_lt {st : SpfState V Link}
    (invariant : RoundInvariant edgeTrees myself preset st) (ended : st.candTree = [])
    {visited : List V} {cost : Nat} (walk : Walk (usableSteps edgeTrees) myself visited cost)
    (below : cost < 2 ^ 32 - 1) : visited.getLastD myself ∈ st.pathList := by
  have isLabelled : st.pathCost (visited.getLastD myself) < routeCostBroken :=
    UInt32.lt_iff_toNat_lt.mpr
      ((invariant.pathCost_le_cost (.inr (.inr ended)) walk rfl).trans_lt below)
  simpa [ended] using (invariant.labelled _).mpr isLabelled

variable [DecidableEq V]

/-- No increment `tc->hops + 1` wraps around while the run relaxes the edges of
its best candidates.  The increment is made for an edge that leads to a vertex
with a dearer path; that vertex is then on the candidate tree. -/
def HopsFit (edgeTrees : EdgeTrees V) : Nat → SpfState V Link → Prop
  | 0, _ => True
  | fuel + 1, st =>
    ∀ tc ∈ st.candTree.head?,
      (∀ step ∈ usableSteps edgeTrees tc,
        ((st.pathCost tc).toNat + step.2) % 2 ^ 32 < (st.pathCost step.1).toNat →
          (st.hops tc).toNat + 1 < 2 ^ 8) ∧
      ∀ next ∈ spfRound edgeTrees st tc, HopsFit edgeTrees fuel next

/-- A cheapest walk and one more edge to a vertex that it does not visit are at
most 255 edges. -/
def CheapestWalksShort (edgeTrees : EdgeTrees V) (myself : V) : Prop :=
  ∀ visited cost, CheapestWalk edgeTrees myself visited cost →
    ∀ step ∈ usableSteps edgeTrees (visited.getLastD myself), step.1 ∉ myself :: visited →
      visited.length + 1 < 2 ^ 8

variable {edgeTrees : EdgeTrees V} {myself : V} {preset : V → Option Link}

section Rounds

variable {st : SpfState V Link} {tc : V} (invariant : RoundInvariant edgeTrees myself preset st)
include invariant

omit [DecidableEq V] in
/-- The path over the best candidate to a vertex that gets a better cost is
simple, so the hop count of the candidate has room. -/
theorem RoundInvariant.hops_lt (short : CheapestWalksShort edgeTrees myself)
    (isBest : tc ∈ st.candTree.head?) {step : V × Nat} (isStep : step ∈ usableSteps edgeTrees tc)
    (cheaper : (st.pathCost tc).toNat + step.2 < (st.pathCost step.1).toNat) :
    (st.hops tc).toNat + 1 < 2 ^ 8 := by
  obtain ⟨visited, described, cheapest⟩ := invariant.cheapestWalk (.inr isBest)
  -- The vertices on the way are settled or the candidate, and none of them has
  -- a dearer path.
  have notVisited : step.1 ∉ myself :: visited := by
    intro isVisited
    have notDearer : (st.pathCost step.1).toNat ≤ (st.pathCost tc).toNat := by
      rcases described.inner step.1 isVisited with isSettled | isTc
      · exact UInt32.le_iff_toNat_le.mp ((pairwise_append.mp invariant.sorted).2.2 _ isSettled tc
          (mem_of_head? isBest))
      · rw [isTc]
    omega
  have room := short visited _ cheapest step (described.ends.symm ▸ isStep) notVisited
  have hops : (st.hops tc).toNat = visited.length := by
    rw [described.hops]
    apply UInt8.toNat_ofNat_of_lt'
    change _ < 256
    omega
  omega

end Rounds

theorem RoundInvariant.hopsFit (sums : CheapestSumsFit edgeTrees myself)
    (short : CheapestWalksShort edgeTrees myself) (fuel : Nat) : ∀ {st : SpfState V Link},
      RoundInvariant edgeTrees myself preset st → HopsFit edgeTrees fuel st := by
  induction fuel with
  | zero => exact fun _ => trivial
  | succ fuel ih =>
    intro st invariant tc isBest
    have roundFits := invariant.sums_lt sums isBest
    constructor
    · intro step isStep cheaper
      rw [Nat.mod_eq_of_lt (roundFits step isStep)] at cheaper
      exact invariant.hops_lt short isBest isStep cheaper
    · intro next roundEq
      obtain ⟨other, otherEq, otherInvariant, -⟩ := invariant.spfRound isBest roundFits
      cases otherEq.symm.trans roundEq
      exact ih otherInvariant

/-! ## The sums of a run -/

def SettledSums (edgeTrees : EdgeTrees V) (st : SpfState V Link) : Prop :=
  ∀ tc ∈ st.pathList, ∀ step ∈ usableSteps edgeTrees tc, (st.pathCost tc).toNat + step.2 < 2 ^ 32

/-- The sums that a run has formed without wrapping are those of the settled
vertices, whose costs do not change any more. -/
theorem RoundInvariant.settledSums [Fintype V] (fuel : Nat) :
    ∀ {st : SpfState V Link}, RoundInvariant edgeTrees myself preset st → Fintype.card V <
      st.pathList.length + fuel → RunFits edgeTrees fuel st → SettledSums edgeTrees st →
      ∃ final : SpfState V Link, RoundInvariant edgeTrees myself preset final ∧
      final.candTree = [] ∧ SettledSums edgeTrees final := by
  induction fuel with
  | zero =>
    intro st invariant enough
    exact absurd enough (Nat.not_lt.mpr (nodup_append.mp invariant.nodup).1.length_le_card)
  | succ fuel ih =>
    intro st invariant enough fits settled
    cases treeEq : st.candTree with
    | nil => exact ⟨st, invariant, treeEq, settled⟩
    | cons tc rest =>
      have isBest : tc ∈ st.candTree.head? := by simp [treeEq]
      obtain ⟨roundFits, laterFits⟩ := fits tc isBest
      obtain ⟨next, roundEq, nextInv, pathListEq⟩ := invariant.spfRound isBest roundFits
      refine ih nextInv (by simp [pathListEq]; omega) (laterFits next roundEq) ?_
      intro vertex isSettled
      have wasEarly : vertex ∈ st.pathList ∨ vertex ∈ st.candTree.head? := by
        rw [pathListEq] at isSettled
        simpa [treeEq, eq_comm] using isSettled
      have sameCost : (next.pathCost vertex).toNat = (st.pathCost vertex).toNat := by
        obtain ⟨_, described, cheapest⟩ := invariant.cheapestWalk wasEarly
        obtain ⟨_, nextDescribed, nextCheapest⟩ := nextInv.cheapestWalk (.inl isSettled)
        have sameEnd := described.ends.trans nextDescribed.ends.symm
        exact (nextCheapest.least _ _ cheapest.simple.walk sameEnd).antisymm
          (cheapest.least _ _ nextCheapest.simple.walk sameEnd.symm)
      rw [sameCost]
      rcases wasEarly with before | isHead
      · exact settled vertex before
      · cases isBest.symm.trans isHead
        exact roundFits

private theorem cheapestSumsFit_of_runFits [Fintype V]
    (fits : RunFits edgeTrees (Fintype.card V + 1) (spfStart myself preset)) :
    CheapestSumsFit edgeTrees myself := by
  have invariant := RoundInvariant.spfStart edgeTrees myself preset
  obtain ⟨final, finalInvariant, ended, settled⟩ :=
    invariant.settledSums (Fintype.card V + 1) (by simp [spfStart]) fits
      (by simp [SettledSums, spfStart])
  intro visited cost cheapest below step isStep
  have isSettled := finalInvariant.mem_pathList_of_cost_lt ended cheapest.simple.walk below
  obtain ⟨_, described, final_cheapest⟩ := finalInvariant.cheapestWalk (.inl isSettled)
  have costLe := cheapest.least _ _ final_cheapest.simple.walk described.ends
  have sum := settled _ isSettled step isStep
  omega

def mesh (count : Nat) : EdgeTrees (Fin count) :=
  fun _ => (finRange count).map fun other => ⟨some other, 1⟩

section Mesh

variable {count : Nat} {start host : Fin count} {visited : List (Fin count)} {cost : Nat}

theorem mem_usableSteps_mesh {step : Fin count × Nat} :
    step ∈ usableSteps (mesh count) host ↔ step.2 = 1 := by
  simp only [mem_usableSteps_iff, mesh, List.mem_map, mem_finRange, true_and]
  constructor
  · rintro ⟨_, ⟨other, rfl⟩, isStep⟩
    exact (SpfEdge.mem_step?_iff.mp isStep).2.2.symm
  · intro isOne
    have usable : (1 : UInt32) < linkCostBroken := by decide
    exact ⟨_, ⟨step.1, rfl⟩, SpfEdge.mem_step?_iff.mpr ⟨rfl, usable, isOne.symm⟩⟩

private theorem length_eq_cost_mesh (walk : Walk (usableSteps (mesh count)) start visited cost) :
    visited.length = cost := by
  induction walk with
  | nil => rfl
  | snoc _ step ih =>
    have isOne := mem_usableSteps_mesh.mp step
    simp only at isOne
    rw [length_append, length_singleton, ih, isOne]

theorem cost_le_one_of_cheapest (cheapest : CheapestWalk (mesh count) start visited cost) :
    cost ≤ 1 := by
  have direct : Walk (usableSteps (mesh count)) start ([] ++ [visited.getLastD start]) (0 + 1) :=
    .snoc .nil (mem_usableSteps_mesh.mpr rfl)
  exact cheapest.least _ _ direct (by simp)

end Mesh

def dearBackwardEdge (host : Fin 1025) : List (SpfEdge (Fin 1025)) :=
  (backwardEdge host).map fun edge => { edge with cost := 4194303 }

variable {host : Fin 1025}

theorem dearBackwardEdge_first (isFirst : host.val = 0) : dearBackwardEdge host = [] := by
  rw [dearBackwardEdge, backwardEdge, if_pos isFirst, map_nil]

theorem dearBackwardEdge_of_before {before : Fin 1025} (isBefore : host.val = before.val + 1) :
    dearBackwardEdge host = [⟨some before, 4194303⟩] := by
  have notFirst : host.val ≠ 0 := by omega
  have beforeEq : (⟨host.val - 1, by omega⟩ : Fin 1025) = before := by
    apply Fin.ext
    simp only
    omega
  rw [dearBackwardEdge, backwardEdge, if_neg notFirst, beforeEq, map_singleton]

theorem exists_before (notFirst : host.val ≠ 0) : ∃ before : Fin 1025, host.val = before.val + 1 :=
  ⟨⟨host.val - 1, by omega⟩, by simp only; omega⟩

def dearLine : EdgeTrees (Fin 1025) := fun host => dearBackwardEdge host ++ forwardEdge host

theorem mem_dearLine_iff {edge : SpfEdge (Fin 1025)} : edge ∈ dearLine host ↔ ∃ other : Fin 1025,
      edge = ⟨some other, 4194303⟩ ∧ (other.val = host.val + 1 ∨ host.val = other.val + 1) := by
  unfold dearLine forwardEdge
  constructor
  · intro isEdge
    rcases mem_append.mp isEdge with isBack | isForward
    · by_cases isFirst : host.val = 0
      · rw [dearBackwardEdge_first isFirst] at isBack
        cases isBack
      · obtain ⟨before, isBefore⟩ := exists_before isFirst
        rw [dearBackwardEdge_of_before isBefore] at isBack
        exact ⟨before, mem_singleton.mp isBack, .inr isBefore⟩
    · split at isForward
      · exact ⟨_, mem_singleton.mp isForward, .inl rfl⟩
      · cases isForward
  · rintro ⟨other, rfl, isNext | isBefore⟩
    · have below : host.val + 1 < 1025 := by omega
      have otherEq : (⟨host.val + 1, below⟩ : Fin 1025) = other := Fin.ext isNext.symm
      rw [dif_pos below, otherEq]
      exact mem_append_right _ (mem_singleton_self _)
    · rw [dearBackwardEdge_of_before isBefore]
      exact mem_append_left _ (mem_singleton_self _)

theorem mem_usableSteps_dearLine {other : Fin 1025}
    (adjacent : other.val = host.val + 1 ∨ host.val = other.val + 1) :
    (other, 4194303) ∈ usableSteps dearLine host :=
  mem_usableSteps_iff.mpr ⟨_, mem_dearLine_iff.mpr ⟨other, rfl, adjacent⟩, rfl⟩

theorem lineCost_toNat (host : Fin 1025) :
    (UInt32.ofNat (host.val * 4194303)).toNat = host.val * 4194303 := by
  apply UInt32.toNat_ofNat_of_lt'
  change _ < 4294967296
  omega

/-- A host before the last offers the one behind it no better path. -/
theorem foldlM_dearBackwardEdge (notLast : host.val ≠ 1024) (pathList : List (Fin 1025)) :
    (dearBackwardEdge host).foldlM (relaxEdge host) (lineState host pathList) =
      some (lineState host pathList) := by
  by_cases isFirst : host.val = 0
  · rw [dearBackwardEdge_first isFirst]
    rfl
  · obtain ⟨before, isBefore⟩ := exists_before isFirst
    rw [dearBackwardEdge_of_before isBefore]
    have below : before ≤ host := by
      rw [Fin.le_def]
      omega
    have usable : (4194303 : UInt32) < linkCostBroken := by decide
    have relaxEq : relaxEdge host (lineState host pathList) ⟨some before, 4194303⟩ = _ :=
      relaxEdge_of_usable host _ rfl usable
    have dearer : ¬ (lineState host pathList).pathCost host + 4194303 <
          (lineState host pathList).pathCost before := by
      let next : Fin 1025 := ⟨host.val + 1, by omega⟩
      have isNext : next.val = host.val + 1 := rfl
      rw [lineState_pathCost_of_le le_rfl, lineState_pathCost_of_le below, lineCost_succ isNext,
        UInt32.lt_iff_toNat_lt, lineCost_toNat, lineCost_toNat]
      omega
    rw [foldlM_cons, relaxEq, if_neg dearer]
    rfl

theorem spfRound_dearLine {next : Fin 1025} (isNext : next.val = host.val + 1)
    (pathList : List (Fin 1025)) : spfRound dearLine (lineState host pathList) host =
      some (lineState next (pathList ++ [host])) := by
  unfold spfRound olsrSpfRelax dearLine
  rw [foldlM_append, foldlM_dearBackwardEdge (by omega), forwardEdge_eq isNext,
    bind_eq_bind, bind_some, foldlM_cons, relaxEdge_forward isNext]
  exact moveToPathList_line isNext pathList

/-- The run reaches the last host, whose sum with any edge wraps around. -/
theorem not_runFits_dearLine (fuel : Nat) : ∀ (host : Fin 1025) (pathList : List (Fin 1025)),
      1024 < host.val + fuel → ¬ RunFits dearLine fuel (lineState host pathList) := by
  induction fuel with
  | zero =>
    intro host pathList enough
    omega
  | succ fuel ih =>
    intro host pathList enough fits
    obtain ⟨sums, later⟩ := fits host rfl
    by_cases isLast : host.val = 1024
    · have isStep : ((⟨1023, by omega⟩ : Fin 1025), 4194303) ∈ usableSteps dearLine host :=
        mem_usableSteps_dearLine (.inr isLast)
      have wraps := sums _ isStep
      rw [lineState_pathCost_of_le le_rfl, lineCost_toNat, isLast] at wraps
      omega
    · let next : Fin 1025 := ⟨host.val + 1, by omega⟩
      have isNext : next.val = host.val + 1 := rfl
      exact ih next (pathList ++ [host]) (by omega) (later _ (spfRound_dearLine isNext pathList))

/-- The hop count of the host 256 edges away wraps around. -/
theorem not_hopsFit_dearLine (fuel : Nat) :
    ∀ (host : Fin 1025) (pathList : List (Fin 1025)), host.val ≤ 255 → 255 < host.val + fuel →
      ¬ HopsFit dearLine fuel (lineState host pathList) := by
  induction fuel with
  | zero =>
    intro host pathList _ enough
    omega
  | succ fuel ih =>
    intro host pathList small enough fits
    obtain ⟨hops, later⟩ := fits host rfl
    let next : Fin 1025 := ⟨host.val + 1, by omega⟩
    have isNext : next.val = host.val + 1 := rfl
    by_cases isFull : host.val = 255
    · have unlabelled : ¬ next ≤ host := by
        rw [Fin.le_def]
        omega
      have wraps := hops _ (mem_usableSteps_dearLine (.inl isNext))
      simp only [lineState_pathCost_of_le le_rfl, lineState_pathCost_of_not_le unlabelled,
        isFull] at wraps
      have full : ((lineState host pathList).hops host).toNat = 255 := by simp [lineState, isFull]
      rw [full] at wraps
      exact absurd (wraps (by decide)) (by decide)
    · exact ih next (pathList ++ [host]) (by omega) (by omega)
        (later _ (spfRound_dearLine isNext pathList))

end QosOlsr.Spf
