import QosOlsr.Spf.Candidates

/-!
# What the relaxation of a vertex keeps

The path list followed by the candidate tree is one list in non-decreasing
cost.  While a vertex is relaxed it counts as settled although it is still on
the tree.  Each vertex with a cost is described by one simple walk.
-/

namespace QosOlsr.Spf

open Library Function List Option

universe u w

variable {V : Type u} {Link : Type w} {edge : SpfEdge V} {step : V × Nat}

theorem SpfEdge.mem_step?_iff : step ∈ edge.step? ↔
      edge.inv = some step.1 ∧ edge.cost < linkCostBroken ∧ edge.cost.toNat = step.2 := by
  rcases step with ⟨newTc, weight⟩
  unfold SpfEdge.step?
  cases edge.inv with
  | none => simp
  | some target =>
    by_cases broken : linkCostBroken ≤ edge.cost
    · simp only [if_pos broken, mem_def, reduceCtorEq, false_iff]
      rintro ⟨-, below, -⟩
      exact absurd below (UInt32.not_lt.mpr broken)
    · simp [if_neg broken, UInt32.not_le.mp broken]

theorem mem_usableSteps_iff {edgeTrees : EdgeTrees V} {tc : V} :
    step ∈ usableSteps edgeTrees tc ↔ ∃ edge ∈ edgeTrees tc, step ∈ edge.step? := by
  simp [usableSteps, mem_filterMap]

theorem olsrSpfAddCandTree_perm (pathCost : V → UInt32) (tree : List V) (tc : V) :
    (olsrSpfAddCandTree pathCost tree tc).Perm (tc :: tree) :=
  perm_orderedInsert _ tc tree

/-- A new candidate comes behind a first vertex that is not dearer. -/
theorem olsrSpfAddCandTree_cons {pathCost : V → UInt32} {first tc : V} (rest : List V)
    (floor : pathCost first ≤ pathCost tc) : olsrSpfAddCandTree pathCost (first :: rest) tc =
      first :: olsrSpfAddCandTree pathCost rest tc := by
  unfold olsrSpfAddCandTree
  rw [orderedInsert_cons, if_neg (UInt32.not_lt.mpr floor)]

private theorem pairwise_olsrSpfAddCandTree {pathCost : V → UInt32} {tree : List V} (tc : V)
    (sorted : tree.Pairwise fun left right => pathCost left ≤ pathCost right) :
    (olsrSpfAddCandTree pathCost tree tc).Pairwise
      fun left right => pathCost left ≤ pathCost right := by
  induction tree with
  | nil => simp [olsrSpfAddCandTree]
  | cons first rest ih =>
    have firstLe := (pairwise_cons.mp sorted).1
    have restSorted := (pairwise_cons.mp sorted).2
    by_cases cheaper : pathCost tc < pathCost first
    · unfold olsrSpfAddCandTree
      rw [orderedInsert_cons, if_pos cheaper]
      refine pairwise_cons.mpr ⟨?_, sorted⟩
      intro other otherMem
      have tcLe : pathCost tc ≤ pathCost first := UInt32.le_of_lt cheaper
      rcases mem_cons.mp otherMem with rfl | inRest
      · exact tcLe
      · exact UInt32.le_trans tcLe (firstLe other inRest)
    · have floor : pathCost first ≤ pathCost tc := UInt32.not_lt.mp cheaper
      rw [olsrSpfAddCandTree_cons rest floor]
      refine pairwise_cons.mpr ⟨?_, ih restSorted⟩
      intro other otherMem
      have mem := (olsrSpfAddCandTree_perm pathCost rest tc).mem_iff.mp otherMem
      rcases mem_cons.mp mem with rfl | inRest
      · exact floor
      · exact firstLe other inRest

section Invariant

variable (edgeTrees : EdgeTrees V) (myself : V) (preset : V → Option Link)

/-- The neighbour loop has given every other vertex that is one usable edge
away a next hop, and ourselves none. -/
structure NeighborsPreset : Prop where
  own : preset myself = none
  neighbors : ∀ step ∈ usableSteps edgeTrees myself, step.1 ≠ myself → (preset step.1).isSome

/-- The walk over `visited` is the one that the fields of the vertex `tc`
describe.  All but its end is settled. -/
structure Describes (settled : List V) (st : SpfState V Link) (tc : V)
    (visited : List V) : Prop where
  simple : SimpleWalk (usableSteps edgeTrees) myself visited (st.pathCost tc).toNat
  ends : visited.getLastD myself = tc
  inner : ∀ vertex ∈ myself :: visited, vertex ∈ settled ∨ vertex = tc
  hops : st.hops tc = UInt8.ofNat visited.length
  nextHop :
    NeighborsPreset edgeTrees myself preset → ∀ first ∈ visited.head?, st.nextHop tc = preset first

/-- The edges of the vertices in `done` are relaxed; `settled` has one more
vertex while its edges are being relaxed; `pending` is the rest of the
candidate tree. -/
structure SpfInvariant (done settled pending : List V) (st : SpfState V Link) : Prop where
  nodup : (settled ++ pending).Nodup
  sorted : (settled ++ pending).Pairwise fun left right => st.pathCost left ≤ st.pathCost right
  labelled : ∀ tc, tc ∈ settled ++ pending ↔ st.pathCost tc < routeCostBroken
  head : (settled ++ pending).head? = some myself
  ownCost : st.pathCost myself = zeroRouteCost
  described : ∀ tc, st.pathCost tc < routeCostBroken →
      ∃ visited, Describes edgeTrees myself preset settled st tc visited
  relaxed : ∀ tc ∈ done, ∀ step ∈ usableSteps edgeTrees tc,
      (st.pathCost step.1).toNat ≤ (st.pathCost tc).toNat + step.2
  ownNextHop : st.nextHop myself = preset myself
  firstHops : NeighborsPreset edgeTrees myself preset → done = [] → st.nextHop = preset

def RoundInvariant (st : SpfState V Link) : Prop :=
  SpfInvariant edgeTrees myself preset st.pathList st.pathList st.candTree st

/-- The invariant while `tc` is relaxed.  It is still the first vertex of the
candidate tree. -/
def RelaxInvariant (tc : V) (pending : List V) (st : SpfState V Link) : Prop :=
  st.candTree = tc :: pending ∧ SpfInvariant edgeTrees myself preset st.pathList
      (st.pathList ++ [tc]) pending st

end Invariant

variable {edgeTrees : EdgeTrees V} {myself : V} {preset : V → Option Link}
  {done settled pending : List V} {st : SpfState V Link} {tc : V}

theorem SpfInvariant.pathCost_le_of_mem
    (invariant : SpfInvariant edgeTrees myself preset done (done ++ [tc]) pending st)
    {vertex : V} (isSettled : vertex ∈ done ++ [tc]) : st.pathCost vertex ≤ st.pathCost tc := by
  have sorted := (pairwise_append.mp invariant.sorted).1
  rcases mem_append.mp isSettled with inDone | isTc
  · exact (pairwise_append.mp sorted).2.2 vertex inDone tc (mem_singleton_self tc)
  · rw [mem_singleton.mp isTc]
    exact UInt32.le_refl _

private theorem SpfInvariant.eq_myself_of_done_nil
    (invariant : SpfInvariant edgeTrees myself preset [] ([] ++ [tc]) pending st) :
    tc = myself := by
  have head := invariant.head
  simpa using head

structure BetterPath (edgeTrees : EdgeTrees V) (st : SpfState V Link)
    (tc newTc : V) (newCost : UInt32) (weight : Nat) : Prop where
  step : (newTc, weight) ∈ usableSteps edgeTrees tc
  cost : newCost.toNat = (st.pathCost tc).toNat + weight
  cheaper : newCost < st.pathCost newTc

variable {newTc : V} {newCost : UInt32} {weight : Nat}

theorem BetterPath.floor (better : BetterPath edgeTrees st tc newTc newCost weight) :
    st.pathCost tc ≤ newCost := by
  rw [UInt32.le_iff_toNat_le, better.cost]
  exact Nat.le_add_right _ _

section

variable (better : BetterPath edgeTrees st tc newTc newCost weight)
  (invariant : SpfInvariant edgeTrees myself preset done (done ++ [tc]) pending st)
include better invariant

theorem BetterPath.not_mem_settled : newTc ∉ done ++ [tc] := by
  intro isSettled
  have below := UInt32.le_trans (invariant.pathCost_le_of_mem isSettled) better.floor
  exact UInt32.not_lt.mpr below better.cheaper

theorem BetterPath.ne : tc ≠ newTc := by
  rintro rfl
  exact better.not_mem_settled invariant (mem_append_right done (mem_singleton_self tc))

private theorem BetterPath.ne_myself : newTc ≠ myself := by
  rintro rfl
  have cheaper := better.cheaper
  rw [invariant.ownCost] at cheaper
  exact UInt32.not_lt.mpr UInt32.zero_le cheaper

end

private theorem Describes.simpleWalk_concat {visited : List V}
    (described : Describes edgeTrees myself preset (done ++ [tc]) st tc visited)
    (better : BetterPath edgeTrees st tc newTc newCost weight)
    (invariant : SpfInvariant edgeTrees myself preset done (done ++ [tc]) pending st) :
    SimpleWalk (usableSteps edgeTrees) myself (visited ++ [newTc]) newCost.toNat := by
  constructor
  case walk =>
    rw [better.cost]
    refine described.simple.walk.snoc ?_
    rw [described.ends]
    exact better.step
  case nodup =>
    rw [← cons_append, nodup_append]
    refine ⟨described.simple.nodup, nodup_singleton newTc, ?_⟩
    rintro vertex isVisited other isNew rfl
    rw [mem_singleton.mp isNew] at isVisited
    rcases described.inner newTc isVisited with isSettled | rfl
    · exact better.not_mem_settled invariant isSettled
    · exact better.ne invariant rfl

section Improve

variable [DecidableEq V]

@[simp]
theorem improvePath_pathCost (st : SpfState V Link) (tc newTc : V) (newCost : UInt32)
    (tree : List V) :
    (improvePath st tc newTc newCost tree).pathCost = update st.pathCost newTc newCost := rfl

@[simp]
theorem improvePath_hops (st : SpfState V Link) (tc newTc : V) (newCost : UInt32) (tree : List V) :
    (improvePath st tc newTc newCost tree).hops = update st.hops newTc (st.hops tc + 1) := rfl

theorem improvePath_nextHop_of_none (unset : st.nextHop tc = none) (newTc : V) (newCost : UInt32)
    (tree : List V) : (improvePath st tc newTc newCost tree).nextHop = st.nextHop := by
  simp [improvePath, unset]

private theorem improvePath_nextHop_self
    (isSet : (st.nextHop tc).isSome) (newTc : V) (newCost : UInt32)
    (tree : List V) : (improvePath st tc newTc newCost tree).nextHop newTc = st.nextHop tc := by
  rcases isSome_iff_exists.mp isSet with ⟨link, isLink⟩
  simp [improvePath, isLink]

theorem improvePath_nextHop_of_ne {vertex : V} (other : vertex ≠ newTc)
    (st : SpfState V Link) (tc : V) (newCost : UInt32) (tree : List V) :
    (improvePath st tc newTc newCost tree).nextHop vertex = st.nextHop vertex := by
  unfold improvePath
  cases st.nextHop tc with
  | none => rfl
  | some link => exact update_of_ne other _ _

variable {visited : List V}

private theorem Describes.improve_of_ne {vertex : V}
    (described : Describes edgeTrees myself preset settled st vertex visited)
    (other : vertex ≠ newTc) (tree : List V) :
    Describes edgeTrees myself preset settled
      (improvePath st tc newTc newCost tree) vertex visited := by
  constructor
  case simple =>
    rw [improvePath_pathCost, update_of_ne other]
    exact described.simple
  case ends => exact described.ends
  case inner => exact described.inner
  case hops =>
    rw [improvePath_hops, update_of_ne other]
    exact described.hops
  case nextHop =>
    intro isPreset first isFirst
    rw [improvePath_nextHop_of_ne other]
    exact described.nextHop isPreset first isFirst

/-- The next hop of the new path.  From ourselves it is the one that the
neighbour loop has set, from elsewhere that of the vertex being relaxed. -/
theorem Describes.nextHop_concat
    (described : Describes edgeTrees myself preset (done ++ [tc]) st tc visited)
    (invariant : SpfInvariant edgeTrees myself preset done (done ++ [tc]) pending st)
    (isPreset : NeighborsPreset edgeTrees myself preset)
    (newTc : V) (newCost : UInt32) (tree : List V) : ∀ first ∈ (visited ++ [newTc]).head?,
      (improvePath st tc newTc newCost tree).nextHop newTc = preset first := by
  cases visited with
  | nil =>
    have isMyself : myself = tc := described.ends
    have doneNil : done = [] := by
      cases done with
      | nil => rfl
      | cons first rest =>
        have head := invariant.head
        have nodup := invariant.nodup
        simp only [cons_append, head?_cons, some.injEq] at head
        rw [head, isMyself] at nodup
        simp at nodup
    rintro first isFirst
    simp only [nil_append, head?_cons, mem_def, some.injEq] at isFirst
    subst isFirst
    have unset : st.nextHop tc = none := by rw [← isMyself, invariant.ownNextHop, isPreset.own]
    rw [improvePath_nextHop_of_none unset, invariant.firstHops isPreset doneNil]
  | cons start rest =>
    rintro first isFirst
    simp only [cons_append, head?_cons, mem_def, some.injEq] at isFirst
    subst isFirst
    have nextHop := described.nextHop isPreset start rfl
    obtain ⟨_, isStep⟩ := described.simple.walk.head?_mem start rfl
    have other : start ≠ myself := by
      rintro rfl
      exact (nodup_cons.mp described.simple.nodup).1 mem_cons_self
    have isSet : (st.nextHop tc).isSome := by
      rw [nextHop]
      exact isPreset.neighbors _ isStep other
    rw [improvePath_nextHop_self isSet, nextHop]

theorem Describes.improve
    (described : Describes edgeTrees myself preset (done ++ [tc]) st tc visited)
    (better : BetterPath edgeTrees st tc newTc newCost weight)
    (invariant : SpfInvariant edgeTrees myself preset done (done ++ [tc]) pending st)
    (tree : List V) :
    Describes edgeTrees myself preset (done ++ [tc]) (improvePath st tc newTc newCost tree) newTc
      (visited ++ [newTc]) := by
  constructor
  case simple =>
    rw [improvePath_pathCost, update_self]
    exact described.simpleWalk_concat better invariant
  case ends => exact getLastD_concat
  case inner =>
    intro vertex isVisited
    rw [← cons_append] at isVisited
    rcases mem_append.mp isVisited with earlier | isNew
    · rcases described.inner vertex earlier with isSettled | rfl
      · exact Or.inl isSettled
      · exact Or.inl (mem_append_right done (mem_singleton_self vertex))
    · exact Or.inr (mem_singleton.mp isNew)
  case hops =>
    rw [improvePath_hops, update_self, described.hops,
      length_append, length_singleton, UInt8.ofNat_add]
    rfl
  case nextHop =>
    exact fun isPreset => described.nextHop_concat invariant isPreset newTc newCost tree

/-- The candidates behind the one being relaxed, when one of them gets a
better cost or a new one comes in. -/
def placeCandidate (st : SpfState V Link) (newTc : V) (newCost : UInt32)
    (pending : List V) : List V :=
  olsrSpfAddCandTree (update st.pathCost newTc newCost) (pending.erase newTc) newTc

theorem placeCandidate_perm (st : SpfState V Link) (newTc : V) (newCost : UInt32)
    (pending : List V) :
    (placeCandidate st newTc newCost pending).Perm (newTc :: pending.erase newTc) :=
  olsrSpfAddCandTree_perm _ _ _

private theorem SpfInvariant.nodup_placeCandidate
    (invariant : SpfInvariant edgeTrees myself preset done settled pending st)
    (notSettled : newTc ∉ settled) :
    (settled ++ placeCandidate st newTc newCost pending).Nodup := by
  have perm :=
    ((placeCandidate_perm st newTc newCost pending).append_left settled).trans perm_middle
  rw [perm.nodup_iff, nodup_cons, mem_append]
  have pendingNodup : pending.Nodup := (nodup_append.mp invariant.nodup).2.1
  refine ⟨?_, ?_⟩
  · rintro (isSettled | isPending)
    · exact notSettled isSettled
    · exact pendingNodup.not_mem_erase isPending
  · exact invariant.nodup.sublist ((erase_sublist).append_left settled)

theorem pairwise_update_of_not_mem {order : List V} (absent : newTc ∉ order)
    (sorted : order.Pairwise fun left right => st.pathCost left ≤ st.pathCost right) :
    order.Pairwise fun left right =>
      update st.pathCost newTc newCost left ≤ update st.pathCost newTc newCost right := by
  refine sorted.imp_of_mem ?_
  intro left right leftMem rightMem le
  rw [update_of_ne (ne_of_mem_of_not_mem leftMem absent),
    update_of_ne (ne_of_mem_of_not_mem rightMem absent)]
  exact le

private theorem SpfInvariant.sorted_placeCandidate
    (invariant : SpfInvariant edgeTrees myself preset done (done ++ [tc]) pending st)
    (better : BetterPath edgeTrees st tc newTc newCost weight) :
    (done ++ [tc] ++ placeCandidate st newTc newCost pending).Pairwise fun left right =>
      update st.pathCost newTc newCost left ≤ update st.pathCost newTc newCost right := by
  have notSettled := better.not_mem_settled invariant
  have pendingNodup : pending.Nodup := (nodup_append.mp invariant.nodup).2.1
  obtain ⟨settledSorted, pendingSorted, across⟩ := pairwise_append.mp invariant.sorted
  refine pairwise_append.mpr ⟨pairwise_update_of_not_mem notSettled settledSorted, ?_, ?_⟩
  · refine pairwise_olsrSpfAddCandTree newTc ?_
    exact pairwise_update_of_not_mem pendingNodup.not_mem_erase
        (pendingSorted.sublist erase_sublist)
  · intro left isSettled right isPlaced
    rw [update_of_ne (ne_of_mem_of_not_mem isSettled notSettled)]
    have mem := (placeCandidate_perm st newTc newCost pending).mem_iff.mp isPlaced
    rcases mem_cons.mp mem with rfl | isPending
    · rw [update_self]
      exact UInt32.le_trans (invariant.pathCost_le_of_mem isSettled) better.floor
    · rw [update_of_ne (ne_of_mem_of_not_mem isPending pendingNodup.not_mem_erase)]
      exact across left isSettled right (mem_of_mem_erase isPending)

private theorem SpfInvariant.labelled_placeCandidate
    (invariant : SpfInvariant edgeTrees myself preset done settled pending st)
    (cheaper : newCost < st.pathCost newTc) (vertex : V) :
    vertex ∈ settled ++ placeCandidate st newTc newCost pending ↔
      update st.pathCost newTc newCost vertex < routeCostBroken := by
  rw [mem_append, (placeCandidate_perm st newTc newCost pending).mem_iff, mem_cons]
  by_cases isNew : vertex = newTc
  · subst isNew
    rw [update_self]
    have below : newCost < routeCostBroken := by
      rw [UInt32.lt_iff_toNat_lt] at cheaper ⊢
      exact cheaper.trans_le (Nat.le_sub_one_of_lt (UInt32.toNat_lt _))
    simp [below]
  · rw [update_of_ne isNew, ← invariant.labelled, mem_append, mem_erase_of_ne isNew]
    simp [isNew]

theorem SpfInvariant.improve
    (invariant : SpfInvariant edgeTrees myself preset done (done ++ [tc]) pending st)
    (better : BetterPath edgeTrees st tc newTc newCost weight) (tree : List V) :
    SpfInvariant edgeTrees myself preset done (done ++ [tc])
      (placeCandidate st newTc newCost pending)
      (improvePath st tc newTc newCost tree) := by
  have notSettled := better.not_mem_settled invariant
  have notMyself := better.ne_myself invariant
  constructor
  case nodup => exact invariant.nodup_placeCandidate notSettled
  case sorted => exact invariant.sorted_placeCandidate better
  case labelled => exact invariant.labelled_placeCandidate better.cheaper
  case head =>
    have head := invariant.head
    rw [append_assoc] at head ⊢
    cases done with
    | nil => exact head
    | cons first rest => exact head
  case ownCost =>
    rw [improvePath_pathCost, update_of_ne notMyself.symm]
    exact invariant.ownCost
  case described =>
    intro vertex isLabelled
    by_cases isNew : vertex = newTc
    · subst isNew
      have tcMem : tc ∈ done ++ [tc] ++ pending := by simp
      obtain ⟨visited, described⟩ := invariant.described tc ((invariant.labelled tc).mp tcMem)
      exact ⟨_, described.improve better invariant tree⟩
    · rw [improvePath_pathCost, update_of_ne isNew] at isLabelled
      obtain ⟨visited, described⟩ := invariant.described vertex isLabelled
      exact ⟨visited, described.improve_of_ne isNew tree⟩
  case relaxed =>
    intro vertex isDone step isStep
    have isSettled : vertex ∈ done ++ [tc] := mem_append_left [tc] isDone
    have old := invariant.relaxed vertex isDone step isStep
    rw [improvePath_pathCost, update_of_ne (ne_of_mem_of_not_mem isSettled notSettled)]
    by_cases isNew : step.1 = newTc
    · rw [isNew, update_self]
      rw [isNew] at old
      exact (Nat.le_of_lt (UInt32.lt_iff_toNat_lt.mp better.cheaper)).trans old
    · rw [update_of_ne isNew]
      exact old
  case ownNextHop =>
    rw [improvePath_nextHop_of_ne notMyself.symm]
    exact invariant.ownNextHop
  case firstHops =>
    rintro isPreset rfl
    have isMyself : tc = myself := invariant.eq_myself_of_done_nil
    have unset : st.nextHop tc = none := by rw [isMyself, invariant.ownNextHop, isPreset.own]
    rw [improvePath_nextHop_of_none unset]
    exact invariant.firstHops isPreset rfl

end Improve

/-- What the relaxation of edges of `tc` leaves as it is. -/
structure Lowers (tc : V) (st next : SpfState V Link) : Prop where
  pathList : next.pathList = st.pathList
  floor : next.pathCost tc = st.pathCost tc
  le : ∀ vertex, next.pathCost vertex ≤ st.pathCost vertex

theorem Lowers.refl (tc : V) (st : SpfState V Link) : Lowers tc st st :=
  ⟨rfl, rfl, fun _ => UInt32.le_refl _⟩

theorem Lowers.trans {next last : SpfState V Link}
    (first : Lowers tc st next) (second : Lowers tc next last) : Lowers tc st last where
  pathList := second.pathList.trans first.pathList
  floor := second.floor.trans first.floor
  le vertex := UInt32.le_trans (second.le vertex) (first.le vertex)

def EdgeRelaxed (tc : V) (st : SpfState V Link) (edge : SpfEdge V) : Prop := ∀ step ∈ edge.step?,
    (st.pathCost step.1).toNat ≤ (st.pathCost tc).toNat + step.2

theorem EdgeRelaxed.lowers {next : SpfState V Link}
    (relaxed : EdgeRelaxed tc st edge) (lowers : Lowers tc st next) : EdgeRelaxed tc next edge := by
  intro step isStep
  rw [lowers.floor]
  exact (UInt32.le_iff_toNat_le.mp (lowers.le step.1)).trans (relaxed step isStep)

/-- The sum that the relaxation of the edge computes does not wrap around. -/
def EdgeFits (tc : V) (st : SpfState V Link) (edge : SpfEdge V) : Prop :=
  ∀ step ∈ edge.step?, (st.pathCost tc).toNat + step.2 < 2 ^ 32

theorem EdgeFits.lowers {next : SpfState V Link}
    (fits : EdgeFits tc st edge) (lowers : Lowers tc st next) : EdgeFits tc next edge := by
  intro step isStep
  rw [lowers.floor]
  exact fits step isStep

private theorem RoundInvariant.relaxInvariant {rest : List V}
    (invariant : RoundInvariant edgeTrees myself preset st) (treeEq : st.candTree = tc :: rest) :
    RelaxInvariant edgeTrees myself preset tc rest st := by
  unfold RoundInvariant at invariant
  rw [treeEq] at invariant
  have split : st.pathList ++ tc :: rest = st.pathList ++ [tc] ++ rest := by simp
  refine ⟨treeEq, ?_⟩
  constructor
  case nodup => exact split ▸ invariant.nodup
  case sorted => exact split ▸ invariant.sorted
  case labelled => exact split ▸ invariant.labelled
  case head => exact split ▸ invariant.head
  case ownCost => exact invariant.ownCost
  case described =>
    intro vertex isLabelled
    obtain ⟨visited, described⟩ := invariant.described vertex isLabelled
    refine ⟨visited, described.simple, described.ends, ?_, described.hops, described.nextHop⟩
    intro other isVisited
    exact (described.inner other isVisited).imp_left (mem_append_left [tc])
  case relaxed => exact invariant.relaxed
  case ownNextHop => exact invariant.ownNextHop
  case firstHops => exact invariant.firstHops

variable [DecidableEq V]

section

variable (relaxing : RelaxInvariant edgeTrees myself preset tc pending st)
  (better : BetterPath edgeTrees st tc newTc newCost weight)
include relaxing better

private theorem RelaxInvariant.dropCandidate_eq_some :
    dropCandidate st newTc = some (tc :: pending.erase newTc) := by
  obtain ⟨treeEq, invariant⟩ := relaxing
  have notSettled := better.not_mem_settled invariant
  have other := better.ne invariant
  unfold dropCandidate
  split
  next isLabelled =>
    have isPending : newTc ∈ pending := by
      rcases mem_append.mp ((invariant.labelled newTc).mpr isLabelled) with isSettled | isPending
      · exact absurd isSettled notSettled
      · exact isPending
    rw [olsrSpfDelCandTree, treeEq, if_pos (mem_cons_of_mem tc isPending),
      erase_cons_tail (by simpa using other)]
  next unlabelled =>
    have absent : newTc ∉ pending := by
      intro isPending
      exact unlabelled ((invariant.labelled newTc).mp (mem_append_right _ isPending))
    rw [treeEq, erase_of_not_mem absent]

theorem RelaxInvariant.improve :
    RelaxInvariant edgeTrees myself preset tc (placeCandidate st newTc newCost pending)
      (improvePath st tc newTc newCost (tc :: pending.erase newTc)) := by
  refine ⟨?_, relaxing.2.improve better _⟩
  refine olsrSpfAddCandTree_cons _ ?_
  rw [update_of_ne (better.ne relaxing.2), update_self]
  exact better.floor

end

theorem BetterPath.lowers (better : BetterPath edgeTrees st tc newTc newCost weight)
    (other : tc ≠ newTc) (tree : List V) : Lowers tc st (improvePath st tc newTc newCost tree) where
  pathList := rfl
  floor := update_of_ne other _ _
  le vertex := by
    by_cases isNew : vertex = newTc
    · rw [isNew, improvePath_pathCost, update_self]
      exact UInt32.le_of_lt better.cheaper
    · rw [improvePath_pathCost, update_of_ne isNew]
      exact UInt32.le_refl _

theorem relaxEdge_of_step?_eq_none (tc : V)
    (st : SpfState V Link) (passedOver : edge.step? = none) : relaxEdge tc st edge = some st := by
  unfold SpfEdge.step? at passedOver
  unfold relaxEdge
  cases isInv : edge.inv with
  | none => rfl
  | some newTc =>
    rw [isInv] at passedOver
    by_cases broken : linkCostBroken ≤ edge.cost
    · exact if_pos broken
    · simp [if_neg broken] at passedOver

theorem relaxEdge_of_usable (tc : V) (st : SpfState V Link)
    (isInv : edge.inv = some newTc) (usable : edge.cost < linkCostBroken) :
    relaxEdge tc st edge =
      if st.pathCost tc + edge.cost < st.pathCost newTc then
        (dropCandidate st newTc).map (improvePath st tc newTc (st.pathCost tc + edge.cost))
      else
        some st := by
  unfold relaxEdge
  simp only [isInv]
  rw [if_neg (UInt32.not_le.mpr usable)]

/-- The relaxation of one edge succeeds and keeps the invariant. -/
theorem RelaxInvariant.relaxEdge (relaxing : RelaxInvariant edgeTrees myself preset tc pending st)
    (edgeMem : edge ∈ edgeTrees tc) (fits : EdgeFits tc st edge) :
    ∃ next pending', Spf.relaxEdge tc st edge = some next ∧
      RelaxInvariant edgeTrees myself preset tc pending' next ∧
      Lowers tc st next ∧ EdgeRelaxed tc next edge := by
  rcases stepEq : edge.step? with _ | ⟨newTc, weight⟩
  · refine ⟨st, pending, relaxEdge_of_step?_eq_none tc st stepEq, relaxing, Lowers.refl tc st, ?_⟩
    intro step isStep
    rw [stepEq] at isStep
    cases isStep
  · obtain ⟨invEq, usable, costEq⟩ := SpfEdge.mem_step?_iff.mp stepEq
    have isStep : (newTc, weight) ∈ usableSteps edgeTrees tc :=
      mem_usableSteps_iff.mpr ⟨edge, edgeMem, stepEq⟩
    have sumEq : (st.pathCost tc + edge.cost).toNat = (st.pathCost tc).toNat + weight := by
      rw [UInt32.toNat_add, costEq]
      exact Nat.mod_eq_of_lt (fits (newTc, weight) stepEq)
    have relaxEq := relaxEdge_of_usable tc st invEq usable
    by_cases cheaper : st.pathCost tc + edge.cost < st.pathCost newTc
    · have better : BetterPath edgeTrees st tc newTc (st.pathCost tc + edge.cost) weight :=
        ⟨isStep, sumEq, cheaper⟩
      have other := better.ne relaxing.2
      refine ⟨_, _, ?_, relaxing.improve better, better.lowers other _, ?_⟩
      · rw [relaxEq, if_pos cheaper, relaxing.dropCandidate_eq_some better]
        rfl
      · intro step isStep
        rw [stepEq] at isStep
        cases isStep
        rw [(better.lowers other _).floor, improvePath_pathCost, update_self, sumEq]
    · refine ⟨st, pending, relaxEq.trans (if_neg cheaper), relaxing, Lowers.refl tc st, ?_⟩
      intro step isStep
      rw [stepEq] at isStep
      cases isStep
      rw [← sumEq]
      exact UInt32.le_iff_toNat_le.mp (UInt32.not_lt.mp cheaper)

private theorem RelaxInvariant.foldlM_relaxEdge
    (edges : List (SpfEdge V)) : ∀ {pending : List V} {st : SpfState V Link},
      RelaxInvariant edgeTrees myself preset tc pending st → (∀ edge ∈ edges, edge ∈ edgeTrees tc) →
      (∀ edge ∈ edges, EdgeFits tc st edge) → ∃ next pending', edges.foldlM (Spf.relaxEdge tc) st =
      some next ∧ RelaxInvariant edgeTrees myself preset tc pending' next ∧
      Lowers tc st next ∧ ∀ edge ∈ edges, EdgeRelaxed tc next edge := by
  induction edges with
  | nil =>
    intro pending st relaxing _ _
    exact ⟨st, pending, rfl, relaxing, Lowers.refl tc st, by simp⟩
  | cons edge rest ih =>
    intro pending st relaxing own fits
    obtain ⟨mid, midPending, edgeEq, midRelaxing, midLowers, edgeRelaxed⟩ :=
      relaxing.relaxEdge (own edge mem_cons_self) (fits edge mem_cons_self)
    obtain ⟨next, nextPending, restEq, nextRelaxing, lowers, restRelaxed⟩ := ih midRelaxing
        (fun other isRest => own other (mem_cons_of_mem edge isRest))
        (fun other isRest => (fits other (mem_cons_of_mem edge isRest)).lowers midLowers)
    refine ⟨next, nextPending, ?_, nextRelaxing, midLowers.trans lowers, ?_⟩
    · rw [foldlM_cons, edgeEq]
      exact restEq
    · intro other isEdge
      rcases mem_cons.mp isEdge with rfl | isRest
      · exact edgeRelaxed.lowers lowers
      · exact restRelaxed other isRest

/-- With all its edges relaxed the vertex moves to the path list. -/
theorem RelaxInvariant.moveToPathList
    (relaxing : RelaxInvariant edgeTrees myself preset tc pending st)
    (relaxed : ∀ edge ∈ edgeTrees tc, EdgeRelaxed tc st edge) :
    Spf.moveToPathList st tc = some
          { st with
            candTree := pending
            pathList := st.pathList ++ [tc] } ∧
      RoundInvariant edgeTrees myself preset
        { st with
          candTree := pending
          pathList := st.pathList ++ [tc] } := by
  obtain ⟨treeEq, invariant⟩ := relaxing
  constructor
  · unfold Spf.moveToPathList olsrSpfDelCandTree
    rw [treeEq, if_pos mem_cons_self, erase_cons_head]
    rfl
  · constructor
    case nodup => exact invariant.nodup
    case sorted => exact invariant.sorted
    case labelled => exact invariant.labelled
    case head => exact invariant.head
    case ownCost => exact invariant.ownCost
    case described =>
      intro vertex isLabelled
      obtain ⟨visited, described⟩ := invariant.described vertex isLabelled
      exact ⟨visited, described.simple, described.ends, described.inner,
          described.hops, described.nextHop⟩
    case relaxed =>
      intro vertex isDone step isStep
      rcases mem_append.mp isDone with earlier | isTc
      · exact invariant.relaxed vertex earlier step isStep
      · rw [mem_singleton.mp isTc] at isStep ⊢
        obtain ⟨edge, edgeMem, edgeStep⟩ := mem_usableSteps_iff.mp isStep
        exact relaxed edge edgeMem step edgeStep
    case ownNextHop => exact invariant.ownNextHop
    case firstHops =>
      intro _ isNil
      simp at isNil

/-- A round whose sums do not wrap around succeeds, keeps the invariant and
makes the path list one longer. -/
theorem RoundInvariant.spfRound
    (invariant : RoundInvariant edgeTrees myself preset st) (isBest : tc ∈ st.candTree.head?)
    (fits : ∀ step ∈ usableSteps edgeTrees tc, (st.pathCost tc).toNat + step.2 < 2 ^ 32) :
    ∃ next, Spf.spfRound edgeTrees st tc = some next ∧
      RoundInvariant edgeTrees myself preset next ∧ next.pathList = st.pathList ++ [tc] := by
  obtain ⟨rest, treeEq⟩ := head?_eq_some_iff.mp isBest
  have edgesFit : ∀ edge ∈ edgeTrees tc, EdgeFits tc st edge := by
    intro edge edgeMem step isStep
    exact fits step (mem_usableSteps_iff.mpr ⟨edge, edgeMem, isStep⟩)
  obtain ⟨relaxedState, pending, relaxEq, relaxing, lowers, relaxed⟩ :=
    RelaxInvariant.foldlM_relaxEdge (edgeTrees tc)
      (invariant.relaxInvariant treeEq) (fun _ edgeMem => edgeMem) edgesFit
  obtain ⟨moveEq, nextInv⟩ := relaxing.moveToPathList relaxed
  refine ⟨_, ?_, nextInv, ?_⟩
  · unfold Spf.spfRound olsrSpfRelax
    rw [relaxEq]
    exact moveEq
  · exact congrArg (· ++ [tc]) lowers.pathList

theorem RoundInvariant.spfStart (edgeTrees : EdgeTrees V) (myself : V) (preset : V → Option Link) :
    RoundInvariant edgeTrees myself preset (Spf.spfStart myself preset) := by
  have costs : ∀ vertex,
        (Spf.spfStart myself preset).pathCost vertex < routeCostBroken ↔ vertex = myself := by
    intro vertex
    unfold Spf.spfStart
    by_cases isMyself : vertex = myself
    · simp only [isMyself, update_self, iff_true]
      decide
    · simp [isMyself]
  have own : (Spf.spfStart myself preset).pathCost myself = zeroRouteCost := by simp [Spf.spfStart]
  constructor
  case nodup => exact nodup_singleton myself
  case sorted => exact pairwise_singleton _ _
  case labelled =>
    intro vertex
    rw [costs]
    exact mem_singleton
  case head => rfl
  case ownCost => exact own
  case described =>
    intro vertex isLabelled
    obtain rfl := (costs vertex).mp isLabelled
    refine ⟨[], ⟨?_, nodup_singleton vertex⟩, rfl, ?_, rfl, ?_⟩
    · rw [own]
      exact Walk.nil
    · intro other isVisited
      exact Or.inr (mem_singleton.mp isVisited)
    · rintro _ first ⟨⟩
  case relaxed => rintro vertex ⟨⟩
  case ownNextHop => rfl
  case firstHops => exact fun _ _ => rfl

end QosOlsr.Spf
