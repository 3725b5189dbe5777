import QosOlsr.Spf.ShortestPaths

/-!
# Next hops and hop counts follow the shortest paths

The neighbour loop of `olsr_calculate_routing_table` sets the next hops of the
vertices of our neighbours; the relaxation passes them on.  In the end the cost,
the next hop and the hop count of a vertex are those of one shortest path.
-/

namespace QosOlsr.Spf

open Library List

universe u w

/-- The vertices `tc_edge->edge_inv->tc` to which the neighbour loop gives a
next hop, with the links, in the order of the loop.  No neighbour has our own
main address: `parse_packet` drops the messages that carry it. -/
structure NeighborHops (V : Type u) (Link : Type w) (myself : V) where
  hops : List (V × Link)
  others : ∀ hop ∈ hops, hop.1 ≠ myself

variable {V : Type u} {Link : Type w} [DecidableEq V] {myself : V}

def setNextHop (nextHop : V → Option Link) (hop : V × Link) : V → Option Link :=
  Function.update nextHop hop.1 (some hop.2)

variable (neighbors : NeighborHops V Link myself)

/-- The next hops behind the neighbour loop; all were reset before it. -/
def NeighborHops.preset : V → Option Link := neighbors.hops.foldl setNextHop fun _ => none

private theorem foldl_setNextHop_of_not_mem {vertex : V} (hops : List (V × Link)) :
    ∀ (nextHop : V → Option Link), (∀ hop ∈ hops, hop.1 ≠ vertex) →
      hops.foldl setNextHop nextHop vertex = nextHop vertex := by
  induction hops with
  | nil => exact fun _ _ => rfl
  | cons hop rest ih =>
    intro nextHop others
    rw [foldl_cons, ih _ fun other isRest => others other (mem_cons_of_mem hop isRest)]
    exact Function.update_of_ne (others hop mem_cons_self).symm _ _

private theorem NeighborHops.preset_myself : neighbors.preset myself = none :=
  foldl_setNextHop_of_not_mem neighbors.hops _ neighbors.others

/-- The walk over `visited` is a shortest path to the vertex, and the fields of
the vertex are those of the walk. -/
structure FollowsShortestPath (edgeTrees : EdgeTrees V) (myself : V) (preset : V → Option Link)
    (final : SpfState V Link) (tc : V) (visited : List V) : Prop where
  walk : Walk (usableSteps edgeTrees) myself visited (final.pathCost tc).toNat
  ends : visited.getLastD myself = tc
  least : ∀ cost, WalkTo edgeTrees myself tc cost → (final.pathCost tc).toNat ≤ cost
  nextHop :
    ∃ first link, visited.head? = some first ∧ preset first = some link ∧
      final.nextHop tc = some link
  hops : (final.hops tc).toNat = visited.length % 256

/-- When the neighbour loop has given every other vertex one usable edge away a
next hop and no sum wraps around, every vertex of the path list but our own
follows a shortest path. -/
theorem olsrSpfRunFull_followsShortestPath
    [Fintype V] (edgeTrees : EdgeTrees V) (neighbors : NeighborHops V Link myself)
    (allSet :
      ∀ step ∈ usableSteps edgeTrees myself, step.1 ≠ myself → (neighbors.preset step.1).isSome)
    (fuel : Nat) (enough : Fintype.card V < fuel)
    (fits : RunFits edgeTrees fuel (spfStart myself neighbors.preset)) :
    ∃ final, olsrSpfRunFull edgeTrees fuel (spfStart myself neighbors.preset) = some final ∧
      ∀ tc ∈ final.pathList, tc ≠ myself → ∃ visited,
          FollowsShortestPath edgeTrees myself neighbors.preset final tc visited := by
  have isPreset : NeighborsPreset edgeTrees myself neighbors.preset :=
    ⟨neighbors.preset_myself, allSet⟩
  have invariant := RoundInvariant.spfStart edgeTrees myself neighbors.preset
  obtain ⟨final, runEq, finalInvariant, ended⟩ :=
    invariant.olsrSpfRunFull fuel (by simpa [spfStart] using enough) fits
  refine ⟨final, runEq, ?_⟩
  intro tc isSettled other
  have isLabelled := (finalInvariant.labelled tc).mp (mem_append_left _ isSettled)
  obtain ⟨visited, described⟩ := finalInvariant.described tc isLabelled
  refine ⟨visited, ?_⟩
  constructor
  case walk => exact described.simple.walk
  case ends => exact described.ends
  case least =>
    rintro cost ⟨otherVisited, walk, rfl⟩
    exact finalInvariant.pathCost_le_cost (.inr (.inr ended)) walk rfl
  case nextHop =>
    cases visited with
    | nil => exact absurd described.ends.symm other
    | cons first rest =>
      obtain ⟨weight, isStep⟩ := described.simple.walk.head?_mem first rfl
      have notMyself : first ≠ myself := by
        rintro rfl
        exact (nodup_cons.mp described.simple.nodup).1 mem_cons_self
      obtain ⟨link, isLink⟩ := Option.isSome_iff_exists.mp (allSet _ isStep notMyself)
      exact ⟨first, link, rfl, isLink, (described.nextHop isPreset first rfl).trans isLink⟩
  case hops => rw [described.hops, UInt8.toNat_ofNat']

def triangleNeighbors : NeighborHops (Fin 3) Nat ⟨0, by decide⟩ :=
  ⟨[(⟨1, by decide⟩, 10), (⟨2, by decide⟩, 20)], by decide⟩

theorem olsrSpfRunFull_triangleNeighbors :
    RunFits triangle 4 (spfStart 0 triangleNeighbors.preset) ∧ ∃ final,
        olsrSpfRunFull triangle 4 (spfStart 0 triangleNeighbors.preset) = some final ∧
        ∀ tc ∈ final.pathList, tc ≠ 0 → ∃ visited,
            FollowsShortestPath triangle 0 triangleNeighbors.preset final tc visited :=
  have fits := (RoundInvariant.spfStart triangle 0 triangleNeighbors.preset).runFits
      (nextSumsFit_of_card_le (by decide)).cheapest 4
  ⟨fits,
    olsrSpfRunFull_followsShortestPath triangle triangleNeighbors (by decide) 4 (by decide) fits⟩

end QosOlsr.Spf
