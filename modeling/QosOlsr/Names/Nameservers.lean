import Mathlib.Data.List.Sort
import QosOlsr.Library.Loop

/-!
# The best nameservers

`write_resolv_file` of `nameservice.c` puts each route to a nameserver into the
first of `NAMESERVER_COUNT + 1` cells and lets one pass of a bubble sort carry
it to its place.  `olsr_cmp_rt` is the order of the routes, a better one being
less; a pass that would hand it a NULL pointer has no result.
-/

namespace QosOlsr.Names

open Library List Option

variable {Route : Type*} [LinearOrder Route]

def nameserverCount : Nat := 3

/-- The loop of `select_best_nameserver` behind the cell that holds `rt1`. -/
def percolate (rt1 : Option Route) : List (Option Route) → Option (List (Option Route))
  | [] => some [rt1]
  | none :: rest => (percolate rt1 rest).map (none :: ·)
  | some route2 :: rest => do
    let route1 ← rt1
    if route1 < route2 then
      (percolate rt1 rest).map (some route2 :: ·)
    else
      (percolate (some route2) rest).map (rt1 :: ·)

/-- `select_best_nameserver` with a route in the first cell. -/
def storeNameserver (cells : List (Option Route)) (route : Route) : Option (List (Option Route)) :=
  percolate (some route) cells.tail

def nameserverRoutes (routes : List Route) : Option (List (Option Route)) :=
  routes.foldlM storeNameserver (List.replicate (nameserverCount + 1) none)

theorem percolate_replicate (rt1 : Option Route) (free : Nat) (cells : List (Option Route)) :
    percolate rt1 (List.replicate free none ++ cells) =
      (percolate rt1 cells).map (List.replicate free none ++ ·) := by
  induction free with
  | zero => simp
  | succ free ih =>
    rw [List.replicate_succ, List.cons_append, percolate, ih, Option.map_map]
    rfl

/-- A route behind which all are better stays, and one that is better passes. -/
theorem percolate_sorted {route : Route} {best : List Route} (sorted : best.Pairwise (· ≥ ·)) :
    percolate (some route) (best.map some) =
      some ((best.orderedInsert (· ≥ ·) route).map some) := by
  induction best generalizing route with
  | nil => rfl
  | cons worst rest ih =>
    obtain ⟨above, restSorted⟩ := pairwise_cons.mp sorted
    rw [map_cons, percolate, bind_eq_bind, bind_some, ih restSorted,
      ih restSorted, List.orderedInsert]
    by_cases better : route < worst
    · rw [if_pos better, if_neg better.not_ge]
      rfl
    · rw [if_neg better, if_pos (not_lt.mp better)]
      cases rest with
      | nil => rfl
      | cons second rest =>
        rw [List.orderedInsert, if_pos (above second mem_cons_self)]
        rfl

/-- The last slots hold the best routes of those seen, the best one last; the
slots in front are free. -/
def BestLast (seen : List Route) (slots : List (Option Route)) : Prop := ∃ best others : List Route,
  slots = List.replicate (nameserverCount - best.length) none ++ best.map some ∧
    best.Pairwise (· ≥ ·) ∧ (best ++ others).Perm seen ∧
    best.length = min nameserverCount seen.length ∧
    ∀ route ∈ best, ∀ other ∈ others, route ≤ other

private theorem BestLast.store {seen : List Route} {cells : List (Option Route)}
    (held : BestLast seen cells.tail) (route : Route) :
    ∃ next, storeNameserver cells route = some next ∧ BestLast (seen ++ [route]) next.tail := by
  obtain ⟨best, others, isTail, sorted, perm, size, least⟩ := held
  have length := perm.length_eq
  rw [length_append] at length
  have inserted := perm_orderedInsert (· ≥ ·) route best
  have insertedSorted := sorted.orderedInsert route best
  refine ⟨_, by rw [storeNameserver, isTail, percolate_replicate, percolate_sorted sorted]; rfl, ?_⟩
  have added : (route :: (best ++ others)).Perm (seen ++ [route]) :=
    (perm.cons route).trans (perm_append_singleton route seen).symm
  by_cases full : best.length = nameserverCount
  · obtain ⟨worst, kept, isInserted⟩ : ∃ worst kept,
        best.orderedInsert (· ≥ ·) route = worst :: kept := by
      apply exists_cons_of_ne_nil
      intro empty
      simp [empty] at inserted
    rw [isInserted] at inserted insertedSorted
    obtain ⟨above, keptSorted⟩ := pairwise_cons.mp insertedSorted
    have keptLength : kept.length = best.length := by simpa using inserted.length_eq
    refine ⟨kept, worst :: others, ?_, keptSorted, ?_, ?_, ?_⟩
    · simp [isInserted, full, keptLength]
    · exact (perm_middle.trans (inserted.append_right others)).trans added
    · rw [length_append, keptLength]
      omega
    · intro other isKept dropped isDropped
      rcases mem_cons.mp isDropped with rfl | isOther
      · exact above other isKept
      · rcases mem_cons.mp (inserted.subset mem_cons_self) with rfl | inBest
        · exact least other (inserted.cons_inv.subset isKept) dropped isOther
        · exact (above other isKept).trans (least worst inBest dropped isOther)
  · have noOthers : others = [] := eq_nil_of_length_eq_zero (by omega)
    subst noOthers
    obtain ⟨free, isFree⟩ : ∃ free, nameserverCount - best.length = free + 1 :=
      ⟨nameserverCount - best.length - 1, by omega⟩
    refine ⟨best.orderedInsert (· ≥ ·) route, [], ?_, insertedSorted, ?_, ?_, by simp⟩
    · rw [orderedInsert_length, isFree, Nat.sub_add_eq, isFree]
      rfl
    · exact (inserted.append_right []).trans added
    · rw [orderedInsert_length, length_append, length_singleton]
      omega

/-- Whatever routes come in whatever order, no NULL pointer is compared and the
best ones are kept. -/
theorem nameserverRoutes_bestLast (routes : List Route) :
    ∃ cells, nameserverRoutes routes = some cells ∧ BestLast routes cells.tail := by
  apply foldlM_invariant fun seen (cells : List (Option Route)) => BestLast seen cells.tail
  · exact fun {_ route _} _ held => held.store route
  · exact ⟨[], [], rfl, .nil, .nil, rfl, by simp⟩

end QosOlsr.Names
