import Mathlib.Logic.Function.Basic
import Mathlib.Tactic

/-!
# Singly linked lists in memory

A cell holds an element and the pointer to the next cell, and a pointer without
a cell is free.  A segment lists the cells from one pointer up to another; a
segment that ends without a pointer is a whole list.
-/

namespace QosOlsr.Library

open Function List

universe u v

variable {Ptr : Type u} {Elem : Type v}

/-- Following the cells from `start` passes the nodes and arrives at `stop`. -/
def Segment (cells : Ptr → Option (Elem × Option Ptr)) :
    Option Ptr → List (Ptr × Elem) → Option Ptr → Prop
  | start, [], stop => start = stop
  | start, node :: rest, stop =>
    start = some node.1 ∧ ∃ next, cells node.1 = some (node.2, next) ∧ Segment cells next rest stop

variable {cells : Ptr → Option (Elem × Option Ptr)}
  {start stop : Option Ptr} {nodes front back : List (Ptr × Elem)}

theorem segment_append : Segment cells start (front ++ back) stop ↔
      ∃ middle, Segment cells start front middle ∧ Segment cells middle back stop := by
  induction front generalizing start with
  | nil => simp [Segment]
  | cons node rest ih =>
    simp only [cons_append, Segment, ih]
    constructor
    · rintro ⟨isStart, next, isCell, middle, inFront, inBack⟩
      exact ⟨middle, ⟨isStart, next, isCell, inFront⟩, inBack⟩
    · rintro ⟨middle, ⟨isStart, next, isCell, inFront⟩, inBack⟩
      exact ⟨isStart, next, isCell, middle, inFront, inBack⟩

theorem Segment.start_eq (whole : Segment cells start nodes none) :
    start = nodes.head?.map Prod.fst := by
  cases nodes with
  | nil => exact whole
  | cons node rest => exact whole.1

theorem Segment.congr
    {others : Ptr → Option (Elem × Option Ptr)} (segment : Segment cells start nodes stop)
    (agree : ∀ node ∈ nodes, others node.1 = cells node.1) : Segment others start nodes stop := by
  induction nodes generalizing start with
  | nil => exact segment
  | cons node rest ih =>
    obtain ⟨isStart, next, isCell, inRest⟩ := segment
    refine ⟨isStart, next, (agree node mem_cons_self).trans isCell,
        ih inRest fun other isMem => agree other (mem_cons_of_mem node isMem)⟩

theorem Segment.cell_eq {node : Ptr × Elem}
    (segment : Segment cells start (front ++ node :: back) none) :
    cells node.1 = some (node.2, back.head?.map Prod.fst) := by
  obtain ⟨middle, -, -, next, isCell, inBack⟩ := segment_append.mp segment
  rw [isCell, inBack.start_eq]

variable [DecidableEq Ptr]

theorem Segment.push {ptr : Ptr} (segment : Segment cells start nodes stop)
    (isFree : ptr ∉ nodes.map Prod.fst) (elem : Elem) :
    Segment (update cells ptr (some (elem, start))) (some ptr) ((ptr, elem) :: nodes) stop := by
  refine ⟨rfl, start, update_self .., segment.congr ?_⟩
  intro node isMem
  refine update_of_ne ?_ _ _
  rintro rfl
  exact isFree (mem_map_of_mem isMem)

/-- The cell behind `prev` is taken out and freed. -/
theorem Segment.unlink
    {prev node : Ptr × Elem} (segment : Segment cells start (front ++ prev :: node :: back) none)
    (nodup : ((front ++ prev :: node :: back).map Prod.fst).Nodup) :
    Segment
      (update (update cells prev.1 (some (prev.2, back.head?.map Prod.fst))) node.1 none)
      start (front ++ prev :: back) none := by
  obtain ⟨middle, inFront, isPrev, -, -, -, next, isNode, inBack⟩ := segment_append.mp segment
  simp only [map_append, map_cons, nodup_append, nodup_cons, mem_cons, not_or] at nodup
  obtain ⟨-, ⟨⟨prevNode, prevBack⟩, nodeBack, -⟩, apart⟩ := nodup
  have untouched {others : List (Ptr × Elem)} (notPrev : ∀ other ∈ others, other.1 ≠ prev.1)
      (notNode : ∀ other ∈ others, other.1 ≠ node.1) :
      ∀ other ∈ others, update
          (update cells prev.1 (some (prev.2, back.head?.map Prod.fst)))
          node.1 none other.1 = cells other.1 := by
    intro other isMem
    rw [update_of_ne (notNode other isMem), update_of_ne (notPrev other isMem)]
  refine segment_append.mpr
      ⟨middle, inFront.congr (untouched ?_ ?_), isPrev, next, ?_, inBack.congr (untouched ?_ ?_)⟩
  · intro other isMem
    exact (apart other.1 (mem_map_of_mem isMem)) prev.1 (Or.inl rfl)
  · intro other isMem
    exact (apart other.1 (mem_map_of_mem isMem)) node.1 (Or.inr (Or.inl rfl))
  · rw [update_of_ne prevNode, update_self, inBack.start_eq]
  · rintro other isMem same
    exact prevBack (same ▸ mem_map_of_mem isMem)
  · rintro other isMem same
    exact nodeBack (same ▸ mem_map_of_mem isMem)

end QosOlsr.Library
