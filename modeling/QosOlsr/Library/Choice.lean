import Mathlib.Tactic

/-!
# The first of the cheapest

A loop that keeps one item, and replaces it by one that may be chosen and is
cheaper, ends with the first of the cheapest items.
-/

namespace QosOlsr.Library

open List

universe u v w

variable {Item : Type u} {Kept : Type v} {Cost : Type w} [LinearOrder Cost]

/-- The first of the cheapest items that may be chosen. -/
def FirstLeast (Ok : Item → Prop) (cost : Item → Cost) (items : List Item) (best : Item) : Prop :=
  ∃ front back, items = front ++ best :: back ∧ Ok best ∧
    (∀ item ∈ front, Ok item → cost best < cost item) ∧
    ∀ item ∈ back, Ok item → cost best ≤ cost item

variable {Ok : Item → Prop} {cost : Item → Cost} {items : List Item} {best : Item}

section

variable (isBest : FirstLeast Ok cost items best)
include isBest

theorem FirstLeast.mem : best ∈ items := by
  obtain ⟨front, back, rfl, -⟩ := isBest
  simp

theorem FirstLeast.ok : Ok best := by
  obtain ⟨-, -, -, ok, -⟩ := isBest
  exact ok

theorem FirstLeast.least {item : Item}
    (mem : item ∈ items) (ok : Ok item) : cost best ≤ cost item := by
  obtain ⟨front, back, rfl, -, before, behind⟩ := isBest
  rcases mem_append.mp mem with inFront | inRest
  · exact (before item inFront ok).le
  · rcases mem_cons.mp inRest with rfl | inBack
    · exact le_rfl
    · exact behind item inBack ok

theorem FirstLeast.unique {other : Item}
    (isOther : FirstLeast Ok cost items other) : best = other := by
  have below := isBest.least isOther.mem isOther.ok
  have above := isOther.least isBest.mem isBest.ok
  obtain ⟨front, back, rfl, ok, before, -⟩ := isBest
  obtain ⟨front', back', same, ok', before', -⟩ := isOther
  -- the one that stands behind is not the first of the cheapest
  rcases append_eq_append_iff.mp same with ⟨via, rfl, rest⟩ | ⟨via, rfl, rest⟩
  · cases via with
    | nil => exact (List.cons.inj rest).1
    | cons first via =>
      obtain ⟨rfl, -⟩ := List.cons.inj rest
      exact absurd (before' best (by simp) ok) below.not_gt
  · cases via with
    | nil => exact (List.cons.inj rest).1.symm
    | cons first via =>
      obtain ⟨rfl, -⟩ := List.cons.inj rest
      exact absurd (before other (by simp) ok') above.not_gt

theorem FirstLeast.cons {first : Item}
    (dearer : Ok first → cost best < cost first) : FirstLeast Ok cost (first :: items) best := by
  obtain ⟨front, back, rfl, ok, before, behind⟩ := isBest
  exact ⟨first :: front, back, rfl, ok, by simpa using ⟨dearer, before⟩, behind⟩

end

theorem firstLeast_cons_self {first : Item} (ok : Ok first)
    (above : ∀ item ∈ items, Ok item → cost first ≤ cost item) :
    FirstLeast Ok cost (first :: items) first :=
  ⟨[], items, rfl, ok, by simp, above⟩

theorem FirstLeast.mono {Narrow : Item → Prop} (isBest : FirstLeast Ok cost items best)
    (narrower : ∀ item, Narrow item → Ok item) (ok : Narrow best) :
    FirstLeast Narrow cost items best := by
  obtain ⟨front, back, isSplit, -, before, behind⟩ := isBest
  exact ⟨front, back, isSplit, ok,
    fun item mem isNarrow => before item mem (narrower _ isNarrow),
    fun item mem isNarrow => behind item mem (narrower _ isNarrow)⟩

theorem exists_firstLeast (hasOk : ∃ item ∈ items, Ok item) :
    ∃ best, FirstLeast Ok cost items best := by
  induction items with
  | nil => simp at hasOk
  | cons first rest ih =>
    by_cases restOk : ∃ item ∈ rest, Ok item
    · obtain ⟨best, isBest⟩ := ih restOk
      by_cases isFirst : Ok first ∧ cost first ≤ cost best
      · exact ⟨first, firstLeast_cons_self isFirst.1
          fun item inRest ok => isFirst.2.trans (isBest.least inRest ok)⟩
      · exact ⟨best, isBest.cons fun ok => not_le.mp fun cheaper => isFirst ⟨ok, cheaper⟩⟩
    · have isFirst : Ok first := by
        obtain ⟨item, mem, ok⟩ := hasOk
        rcases mem_cons.mp mem with rfl | inRest
        · exact ok
        · exact absurd ⟨item, inRest, ok⟩ restOk
      exact ⟨first, firstLeast_cons_self isFirst
        fun item inRest ok => absurd ⟨item, inRest, ok⟩ restOk⟩

/-- The loop keeps what it has started with, or puts there the first of the
cheapest, which is cheaper. -/
theorem foldl_firstLeast [DecidablePred Ok] {step : Kept → Item → Kept} {put : Item → Kept}
    {costOf : Kept → Cost}
    (steps : ∀ kept item,
      step kept item = if Ok item ∧ cost item < costOf kept then put item else kept)
    (costOf_put : ∀ item, costOf (put item) = cost item) (items : List Item) (start : Kept) :
    (items.foldl step start = start ∧ ∀ item ∈ items, Ok item → costOf start ≤ cost item) ∨
      ∃ best, items.foldl step start = put best ∧ FirstLeast Ok cost items best ∧
        cost best < costOf start := by
  induction items generalizing start with
  | nil => exact .inl ⟨rfl, by simp⟩
  | cons first rest ih =>
    rw [foldl_cons, steps]
    split
    next better =>
      rcases ih (put first) with ⟨stays, above⟩ | ⟨best, isBest, least, cheaper⟩
      · rw [costOf_put] at above
        exact .inr ⟨first, stays, firstLeast_cons_self better.1 above, better.2⟩
      · rw [costOf_put] at cheaper
        exact .inr ⟨best, isBest, least.cons fun _ => cheaper, cheaper.trans better.2⟩
    next notBetter =>
      have above : Ok first → costOf start ≤ cost first :=
        fun ok => not_lt.mp fun cheaper => notBetter ⟨ok, cheaper⟩
      rcases ih start with ⟨stays, aboveRest⟩ | ⟨best, isBest, least, cheaper⟩
      · exact .inl ⟨stays, by simpa using ⟨above, aboveRest⟩⟩
      · exact .inr ⟨best, isBest, least.cons fun ok => cheaper.trans_le (above ok), cheaper⟩

end QosOlsr.Library
