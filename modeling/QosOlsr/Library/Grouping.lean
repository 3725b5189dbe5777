import Mathlib.Tactic

/-!
# Lists cut into groups

Collecting the items of a list group by group keeps every item of the listed
groups, each once.
-/

namespace QosOlsr.Library

open List

universe u v

variable {Item : Type u} {Key : Type v} [DecidableEq Key]

def grouped (key : Item → Key) (keys : List Key) (items : List Item) : List Item :=
  keys.flatMap fun group => items.filter fun item => key item = group

variable {keys : List Key}

theorem grouped_perm_filter (key : Item → Key) (distinct : keys.Nodup) (items : List Item) :
    (grouped key keys items).Perm (items.filter fun item => key item ∈ keys) := by
  induction keys with
  | nil => simp [grouped]
  | cons group rest ih =>
    obtain ⟨absent, restDistinct⟩ := nodup_cons.mp distinct
    -- the items of the first group, and those of the others
    have split := filter_append_perm (fun item => decide (key item = group))
        (items.filter fun item => key item ∈ group :: rest)
    have first : (items.filter fun item => key item ∈ group :: rest).filter
            (fun item => decide (key item = group)) =
          items.filter fun item => key item = group := by
      rw [filter_filter]
      apply filter_congr
      intro item _
      by_cases same : key item = group
      · simp [same]
      · simp [same]
    have others : (items.filter fun item => key item ∈ group :: rest).filter
            (fun item => !decide (key item = group)) =
          items.filter fun item => key item ∈ rest := by
      rw [filter_filter]
      apply filter_congr
      intro item _
      by_cases same : key item = group
      · simp [same, absent]
      · simp [same]
    rw [first, others] at split
    rw [grouped, flatMap_cons]
    exact ((ih restDistinct).append_left _).trans split

theorem grouped_perm (key : Item → Key) (distinct : keys.Nodup) {items : List Item}
    (listed : ∀ item ∈ items, key item ∈ keys) : (grouped key keys items).Perm items := by
  have all : (items.filter fun item => key item ∈ keys) = items :=
    filter_eq_self.mpr fun item mem => decide_eq_true (listed item mem)
  have perm := grouped_perm_filter key distinct items
  rwa [all] at perm

theorem mem_grouped {key : Item → Key} {items : List Item} {item : Item} :
    item ∈ grouped key keys items ↔ item ∈ items ∧ key item ∈ keys := by
  constructor
  · intro mem
    obtain ⟨group, inKeys, inGroup⟩ := mem_flatMap.mp mem
    obtain ⟨inItems, isGroup⟩ := mem_filter.mp inGroup
    rw [decide_eq_true_eq] at isGroup
    exact ⟨inItems, isGroup ▸ inKeys⟩
  · rintro ⟨inItems, inKeys⟩
    refine mem_flatMap.mpr ⟨key item, inKeys, ?_⟩
    exact mem_filter.mpr ⟨inItems, decide_eq_true rfl⟩

end QosOlsr.Library
