import Mathlib.Data.List.Nodup
import Mathlib.Logic.Function.Basic
import Mathlib.Tactic

/-!
# A relation stored on both sides

`right` is in the list of `left` exactly if `left` is in the list of `right`,
and no list repeats an element.
-/

namespace QosOlsr.Library

open Function

universe u v

variable {Left : Type u} {Right : Type v}

structure Mirrors (rights : Left → List Right) (lefts : Right → List Left) : Prop where
  mem_iff : ∀ {left : Left} {right : Right}, right ∈ rights left ↔ left ∈ lefts right
  rights_nodup : ∀ left, (rights left).Nodup
  lefts_nodup : ∀ right, (lefts right).Nodup

theorem Mirrors.symm {rights : Left → List Right} {lefts : Right → List Left}
    (mirrors : Mirrors rights lefts) : Mirrors lefts rights :=
  ⟨mirrors.mem_iff.symm, mirrors.lefts_nodup, mirrors.rights_nodup⟩

variable [DecidableEq Right] {rights : Left → List Right}
  {lefts : Right → List Left} {left : Left} {right : Right}

/-- Remove an element from all the lists that hold it. -/
theorem Mirrors.clear (mirrors : Mirrors rights lefts) (right : Right) :
    Mirrors (fun left => (rights left).erase right) (update lefts right []) where
  mem_iff := by
    intro left right'
    have both := @mirrors.mem_iff left right'
    have removed := (mirrors.rights_nodup left).mem_erase_iff (a := right) (b := right')
    rw [update_apply]
    grind
  rights_nodup := fun left => (mirrors.rights_nodup left).erase right
  lefts_nodup := by
    intro right'
    rw [update_apply]
    split
    · exact List.nodup_nil
    · exact mirrors.lefts_nodup right'

variable [DecidableEq Left]

theorem Mirrors.link (mirrors : Mirrors rights lefts) (apart : right ∉ rights left) :
    Mirrors (update rights left (right :: rights left))
      (update lefts right (left :: lefts right)) where
  mem_iff := by
    intro left' right'
    have both := @mirrors.mem_iff left' right'
    rw [update_apply, update_apply]
    grind
  rights_nodup := by
    intro left'
    rw [update_apply]
    split
    · exact List.nodup_cons.mpr ⟨apart, mirrors.rights_nodup left⟩
    · exact mirrors.rights_nodup left'
  lefts_nodup := by
    intro right'
    have apart' : left ∉ lefts right := fun linked => apart (mirrors.mem_iff.mpr linked)
    rw [update_apply]
    split
    · exact List.nodup_cons.mpr ⟨apart', mirrors.lefts_nodup right⟩
    · exact mirrors.lefts_nodup right'

theorem Mirrors.unlink (mirrors : Mirrors rights lefts) (left : Left) (right : Right) :
    Mirrors (update rights left ((rights left).erase right))
      (update lefts right ((lefts right).erase left)) where
  mem_iff := by
    intro left' right'
    have both := @mirrors.mem_iff left' right'
    have removedRight := (mirrors.rights_nodup left).mem_erase_iff (a := right) (b := right')
    have removedLeft := (mirrors.lefts_nodup right).mem_erase_iff (a := left) (b := left')
    rw [update_apply, update_apply]
    grind
  rights_nodup := by
    intro left'
    rw [update_apply]
    split
    · exact (mirrors.rights_nodup left).erase right
    · exact mirrors.rights_nodup left'
  lefts_nodup := by
    intro right'
    rw [update_apply]
    split
    · exact (mirrors.lefts_nodup right).erase left
    · exact mirrors.lefts_nodup right'

end QosOlsr.Library
