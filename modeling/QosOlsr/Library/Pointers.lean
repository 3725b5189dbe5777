import Mathlib.Data.List.Sort
import Mathlib.Logic.Function.Basic
import Mathlib.Tactic

/-!
# Blocks that point to each other

A container lists the blocks that it holds, and each block points back to its
container.  A link between two ends points to the link in the opposite
direction while there is one.
-/

namespace QosOlsr.Library

open Function List Option

universe u v

section Ownership

variable {Block : Type u} {Container : Type v}

/-- The contents of the containers are the blocks whose backpointers name
them. -/
structure Owns (contents : Container → Option (List Block))
    (owner : Block → Option Container) : Prop where
  nodup : ∀ {container blocks}, contents container = some blocks → blocks.Nodup
  mem_iff : ∀ {container blocks}, contents container = some blocks →
      ∀ {block}, block ∈ blocks ↔ owner block = some container
  contained :
    ∀ {block container}, owner block = some container → ∃ blocks, contents container = some blocks

variable [DecidableEq Container] {contents : Container → Option (List Block)}
  {owner : Block → Option Container} {container : Container} {blocks : List Block} {block : Block}

/-- One container gets other contents, the other containers keep theirs. -/
theorem Owns.change (owns : Owns contents owner) {changed : List Block}
    {nextOwner : Block → Option Container} (nodup : changed.Nodup)
    (here : ∀ {block}, block ∈ changed ↔ nextOwner block = some container)
    (elsewhere : ∀ {block other}, other ≠ container →
        (nextOwner block = some other ↔ owner block = some other)) :
    Owns (update contents container (some changed)) nextOwner where
  nodup := by
    intro other otherBlocks present
    rcases eq_or_ne other container with rfl | ne
    · rw [update_self] at present
      cases present
      exact nodup
    · rw [update_of_ne ne] at present
      exact owns.nodup present
  mem_iff := by
    intro other otherBlocks present cand
    rcases eq_or_ne other container with rfl | ne
    · rw [update_self] at present
      cases present
      exact here
    · rw [update_of_ne ne] at present
      rw [owns.mem_iff present, elsewhere ne]
  contained := by
    intro cand other ownedBy
    rcases eq_or_ne other container with rfl | ne
    · exact ⟨_, update_self ..⟩
    · rw [update_of_ne ne]
      exact owns.contained ((elsewhere ne).mp ownedBy)

theorem Owns.addContainer (owns : Owns contents owner) (free : contents container = none) :
    Owns (update contents container (some [])) owner := by
  refine owns.change nodup_nil ?_ fun _ => Iff.rfl
  intro cand
  refine ⟨fun mem => (not_mem_nil mem).elim, ?_⟩
  intro ownedBy
  obtain ⟨_, contained⟩ := owns.contained ownedBy
  rw [free] at contained
  cases contained

theorem Owns.removeContainer (owns : Owns contents owner) (empty : contents container = some []) :
    Owns (update contents container none) owner where
  nodup := by
    intro other otherBlocks present
    rw [update_apply] at present
    split at present
    · cases present
    · exact owns.nodup present
  mem_iff := by
    intro other otherBlocks present cand
    rw [update_apply] at present
    split at present
    · cases present
    · exact owns.mem_iff present
  contained := by
    intro cand other ownedBy
    have ne : other ≠ container := by
      rintro rfl
      exact not_mem_nil ((owns.mem_iff empty).mpr ownedBy)
    rw [update_of_ne ne]
    exact owns.contained ownedBy

variable [DecidableEq Block]

theorem Owns.remove (owns : Owns contents owner) (held : contents container = some blocks)
    (owned : owner block = some container) :
    Owns (update contents container (some (blocks.erase block))) (update owner block none) := by
  refine owns.change ((owns.nodup held).erase block) ?_ ?_
  · intro cand
    rw [(owns.nodup held).mem_erase_iff, owns.mem_iff held, update_apply]
    by_cases same : cand = block <;> simp [same]
  · intro cand other ne
    rw [update_apply]
    by_cases same : cand = block
    · simp [same, owned, ne.symm]
    · simp [same]

theorem Owns.add (owns : Owns contents owner) (held : contents container = some blocks)
    (free : owner block = none) {extended : List Block}
    (inserted : extended.Perm (block :: blocks)) :
    Owns (update contents container (some extended)) (update owner block (some container)) := by
  have absent : block ∉ blocks := by
    rw [owns.mem_iff held, free]
    exact (some_ne_none _).symm
  refine owns.change (inserted.nodup_iff.mpr (nodup_cons.mpr ⟨absent, owns.nodup held⟩)) ?_ ?_
  · intro cand
    rw [inserted.mem_iff, mem_cons, owns.mem_iff held, update_apply]
    by_cases same : cand = block <;> simp [same]
  · intro cand other ne
    rw [update_apply]
    by_cases same : cand = block
    · simp [same, free, ne.symm]
    · simp [same]

end Ownership

section Opposites

variable {Link : Type u} {End : Type v}

/-- No two links have the same ends, and a link points to the one with the
ends exchanged exactly while that one exists. -/
structure Paired (ends : Link → Option (End × End)) (inverse : Link → Option Link) : Prop where
  injective : ∀ {link other pair}, ends link = some pair → ends other = some pair → link = other
  inverse_iff : ∀ {link source target}, ends link = some (source, target) →
      ∀ {other}, inverse link = some other ↔ ends other = some (target, source)

variable {ends : Link → Option (End × End)} {inverse : Link → Option Link}

theorem Paired.congr (paired : Paired ends inverse) {other : Link → Option Link}
    (agree : ∀ {link pair}, ends link = some pair → other link = inverse link) :
    Paired ends other where
  injective := paired.injective
  inverse_iff := by
    intro link source target present cand
    rw [agree present]
    exact paired.inverse_iff present

variable [DecidableEq Link] {link : Link} {source target : End}

def clearInverse (inverse : Link → Option Link) (link : Link) (other : Link) : Option Link :=
  if inverse link = some other then none else inverse other

theorem clearInverse_of_none (alone : inverse link = none) :
    clearInverse inverse link = inverse := by
  funext other
  simp [clearInverse, alone]

theorem clearInverse_of_some {opposite : Link} (pointer : inverse link = some opposite) :
    clearInverse inverse link = update inverse opposite none := by
  funext other
  rw [clearInverse, pointer, update_apply]
  by_cases same : other = opposite
  · simp [same]
  · simp [same, Ne.symm same]

theorem Paired.remove (paired : Paired ends inverse) (present : ends link = some (source, target)) :
    Paired (update ends link none) (clearInverse inverse link) where
  injective := by
    intro first second pair firstEnds secondEnds
    rw [update_apply] at firstEnds secondEnds
    split at firstEnds
    · cases firstEnds
    · split at secondEnds
      · cases secondEnds
      · exact paired.injective firstEnds secondEnds
  inverse_iff := by
    intro first start finish firstEnds other
    rw [update_apply] at firstEnds
    split at firstEnds
    · cases firstEnds
    next kept =>
      have opposite : inverse first = some other ↔ ends other = some (finish, start) :=
        paired.inverse_iff firstEnds
      unfold clearInverse
      rw [update_apply]
      by_cases cleared : inverse link = some first
      · -- the removed link was the only opposite of this one
        have firstOpposite : ends first = some (target, source) :=
          (paired.inverse_iff present).mp cleared
        rw [firstEnds] at firstOpposite
        cases firstOpposite
        rw [if_pos cleared]
        refine ⟨nofun, ?_⟩
        intro ends2
        split at ends2
        · cases ends2
        next ne => exact (ne (paired.injective ends2 present)).elim
      · rw [if_neg cleared, opposite]
        split
        next same =>
          subst other
          refine ⟨?_, nofun⟩
          intro linkEnds
          rw [present] at linkEnds
          cases linkEnds
          exact (cleared ((paired.inverse_iff present).mpr firstEnds)).elim
        · exact Iff.rfl

/-- The pointers after a link is connected to its opposite, if it has one. -/
def connect (inverse : Link → Option Link) (link : Link) : Option Link → Link → Option Link
  | none => update inverse link none
  | some other => update (update inverse other (some link)) link (some other)

theorem update_injective {Key : Type*} {keyOf : Link → Option Key}
    {key : Key} (injective : ∀ {first second other}, keyOf first = some other →
        keyOf second = some other → first = second) (unused : ∀ other, keyOf other ≠ some key)
    {first second : Link} {other : Key} (firstKey : update keyOf link (some key) first = some other)
    (secondKey : update keyOf link (some key) second = some other) : first = second := by
  rw [update_apply] at firstKey secondKey
  split at firstKey
  next firstSame =>
    split at secondKey
    next secondSame => exact firstSame.trans secondSame.symm
    · cases firstKey
      exact (unused second secondKey).elim
  · split at secondKey
    · cases secondKey
      exact (unused first firstKey).elim
    · exact injective firstKey secondKey

/-- A new link, connected with the opposite link that a search among all
links has found. -/
theorem Paired.add (paired : Paired ends inverse)
    (free : ends link = none) (unused : ∀ other, ends other ≠ some (source, target))
    {opposite : Option Link} (sound : ∀ other, opposite = some other →
        update ends link (some (source, target)) other = some (target, source)) (complete : ∀ other,
        update ends link (some (source, target)) other = some (target, source) → opposite ≠ none) :
    Paired (update ends link (some (source, target))) (connect inverse link opposite) where
  injective := update_injective paired.injective unused
  inverse_iff := by
    have found : ∀ other, opposite = some other ↔
          update ends link (some (source, target)) other = some (target, source) := by
      intro other
      refine ⟨sound other, ?_⟩
      intro ends2
      obtain ⟨chosen, isChosen⟩ := ne_none_iff_exists'.mp (complete other ends2)
      rw [isChosen, update_injective paired.injective unused (sound chosen isChosen) ends2]
    intro first start finish firstEnds other
    rcases eq_or_ne first link with rfl | ne
    · rw [update_self] at firstEnds
      cases firstEnds
      rw [← found other]
      cases opposite with
      | none => simp [connect]
      | some opposite => simp [connect]
    · have oldEnds : ends first = some (start, finish) := by
        rwa [update_of_ne ne] at firstEnds
      by_cases isOpposite : opposite = some first
      · have firstOpposite := (found first).mp isOpposite
        rw [firstEnds] at firstOpposite
        cases firstOpposite
        subst opposite
        simp only [connect, update_of_ne ne, update_self]
        rw [update_apply]
        split
        next same => simp [same]
        next otherNe =>
          refine ⟨fun same => (otherNe ?_).elim, ?_⟩
          · exact (some.inj same).symm
          · intro ends2
            exact (unused other ends2).elim
      · have pointer : connect inverse link opposite first = inverse first := by
          cases opposite with
          | none => exact update_of_ne ne _ _
          | some opposite =>
            have apart : first ≠ opposite := by
              rintro rfl
              exact isOpposite rfl
            simp only [connect, update_of_ne ne, update_of_ne apart]
        rw [pointer, paired.inverse_iff oldEnds, update_apply]
        split
        next same =>
          subst other
          rw [free]
          refine ⟨nofun, ?_⟩
          intro linkEnds
          cases linkEnds
          exact (isOpposite ((found first).mpr firstEnds)).elim
        · exact Iff.rfl

end Opposites

end QosOlsr.Library
