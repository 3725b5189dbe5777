import QosOlsr.Library.Choice
import QosOlsr.Mpr.Selection

/-!
# Which neighbours become relays

The relays after `olsr_calculate_lq_mpr` are the heads that were relays, the
neighbours that are always willing, and the ones selected for a two-hop
neighbour.
-/

namespace QosOlsr.Mpr

open Library Function List

universe u v

variable {Addr : Type u} {Ptr : Type v} {st : State Ptr}

def FirstBestPath (nbr : Ptr → Neighbor Addr) (walkers : List (NeighborListEntry Ptr))
    (best : NeighborListEntry Ptr) : Prop :=
  ∃ front back, walkers = front ++ best :: back ∧ (nbr best.neighbor).status = .sym ∧
    (∀ walker ∈ front, (nbr walker.neighbor).status = .sym →
      best.pathLinkcost < walker.pathLinkcost) ∧
    ∀ walker ∈ back, (nbr walker.neighbor).status = .sym → best.pathLinkcost ≤ walker.pathLinkcost

variable {walkers : List (NeighborListEntry Ptr)} {nbr : Ptr → Neighbor Addr}
  {best : NeighborListEntry Ptr}

theorem FirstBestPath.firstLeast (isBest : FirstBestPath nbr walkers best) :
    FirstLeast (fun walker => (nbr walker.neighbor).status = .sym)
      NeighborListEntry.pathLinkcost walkers best :=
  isBest

theorem exists_firstBestPath (hasSym : ∃ walker ∈ walkers, (nbr walker.neighbor).status = .sym) :
    ∃ best, FirstBestPath nbr walkers best :=
  exists_firstLeast hasSym

theorem bestWalker_eq_some_iff
    {best1hop : Nat} {ptr : Ptr} : bestWalker nbr (fun _ => false) best1hop walkers = some ptr ↔
      ∃ walker, FirstBestPath nbr walkers walker ∧ walker.pathLinkcost < linkCostBroken ∧
      walker.pathLinkcost < best1hop ∧ walker.neighbor = ptr := by
  have steps : ∀ (best : Option Ptr × Nat) walker, betterWalker nbr (fun _ => false) best walker =
      if (nbr walker.neighbor).status = .sym ∧ walker.pathLinkcost < best.2 then
        (some walker.neighbor, walker.pathLinkcost)
      else best := by
    simp [betterWalker]
  unfold bestWalker
  rcases foldl_firstLeast steps (fun _ => rfl) walkers (none, linkCostBroken) with
    ⟨isNone, broken⟩ | ⟨best, isBest, first, usable⟩
  · rw [isNone]
    constructor
    · intro isSome
      cases isSome
    · rintro ⟨walker, isFirst, usable, -⟩
      exact absurd usable (broken walker isFirst.firstLeast.mem isFirst.firstLeast.ok).not_gt
  · rw [isBest]
    simp only [Option.filter_eq_some_iff, Option.some.injEq, decide_eq_true_eq]
    constructor
    · rintro ⟨isPtr, isBetter⟩
      exact ⟨best, first, usable, isBetter, isPtr⟩
    · rintro ⟨walker, isFirst, -, isBetter, isPtr⟩
      obtain rfl := first.unique isFirst.firstLeast
      exact ⟨isPtr, isBetter⟩

private theorem bestWalker_congr {skip : Ptr → Bool}
    (unskipped : ∀ walker ∈ walkers, skip walker.neighbor = false) (best1hop : Nat) :
    bestWalker nbr skip best1hop walkers = bestWalker nbr (fun _ => false) best1hop walkers := by
  have same : ∀ best, walkers.foldl (betterWalker nbr skip) best =
          walkers.foldl (betterWalker nbr fun _ => false) best := by
    induction walkers with
    | nil => exact fun _ => rfl
    | cons walker rest ih =>
      intro best
      have step :
          betterWalker nbr skip best walker = betterWalker nbr (fun _ => false) best walker := by
        unfold betterWalker
        rw [unskipped walker mem_cons_self]
      rw [foldl_cons, foldl_cons, step]
      exact ih (fun other inRest => unskipped other (mem_cons_of_mem walker inRest)) _
  unfold bestWalker
  rw [same]

variable [DecidableEq Ptr]

theorem clearSkip_flags (walkers : List (NeighborListEntry Ptr)) (st : State Ptr) (ptr : Ptr) :
    ((clearSkip walkers st).flags ptr).isMpr = (st.flags ptr).isMpr ∧
      ((clearSkip walkers st).flags ptr).wasMpr = (st.flags ptr).wasMpr := by
  unfold clearSkip
  dsimp only
  generalize st.flags = flags
  induction walkers generalizing flags with
  | nil => exact ⟨rfl, rfl⟩
  | cons walker rest ih =>
    rw [foldl_cons]
    refine ⟨(ih _).1.trans ?_, (ih _).2.trans ?_⟩
    · by_cases isPtr : ptr = walker.neighbor
      · rw [isPtr, update_self]
      · rw [update_of_ne isPtr]
    · by_cases isPtr : ptr = walker.neighbor
      · rw [isPtr, update_self]
      · rw [update_of_ne isPtr]

theorem clearSkip_skip (walkers : List (NeighborListEntry Ptr)) (st : State Ptr) :
    ∀ walker ∈ walkers, ((clearSkip walkers st).flags walker.neighbor).skip = false := by
  have kept : ∀ (rest : List (NeighborListEntry Ptr)) (flags : Ptr → MprFlags) (ptr : Ptr),
        (flags ptr).skip = false ∨ (∃ walker ∈ rest, walker.neighbor = ptr) →
        (rest.foldl
          (fun flags walker =>
            update flags walker.neighbor
              { flags walker.neighbor with skip := false }) flags ptr).skip =
            false := by
    intro rest
    induction rest with
    | nil =>
      rintro flags ptr (isClear | ⟨walker, isMem, -⟩)
      · exact isClear
      · cases isMem
    | cons first rest ih =>
      intro flags ptr isClear
      rw [foldl_cons]
      refine ih _ ptr ?_
      by_cases isPtr : ptr = first.neighbor
      · left
        rw [isPtr, update_self]
      · rw [update_of_ne isPtr]
        rcases isClear with isClear | ⟨walker, isMem, isNbr⟩
        · exact Or.inl isClear
        · rcases List.mem_cons.mp isMem with rfl | inRest
          · exact absurd isNbr.symm isPtr
          · exact Or.inr ⟨walker, inRest, isNbr⟩
  intro walker isMem
  exact kept walkers st.flags walker.neighbor (Or.inr ⟨walker, isMem, rfl⟩)

def selectedWalker (nbr : Ptr → Neighbor Addr) (neigh2 : Neighbor2Entry Addr Ptr)
    (best1hop : Nat) : Option Ptr :=
  match bestWalker nbr (fun _ => false) best1hop neigh2.neighbor2Nblist with
  | some neigh => some neigh
  | none =>
    if neigh2.is2hop = false then
      neigh2.neighbor2Nblist.head?.map NeighborListEntry.neighbor
    else
      none

structure Marks (st after : State Ptr) (selected : Option Ptr) : Prop where
  isMpr : ∀ ptr, (after.flags ptr).isMpr = true ↔ (st.flags ptr).isMpr = true ∨ selected = some ptr
  wasMpr : ∀ ptr, (after.flags ptr).wasMpr = (st.flags ptr).wasMpr
  changes : after.mprChanges = true ↔
      st.mprChanges = true ∨ ∃ ptr, selected = some ptr ∧ (st.flags ptr).wasMpr = false

omit [DecidableEq Ptr] in
theorem Marks.refl (st : State Ptr) : Marks st st none where
  isMpr ptr := by simp
  wasMpr ptr := rfl
  changes := by simp

theorem Marks.markMpr (st : State Ptr) (ptr : Ptr) : Marks st (Mpr.markMpr st ptr) (some ptr) where
  isMpr other := by
    unfold Mpr.markMpr
    by_cases isPtr : other = ptr
    · simp [isPtr]
    · simp [isPtr, Ne.symm isPtr]
  wasMpr other := by
    unfold Mpr.markMpr
    by_cases isPtr : other = ptr
    · simp [isPtr]
    · simp [isPtr]
  changes := by simp [Mpr.markMpr]

/-- What is read of the flags before the selection does not matter. -/
theorem Marks.clearSkip {after : State Ptr} {selected : Option Ptr}
    (marks : Marks (Mpr.clearSkip walkers st) after selected) : Marks st after selected where
  isMpr ptr := by rw [marks.isMpr, (clearSkip_flags walkers st ptr).1]
  wasMpr ptr := by rw [marks.wasMpr, (clearSkip_flags walkers st ptr).2]
  changes := by
    rw [marks.changes]
    simp only [(clearSkip_flags walkers st _).2]
    rfl

variable {neigh2 : Neighbor2Entry Addr Ptr}

section

variable (unskipped : ∀ walker ∈ neigh2.neighbor2Nblist, (st.flags walker.neighbor).skip = false)
include unskipped

theorem coverLoop_succ {best1hop : Nat} (k : Nat) :
    coverLoop nbr neigh2 best1hop (k + 1) st =
      match selectedWalker nbr neigh2 best1hop with
      | some ptr => some (markMpr st ptr)
      | none =>
        if neigh2.is2hop = false then
          none
        else
          coverLoop nbr neigh2 best1hop k st := by
  rw [coverLoop, bestWalker_congr unskipped]
  unfold selectedWalker
  cases bestWalker nbr (fun _ => false) best1hop neigh2.neighbor2Nblist with
  | some neigh => rfl
  | none =>
    by_cases notTwoHop : neigh2.is2hop = false
    · simp only [if_pos notTwoHop]
      cases neigh2.neighbor2Nblist with
      | nil => rfl
      | cons walker rest => rfl
    · simp only [if_neg notTwoHop]

/-- Where no neighbour of the list is skipped, the loop selects once. -/
theorem coverLoop_eq {best1hop : Nat} (coverage : Nat) :
    coverLoop nbr neigh2 best1hop (coverage + 1) st =
      match selectedWalker nbr neigh2 best1hop with
      | some ptr => some (markMpr st ptr)
      | none => if neigh2.is2hop = false then none else some st := by
  induction coverage with
  | zero => exact coverLoop_succ unskipped 0
  | succ coverage ih =>
    rw [coverLoop_succ unskipped, ih]
    cases selectedWalker nbr neigh2 best1hop with
    | some ptr => rfl
    | none =>
      by_cases notTwoHop : neigh2.is2hop = false
      · simp only [if_pos notTwoHop]
      · simp only [if_neg notTwoHop]

end

/-- The first pass resets each neighbour of the table. -/
theorem foldl_resetNeighbor (tables : Tables Addr Ptr) {ptrs : List Ptr} (nodup : ptrs.Nodup) :
    ∀ st : State Ptr,
      (∀ ptr, (ptrs.foldl (resetNeighbor tables) st).flags ptr =
          if ptr ∈ ptrs then
            resetFlags (tables.nbr ptr) (st.flags ptr)
          else
            st.flags ptr) ∧
      ((ptrs.foldl (resetNeighbor tables) st).mprChanges = true ↔ st.mprChanges = true ∨
          ∃ ptr ∈ ptrs, (tables.nbr ptr).IsAlways ∧ (st.flags ptr).isMpr = false) := by
  induction ptrs with
  | nil =>
    intro st
    exact ⟨fun _ => rfl, by simp⟩
  | cons first rest ih =>
    intro st
    obtain ⟨notInRest, restNodup⟩ := nodup_cons.mp nodup
    obtain ⟨flagsEq, changesIff⟩ := ih restNodup (resetNeighbor tables st first)
    rw [foldl_cons]
    constructor
    · intro ptr
      rw [flagsEq ptr]
      by_cases isFirst : ptr = first
      · rw [isFirst, if_neg notInRest, if_pos mem_cons_self]
        exact update_self ..
      · have flagsSame : (resetNeighbor tables st first).flags ptr = st.flags ptr :=
          update_of_ne isFirst _ _
        rw [flagsSame]
        simp [isFirst]
    · rw [changesIff]
      have changed : (resetNeighbor tables st first).mprChanges = true ↔
            st.mprChanges = true ∨
              (tables.nbr first).IsAlways ∧ (st.flags first).isMpr = false := by
        unfold resetNeighbor resetFlags
        by_cases isAlways : (tables.nbr first).IsAlways
        · cases (st.flags first).isMpr with
          | false => simp [isAlways]
          | true => simp [isAlways]
        · simp [isAlways]
      have restSame :
          (∃ ptr ∈ rest, (tables.nbr ptr).IsAlways ∧
            ((resetNeighbor tables st first).flags ptr).isMpr = false) ↔
            ∃ ptr ∈ rest, (tables.nbr ptr).IsAlways ∧ (st.flags ptr).isMpr = false := by
        refine exists_congr fun ptr => and_congr_right fun inRest => ?_
        have isOther : ptr ≠ first := fun same => notInRest (same ▸ inRest)
        have flagsSame : (resetNeighbor tables st first).flags ptr = st.flags ptr :=
          update_of_ne isOther _ _
        rw [flagsSame]
      rw [changed, restSame, or_assoc]
      simp

variable [DecidableEq Addr]

def selectedFor (cfg : Config Addr) (tables : Tables Addr Ptr)
    (neigh2 : Neighbor2Entry Addr Ptr) : Option Ptr :=
  if cfg.mprCoverage = 0 then
    none
  else
    (bestOneHop cfg tables neigh2).bind (selectedWalker tables.nbr neigh2)

variable {tables : Tables Addr Ptr} {cfg : Config Addr}

private theorem coverTwoHop_marks {after : State Ptr}
    (covered : coverTwoHop cfg tables st neigh2 = some after) :
    Marks st after (selectedFor cfg tables neigh2) := by
  unfold coverTwoHop at covered
  unfold selectedFor
  cases isBest : bestOneHop cfg tables neigh2 with
  | none =>
    rw [isBest] at covered
    obtain rfl := Option.some.inj covered
    rw [Option.bind_none, ite_self]
    exact Marks.refl st
  | some best1hop =>
    rw [isBest] at covered
    cases coverage : cfg.mprCoverage with
    | zero =>
      rw [coverage] at covered
      obtain rfl := Option.some.inj covered
      exact (Marks.refl _).clearSkip
    | succ k =>
      simp only [coverage] at covered
      rw [coverLoop_eq (clearSkip_skip _ st)] at covered
      rw [if_neg (Nat.succ_ne_zero k), Option.bind_some]
      cases isSelected : selectedWalker tables.nbr neigh2 best1hop with
      | some ptr =>
        rw [isSelected] at covered
        obtain rfl := Option.some.inj covered
        exact (Marks.markMpr _ ptr).clearSkip
      | none =>
        rw [isSelected] at covered
        by_cases notTwoHop : neigh2.is2hop = false
        · simp only [if_pos notTwoHop, reduceCtorEq] at covered
        · simp only [if_neg notTwoHop] at covered
          obtain rfl := Option.some.inj covered
          exact (Marks.refl _).clearSkip

theorem coverTwoHop_isSome (hasNbr : neigh2.is2hop = false → neigh2.neighbor2Nblist ≠ [])
    (st : State Ptr) : (coverTwoHop cfg tables st neigh2).isSome := by
  unfold coverTwoHop
  cases bestOneHop cfg tables neigh2 with
  | none => rfl
  | some best1hop =>
    cases cfg.mprCoverage with
    | zero => rfl
    | succ k =>
      simp only [coverLoop_eq (clearSkip_skip _ st)]
      cases isSelected : selectedWalker tables.nbr neigh2 best1hop with
      | some ptr => rfl
      | none =>
        by_cases notTwoHop : neigh2.is2hop = false
        · exfalso
          unfold selectedWalker at isSelected
          cases isBest : bestWalker tables.nbr (fun _ => false) best1hop neigh2.neighbor2Nblist with
          | some neigh => simp [isBest] at isSelected
          | none =>
            simp only [isBest, if_pos notTwoHop, Option.map_eq_none_iff,
              head?_eq_none_iff] at isSelected
            exact hasNbr notTwoHop isSelected
        · simp [if_neg notTwoHop]

structure MarksAll (st after : State Ptr) (selections : List (Option Ptr)) : Prop where
  isMpr :
    ∀ ptr, (after.flags ptr).isMpr = true ↔ (st.flags ptr).isMpr = true ∨ some ptr ∈ selections
  wasMpr : ∀ ptr, (after.flags ptr).wasMpr = (st.flags ptr).wasMpr
  changes : after.mprChanges = true ↔
      st.mprChanges = true ∨ ∃ ptr, some ptr ∈ selections ∧ (st.flags ptr).wasMpr = false

theorem foldlM_coverTwoHop_marksAll (neigh2s : List (Neighbor2Entry Addr Ptr)) :
    ∀ {st after : State Ptr}, neigh2s.foldlM (coverTwoHop cfg tables) st = some after →
      MarksAll st after (neigh2s.map (selectedFor cfg tables)) := by
  induction neigh2s with
  | nil =>
    intro st after covered
    obtain rfl := Option.some.inj covered
    exact ⟨by simp, fun _ => rfl, by simp⟩
  | cons neigh2 rest ih =>
    intro st after covered
    rw [foldlM_cons] at covered
    obtain ⟨middle, firstEq, restEq⟩ := Option.bind_eq_some_iff.mp covered
    have first := coverTwoHop_marks firstEq
    have others := ih restEq
    rw [map_cons]
    constructor
    case isMpr =>
      intro ptr
      rw [others.isMpr, first.isMpr, List.mem_cons, or_assoc, eq_comm (a := some ptr)]
    case wasMpr =>
      intro ptr
      rw [others.wasMpr, first.wasMpr]
    case changes =>
      rw [others.changes, first.changes, or_assoc]
      refine or_congr_right ?_
      simp only [first.wasMpr, List.mem_cons]
      constructor
      · rintro (⟨ptr, isSelected, wasNot⟩ | ⟨ptr, isMem, wasNot⟩)
        · exact ⟨ptr, Or.inl isSelected.symm, wasNot⟩
        · exact ⟨ptr, Or.inr isMem, wasNot⟩
      · rintro ⟨ptr, isSelected | isMem, wasNot⟩
        · exact Or.inl ⟨ptr, isSelected.symm, wasNot⟩
        · exact Or.inr ⟨ptr, isMem, wasNot⟩

end QosOlsr.Mpr
