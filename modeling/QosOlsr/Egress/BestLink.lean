import QosOlsr.Egress.Links
import QosOlsr.Library.Choice

/-!
# The choice of the best egress link

The loop starts from the first interface without a look at it, so that one that
must not be chosen can keep out all the others.
-/

namespace QosOlsr.Egress

open Gateways Library List

variable (world : EgressWorld)

def IsOpen (egress : EgressIf) : Prop :=
  egress.upCurrent = true ∧ world.isInterfaceUp egress.ifIndex = true

def Selectable (egress : EgressIf) : Prop := IsOpen world egress ∧ egress.bwCurrent.costs < int64Max

/-- The first of the cheapest interfaces that may be selected, or none without
any. -/
def SelectsCheapest (interfaces : List EgressIf) : Option Nat → Prop
  | none => ∀ egress ∈ interfaces, ¬ Selectable world egress
  | some place => ∃ egress,
      FirstLeast (fun candidate => Selectable world candidate.1)
        (fun candidate => candidate.1.bwCurrent.costs) interfaces.zipIdx (egress, place)

/-- The first interface may be selected or is beaten by one that may. -/
def StartsWell : List EgressIf → Prop
  | [] => True
  | first :: rest => Selectable world first ∨ first.bwCurrent.costs = int64Max ∨
      ∃ egress ∈ rest, Selectable world egress ∧ egress.bwCurrent.costs < first.bwCurrent.costs

variable {world} {first : EgressIf} {rest : List EgressIf}

/-- The loop leaves the first interface, or the first of the cheapest open ones,
which is cheaper. -/
theorem bestEgress_cases (world : EgressWorld) (first : EgressIf) (rest : List EgressIf) :
    ∃ best, bestEgress world (first :: rest) =
        (if best.1.upCurrent = false ∨ best.1.bwCurrent.costs = int64Max then none
        else some best.2) ∧
      (∀ egress ∈ rest, IsOpen world egress → best.1.bwCurrent.costs ≤ egress.bwCurrent.costs) ∧
      (best = (first, 0) ∨ best.1 ∈ rest ∧ best.1.bwCurrent.costs < first.bwCurrent.costs ∧
        FirstLeast (fun cand => IsOpen world cand.1)
          (fun cand => cand.1.bwCurrent.costs) (rest.zipIdx 1) best) := by
  classical
  have steps : ∀ best cand, betterEgress world best cand =
      if IsOpen world cand.1 ∧ cand.1.bwCurrent.costs < best.1.bwCurrent.costs then
        cand
      else best := by
    intro best cand
    simp only [betterEgress, IsOpen, Bool.and_eq_true, decide_eq_true_eq]
    congr 1
    exact propext (by tauto)
  have placed : ∀ egress ∈ rest, ∃ place, (egress, place) ∈ rest.zipIdx 1 := by
    intro egress member
    rw [← zipIdx_map_fst 1 rest] at member
    obtain ⟨⟨_, place⟩, isThere, rfl⟩ := mem_map.mp member
    exact ⟨place, isThere⟩
  refine ⟨_, rfl, ?_⟩
  rcases foldl_firstLeast steps (fun _ => rfl) (rest.zipIdx 1) (first, 0) with
    ⟨stays, above⟩ | ⟨best, isBest, least, cheaper⟩
  · rw [stays]
    refine ⟨fun egress member isOpen => ?_, .inl rfl⟩
    obtain ⟨place, isThere⟩ := placed egress member
    exact above _ isThere isOpen
  · rw [isBest]
    refine ⟨fun egress member isOpen => ?_, .inr ⟨?_, cheaper, least⟩⟩
    · obtain ⟨place, isThere⟩ := placed egress member
      exact least.least isThere isOpen
    · exact fst_mem_of_mem_zipIdx least.mem

/-- After a good start the choice is right. -/
theorem bestEgress_selects {interfaces : List EgressIf} (starts : StartsWell world interfaces) :
    SelectsCheapest world interfaces (bestEgress world interfaces) := by
  cases interfaces with
  | nil => simp [bestEgress, SelectsCheapest]
  | cons first rest =>
    obtain ⟨best, isBest, cheapest, found⟩ := bestEgress_cases world first rest
    rw [isBest]
    rcases found with rfl | ⟨-, cheaper, least⟩
    · rcases starts with selectable | infinite | ⟨egress, mem, selectable, cheaper⟩
      · rw [if_neg (by simp [selectable.1.1, selectable.2.ne])]
        refine ⟨first, firstLeast_cons_self selectable fun other mem otherSelectable => ?_⟩
        exact cheapest other.1 (fst_mem_of_mem_zipIdx mem) otherSelectable.1
      · rw [if_pos (.inr infinite)]
        intro other mem selectable
        rcases mem_cons.mp mem with rfl | inRest
        · exact selectable.2.ne infinite
        · exact (cheapest other inRest selectable.1).not_gt (infinite ▸ selectable.2)
      · exact absurd cheaper (cheapest egress mem selectable.1).not_gt
    · have finite : best.1.bwCurrent.costs < int64Max := by
        rcases starts with selectable | infinite | ⟨egress, mem, selectable, -⟩
        · exact cheaper.trans selectable.2
        · exact infinite ▸ cheaper
        · exact (cheapest egress mem selectable.1).trans_lt selectable.2
      rw [if_neg (by simp [least.ok.1, finite.ne])]
      have narrowed : FirstLeast (fun cand => Selectable world cand.1)
          (fun cand => cand.1.bwCurrent.costs) (rest.zipIdx 1) best :=
        least.mono (fun _ => And.left) ⟨least.ok, finite⟩
      refine ⟨best.1, narrowed.cons ?_⟩
      exact fun _ => cheaper

/-- The first of the cheapest interfaces that may be selected is selected exactly
after a good start, or if there is none and the first interface is down. -/
theorem determineBestEgressLink_selects_iff {phase : ChangePhase} (running : phase ≠ .shutdown)
    {st : EgressState} (bounded : ∀ egress ∈ st.interfaces, egress.bwCurrent.costs ≤ int64Max) :
    SelectsCheapest world st.interfaces
        (determineBestEgressLink world phase st).1.bestEgressLink ↔
      StartsWell world st.interfaces ∨ (∀ egress ∈ st.interfaces, ¬ Selectable world egress) ∧
          ∀ first ∈ st.interfaces.head?, first.upCurrent = false := by
  simp only [determineBestEgressLink, if_neg running]
  generalize st.interfaces = interfaces at bounded
  cases interfaces with
  | nil => exact iff_of_true (bestEgress_selects trivial) (.inl trivial)
  | cons first rest =>
    obtain ⟨best, isBest, -, found⟩ := bestEgress_cases world first rest
    constructor
    · intro selects
      by_contra wrong
      simp only [StartsWell, not_or] at wrong
      obtain ⟨⟨unfit, notInfinite, hidden⟩, exposed⟩ := wrong
      have finite := lt_of_le_of_ne (bounded first mem_cons_self) notInfinite
      rcases found with rfl | ⟨inRest, cheaper, least⟩
      · rw [isBest] at selects
        split at selects
        next down => exact exposed ⟨selects, by simpa using down.resolve_right finite.ne⟩
        · obtain ⟨egress, isLeast⟩ := selects
          cases mk_mem_zipIdx_iff_getElem?.mp isLeast.mem
          exact unfit isLeast.ok
      · exact hidden ⟨best.1, inRest, ⟨least.ok, cheaper.trans finite⟩, cheaper⟩
    · rintro (starts | ⟨unfit, down⟩)
      · exact bestEgress_selects starts
      · rw [isBest]
        rcases found with rfl | ⟨inRest, cheaper, least⟩
        · rw [if_pos (.inl (down first rfl))]
          exact unfit
        · have finite := cheaper.trans_le (bounded first mem_cons_self)
          exact absurd ⟨least.ok, finite⟩ (unfit best.1 (mem_cons_of_mem _ inRest))

def onlyFourUp : EgressWorld where
  indexToName := fun _ => none
  isInterfaceUp := fun ifIndex => decide (ifIndex = 4)
  up_pos := by
    intro ifIndex isUp
    rw [of_decide_eq_true isUp]
    decide

def egressStateOf (interfaces : List (Int × Int)) : EgressState where
  interfaces := interfaces.map fun (ifIndex, costs) =>
    let bw := ⟨true, true, 0, 0, 0, none, none, costs⟩
    ⟨0, ifIndex, true, false, bw, bw, false, false, false, false, true⟩
  bestEgressLinkPrevious := none
  bestEgressLink := none
  bestEgressLinkRoute := ⟨false, zeroRoute⟩
  kernel := []

theorem determineBestEgressLink_selects_second :
    SelectsCheapest onlyFourUp (egressStateOf [(3, int64Max), (4, 2)]).interfaces
      (determineBestEgressLink onlyFourUp .runtime
        (egressStateOf [(3, int64Max), (4, 2)])).1.bestEgressLink :=
  (determineBestEgressLink_selects_iff (by decide) (by decide)).mpr (.inl (.inr (.inl rfl)))

/-- The first interface is not up, and is selected because it is the cheapest. -/
theorem determineBestEgressLink_selects_closed :
    (determineBestEgressLink onlyFourUp .runtime
      (egressStateOf [(3, 1), (4, 2)])).1.bestEgressLink = some 0 ∧
    ¬ SelectsCheapest onlyFourUp (egressStateOf [(3, 1), (4, 2)]).interfaces (some 0) := by
  refine ⟨by decide, ?_⟩
  rintro ⟨egress, isLeast⟩
  cases mk_mem_zipIdx_iff_getElem?.mp isLeast.mem
  exact absurd isLeast.ok.1.2 (by decide)

end QosOlsr.Egress
