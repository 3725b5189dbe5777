import QosOlsr.Gateways.Safety

/-!
# Order of the gateway lists

A list that is in order of the costs has its worst gateway last.  Taking down
removes from the end down to a boundary, which is a percentage of the cost of
the current gateway.
-/

namespace QosOlsr.Gateways

open Library List

variable {ver : IpVersion} {cfg : GwConfig} {st : GwState ver} {family : Family}

section Weighing

section

variable (cfg : GwConfig)

/-- The divider and the weights are set, each in its byte. -/
def Weighted : Prop :=
  ∀ value ∈ [cfg.smartGwDividerEtx, cfg.smartGwWeightExitlinkUp,
    cfg.smartGwWeightExitlinkDown, cfg.smartGwWeightEtx], 0 < value ∧ value ≤ 255

variable (pathCost exitUk exitDk : Nat)

def weighedCost : Nat :=
  1000 * cfg.smartGwWeightExitlinkUp * 2 ^ 23 / exitUk +
    1000 * cfg.smartGwWeightExitlinkDown * 2 ^ 23 / exitDk +
    pathCost * cfg.smartGwWeightEtx * 2 ^ 23 / cfg.smartGwDividerEtx

/-- The best links, for which only the path counts and no product is formed. -/
def OnlyPath : Prop :=
  maxSmartgwSpeed ≤ exitUk ∧ maxSmartgwSpeed ≤ exitDk ∧ pathCost < cfg.smartGwPathMaxCostEtxMax

instance : Decidable (OnlyPath cfg pathCost exitUk exitDk) := instDecidableAnd

/-- The products that `gw_costs_weigh` forms. -/
def formedProducts : List Nat :=
  if OnlyPath cfg pathCost exitUk exitDk then
    []
  else
    [1000 * cfg.smartGwWeightExitlinkUp, 1000 * cfg.smartGwWeightExitlinkDown,
      pathCost * cfg.smartGwWeightEtx]

end

variable {pathCost longer exitUk exitDk fasterUk fasterDk : Nat} (weighted : Weighted cfg)
include weighted

theorem gwCostsWeigh_eq (uplink : 0 < exitUk) (downlink : 0 < exitDk)
    (fits : ¬ OnlyPath cfg pathCost exitUk exitDk → pathCost * cfg.smartGwWeightEtx < 2 ^ 32) :
    gwCostsWeigh cfg pathCost exitUk exitDk =
      ((if OnlyPath cfg pathCost exitUk exitDk then pathCost
      else weighedCost cfg pathCost exitUk exitDk : Nat) : Int) := by
  have divider := weighted cfg.smartGwDividerEtx (by simp)
  rw [gwCostsWeigh, if_neg (by omega), if_neg (by omega)]
  by_cases only : OnlyPath cfg pathCost exitUk exitDk
  · rw [if_pos only]
    exact if_pos only
  · rw [if_neg only]
    refine (if_neg only).trans ?_
    simp only [Nat.shiftLeft_eq, Nat.mod_eq_of_lt (fits only)]
    rfl

private theorem le_weighedCost (pathCost exitUk exitDk : Nat) :
    pathCost ≤ weighedCost cfg pathCost exitUk exitDk := by
  have divider := weighted cfg.smartGwDividerEtx (by simp)
  have weight := weighted cfg.smartGwWeightEtx (by simp)
  refine le_trans ?_ (Nat.le_add_left _ _)
  rw [Nat.le_div_iff_mul_le divider.1, mul_assoc]
  refine Nat.mul_le_mul_left _ (?_ : _ ≤ _ * 2 ^ 23)
  omega

private theorem weighedCost_lt
    (exitUk exitDk : Nat) (fits : pathCost * cfg.smartGwWeightEtx < 2 ^ 32) :
    weighedCost cfg pathCost exitUk exitDk < 2 ^ 56 := by
  have up := weighted cfg.smartGwWeightExitlinkUp (by simp)
  have down := weighted cfg.smartGwWeightExitlinkDown (by simp)
  have costU := Nat.div_le_self (1000 * cfg.smartGwWeightExitlinkUp * 2 ^ 23) exitUk
  have costD := Nat.div_le_self (1000 * cfg.smartGwWeightExitlinkDown * 2 ^ 23) exitDk
  have costE := Nat.div_le_self (pathCost * cfg.smartGwWeightEtx * 2 ^ 23) cfg.smartGwDividerEtx
  rw [weighedCost]
  omega

/-- A longer path or slower links never cost less, below the infinite cost and
without a product that leaves its type, exactly while the weighted path cost has
no more than 32 bits where it is formed. -/
theorem gwCostsWeigh_monotone_iff (uplink : 0 < exitUk) (downlink : 0 < exitDk)
    (isLonger : pathCost ≤ longer) (wide : longer < 2 ^ 32) (isFasterUk : exitUk ≤ fasterUk)
    (isFasterDk : exitDk ≤ fasterDk) :
    (gwCostsWeigh cfg pathCost fasterUk fasterDk ≤ gwCostsWeigh cfg longer exitUk exitDk ∧
      gwCostsWeigh cfg longer exitUk exitDk < int64Max ∧
      ∀ product ∈ formedProducts cfg longer exitUk exitDk,
        product < 2 ^ 32 ∧ product <<< 23 < 2 ^ 63) ↔
      (¬ OnlyPath cfg longer exitUk exitDk → longer * cfg.smartGwWeightEtx < 2 ^ 32) := by
  constructor
  · rintro ⟨-, -, products⟩ formed
    exact (products _ (by simp [formedProducts, formed])).1
  intro fits
  have shorter : pathCost * cfg.smartGwWeightEtx ≤ longer * cfg.smartGwWeightEtx :=
    Nat.mul_le_mul_right _ isLonger
  -- Where the worse of the two costs its path alone, so does the better.
  have onlyPath : OnlyPath cfg longer exitUk exitDk → OnlyPath cfg pathCost fasterUk fasterDk := by
    rintro ⟨fastUk, fastDk, near⟩
    exact ⟨fastUk.trans isFasterUk, fastDk.trans isFasterDk, isLonger.trans_lt near⟩
  have cost_le :
      weighedCost cfg pathCost fasterUk fasterDk ≤ weighedCost cfg longer exitUk exitDk :=
    Nat.add_le_add (Nat.add_le_add (Nat.div_le_div_left isFasterUk uplink)
      (Nat.div_le_div_left isFasterDk downlink))
      (Nat.div_le_div_right (Nat.mul_le_mul_right _ shorter))
  have longer_le := le_weighedCost weighted longer exitUk exitDk
  rw [gwCostsWeigh_eq weighted (by omega) (by omega)
      fun formed => shorter.trans_lt (fits fun only => formed (onlyPath only)),
    gwCostsWeigh_eq weighted uplink downlink fits, formedProducts, int64Max]
  by_cases only : OnlyPath cfg longer exitUk exitDk
  · rw [if_pos only, if_pos only, if_pos (onlyPath only)]
    exact ⟨by omega, by omega, by simp⟩
  · have bounded := weighedCost_lt weighted exitUk exitDk (fits only)
    have up := weighted cfg.smartGwWeightExitlinkUp (by simp)
    have down := weighted cfg.smartGwWeightExitlinkDown (by simp)
    have product := fits only
    rw [if_neg only, if_neg only]
    simp only [forall_mem_cons, Nat.shiftLeft_eq]
    refine ⟨?_, by omega, by omega, by omega, by omega, by simp⟩
    split_ifs <;> omega

end Weighing

instance : Decidable (Weighted cfg) := inferInstanceAs (Decidable (∀ value ∈ _, _))

def doubledConfig : GwConfig := { singleConfig with smartGwDividerEtx := 1, smartGwWeightEtx := 2 }

theorem gwCostsWeigh_monotone_doubled : Weighted doubledConfig ∧
    gwCostsWeigh doubledConfig 1 3000 1000 ≤ gwCostsWeigh doubledConfig 2 2000 1000 := by
  have weighted : Weighted doubledConfig := by decide
  exact ⟨weighted, ((gwCostsWeigh_monotone_iff weighted (by decide) (by decide) (by decide)
    (by decide) (by decide) le_rfl).mpr fun _ => by decide).1⟩

theorem gwCostsWeigh_wraps : Weighted doubledConfig ∧
    gwCostsWeigh doubledConfig (2 ^ 31) 1 1 < gwCostsWeigh doubledConfig (2 ^ 31 - 1) 1 1 := by
  decide

section Boundary

variable {cost : Int}

/-- The products and sums that the computation of the boundary keeps in 64
bits. -/
def boundaryValues (cfg : GwConfig) (cost : Int) : List Int :=
  if cfg.smartGwTakedownPercentage < 100 then
    if cost ≤ int64Max / 100 then
      [cost * 100]
    else
      [cost.tdiv cfg.smartGwTakedownPercentage * 100,
        cost.tdiv cfg.smartGwTakedownPercentage * 100 + 99]
  else
    []

def BoundaryFits (cfg : GwConfig) (cost : Int) : Prop := cfg.smartGwTakedownPercentage < 100 →
    if cost ≤ int64Max / 100 then
      -2 ^ 63 ≤ cost * 100
    else
      cost / cfg.smartGwTakedownPercentage * 100 + 99 ≤ int64Max

theorem wrap64_eq_iff {value : Int} :
    wrap64 value = value ↔ -2 ^ 63 ≤ value ∧ value ≤ int64Max := by
  rw [wrap64, Int.bmod_def, int64Max]
  omega

theorem boundaryValues_fit_iff :
    (∀ value ∈ boundaryValues cfg cost, wrap64 value = value) ↔ BoundaryFits cfg cost := by
  rw [boundaryValues, BoundaryFits]
  by_cases partly : cfg.smartGwTakedownPercentage < 100
  · by_cases small : cost ≤ int64Max / 100
    · have below : cost * 100 ≤ int64Max := by
        rw [int64Max] at small ⊢
        omega
      simp [partly, small, wrap64_eq_iff, below]
    · have positive : 0 ≤ cost := by
        rw [int64Max] at small
        omega
      have quotient : 0 ≤ cost / (cfg.smartGwTakedownPercentage : Int) :=
        Int.ediv_nonneg positive (by omega)
      simp only [partly, small, if_true, if_false, forall_mem_cons, wrap64_eq_iff,
        Int.tdiv_eq_ediv_of_nonneg positive, forall_const]
      constructor
      · exact fun fits => fits.2.1.2
      · intro fits
        exact ⟨⟨by omega, by omega⟩, ⟨by omega, fits⟩, by simp⟩
  · simp [partly]

/-- The second formula rounds the quotient down first, and adds more than that
loses. -/
theorem exact_le_costBoundary (positive : 0 < cfg.smartGwTakedownPercentage)
    (most : cfg.smartGwTakedownPercentage ≤ 100)
    (fits : ∀ value ∈ boundaryValues cfg cost, wrap64 value = value) :
    cost * 100 / cfg.smartGwTakedownPercentage ≤ costBoundary cfg cost := by
  have divisor : 0 < (cfg.smartGwTakedownPercentage : Int) := by omega
  rw [boundaryValues] at fits
  rw [costBoundary]
  by_cases partly : cfg.smartGwTakedownPercentage < 100
  · rw [if_pos partly] at fits ⊢
    by_cases small : cost ≤ int64Max / 100
    · rw [if_pos small] at fits ⊢
      rw [fits _ (by simp), Int.tdiv_eq_ediv, Int.sign_eq_one_of_pos divisor]
      split <;> omega
    · rw [if_neg small] at fits ⊢
      have product := fits _ mem_cons_self
      have sum := fits _ (mem_cons_of_mem _ mem_cons_self)
      rw [product, sum, Int.tdiv_eq_ediv_of_nonneg (by rw [int64Max] at small; omega)]
      have below := Int.lt_ediv_add_one_mul_self cost divisor
      have exact : cost * 100 / cfg.smartGwTakedownPercentage <
          cost / cfg.smartGwTakedownPercentage * 100 + 100 := by
        rw [Int.ediv_lt_iff_lt_mul divisor]
        linarith
      omega
  · have whole : cfg.smartGwTakedownPercentage = 100 := by omega
    simp [whole]

end Boundary

/-- The loop removes from the end, and leaves the current gateway. -/
theorem ListsOk.takeDown_spec (boundary : Int) {curGw : Ptr}
    (fuel : Nat) (ok : ListsOk st) (listed : curGw ∈ (st.lists family).items) :
    ∃ after removed, takeDown family boundary curGw fuel st = some after ∧
      (st.lists family).items = (after.lists family).items ++ removed ∧
      curGw ∈ (after.lists family).items ∧ ∀ gone ∈ removed, boundary ≤ st.costOf gone := by
  induction fuel generalizing st with
  | zero => exact ⟨st, [], rfl, by simp, listed, by simp⟩
  | succ fuel ih =>
    rcases ok.takeDown_succ boundary curGw fuel with
      stops | ⟨front, worst, split, apart, expensive, goesOn⟩
    · exact ⟨st, [], stops, by simp, listed, by simp⟩
    · have nodup := (ok.list family).nodup
      rw [split] at nodup listed
      have missing : worst ∉ front := fun inFront =>
        (nodup_append.mp nodup).2.2 worst inFront worst (by simp) rfl
      have left : ((Gateways.withoutContainer st family worst).lists family).items = front := by
        simp [Gateways.withoutContainer, GwState.freeContainer, GwState.setList, split,
          erase_append_right _ missing]
      have worstListed : worst ∈ (st.lists family).items := by simp [split]
      obtain ⟨after, removed, isAfter, isSplit, kept, above⟩ :=
        ih (ok.withoutContainer worstListed) (by rw [left]; simpa [Ne.symm apart] using listed)
      rw [left] at isSplit
      refine ⟨after, removed ++ [worst], goesOn.trans isAfter, by simp [split, isSplit], kept, ?_⟩
      intro gone isGone
      rcases mem_append.mp isGone with isRemoved | isWorst
      · have ne : gone ≠ worst := by
          rintro rfl
          exact missing (isSplit ▸ mem_append_right _ isRemoved)
        rw [← costOf_withoutContainer ne]
        exact above gone isRemoved
      · rw [mem_singleton.mp isWorst]
        exact expensive

/-- What is taken down leaves the current gateway and all that are cheaper.  It
costs as much as the percentage has it and no value of the boundary overflows,
exactly if that boundary fits into 64 bits. -/
theorem takeDownExpensiveGateways_iff (cfg : GwConfig) (ok : ListsOk st)
    (sorted : SortedItems st (st.lists family).items) {currentGw : Ptr}
    (isCurrent : st.current family = some currentGw) (listed : currentGw ∈ (st.lists family).items)
    (positive : 0 < cfg.smartGwTakedownPercentage) (most : cfg.smartGwTakedownPercentage ≤ 100) :
    ∃ after removed, takeDownExpensiveGateways cfg family st = some after ∧
      (st.lists family).items = (after.lists family).items ++ removed ∧
      currentGw ∈ (after.lists family).items ∧
      (∀ cheaper ∈ (st.lists family).items, st.costOf cheaper < st.costOf currentGw →
        cheaper ∈ (after.lists family).items) ∧
      ((∀ gone ∈ removed, st.costOf currentGw * 100 / cfg.smartGwTakedownPercentage ≤
          st.costOf gone) ∧
        (1 < (st.lists family).count →
          ∀ value ∈ boundaryValues cfg (st.costOf currentGw), wrap64 value = value) ↔
        (1 < (st.lists family).count → BoundaryFits cfg (st.costOf currentGw))) := by
  by_cases several : 1 < (st.lists family).count
  · obtain ⟨gw, entry, held, _, isEntry⟩ := ok.container listed
    have cost := costOf_eq held isEntry
    obtain ⟨after, removed, isAfter, split, kept, above⟩ :=
      ok.takeDown_spec (costBoundary cfg entry.pathCost) (st.lists family).count listed
    refine ⟨after, removed, ?_, split, kept, ?_, ?_⟩
    · rw [takeDownExpensiveGateways, isCurrent]
      simp [held, isEntry, isAfter, positive.ne', several]
    · intro cheaper inList isCheaper
      rw [split] at inList
      refine (mem_append.mp inList).resolve_right fun isGone => ?_
      rw [SortedItems, split] at sorted
      have ordered := (pairwise_append.mp sorted).2.2 currentGw kept cheaper isGone
      omega
    · simp only [several, forall_const, boundaryValues_fit_iff, and_iff_right_iff_imp]
      intro fits gone isGone
      have exact := exact_le_costBoundary positive most (boundaryValues_fit_iff.mpr fits)
      rw [cost] at exact ⊢
      exact exact.trans (above gone isGone)
  · refine ⟨st, [], ?_, by simp, listed, fun cheaper inList _ => inList, by simp [several]⟩
    rw [takeDownExpensiveGateways, isCurrent]
    simp [not_lt.mp several]

def doubleConfig : GwConfig :=
  { singleConfig with smartGwUseCount := 2, useCount_pos := Nat.two_pos }

/-- Two gateways come into use, and the cheaper one is the current one. -/
def twoGateways : List (GwWorld .inet × GwEvent .inet) :=
  [.update firstGateway ipv4Mask 0 1, .update secondGateway ipv4Mask 0 1, .setInet 1 true false,
    .setInet 0 true false].map fun event => (worldOf (some 1000) (some 2000) true, event)

theorem takeDownExpensiveGateways_two_gateways : ∃ st after removed,
      runEvents (gwStep doubleConfig) (initGateways .inet doubleConfig) twoGateways = some st ∧
      takeDownExpensiveGateways doubleConfig .ipv4 st = some after ∧
      (st.lists .ipv4).items = (after.lists .ipv4).items ++ removed ∧
      ∀ gone ∈ removed, st.costOf 3 * 100 / 25 ≤ st.costOf gone := by
  obtain ⟨st, finished, inv⟩ :=
    gwRun_inv doubleConfig twoGateways (by simp [RunMeets, twoGateways, KeepsCurrent, worldOf])
  obtain ⟨_, reached, sorted, isCurrent, listed, small, least⟩ : ∃ st,
      runEvents (gwStep doubleConfig) (initGateways .inet doubleConfig) twoGateways = some st ∧
      SortedItems st (st.lists .ipv4).items ∧ st.current .ipv4 = some 3 ∧
      3 ∈ (st.lists .ipv4).items ∧ st.costOf 3 ≤ int64Max / 100 ∧
      -2 ^ 63 ≤ st.costOf 3 * 100 := by
    decide +kernel
  cases finished.symm.trans reached
  obtain ⟨after, removed, isAfter, split, _, _, exact⟩ :=
    takeDownExpensiveGateways_iff doubleConfig inv.lists sorted isCurrent listed (by decide)
      (by decide)
  exact ⟨st, after, removed, finished, isAfter, split,
    (exact.mpr fun _ _ => by rwa [if_pos small]).1⟩

def infiniteGateways : List (GwWorld .inet × GwEvent .inet) := twoGateways ++
    [(worldOf (some 1000) none true, .update secondGateway ipv4Mask 0 2),
      (worldOf none none true, .update firstGateway ipv4Mask 0 2)]

/-- Both gateways are announced again when none can be reached any more.  The
boundary of the infinite cost wraps to 67, and the second gateway is taken
down, though it costs no more than the current one. -/
theorem infiniteGateways_taken_down : ∃ st,
      runEvents (gwStep doubleConfig) (initGateways .inet doubleConfig) infiniteGateways = some st ∧
      SortedItems st (st.lists .ipv4).items ∧ st.current .ipv4 = some 3 ∧
      (st.lists .ipv4).items = [3, 2] ∧
      (takeDownExpensiveGateways doubleConfig .ipv4 st).map (fun after =>
        (after.lists .ipv4).items) = some [3] ∧
      st.costOf 2 < st.costOf 3 * 100 / 25 := by
  decide +kernel

private theorem SortedItems.le_worst {worst : Ptr} (sorted : SortedItems st (st.lists family).items)
    (isWorst : olsrGwListGetWorstEntry (st.lists family) = some worst) :
    ∀ container ∈ (st.lists family).items, st.costOf container ≤ st.costOf worst := by
  rw [olsrGwListGetWorstEntry] at isWorst
  split at isWorst
  · cases isWorst
  · obtain ⟨front, split⟩ := getLast?_eq_some_iff.mp isWorst
    intro container listed
    rw [SortedItems, split, pairwise_append] at sorted
    rw [split] at listed
    rcases mem_append.mp listed with inFront | isLast
    · exact sorted.2.2 container inFront worst (by simp)
    · rw [mem_singleton.mp isLast]

/-- The lists are in order and end with their worst gateways, as long as an
announcement leaves a gateway at the infinite cost only in its place. -/
theorem gwRun_ordered (cfg : GwConfig) (events : List (GwWorld ver × GwEvent ver))
    (keeps : RunMeets (gwStep cfg)
      (fun st event => KeepsCurrent event.1 ∧ KeepsOrder cfg st event)
      (initGateways ver cfg) events) :
    ∃ final, runEvents (gwStep cfg) (initGateways ver cfg) events = some final ∧
      ∀ family, SortedItems final (final.lists family).items ∧
        ∀ worst, olsrGwListGetWorstEntry (final.lists family) = some worst →
          ∀ container ∈ (final.lists family).items,
            final.costOf container ≤ final.costOf worst := by
  have steps : ∀ {st : GwState ver} {event : GwWorld ver × GwEvent ver},
      GwInv st ∧ Ordered st → KeepsCurrent event.1 ∧ KeepsOrder cfg st event →
      ∃ next, gwStep cfg st event = some next ∧ GwInv next ∧ Ordered next := by
    rintro st event ⟨inv, ordered⟩ ⟨current, keepsOrder⟩
    obtain ⟨next, taken, invNext, orderedNext⟩ := gwStep_spec cfg inv current
    exact ⟨next, taken, invNext, orderedNext keepsOrder ordered⟩
  obtain ⟨final, finished, _, ordered⟩ := runEvents_exists_of_meets steps
    ⟨gwInv_initGateways cfg, fun _ => List.Pairwise.nil⟩ keeps
  exact ⟨final, finished, fun family => ⟨ordered family, fun _ => (ordered family).le_worst⟩⟩

theorem gwRun_ordered_two_gateways :
    ∃ final, runEvents (gwStep doubleConfig) (initGateways .inet doubleConfig) twoGateways =
        some final ∧
      ∀ family, SortedItems final (final.lists family).items ∧
        ∀ worst, olsrGwListGetWorstEntry (final.lists family) = some worst →
          ∀ container ∈ (final.lists family).items,
            final.costOf container ≤ final.costOf worst := by
  have current : KeepsCurrent (worldOf (some 1000) (some 2000) true) := fun _ _ _ _ _ _ _ => rfl
  refine gwRun_ordered doubleConfig twoGateways
    ⟨⟨current, by simp [KeepsOrder, GwState.findGateway, initGateways]⟩, fun next taken =>
      ⟨⟨current, ?_⟩, fun _ _ => ⟨⟨current, trivial⟩, fun _ _ => ⟨⟨current, trivial⟩, fun _ _ =>
        trivial⟩⟩⟩⟩
  -- the second gateway is unknown before its announcement
  have unknown : (gwStep doubleConfig (initGateways .inet doubleConfig)
      (worldOf (some 1000) (some 2000) true, .update firstGateway ipv4Mask 0 1)).map
        (fun next => next.findGateway secondGateway) = some none := by
    decide +kernel
  rw [taken] at unknown
  intro gw entry found
  cases found.symm.trans (Option.some.inj unknown)

/-- The first of two gateways is announced again when it cannot be reached any
more.  Its cost becomes infinite, and it stays in front of the other one. -/
theorem infiniteGateway_stays_first : ∃ final,
      runEvents (gwStep doubleConfig) (initGateways .inet doubleConfig)
        (twoGateways ++ [(worldOf none (some 2000) true, .update firstGateway ipv4Mask 0 2)]) =
          some final ∧
      (final.lists .ipv4).items = [3, 2] ∧ final.costOf 3 = int64Max ∧
      final.costOf 2 < final.costOf 3 ∧ ¬ SortedItems final (final.lists .ipv4).items := by
  decide +kernel

end QosOlsr.Gateways
