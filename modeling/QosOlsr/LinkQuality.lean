import QosOlsr.Tc.EdgeCosts

/-!
# Link quality from measurements

The link-quality handler of the Linux build adds penalties for the bandwidth
and the signal to the cost of a link.  Its quality is the share of the packets
in a window of slots that were received, less what missed HELLOs take away.
-/

namespace QosOlsr

open Library Function

section Penalties

/-- `bandwidth_to_quality`, of a bandwidth in units of 100 kbit/s.  The penalty
is narrowed to a byte. -/
def bandwidthToQuality (bandwidth : UInt16) : UInt8 :=
  if bandwidth = 0 then
    0
  else
    let ratio := bandwidth.toNat * 1024 / 10 / 54
    UInt8.ofNat (((1024 - (ratio : Int)) * 255 / 1024) % 256).toNat

def signalPenalty (signal : Int8) : UInt8 → List (Int8 × UInt8) → UInt8
  | penalty, [] => penalty
  | penalty, (level, next) :: rest =>
    if signal ≤ level then signalPenalty signal next rest else penalty

def signalToQuality (signal : Int8) : UInt8 := signalPenalty signal 10
    [(-60, 30), (-75, 60), (-80, 120), (-85, 160), (-90, 190), (-95, 230), (-100, 255)]

def linkCost (valueLq valueNlq : UInt8) (signal : Int8) (bandwidth : UInt16) : UInt32 :=
  lqCalcCostFfethNl80211 [bandwidthToQuality bandwidth, signalToQuality signal, valueLq, valueNlq]

variable {table : List (Int8 × UInt8)} {penalty : UInt8}

private theorem le_signalPenalty (signal : Int8)
    (sorted : (penalty :: table.map Prod.snd).Pairwise (· ≤ ·)) :
    penalty ≤ signalPenalty signal penalty table := by
  induction table generalizing penalty with
  | nil => exact UInt8.le_refl _
  | cons entry rest ih =>
    rw [signalPenalty]
    split
    · exact UInt8.le_trans (List.rel_of_pairwise_cons sorted List.mem_cons_self) (ih sorted.of_cons)
    · exact UInt8.le_refl _

private theorem signalPenalty_anti {weak strong : Int8}
    (stronger : weak ≤ strong) (sorted : (penalty :: table.map Prod.snd).Pairwise (· ≤ ·)) :
    signalPenalty strong penalty table ≤ signalPenalty weak penalty table := by
  induction table generalizing penalty with
  | nil => exact UInt8.le_refl _
  | cons entry rest ih =>
    by_cases reached : strong ≤ entry.1
    · rw [signalPenalty, signalPenalty, if_pos reached, if_pos (Int8.le_trans stronger reached)]
      exact ih sorted.of_cons
    · rw [signalPenalty, if_neg reached]
      exact le_signalPenalty weak sorted

private theorem signalToQuality_anti {weak strong : Int8} (stronger : weak ≤ strong) :
    signalToQuality strong ≤ signalToQuality weak :=
  signalPenalty_anti stronger (by decide)

private theorem bandwidthToQuality_anti
    {slow fast : UInt16} (nonzero : slow ≠ 0) (faster : slow ≤ fast)
    (below : fast ≤ 540) : bandwidthToQuality fast ≤ bandwidthToQuality slow := by
  have toNat_eq : ∀ {bandwidth : UInt16}, bandwidth ≠ 0 → bandwidth ≤ 540 →
      (bandwidthToQuality bandwidth).toNat =
        (1024 - bandwidth.toNat * 1024 / 10 / 54) * 255 / 1024 := by
    intro bandwidth positive below
    have most : bandwidth.toNat ≤ 540 := below
    have ratio : bandwidth.toNat * 1024 / 10 / 54 ≤ 1024 := by omega
    rw [bandwidthToQuality, if_neg positive, UInt8.toNat_ofNat']
    have exact : (1024 - ((bandwidth.toNat * 1024 / 10 / 54 : Nat) : Int)) * 255 / 1024 =
        ((1024 - bandwidth.toNat * 1024 / 10 / 54) * 255 / 1024 : Nat) := by omega
    rw [exact]
    omega
  have fastNonzero : fast ≠ 0 := by
    rintro rfl
    exact nonzero (UInt16.le_zero_iff.mp faster)
  rw [UInt8.le_iff_toNat_le, toNat_eq fastNonzero below,
    toNat_eq nonzero (UInt16.le_trans faster below)]
  have := UInt16.le_iff_toNat_le.mp faster
  gcongr

theorem lqCalcCostFfethNl80211_toNat (bandwidth rssi : UInt8) {lq nlq : UInt8} (useful : 25 ≤ lq)
    (usefulNlq : 25 ≤ nlq) :
    let cost := 255 * 255 * 1024 / (min (lq.toNat + 1) 255 * min (nlq.toNat + 1) 255) +
      (bandwidth.toNat + rssi.toNat) * 1024 / 255
    (lqCalcCostFfethNl80211 [bandwidth, rssi, lq, nlq]).toNat =
        (if lq = 255 ∧ nlq = 255 then cost / 10 else cost) ∧ 100 < cost / 10 ∧ cost < 2 ^ 17 := by
  have raised : ∀ {value : UInt8}, 25 ≤ value →
      (if 0 < value ∧ value < 255 then value.toNat + 1 else value.toNat) =
          min (value.toNat + 1) 255 ∧ 26 ≤ min (value.toNat + 1) 255 := by
    intro value useful
    have least : 25 ≤ value.toNat := useful
    have := value.toNat_lt
    split
    next via =>
      have below : value.toNat < 255 := via.2
      omega
    next outside =>
      have top : ¬ (0 < value.toNat ∧ value.toNat < 255) := outside
      omega
  have notLow : ¬ (lq < 25 ∨ nlq < 25) := by simp [useful, usefulNlq]
  obtain ⟨isLq, leastLq⟩ := raised useful
  obtain ⟨isNlq, leastNlq⟩ := raised usefulNlq
  simp only [lqCalcCostFfethNl80211, if_neg notLow, isLq, isNlq]
  have most : min (lq.toNat + 1) 255 * min (nlq.toNat + 1) 255 ≤ 255 * 255 :=
    Nat.mul_le_mul (Nat.min_le_right ..) (Nat.min_le_right ..)
  have least : 26 * 26 ≤ min (lq.toNat + 1) 255 * min (nlq.toNat + 1) 255 :=
    Nat.mul_le_mul leastLq leastNlq
  generalize min (lq.toNat + 1) 255 * min (nlq.toNat + 1) 255 = product at most least ⊢
  have lower : 1024 ≤ 255 * 255 * 1024 / product :=
    (Nat.le_div_iff_mul_le (by omega)).mpr (by omega)
  have upper : 255 * 255 * 1024 / product ≤ 255 * 255 * 1024 / (26 * 26) :=
    Nat.div_le_div_left least (by decide)
  have := bandwidth.toNat_lt
  have := rssi.toNat_lt
  have costs : ∀ {cost : Nat}, 0 < cost → cost < 2 ^ 17 →
      (if linkCostBroken < cost then UInt32.ofNat linkCostBroken
        else if cost = 0 then 1 else UInt32.ofNat cost).toNat = cost := by
    intro cost positive small
    rw [linkCostBroken, if_neg (by omega), if_neg (by omega), UInt32.toNat_ofNat',
      Nat.mod_eq_of_lt (by omega)]
  refine ⟨costs ?_ ?_, ?_, ?_⟩
  · split <;> omega
  · split <;> omega
  · omega
  · omega

theorem lqCalcCostFfethNl80211_range (bandwidth rssi lq nlq : UInt8) :
    1 ≤ (lqCalcCostFfethNl80211 [bandwidth, rssi, lq, nlq]).toNat ∧
      (lqCalcCostFfethNl80211 [bandwidth, rssi, lq, nlq]).toNat ≤ linkCostBroken := by
  by_cases low : lq < 25 ∨ nlq < 25
  · simp [lqCalcCostFfethNl80211, low, linkCostBroken]
  · rw [not_or, UInt8.not_lt, UInt8.not_lt] at low
    obtain ⟨isCost, positive, small⟩ := lqCalcCostFfethNl80211_toNat bandwidth rssi low.1 low.2
    rw [isCost, linkCostBroken]
    split <;> omega

theorem lqCalcCostFfethNl80211_anti
    {bandwidth rssi lq nlq : UInt8} {bandwidth' rssi' lq' nlq' : UInt8}
    (penalties : bandwidth'.toNat + rssi'.toNat ≤ bandwidth.toNat + rssi.toNat) (better : lq ≤ lq')
    (betterNlq : nlq ≤ nlq') : lqCalcCostFfethNl80211 [bandwidth', rssi', lq', nlq'] ≤
      lqCalcCostFfethNl80211 [bandwidth, rssi, lq, nlq] := by
  rw [UInt32.le_iff_toNat_le]
  by_cases low : lq < 25 ∨ nlq < 25
  · refine (lqCalcCostFfethNl80211_range ..).2.trans_eq ?_
    simp [lqCalcCostFfethNl80211, low, linkCostBroken]
  · rw [not_or, UInt8.not_lt, UInt8.not_lt] at low
    obtain ⟨isCost, positive, _⟩ := lqCalcCostFfethNl80211_toNat bandwidth rssi low.1 low.2
    obtain ⟨isBetter, _⟩ := lqCalcCostFfethNl80211_toNat bandwidth' rssi'
      (UInt8.le_trans low.1 better) (UInt8.le_trans low.2 betterNlq)
    rw [isCost, isBetter]
    have cheaper : 255 * 255 * 1024 / (min (lq'.toNat + 1) 255 * min (nlq'.toNat + 1) 255) +
            (bandwidth'.toNat + rssi'.toNat) * 1024 / 255 ≤
          255 * 255 * 1024 / (min (lq.toNat + 1) 255 * min (nlq.toNat + 1) 255) +
            (bandwidth.toNat + rssi.toNat) * 1024 / 255 := by
      have lqs := UInt8.le_iff_toNat_le.mp better
      have nlqs := UInt8.le_iff_toNat_le.mp betterNlq
      gcongr
    by_cases boosted : lq = 255 ∧ nlq = 255
    · have top : ∀ {value : UInt8}, 255 ≤ value → value = 255 := fun {value} above =>
        UInt8.le_antisymm (Nat.le_of_lt_succ value.toNat_lt) above
      rw [if_pos boosted, if_pos ⟨top (boosted.1 ▸ better), top (boosted.2 ▸ betterNlq)⟩]
      exact Nat.div_le_div_right cheaper
    · rw [if_neg boosted]
      split <;> omega

/-- The cost is in its range and falls with better qualities and a stronger
signal.  Among the bandwidths up to some limit it falls with the bandwidth,
exactly if that limit is at most the reference bandwidth of 54 Mbit/s. -/
theorem linkCost_anti_iff (limit : UInt16) :
    (∀ lq nlq signal bandwidth,
      (1 ≤ (linkCost lq nlq signal bandwidth).toNat ∧
        (linkCost lq nlq signal bandwidth).toNat ≤ linkCostBroken) ∧
      (∀ better, lq ≤ better → linkCost better nlq signal bandwidth ≤
        linkCost lq nlq signal bandwidth) ∧
      (∀ better, nlq ≤ better → linkCost lq better signal bandwidth ≤
        linkCost lq nlq signal bandwidth) ∧
      ∀ stronger, signal ≤ stronger → linkCost lq nlq stronger bandwidth ≤
        linkCost lq nlq signal bandwidth) ∧
    ((∀ lq nlq signal slow fast, slow ≠ 0 → slow ≤ fast → fast ≤ limit →
        linkCost lq nlq signal fast ≤ linkCost lq nlq signal slow) ↔
      limit ≤ 540) := by
  have same : ∀ {value : UInt8}, value ≤ value := UInt8.le_refl _
  refine ⟨fun lq nlq signal bandwidth => ⟨lqCalcCostFfethNl80211_range .., ?_, ?_, ?_⟩, ?_, ?_⟩
  · intro better isBetter
    exact lqCalcCostFfethNl80211_anti le_rfl isBetter same
  · intro better isBetter
    exact lqCalcCostFfethNl80211_anti le_rfl same isBetter
  · intro stronger isStronger
    exact lqCalcCostFfethNl80211_anti (Nat.add_le_add_left (signalToQuality_anti isStronger) _)
      same same
  · intro falls
    by_contra above
    have next : 540 < limit.toNat := Nat.lt_of_not_le above
    exact absurd (falls 254 254 0 540 541 (by decide) (by decide) next) (by decide +kernel)
  · intro below lq nlq signal slow fast nonzero faster fastBelow
    exact lqCalcCostFfethNl80211_anti
      (Nat.add_le_add_right
        (bandwidthToQuality_anti nonzero faster (UInt16.le_trans fastBelow below)) _)
      same same

/-- A bandwidth above the reference costs more than the reference itself. -/
theorem linkCost_faster_dearer : linkCost 254 254 0 540 < linkCost 254 254 0 541 := by
  decide +kernel

end Penalties

section Window

/-- The size of the window, the loss multiplier of a link and the HELLO interval
of its interface in milliseconds. -/
structure LqConfig where
  window : Nat
  lossLinkMultiplier : Nat
  helloEtime : UInt32
  loss_le : lossLinkMultiplier ≤ 2 ^ 16

/-- The fields of `lq_ffeth_hello` behind the link quality. -/
structure LqFfethHello where
  windowSize : Nat
  activePtr : Nat
  lastSeqNr : UInt16
  missedHellos : UInt16
  received : Nat → UInt16
  total : Nat → UInt16

inductive LqEvent where
  | packet (seqno : UInt16)
  | missed
  | tick

variable (cfg : LqConfig)

/-- A cleared record; the slots of the window start with three packets. -/
def lqClearFfethNl80211Hello : LqFfethHello :=
  ⟨4, 0, 0, 0, fun _ => 0, fun slot => if slot < cfg.window then 3 else 0⟩

section

variable (lq : LqFfethHello)

/-- The packets since the last one; a jump in the sequence numbers counts as
one. -/
def seqDiff (seqno : UInt16) : UInt16 :=
  if 256 < seqno - lq.lastSeqNr then 1 else seqno - lq.lastSeqNr

def lqParserFfethNl80211 (seqno : UInt16) : LqFfethHello :=
  if lq.lastSeqNr = seqno then
    lq
  else
    { lq with
      received := update lq.received lq.activePtr (lq.received lq.activePtr + 1)
      total := update lq.total lq.activePtr (lq.total lq.activePtr + seqDiff lq seqno)
      lastSeqNr := seqno
      missedHellos := 0 }

def enlarged : Nat :=
  if lq.windowSize < cfg.window then lq.windowSize + 1 else lq.windowSize

def inWindow (slots : Nat → UInt16) : Nat :=
  ((List.range (enlarged cfg lq)).map fun slot => (slots slot).toNat).sum

/-- What the timer subtracts for missed HELLOs, in unsigned arithmetic of 32
bits. -/
def missedShare : Nat :=
  if 1 < lq.missedHellos then
    inWindow cfg lq lq.received * lq.missedHellos.toNat * cfg.helloEtime.toNat % 2 ^ 32 /
      1000 / cfg.window
  else
    0

/-- The share of what was received in fixed-point numbers, scaled to 255. -/
def lqRatio (received : Int) (total : Nat) : Int :=
  ((cfg.lossLinkMultiplier * 1024 / 2 ^ 16 : Nat) * received).tdiv total * 255 / 1024

/-- The quality that `lq_ffeth_nl80211_timer` computes, before its cast. -/
def lqValue : Int :=
  if inWindow cfg lq lq.total = 0 then
    0
  else
    lqRatio cfg (inWindow cfg lq lq.received - missedShare cfg lq) (inWindow cfg lq lq.total)

def lqStep : LqEvent → Option LqFfethHello
  | .packet seqno => some (lqParserFfethNl80211 lq seqno)
  | .missed => some { lq with missedHellos := lq.missedHellos + 1 }
  | .tick =>
    let next := (lq.activePtr + 1) % cfg.window
    some
      { lq with
        windowSize := enlarged cfg lq
        activePtr := next
        received := update lq.received next 0
        total := update lq.total next 0 }

/-- No counter of a slot wraps, and the missed HELLOs take no longer than the
window. -/
def LqFits : LqEvent → Prop
  | .packet seqno => (lq.total lq.activePtr).toNat + (seqDiff lq seqno).toNat < 2 ^ 16
  | .missed => True
  | .tick => 1 < lq.missedHellos → lq.missedHellos.toNat * cfg.helloEtime.toNat ≤ 1000 * cfg.window

instance : ∀ event, Decidable (LqFits cfg lq event)
  | .packet _ => inferInstanceAs (Decidable (_ < _))
  | .missed => isTrue trivial
  | .tick => inferInstanceAs (Decidable (_ → _))

/-- The product of 32 bits does not fall from the fewer to the more missed
HELLOs; up to one of them it is not formed. -/
def ProductGrows (fewer more : UInt16) : Prop :=
  1 < fewer →
    inWindow cfg lq lq.received * fewer.toNat * cfg.helloEtime.toNat % 2 ^ 32 ≤
      inWindow cfg lq lq.received * more.toNat * cfg.helloEtime.toNat % 2 ^ 32

instance (fewer more : UInt16) : Decidable (ProductGrows cfg lq fewer more) :=
  inferInstanceAs (Decidable (_ → _))

def Counted : Prop := ∀ slot, (lq.received slot).toNat ≤ (lq.total slot).toNat

/-- The window is that of the option `-nlwindow`, or the size of the arrays if
the option is zero. -/
def lqInitializeFfethNl80211 (ffethNl80211Window : UInt8) : LqConfig :=
  { cfg with window := if ffethNl80211Window ≠ 0 then ffethNl80211Window.toNat else 32 }

/-- The indexes into `received` and `total` that an event uses. -/
def lqIndexes : LqEvent → List Nat
  | .packet seqno => if lq.lastSeqNr = seqno then [] else [lq.activePtr]
  | .missed => []
  | .tick => (lq.activePtr + 1) % cfg.window :: List.range (enlarged cfg lq)

def IndexesFit (event : LqEvent) : Prop := ∀ index ∈ lqIndexes cfg lq event, index < 32

end

variable {cfg} {lq : LqFfethHello} {event : LqEvent}

private theorem counted_lqStep (counted : Counted lq) (fits : LqFits cfg lq event) :
    ∃ next, lqStep cfg lq event = some next ∧ Counted next := by
  cases event with
  | missed => exact ⟨_, rfl, counted⟩
  | tick =>
    refine ⟨_, rfl, fun slot => ?_⟩
    by_cases isNext : slot = (lq.activePtr + 1) % cfg.window
    · simp [isNext]
    · simpa [isNext] using counted slot
  | packet seqno =>
    refine ⟨_, rfl, ?_⟩
    rw [lqParserFfethNl80211]
    split
    · exact counted
    next new =>
      intro slot
      by_cases isActive : slot = lq.activePtr
      · have diff : 0 < (seqDiff lq seqno).toNat := by
          rw [seqDiff]
          split
          · decide
          · rw [UInt16.toNat_sub]
            have := UInt16.toNat_inj.not.mpr new
            have := lq.lastSeqNr.toNat_lt
            have := seqno.toNat_lt
            omega
        have below := counted lq.activePtr
        rw [LqFits] at fits
        simp only [isActive, update_self, UInt16.toNat_add]
        rw [Nat.mod_eq_of_lt fits]
        exact (Nat.mod_le ..).trans (Nat.add_le_add below diff)
      · simpa [isActive] using counted slot

private theorem missedShare_le (fits : LqFits cfg lq .tick) :
    missedShare cfg lq ≤ inWindow cfg lq lq.received := by
  rw [missedShare]
  split
  next several =>
    rw [Nat.div_div_eq_div_mul]
    refine Nat.div_le_of_le_mul ((Nat.mod_le ..).trans ?_)
    calc inWindow cfg lq lq.received * lq.missedHellos.toNat * cfg.helloEtime.toNat
        = lq.missedHellos.toNat * cfg.helloEtime.toNat * inWindow cfg lq lq.received := by ring
      _ ≤ 1000 * cfg.window * inWindow cfg lq lq.received := Nat.mul_le_mul_right _ (fits several)
  · exact Nat.zero_le _

theorem lqRatio_mono {fewer more : Int} {total : Nat} (positive : 0 < total) (le : fewer ≤ more) :
    lqRatio cfg fewer total ≤ lqRatio cfg more total := by
  refine Int.ediv_le_ediv (by decide) (Int.mul_le_mul_of_nonneg_right ?_ (by decide))
  exact Int.tdiv_le_tdiv (by omega) (Int.mul_le_mul_of_nonneg_left le (Int.natCast_nonneg _))

private theorem Counted.lqValue_range (counted : Counted lq)
    (fits : LqFits cfg lq .tick) : 0 ≤ lqValue cfg lq ∧ lqValue cfg lq ≤ 255 := by
  have share := missedShare_le fits
  have received : inWindow cfg lq lq.received ≤ inWindow cfg lq lq.total :=
    List.sum_le_sum fun slot _ => counted slot
  rw [lqValue]
  split
  · decide
  next nonzero =>
    have positive := Nat.pos_of_ne_zero nonzero
    constructor
    · calc 0 = lqRatio cfg 0 (inWindow cfg lq lq.total) := by simp [lqRatio]
        _ ≤ _ := lqRatio_mono positive (by omega)
    · calc _ ≤ lqRatio cfg (inWindow cfg lq lq.total) (inWindow cfg lq lq.total) :=
          lqRatio_mono positive (by omega)
        _ ≤ 255 := by
          have loss := cfg.loss_le
          rw [lqRatio, Int.mul_tdiv_cancel _ (by omega)]
          omega

variable {fewer more : UInt16}

theorem lqValue_anti
    (share : missedShare cfg { lq with missedHellos := fewer } ≤
      missedShare cfg { lq with missedHellos := more }) :
    lqValue cfg { lq with missedHellos := more } ≤
      lqValue cfg { lq with missedHellos := fewer } := by
  have same : ∀ missed slots,
      inWindow cfg { lq with missedHellos := missed } slots = inWindow cfg lq slots :=
    fun _ _ => rfl
  simp only [lqValue, same]
  split
  · exact le_rfl
  next nonzero => exact lqRatio_mono (Nat.pos_of_ne_zero nonzero) (by omega)

private theorem missedShare_mono (le : fewer ≤ more) (grows : ProductGrows cfg lq fewer more) :
    missedShare cfg { lq with missedHellos := fewer } ≤
      missedShare cfg { lq with missedHellos := more } := by
  simp only [missedShare]
  split
  next several =>
    rw [if_pos (UInt16.lt_of_lt_of_le several le)]
    exact Nat.div_le_div_right (Nat.div_le_div_right (grows several))
  · exact Nat.zero_le _

theorem missedShare_of_not_grows (le : fewer ≤ more) (falls : ¬ ProductGrows cfg lq fewer more) :
    missedShare cfg { lq with missedHellos := more } ≤
      missedShare cfg { lq with missedHellos := fewer } := by
  obtain ⟨several, less⟩ := Classical.not_imp.mp falls
  simp only [missedShare, if_pos several, if_pos (UInt16.lt_of_lt_of_le several le)]
  exact Nat.div_le_div_right (Nat.div_le_div_right (not_le.mp less).le)

def slowHellos : LqConfig := ⟨32, 2 ^ 16, 60000, le_rfl⟩

def usualHellos : LqConfig := { slowHellos with helloEtime := 2000 }

def someMissed : List LqEvent :=
  [.packet 1, .packet 2, .tick, .packet 4, .missed, .missed, .tick, .missed]

private theorem indexesFit_of_within (positive : 0 < cfg.window) (small : cfg.window ≤ 32)
    (within : lq.windowSize ≤ 32 ∧ lq.activePtr < 32) : IndexesFit cfg lq event ∧
      ∀ next, lqStep cfg lq event = some next → next.windowSize ≤ 32 ∧ next.activePtr < 32 := by
  have below := Nat.mod_lt (lq.activePtr + 1) positive
  cases event with
  | packet seqno =>
    simp only [IndexesFit, lqIndexes, lqStep, lqParserFfethNl80211]
    grind
  | missed =>
    simp only [IndexesFit, lqIndexes, lqStep]
    grind
  | tick =>
    simp only [IndexesFit, lqIndexes, lqStep, enlarged]
    grind

theorem runMeets_of_within (positive : 0 < cfg.window) (small : cfg.window ≤ 32) :
    ∀ (events : List LqEvent) {lq : LqFfethHello}, lq.windowSize ≤ 32 ∧ lq.activePtr < 32 →
      RunMeets (lqStep cfg) (IndexesFit cfg) lq events
  | [], _, _ => trivial
  | _ :: rest, _, within =>
    have step := indexesFit_of_within positive small within
    ⟨step.1, fun next taken => runMeets_of_within positive small rest (step.2 next taken)⟩

theorem windowSize_of_ticks (large : 32 < cfg.window) :
    ∀ {ticks : Nat}, ticks ≤ 28 →
      ∃ lq, runEvents (lqStep cfg) (lqClearFfethNl80211Hello cfg)
        (List.replicate ticks .tick) = some lq ∧ lq.windowSize = 4 + ticks
  | 0, _ => ⟨_, rfl, rfl⟩
  | ticks + 1, le => by
    obtain ⟨lq, reached, isSize⟩ := windowSize_of_ticks large (Nat.le_of_succ_le le)
    rw [List.replicate_succ']
    refine ⟨_, runEvents_append_singleton_eq_some.mpr ⟨lq, reached, rfl⟩, ?_⟩
    rw [enlarged, if_pos (by omega), isSize, Nat.add_assoc]

theorem not_runMeets_of_large (large : 32 < cfg.window) :
    ¬ RunMeets (lqStep cfg) (IndexesFit cfg) (lqClearFfethNl80211Hello cfg)
      (List.replicate 29 .tick) := by
  rw [List.replicate_succ', runMeets_append_singleton]
  intro meets
  obtain ⟨lq, reached, isSize⟩ := windowSize_of_ticks large le_rfl
  have outside : 32 ∈ lqIndexes cfg lq .tick := by
    rw [lqIndexes, enlarged, if_pos (by omega), isSize]
    exact List.mem_cons_of_mem _ (by decide)
  exact absurd (meets.2 lq reached 32 outside) (by decide)

/-- The timer never divides by zero, and the indexes stay inside the arrays in
every history exactly for the windows that are no larger than these. -/
theorem indexesFit_iff (cfg : LqConfig) (ffethNl80211Window : UInt8) :
    let cfg := lqInitializeFfethNl80211 cfg ffethNl80211Window
    cfg.window ≠ 0 ∧
      ((∀ events, RunMeets (lqStep cfg) (IndexesFit cfg) (lqClearFfethNl80211Hello cfg)
        events) ↔ ffethNl80211Window ≤ 32) := by
  intro cfg
  have nonzero : cfg.window ≠ 0 := by
    simp only [cfg, lqInitializeFfethNl80211]
    split
    next given => exact fun zero => given (UInt8.toNat_inj.mp zero)
    · decide
  have small_iff : cfg.window ≤ 32 ↔ ffethNl80211Window ≤ 32 := by
    grind [lqInitializeFfethNl80211, UInt8.le_iff_toNat_le]
  rw [← small_iff]
  refine ⟨nonzero, fun meets => ?_, fun small events => ?_⟩
  · by_contra large
    exact not_runMeets_of_large (not_le.mp large) (meets _)
  · refine runMeets_of_within (Nat.pos_of_ne_zero nonzero) small events ?_
    simp [lqClearFfethNl80211Hello]

theorem indexesFit_fails_at_thirty_three :
    ¬ RunMeets (lqStep (lqInitializeFfethNl80211 slowHellos 33))
      (IndexesFit (lqInitializeFfethNl80211 slowHellos 33))
      (lqClearFfethNl80211Hello (lqInitializeFfethNl80211 slowHellos 33))
      (List.replicate 29 .tick) :=
  not_runMeets_of_large (by decide)

end Window

end QosOlsr
