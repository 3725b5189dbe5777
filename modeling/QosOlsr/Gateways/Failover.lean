import QosOlsr.Gateways.Safety

/-!
# Replacing a lost gateway

The loss of a gateway is seen in the TC set, but its successor is chosen by the
costs of the last announcements.
-/

namespace QosOlsr.Gateways

open Library List Option

variable {ver : IpVersion} {cfg : GwConfig} {st : GwState ver} {family : Family}

section Best

structure IsBest (cfg : GwConfig) (family : Family) (threshold : Option Int)
    (gws : List (Ptr × GatewayEntry ver)) (best : Ptr × GatewayEntry ver) : Prop where
  mem : best ∈ gws
  isEligible : eligible cfg family threshold best.2 = true
  first : ∀ other ∈ gws, eligible cfg family threshold other.2 = true →
    best.2.pathCost < other.2.pathCost ∨ best.2.pathCost = other.2.pathCost ∧
        (gws.map Prod.fst).idxOf best.1 ≤ (gws.map Prod.fst).idxOf other.1

private theorem IsBest.of_firstLeast {threshold : Option Int}
    {gws : List (Ptr × GatewayEntry ver)} {best : Ptr × GatewayEntry ver}
    (nodup : (gws.map Prod.fst).Nodup)
    (first : FirstLeast (fun gw => eligible cfg family threshold gw.2 = true)
      (fun gw => (gw.2.pathCost : WithTop Int)) gws best) :
    IsBest cfg family threshold gws best := by
  refine ⟨first.mem, first.ok, fun other inAll isEligible => ?_⟩
  have least : best.2.pathCost ≤ other.2.pathCost :=
    WithTop.coe_le_coe.mp (first.least inAll isEligible)
  rcases least.lt_or_eq with dearer | same
  · exact .inl dearer
  · refine .inr ⟨same, ?_⟩
    obtain ⟨front, back, rfl, -, before, -⟩ := first
    rw [map_append, map_cons] at nodup ⊢
    -- what stands in front is dearer
    have behind : ∀ gw ∈ best :: back, gw.1 ∉ front.map Prod.fst := by
      intro gw member inFront
      exact (nodup_append.mp nodup).2.2 _ inFront _ (mem_map_of_mem member) rfl
    have otherBehind : other ∈ best :: back := by
      refine (mem_append.mp inAll).resolve_left fun inFront => ?_
      exact (WithTop.coe_lt_coe.mp (before other inFront isEligible)).ne same
    rw [idxOf_append_of_notMem (behind best mem_cons_self),
      idxOf_append_of_notMem (behind other otherBehind), idxOf_cons_self]
    exact Nat.add_le_add_left (Nat.zero_le _) _

theorem foldl_betterGateway_isBest (cfg : GwConfig) (family : Family) (threshold : Option Int)
    (gws : List (Ptr × GatewayEntry ver)) (nodup : (gws.map Prod.fst).Nodup) :
    (∃ best, gws.foldl (betterGateway cfg family threshold) none = some best ∧
        IsBest cfg family threshold gws best) ∨
    (gws.foldl (betterGateway cfg family threshold) none = none ∧
      ∀ other ∈ gws, eligible cfg family threshold other.2 = false) := by
  rcases foldl_betterGateway_spec cfg family threshold gws with
    ⟨noBest, ineligible⟩ | ⟨best, isBest, first⟩
  · exact .inr ⟨noBest, fun other mem => by simpa using ineligible other mem⟩
  · exact .inl ⟨best, isBest, .of_firstLeast nodup first⟩

end Best

section Setting

variable {world : GwWorld ver}

/-- With its tunnel made, a gateway that is accepted is the current one. -/
theorem setFamilyGateway_current (tunnels : ∀ st family gw, world.addTunnel st family gw = true)
    (ok : ListsOk st) (current : CurrentOk st)
    {newGw : Ptr} {entry : GatewayEntry ver} (inTree : newGw ∈ st.gatewayTree)
    (isEntry : st.entries newGw = some entry) (accepts : acceptsGateway cfg family entry = true) :
    ∃ after flag, setFamilyGateway cfg world family newGw true st = some (after, flag) ∧
      olsrGetInetGateway after family = some (some newGw) ∧ after.entries = st.entries := by
  obtain ⟨curGw, isCur, _⟩ := ok.olsrGetInetGateway current family
  obtain ⟨found, searched, isFound, _⟩ := ok.find family newGw
  by_cases same : curGw = some newGw
  · exact ⟨st, true, by simp [setFamilyGateway, isEntry, isCur, same], by rw [isCur, same], rfl⟩
  · cases found with
    | none =>
      obtain ⟨roomy, removed, okRoomy, chooses, room, _⟩ := removeWorst_spec family ok
      obtain ⟨items, _, added⟩ := okRoomy.addContainer (chooses.tree ▸ inTree) room
      refine ⟨withContainer roomy family newGw items, true, ?_, ?_, chooses.entries⟩
      · simp [setFamilyGateway, isEntry, accepts, isCur, same, searched,
          addGateway, removed, tunnels, added]
      · simp [olsrGetInetGateway, withContainer, GwState.setCurrent, GwState.setList]
    | some container =>
      refine ⟨st.setCurrent family (some container), true, ?_, ?_, rfl⟩
      · simp [setFamilyGateway, isEntry, accepts, isCur, same, searched]
      · have held := gwOf_eq_some_iff.mp (isFound container rfl).2
        simp [olsrGetInetGateway, GwState.setCurrent, held]

end Setting

section LossCheck

variable {world : GwWorld .inet} {st : GwState .inet}

section

variable (cfg : GwConfig)

def lossThreshold (lost : GatewayEntry .inet) : Option Int :=
  if cfg.smartGwThresh = 0 then none
  else some (gwDefaultCalcThreshold cfg lost.pathCost)

/-- By the costs that are cached, some gateway that can be reached comes before
every one that cannot: it is cheaper, or as cheap and earlier in the tree. -/
def ReachableFirst (world : GwWorld .inet) (threshold : Option Int) (st : GwState .inet) : Prop :=
  ∃ gw ∈ st.gatewayTree, ∃ entry, st.entries gw = some entry ∧
    eligible cfg .ipv4 threshold entry = true ∧
    reachable world entry.originator = true ∧
    ∀ other ∈ st.gatewayTree, ∀ value, st.entries other = some value →
      eligible cfg .ipv4 threshold value = true →
      reachable world value.originator = false → entry.pathCost < value.pathCost ∨
          entry.pathCost = value.pathCost ∧ st.gatewayTree.idxOf gw < st.gatewayTree.idxOf other

/-- The lost gateway has been replaced by one that can be reached. -/
def Replaced (world : GwWorld .inet) (lostGw : Ptr) (after : GwState .inet) : Prop :=
  ∃ gw entry, olsrGetInetGateway after .ipv4 = some (some gw) ∧
    gw ≠ lostGw ∧ after.entries gw = some entry ∧
    reachable world entry.originator = true

private theorem chosenGateway_ipv6 (ok : ListsOk st) (current : CurrentOk st) :
    chosenGateway cfg .ipv6 st = some none := by
  obtain ⟨threshold, isThreshold⟩ := ok.costThreshold cfg current .ipv6
  obtain ⟨gws, isGws, _⟩ := ok.treeEntries
  have ineligible : ∀ entry : GatewayEntry .inet, eligible cfg .ipv6 threshold entry = false := by
    intro entry
    simp [eligible, isGwSelectable, usesFamily]
  have unchosen : ∀ gws : List (Ptr × GatewayEntry .inet),
      gws.foldl (betterGateway cfg .ipv6 threshold) none = none := by
    intro gws
    induction gws with
    | nil => rfl
    | cons first rest ih => simpa [betterGateway, ineligible] using ih
  simp [chosenGateway, isThreshold, isGws, unchosen]

private theorem setBoth_chosen (tunnels : ∀ st family gw, world.addTunnel st family gw = true)
    (inv : GwInv st) {gw : Ptr} {entry : GatewayEntry .inet}
    (isEntry : st.entries gw = some entry) (accepts : acceptsGateway cfg .ipv4 entry = true) :
    ∃ after, setBoth cfg world (some gw) none st = some after ∧
      olsrGetInetGateway after .ipv4 = some (some gw) ∧ after.entries = st.entries := by
  obtain ⟨after, flag, set, isCur, entries⟩ :=
    setFamilyGateway_current tunnels inv.lists inv.current
      (inv.held gw entry isEntry) isEntry accepts
  have unwanted : ∀ st,
      setFamilyGateway cfg world .ipv6 gw false st = some (st, false) := fun _ => rfl
  have isSet : olsrSetInetGateway cfg world gw true false st = some (after, !flag) := by
    simp [olsrSetInetGateway, usesFamily, isEntry, inv.findGateway_eq isEntry, set, unwanted]
  by_cases stops : cfg.smartGwThresh = 0 ∧ st.chooseNew .ipv4 = false ∧ st.chooseNew .ipv6 = false
  · exact ⟨{ after with defTimer := false },
        by simp [setBoth, setChosen, isSet, stops], isCur, entries⟩
  · exact ⟨after, by simp [setBoth, setChosen, isSet, stops], isCur, entries⟩

private theorem setBoth_none (world : GwWorld .inet) (st : GwState .inet) :
    ∃ after, setBoth cfg world none none st = some after ∧ olsrGetInetGateway after .ipv4 =
      olsrGetInetGateway st .ipv4 ∧ after.entries = st.entries := by
  by_cases stops : cfg.smartGwThresh = 0 ∧ st.chooseNew .ipv4 = false ∧ st.chooseNew .ipv6 = false
  · exact ⟨{ st with defTimer := false }, by simp [setBoth, setChosen, stops], rfl, rfl⟩
  · exact ⟨st, by simp [setBoth, setChosen, stops], rfl, rfl⟩

end

private theorem eligible_accepts {threshold : Option Int} {entry : GatewayEntry .inet}
    (isEligible : eligible cfg .ipv4 threshold entry = true) :
    acceptsGateway cfg .ipv4 entry = true := by
  simp only [eligible, isGwSelectable, Bool.and_eq_true] at isEligible
  obtain ⟨⟨⟨_, ⟨isIpv4, _⟩, nat⟩, _⟩, _⟩ := isEligible
  simpa [acceptsGateway, isIpv4, or_comm] using nat

/-- The first of the cheapest gateways can be reached exactly if one that can
be reached comes before all that cannot. -/
theorem IsBest.reachable_iff {threshold : Option Int} {gws : List (Ptr × GatewayEntry .inet)}
    (isTree : gws.map Prod.fst = st.gatewayTree)
    (members : ∀ gw entry, (gw, entry) ∈ gws ↔ gw ∈ st.gatewayTree ∧ st.entries gw = some entry)
    {best : Ptr × GatewayEntry .inet} (isBest : IsBest cfg .ipv4 threshold gws best) :
    reachable world best.2.originator = true ↔ ReachableFirst cfg world threshold st := by
  obtain ⟨inTree, isEntry⟩ := (members best.1 best.2).mp isBest.mem
  constructor
  · intro reaches
    refine ⟨best.1, inTree, best.2, isEntry, isBest.isEligible, reaches, ?_⟩
    intro other otherIn value isValue otherEligible lost
    rcases isBest.first (other, value) ((members other value).mpr
      ⟨otherIn, isValue⟩) otherEligible with dearer | ⟨same, earlier⟩
    · exact .inl dearer
    · refine .inr ⟨same, ?_⟩
      rw [← isTree]
      refine lt_of_le_of_ne earlier ?_
      intro samePlace
      have isBoth : best.1 = other := by
        refine (idxOf_inj ?_).mp samePlace
        rw [isTree]
        exact inTree
      rw [← isBoth, isEntry] at isValue
      cases isValue
      simp [reaches] at lost
  · rintro ⟨gw, gwIn, entry, isEntry', gwEligible, reaches, first⟩
    by_contra lost
    rw [Bool.not_eq_true] at lost
    have notDearer := isBest.first (gw, entry) ((members gw entry).mpr ⟨gwIn, isEntry'⟩) gwEligible
    have notEarlier := first best.1 inTree best.2 isEntry isBest.isEligible lost
    rw [← isTree] at notEarlier
    dsimp only at notDearer
    omega

variable {lost : GatewayEntry .inet}

theorem costThreshold_eq (cfg : GwConfig) {lostGw : Ptr}
    (isCur : olsrGetInetGateway st .ipv4 = some (some lostGw))
    (isLost : st.entries lostGw = some lost) :
    costThreshold cfg .ipv4 st = some (lossThreshold cfg lost) := by
  by_cases unset : cfg.smartGwThresh = 0
  · simp [costThreshold, lossThreshold, unset]
  · simp [costThreshold, lossThreshold, unset, isCur, isLost]

/-- What the handler does about a lost gateway when it looks for another. -/
theorem gwDefaultChooseGateway_replaced_iff (cfg : GwConfig) (inv : GwInv st)
    (tunnels : ∀ st family gw, world.addTunnel st family gw = true)
    (looking : st.chooseNew .ipv4 = true) {lostGw : Ptr}
    (isCur : olsrGetInetGateway st .ipv4 = some (some lostGw))
    (isLost : st.entries lostGw = some lost)
    (unreachable : reachable world lost.originator = false) :
    ∃ after, gwDefaultChooseGateway cfg world st = some after ∧
      (Replaced world lostGw after ↔ ReachableFirst cfg world (lossThreshold cfg lost) st) := by
  obtain ⟨gws, isGws, isTree, members⟩ := inv.lists.treeEntries
  have threshold := costThreshold_eq cfg isCur isLost
  have chosen6 := chosenGateway_ipv6 cfg inv.lists inv.current
  have nodup : (gws.map Prod.fst).Nodup := isTree ▸ inv.treeNodup
  rcases foldl_betterGateway_isBest cfg .ipv4 (lossThreshold cfg lost) gws nodup with
    ⟨best, isBest, best'⟩ | ⟨noBest, ineligible⟩
  · have chosen4 : chosenGateway cfg .ipv4 st = some (some best.1) := by
      simp [chosenGateway, threshold, isGws, looking, isBest]
    obtain ⟨inTree, isEntry⟩ := (members best.1 best.2).mp best'.mem
    have same : SameLists st (keepLooking (some best.1) none st) := ⟨rfl, rfl, rfl, rfl, rfl, rfl⟩
    obtain ⟨after, set, newCurrent, entries⟩ :=
      setBoth_chosen cfg tunnels (same.inv inv) isEntry (eligible_accepts best'.isEligible)
    refine ⟨after, by simp [gwDefaultChooseGateway, chosen4, chosen6, set], ?_⟩
    rw [← best'.reachable_iff isTree members]
    have entriesAfter : after.entries best.1 = some best.2 := by
      rw [entries]
      exact isEntry
    constructor
    · rintro ⟨gw, entry, isNew, _, isHeld, reaches⟩
      rw [newCurrent] at isNew
      cases isNew
      rw [entriesAfter] at isHeld
      cases isHeld
      exact reaches
    · intro reaches
      refine ⟨best.1, best.2, newCurrent, ?_, entriesAfter, reaches⟩
      rintro isSame
      rw [← isSame, isEntry] at isLost
      cases isLost
      simp [reaches] at unreachable
  · have chosen4 : chosenGateway cfg .ipv4 st = some none := by
      simp [chosenGateway, threshold, isGws, looking, noBest]
    obtain ⟨after, set, sameCurrent, _⟩ := setBoth_none cfg world (keepLooking none none st)
    refine ⟨after, by simp [gwDefaultChooseGateway, chosen4, chosen6, set], iff_of_false ?_ ?_⟩
    · rintro ⟨gw, entry, isNew, ne, _⟩
      rw [sameCurrent] at isNew
      exact ne (by simpa using isNew.symm.trans isCur)
    · rintro ⟨gw, inTree, entry, isEntry, isEligible, _⟩
      have no := ineligible (gw, entry) ((members gw entry).mpr ⟨inTree, isEntry⟩)
      simp [no] at isEligible

/-- The check for lost gateways replaces a lost gateway by one that can be
reached exactly if, by the costs that are cached, one comes first. -/
theorem lossCheck_replaced_iff (cfg : GwConfig) {world : GwWorld .inet} {st : GwState .inet}
    (inv : GwInv st) (tunnels : ∀ st family gw, world.addTunnel st family gw = true) {lostGw : Ptr}
    {lost : GatewayEntry .inet} (isCurrent : olsrGetInetGateway st .ipv4 = some (some lostGw))
    (isLost : st.entries lostGw = some lost)
    (unreachable : reachable world lost.originator = false) :
    ∃ after, olsrTriggerGatewaylossCheck cfg world st = some after ∧
      (Replaced world lostGw after ↔ ReachableFirst cfg world (lossThreshold cfg lost) st) := by
  have lost4 : gatewayLost world .ipv4 st = some true := by
    simp [gatewayLost, isCurrent, isLost, unreachable]
  obtain ⟨lost6, isLost6⟩ := inv.lists.gatewayLost world inv.current .ipv6
  have same : SameLists st (lookFor cfg true lost6 st) := ⟨rfl, rfl, rfl, rfl, rfl, rfl⟩
  obtain ⟨chosen, isChosen, replaced⟩ :=
    gwDefaultChooseGateway_replaced_iff cfg (same.inv inv) tunnels rfl isCurrent isLost unreachable
  have looked : gwDefaultLookupGateway cfg world true lost6 st = some chosen := by
    simpa [gwDefaultLookupGateway, chooseIfLooking, lookFor, usesFamily] using isChosen
  have triggered : olsrTriggerGatewaylossCheck cfg world st =
      some (if chosen.chooseNew .ipv4 || chosen.chooseNew .ipv6 then
        gwDefaultStartupHandler cfg world chosen else chosen) := by
    simp only [olsrTriggerGatewaylossCheck, lost4, isLost6,
      gwDefaultChoosegwHandler, looked, bind_eq_bind, bind_some, Bool.true_or, if_true]
    split <;> rfl
  refine ⟨_, triggered, ?_⟩
  split
  · exact replaced
  · exact replaced

/-- The gateways of the two addresses, the first cheaper, and the first lost. -/
def cheapGatewayLost : List (GwWorld .inet × GwEvent .inet) :=
  [(worldOf (some 1000) (some 2000) true, .update firstGateway ipv4Mask 0 1),
    (worldOf (some 1000) (some 2000) true, .update secondGateway ipv4Mask 0 1),
    (worldOf (some 1000) (some 2000) true, .setInet 0 true false)]

/-- The second gateway can be reached, but the first one is still the cheapest
by the costs that are cached, and stays. -/
theorem cheapGatewayLost_stays : ∃ reached after lost other,
      runEvents (gwStep singleConfig) (initGateways .inet singleConfig)
        cheapGatewayLost = some reached ∧
      olsrGetInetGateway reached .ipv4 = some (some 0) ∧
      reached.entries 0 = some lost ∧
      reachable (worldOf none (some 2000) true) lost.originator = false ∧
      reached.entries 1 = some other ∧
      isGwSelectable singleConfig .ipv4 other = true ∧
      reachable (worldOf none (some 2000) true) other.originator = true ∧
      olsrTriggerGatewaylossCheck singleConfig
        (worldOf none (some 2000) true) reached = some after ∧
      olsrGetInetGateway after .ipv4 = some (some 0) ∧
      ¬ Replaced (worldOf none (some 2000) true) 0 after := by
  obtain ⟨reached, isReached, before, lost, isLost, lostAddr, other, isOther, otherAddr, selectable,
      after, isAfter, stays⟩ : ∃ reached,
      runEvents (gwStep singleConfig) (initGateways .inet singleConfig) cheapGatewayLost =
        some reached ∧ olsrGetInetGateway reached .ipv4 = some (some 0) ∧
      ∃ lost, reached.entries 0 = some lost ∧ lost.originator = firstGateway ∧
      ∃ other, reached.entries 1 = some other ∧ other.originator = secondGateway ∧
        isGwSelectable singleConfig .ipv4 other = true ∧
      ∃ after, olsrTriggerGatewaylossCheck singleConfig (worldOf none (some 2000) true) reached =
        some after ∧ olsrGetInetGateway after .ipv4 = some (some 0) := by
    decide +kernel
  refine ⟨reached, after, lost, other, isReached, before, isLost, ?_, isOther,
      selectable, ?_, isAfter, stays, ?_⟩
  · rw [lostAddr]
    decide
  · rw [otherAddr]
    decide
  · rintro ⟨gw, entry, isCurrent, differs, _⟩
    rw [stays] at isCurrent
    exact differs (by simpa using isCurrent.symm)

def dearGatewayLost : List (GwWorld .inet × GwEvent .inet) :=
  [.update firstGateway ipv4Mask 0 1, .update secondGateway ipv4Mask 0 1,
    .setInet 0 true false].map fun event => (worldOf (some 2000) (some 1000) true, event)

/-- A dearer gateway that is lost is replaced. -/
theorem lossCheck_replaced_dear : ∃ reached after,
      runEvents (gwStep singleConfig) (initGateways .inet singleConfig) dearGatewayLost =
        some reached ∧
      olsrTriggerGatewaylossCheck singleConfig
        (worldOf none (some 1000) true) reached = some after ∧
      Replaced (worldOf none (some 1000) true) 0 after := by
  have keeps : ∀ first second, KeepsCurrent (worldOf first second true) :=
    fun _ _ _ _ _ _ _ _ _ => rfl
  obtain ⟨reached, isReached, isCurrent, tree, lost, isLost, lostAddr, lostCost, other, isOther,
      otherAddr, otherCost, isEligible⟩ : ∃ reached,
      runEvents (gwStep singleConfig) (initGateways .inet singleConfig) dearGatewayLost =
        some reached ∧ olsrGetInetGateway reached .ipv4 = some (some 0) ∧
        reached.gatewayTree = [0, 1] ∧
      ∃ lost, reached.entries 0 = some lost ∧ lost.originator = firstGateway ∧
        lost.pathCost = 2000 * 2 ^ 31 ∧
      ∃ other, reached.entries 1 = some other ∧ other.originator = secondGateway ∧
        other.pathCost = 1000 * 2 ^ 31 ∧ eligible singleConfig .ipv4 none other = true := by
    decide +kernel
  obtain ⟨final, finished, inv⟩ :=
    gwRun_inv singleConfig dearGatewayLost (by simp [RunMeets, dearGatewayLost, keeps])
  cases isReached.symm.trans finished
  have unreachable : reachable (worldOf none (some 1000) true) lost.originator = false := by
    rw [lostAddr]
    decide
  obtain ⟨after, triggered, replaced⟩ :=
    lossCheck_replaced_iff singleConfig inv (fun _ _ _ => rfl) isCurrent isLost unreachable
  refine ⟨reached, after, isReached, triggered, replaced.mpr ?_⟩
  refine ⟨1, by simp [tree], other, isOther, isEligible, by rw [otherAddr]; decide, ?_⟩
  intro gw inTree value isValue _ isUnreachable
  rw [tree] at inTree
  rcases mem_pair.mp inTree with rfl | rfl
  · rw [isLost] at isValue
    cases isValue
    exact .inl (by rw [lostCost, otherCost]; decide)
  · rw [isOther] at isValue
    cases isValue
    rw [otherAddr] at isUnreachable
    exact absurd isUnreachable (by decide)

end LossCheck

section Threshold

def currentEntry (family : Family) (st : GwState ver) : Option (GatewayEntry ver) :=
  (olsrGetInetGateway st family).join.bind st.entries

/-- The bound that the current gateway should set; an infinite cost sets
none. -/
def exactThreshold (cfg : GwConfig) (current : Option (GatewayEntry ver)) : Option Int :=
  if cfg.smartGwThresh = 0 then
    none
  else
    (current.filter fun gw => gw.pathCost ≠ int64Max).map fun gw =>
      (gw.pathCost * cfg.smartGwThresh + 50) / 100

def wrappedThreshold (cfg : GwConfig) (current : Option (GatewayEntry ver)) : Option Int :=
  if cfg.smartGwThresh = 0 then
    none
  else
    current.map fun gw => (wrap64 (wrap64 (gw.pathCost * cfg.smartGwThresh) + 50)).tdiv 100

def Below (bound : Option Int) (cost : Int) : Prop := ∀ limit, bound = some limit → cost < limit

/-- What is chosen is the first of the cheapest gateways below the bound. -/
def ChoosesFirst (cfg : GwConfig) (bound : Option Int)
    (gws : List (Ptr × GatewayEntry ver)) : Option Ptr → Prop
  | none => ∀ other ∈ gws, eligible cfg .ipv4 bound other.2 = false
  | some gw => ∃ entry, IsBest cfg .ipv4 bound gws (gw, entry)

section Bounds

variable {bound : Option Int} {gws : List (Ptr × GatewayEntry ver)} {best : Ptr × GatewayEntry ver}

theorem eligible_iff {gw : GatewayEntry ver} : eligible cfg family bound gw = true ↔
      eligible cfg family none gw = true ∧ Below bound gw.pathCost := by
  cases bound with
  | none => simp [Below]
  | some limit => simp [eligible, Below]

/-- A bound excludes the cheapest gateway, or no cheaper one. -/
theorem isBest_iff : IsBest cfg family bound gws best ↔
      IsBest cfg family none gws best ∧ Below bound best.2.pathCost := by
  constructor
  · intro isBest
    obtain ⟨isEligible, below⟩ := eligible_iff.mp isBest.isEligible
    refine ⟨⟨isBest.mem, isEligible, fun other inGws otherEligible => ?_⟩, below⟩
    by_cases otherBelow : Below bound other.2.pathCost
    · exact isBest.first other inGws (eligible_iff.mpr ⟨otherEligible, otherBelow⟩)
    · obtain ⟨limit, isBound, above⟩ : ∃ limit, bound = some limit ∧ limit ≤ other.2.pathCost := by
        simpa [Below] using otherBelow
      exact .inl ((below limit isBound).trans_le above)
  · rintro ⟨isBest, below⟩
    exact ⟨isBest.mem, eligible_iff.mpr ⟨isBest.isEligible, below⟩,
      fun other inGws isEligible => isBest.first other inGws (eligible_iff.mp isEligible).1⟩

theorem IsBest.pathCost_eq {other : Ptr × GatewayEntry ver}
    (isBest : IsBest cfg family bound gws best) (isOther : IsBest cfg family bound gws other) :
    best.2.pathCost = other.2.pathCost := by
  have left := isBest.first other isOther.mem isOther.isEligible
  have right := isOther.first best isBest.mem isBest.isEligible
  omega

end Bounds

theorem ListsOk.costThreshold_eq (cfg : GwConfig) (ok : ListsOk st)
    (current : CurrentOk st) (family : Family) : Gateways.costThreshold cfg family st =
      some (wrappedThreshold cfg (currentEntry family st)) := by
  obtain ⟨curGw, isCur, inTree⟩ := ok.olsrGetInetGateway current family
  by_cases unset : cfg.smartGwThresh = 0
  · simp [Gateways.costThreshold, wrappedThreshold, unset]
  · cases curGw with
    | none =>
      simp [Gateways.costThreshold, wrappedThreshold, unset, currentEntry, isCur]
    | some gw =>
      obtain ⟨entry, held⟩ := isSome_iff_exists.mp (ok.present gw (inTree gw rfl))
      simp [Gateways.costThreshold, wrappedThreshold, unset, currentEntry, isCur,
        held, gwDefaultCalcThreshold]

/-- A run that looks for an IPv4 gateway chooses the first of the cheapest ones
below the exact bound, exactly if the cheapest of all is below that bound or
not as it is below the bound of 64 bits. -/
theorem chosenGateway_choosesFirst_iff (cfg : GwConfig) (ok : ListsOk st) (current : CurrentOk st)
    (nodup : st.gatewayTree.Nodup) (looking : st.chooseNew .ipv4 = true) :
    ∃ chosen gws, chosenGateway cfg .ipv4 st = some chosen ∧ treeEntries st = some gws ∧
      (ChoosesFirst cfg (exactThreshold cfg (currentEntry .ipv4 st)) gws chosen ↔
        ∀ best, IsBest cfg .ipv4 none gws best →
          (Below (exactThreshold cfg (currentEntry .ipv4 st)) best.2.pathCost ↔
            Below (wrappedThreshold cfg (currentEntry .ipv4 st)) best.2.pathCost)) := by
  obtain ⟨gws, isGws, isTree, _⟩ := ok.treeEntries
  have threshold := ok.costThreshold_eq cfg current .ipv4
  generalize wrappedThreshold cfg (currentEntry .ipv4 st) = wrapped at threshold ⊢
  refine ⟨(gws.foldl (betterGateway cfg .ipv4 wrapped) none).map Prod.fst, gws,
      by simp [chosenGateway, threshold, isGws, looking], isGws, ?_⟩
  rcases foldl_betterGateway_isBest cfg .ipv4 wrapped gws (isTree ▸ nodup) with
    ⟨best, isBest, cheapest⟩ | ⟨noBest, ineligible⟩
  · obtain ⟨least, below⟩ := isBest_iff.mp cheapest
    rw [isBest, map_some, ChoosesFirst]
    constructor
    · rintro ⟨entry, exact⟩ other isOther
      obtain ⟨leastExact, belowExact⟩ := isBest_iff.mp exact
      rw [isOther.pathCost_eq least]
      rw [leastExact.pathCost_eq least] at belowExact
      exact iff_of_true belowExact below
    · intro agrees
      exact ⟨best.2, isBest_iff.mpr ⟨least, (agrees best least).mpr below⟩⟩
  · rw [noBest, map_none, ChoosesFirst]
    have above : ∀ best, IsBest cfg .ipv4 none gws best → ¬ Below wrapped best.2.pathCost := by
      intro best least below
      have isEligible := eligible_iff.mpr ⟨least.isEligible, below⟩
      simp [ineligible best least.mem] at isEligible
    constructor
    · intro unchosen best least
      refine iff_of_false (fun below => ?_) (above best least)
      have isEligible := eligible_iff.mpr ⟨least.isEligible, below⟩
      simp [unchosen best least.mem] at isEligible
    · intro agrees other inGws
      rw [← Bool.not_eq_true]
      intro isEligible
      obtain ⟨otherEligible, otherBelow⟩ := eligible_iff.mp isEligible
      rcases foldl_betterGateway_isBest cfg .ipv4 none gws (isTree ▸ nodup) with
        ⟨best, _, least⟩ | ⟨_, missing⟩
      · refine above best least ((agrees best least).mp fun limit isBound => ?_)
        have cheaper := least.first other inGws otherEligible
        have belowLimit := otherBelow limit isBound
        omega
      · simp [missing other inGws] at otherEligible

def thresholdConfig : GwConfig := { singleConfig with smartGwThresh := 50 }

/-- The second gateway, which a user has set, costs more than twice as much as
the first one. -/
def cheaperGateway : List (GwWorld .inet × GwEvent .inet) :=
  [.update firstGateway ipv4Mask 0 1, .update secondGateway ipv4Mask 0 1,
    .setInet 2 true false].map fun event => (worldOf (some 900) (some 2000) true, event)

theorem chosenGateway_choosesFirst_cheaper : ∃ reached gws,
      runEvents (gwStep thresholdConfig) (initGateways .inet thresholdConfig) cheaperGateway =
        some reached ∧
      (currentEntry .ipv4 reached).map (·.pathCost) = some (2000 * 2 ^ 31) ∧
      treeEntries reached = some gws ∧ gws.map Prod.fst = [0, 2] ∧
      chosenGateway thresholdConfig .ipv4 reached = some (some 0) ∧
      ChoosesFirst thresholdConfig (some (1000 * 2 ^ 31)) gws (some 0) := by
  have keeps : ∀ first second, KeepsCurrent (worldOf first second true) :=
    fun _ _ _ _ _ _ _ _ _ => rfl
  obtain ⟨reached, finished, inv⟩ :=
    gwRun_inv thresholdConfig cheaperGateway (by simp [RunMeets, cheaperGateway, keeps])
  obtain ⟨final, isFinal, looking, cost, exact, wrapped, tree, isFirst⟩ : ∃ final,
      runEvents (gwStep thresholdConfig) (initGateways .inet thresholdConfig) cheaperGateway =
        some final ∧ final.chooseNew .ipv4 = true ∧
      (currentEntry .ipv4 final).map (·.pathCost) = some (2000 * 2 ^ 31) ∧
      exactThreshold thresholdConfig (currentEntry .ipv4 final) = some (1000 * 2 ^ 31) ∧
      wrappedThreshold thresholdConfig (currentEntry .ipv4 final) = some (1000 * 2 ^ 31) ∧
      (treeEntries final).map (·.map Prod.fst) = some [0, 2] ∧
      chosenGateway thresholdConfig .ipv4 final = some (some 0) := by
    decide +kernel
  cases isFinal.symm.trans finished
  obtain ⟨chosen, gws, isChosen, isGws, chooses⟩ :=
    chosenGateway_choosesFirst_iff thresholdConfig inv.lists inv.current inv.treeNodup looking
  cases isFirst.symm.trans isChosen
  rw [exact, wrapped] at chooses
  rw [isGws] at tree
  exact ⟨reached, gws, finished, cost, isGws, some_inj.mp tree, isFirst,
    chooses.mpr fun _ _ => Iff.rfl⟩

def infiniteGateway : List (GwWorld .inet × GwEvent .inet) :=
  [(worldOf (some 1000) none true, .update firstGateway ipv4Mask 0 1),
    (worldOf none (some 1000) true, .update firstGateway ipv4Mask 0 2),
    (worldOf none (some 1000) true, .update secondGateway ipv4Mask 0 1)]

/-- The current gateway is announced again when it cannot be reached any more.
Its infinite cost wraps to the threshold zero, and the second gateway is not
chosen. -/
theorem infiniteGateway_keeps_others_out : ∃ final first second,
      runEvents (gwStep thresholdConfig) (initGateways .inet thresholdConfig)
        infiniteGateway = some final ∧
      currentEntry .ipv4 final = some first ∧ final.entries 2 = some second ∧
      final.chooseNew .ipv4 = true ∧ first.pathCost = int64Max ∧ 2 ∈ final.gatewayTree ∧
      eligible thresholdConfig .ipv4 (exactThreshold thresholdConfig (some first)) second = true ∧
      chosenGateway thresholdConfig .ipv4 final = some none := by
  simp only [exists_and_left]
  decide +kernel

end Threshold

end QosOlsr.Gateways
