import QosOlsr.Egress.BestLink

/-!
# The route of the best egress link

While there is a best egress link whose interface is up, the kernel has exactly
the route that the program has recorded, which is the route via that link.
-/

namespace QosOlsr.Egress

open Library Gateways List

variable {world : EgressWorld} {offsetTables : Nat} {st : EgressState} {cfg : GwConfig}

def CostsOk (egress : EgressIf) : Prop :=
  egress.upCurrent = false → egress.bwCurrent.costs = int64Max

/-- Some interface that the program takes to be up has finite costs, and the
cheapest of those that it takes to be up are up. -/
def Usable (world : EgressWorld) (interfaces : List EgressIf) : Prop :=
  (∃ egress ∈ interfaces, egress.upCurrent = true ∧ egress.bwCurrent.costs < int64Max) ∧
  ∀ egress ∈ interfaces, egress.upCurrent = true →
    (∀ other ∈ interfaces, other.upCurrent = true →
      egress.bwCurrent.costs ≤ other.bwCurrent.costs) →
    world.isInterfaceUp egress.ifIndex = true

section Best

variable {interfaces : List EgressIf}

private theorem Usable.exists_selectable (usable : Usable world interfaces) :
    ∃ least ∈ interfaces, Selectable world least ∧ ∀ other ∈ interfaces, other.upCurrent = true →
      least.bwCurrent.costs ≤ other.bwCurrent.costs := by
  obtain ⟨⟨usableIf, inList, usableUp, finite⟩, cheapestUp⟩ := usable
  obtain ⟨least, leastIn, leastLe⟩ :=
    (interfaces.toFinset.filter fun egress => egress.upCurrent = true).exists_min_image
      (fun egress => egress.bwCurrent.costs) ⟨usableIf, by simp [usableUp, inList]⟩
  simp only [Finset.mem_filter, mem_toFinset] at leastIn leastLe
  have cheapest : ∀ other ∈ interfaces, other.upCurrent = true →
      least.bwCurrent.costs ≤ other.bwCurrent.costs :=
    fun other otherIn up => leastLe other ⟨otherIn, up⟩
  exact ⟨least, leastIn.1, ⟨⟨leastIn.2, cheapestUp least leastIn.1 leastIn.2 cheapest⟩,
    (cheapest usableIf inList usableUp).trans_lt finite⟩, cheapest⟩

private theorem bestEgress_spec (costs : ∀ egress ∈ interfaces, CostsOk egress)
    (usable : Usable world interfaces) : ∃ place egress, bestEgress world interfaces = some place ∧
      interfaces[place]? = some egress ∧ world.isInterfaceUp egress.ifIndex = true := by
  obtain ⟨least, leastIn, selectable, cheapest⟩ := usable.exists_selectable
  have starts : StartsWell world interfaces := by
    cases interfaces with
    | nil => trivial
    | cons first rest =>
      by_cases up : first.upCurrent = true
      · rcases (cheapest first mem_cons_self up).lt_or_eq with cheaper | same
        · rcases mem_cons.mp leastIn with rfl | inRest
          · exact .inl selectable
          · exact .inr (.inr ⟨least, inRest, selectable, cheaper⟩)
        · refine .inl ⟨⟨up, usable.2 first mem_cons_self up ?_⟩, same ▸ selectable.2⟩
          exact same ▸ cheapest
      · exact .inr (.inl (costs first mem_cons_self (by simpa using up)))
  have selects := bestEgress_selects starts
  cases isBest : bestEgress world interfaces with
  | none =>
    rw [isBest] at selects
    exact absurd selectable (selects least leastIn)
  | some place =>
    rw [isBest] at selects
    obtain ⟨egress, isLeast⟩ := selects
    exact ⟨place, egress, rfl, mk_mem_zipIdx_iff_getElem?.mp isLeast.mem, isLeast.ok.1.2⟩

end Best

section Routes

/-- The default routes of the table, which are the ones of one metric here. -/
def IsDefault (offsetTables : Nat) (route : SgwRoute) : Prop :=
  route.rttable = offsetTables ∧ route.dst = some ipv4Slash0Route ∧ route.metric = 0

theorem bestRoute_spec (offsetTables : Nat) {egress : EgressIf} (positive : 0 < egress.ifIndex) :
    (bestRoute offsetTables (some egress)).active = true ∧
      IsDefault offsetTables (bestRoute offsetTables (some egress)).route ∧
      (bestRoute offsetTables (some egress)).route.ifIndex = egress.ifIndex ∧
      (bestRoute offsetTables (some egress)).route.gw = egress.bwCurrent.gateway ∧
      (bestRoute offsetTables (some egress)).route.blackhole = false := by
  cases gateway : egress.bwCurrent.gateway with
  | none =>
    simp [bestRoute, determineEgressLinkRoute, gateway, positive.not_ge, IsDefault, zeroRoute]
  | some gw =>
    simp [bestRoute, determineEgressLinkRoute, gateway, positive.not_ge, IsDefault, zeroRoute]

/-- With the interface up, the kernel has the new route and no other. -/
theorem programBest_spec {phase : ChangePhase} {previous current : SgwRouteInfo}
    {kernel : List SgwRoute} (active : current.active = true)
    (isDefault : IsDefault offsetTables current.route)
    (up : world.isInterfaceUp current.route.ifIndex = true)
    (recorded : phase = .startup ∧ kernel = [] ∨ phase = .runtime ∧ kernel = [previous.route] ∧
        previous.active = true ∧ IsDefault offsetTables previous.route) :
    programBest world phase previous current kernel = ([current.route], current) := by
  have kept : { current with active := true } = current := by rw [← active]
  rcases recorded with ⟨rfl, rfl⟩ | ⟨rfl, rfl, wasActive, wasDefault⟩
  · simp [programBest, ChangePhase.addForced, ChangePhase.addAllowed,
      ChangePhase.delAllowed, programRoute, active, up, olsrNewNetlinkRoute, kept]
  · by_cases same : previous.route = current.route
    · simp [programBest, ChangePhase.addForced, ChangePhase.delForced, wasActive, active, same]
    · have replaced : ∀ kernel, kernel = [previous.route] ∨ kernel = [] →
          olsrNewNetlinkRoute true current.route kernel = [current.route] := by
        rintro kernel (rfl | rfl)
        · simp [olsrNewNetlinkRoute, isDefault.1, isDefault.2.1,
            isDefault.2.2, wasDefault.1, wasDefault.2.1, wasDefault.2.2]
        · simp [olsrNewNetlinkRoute]
      have removed : (programRoute world false previous [previous.route]).1 = [previous.route] ∨
          (programRoute world false previous [previous.route]).1 = [] := by
        unfold programRoute
        split
        · exact .inl rfl
        · split
          · exact .inl rfl
          · exact .inr (by simp [olsrNewNetlinkRoute])
      have programs : programBest world .runtime previous current
          [previous.route] = programRoute world true current
            (programRoute world false previous [previous.route]).1 := by
        simp [programBest, ChangePhase.delAllowed, ChangePhase.addAllowed, same]
      rw [programs]
      generalize (programRoute world false previous [previous.route]).1 = deleted at removed
      simp [programRoute, active, up, replaced deleted removed, kept]

end Routes

section Invariant

/-- The kernel has the route of the best link, which is recorded, and no
other. -/
structure Mirrored (offsetTables : Nat) (st : EgressState) : Prop where
  costs : ∀ egress ∈ st.interfaces, CostsOk egress
  best : ∃ place egress, st.bestEgressLink = some place ∧
    st.interfaces[place]? = some egress ∧ 0 < egress.ifIndex ∧
    st.bestEgressLinkRoute = bestRoute offsetTables (some egress)
  kernel : st.kernel = [st.bestEgressLinkRoute.route]

def SameRoute (before after : EgressIf) : Prop := after.ifIndex = before.ifIndex ∧
    after.bwCurrent.gateway = before.bwCurrent.gateway

theorem SameRoute.bestRoute_eq {before after : EgressIf} (same : SameRoute before after) :
    bestRoute offsetTables (some after) = bestRoute offsetTables (some before) := by
  simp [bestRoute, same.1, same.2]

/-- What is needed for `doRoutesMultiGw` to find the route of a link that it
does not program again. -/
def Recorded (offsetTables : Nat) (phase : ChangePhase) (st : EgressState) : Prop :=
  phase = .startup ∧ st.kernel = [] ∨
    phase = .runtime ∧ st.kernel = [st.bestEgressLinkRoute.route] ∧
      st.bestEgressLinkRoute.active = true ∧
      IsDefault offsetTables st.bestEgressLinkRoute.route ∧
      ∀ place egress, st.bestEgressLink = some place → st.interfaces[place]? = some egress →
        egress.upChanged = false → egress.bwChanged = false →
          st.bestEgressLinkRoute = bestRoute offsetTables (some egress)

private theorem mirrored_processEgress {phase : ChangePhase}
    (costs : ∀ egress ∈ st.interfaces, CostsOk egress) (usable : Usable world st.interfaces)
    (recorded : Recorded offsetTables phase st) :
    Mirrored offsetTables (processEgress offsetTables world phase st) := by
  obtain ⟨place, egress, isBest, isThere, up⟩ := bestEgress_spec costs usable
  have positive := world.up_pos _ up
  obtain ⟨active, isDefault, index, _⟩ := bestRoute_spec offsetTables positive
  have running : phase ≠ .shutdown := by rcases recorded with ⟨rfl, _⟩ | ⟨rfl, _⟩ <;> decide
  have determined : determineBestEgressLink world phase st =
      ({ st with
        bestEgressLinkPrevious := st.bestEgressLink
        bestEgressLink := some place },
      st.bestEgressLink ≠ some place || (egress.upChanged || egress.bwChanged)) := by
    simp [determineBestEgressLink, running, isBest, EgressState.bestIf, isThere]
  unfold processEgress
  rw [determined]
  dsimp only
  split
  next configures =>
    have programmed : programBest world phase st.bestEgressLinkRoute
        (bestRoute offsetTables (some egress)) st.kernel =
        ([(bestRoute offsetTables (some egress)).route], bestRoute offsetTables (some egress)) := by
      refine programBest_spec active isDefault (by rw [index]; exact up) ?_
      rcases recorded with started | ⟨isRuntime, isKernel, was, wasDefault, _⟩
      · exact .inl started
      · exact .inr ⟨isRuntime, isKernel, was, wasDefault⟩
    have bestIf : EgressState.bestIf
        { st with
          bestEgressLinkPrevious := st.bestEgressLink
          bestEgressLink := some place } = some egress := by
      simp [EgressState.bestIf, isThere]
    unfold configureBestEgressLinkRoute
    rw [if_neg (by simp), bestIf]
    dsimp only
    rw [programmed]
    exact ⟨costs, ⟨place, egress, rfl, isThere, positive, rfl⟩, rfl⟩
  next skips =>
    simp only [Bool.or_eq_true, not_or, Bool.not_eq_true] at skips
    obtain ⟨⟨sameBest, sameUp, sameBw⟩, unforced⟩ := skips
    have same : st.bestEgressLink = some place := by simpa using sameBest
    rcases recorded with ⟨rfl, _⟩ | ⟨_, isKernel, _, _, agrees⟩
    · simp [ChangePhase.forced] at unforced
    · exact ⟨costs, ⟨place, egress, rfl, isThere, positive,
          agrees place egress same isThere sameUp sameBw⟩, isKernel⟩

theorem Mirrored.clearChanged (mirrored : Mirrored offsetTables st) :
    Mirrored offsetTables (clearChanged st) := by
  obtain ⟨costs, ⟨place, egress, isBest, isThere, positive, isRoute⟩, kernel⟩ := mirrored
  refine ⟨?_, ⟨place,
      { egress with
        upChanged := false
        bwCostsChanged := false
        bwNetworkChanged := false
        bwGatewayChanged := false
        bwChanged := false }, isBest, ?_, positive, isRoute⟩, kernel⟩
  · intro cleared inList
    obtain ⟨other, otherIn, rfl⟩ := mem_map.mp inList
    exact costs other otherIn
  · simp [Egress.clearChanged, isThere]

theorem mirrored_doRoutesMultiGw {phase : ChangePhase}
    (costs : ∀ egress ∈ st.interfaces, CostsOk egress) (usable : Usable world st.interfaces)
    (recorded : Recorded offsetTables phase st) :
    Mirrored offsetTables (doRoutesMultiGw offsetTables world true phase st) := by
  simpa [doRoutesMultiGw] using (mirrored_processEgress costs usable recorded).clearChanged

end Invariant

section Changes

/-- What an event may do to an interface: one that gets another route has its
flags set. -/
structure Changes (before after : EgressIf) : Prop where
  costs : CostsOk before → CostsOk after
  flagged : after.upChanged = false → after.bwChanged = false → SameRoute before after

theorem costsOk_calculate (up : Bool) (bw : EgressBw) (down : up = false) :
    (egressBwCalculateCosts cfg up bw).costs = int64Max := by
  simp [egressBwCalculateCosts, weighCosts, down]

theorem changes_setUp (up : Bool) (ifIndex : Int) (egress : EgressIf) :
    Changes egress (setUp cfg up { egress with ifIndex := ifIndex }) := by
  constructor
  · intro _ down
    exact costsOk_calculate up egress.bwCurrent down
  · exact nofun

/-- Halfway through `readEgressFile`. -/
structure Reads (before after : EgressIf) : Prop where
  costs : CostsOk before → CostsOk after
  ifIndex : after.ifIndex = before.ifIndex
  previous : after.bwPrevious = before.bwCurrent

private theorem reads_clear (egress : EgressIf) : Reads egress (readEgressFileClear egress) :=
  ⟨id, rfl, rfl⟩

theorem Reads.applyLine {before after : EgressIf} (reads : Reads before after)
    (line : EgressLine) : Reads before (applyLine cfg line after) := by
  refine ⟨fun _ down => ?_, reads.ifIndex, reads.previous⟩
  change after.upCurrent = false at down
  simp only [Egress.applyLine]
  split
  · exact costsOk_calculate _ _ down
  · exact costsOk_calculate _ _ down

variable {before after : List EgressIf}

private theorem forall₂_modifyNamed (name : Nat) (line : EgressLine)
    (reads : List.Forall₂ Reads before after) :
    List.Forall₂ Reads before (modifyNamed name (applyLine cfg line) after) := by
  induction reads with
  | nil => exact .nil
  | cons first rest ih =>
    rw [modifyNamed]
    split
    · exact .cons (first.applyLine line) rest
    · exact .cons first ih

theorem Reads.markChanged {before after : EgressIf} (reads : Reads before after) :
    Changes before (markChanged cfg after) ∧
      ((markChanged cfg after).bwChanged = false → SameRoute before (markChanged cfg after)) := by
  have sameRoute : (Egress.markChanged cfg after).bwChanged = false →
      SameRoute before (Egress.markChanged cfg after) := by
    intro unchanged
    simp only [Egress.markChanged, reads.previous,
      decide_eq_false_iff_not, not_or, not_not] at unchanged
    exact ⟨reads.ifIndex, unchanged.2.2.2.symm⟩
  refine ⟨⟨fun ok down => ?_, fun _ => sameRoute⟩, sameRoute⟩
  change after.upCurrent = false at down
  simp only [Egress.markChanged]
  split
  · exact reads.costs ok down
  · exact costsOk_calculate _ _ down

theorem forall₂_readEgressFile
    (cfg : GwConfig) (lines : List EgressLine) (interfaces : List EgressIf) :
    List.Forall₂
      (fun before after => Changes before after ∧
        (after.bwChanged = false → SameRoute before after))
      interfaces (readEgressFile cfg lines interfaces) := by
  have read : ∀ {after}, List.Forall₂ Reads interfaces after → List.Forall₂ Reads interfaces
        (lines.foldl (fun interfaces line =>
          modifyNamed line.name (applyLine cfg line) interfaces) after) := by
    induction lines with
    | nil => exact fun reads => reads
    | cons line rest ih =>
      intro after reads
      exact ih (forall₂_modifyNamed line.name line reads)
  have cleared : List.Forall₂ Reads interfaces (interfaces.map readEgressFileClear) := by
    rw [forall₂_map_right_iff, forall₂_same]
    exact fun egress _ => reads_clear egress
  unfold readEgressFile
  rw [forall₂_map_right_iff]
  exact (read cleared).imp fun _ _ reads => reads.markChanged

variable {Relation : EgressIf → EgressIf → Prop}

theorem forall₂_getElem? (related : List.Forall₂ Relation before after) {place : Nat}
    {egress : EgressIf} (isThere : before[place]? = some egress) :
    ∃ other, after[place]? = some other ∧ Relation egress other := by
  induction related generalizing place with
  | nil => simp at isThere
  | cons first rest ih =>
    cases place with
    | zero =>
      simp only [getElem?_cons_zero, Option.some.injEq] at isThere
      subst isThere
      exact ⟨_, rfl, first⟩
    | succ place => simpa using ih (by simpa using isThere)

theorem costsOk_of_changes (changes : List.Forall₂ Changes before after)
    (costs : ∀ egress ∈ before, CostsOk egress) : ∀ egress ∈ after, CostsOk egress := by
  induction changes with
  | nil => simp
  | cons first rest ih =>
    rw [forall_mem_cons] at costs ⊢
    exact ⟨first.costs costs.1, ih costs.2⟩

theorem forall₂_modify {write : EgressIf → EgressIf} (same : ∀ egress, Relation egress egress) :
    ∀ (interfaces : List EgressIf) (place : Nat),
      (∀ egress, interfaces[place]? = some egress → Relation egress (write egress)) →
      List.Forall₂ Relation interfaces (interfaces.modify place write)
  | [], place, _ => by simp
  | egress :: rest, 0, writes => by
    refine .cons (writes egress rfl) ?_
    exact forall₂_same.mpr fun other _ => same other
  | egress :: rest, place + 1, writes => by
    refine .cons (same egress) ?_
    exact forall₂_modify same rest place fun other isThere =>
      writes other (by simpa using isThere)

end Changes

section Runs

/-- An interface that is taken to be up keeps its index when it is reported up
again. -/
def KeepsIndex (world : EgressWorld) (event : EgressEvent) (interfaces : List EgressIf) : Prop :=
  match event with
  | .interfaceUp ifIndex =>
    ∀ name place egress, world.indexToName ifIndex = some name →
      findByName name interfaces = some place →
      interfaces[place]? = some egress → egress.upCurrent = true → egress.ifIndex = ifIndex
  | _ => True

/-- Whenever an event reports an egress change, some interface can be used, and
no index changes unnoticed. -/
def EgressOk (cfg : GwConfig) (st : EgressState) (event : EgressWorld × EgressEvent) : Prop :=
  KeepsIndex event.1 event.2 st.interfaces ∧
    ((changeInterfaces cfg event.1 event.2 st.interfaces).2 = some true → Usable event.1
        (changeInterfaces cfg event.1 event.2 st.interfaces).1)

theorem Changes.refl (egress : EgressIf) : Changes egress egress := ⟨id, fun _ _ => ⟨rfl, rfl⟩⟩

/-- What an event does to the interfaces: a change of a route is flagged, and
there is none unless the event reports an egress change. -/
theorem changeInterfaces_spec (cfg : GwConfig) {event : EgressEvent} {interfaces : List EgressIf}
    (keeps : KeepsIndex world event interfaces) :
    List.Forall₂ Changes interfaces (changeInterfaces cfg world event interfaces).1 ∧
    ((changeInterfaces cfg world event interfaces).2 ≠ some true →
      List.Forall₂ SameRoute interfaces (changeInterfaces cfg world event interfaces).1) := by
  have unchanged : List.Forall₂ Changes interfaces interfaces ∧
      List.Forall₂ SameRoute interfaces interfaces :=
    ⟨forall₂_same.mpr fun egress _ => .refl egress, forall₂_same.mpr fun _ _ => ⟨rfl, rfl⟩⟩
  cases event with
  | interfaceUp ifIndex =>
    simp only [changeInterfaces]
    split
    · exact ⟨unchanged.1, fun _ => unchanged.2⟩
    next place found =>
      obtain ⟨name, isName, isPlace⟩ := Option.bind_eq_some_iff.mp found
      split
      next already =>
        have sameIndex : ∀ egress, interfaces[place]? = some egress →
            { egress with ifIndex := ifIndex } = egress := by
          intro egress isThere
          have up : egress.upCurrent = true := by simpa [isThere] using already
          rw [← keeps name place egress isName isPlace isThere up]
        refine ⟨forall₂_modify .refl _ _ ?_, fun _ => forall₂_modify (fun _ => ⟨rfl, rfl⟩) _ _ ?_⟩
        · intro egress isThere
          rw [sameIndex egress isThere]
          exact .refl egress
        · intro egress isThere
          rw [sameIndex egress isThere]
          exact ⟨rfl, rfl⟩
      · refine ⟨forall₂_modify .refl _ _ fun egress _ => ?_, by simp⟩
        exact changes_setUp true ifIndex egress
  | interfaceDown ifIndex =>
    simp only [changeInterfaces]
    split
    · exact ⟨unchanged.1, fun _ => unchanged.2⟩
    next place found =>
      split
      · refine ⟨forall₂_modify .refl _ _ fun egress _ => ?_, by simp⟩
        exact changes_setUp false egress.ifIndex egress
      · exact ⟨unchanged.1, fun _ => unchanged.2⟩
  | file lines =>
    have read := forall₂_readEgressFile cfg lines interfaces
    refine ⟨read.imp fun _ _ both => both.1, ?_⟩
    intro unreported
    simp only [changeInterfaces] at unreported ⊢
    split at unreported
    · exact absurd rfl unreported
    next noneChanged =>
      rw [forall₂_iff_zip] at read ⊢
      refine ⟨read.1, fun inZip => (read.2 inZip).2 ?_⟩
      have inRead := (of_mem_zip inZip).2
      simpa using fun changed => noneChanged (any_eq_true.mpr ⟨_, inRead, changed⟩)
  | routes egressChanged => exact ⟨unchanged.1, fun _ => unchanged.2⟩

theorem Mirrored.interfaces {interfaces : List EgressIf} (mirrored : Mirrored offsetTables st)
    (changes : List.Forall₂ Changes st.interfaces interfaces)
    (same : List.Forall₂ SameRoute st.interfaces interfaces) :
    Mirrored offsetTables { st with interfaces := interfaces } := by
  obtain ⟨costs, ⟨place, egress, isBest, isThere, positive, isRoute⟩, kernel⟩ := mirrored
  obtain ⟨other, otherThere, sameRoute⟩ := forall₂_getElem? same isThere
  refine ⟨?_, ⟨place, other, isBest, otherThere, sameRoute.1 ▸ positive, ?_⟩, kernel⟩
  · exact costsOk_of_changes changes costs
  · rw [sameRoute.bestRoute_eq]
    exact isRoute

theorem Mirrored.recorded {interfaces : List EgressIf} (mirrored : Mirrored offsetTables st)
    (changes : List.Forall₂ Changes st.interfaces interfaces) :
    Recorded offsetTables .runtime { st with interfaces := interfaces } := by
  obtain ⟨_, ⟨place, egress, isBest, isThere, positive, isRoute⟩, kernel⟩ := mirrored
  obtain ⟨active, isDefault, _⟩ := bestRoute_spec offsetTables positive
  refine .inr ⟨rfl, kernel, isRoute ▸ active, isRoute ▸ isDefault, ?_⟩
  intro place' other isBest' otherThere sameUp sameBw
  cases isBest.symm.trans isBest'
  obtain ⟨other', otherThere', changed⟩ := forall₂_getElem? changes isThere
  cases otherThere.symm.trans otherThere'
  rw [(changed.flagged sameUp sameBw).bestRoute_eq]
  exact isRoute

private theorem egressStep_mirrored {event : EgressWorld × EgressEvent}
    (mirrored : Mirrored offsetTables st) (ok : EgressOk cfg st event) :
    ∃ next, egressStep cfg offsetTables st event = some next ∧ Mirrored offsetTables next := by
  obtain ⟨keeps, usable⟩ := ok
  obtain ⟨changes, unreported⟩ := changeInterfaces_spec cfg keeps
  have costs := costsOk_of_changes changes mirrored.costs
  unfold egressStep
  dsimp only
  cases reports : (changeInterfaces cfg event.1 event.2 st.interfaces).2 with
  | none => exact ⟨_, rfl, mirrored.interfaces changes (unreported (by simp [reports]))⟩
  | some egressChanged =>
    refine ⟨_, rfl, ?_⟩
    cases egressChanged with
    | true => exact mirrored_doRoutesMultiGw costs (usable reports) (mirrored.recorded changes)
    | false =>
      simpa [doRoutesMultiGw, ChangePhase.forced] using
        mirrored.interfaces changes (unreported (by simp [reports]))

private theorem costsOk_initEgress
    (interfaces : List (Nat × Int × Bool)) (lines : List EgressLine) :
    ∀ egress ∈ (initEgress cfg interfaces lines).interfaces, CostsOk egress := by
  refine costsOk_of_changes ((forall₂_readEgressFile cfg lines _).imp fun _ _ both => both.1) ?_
  intro egress inList
  obtain ⟨initial, _, rfl⟩ := mem_map.mp inList
  exact costsOk_calculate _ _

/-- The table holds exactly one default route: via the best egress link, if its
interface is up, and a blackhole, if there is no best egress link. -/
structure EgressMirrors (offsetTables : Nat) (isInterfaceUp : Int → Bool) (st : EgressState) :
    Prop where
  link : ∀ place egress, st.bestEgressLink = some place →
    st.interfaces[place]? = some egress →
    isInterfaceUp egress.ifIndex = true →
      ∃ route, (st.kernel.filter fun route =>
          route.rttable = offsetTables ∧ route.dst = some ipv4Slash0Route) =
          [route] ∧
        route.ifIndex = egress.ifIndex ∧
        route.gw = egress.bwCurrent.gateway ∧ route.blackhole = false
  blackhole : st.bestEgressLink = none →
    ∃ route, (st.kernel.filter fun route =>
        route.rttable = offsetTables ∧ route.dst = some ipv4Slash0Route) =
        [route] ∧ route.blackhole = true

private theorem Mirrored.egressMirrors (mirrored : Mirrored offsetTables st)
    (isInterfaceUp : Int → Bool) : EgressMirrors offsetTables isInterfaceUp st := by
  obtain ⟨_, ⟨place, egress, isBest, isThere, positive, isRoute⟩, kernel⟩ := mirrored
  obtain ⟨_, isDefault, index, gateway, blackhole⟩ := bestRoute_spec offsetTables positive
  constructor
  · intro place' egress' isBest' isThere' _
    cases isBest.symm.trans isBest'
    cases isThere.symm.trans isThere'
    refine ⟨_, ?_, index, gateway, blackhole⟩
    rw [kernel, isRoute]
    simp [isDefault.1, isDefault.2.1]
  · intro noBest
    simp [isBest] at noBest

/-- After the call at startup and every event, the table mirrors the best egress
link, if some interface can be used at every egress change that is reported and
no index changes unnoticed. -/
theorem egressRun_mirrors (cfg : GwConfig) (offsetTables : Nat) (world : EgressWorld)
    (interfaces : List (Nat × Int × Bool)) (lines : List EgressLine)
    (usable : Usable world (initEgress cfg interfaces lines).interfaces)
    (events : List (EgressWorld × EgressEvent))
    (meets : RunMeets (egressStep cfg offsetTables) (EgressOk cfg)
      (startEgress cfg offsetTables world interfaces lines) events) :
    ∃ final, runEvents (egressStep cfg offsetTables)
        (startEgress cfg offsetTables world interfaces lines) events = some final ∧
      ∀ isInterfaceUp, EgressMirrors offsetTables isInterfaceUp final := by
  have started : Mirrored offsetTables (startEgress cfg offsetTables world interfaces lines) :=
    mirrored_doRoutesMultiGw (costsOk_initEgress interfaces lines) usable (.inl ⟨rfl, rfl⟩)
  obtain ⟨final, finished, mirrored⟩ := runEvents_exists_of_meets egressStep_mirrored started meets
  exact ⟨final, finished, mirrored.egressMirrors⟩

def classicConfig : GwConfig where
  useNiit := false
  smartGwAllowNat := true
  smartGwThresh := 0
  smartGwUseCount := 2
  smartGwTakedownPercentage := 25
  smartGwStablecount := 1
  smartGwWeightExitlinkUp := 1
  smartGwWeightExitlinkDown := 1
  smartGwWeightEtx := 1
  smartGwDividerEtx := 0
  smartGwPathMaxCostEtxMax := 2560
  hasIpv4Gateway := false
  hasIpv6Gateway := false
  useCount_pos := by decide

def oneInterface (up : Bool) : EgressWorld where
  indexToName := fun ifIndex => if ifIndex = 3 then some 7 else none
  isInterfaceUp := fun ifIndex => up && decide (ifIndex = 3)
  up_pos := by
    intro ifIndex isUp
    simp only [Bool.and_eq_true, decide_eq_true_eq] at isUp
    omega

/-- The interface is up at startup, and its gateway changes later. -/
theorem egressRun_mirrors_gateway : ∃ final, runEvents (egressStep classicConfig 90)
        (startEgress classicConfig 90 (oneInterface true) [(7, 3, true)] [])
        [(oneInterface true,
          .file [⟨7, true, true, 100, 100, 5, none, some ⟨[192, 168, 0, 1], rfl⟩⟩])] = some final ∧
      ∀ isInterfaceUp, EgressMirrors 90 isInterfaceUp final := by
  have usable : ∀ interfaces : List EgressIf,
      (∃ egress, interfaces = [egress] ∧ egress.upCurrent = true ∧
        egress.bwCurrent.costs < int64Max ∧ egress.ifIndex = 3) →
        Usable (oneInterface true) interfaces := by
    rintro _ ⟨egress, rfl, up, finite, index⟩
    refine ⟨⟨egress, by simp, up, finite⟩, ?_⟩
    intro other inList _ _
    rw [mem_singleton.mp inList, index]
    rfl
  refine egressRun_mirrors classicConfig 90 (oneInterface true) [(7, 3, true)] []
      (usable _ ⟨_, rfl, by decide, by decide, by decide⟩) _
      ⟨⟨trivial, fun _ => usable _ ⟨_, rfl, by decide, by decide, by decide⟩⟩, fun _ _ => trivial⟩

/-- At startup no interface is up: there is no best egress link, and the table
is empty. -/
theorem startEgress_no_blackhole :
    (startEgress classicConfig 90 (oneInterface false) [(7, 3, false)] []).bestEgressLink = none ∧
    (startEgress classicConfig 90 (oneInterface false) [(7, 3, false)] []).kernel = [] ∧
    ¬ EgressMirrors 90 (oneInterface false).isInterfaceUp
      (startEgress classicConfig 90 (oneInterface false) [(7, 3, false)] []) := by
  have noBest : (startEgress classicConfig 90 (oneInterface false)
      [(7, 3, false)] []).bestEgressLink = none := by decide
  have empty : (startEgress classicConfig 90 (oneInterface false)
      [(7, 3, false)] []).kernel = [] := by decide
  refine ⟨noBest, empty, ?_⟩
  intro mirrors
  obtain ⟨route, isOnly, _⟩ := mirrors.blackhole noBest
  simp [empty] at isOnly

end Runs

end QosOlsr.Egress
