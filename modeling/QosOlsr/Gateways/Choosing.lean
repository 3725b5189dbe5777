import QosOlsr.Gateways.Lists
import QosOlsr.Library.Choice

/-!
# Choosing a gateway

The handler and `olsr_set_inet_gateway` keep the lists consistent, in any order
of calls, and leave the tree of gateways alone.
-/

namespace QosOlsr.Gateways

open Library List Option

variable {ver : IpVersion} {cfg : GwConfig} {world : GwWorld ver}
  {st : GwState ver} {family : Family}

/-- No tunnel fails for a full list whose last element is the current
gateway. -/
def KeepsCurrent (world : GwWorld ver) : Prop :=
  ∀ (st : GwState ver) (family : Family) (gw worst : Ptr),
    olsrGwListFull (st.lists family) = true →
    olsrGwListGetWorstEntry (st.lists family) = some worst →
    st.current family = some worst → world.addTunnel st family gw = true

def WorksWith (before : GwState ver) (result : Option (GwState ver × Bool)) : Prop :=
  ∃ after flag, result = some (after, flag) ∧ ListsOk after ∧ CurrentOk after ∧ Chooses before after

def SettlesWith (before : GwState ver) (result : Option (GwState ver × Bool)) : Prop :=
  WorksWith before result ∧ ∀ set, result = some set → Ordered before → Ordered set.1

section Setting

theorem ListsOk.olsrGetInetGateway (ok : ListsOk st) (current : CurrentOk st) (family : Family) :
    ∃ gw, olsrGetInetGateway st family = some gw ∧
      (∀ gw', gw = some gw' → gw' ∈ st.gatewayTree) := by
  cases isCur : st.current family with
  | none => exact ⟨none, by simp [Gateways.olsrGetInetGateway, isCur], nofun⟩
  | some container =>
    obtain ⟨gw, _, held, inTree, _⟩ := ok.container (current family container isCur)
    refine ⟨some gw, by
        simp [Gateways.olsrGetInetGateway, isCur, held], ?_⟩
    rintro _ ⟨⟩
    exact inTree

theorem ListsOk.worst (ok : ListsOk st) (full : olsrGwListFull (st.lists family) = true) :
    ∃ worst ∈ (st.lists family).items, olsrGwListGetWorstEntry (st.lists family) = some worst := by
  have positive := (ok.list family).positive
  have counted := (ok.list family).count
  simp only [olsrGwListFull, decide_eq_true_eq] at full
  have nonempty : (st.lists family).items ≠ [] := ne_nil_of_length_pos (by omega)
  refine ⟨(st.lists family).items.getLast nonempty, getLast_mem nonempty, ?_⟩
  rw [olsrGwListGetWorstEntry, if_neg (by omega), getLast?_eq_some_getLast nonempty]

private theorem withoutContainer_not_full (ok : ListsOk st) {worst : Ptr}
    (listed : worst ∈ (st.lists family).items) :
    olsrGwListFull ((withoutContainer st family worst).lists family) = false := by
  have counted := (ok.list family).count
  have bounded := (ok.list family).bounded
  have nonempty := length_pos_of_mem listed
  simp only [olsrGwListFull, withoutContainer, GwState.freeContainer,
    GwState.setList, Function.update_self, decide_eq_false_iff_not]
  omega

/-- There is room in the list after its last element has been removed, if
need be. -/
theorem removeWorst_spec (family : Family) (ok : ListsOk st) :
    ∃ roomy, removeWorst family st = some roomy ∧ ListsOk roomy ∧ Chooses st roomy ∧
      olsrGwListFull (roomy.lists family) = false ∧
      roomy.current = st.current ∧
      (∀ other container, container ∈ (roomy.lists other).items →
        container ∈ (st.lists other).items ∧ roomy.gwOf container = st.gwOf container) ∧
      (∀ other container, container ∈ (st.lists other).items →
        container ∉ (roomy.lists other).items →
          other = family ∧ olsrGwListFull (st.lists family) = true ∧
            olsrGwListGetWorstEntry (st.lists family) = some container) ∧
      (Ordered st → Ordered roomy) := by
  cases full : olsrGwListFull (st.lists family) with
  | false =>
    refine
      ⟨st, by simp [removeWorst, full], ok, .refl st, full, rfl,
        fun _ _ listed => ⟨listed, rfl⟩, ?_, id⟩
    intro other container listed missing
    exact absurd listed missing
  | true =>
    obtain ⟨worst, listed, isWorst⟩ := ok.worst full
    refine ⟨withoutContainer st family worst, by
        simp [removeWorst, full, isWorst, ok.removeGatewayFromList listed],
        ok.withoutContainer listed, chooses_withoutContainer ok listed,
        withoutContainer_not_full ok listed, rfl, ?_, ?_, ordered_withoutContainer ok listed⟩
    · intro other container kept
      obtain ⟨inList, apart⟩ := (mem_withoutContainer_iff ok listed).mp kept
      exact ⟨inList, gwOf_withoutContainer apart⟩
    · intro other container inList missing
      rw [mem_withoutContainer_iff ok listed] at missing
      have same : container = worst := by
        by_contra apart
        exact missing ⟨inList, apart⟩
      subst same
      exact ⟨ok.disjoint _ _ _ inList listed, rfl, isWorst⟩

private theorem settlesWith_addGateway
    (ok : ListsOk st) (current : CurrentOk st) (keeps : KeepsCurrent world) {newGw : Ptr}
    (inTree : newGw ∈ st.gatewayTree) (flagged : Flagged st newGw)
    (unlisted : ∀ container ∈ (st.lists family).items, st.gwOf container ≠ some newGw) :
    SettlesWith st (addGateway world family newGw st) := by
  obtain ⟨roomy, removed, okRoomy, chooses, room, sameCurrent, older, missing, ordered⟩ :=
      removeWorst_spec family ok
  cases made : world.addTunnel st family newGw with
  | false =>
    refine
      ⟨⟨roomy, false, by simp [addGateway, removed, made], okRoomy, ?_, chooses⟩,
        by simpa [addGateway, removed, made] using ordered⟩
    intro other container isCur
    rw [sameCurrent] at isCur
    by_contra unlisted
    obtain ⟨rfl, full, isWorst⟩ := missing other container (current other container isCur) unlisted
    have := keeps st other newGw container full isWorst isCur
    simp [this] at made
  | true =>
    have inRoomy : newGw ∈ roomy.gatewayTree := chooses.tree ▸ inTree
    obtain ⟨items, perm, added, sorted⟩ := okRoomy.addContainer inRoomy room
    have unlistedRoomy : ∀ container ∈ (roomy.lists family).items,
        roomy.gwOf container ≠ some newGw := by
      intro container listed
      obtain ⟨inList, same⟩ := older family container listed
      rw [same]
      exact unlisted container inList
    have flaggedRoomy : Flagged roomy newGw := by
      rw [Flagged, chooses.entries]
      exact flagged
    refine
      ⟨⟨withContainer roomy family newGw items, true, by simp [addGateway, removed, made, added],
        okRoomy.withContainer inRoomy room unlistedRoomy perm, CurrentOk.withContainer ?_ perm,
        chooses.trans (chooses_withContainer okRoomy flaggedRoomy perm)⟩,
        by simpa [addGateway, removed, made, added] using fun isOrdered =>
          ordered_withContainer okRoomy (ordered isOrdered) sorted⟩
    intro other apart container isCur
    rw [sameCurrent] at isCur
    by_contra unlisted
    exact apart (missing other container (current other container isCur) unlisted).1

theorem settlesWith_same (ok : ListsOk st) (current : CurrentOk st) (flag : Bool) :
    SettlesWith st (some (st, flag)) :=
  ⟨⟨st, flag, rfl, ok, current, .refl st⟩, fun _ same => some.inj same ▸ id⟩

private theorem Flagged.of_accepts
    {gw : Ptr} {entry : GatewayEntry ver} (held : st.entries gw = some entry)
    (accepts : acceptsGateway cfg family entry = true) : Flagged st gw := by
  refine ⟨entry, held, ?_⟩
  cases family with
  | ipv4 =>
    simp only [acceptsGateway, Bool.and_eq_true] at accepts
    exact .inl accepts.1
  | ipv6 => exact .inr accepts

theorem settlesWith_setFamilyGateway (cfg : GwConfig) (family : Family) (ok : ListsOk st)
    (current : CurrentOk st) (keeps : KeepsCurrent world) {newGw : Ptr}
    (inTree : newGw ∈ st.gatewayTree) (wanted : Bool) :
    SettlesWith st (setFamilyGateway cfg world family newGw wanted st) := by
  obtain ⟨entry, held⟩ := isSome_iff_exists.mp (ok.present newGw inTree)
  obtain ⟨curGw, isCur, _⟩ := ok.olsrGetInetGateway current family
  obtain ⟨found, searched, isFound, isMissing⟩ := ok.find family newGw
  have unchanged : ∀ flag, SettlesWith st (some (st, flag)) := fun flag =>
    settlesWith_same ok current flag
  cases wanted with
  | false => exact unchanged false
  | true =>
    cases accepts : acceptsGateway cfg family entry with
    | false => simpa [setFamilyGateway, held, accepts] using unchanged true
    | true =>
      by_cases same : curGw = some newGw
      · simpa [setFamilyGateway, held, accepts, isCur, same] using unchanged true
      · cases found with
        | none =>
          have worked := settlesWith_addGateway ok current keeps inTree
              (.of_accepts held accepts) (isMissing rfl)
          simpa [setFamilyGateway, held, accepts, isCur, same, searched] using worked
        | some container =>
          have set : setFamilyGateway cfg world family newGw true st =
              some (st.setCurrent family (some container), true) := by
            simp [setFamilyGateway, held, accepts, isCur, same, searched]
          rw [set]
          refine ⟨⟨_, _, rfl, ⟨ok.list, ok.live, ok.distinct, ok.disjoint, ok.fresh, ok.present⟩,
              ?_, rfl, rfl, fun _ => Or.inl, le_rfl⟩, fun _ same => some.inj same ▸ id⟩
          intro other listed isListed
          by_cases own : other = family
          · subst own
            simp [GwState.setCurrent] at isListed
            exact isListed ▸ (isFound container rfl).1
          · simp [GwState.setCurrent, own] at isListed
            exact current other listed isListed

theorem settlesWith_olsrSetInetGateway (cfg : GwConfig) (ok : ListsOk st) (current : CurrentOk st)
    (keeps : KeepsCurrent world) {chosenGw : Ptr} (inTree : chosenGw ∈ st.gatewayTree)
    (ipv4 ipv6 : Bool) : SettlesWith st (olsrSetInetGateway cfg world chosenGw ipv4 ipv6 st) := by
  obtain ⟨chosen, held⟩ := isSome_iff_exists.mp (ok.present chosenGw inTree)
  unfold olsrSetInetGateway
  simp only [held, bind_eq_bind, bind_some]
  split
  · exact settlesWith_same ok current true
  · split
    · exact settlesWith_same ok current true
    next newGw found =>
      have newInTree : newGw ∈ st.gatewayTree := mem_of_find?_eq_some found
      obtain ⟨⟨first, flag4, set4, ok4, current4, chooses4⟩, ordered4⟩ :=
        settlesWith_setFamilyGateway cfg .ipv4 ok current keeps newInTree
          (ipv4 && usesFamily cfg ver .ipv4)
      obtain ⟨⟨second, flag6, set6, ok6, current6, chooses6⟩, ordered6⟩ :=
        settlesWith_setFamilyGateway cfg .ipv6 ok4 current4 keeps
          (chooses4.tree ▸ newInTree) (ipv6 && usesFamily cfg ver .ipv6)
      have ordered : Ordered st → Ordered second := fun isOrdered =>
        ordered6 _ set6 (ordered4 _ set4 isOrdered)
      rw [set4]
      simp only [bind_some]
      rw [set6]
      exact ⟨⟨second, _, rfl, ok6, current6, chooses4.trans chooses6⟩,
          fun _ same => some.inj same ▸ ordered⟩

end Setting

section Handler

theorem ListsOk.treeEntries
    (ok : ListsOk st) : ∃ gws, treeEntries st = some gws ∧ gws.map Prod.fst = st.gatewayTree ∧
      ∀ gw entry, (gw, entry) ∈ gws ↔ gw ∈ st.gatewayTree ∧ st.entries gw = some entry := by
  have held : ∀ {tree : List Ptr}, (∀ gw ∈ tree, (st.entries gw).isSome) → ∃ gws,
        (tree.mapM fun gw => (st.entries gw).bind fun entry => some (gw, entry)) = some gws ∧
        gws.map Prod.fst = tree ∧
        ∀ gw entry, (gw, entry) ∈ gws ↔ gw ∈ tree ∧ st.entries gw = some entry := by
    intro tree present
    induction tree with
    | nil => exact ⟨[], rfl, rfl, by simp⟩
    | cons first rest ih =>
      obtain ⟨entry, isEntry⟩ := isSome_iff_exists.mp (present first (by simp))
      obtain ⟨gws, mapped, firsts, members⟩ := ih fun gw inRest => present gw (by simp [inRest])
      refine ⟨(first, entry) :: gws, by simp [isEntry, mapped], by simp [firsts], ?_⟩
      intro gw other
      simp only [mem_cons, Prod.mk.injEq, members]
      constructor
      · rintro (⟨rfl, rfl⟩ | ⟨inRest, isOther⟩)
        · exact ⟨.inl rfl, isEntry⟩
        · exact ⟨.inr inRest, isOther⟩
      · rintro ⟨rfl | inRest, isOther⟩
        · exact .inl ⟨rfl, some.inj (isOther.symm.trans isEntry)⟩
        · exact .inr ⟨inRest, isOther⟩
  exact held ok.present

section

variable (cfg : GwConfig)

theorem ListsOk.costThreshold (ok : ListsOk st) (current : CurrentOk st) (family : Family) :
    ∃ threshold, costThreshold cfg family st = some threshold := by
  obtain ⟨curGw, isCur, inTree⟩ := ok.olsrGetInetGateway current family
  by_cases unset : cfg.smartGwThresh = 0
  · exact ⟨none, by simp [Gateways.costThreshold, unset]⟩
  · cases curGw with
    | none => exact ⟨none, by simp [Gateways.costThreshold, unset, isCur]⟩
    | some gw =>
      obtain ⟨entry, held⟩ := isSome_iff_exists.mp (ok.present gw (inTree gw rfl))
      exact ⟨some (gwDefaultCalcThreshold cfg entry.pathCost), by
          simp [Gateways.costThreshold, unset, isCur, held]⟩

/-- The loop over the gateways finds the first of the cheapest that may be
chosen, or nothing without any. -/
theorem foldl_betterGateway_spec (family : Family) (threshold : Option Int)
    (gws : List (Ptr × GatewayEntry ver)) :
    (gws.foldl (betterGateway cfg family threshold) none = none ∧
      ∀ gw ∈ gws, eligible cfg family threshold gw.2 ≠ true) ∨
    ∃ best, gws.foldl (betterGateway cfg family threshold) none = some best ∧
      FirstLeast (fun gw => eligible cfg family threshold gw.2 = true)
        (fun gw => (gw.2.pathCost : WithTop Int)) gws best := by
  let costOf : Option (Ptr × GatewayEntry ver) → WithTop Int :=
    fun kept => kept.elim ⊤ fun gw => gw.2.pathCost
  have steps : ∀ kept gw, betterGateway cfg family threshold kept gw =
      if eligible cfg family threshold gw.2 = true ∧ (gw.2.pathCost : WithTop Int) < costOf kept
      then some gw else kept := by
    intro kept gw
    cases kept <;> simp [betterGateway, costOf]
  rcases foldl_firstLeast steps (fun _ => rfl) gws none with
    ⟨stays, above⟩ | ⟨best, isBest, first, -⟩
  · exact .inl ⟨stays, fun gw mem ok => by simpa [costOf] using above gw mem ok⟩
  · exact .inr ⟨best, isBest, first⟩

theorem ListsOk.chosenGateway (ok : ListsOk st) (current : CurrentOk st) (family : Family) :
    ∃ chosen, chosenGateway cfg family st = some chosen ∧
      ∀ gw, chosen = some gw → gw ∈ st.gatewayTree := by
  obtain ⟨threshold, isThreshold⟩ := ok.costThreshold cfg current family
  obtain ⟨gws, isGws, _, members⟩ := ok.treeEntries
  cases looking : st.chooseNew family with
  | false =>
    exact ⟨none, by
        simp [Gateways.chosenGateway, isThreshold, isGws, looking],
        nofun⟩
  | true =>
    refine ⟨(gws.foldl (betterGateway cfg family threshold) none).map Prod.fst,
        by simp [Gateways.chosenGateway, isThreshold, isGws, looking],
        ?_⟩
    intro gw isChosen
    obtain ⟨best, isBest, rfl⟩ := map_eq_some_iff.mp isChosen
    rcases foldl_betterGateway_spec cfg family threshold gws with
      ⟨noBest, -⟩ | ⟨other, isOther, first⟩
    · cases noBest.symm.trans isBest
    · cases isOther.symm.trans isBest
      exact ((members best.1 best.2).mp first.mem).1

theorem settles_setChosen (ok : ListsOk st) (current : CurrentOk st) (keeps : KeepsCurrent world)
    {chosen : Option Ptr} (inTree : ∀ gw, chosen = some gw → gw ∈ st.gatewayTree)
    (ipv4 ipv6 : Bool) : Settles st (setChosen cfg world chosen ipv4 ipv6 st) := by
  cases chosen with
  | none => exact settles_some ok current
  | some gw =>
    obtain ⟨⟨after, flag, set, okAfter, currentAfter, chooses⟩, ordered⟩ :=
      settlesWith_olsrSetInetGateway cfg ok current keeps (inTree gw rfl) ipv4 ipv6
    exact
      ⟨⟨after, by simp [setChosen, set], okAfter, currentAfter, chooses⟩,
        by simpa [setChosen, set] using ordered (after, flag) set⟩

end

/-- The flags and counters of the handler do not matter to the lists. -/
structure SameLists (before after : GwState ver) : Prop where
  entries : after.entries = before.entries
  tree : after.gatewayTree = before.gatewayTree
  containers : after.containers = before.containers
  lists : after.lists = before.lists
  current : after.current = before.current
  nextPtr : after.nextPtr = before.nextPtr

variable {before after : GwState ver}

theorem SameLists.works (same : SameLists before after)
    (ok : ListsOk before) (current : CurrentOk before) : Works before (some after) := by
  have sameGw : after.gwOf = before.gwOf := by
    funext container
    simp only [GwState.gwOf, same.containers]
  refine ⟨after, rfl, ?_, ?_, same.entries, same.tree, ?_, same.nextPtr.ge⟩
  · constructor
    all_goals simp only [same.entries, same.tree, same.containers, same.lists, same.nextPtr, sameGw]
    · exact ok.list
    · exact ok.live
    · exact ok.distinct
    · exact ok.disjoint
    · exact ok.fresh
    · exact ok.present
  · simpa only [CurrentOk, same.current, same.lists] using current
  · intro gw refers
    exact .inl (by simpa only [Refers, same.lists, sameGw] using refers)

theorem SameLists.settles (same : SameLists before after)
    (ok : ListsOk before) (current : CurrentOk before) : Settles before (some after) := by
  refine ⟨same.works ok current, ?_⟩
  rintro _ ⟨⟩ ordered family
  have sameCost : after.costOf = before.costOf := by
    funext container
    simp only [GwState.costOf, GwState.gwOf, same.containers, same.entries]
  simpa only [SortedItems, sameCost, same.lists] using ordered family

theorem SameLists.start (same : SameLists before after)
    (ok : ListsOk before) (current : CurrentOk before) {result : Option (GwState ver)}
    (settles : ListsOk after → CurrentOk after → Settles after result) : Settles before result := by
  obtain ⟨⟨_, ⟨⟩, okAfter, currentAfter, chooses⟩, ordered⟩ := same.settles ok current
  exact (settles okAfter currentAfter).of_chooses chooses (ordered _ rfl)

section

variable (cfg) (ok : ListsOk st) (current : CurrentOk st)
include ok current

private theorem settles_setBoth (keeps : KeepsCurrent world) {chosen4 chosen6 : Option Ptr}
    (inTree4 : ∀ gw, chosen4 = some gw → gw ∈ st.gatewayTree)
    (inTree6 : ∀ gw, chosen6 = some gw → gw ∈ st.gatewayTree) :
    Settles st (setBoth cfg world chosen4 chosen6 st) := by
  refine (settles_setChosen cfg ok current keeps inTree4 _ _).bind ?_
  intro set4 ok4 current4 chooses4
  have left : ∀ gw,
      (if (chosen4.isSome && decide (chosen4 = chosen6)) = true then none
        else chosen6) = some gw → gw ∈ set4.gatewayTree := by
    intro gw isChosen
    split at isChosen
    · cases isChosen
    · exact chooses4.tree ▸ inTree6 gw isChosen
  refine (settles_setChosen cfg ok4 current4 keeps left _ _).bind fun set6 ok6 current6 _ => ?_
  split
  · exact SameLists.settles ⟨rfl, rfl, rfl, rfl, rfl, rfl⟩ ok6 current6
  · exact settles_some ok6 current6

theorem settles_gwDefaultChooseGateway (keeps : KeepsCurrent world) :
    Settles st (gwDefaultChooseGateway cfg world st) := by
  obtain ⟨chosen4, isChosen4, inTree4⟩ := ok.chosenGateway cfg current .ipv4
  obtain ⟨chosen6, isChosen6, inTree6⟩ := ok.chosenGateway cfg current .ipv6
  have same : SameLists st (keepLooking chosen4 chosen6 st) := ⟨rfl, rfl, rfl, rfl, rfl, rfl⟩
  unfold gwDefaultChooseGateway
  rw [isChosen4, isChosen6]
  exact same.start ok current fun okLooking currentLooking =>
      settles_setBoth cfg okLooking currentLooking keeps inTree4 inTree6

theorem settles_gwDefaultLookupGateway (keeps : KeepsCurrent world) (ipv4 ipv6 : Bool) :
    Settles st (gwDefaultLookupGateway cfg world ipv4 ipv6 st) := by
  have same : SameLists st (lookFor cfg ipv4 ipv6 st) := ⟨rfl, rfl, rfl, rfl, rfl, rfl⟩
  refine same.start ok current fun okLooking currentLooking => ?_
  unfold gwDefaultLookupGateway chooseIfLooking
  split
  · exact settles_gwDefaultChooseGateway cfg okLooking currentLooking keeps
  · exact settles_some okLooking currentLooking

theorem settles_gwDefaultStartupHandler :
    Settles st (some (gwDefaultStartupHandler cfg world st)) :=
  SameLists.settles ⟨rfl, rfl, rfl, rfl, rfl, rfl⟩ ok current

section

variable (keeps : KeepsCurrent world)
include keeps

theorem settles_gwDefaultChoosegwHandler (ipv4 ipv6 : Bool) :
    Settles st (gwDefaultChoosegwHandler cfg world ipv4 ipv6 st) := by
  refine (settles_gwDefaultLookupGateway cfg ok current keeps ipv4 ipv6).bind
      fun looked okLooked currentLooked _ => ?_
  split
  · exact settles_gwDefaultStartupHandler cfg okLooked currentLooked
  · exact settles_some okLooked currentLooked

theorem settles_gwDefaultUpdateHandler {gw : Ptr} (inTree : gw ∈ st.gatewayTree) :
    Settles st (gwDefaultUpdateHandler cfg world gw st) := by
  obtain ⟨entry, held⟩ := isSome_iff_exists.mp (ok.present gw inTree)
  obtain ⟨current4, isCurrent4, _⟩ := ok.olsrGetInetGateway current .ipv4
  obtain ⟨current6, isCurrent6, _⟩ := ok.olsrGetInetGateway current .ipv6
  unfold gwDefaultUpdateHandler
  split
  · rw [held, isCurrent4, isCurrent6]
    simp only [bind_eq_bind, bind_some]
    split
    · exact settles_gwDefaultLookupGateway cfg ok current keeps _ _
    · exact settles_some ok current
  · exact settles_gwDefaultLookupGateway cfg ok current keeps _ _

theorem settles_gwDefaultDeleteHandler (gw : Ptr) :
    Settles st (gwDefaultDeleteHandler cfg world gw st) := by
  obtain ⟨current4, isCurrent4, _⟩ := ok.olsrGetInetGateway current .ipv4
  obtain ⟨current6, isCurrent6, _⟩ := ok.olsrGetInetGateway current .ipv6
  unfold gwDefaultDeleteHandler
  rw [isCurrent4, isCurrent6]
  simp only [bind_eq_bind, bind_some]
  split
  · exact settles_gwDefaultLookupGateway cfg ok current keeps _ _
  · exact settles_some ok current

theorem settles_gwDefaultTimer : Settles st (gwDefaultTimer cfg world st) := by
  have same : SameLists st (countStable world st) := by
    unfold countStable
    dsimp only
    split <;> exact ⟨rfl, rfl, rfl, rfl, rfl, rfl⟩
  refine same.start ok current fun okCounted currentCounted => ?_
  unfold gwDefaultTimer
  dsimp only
  split
  · exact settles_gwDefaultChooseGateway cfg okCounted currentCounted keeps
  · exact settles_some okCounted currentCounted

end

end

theorem ListsOk.gatewayLost (world : GwWorld ver) (ok : ListsOk st) (current : CurrentOk st)
    (family : Family) : ∃ lost, gatewayLost world family st = some lost := by
  obtain ⟨curGw, isCur, inTree⟩ := ok.olsrGetInetGateway current family
  cases curGw with
  | none => exact ⟨false, by simp [Gateways.gatewayLost, isCur]⟩
  | some gw =>
    obtain ⟨entry, held⟩ := isSome_iff_exists.mp (ok.present gw (inTree gw rfl))
    exact ⟨!reachable world entry.originator, by
        simp [Gateways.gatewayLost, isCur, held]⟩

theorem settles_olsrTriggerGatewaylossCheck (cfg : GwConfig) (ok : ListsOk st)
    (current : CurrentOk st) (keeps : KeepsCurrent world) :
    Settles st (olsrTriggerGatewaylossCheck cfg world st) := by
  obtain ⟨lost4, isLost4⟩ := ok.gatewayLost world current .ipv4
  obtain ⟨lost6, isLost6⟩ := ok.gatewayLost world current .ipv6
  unfold olsrTriggerGatewaylossCheck
  rw [isLost4, isLost6]
  simp only [bind_eq_bind, bind_some]
  split
  · exact settles_gwDefaultChoosegwHandler cfg ok current keeps _ _
  · exact settles_some ok current

end Handler

section TakeDown

/-- A round stops, or removes the last container, which is not the current one
and not below the boundary. -/
theorem ListsOk.takeDown_succ (ok : ListsOk st) (boundary : Int)
    (curGw : Ptr) (fuel : Nat) : takeDown family boundary curGw (fuel + 1) st = some st ∨
      ∃ front worst, (st.lists family).items = front ++ [worst] ∧
      worst ≠ curGw ∧ boundary ≤ st.costOf worst ∧ takeDown family boundary curGw (fuel + 1) st =
      takeDown family boundary curGw fuel (Gateways.withoutContainer st family worst) := by
  have counted := (ok.list family).count
  rw [takeDown]
  by_cases single : (st.lists family).count ≤ 1
  · exact .inl (if_pos single)
  · rw [if_neg single]
    obtain ⟨front, worst, split⟩ := eq_nil_or_concat (st.lists family).items |>.resolve_left
      (ne_nil_of_length_pos (by omega))
    rw [concat_eq_append] at split
    have listed : worst ∈ (st.lists family).items := by simp [split]
    have isWorst : olsrGwListGetWorstEntry (st.lists family) = some worst := by
      rw [olsrGwListGetWorstEntry, if_neg (by omega), split, getLast?_concat]
    obtain ⟨gw, entry, held, _, isEntry⟩ := ok.container listed
    have cost := costOf_eq held isEntry
    simp only [isWorst, held, isEntry, ok.removeGatewayFromList listed, bind_eq_bind, bind_some]
    by_cases same : worst = curGw
    · exact .inl (if_pos same)
    · rw [if_neg same]
      by_cases cheap : entry.pathCost < boundary
      · exact .inl (if_pos cheap)
      · rw [if_neg cheap]
        exact .inr ⟨front, worst, split, same, cost ▸ not_lt.mp cheap, rfl⟩

/-- The loop stops at the current gateway, and never removes it. -/
theorem settles_takeDown {boundary : Int} {curGw : Ptr} (fuel : Nat) (ok : ListsOk st)
    (current : CurrentOk st) (isCur : st.current family = some curGw) :
    Settles st (takeDown family boundary curGw fuel st) := by
  induction fuel generalizing st with
  | zero => exact settles_some ok current
  | succ fuel ih =>
    rcases ok.takeDown_succ boundary curGw fuel with
      stops | ⟨front, worst, split, apart, _, goesOn⟩
    · rw [stops]
      exact settles_some ok current
    · have listed : worst ∈ (st.lists family).items := by simp [split]
      rw [goesOn]
      refine (ih (ok.withoutContainer listed) (current.withoutContainer ok listed ?_)
          isCur).of_chooses (chooses_withoutContainer ok listed)
            (ordered_withoutContainer ok listed)
      rw [isCur]
      simpa using Ne.symm apart

theorem settles_gwTakedownTimerCallback (cfg : GwConfig)
    (ok : ListsOk st) (current : CurrentOk st) : Settles st (gwTakedownTimerCallback cfg st) := by
  have takes : ∀ family {before : GwState ver}, ListsOk before →
      CurrentOk before → Settles before (takeDownExpensiveGateways cfg family before) := by
    intro family before ok current
    unfold takeDownExpensiveGateways
    split
    · exact settles_some ok current
    next curGw isCur =>
      split
      · exact settles_some ok current
      · obtain ⟨gw, entry, held, _, isEntry⟩ := ok.container (current family curGw isCur)
        rw [held]
        simp only [bind_eq_bind, bind_some]
        rw [isEntry]
        exact settles_takeDown _ ok current isCur
  exact (takes .ipv4 ok current).bind fun taken okTaken currentTaken _ =>
      takes .ipv6 okTaken currentTaken

end TakeDown

end QosOlsr.Gateways
