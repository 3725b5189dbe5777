import QosOlsr.Gateways.Safety

/-!
# Expired gateways

The expiry timer deletes a gateway under the length of its external prefix,
which is always zero.  Over IPv4 that stands for the only flag there is.  Over
IPv6 it stands for none, so that a gateway with a flag set stays, without a
timer that could ever remove it.
-/

namespace QosOlsr.Gateways

open Library

variable {ver : IpVersion}

/-- A gateway cannot be selected and is not the current one, and it has been
removed or is about to be. -/
structure Expired (st : GwState ver) (gw : Ptr) : Prop where
  notCurrent : ∀ family, olsrGetInetGateway st family ≠ some (some gw)
  removed : ∀ entry, st.entries gw = some entry →
    entry.ipv4 = false ∧ entry.ipv6 = false ∧ entry.cleanupTimer = .running

private theorem GwInv.expired_iff {st : GwState ver} (inv : GwInv st) {gw : Ptr} :
    Expired st gw ↔ Retired st gw := by
  constructor
  · intro expired
    refine ⟨?_, expired.removed⟩
    intro refers
    obtain ⟨entry, isEntry⟩ := inv.entry (refers.inTree inv.lists)
    obtain ⟨_, _, running⟩ := expired.removed entry isEntry
    exact inv.unlisted gw entry isEntry (by simp [running]) refers
  · intro retired
    refine ⟨?_, retired.2⟩
    intro family isCur
    cases listed : st.current family with
    | none => simp [olsrGetInetGateway, listed] at isCur
    | some container =>
      apply retired.1
      refine ⟨family, container, inv.current family container listed, ?_⟩
      simpa [olsrGetInetGateway, listed, GwState.gwOf, Option.bind_eq_some_iff] using isCur

private theorem EntryOk.unflags_zero_iff {entry : GatewayEntry ver} (ok : EntryOk entry) :
    Unflags 0 entry ↔ ver = .inet ∨ entry.ipv4 = false ∧ entry.ipv6 = false := by
  cases ver with
  | inet => simp [Unflags, Gateways.clearFlags, forceDeleteGwEntry, ok.onlyIpv4 rfl]
  | inet6 => simp [Unflags, Gateways.clearFlags, forceDeleteGwEntry]

/-- In every state that can be reached, the expiry of a gateway does its work
exactly over IPv4, or if the gateway has no flag set. -/
theorem expire_expired_iff
    (cfg : GwConfig) (events : List (GwWorld ver × GwEvent ver))
    (keeps : RunMeets (gwStep cfg) (fun _ event => KeepsCurrent event.1)
      (initGateways ver cfg) events)
    {reached : GwState ver}
    (isReached : runEvents (gwStep cfg) (initGateways ver cfg) events = some reached)
    {gw : Ptr} {entry : GatewayEntry ver} (isEntry : reached.entries gw = some entry)
    (runs : entry.expireTimer = true) {world : GwWorld ver} (keepsLast : KeepsCurrent world) :
    ∃ after, gwStep cfg reached (world, .expire gw) = some after ∧
      (Expired after gw ↔ ver = .inet ∨ entry.ipv4 = false ∧ entry.ipv6 = false) := by
  obtain ⟨final, finished, inv⟩ := gwRun_inv cfg events keeps
  cases isReached.symm.trans finished
  obtain ⟨after, expires, invAfter, _, retired⟩ :=
    expireGatewayHandler_spec cfg inv keepsLast isEntry
  refine ⟨after, by simp [gwStep, isEntry, runs, expires], ?_⟩
  rw [invAfter.expired_iff, retired, (inv.entryOk gw entry isEntry).unflags_zero_iff]

/-- A gateway over IPv4 expires. -/
theorem expire_expired_ipv4 : ∃ reached after,
      runEvents (gwStep singleConfig) (initGateways .inet singleConfig)
        [(worldOf (some 2000) none true, .update firstGateway ipv4Mask 0 1)] = some reached ∧
      gwStep singleConfig reached (worldOf (some 2000) none true, .expire 0) =
        some after ∧ Expired after 0 := by
  obtain ⟨reached, isReached, entry, isEntry, runs⟩ : ∃ reached,
      runEvents (gwStep singleConfig) (initGateways .inet singleConfig)
        [(worldOf (some 2000) none true, .update firstGateway ipv4Mask 0 1)] = some reached ∧
      ∃ entry, reached.entries 0 = some entry ∧ entry.expireTimer = true := by
    decide +kernel
  have keeps : KeepsCurrent (worldOf (some 2000) none true) := fun _ _ _ _ _ _ _ => rfl
  obtain ⟨after, expires, expired⟩ :=
    expire_expired_iff singleConfig _ (by simp [RunMeets, keeps]) isReached isEntry runs keeps
  exact ⟨reached, after, isReached, expires, expired.mpr (.inl rfl)⟩

/-- The mask of an announcement of an IPv6 gateway for 2000::/3, and what is
around it. -/
def ipv6Gateway : IpAddr .inet6 := ⟨0xfd :: List.replicate 14 0 ++ [1], rfl⟩
def ipv6Mask : IpAddr .inet6 := ⟨[0xe0, 0, 9, 11, 11] ++ List.replicate 11 0, rfl⟩
def ipv6World : GwWorld .inet6 where
  tcCost := fun _ => some 2000
  tcCount := 2
  addTunnel := fun _ _ _ => true

/-- A gateway over IPv6 is selected and expires: it stays the current one, can
be selected, and no timer runs any more. -/
theorem expire_ipv6_stays : ∃ reached after entry,
      runEvents (gwStep singleConfig) (initGateways .inet6 singleConfig)
        [(ipv6World, .update ipv6Gateway ipv6Mask 3 1),
          (ipv6World, .setInet 0 false true)] = some reached ∧
      gwStep singleConfig reached (ipv6World, .expire 0) = some after ∧
      (reached.entries 0).any GatewayEntry.expireTimer = true ∧
      after.entries 0 = some entry ∧ entry.ipv6 = true ∧
      entry.expireTimer = false ∧ entry.cleanupTimer = .unset ∧
      olsrGetInetGateway after .ipv6 = some (some 0) ∧ ¬ Expired after 0 := by
  obtain ⟨reached, isReached, ran, after, isAfter, isCurrent, entry, isEntry, flagged, stopped,
      unscheduled⟩ : ∃ reached,
      runEvents (gwStep singleConfig) (initGateways .inet6 singleConfig)
        [(ipv6World, .update ipv6Gateway ipv6Mask 3 1), (ipv6World, .setInet 0 false true)] =
          some reached ∧ (reached.entries 0).any GatewayEntry.expireTimer = true ∧
      ∃ after, gwStep singleConfig reached (ipv6World, .expire 0) = some after ∧
        olsrGetInetGateway after .ipv6 = some (some 0) ∧
      ∃ entry, after.entries 0 = some entry ∧ entry.ipv6 = true ∧ entry.expireTimer = false ∧
        entry.cleanupTimer = .unset := by
    decide +kernel
  refine ⟨reached, after, entry, isReached, isAfter, ran, isEntry, flagged, stopped,
      unscheduled, isCurrent, ?_⟩
  intro expired
  exact expired.notCurrent .ipv6 isCurrent

end QosOlsr.Gateways
