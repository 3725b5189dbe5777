import QosOlsr.Gateways.Announcement
import QosOlsr.Routes.HostPrefixes

/-!
# Masks of announced networks

`olsr_input_hna` decodes the mask of a network to a prefix length, a bogus mask
to 255.  The HNA set takes that like any other length; only the routing table
refuses it.
-/

namespace QosOlsr.Routes

open Library Lsdb List Option

variable {ver : IpVersion}

def olsrNetmaskToPrefix (mask : IpAddr ver) : Nat := Gateways.netmaskToPrefix 0 mask.bytes

def Decodes (mask : IpAddr ver) : Prop := olsrNetmaskToPrefix mask ≠ 255

/-- One round of the loop of `olsr_input_hna`, for an address and its mask. -/
def inputHnaPair (smartGwActive : Bool) (ctx : HnaContext ver) (originator : IpAddr ver)
    (st : RouteState ver) (pair : IpAddr ver × IpAddr ver) : Option (RouteState ver) :=
  inputHnaNetwork (8 * ver.ipsize)
    { ctx with
      isSmartGateway := fun net =>
        smartGwActive && Gateways.olsrIsSmartGateway net pair.2 }
    originator st ⟨pair.1, olsrNetmaskToPrefix pair.2⟩

def inputHnaPairs (smartGwActive : Bool) (ctx : HnaContext ver) (originator : IpAddr ver)
    (pairs : List (IpAddr ver × IpAddr ver)) (st : RouteState ver) : Option (RouteState ver) :=
  if ¬ ctx.symmetric then
    some st
  else
    pairs.foldlM (inputHnaPair smartGwActive ctx originator) st

abbrev GatewayNet (ver : IpVersion) := IpAddr ver × IpNetwork ver

/-- The steps of a run, with the prefixes that other modules have deleted.
`Accepts` is what is assumed of the masks of a message. -/
inductive HnaStep (Accepts : IpAddr ver → Prop) :
    RouteState ver × Set (GatewayNet ver) → RouteState ver × Set (GatewayNet ver) → Prop where
  | input {st next : RouteState ver} {gone : Set (GatewayNet ver)}
      {smartGwActive : Bool} {ctx : HnaContext ver} {originator : IpAddr ver}
      {pairs : List (IpAddr ver × IpAddr ver)}
      (accepted : ∀ pair ∈ pairs, Accepts pair.2)
      (done : inputHnaPairs smartGwActive ctx originator pairs st = some next) :
      HnaStep Accepts (st, gone) (next, gone)
  | expire {st next : RouteState ver} {gone : Set (GatewayNet ver)}
      {gw : IpAddr ver} {net : IpNetwork ver}
      (done : olsrDeleteHnaNetEntry (8 * ver.ipsize) gw st net = some next) :
      HnaStep Accepts (st, gone) (next, gone)
  | other {st : RouteState ver} {gone : Set (GatewayNet ver)}
      {db : Database ver} {limit : Ptr} (good : Good db limit)
      (mainAddr : db.mainAddr = st.db.mainAddr) :
      HnaStep Accepts (st, gone)
        ({ st with db := db, limit := limit },
          gone ∪ {announced | Announces st.db announced.1 announced.2 ∧
            ¬ Announces db announced.1 announced.2})

/-- No entry of the HNA set has a bogus length, and the prefix of every entry is
in the prefix tree of its gateway's vertex unless another module deleted it. -/
def MasksLeaveNoTrace (st : RouteState ver) (gone : Set (GatewayNet ver)) : Prop :=
  ∀ entry ∈ st.hnaSet, ∀ net ∈ entry.networks, net.prefixLen ≤ 8 * ver.ipsize ∧
      ((entry.gatewayAddr, net) ∈ gone ∨
        ∃ tc, olsrLookupTcEntry st.db entry.gatewayAddr = some tc ∧
          (findPath st.db tc net).isSome)

private theorem netmaskToPrefix_le_or_eq (bytes : List UInt8) (counted : Nat) :
    Gateways.netmaskToPrefix counted bytes ≤ counted + 8 * bytes.length ∨
      Gateways.netmaskToPrefix counted bytes = 255 := by
  induction bytes generalizing counted with
  | nil => exact .inl le_rfl
  | cons byte rest ih =>
    rw [Gateways.netmaskToPrefix, length_cons]
    split
    · rcases ih (counted + 8) with small | error
      · exact .inl (by omega)
      · exact .inr error
    · split
      next bits found =>
        have few : bits ≤ 7 := by
          unfold Gateways.lastMaskBits at found
          grind
        exact .inl (by omega)
      · exact .inr rfl

private theorem Decodes.prefix_le {mask : IpAddr ver} (decodes : Decodes mask) :
    olsrNetmaskToPrefix mask ≤ 8 * ver.ipsize := by
  rcases netmaskToPrefix_le_or_eq mask.bytes 0 with small | error
  · rw [mask.length_eq, Nat.zero_add] at small
    exact small
  · exact absurd error decodes

def Lists (hnaSet : List (HnaEntry ver)) (gw : IpAddr ver) (net : IpNetwork ver) : Prop :=
  ∃ entry ∈ hnaSet, entry.gatewayAddr = gw ∧ net ∈ entry.networks

structure Traced (gone : Set (GatewayNet ver)) (st : RouteState ver) : Prop where
  good : Good st.db st.limit
  own : st.db.mainAddr ≠ zeroAddr ver
  gateways : (st.hnaSet.map HnaEntry.gatewayAddr).Nodup
  networks : ∀ entry ∈ st.hnaSet, entry.networks.Nodup
  listed : ∀ {gw net}, Lists st.hnaSet gw net →
      net.prefixLen ≤ 8 * ver.ipsize ∧ ((gw, net) ∈ gone ∨ Announces st.db gw net)

variable {gone : Set (GatewayNet ver)} {st next : RouteState ver}
  {gw : IpAddr ver} {net : IpNetwork ver} {entry : HnaEntry ver}

private theorem mem_addHnaNet_iff {other : IpNetwork ver} :
    other ∈ (addHnaNet net entry).networks ↔ other = net ∨ other ∈ entry.networks := by
  unfold addHnaNet
  split
  next listed =>
    refine ⟨.inr, ?_⟩
    rintro (rfl | mem)
    · exact listed
    · exact mem
  · exact mem_cons

theorem nodup_addHnaNet (nodup : entry.networks.Nodup) : (addHnaNet net entry).networks.Nodup := by
  unfold addHnaNet
  split
  · exact nodup
  next unlisted => exact nodup_cons.mpr ⟨unlisted, nodup⟩

@[simp]
theorem gatewayAddr_addHnaNet (entry : HnaEntry ver) :
    (addHnaNet net entry).gatewayAddr = entry.gatewayAddr := by
  unfold addHnaNet
  split <;> rfl

/-- The HNA set when `olsr_update_hna_entry` has its gateway. -/
def withGateway (gw : IpAddr ver) (hnaSet : List (HnaEntry ver)) : List (HnaEntry ver) :=
  match olsrLookupHnaGw hnaSet gw with
  | some _ => hnaSet
  | none => ⟨gw, []⟩ :: hnaSet

variable {hnaSet : List (HnaEntry ver)}

theorem mem_withGateway
    (mem : entry ∈ withGateway gw hnaSet) : entry ∈ hnaSet ∨ entry = ⟨gw, []⟩ := by
  unfold withGateway at mem
  split at mem
  · exact .inl mem
  · exact (mem_cons.mp mem).symm

private theorem nodup_withGateway (nodup : (hnaSet.map HnaEntry.gatewayAddr).Nodup) :
    ((withGateway gw hnaSet).map HnaEntry.gatewayAddr).Nodup := by
  unfold withGateway
  split
  · exact nodup
  next missing => exact nodup_cons.mpr ⟨find?_key_eq_none_iff.mp missing, nodup⟩

theorem Traced.update (traced : Traced gone st) (valid : net.prefixLen ≤ 8 * ver.ipsize)
    (done : olsrUpdateHnaEntry (8 * ver.ipsize) gw net st = some next) : Traced gone next := by
  obtain ⟨good, -, effect⟩ := insertRoute_spec done traced.good
  have hnaSet : next.hnaSet =
        modifyKey HnaEntry.gatewayAddr gw (addHnaNet net) (withGateway gw st.hnaSet) := by
    obtain ⟨db, -, same⟩ := bind_eq_some_iff.mp done
    cases same
    rfl
  have nodup : ((withGateway gw st.hnaSet).map HnaEntry.gatewayAddr).Nodup :=
    nodup_withGateway traced.gateways
  have announced : Announces next.db gw net :=
    effect.inserted valid (effect.created valid traced.own)
  constructor
  case good => exact good
  case own =>
    rw [effect.mainAddr]
    exact traced.own
  case gateways =>
    rw [hnaSet, map_modifyKey gatewayAddr_addHnaNet]
    exact nodup
  case networks =>
    intro entry mem
    rw [hnaSet, mem_modifyKey_iff nodup] at mem
    have old : ∀ entry ∈ withGateway gw st.hnaSet, entry.networks.Nodup := by
      intro entry mem
      rcases mem_withGateway mem with old | rfl
      · exact traced.networks entry old
      · exact nodup_nil
    rcases mem with ⟨mem, -⟩ | ⟨written, mem, -, rfl⟩
    · exact old entry mem
    · exact nodup_addHnaNet (old written mem)
  case listed =>
    rintro adr other ⟨entry, mem, isGateway, isListed⟩
    rw [hnaSet, mem_modifyKey_iff nodup] at mem
    have old : ∀ entry ∈ withGateway gw st.hnaSet, entry.gatewayAddr = adr →
        other ∈ entry.networks → other.prefixLen ≤ 8 * ver.ipsize ∧
            ((adr, other) ∈ gone ∨ Announces next.db adr other) := by
      intro entry mem isGateway isListed
      rcases mem_withGateway mem with old | rfl
      · have known := traced.listed ⟨entry, old, isGateway, isListed⟩
        exact ⟨known.1, known.2.imp_right effect.announces⟩
      · cases isListed
    rcases mem with ⟨mem, -⟩ | ⟨written, mem, isKey, rfl⟩
    · exact old entry mem isGateway isListed
    · rw [gatewayAddr_addHnaNet] at isGateway
      rcases mem_addHnaNet_iff.mp isListed with rfl | isListed
      · rw [← isGateway, isKey]
        exact ⟨valid, .inr announced⟩
      · exact old written mem isGateway isListed

private theorem Traced.inputPair {smartGwActive : Bool} {ctx : HnaContext ver}
    {pair : IpAddr ver × IpAddr ver} (traced : Traced gone st) (decodes : Decodes pair.2)
    (done : inputHnaPair smartGwActive ctx gw st pair = some next) : Traced gone next := by
  unfold inputHnaPair inputHnaNetwork at done
  split at done
  · cases done
    exact traced
  · split at done
    · cases done
      exact traced
    · split at done
      · cases done
        exact traced
      · exact traced.update decodes.prefix_le done

theorem Traced.expire (traced : Traced gone st)
    (done : olsrDeleteHnaNetEntry (8 * ver.ipsize) gw st net = some next) : Traced gone next := by
  obtain ⟨middle, deleted, same⟩ := bind_eq_some_iff.mp done
  cases same
  obtain ⟨good, -, effect⟩ := deleteRoute_spec traced.good deleted
  have hnaSet : middle.hnaSet = st.hnaSet := by
    obtain ⟨db, -, same⟩ := bind_eq_some_iff.mp deleted
    cases same
    rfl
  constructor
  case good => exact good
  case own =>
    change middle.db.mainAddr ≠ _
    rw [effect.mainAddr]
    exact traced.own
  case gateways =>
    have keys :
        (modifyKey HnaEntry.gatewayAddr gw
          (fun entry => { entry with networks := entry.networks.erase net })
          middle.hnaSet).map HnaEntry.gatewayAddr =
        st.hnaSet.map HnaEntry.gatewayAddr := by
      rw [← hnaSet]
      exact map_modifyKey fun _ => rfl
    refine List.Nodup.sublist (filter_sublist.map _) ?_
    rw [keys]
    exact traced.gateways
  case networks =>
    intro entry mem
    rw [hnaSet] at mem
    have left := (mem_filter.mp mem).1
    rw [mem_modifyKey_iff traced.gateways] at left
    rcases left with ⟨old, -⟩ | ⟨written, old, -, rfl⟩
    · exact traced.networks entry old
    · exact (traced.networks written old).erase net
  case listed =>
    rintro adr other ⟨entry, mem, rfl, isListed⟩
    rw [hnaSet] at mem
    have left := (mem_filter.mp mem).1
    rw [mem_modifyKey_iff traced.gateways] at left
    -- what is still listed is not what the routing table has lost
    have old : Lists st.hnaSet entry.gatewayAddr other ∧
        ¬ (entry.gatewayAddr = gw ∧ other = net) := by
      rcases left with ⟨old, ne⟩ | ⟨written, old, isKey, rfl⟩
      · exact ⟨⟨entry, old, rfl, isListed⟩, fun both => ne both.1⟩
      · have kept := (traced.networks written old).mem_erase_iff.mp isListed
        exact ⟨⟨written, old, rfl, kept.2⟩, fun both => kept.1 both.2⟩
    obtain ⟨valid, known⟩ := traced.listed old.1
    exact ⟨valid, known.imp_right fun announced => effect.announces announced old.2⟩

theorem Traced.step {before after : RouteState ver × Set (GatewayNet ver)}
    (traced : Traced before.2 before.1) (taken : HnaStep Decodes before after) :
    Traced after.2 after.1 := by
  cases taken with
  | input accepted done =>
    unfold inputHnaPairs at done
    split at done
    · cases done
      exact traced
    · refine foldlM_preserves (fun _ reached => Traced _ reached) ?_ traced done
      intro _ pair reached after mem reachedTraced taken
      exact reachedTraced.inputPair (accepted pair mem) taken
  | expire done => exact traced.expire done
  | @other st gone db limit good mainAddr =>
    refine ⟨good, ?_, traced.gateways, traced.networks, ?_⟩
    · rw [mainAddr]
      exact traced.own
    · intro gw net isListed
      obtain ⟨valid, known⟩ := traced.listed isListed
      refine ⟨valid, ?_⟩
      rcases known with gone | announced
      · exact .inl (.inl gone)
      · by_cases still : Announces db gw net
        · exact .inr still
        · exact .inl (.inr ⟨announced, still⟩)

private theorem Traced.masksLeaveNoTrace (traced : Traced gone st) : MasksLeaveNoTrace st gone := by
  intro entry mem net isListed
  obtain ⟨valid, known⟩ := traced.listed ⟨entry, mem, rfl, isListed⟩
  refine ⟨valid, known.imp_right ?_⟩
  intro announced
  have stored := traced.good.linked.stored
  have isVertex : HasVertex st.db entry.gatewayAddr := by
    obtain ⟨path, value, -, address, -⟩ := announced
    exact ⟨value.tc, address⟩
  obtain ⟨tc, found⟩ := isSome_iff_exists.mp (stored.hasVertex_iff_lookup.mp isVertex)
  exact ⟨tc, found, (stored.findPath_isSome_iff (stored.lookupTcEntry_iff.mp found)).mpr announced⟩

/-- From the start of a node with a main address, whatever the originators and
whatever other modules do: while every mask is one that the decoder accepts, all
entries of the HNA set have a length in range and a path in the prefix tree of
their gateway. -/
theorem masksLeaveNoTrace_of_decodes (mainAddr : IpAddr ver) (own : mainAddr ≠ zeroAddr ver)
    {start : RouteState ver} (started : initialRoutes (8 * ver.ipsize) mainAddr = some start)
    {final : RouteState ver × Set (GatewayNet ver)}
    (run : Relation.ReflTransGen (HnaStep Decodes) (start, ∅) final) :
    MasksLeaveNoTrace final.1 final.2 := by
  have atStart : Traced ∅ start := by
    have sound := (initialRoutes_keeps started).1
    obtain ⟨⟨db, result⟩, added, same⟩ := bind_eq_some_iff.mp started
    cases same
    obtain ⟨-, located, -, -⟩ := (good_init mainAddr).addVertex rfl added
    refine ⟨sound.good, ?_, nodup_nil, nofun, ?_⟩
    · change db.mainAddr ≠ _
      rw [located.mainAddr]
      exact own
    · rintro gw net ⟨entry, member, -⟩
      cases member
  have holds : Traced final.2 final.1 := by
    induction run with
    | refl => exact atStart
    | tail _ taken ih => exact ih.step taken
  exact holds.masksLeaveNoTrace

def announceWith (mask : IpAddr .inet) (st : RouteState .inet) : Option (RouteState .inet) :=
  inputHnaPairs false hearsAll (hostAddr 2) [(hostAddr 0, mask)] st

theorem masksLeaveNoTrace_of_decodes_slash24 : ∃ start final,
      initialRoutes 32 (hostAddr 1) = some start ∧
        announceWith ⟨[255, 255, 255, 0], rfl⟩ start = some final ∧
        final.hnaSet.length = 1 ∧ MasksLeaveNoTrace final ∅ := by
  obtain ⟨start, started, final, done, one⟩ : ∃ start, initialRoutes 32 (hostAddr 1) = some start ∧
      ∃ final, announceWith ⟨[255, 255, 255, 0], rfl⟩ start = some final ∧
        final.hnaSet.length = 1 := by
    decide +kernel
  have accepted : ∀ pair ∈ [(hostAddr 0, (⟨[255, 255, 255, 0], rfl⟩ : IpAddr .inet))],
      Decodes pair.2 := by
    intro pair member
    rw [mem_singleton.mp member]
    unfold Decodes
    decide
  have own : hostAddr 1 ≠ zeroAddr .inet := by decide
  exact ⟨start, final, started, done, one,
    masksLeaveNoTrace_of_decodes (hostAddr 1) own started (.single (.input accepted done))⟩

/-- With the mask 255.1.0.0 the network stands in the HNA set under the length
255, and its gateway has no vertex. -/
theorem bogus_mask_leaves_trace : ∃ start final, initialRoutes 32 (hostAddr 1) = some start ∧
        announceWith ⟨[255, 1, 0, 0], rfl⟩ start = some final ∧
        ¬ MasksLeaveNoTrace final ∅ := by
  obtain ⟨start, started, final, done, hnaSet⟩ : ∃ start,
      initialRoutes 32 (hostAddr 1) = some start ∧
      ∃ final, announceWith ⟨[255, 1, 0, 0], rfl⟩ start = some final ∧
        (final.hnaSet.map fun entry => (entry.gatewayAddr, entry.networks)) =
          [(hostAddr 2, [⟨hostAddr 0, 255⟩])] := by
    decide +kernel
  refine ⟨start, final, started, done, fun noTrace => ?_⟩
  have present : (hostAddr 2, [⟨hostAddr 0, 255⟩]) ∈
      final.hnaSet.map fun entry => (entry.gatewayAddr, entry.networks) := by
    rw [hnaSet]
    exact mem_cons_self
  obtain ⟨entry, member, fields⟩ := mem_map.mp present
  have isListed : (⟨hostAddr 0, 255⟩ : IpNetwork .inet) ∈ entry.networks := by
    rw [(Prod.mk.inj fields).2]
    exact mem_cons_self
  exact absurd (noTrace entry member _ isListed).1 (by decide)

end QosOlsr.Routes
