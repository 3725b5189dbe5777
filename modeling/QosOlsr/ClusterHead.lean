import QosOlsr.Library.Runs
import QosOlsr.LinkChoice
import QosOlsr.MprSelectorSet
import QosOlsr.NeighborTable

/-!
# Cluster-head calculation and the head flag over whole runs

`olsr_calculate_head` of `mpr.c`, and the runs of HELLO receptions, expiries and
head calculations.
-/

namespace QosOlsr

open Library

universe u

/-- What `olsr_calculate_head` reads besides the neighbour table: the node's
own `qos` and main address, and what `get_best_link_to_neighbor` reads. -/
structure HeadEnv (Addr : Type u) where
  qos : Nat
  mainAddr : Addr
  lqLevel : Nat
  linkSet : List (LinkChoice.LinkEntry Addr)
  midLookupMainAddr : Addr → Option Addr

structure HeadScan (Addr : Type u) where
  maxQos : Nat
  maxIp : Addr
  prevHeadIp : Addr
  maxPrevHeadQos : Nat

section CalculateHead

variable {Addr : Type u} [DecidableEq Addr]

def HeadEnv.hasBestLink (env : HeadEnv Addr) (addr : Addr) : Bool :=
  (LinkChoice.getBestLinkToNeighbor env.lqLevel env.midLookupMainAddr env.linkSet addr).isSome

/-- The first loop of `olsr_calculate_head`: it resets the relay and head
marks of every neighbour it has a link to, and remembers the previous head
and the neighbour of greatest `qos` among the symmetric ones. -/
def scanHeadCandidates (env : HeadEnv Addr) :
    HeadScan Addr → List (NeighborEntry Addr) → HeadScan Addr × List (NeighborEntry Addr)
  | scan, [] => (scan, [])
  | scan, entry :: rest =>
    if env.hasBestLink entry.neighborMainAddr then
      let reset := { entry with isMpr := false, myHead := false }
      if entry.status = .notSym then
        let (final, scanned) := scanHeadCandidates env scan rest
        (final, reset :: scanned)
      else
        let withHead :=
          if entry.myHead then
            { scan with
              prevHeadIp := entry.neighborMainAddr
              maxPrevHeadQos := entry.qos }
          else
            scan
        let withMax :=
          if withHead.maxQos < entry.qos then
            { withHead with
              maxQos := entry.qos
              maxIp := entry.neighborMainAddr }
          else
            withHead
        let (final, scanned) := scanHeadCandidates env withMax rest
        (final, reset :: scanned)
    else
      let (final, scanned) := scanHeadCandidates env scan rest
      (final, entry :: scanned)

section

variable (env : HeadEnv Addr)

/-- Mark the neighbour a lookup of `addr` returns as relay and head. -/
def electHead (addr : Addr) (neighbors : List (NeighborEntry Addr)) : List (NeighborEntry Addr) :=
  updateNeighborEntry (neighborKey env.midLookupMainAddr addr)
    (fun entry => { entry with isMpr := true, myHead := true }) neighbors

/-- The flag after the node compared its own `qos` with the maximum. -/
def updateOwnElection (scan : HeadScan Addr) (isHead : UInt16) : UInt16 :=
  let raised :=
    if env.qos = scan.maxQos ∧ isHead ≠ 1 ∧ isHead < 3 then
      isHead + 1
    else
      isHead
  if (env.qos ≠ scan.maxQos ∧ env.qos = scan.maxPrevHeadQos) ∧ (raised = 1 ∨ raised = 3) then
    raised - 1
  else
    raised

variable (isHead : UInt16)

/-- What follows the scan in `olsr_calculate_head`: the previous head stays
while it has nine tenths of the maximum, else the node of greatest `qos` is
elected.  The comparison with `max_qos * 0.9` is exact for every 16-bit
`max_qos`, so it stands here in integers. -/
def concludeHeadElection (scan : HeadScan Addr)
    (scanned : List (NeighborEntry Addr)) : UInt16 × List (NeighborEntry Addr) :=
  if scan.maxQos = 0 then
    (isHead, scanned)
  else
    let previous := olsrLookupNeighborTable env.midLookupMainAddr scanned scan.prevHeadIp
    if (previous.isSome ∨ isHead = 1 ∨ isHead = 3) ∧ 9 * scan.maxQos ≤ 10 * scan.maxPrevHeadQos then
      (isHead, electHead env scan.prevHeadIp scanned)
    else
      (updateOwnElection env scan isHead, electHead env scan.maxIp scanned)

def scanStart : HeadScan Addr where
  maxQos := env.qos
  maxIp := env.mainAddr
  prevHeadIp := env.mainAddr
  maxPrevHeadQos := if isHead = 1 ∨ isHead = 3 then env.qos else 0

def olsrCalculateHead
    (neighbors : List (NeighborEntry Addr)) : UInt16 × List (NeighborEntry Addr) :=
  let (scan, scanned) := scanHeadCandidates env (scanStart env isHead) neighbors
  concludeHeadElection env isHead scan scanned

end

omit [DecidableEq Addr] in
private theorem updateOwnElection_bits (env : HeadEnv Addr) (scan : HeadScan Addr) {isHead : UInt16}
    (value : HeadFlagValue isHead) : HeadFlagValue (updateOwnElection env scan isHead) ∧
      (2 ≤ updateOwnElection env scan isHead ↔ 2 ≤ isHead) := by
  unfold updateOwnElection
  rcases value with rfl | rfl | rfl | rfl <;> by_cases top : env.qos = scan.maxQos <;>
    by_cases former : env.qos = scan.maxPrevHeadQos <;>
    simp_all [HeadFlagValue]

/-- A head calculation keeps the flag in range and its bit 1 untouched. -/
theorem olsrCalculateHead_bits (env : HeadEnv Addr) (neighbors : List (NeighborEntry Addr))
    {isHead : UInt16} (value : HeadFlagValue isHead) :
    HeadFlagValue (olsrCalculateHead env isHead neighbors).1 ∧
      (2 ≤ (olsrCalculateHead env isHead neighbors).1 ↔ 2 ≤ isHead) := by
  unfold olsrCalculateHead concludeHeadElection
  dsimp only
  generalize scanHeadCandidates env _ neighbors = outcome
  split
  · exact ⟨value, Iff.rfl⟩
  · split
    · exact ⟨value, Iff.rfl⟩
    · exact updateOwnElection_bits env _ value

end CalculateHead

/-- The events that touch the flag or one of the selector lists.  A head
calculation brings the neighbour table it finds. -/
inductive HeadEvent (Addr : Type u) where
  | hello (msg : HelloMessage Addr) (ifAddr : Addr)
  | expireMprSel (addr : Addr)
  | expireHeadSel (addr : Addr)
  | calculateHead (env : HeadEnv Addr) (neighbors : List (NeighborEntry Addr))

section Runs

variable {Addr : Type u} [DecidableEq Addr]

def headStep (st : SelectorState Addr) : HeadEvent Addr → Option (SelectorState Addr)
  | .hello msg ifAddr => some (olsrHelloTapSelectors st msg ifAddr)
  | .expireMprSel addr => olsrExpireMprSelEntry st addr
  | .expireHeadSel addr => olsrExpireHeadSelEntry st addr
  | .calculateHead env neighbors =>
    some { st with isHead := (olsrCalculateHead env st.isHead neighbors).1 }

/-- An observer beside the node: `true` once an expiry has left `mprs_list`
empty, `false` again from the next HELLO that selects the node as head. -/
def mprsRanEmpty (next : SelectorState Addr) (observed : Bool) : HeadEvent Addr → Bool
  | .hello msg ifAddr => if lookupHeadStatus msg ifAddr then false else observed
  | .expireMprSel _ => observed || next.mprsList.isEmpty
  | .expireHeadSel _ => observed
  | .calculateHead _ _ => observed

def observedHeadStep (st : SelectorState Addr × Bool) (event : HeadEvent Addr) :
    Option (SelectorState Addr × Bool) :=
  (headStep st.1 event).map fun next =>
    (next, mprsRanEmpty next st.2 event)

/-- The flag is in range, and its bit 1 is set exactly while some neighbour
has selected the node and `mprs_list` has not run empty since. -/
structure HeadFlagInvariant (observed : SelectorState Addr × Bool) : Prop where
  value : HeadFlagValue observed.1.isHead
  selected : 2 ≤ observed.1.isHead ↔ observed.1.headsList ≠ [] ∧ observed.2 = false

namespace HeadFlagInvariant

omit [DecidableEq Addr] in
theorem init : HeadFlagInvariant (SelectorState.init Addr, false) where
  value := Or.inl rfl
  selected := by simp [SelectorState.init]

variable {observed : Bool} {st : SelectorState Addr}

theorem hello (inv : HeadFlagInvariant (st, observed)) (msg : HelloMessage Addr) (ifAddr : Addr) :
    HeadFlagInvariant
      (olsrHelloTapSelectors st msg ifAddr,
        if lookupHeadStatus msg ifAddr then false else observed) := by
  obtain ⟨value, selected⟩ := inv
  cases head : lookupHeadStatus msg ifAddr with
  | true =>
    obtain ⟨inRange, raised, listed⟩ := olsrHelloTapSelectors_of_head value head
    exact ⟨inRange, by simp [raised, listed]⟩
  | false =>
    obtain ⟨sameFlag, sameHeads⟩ := olsrHelloTapSelectors_of_not_head st head
    refine ⟨?_, ?_⟩
    · simpa [sameFlag] using value
    · simpa [sameFlag, sameHeads] using selected

variable {st next : SelectorState Addr}

theorem expireMprSel {addr : Addr}
    (inv : HeadFlagInvariant (st, observed)) (expired : olsrExpireMprSelEntry st addr = some next) :
    HeadFlagInvariant (next, observed || next.mprsList.isEmpty) := by
  obtain ⟨value, selected⟩ := inv
  unfold olsrExpireMprSelEntry at expired
  split at expired
  · dsimp only at expired
    split at expired
    next emptied =>
      cases expired
      have cleared := HeadFlagValue.clear_selected emptied.1
      refine ⟨cleared.1, ?_⟩
      simp [cleared.2, emptied.2]
    next kept =>
      cases expired
      refine ⟨value, ?_⟩
      by_cases empty : st.mprsList.erase addr = []
      · -- the flag had lost bit 1 already, as the guard was not taken
        have flag : ¬ (st.isHead = 2 ∨ st.isHead = 3) := fun held => kept ⟨held, empty⟩
        simp [empty, HeadFlagValue.not_selected value flag]
      · simpa [empty] using selected
  · cases expired

theorem expireHeadSel {addr : Addr} (inv : HeadFlagInvariant (st, observed))
    (expired : olsrExpireHeadSelEntry st addr = some next) :
    HeadFlagInvariant (next, observed) := by
  obtain ⟨value, selected⟩ := inv
  unfold olsrExpireHeadSelEntry at expired
  split at expired
  next queued =>
    have nonempty : st.headsList ≠ [] := List.ne_nil_of_mem queued
    dsimp only at expired
    split at expired
    next emptied =>
      cases expired
      have cleared := HeadFlagValue.clear_selected emptied.1
      refine ⟨cleared.1, ?_⟩
      simp [cleared.2, emptied.2]
    next kept =>
      cases expired
      refine ⟨value, ?_⟩
      by_cases empty : st.headsList.erase addr = []
      · have flag : ¬ (st.isHead = 2 ∨ st.isHead = 3) := fun held => kept ⟨held, empty⟩
        simp [empty, HeadFlagValue.not_selected value flag]
      · simpa [empty, nonempty] using selected
  · cases expired

theorem calculateHead (inv : HeadFlagInvariant (st, observed))
    (env : HeadEnv Addr) (neighbors : List (NeighborEntry Addr)) :
    HeadFlagInvariant
      ({ st with
          isHead := (olsrCalculateHead env st.isHead neighbors).1 },
        observed) := by
  have bits := olsrCalculateHead_bits env neighbors inv.value
  exact ⟨bits.1, bits.2.trans inv.selected⟩

theorem step {st next : SelectorState Addr × Bool} {event : HeadEvent Addr}
    (inv : HeadFlagInvariant st) (taken : observedHeadStep st event = some next) :
    HeadFlagInvariant next := by
  obtain ⟨before, observed⟩ := st
  simp only [observedHeadStep, Option.map_eq_some_iff] at taken
  obtain ⟨after, moved, rfl⟩ := taken
  cases event with
  | hello msg ifAddr =>
    cases moved
    exact inv.hello msg ifAddr
  | expireMprSel addr => exact inv.expireMprSel moved
  | expireHeadSel addr => exact inv.expireHeadSel moved
  | calculateHead env neighbors =>
    cases moved
    exact inv.calculateHead env neighbors

end HeadFlagInvariant

/-- In every run from a node that is no head and has no selectors, the flag
takes one of its four documented values, and bit 1 is set exactly while
`heads_list` is non-empty and `mprs_list` has not run empty since the last
HELLO that selected the node as head. -/
theorem headFlag_tracks_selectors
    (events : List (HeadEvent Addr)) {final : SelectorState Addr} {ranEmpty : Bool}
    (run :
      runEvents observedHeadStep (SelectorState.init Addr, false) events = some (final, ranEmpty)) :
    HeadFlagValue final.isHead ∧ (2 ≤ final.isHead ↔ final.headsList ≠ [] ∧ ranEmpty = false) := by
  have invariant : HeadFlagInvariant (final, ranEmpty) :=
    runEvents_invariant HeadFlagInvariant.step HeadFlagInvariant.init run
  exact ⟨invariant.value, invariant.selected⟩

end Runs

/-- A HELLO of neighbour 7 that names interface 1 as its head and relay. -/
def headSelectingHello : HelloMessage Nat where
  vtime := 0
  htime := 0
  sourceAddr := 7
  packetSeqNumber := 0
  hopCount := 0
  ttl := 1
  willingness := 3
  qos := 0
  isHead := 0
  neighbors := [⟨.mprHead, .sym, 1, []⟩]

theorem headFlag_tracks_selectors_selected :
    ∃ final, runEvents observedHeadStep (SelectorState.init Nat, false)
        [.hello headSelectingHello 1] = some (final, false) ∧
      HeadFlagValue final.isHead ∧ (2 ≤ final.isHead ↔ final.headsList ≠ [] ∧ false = false) :=
  ⟨⟨2, [7], [7]⟩, by decide, headFlag_tracks_selectors [.hello headSelectingHello 1] (by decide)⟩

/-- The flag alone does not follow `heads_list`: the last MPR selector may
expire before the head selector that came with the same HELLO. -/
theorem headFlag_not_heads_list : ¬ ∀ (events : List (HeadEvent Nat)) (final : SelectorState Nat),
        runEvents headStep (SelectorState.init Nat) events = some final →
          HeadFlagValue final.isHead ∧ (2 ≤ final.isHead ↔ final.headsList ≠ []) := by
  intro follows
  have stale := follows [.hello headSelectingHello 1, .expireMprSel 7] ⟨0, [], [7]⟩ (by decide)
  exact absurd (stale.2.mpr (by decide)) (by decide)

end QosOlsr
