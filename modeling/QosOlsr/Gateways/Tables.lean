import QosOlsr.DuplicateSet
import QosOlsr.Tc.Database

/-!
# Smart gateways

`gateway.c`, `gateway_list.c` and `gateway_default_handler.c`.  Gateways and
containers are blocks in memory; an operation that follows a pointer to a freed
block, or fails an assertion, has no result.  Of the operating system only the
creation of a tunnel is kept, which may fail.
-/

namespace QosOlsr.Gateways

open Library Function

abbrev Ptr : Type := Nat

inductive Family where
  | ipv4
  | ipv6
  deriving DecidableEq

/-- A timer pointer: not set, to a running timer, or to one that has fired. -/
inductive GwTimer where
  | unset
  | running
  | fired
  deriving DecidableEq

/-- `struct gateway_entry`.  Of the external prefix the eight bytes are kept
that are sent. -/
structure GatewayEntry (ver : IpVersion) where
  originator : IpAddr ver
  externalPrefix : List UInt8
  externalPrefixLen : Nat
  uplink : Nat
  downlink : Nat
  pathCost : Int
  ipv4 : Bool
  ipv4nat : Bool
  ipv6 : Bool
  expireTimer : Bool
  cleanupTimer : GwTimer
  seqno : UInt16

/-- `struct gw_container_entry`.  A container has its gateway and its tunnel
until it is freed. -/
structure GwContainer where
  gw : Ptr

structure GwList where
  items : List Ptr
  count : Nat
  countMax : Nat

/-- The variables of `gateway.c` and `gateway_default_handler.c`. -/
structure GwState (ver : IpVersion) where
  entries : Ptr → Option (GatewayEntry ver)
  gatewayTree : List Ptr
  containers : Ptr → Option GwContainer
  lists : Family → GwList
  current : Family → Option Ptr
  chooseNew : Family → Bool
  defTimer : Bool
  nodecount : Nat
  stablecount : Nat
  nextPtr : Ptr

structure GwConfig where
  useNiit : Bool
  smartGwAllowNat : Bool
  smartGwThresh : Nat
  smartGwUseCount : Nat
  smartGwTakedownPercentage : Nat
  smartGwStablecount : Nat
  smartGwWeightExitlinkUp : Nat
  smartGwWeightExitlinkDown : Nat
  smartGwWeightEtx : Nat
  smartGwDividerEtx : Nat
  smartGwPathMaxCostEtxMax : Nat
  hasIpv4Gateway : Bool
  hasIpv6Gateway : Bool
  useCount_pos : 0 < smartGwUseCount

/-- What an operation finds outside: the costs in the TC set, the number of its
vertices, and whether a tunnel can be made for a list in the state that the
request finds. -/
structure GwWorld (ver : IpVersion) where
  tcCost : IpAddr ver → Option Nat
  tcCount : Nat
  addTunnel : GwState ver → Family → Ptr → Bool

variable {ver : IpVersion}

def int64Max : Int := 2 ^ 63 - 1

def wrap64 (value : Int) : Int := value.bmod (2 ^ 64)

def routeCostBroken : Nat := 0xffffffff

def maxSmartgwSpeed : Nat := 320000000

def forceDeleteGwEntry : Nat := 255

namespace GwState

variable (st : GwState ver)

def setEntry (gw : Ptr) (entry : GatewayEntry ver) : GwState ver :=
  { st with entries := update st.entries gw (some entry) }

def setList (family : Family) (list : GwList) : GwState ver :=
  { st with lists := update st.lists family list }

def setCurrent (family : Family) (current : Option Ptr) : GwState ver :=
  { st with current := update st.current family current }

/-- `olsr_cookie_free(gw_container_entry_mem_cookie, ...)`. -/
def freeContainer (container : Ptr) : GwState ver :=
  { st with containers := update st.containers container none }

def originatorOf (gw : Ptr) : Option (IpAddr ver) := (st.entries gw).map GatewayEntry.originator

/-- `node2gateway(avl_find(&gateway_tree, originator))`. -/
def findGateway (originator : IpAddr ver) : Option Ptr :=
  st.gatewayTree.find? fun gw => st.originatorOf gw = some originator

end GwState

/-! ## Gateway lists -/

def olsrGwListFull (list : GwList) : Bool := list.countMax ≤ list.count

def olsrGwListGetWorstEntry (list : GwList) : Option Ptr :=
  if list.count = 0 then none else list.items.getLast?

section Lists

variable (st : GwState ver)

/-- `olsr_gw_list_find` from some element on. -/
def findContainer (gw : Ptr) : List Ptr → Option (Option Ptr)
  | [] => some none
  | container :: rest => do
    let value ← st.containers container
    if value.gw = gw then some (some container) else findContainer gw rest

variable (family : Family)

def olsrGwListFind (gw : Ptr) : Option (Option Ptr) := findContainer st gw (st.lists family).items

/-- Where `olsr_gw_list_add` puts an element: in front of the first one that is
not cheaper. -/
def placeContainer (cost : Int) (added : Ptr) : List Ptr → Option (List Ptr)
  | [] => some [added]
  | container :: rest => do
    let value ← st.containers container
    let gw ← st.entries value.gw
    if cost ≤ gw.pathCost then
      some (added :: container :: rest)
    else
      let placed ← placeContainer cost added rest
      return container :: placed

def olsrGwListAdd (added : Ptr) : Option (GwState ver) := do
  guard (olsrGwListFull (st.lists family) = false)
  let value ← st.containers added
  let gw ← st.entries value.gw
  let items ← placeContainer st gw.pathCost added (st.lists family).items
  return st.setList family
    { st.lists family with
      items := items
      count := (st.lists family).count + 1 }

def olsrGwListRemove (removed : Ptr) : Option (GwState ver) := do
  guard ((st.lists family).count ≠ 0)
  let _ ← st.containers removed
  return st.setList family
    { st.lists family with
      items := (st.lists family).items.erase removed
      count := (st.lists family).count - 1 }

def olsrGwListUpdate (updated : Ptr) : Option (GwState ver) := do
  let removed ← olsrGwListRemove st family updated
  olsrGwListAdd removed family updated

def removeGatewayFromList (container : Ptr) : Option (GwState ver) := do
  let removed ← olsrGwListRemove st family container
  return removed.freeContainer container

def olsrGetInetGateway : Option (Option Ptr) :=
  match st.current family with
  | none => some none
  | some container => do
    let value ← st.containers container
    return some value.gw

end Lists

/-! ## Costs -/

/-- `gw_costs_weigh` for a link that is up; the product of the path cost and its
weight has 32 bits. -/
def gwCostsWeigh (cfg : GwConfig) (pathCost exitUk exitDk : Nat) : Int :=
  if cfg.smartGwDividerEtx = 0 then
    ((pathCost <<< 31 : Nat) : Int)
  else if exitUk = 0 ∨ exitDk = 0 then
    int64Max
  else if maxSmartgwSpeed ≤ exitUk ∧ maxSmartgwSpeed ≤ exitDk ∧
      pathCost < cfg.smartGwPathMaxCostEtxMax then
    (pathCost : Int)
  else
    let costU := (1000 * cfg.smartGwWeightExitlinkUp) <<< 23 / exitUk
    let costD := (1000 * cfg.smartGwWeightExitlinkDown) <<< 23 / exitDk
    let costE := (pathCost * cfg.smartGwWeightEtx % 2 ^ 32) <<< 23 / cfg.smartGwDividerEtx
    ((costU + costD + costE : Nat) : Int)

def reachable (world : GwWorld ver) (originator : IpAddr ver) : Bool :=
  match world.tcCost originator with
  | none => false
  | some pathCost => pathCost < routeCostBroken

def gwDefaultGetcosts (cfg : GwConfig) (world : GwWorld ver) (gw : GatewayEntry ver) : Int :=
  match world.tcCost gw.originator with
  | none => int64Max
  | some pathCost =>
    if routeCostBroken ≤ pathCost ∨ gw.uplink = 0 ∨ gw.downlink = 0 then
      int64Max
    else
      gwCostsWeigh cfg pathCost gw.uplink gw.downlink

def gwDefaultCalcThreshold (cfg : GwConfig) (pathCost : Int) : Int :=
  if cfg.smartGwThresh = 0 then
    pathCost
  else
    (wrap64 (wrap64 (pathCost * cfg.smartGwThresh) + 50)).tdiv 100

section Choose

variable (cfg : GwConfig) (world : GwWorld ver)

def usesFamily (cfg : GwConfig) (ver : IpVersion) : Family → Bool
  | .ipv4 => ver = .inet || cfg.useNiit
  | .ipv6 => ver = .inet6

section

variable (family : Family)

def isGwSelectable (gw : GatewayEntry ver) : Bool :=
  match family with
  | .ipv4 => gw.ipv4 && usesFamily cfg ver .ipv4 && (cfg.smartGwAllowNat || !gw.ipv4nat)
  | .ipv6 => gw.ipv6 && usesFamily cfg ver .ipv6

/-- What `olsr_set_inet_gateway` asks of the new gateway. -/
def acceptsGateway (gw : GatewayEntry ver) : Bool :=
  match family with
  | .ipv4 => gw.ipv4 && (!gw.ipv4nat || cfg.smartGwAllowNat)
  | .ipv6 => gw.ipv6

def removeWorst (st : GwState ver) : Option (GwState ver) :=
  if olsrGwListFull (st.lists family) then do
    let worst ← olsrGwListGetWorstEntry (st.lists family)
    removeGatewayFromList st family worst
  else
    some st

def addContainer (newGw : Ptr) (st : GwState ver) : Option (GwState ver) := do
  let allocated :=
    { st with
      containers := update st.containers st.nextPtr (some ⟨newGw⟩)
      nextPtr := st.nextPtr + 1 }
  let added ← olsrGwListAdd allocated family st.nextPtr
  return added.setCurrent family (some st.nextPtr)

/-- The part of `olsr_set_inet_gateway` for a gateway that is not in the list,
with what is left of the request. -/
def addGateway (newGw : Ptr) (st : GwState ver) :
    Option (GwState ver × Bool) := do
  let roomy ← removeWorst family st
  if world.addTunnel st family newGw then
    let added ← addContainer family newGw roomy
    return (added, true)
  else
    return (roomy, false)

/-- The part of `olsr_set_inet_gateway` for one family. -/
def setFamilyGateway (newGw : Ptr) (wanted : Bool)
    (st : GwState ver) : Option (GwState ver × Bool) :=
  if wanted then do
    let gw ← st.entries newGw
    if acceptsGateway cfg family gw then
      let currentGw ← olsrGetInetGateway st family
      if currentGw = some newGw then
        return (st, true)
      else
        let found ← olsrGwListFind st family newGw
        match found with
        | some container => return (st.setCurrent family (some container), true)
        | none => addGateway world family newGw st
    else
      return (st, true)
  else
    some (st, false)

end

def olsrSetInetGateway (chosenGw : Ptr) (ipv4 ipv6 : Bool) (st : GwState ver) :
    Option (GwState ver × Bool) :=
  let ipv4 := ipv4 && usesFamily cfg ver .ipv4
  let ipv6 := ipv6 && usesFamily cfg ver .ipv6
  if ipv4 = false ∧ ipv6 = false then
    some (st, true)
  else do
    let chosen ← st.entries chosenGw
    match st.findGateway chosen.originator with
    | none => some (st, true)
    | some newGw => do
      let first ← setFamilyGateway cfg world .ipv4 newGw ipv4 st
      let second ← setFamilyGateway cfg world .ipv6 newGw ipv6 first.1
      return (second.1, !first.2 && !second.2)

/-! ## The default handler -/

def costThreshold (family : Family) (st : GwState ver) : Option (Option Int) :=
  if cfg.smartGwThresh = 0 then
    some none
  else do
    let currentGw ← olsrGetInetGateway st family
    match currentGw with
    | none => some none
    | some gw => do
      let entry ← st.entries gw
      return some (gwDefaultCalcThreshold cfg entry.pathCost)

def eligible (family : Family) (threshold : Option Int) (gw : GatewayEntry ver) : Bool :=
  gw.pathCost ≠ int64Max && isGwSelectable cfg family gw && decide (gw.pathCost < int64Max) &&
    threshold.all fun bound => decide (gw.pathCost < bound)

def betterGateway (family : Family) (threshold : Option Int)
    (chosen : Option (Ptr × GatewayEntry ver)) (gw : Ptr × GatewayEntry ver) :
    Option (Ptr × GatewayEntry ver) :=
  if eligible cfg family threshold gw.2 &&
      chosen.all fun best => decide (gw.2.pathCost < best.2.pathCost) then
    some gw
  else
    chosen

section

variable (st : GwState ver)

def treeEntries : Option (List (Ptr × GatewayEntry ver)) :=
  st.gatewayTree.mapM fun gw => do
    let entry ← st.entries gw
    return (gw, entry)

/-- The gateway that the loop of `gw_default_choose_gateway` leaves. -/
def chosenGateway (family : Family) (st : GwState ver) : Option (Option Ptr) := do
  let threshold ← costThreshold cfg family st
  let gws ← treeEntries st
  if st.chooseNew family then
    return (gws.foldl (betterGateway cfg family threshold) none).map Prod.fst
  else
    return none

def setChosen (chosen : Option Ptr) (ipv4 ipv6 : Bool) (st : GwState ver) : Option (GwState ver) :=
  match chosen with
  | none => some st
  | some gw => do
    let set ← olsrSetInetGateway cfg world gw ipv4 ipv6 st
    return set.1

def keepLooking (chosenIpv4 chosenIpv6 : Option Ptr) (st : GwState ver) : GwState ver :=
  { st with
    chooseNew := fun
      | .ipv4 => st.chooseNew .ipv4 && chosenIpv4.isNone
      | .ipv6 => st.chooseNew .ipv6 && chosenIpv6.isNone }

/-- The part of `gw_default_choose_gateway` that sets what has been chosen; one
gateway may have been chosen for both families. -/
def setBoth (chosenIpv4 chosenIpv6 : Option Ptr) (looking : GwState ver) :
    Option (GwState ver) := do
  let dual := chosenIpv4.isSome && decide (chosenIpv4 = chosenIpv6)
  let set4 ← setChosen cfg world chosenIpv4 true dual looking
  let set6 ← setChosen cfg world (if dual then none else chosenIpv6) false true set4
  if cfg.smartGwThresh = 0 ∧ looking.chooseNew .ipv4 = false ∧
      looking.chooseNew .ipv6 = false then
    return { set6 with defTimer := false }
  else
    return set6

def gwDefaultChooseGateway : Option (GwState ver) := do
  let chosenIpv4 ← chosenGateway cfg .ipv4 st
  let chosenIpv6 ← chosenGateway cfg .ipv6 st
  setBoth cfg world chosenIpv4 chosenIpv6 (keepLooking chosenIpv4 chosenIpv6 st)

variable (ipv4 ipv6 : Bool)

def lookFor (st : GwState ver) : GwState ver :=
  { st with
    chooseNew := fun
      | .ipv4 =>
        if ipv4 then usesFamily cfg ver .ipv4
        else st.chooseNew .ipv4
      | .ipv6 =>
        if ipv6 then usesFamily cfg ver .ipv6
        else st.chooseNew .ipv6 }

def chooseIfLooking (looking : GwState ver) : Option (GwState ver) :=
  if looking.chooseNew .ipv4 || looking.chooseNew .ipv6 then
    gwDefaultChooseGateway cfg world looking
  else
    some looking

def gwDefaultLookupGateway (st : GwState ver) : Option (GwState ver) :=
  chooseIfLooking cfg world (lookFor cfg ipv4 ipv6 st)

def gwDefaultStartupHandler : GwState ver :=
  { st with
    nodecount := world.tcCount
    stablecount := 0
    chooseNew := fun
      | .ipv4 => usesFamily cfg ver .ipv4 && !cfg.hasIpv4Gateway
      | .ipv6 => usesFamily cfg ver .ipv6 && !cfg.hasIpv6Gateway
    defTimer := true }

def gwDefaultChoosegwHandler
    (st : GwState ver) : Option (GwState ver) := do
  let looked ← gwDefaultLookupGateway cfg world ipv4 ipv6 st
  if looked.chooseNew .ipv4 || looked.chooseNew .ipv6 then
    return gwDefaultStartupHandler cfg world looked
  else
    return looked

def gwDefaultUpdateHandler (gw : Ptr) (st : GwState ver) : Option (GwState ver) :=
  if cfg.smartGwThresh = 0 then do
    let entry ← st.entries gw
    let current4 ← olsrGetInetGateway st .ipv4
    let current6 ← olsrGetInetGateway st .ipv6
    let v4changed :=
      decide (current4 = some gw) && (!entry.ipv4 || (entry.ipv4nat && !cfg.smartGwAllowNat))
    let v6changed := decide (current6 = some gw) && !entry.ipv6
    if v4changed || v6changed then
      gwDefaultLookupGateway cfg world v4changed v6changed st
    else
      return st
  else
    gwDefaultLookupGateway cfg world true true st

def gwDefaultDeleteHandler (gw : Ptr) (st : GwState ver) : Option (GwState ver) := do
  let current4 ← olsrGetInetGateway st .ipv4
  let current6 ← olsrGetInetGateway st .ipv6
  let isv4 := decide (current4 = some gw)
  let isv6 := decide (current6 = some gw)
  if isv4 || isv6 then
    gwDefaultLookupGateway cfg world isv4 isv6 st
  else
    return st

/-- Count how long the number of vertices has been stable; a change by a tenth
does not count. -/
def countStable : GwState ver :=
  let near := st.nodecount * 9 ≤ world.tcCount * 10 ∧ world.tcCount * 10 ≤ st.nodecount * 11
  if near ∨ world.tcCount = st.nodecount then
    { st with
      nodecount := world.tcCount
      stablecount := st.stablecount + 1 }
  else
    { st with nodecount := world.tcCount, stablecount := 0 }

def gwDefaultTimer : Option (GwState ver) :=
  let counted := countStable world st
  if cfg.smartGwStablecount ≤ counted.stablecount then
    gwDefaultChooseGateway cfg world counted
  else
    some counted

end

/-! ## Deleting gateways -/

def cleanupGatewayHandler (gw : Ptr) (st : GwState ver) : Option (GwState ver) := do
  let entry ← st.entries gw
  if entry.ipv4 || entry.ipv6 then
    return st
  else
    return { st with
      entries := update st.entries gw none
      gatewayTree := st.gatewayTree.erase gw }

def clearFlags (prefixLen : Nat) (entry : GatewayEntry ver) : GatewayEntry ver :=
  if ver = .inet ∧ prefixLen = 0 ∨ ver = .inet6 ∧ prefixLen = 96 then
    { entry with ipv4 := false, ipv4nat := false }
  else if ver = .inet6 ∧ prefixLen = 3 then
    { entry with ipv6 := false }
  else
    entry

/-- `change`: a flag was set that the prefix length stands for. -/
def flagsChange (prefixLen : Nat) (entry : GatewayEntry ver) : Bool :=
  if ver = .inet ∧ prefixLen = 0 ∨ ver = .inet6 ∧ prefixLen = 96 then
    entry.ipv4
  else if ver = .inet6 ∧ prefixLen = 3 then
    entry.ipv6
  else
    false

def dropGateway (family : Family) (gw : Ptr) (st : GwState ver) :
    Option (GwState ver) := do
  let found ← olsrGwListFind st family gw
  match found with
  | none => return st
  | some container => do
    let currentGw ← olsrGetInetGateway st family
    let left :=
      if currentGw = some gw then st.setCurrent family none else st
    removeGatewayFromList left family container

def scheduleCleanup (gw : Ptr) (immediate : Bool) (st : GwState ver) : Option (GwState ver) :=
  if immediate then
    cleanupGatewayHandler gw st
  else do
    let entry ← st.entries gw
    return st.setEntry gw { entry with cleanupTimer := .running }

def chooseMissing (st : GwState ver) : Option (GwState ver) :=
  if st.current .ipv4 = none ∨ st.current .ipv6 = none then
    gwDefaultChoosegwHandler cfg world (st.current .ipv4).isNone (st.current .ipv6).isNone st
  else
    some st

/-- The part of `olsr_delete_gateway_tree_entry` that removes a gateway. -/
def removeGateway (gw : Ptr) (immediate : Bool) (st : GwState ver) :
    Option (GwState ver) := do
  let entry ← st.entries gw
  let unselectable := st.setEntry gw { entry with ipv4 := false, ipv4nat := false, ipv6 := false }
  let handled ← gwDefaultDeleteHandler cfg world gw unselectable
  let dropped4 ← dropGateway .ipv4 gw handled
  let dropped6 ← dropGateway .ipv6 gw dropped4
  let scheduled ← scheduleCleanup gw immediate dropped6
  chooseMissing cfg world scheduled

def olsrDeleteGatewayTreeEntry (gw : Ptr) (prefixLen : Nat) (immediate : Bool)
    (st : GwState ver) : Option (GwState ver) := do
  let entry ← st.entries gw
  let stopped :=
    { entry with
      expireTimer := false
      cleanupTimer := if immediate then .unset else entry.cleanupTimer }
  if stopped.cleanupTimer = .unset ∨ stopped.ipv4 ∨ stopped.ipv6 then
    let cleared := clearFlags prefixLen stopped
    if prefixLen = forceDeleteGwEntry ∨ cleared.ipv4 = false ∧ cleared.ipv6 = false then
      removeGateway cfg world gw immediate (st.setEntry gw cleared)
    else if flagsChange prefixLen stopped then
      gwDefaultUpdateHandler cfg world gw (st.setEntry gw cleared)
    else
      return st.setEntry gw cleared
  else
    return st.setEntry gw stopped

def olsrDeleteGatewayEntry (originator : IpAddr ver) (prefixLen : Nat) (immediate : Bool)
    (st : GwState ver) : Option (GwState ver) :=
  match st.findGateway originator with
  | none => some st
  | some gw => olsrDeleteGatewayTreeEntry cfg world gw prefixLen immediate st

def expireGatewayHandler (gw : Ptr) (st : GwState ver) : Option (GwState ver) := do
  let entry ← st.entries gw
  olsrDeleteGatewayEntry cfg world entry.originator entry.externalPrefixLen false st

/-! ## Gateway announcements -/

/-- The offset that `hna_mask_to_hna_pointer` adds. -/
def hnaOffset (prefixLen : Nat) : Nat := (prefixLen + 7) / 8

/-- A byte behind `hna_mask_to_hna_pointer`. -/
def hnaByte (mask : List UInt8) (prefixLen field : Nat) : UInt8 :=
  mask.getD (hnaOffset prefixLen + field) 0

def deserializeGwSpeed (value : UInt8) : Nat :=
  if value = 0 then
    0
  else if value = 255 then
    maxSmartgwSpeed
  else
    (value.toNat / 8 + 1) * 10 ^ (value.toNat % 8) % 2 ^ 32

def hnaFlag (mask : List UInt8) (prefixLen : Nat) (flag : UInt8) : Bool :=
  hnaByte mask prefixLen 1 &&& flag ≠ 0

def ipv6InternetRoute : List UInt8 := 0x20 :: List.replicate 15 0

/-- What `olsr_update_gateway_entry` writes from an announcement. -/
def announcedEntry (mask : IpAddr ver) (prefixLen : Nat) (seqno : UInt16)
    (entry : GatewayEntry ver) : GatewayEntry ver :=
  let byte := hnaByte mask.bytes prefixLen
  let flag := hnaFlag mask.bytes prefixLen
  let resetPrefix := ver = .inet6 ∧ prefixLen = 3
  let copyPrefix := flag 16 ∧ mask.bytes = ipv6InternetRoute
  { entry with
    seqno := seqno
    pathCost := int64Max
    uplink := if flag 1 then deserializeGwSpeed (byte 2) else 0
    downlink := if flag 1 then deserializeGwSpeed (byte 3) else 0
    ipv4 := flag 2
    ipv4nat := flag 4
    ipv6 := decide (ver = .inet6) && flag 8
    externalPrefixLen :=
      if resetPrefix then
        if copyPrefix then (byte 4).toNat else 0
      else
        entry.externalPrefixLen
    externalPrefix :=
      if resetPrefix then
        if copyPrefix then (List.range 8).map fun index => byte (5 + index)
        else List.replicate 8 0
      else
        entry.externalPrefix }

def resortGateway (family : Family) (gw : Ptr) (st : GwState ver) :
    Option (GwState ver) := do
  let found ← olsrGwListFind st family gw
  match found with
  | none => return st
  | some container => olsrGwListUpdate st family container

def resortLists (gw : Ptr) (pathCost : Int) (st : GwState ver) : Option (GwState ver) :=
  if int64Max ≠ pathCost then do
    let sorted4 ← resortGateway .ipv4 gw st
    resortGateway .ipv6 gw sorted4
  else
    some st

/-- The part of `olsr_update_gateway_entry` for a gateway that has a new
announcement. -/
def refreshGateway (mask : IpAddr ver) (prefixLen : Nat) (seqno : UInt16) (gw : Ptr)
    (st : GwState ver) : Option (GwState ver) := do
  let entry ← st.entries gw
  let announced := announcedEntry mask prefixLen seqno entry
  if announced.uplink = 0 ∨ announced.downlink = 0 then
    olsrDeleteGatewayTreeEntry cfg world gw forceDeleteGwEntry true (st.setEntry gw announced)
  else
    let pathCost := gwDefaultGetcosts cfg world announced
    let written :=
      st.setEntry gw
        { announced with
          expireTimer := true
          cleanupTimer := .unset
          pathCost := pathCost }
    let sorted ← resortLists gw pathCost written
    gwDefaultUpdateHandler cfg world gw sorted

def newGateway (originator : IpAddr ver) : GatewayEntry ver where
  originator := originator
  externalPrefix := List.replicate 8 0
  externalPrefixLen := 0
  uplink := 0
  downlink := 0
  pathCost := 0
  ipv4 := false
  ipv4nat := false
  ipv6 := false
  expireTimer := false
  cleanupTimer := .unset
  seqno := 0

def insertGateway (originator : IpAddr ver) (st : GwState ver) : GwState ver :=
  let allocated :=
    { st.setEntry st.nextPtr (newGateway originator) with
      nextPtr := st.nextPtr + 1 }
  { allocated with
    gatewayTree := Lsdb.avlInsertNoDup addrKey allocated.originatorOf st.nextPtr st.gatewayTree }

def olsrUpdateGatewayEntry (originator mask : IpAddr ver) (prefixLen : Nat) (seqno : UInt16)
    (st : GwState ver) : Option (GwState ver) :=
  match st.findGateway originator with
  | none => refreshGateway cfg world mask prefixLen seqno st.nextPtr (insertGateway originator st)
  | some gw => do
    let entry ← st.entries gw
    if olsrSeqnoDiff seqno entry.seqno ≤ 0 then
      return st
    else
      refreshGateway cfg world mask prefixLen seqno gw st

/-! ## Checks and timers -/

def gatewayLost (family : Family) (st : GwState ver) : Option Bool := do
  let currentGw ← olsrGetInetGateway st family
  match currentGw with
  | none => return false
  | some gw => do
    let entry ← st.entries gw
    return !reachable world entry.originator

def olsrTriggerGatewaylossCheck (st : GwState ver) : Option (GwState ver) := do
  let ipv4 ← gatewayLost world .ipv4 st
  let ipv6 ← gatewayLost world .ipv6 st
  if ipv4 || ipv6 then
    gwDefaultChoosegwHandler cfg world ipv4 ipv6 st
  else
    return st

def costBoundary (pathCost : Int) : Int :=
  if cfg.smartGwTakedownPercentage < 100 then
    if pathCost ≤ int64Max / 100 then
      (wrap64 (pathCost * 100)).tdiv cfg.smartGwTakedownPercentage
    else
      wrap64 (wrap64 (pathCost.tdiv cfg.smartGwTakedownPercentage * 100) + 99)
  else
    pathCost

/-- The loop of `takeDownExpensiveGateways`.  Each round removes an element, so
that as many rounds as there are elements are enough. -/
def takeDown (family : Family) (boundary : Int) (currentGw : Ptr) :
    Nat → GwState ver → Option (GwState ver)
  | 0, st => some st
  | fuel + 1, st =>
    if (st.lists family).count ≤ 1 then
      some st
    else do
      let worst ← olsrGwListGetWorstEntry (st.lists family)
      if worst = currentGw then
        return st
      else
        let value ← st.containers worst
        let gw ← st.entries value.gw
        if gw.pathCost < boundary then
          return st
        else
          let removed ← removeGatewayFromList st family worst
          takeDown family boundary currentGw fuel removed

def takeDownExpensiveGateways (family : Family) (st : GwState ver) : Option (GwState ver) :=
  match st.current family with
  | none => some st
  | some currentGw =>
    if cfg.smartGwTakedownPercentage = 0 ∨ (st.lists family).count ≤ 1 then
      some st
    else do
      let value ← st.containers currentGw
      let gw ← st.entries value.gw
      takeDown family (costBoundary cfg gw.pathCost) currentGw (st.lists family).count st

def gwTakedownTimerCallback (st : GwState ver) : Option (GwState ver) := do
  let taken4 ← takeDownExpensiveGateways cfg .ipv4 st
  takeDownExpensiveGateways cfg .ipv6 taken4

def fireCleanup (gw : Ptr) (st : GwState ver) : Option (GwState ver) := do
  let cleaned ← cleanupGatewayHandler gw st
  match cleaned.entries gw with
  | none => return cleaned
  | some entry => return cleaned.setEntry gw { entry with cleanupTimer := .fired }

end Choose

/-! ## The system -/

inductive GwEvent (ver : IpVersion) where
  | update (originator mask : IpAddr ver) (prefixLen : Nat) (seqno : UInt16)
  | expire (gw : Ptr)
  | cleanup (gw : Ptr)
  | delete (originator : IpAddr ver) (prefixLen : Nat) (immediate : Bool)
  | setInet (gw : Ptr) (ipv4 ipv6 : Bool)
  | takeDown
  | lossCheck
  | select
  | startup

/-- One event.  A timer that does not run does not fire, and only gateways of
the tree are set. -/
def gwStep (cfg : GwConfig) (st : GwState ver) (event : GwWorld ver × GwEvent ver) :
    Option (GwState ver) :=
  match event.2 with
  | .update originator mask prefixLen seqno =>
    olsrUpdateGatewayEntry cfg event.1 originator mask prefixLen seqno st
  | .expire gw =>
    if (st.entries gw).any GatewayEntry.expireTimer then
      expireGatewayHandler cfg event.1 gw st
    else
      some st
  | .cleanup gw =>
    if (st.entries gw).any fun entry => entry.cleanupTimer = .running then
      fireCleanup gw st
    else
      some st
  | .delete originator prefixLen immediate =>
    olsrDeleteGatewayEntry cfg event.1 originator prefixLen immediate st
  | .setInet gw ipv4 ipv6 =>
    if gw ∈ st.gatewayTree then do
      let set ← olsrSetInetGateway cfg event.1 gw ipv4 ipv6 st
      return set.1
    else
      some st
  | .takeDown => gwTakedownTimerCallback cfg st
  | .lossCheck => olsrTriggerGatewaylossCheck cfg event.1 st
  | .select =>
    if st.defTimer then gwDefaultTimer cfg event.1 st
    else some st
  | .startup => some (gwDefaultStartupHandler cfg event.1 st)

/-- The state behind `olsr_init_gateways`. -/
def initGateways (ver : IpVersion) (cfg : GwConfig) : GwState ver where
  entries := fun _ => none
  gatewayTree := []
  containers := fun _ => none
  lists := fun _ => ⟨[], 0, cfg.smartGwUseCount⟩
  current := fun _ => none
  chooseNew := fun _ => true
  defTimer := false
  nodecount := 0
  stablecount := 0
  nextPtr := 0

end QosOlsr.Gateways
