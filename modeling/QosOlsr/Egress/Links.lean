import QosOlsr.Gateways.Tables

/-!
# Egress links

The egress interfaces of a node with several gateways, and the default route for
the best of them in the table `smart_gw_offset_tables`.  The kernel is a list of
routes that only `olsr_new_netlink_route` changes, which always succeeds.
-/

namespace QosOlsr.Egress

open Library Gateways

/-- `struct egress_if_bw`; a network or gateway that is not set is absent. -/
structure EgressBw where
  requireNetwork : Bool
  requireGateway : Bool
  egressUk : Nat
  egressDk : Nat
  pathCost : Nat
  network : Option (IpAddr .inet × Nat)
  gateway : Option (IpAddr .inet)
  costs : Int
  deriving DecidableEq

/-- `struct sgw_egress_if`.  Names are only compared, so that numbers stand for
them. -/
structure EgressIf where
  name : Nat
  ifIndex : Int
  upCurrent : Bool
  upChanged : Bool
  bwPrevious : EgressBw
  bwCurrent : EgressBw
  bwCostsChanged : Bool
  bwNetworkChanged : Bool
  bwGatewayChanged : Bool
  bwChanged : Bool
  inEgressFile : Bool
  deriving DecidableEq

inductive RouteScope where
  | universe
  | link
  deriving DecidableEq

/-- The route in `struct sgw_route_info`, of the family `AF_INET` and the
protocol `RTPROT_STATIC`, without a source and with `del_similar` unset. -/
structure SgwRoute where
  rttable : Nat
  onlink : Bool
  scope : RouteScope
  ifIndex : Int
  metric : Nat
  gw : Option (IpAddr .inet)
  dst : Option (IpAddr .inet × Nat)
  blackhole : Bool
  deriving DecidableEq

structure SgwRouteInfo where
  active : Bool
  route : SgwRoute
  deriving DecidableEq

inductive ChangePhase where
  | startup
  | runtime
  | shutdown
  deriving DecidableEq

/-- The variables about the best egress link, and the routes of the kernel.  An
interface is known by its place in the list. -/
structure EgressState where
  interfaces : List EgressIf
  bestEgressLinkPrevious : Option Nat
  bestEgressLink : Option Nat
  bestEgressLinkRoute : SgwRouteInfo
  kernel : List SgwRoute

/-- What the operating system says about interfaces.  There is no interface with
an index that is not positive. -/
structure EgressWorld where
  indexToName : Int → Option Nat
  isInterfaceUp : Int → Bool
  up_pos : ∀ ifIndex, isInterfaceUp ifIndex = true → 0 < ifIndex

def ipv4Slash0Route : IpAddr .inet × Nat := (.v4 0 0 0 0, 0)

/-! ## Routes -/

/-- `olsr_new_netlink_route`: a new route replaces the one for the same
destination with the same metric. -/
def olsrNewNetlinkRoute (set : Bool) (route : SgwRoute) (kernel : List SgwRoute) : List SgwRoute :=
  if set then
    route :: kernel.filter fun other =>
      ¬ (other.rttable = route.rttable ∧ other.dst = route.dst ∧ other.metric = route.metric)
  else
    kernel.filter fun other => other ≠ route

/-- `programRoute`: the routes of the kernel, and the route with its flag. -/
def programRoute (world : EgressWorld) (add : Bool) (info : SgwRouteInfo)
    (kernel : List SgwRoute) : List SgwRoute × SgwRouteInfo :=
  if info.active = false then
    (kernel, info)
  else if world.isInterfaceUp info.route.ifIndex = false then
    (kernel, info)
  else
    (olsrNewNetlinkRoute add info.route kernel, { info with active := add })

def zeroRoute : SgwRoute where
  rttable := 0
  onlink := false
  scope := .universe
  ifIndex := 0
  metric := 0
  gw := none
  dst := none
  blackhole := false

def determineEgressLinkRoute (networkRoute : Bool) (ifIndex : Int) (gw : Option (IpAddr .inet))
    (dst : Option (IpAddr .inet × Nat)) (table : Nat) : SgwRouteInfo :=
  if ifIndex ≤ 0 then
    ⟨true,
      { zeroRoute with
        rttable := table
        onlink := true
        dst := dst
        blackhole := true }⟩
  else
    match dst, gw with
    | some dst, none =>
      ⟨true,
        { zeroRoute with
          rttable := table
          onlink := !networkRoute
          scope := .link
          ifIndex := ifIndex
          dst := some dst }⟩
    | some dst, some gw =>
      ⟨true,
        { zeroRoute with
          rttable := table
          ifIndex := ifIndex
          gw := some gw
          dst := some dst }⟩
    | none, _ => ⟨false, zeroRoute⟩

/-! ## The best egress link -/

namespace ChangePhase

variable (phase : ChangePhase)

def addAllowed : Bool := phase = .startup || phase = .runtime

def addForced : Bool := phase = .startup

def delAllowed : Bool := phase = .runtime || phase = .shutdown

def delForced : Bool := phase = .shutdown

def forced : Bool := phase = .startup || phase = .shutdown

end ChangePhase

section Calls

variable (offsetTables : Nat) (world : EgressWorld)

/-- One round of the loop of `determineBestEgressLink`. -/
def betterEgress (best candidate : EgressIf × Nat) : EgressIf × Nat :=
  if candidate.1.upCurrent &&
      (decide (candidate.1.bwCurrent.costs < best.1.bwCurrent.costs) &&
        world.isInterfaceUp candidate.1.ifIndex) then
    candidate
  else
    best

def bestEgress : List EgressIf → Option Nat
  | [] => none
  | first :: rest =>
    let best := (rest.zipIdx 1).foldl (betterEgress world) (first, 0)
    if best.1.upCurrent = false ∨ best.1.bwCurrent.costs = int64Max then
      none
    else
      some best.2

def EgressState.bestIf (st : EgressState) : Option EgressIf :=
  st.bestEgressLink.bind fun best => st.interfaces[best]?

variable (phase : ChangePhase) (st : EgressState)

/-- `determineBestEgressLink`, and whether something has changed. -/
def determineBestEgressLink : EgressState × Bool :=
  let next :=
    { st with
      bestEgressLinkPrevious := st.bestEgressLink
      bestEgressLink :=
        if phase = .shutdown then none
        else bestEgress world st.interfaces }
  (next, next.bestEgressLinkPrevious ≠ next.bestEgressLink ||
      next.bestIf.any fun best => best.upChanged || best.bwChanged)

/-- The route that `configureBestEgressLinkRoute` determines. -/
def bestRoute (best : Option EgressIf) : SgwRouteInfo :=
  determineEgressLinkRoute false (best.elim 0 EgressIf.ifIndex)
    (best.bind fun best => best.bwCurrent.gateway) (some ipv4Slash0Route)
    offsetTables

/-- The part of `configureBestEgressLinkRoute` that programs the routes. -/
def programBest (previous current : SgwRouteInfo)
    (kernel : List SgwRoute) : List SgwRoute × SgwRouteInfo :=
  let routeChanged := previous.active ≠ current.active || previous.route ≠ current.route
  let deleted :=
    if (routeChanged || phase.delForced) && phase.delAllowed then
      (programRoute world false previous kernel).1
    else
      kernel
  if (routeChanged || phase.addForced) && phase.addAllowed then
    programRoute world true current deleted
  else
    (deleted, current)

def configureBestEgressLinkRoute : EgressState :=
  if st.bestEgressLinkPrevious = none ∧ st.bestEgressLink = none ∧ phase.forced = false then
    st
  else
    let programmed :=
      programBest world phase st.bestEgressLinkRoute (bestRoute offsetTables st.bestIf) st.kernel
    { st with
      bestEgressLinkRoute := programmed.2
      kernel := programmed.1 }

def clearChanged : EgressState :=
  { st with
    interfaces := st.interfaces.map fun egress =>
      { egress with
        upChanged := false
        bwCostsChanged := false
        bwNetworkChanged := false
        bwGatewayChanged := false
        bwChanged := false } }

/-- The part of `doRoutesMultiGw` for the best egress link. -/
def processEgress : EgressState :=
  let determined := determineBestEgressLink world phase st
  if determined.2 || phase.forced then
    configureBestEgressLinkRoute offsetTables world phase determined.1
  else
    determined.1

def doRoutesMultiGw (egressChanged : Bool) (phase : ChangePhase) (st : EgressState) : EgressState :=
  let processed :=
    if egressChanged || phase.forced then
      processEgress offsetTables world phase st
    else
      st
  if egressChanged then clearChanged processed else processed

end Calls

section Changes

variable (cfg : GwConfig) (up : Bool)

def weighCosts (bw : EgressBw) : Int :=
  if up then gwCostsWeigh cfg bw.pathCost bw.egressUk bw.egressDk
  else int64Max

def egressBwCalculateCosts (bw : EgressBw) : EgressBw := { bw with costs := weighCosts cfg up bw }

def egressBwClear : EgressBw := egressBwCalculateCosts cfg up ⟨true, true, 0, 0, 0, none, none, 0⟩

def setUp (egress : EgressIf) : EgressIf :=
  let bw := egressBwCalculateCosts cfg up egress.bwCurrent
  { egress with
    upCurrent := up
    upChanged := true
    bwCurrent := bw
    bwCostsChanged := egress.bwCurrent.costs ≠ bw.costs }

structure EgressLine where
  name : Nat
  requireNetwork : Bool
  requireGateway : Bool
  uplink : Nat
  downlink : Nat
  pathCosts : Nat
  network : Option (IpAddr .inet × Nat)
  gateway : Option (IpAddr .inet)

def applyLine (line : EgressLine) (egress : EgressIf) : EgressIf :=
  { egress with
    bwCurrent :=
      if line.uplink = 0 ∨ line.downlink = 0 then
        egressBwClear cfg egress.upCurrent
      else
        egressBwCalculateCosts cfg egress.upCurrent
          ⟨line.requireNetwork, line.requireGateway, line.uplink,
            line.downlink, line.pathCosts, line.network, line.gateway, 0⟩
    inEgressFile := true }

def modifyNamed (name : Nat) (write : EgressIf → EgressIf) : List EgressIf → List EgressIf
  | [] => []
  | egress :: rest =>
    if egress.name = name then write egress :: rest
    else egress :: modifyNamed name write rest

def readEgressFileClear (egress : EgressIf) : EgressIf :=
  { egress with
    bwPrevious := egress.bwCurrent
    bwCostsChanged := false
    bwNetworkChanged := false
    bwGatewayChanged := false
    bwChanged := false
    inEgressFile := false }

/-- The end of `readEgressFile`: absent interfaces are cleared, and the flags
say what has changed. -/
def markChanged (egress : EgressIf) : EgressIf :=
  let bw :=
    if egress.inEgressFile then egress.bwCurrent
    else egressBwClear cfg egress.upCurrent
  let previous := egress.bwPrevious
  let costs := previous.costs ≠ bw.costs
  let network := previous.requireNetwork ≠ bw.requireNetwork ∨ previous.network ≠ bw.network
  let gateway := previous.requireGateway ≠ bw.requireGateway ∨ previous.gateway ≠ bw.gateway
  { egress with
    bwCurrent := bw
    bwCostsChanged := costs
    bwNetworkChanged := network
    bwGatewayChanged := gateway
    bwChanged := costs ∨ network ∨ gateway }

/-- `readEgressFile`, on the lines that are valid; without a file there are
none. -/
def readEgressFile (lines : List EgressLine) (interfaces : List EgressIf) : List EgressIf :=
  (lines.foldl
    (fun interfaces line =>
      modifyNamed line.name (applyLine cfg line) interfaces)
    (interfaces.map readEgressFileClear)).map (markChanged cfg)

end Changes

/-! ## The system -/

/-- What happens to the egress links: an interface is reported up or down, the
egress file has changed, or something else calls `doRoutesMultiGw`. -/
inductive EgressEvent where
  | interfaceUp (ifIndex : Int)
  | interfaceDown (ifIndex : Int)
  | file (lines : List EgressLine)
  | routes (egressChanged : Bool)

section System

variable (cfg : GwConfig) (offsetTables : Nat)

/-- `findEgressInterfaceByIndex`, as a place in the list. -/
def findByIndex (ifIndex : Int) (interfaces : List EgressIf) : Option Nat :=
  if 0 < ifIndex then
    interfaces.findIdx? fun egress => egress.ifIndex = ifIndex
  else
    none

/-- `findEgressInterface`, as a place in the list. -/
def findByName (name : Nat) (interfaces : List EgressIf) : Option Nat :=
  interfaces.findIdx? fun egress => egress.name = name

/-- What an event does to the interfaces, and whether `doRoutesMultiGw` is
called with an egress change, or at all. -/
def changeInterfaces (world : EgressWorld) (event : EgressEvent)
    (interfaces : List EgressIf) : List EgressIf × Option Bool :=
  match event with
  | .interfaceUp ifIndex =>
    match (world.indexToName ifIndex).bind (fun name => findByName name interfaces) with
    | none => (interfaces, none)
    | some place =>
      if (interfaces[place]?).any EgressIf.upCurrent then
        (interfaces.modify place fun egress =>
          { egress with ifIndex := ifIndex }, none)
      else
        (interfaces.modify place fun egress =>
          setUp cfg true { egress with ifIndex := ifIndex }, some true)
  | .interfaceDown ifIndex =>
    match findByIndex ifIndex interfaces with
    | none => (interfaces, none)
    | some place =>
      if (interfaces[place]?).any EgressIf.upCurrent then
        (interfaces.modify place (setUp cfg false), some true)
      else
        (interfaces, none)
  | .file lines =>
    let read := readEgressFile cfg lines interfaces
    (read, if read.any EgressIf.bwChanged then some true else none)
  | .routes egressChanged => (interfaces, some egressChanged)

def egressStep (st : EgressState) (event : EgressWorld × EgressEvent) : Option EgressState :=
  let changed := changeInterfaces cfg event.1 event.2 st.interfaces
  let next := { st with interfaces := changed.1 }
  match changed.2 with
  | none => some next
  | some egressChanged => some (doRoutesMultiGw offsetTables event.1 egressChanged .runtime next)

/-- An interface after `olsr_init_gateways`. -/
def initEgressIf (name : Nat) (ifIndex : Int) (up : Bool) : EgressIf where
  name := name
  ifIndex := ifIndex
  upCurrent := up
  upChanged := false
  bwPrevious := egressBwClear cfg up
  bwCurrent := egressBwClear cfg up
  bwCostsChanged := false
  bwNetworkChanged := false
  bwGatewayChanged := false
  bwChanged := false
  inEgressFile := false

/-- The state before `doRoutesMultiGw` is called in the phase `STARTUP`: the
egress file has been read. -/
def initEgress (interfaces : List (Nat × Int × Bool)) (lines : List EgressLine) : EgressState where
  interfaces := readEgressFile cfg lines
      (interfaces.map fun egress =>
        initEgressIf cfg egress.1 egress.2.1 egress.2.2)
  bestEgressLinkPrevious := none
  bestEgressLink := none
  bestEgressLinkRoute := ⟨false, zeroRoute⟩
  kernel := []

/-- The state after the call in the phase `STARTUP`. -/
def startEgress (world : EgressWorld) (interfaces : List (Nat × Int × Bool))
    (lines : List EgressLine) : EgressState :=
  doRoutesMultiGw offsetTables world true .startup (initEgress cfg interfaces lines)

end System

end QosOlsr.Egress
