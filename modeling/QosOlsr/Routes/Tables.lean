import QosOlsr.MidSet
import QosOlsr.Tc.Prefixes

/-!
# Who inserts into the prefix trees

`tc_set.c`, `mid_set.c` and `hna_set.c` together.  A vertex inserts its own
address, a registered alias its address and an announced network itself into
the prefix tree of the originator, and each deletes its prefix when it goes.
-/

namespace QosOlsr.Routes

open Library Lsdb

section

variable (ver : IpVersion)

/-- `struct hna_entry` with the prefixes of its networks, newest first. -/
structure HnaEntry where
  gatewayAddr : IpAddr ver
  networks : List (IpNetwork ver)

structure RouteState where
  db : Database ver
  mid : MidState (IpAddr ver)
  hnaSet : List (HnaEntry ver)
  limit : Ptr

structure TcAnnouncement where
  originator : IpAddr ver
  ansn : Nat
  lowerBorder : UInt8
  upperBorder : UInt8
  neighbors : List (IpAddr ver)

/-- What an arriving TC message finds; `drops` is what the windows of sequence
numbers say about a message of a known originator. -/
structure TcContext where
  symmetric : Bool
  drops : Bool
  olsrValidateAddress : IpAddr ver → Bool

structure HnaContext where
  symmetric : Bool
  isSmartGateway : IpNetwork ver → Bool
  isOwnInterface : IpAddr ver → Bool
  hnaEntries : List (IpNetwork ver)

end

variable {ver : IpVersion}

section Config

-- `olsr_cnf->maxplen`
variable (maxplen : Nat)

def insertRoute (dst : IpNetwork ver) (originator : IpAddr ver)
    (origin : RtOrigin) (st : RouteState ver) :
    Option (RouteState ver) := do
  let db ← olsrInsertRoutingTable maxplen st.db dst originator origin (freshBlocks st.limit)
  return { st with db := db, limit := st.limit + 2 }

def deleteRoute (originator : IpAddr ver) (st : RouteState ver)
    (dst : IpNetwork ver) : Option (RouteState ver) := do
  let db ← olsrDeleteRoutingTable maxplen st.db dst originator
  return { st with db := db }

def hostPrefix (adr : IpAddr ver) : IpNetwork ver := ⟨adr, maxplen⟩

/-! ## Aliases -/

/-- The prefixes of aliases that `mid_set.c` is about to free. -/
def deleteAliasRoutes (mainAddr : IpAddr ver) (aliases : List (IpAddr ver))
    (st : RouteState ver) : Option (RouteState ver) :=
  (aliases.map (hostPrefix maxplen)).foldlM (deleteRoute maxplen mainAddr) st

/-- `olsr_delete_mid_entry` and, without an entry, nothing:
`olsr_cleanup_mid`. -/
def olsrCleanupMid (orig : IpAddr ver) (st : RouteState ver) :
    Option (RouteState ver) := do
  let st ←
    deleteAliasRoutes maxplen orig ((midLookupAliases st.mid.mids orig).map MidAddress.aliasAddr) st
  return { st with
      mid :=
        { st.mid with mids := QosOlsr.olsrCleanupMid st.mid.mids orig } }

def insertMidTuple (mAddr aliasAddr : IpAddr ver) (st : RouteState ver) : Option (RouteState ver) :=
  if midLookupMainAddr st.mid.mids aliasAddr = some mAddr then
    some st
  else do
    let st ← insertRoute maxplen (hostPrefix maxplen aliasAddr) mAddr .mid st
    return { st with mid := QosOlsr.insertMidTuple mAddr aliasAddr st.mid }

section

variable (ctx : MidContext (IpAddr ver))

def insertMidAlias (mainAdd aliasAddr : IpAddr ver)
    (st : RouteState ver) : Option (RouteState ver) :=
  if ¬ ctx.olsrValidateAddress aliasAddr then
    some st
  else if aliasAddr ∈ st.mid.neighbors then do
    let st ← olsrCleanupMid maxplen aliasAddr st
    insertMidTuple maxplen mainAdd aliasAddr
      { st with
        mid :=
          { st.mid with
            neighbors := renameNeighbor mainAdd aliasAddr st.mid.neighbors } }
  else
    insertMidTuple maxplen mainAdd aliasAddr st

/-- One round of the loop of `olsr_input_mid`.  An alias that is registered,
for whomever, is inserted once more. -/
def inputMidAlias (origaddr : IpAddr ver) (st : RouteState ver)
    (aliasAddr : IpAddr ver) : Option (RouteState ver) :=
  if ctx.isOwnInterface aliasAddr then
    some st
  else if midLookupMainAddr st.mid.mids aliasAddr = none then
    insertMidAlias maxplen ctx origaddr aliasAddr st
  else
    insertRoute maxplen (hostPrefix maxplen aliasAddr) origaddr .mid st

def prunedAliases (nowTimes : UInt32) (msg : MidAnnouncement (IpAddr ver))
    (set : MidSet (IpAddr ver)) : List (IpAddr ver) :=
  ((midLookupAliases set msg.midOrigaddr).filter fun registered =>
      ¬ keepsAlias nowTimes msg.midAddr registered).map
    MidAddress.aliasAddr

def olsrPruneAliases (nowTimes : UInt32) (msg : MidAnnouncement (IpAddr ver))
    (st : RouteState ver) : Option (RouteState ver) := do
  let st ← deleteAliasRoutes maxplen msg.midOrigaddr (prunedAliases nowTimes msg st.mid.mids) st
  return { st with
      mid :=
        { st.mid with
          mids := QosOlsr.olsrPruneAliases nowTimes msg st.mid.mids } }

def olsrInputMid (symmetric : Bool)
    (msg : MidAnnouncement (IpAddr ver)) (st : RouteState ver) : Option (RouteState ver) :=
  if ¬ ctx.olsrValidateAddress msg.midOrigaddr ∨ ¬ symmetric then
    some st
  else do
    let st ← msg.midAddr.foldlM (inputMidAlias maxplen ctx msg.midOrigaddr) st
    olsrPruneAliases maxplen ctx.nowTimes msg st

end

/-! ## Announced networks -/

def olsrLookupHnaGw (hnaSet : List (HnaEntry ver)) (gw : IpAddr ver) : Option (HnaEntry ver) :=
  hnaSet.find? fun entry => entry.gatewayAddr = gw

/-- `olsr_add_hna_net` unless `olsr_lookup_hna_net` finds the network. -/
def addHnaNet (net : IpNetwork ver) (entry : HnaEntry ver) : HnaEntry ver :=
  if net ∈ entry.networks then
    entry
  else
    { entry with networks := net :: entry.networks }

def olsrUpdateHnaEntry (gw : IpAddr ver) (net : IpNetwork ver)
    (st : RouteState ver) : Option (RouteState ver) :=
  let hnaSet :=
    match olsrLookupHnaGw st.hnaSet gw with
    | some _ => st.hnaSet
    | none => ⟨gw, []⟩ :: st.hnaSet
  insertRoute maxplen net gw .hna
    { st with hnaSet := modifyKey HnaEntry.gatewayAddr gw (addHnaNet net) hnaSet }

/-- `olsr_delete_hna_net_entry`: a gateway without networks goes as well. -/
def olsrDeleteHnaNetEntry (gw : IpAddr ver) (st : RouteState ver)
    (net : IpNetwork ver) : Option (RouteState ver) := do
  let st ← deleteRoute maxplen gw st net
  return { st with
      hnaSet :=
        (modifyKey HnaEntry.gatewayAddr gw
          (fun entry =>
            { entry with networks := entry.networks.erase net })
          st.hnaSet).filter
          fun entry => ¬ (entry.gatewayAddr = gw ∧ entry.networks = []) }

def olsrCleanupHna (orig : IpAddr ver) (st : RouteState ver) : Option (RouteState ver) :=
  ((st.hnaSet.filter fun entry => entry.gatewayAddr = orig).flatMap HnaEntry.networks).foldlM
    (olsrDeleteHnaNetEntry maxplen orig) st

/-- One round of the loop of `olsr_input_hna`. -/
def inputHnaNetwork (ctx : HnaContext ver) (originator : IpAddr ver) (st : RouteState ver)
    (net : IpNetwork ver) : Option (RouteState ver) :=
  if ctx.isSmartGateway net then
    some st
  else if ctx.isOwnInterface net.network then
    some st
  else if net ∈ ctx.hnaEntries then
    some st
  else
    olsrUpdateHnaEntry maxplen originator net st

def olsrInputHna (ctx : HnaContext ver) (originator : IpAddr ver) (networks : List (IpNetwork ver))
    (st : RouteState ver) : Option (RouteState ver) :=
  if ¬ ctx.symmetric then
    some st
  else
    networks.foldlM (inputHnaNetwork maxplen ctx originator) st

/-! ## Vertices -/

def olsrTcUpdateEdge (ctx : TcContext ver) (tc : Ptr) (ansn : Nat) (st : RouteState ver)
    (neighbor : IpAddr ver) : Option (RouteState ver) :=
  match Lsdb.olsrLookupTcEdge st.db tc neighbor with
  | none =>
    if ctx.olsrValidateAddress neighbor then do
      let db ← olsrAddTcEdgeEntry st.db tc neighbor ansn st.limit
      return { st with db := db, limit := st.limit + 1 }
    else
      some st
  | some edge => do
    let value ← st.db.edges edge
    return { st with db := st.db.setEdge edge { value with ansn := ansn } }

/-- The borders of the advertised range, if the message sets them. -/
def tcBorders (msg : TcAnnouncement ver) : Option (IpAddr ver × IpAddr ver) :=
  if msg.neighbors = [] ∧ msg.lowerBorder = 0xff ∧ msg.upperBorder = 0xff then
    some (zeroAddr ver, onesAddr ver)
  else do
    let first ← msg.neighbors.head?
    let last ← msg.neighbors.getLast?
    olsrCalculateTcBorder msg.lowerBorder first msg.upperBorder last

/-- The end of `olsr_input_tc`: an empty TC with borders removes all that is
known about its originator. -/
def clearOriginator (originator : IpAddr ver) (tc : Ptr)
    (st : RouteState ver) : Option (RouteState ver) := do
  let st ← olsrCleanupMid maxplen originator st
  let st ← olsrCleanupHna maxplen originator st
  let db ← olsrDeleteTcEntry maxplen st.db tc
  return { st with db := db }

/-- `olsr_input_tc` once it has the vertex of the originator. -/
def processTc (ctx : TcContext ver) (msg : TcAnnouncement ver) (tc : Ptr) (st : RouteState ver) :
    Option (RouteState ver) := do
  let entry ← st.db.entries tc
  let noted := { st with db := st.db.setEntry tc { entry with ansn := msg.ansn } }
  let st ← msg.neighbors.foldlM (olsrTcUpdateEdge ctx tc msg.ansn) noted
  match tcBorders msg with
  | none => return st
  | some borders => do
    let db ← Lsdb.olsrDeleteRevokedTcEdges st.db tc msg.ansn borders.1 borders.2
    if msg.neighbors = [] then
      clearOriginator maxplen msg.originator tc { st with db := db }
    else
      return { st with db := db }

/-- `olsr_input_tc`.  Without a main address there is no vertex for a new
originator, and the message has no result. -/
def olsrInputTc (ctx : TcContext ver) (msg : TcAnnouncement ver)
    (st : RouteState ver) : Option (RouteState ver) :=
  if ¬ ctx.symmetric then
    some st
  else
    match olsrLookupTcEntry st.db msg.originator with
    | some tc =>
      if ctx.drops then
        some st
      else
        processTc maxplen ctx msg tc st
    | none => do
      let added ← olsrAddTcEntry maxplen st.db msg.originator (freshBlocks st.limit)
      let tc ← added.2
      processTc maxplen ctx msg tc { st with db := added.1, limit := st.limit + 1 }

/-! ## Runs -/

/-- Messages and expiries, and what happens to the neighbour table
meanwhile. -/
inductive RouteEvent (ver : IpVersion) where
  | inputTc (ctx : TcContext ver) (msg : TcAnnouncement ver)
  | inputMid
      (ctx : MidContext (IpAddr ver)) (symmetric : Bool)
      (msg : MidAnnouncement (IpAddr ver))
  | inputHna
      (ctx : HnaContext ver) (originator : IpAddr ver)
      (networks : List (IpNetwork ver))
  | expireTcEntry (adr : IpAddr ver)
  | expireTcEdgeGc (adr : IpAddr ver)
  | expireMidEntry (mainAddr : IpAddr ver)
  | expireHnaNetEntry (gw : IpAddr ver) (net : IpNetwork ver)
  | neighborTable (neighbors : List (IpAddr ver))

def routeStep (st : RouteState ver) : RouteEvent ver → Option (RouteState ver)
  | .inputTc ctx msg => olsrInputTc maxplen ctx msg st
  | .inputMid ctx symmetric msg => olsrInputMid maxplen ctx symmetric msg st
  | .inputHna ctx originator networks => olsrInputHna maxplen ctx originator networks st
  | .expireTcEntry adr => do
    let tc ← olsrLookupTcEntry st.db adr
    let db ← olsrDeleteTcEntry maxplen st.db tc
    return { st with db := db }
  | .expireTcEdgeGc adr => do
    let tc ← olsrLookupTcEntry st.db adr
    let db ← olsrDeleteOutdatedTcEdges st.db tc
    return { st with db := db }
  | .expireMidEntry mainAddr => olsrCleanupMid maxplen mainAddr st
  | .expireHnaNetEntry gw net => do
    let entry ← olsrLookupHnaGw st.hnaSet gw
    if net ∈ entry.networks then
      olsrDeleteHnaNetEntry maxplen gw st net
    else
      none
  | .neighborTable neighbors => some { st with mid := { st.mid with neighbors := neighbors } }

/-- The tables behind `olsr_init_tc`, `olsr_init_mid_set` and
`olsr_init_hna_set`. -/
def initialRoutes (mainAddr : IpAddr ver) : Option (RouteState ver) := do
  let added ← olsrAddTcEntry maxplen (Database.init mainAddr) mainAddr (freshBlocks 0)
  return ⟨added.1, ⟨MidSet.init _, []⟩, [], 1⟩

end Config

/-- Every vertex keeps the prefix of its own address, and those of the aliases
that are registered for it. -/
structure HostPrefixesKept (maxplen : Nat) (st : RouteState ver) : Prop where
  own : ∀ tc ∈ st.db.tcTree, ∀ entry, st.db.entries tc = some entry →
      (findPath st.db tc (hostPrefix maxplen entry.addr)).isSome
  aliases : ∀ tc ∈ st.db.tcTree, ∀ entry, st.db.entries tc = some entry →
      ∀ registered ∈ midLookupAliases st.mid.mids entry.addr,
        (findPath st.db tc (hostPrefix maxplen registered.aliasAddr)).isSome

end QosOlsr.Routes
