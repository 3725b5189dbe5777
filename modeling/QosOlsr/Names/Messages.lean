import QosOlsr.Clock
import QosOlsr.Library.BoundedReads
import QosOlsr.Packet

/-!
# The messages of the name service

`nameservice.c` announces names, forwarders, services and MAC addresses as
records of a message, each name padded to a multiple of four bytes, and files
received records by type and originator.  Addresses count from the start of the
message; a read at or above the limit makes the function fail.
-/

namespace QosOlsr.Names

open Library

/-! ## Entries -/

inductive NameType where
  | host
  | forwarder
  | service
  | latlon
  | macaddr
  deriving DecidableEq, Repr

def NameType.code : NameType → Nat
  | .host => 0
  | .forwarder => 1
  | .service => 2
  | .latlon => 3
  | .macaddr => 4

/-- The cases of the `switch` in `update_name_entry`. -/
def NameType.ofCode : Nat → Option NameType
  | 0 => some .host
  | 1 => some .forwarder
  | 2 => some .service
  | 3 => some .latlon
  | 4 => some .macaddr
  | _ => none

@[simp]
theorem NameType.ofCode_code (type : NameType) : NameType.ofCode type.code = some type := by
  cases type <;> rfl

theorem NameType.code_lt (type : NameType) : type.code < 256 := by
  cases type <;> decide

/-- `union olsr_ip_addr` as it stands in a record, with room for both kinds of
addresses. -/
structure NameIp where
  bytes : List UInt8
  length_eq : bytes.length = 16
  deriving DecidableEq, Repr

section

variable (ver : IpVersion)

def ipequal (left right : NameIp) : Bool :=
  left.bytes.take ver.ipsize = right.bytes.take ver.ipsize

structure NameEntry where
  ip : NameIp
  type : NameType
  len : Nat
  name : List UInt8
  deriving DecidableEq, Repr

/-- `struct db_entry`: what an originator announces, with the time and the
jitter that its timer was last set to. -/
structure DbEntry where
  originator : IpAddr ver
  dbTimer : UInt32 × UInt32
  names : List NameEntry
  deriving DecidableEq

structure NameTable where
  entries : List (DbEntry ver)
  changed : Bool
  deriving DecidableEq

/-- `name_list`, `forwarder_list`, `service_list`, `latlon_list` and
`mac_list`. -/
abbrev NameDb := NameType → NameTable ver

def maxName : Nat := 127

def nameProtocolVersion : Nat := 1

def sizeofName : Nat := 20

def sizeofNamemsg : Nat := 4

def sizeofPointer : Nat := 8

/-- `OLSR_NAMESVC_DB_JITTER` and `OLSR_LINK_LOSS_JITTER`. -/
def namesvcDbJitter : UInt32 := 5

@[inherit_doc namesvcDbJitter]
def linkLossJitter : UInt32 := 0

def bodyStart : Nat := 8 + ver.ipsize

end

/-! ## Announcing -/

def padding (len : Nat) : Nat := (4 - len % 4) % 4

def createPacket (entry : NameEntry) : List UInt8 :=
  u16Bytes entry.type.code ++ u16Bytes entry.len ++ entry.ip.bytes ++
    entry.name.take entry.len ++ List.replicate (padding entry.len) 0

/-- `my_names`, `my_forwarders`, `my_services` and `my_macs`. -/
structure Announcement where
  names : List NameEntry
  forwarders : List NameEntry
  services : List NameEntry
  macs : List NameEntry
  deriving DecidableEq, Repr

def Announcement.entries (own : Announcement) : List NameEntry :=
  own.names ++ own.forwarders ++ own.services ++ own.macs

def sendBuffer : Nat := 10240

/-- The body that `encap_namemsg` writes, `latlon` being the entry of the
position if there is one. -/
def namemsgBytes (own : Announcement) (latlon : Option NameEntry) : List UInt8 :=
  let entries := own.entries ++ latlon.toList
  u16Bytes nameProtocolVersion ++ u16Bytes entries.length ++ entries.flatMap createPacket

/-- `encap_namemsg`.  It assumes that there is enough space in the buffer; what
happens otherwise is undefined. -/
def encapNamemsg (ver : IpVersion) (own : Announcement)
    (latlon : Option NameEntry) : Option (List UInt8) :=
  if bodyStart ver + (namemsgBytes own latlon).length ≤ sendBuffer then
    some (namemsgBytes own latlon)
  else
    none

/-! ## Checking -/

/-- The matchers of the C library, for the suffix of this host, and whether
`OLSR_PRINTF(4, …)` prints. -/
structure NameConfig where
  isServiceWellformed : List UInt8 → Bool
  isMacWellformed : List UInt8 → Bool
  isLatlonWellformed : List UInt8 → Bool
  debug : Bool

def isNameChar (char : UInt8) : Bool := (48 ≤ char && char ≤ 57) || (65 ≤ char && char ≤ 90) ||
    (97 ≤ char && char ≤ 122) || char = 95 || char = 46 || char = 45

def isNameWellformed (name : List UInt8) : Bool := !name.isEmpty && name.all isNameChar

/-- The first check of `decap_namemsg`. -/
def isWellformed (cfg : NameConfig) (type : NameType) (name : List UInt8) : Bool :=
  match type with
  | .host => isNameWellformed name
  | .forwarder => true
  | .service => cfg.isServiceWellformed name
  | .latlon => cfg.isLatlonWellformed name
  | .macaddr => cfg.isMacWellformed name

def isQuoted (name : List UInt8) : Bool := name.contains 92 || name.contains 39

/-- Whether `decap_namemsg` reads the name up to its terminator. -/
def isScanned (cfg : NameConfig) (type : NameType) (len : Nat) : Bool :=
  cfg.debug || type ≠ .forwarder || len ≤ maxName

section Filing

variable {ver : IpVersion}

def scanName (cfg : NameConfig) (mem : Memory) (limit pos : Nat)
    (type : NameType) (len : Nat) : Option (List UInt8) :=
  if isScanned cfg type len then
    cString mem limit (pos + sizeofName)
  else
    some []

/-- What `decap_namemsg` accepts of the record at `pos`: `some none` if the
record is ignored.  The address lies in front of the name, which has been read
by then. -/
def decapRecord (cfg : NameConfig) (mem : Memory) (limit pos : Nat)
    (type : NameType) : Option (Option NameEntry) := do
  let len ← readU16Below mem limit (pos + 2)
  let name ← scanName cfg mem limit pos type len
  if !isWellformed cfg type name then
    return none
  else if maxName < len || name.length ≠ len || isQuoted name then
    return none
  else
    return some
      { ip := ⟨readBytes mem (pos + 4) 16, readBytes_length mem _ 16⟩
        type := type
        len := len
        name := name }

/-- The loop of `decap_namemsg` over the entries that are already saved, if it
ends the function. -/
def savedBefore (ver : IpVersion) (entry : NameEntry) :
    List NameEntry → Option (List NameEntry × Bool)
  | [] => none
  | saved :: rest =>
    if (entry.type = .host ∨ entry.type = .service) ∧
        saved.name.take entry.len = entry.name.take entry.len then
      some (saved :: rest, false)
    else if entry.type = .forwarder ∧ ipequal ver saved.ip entry.ip then
      some (saved :: rest, false)
    else if entry.type = .latlon then
      let renamed :=
        decide (saved.name.take entry.len ≠ entry.name.take entry.len)
      let moved := !ipequal ver saved.ip entry.ip
      some
        ({ saved with
            name := if renamed then entry.name else saved.name
            ip := if moved then entry.ip else saved.ip } :: rest,
          renamed || moved)
    else
      (savedBefore ver entry rest).map fun found =>
        (saved :: found.1, found.2)

/-- The end of `decap_namemsg`: the list with the entry, and whether it has
changed. -/
def saveEntry (ver : IpVersion) (entry : NameEntry)
    (names : List NameEntry) : List NameEntry × Bool :=
  match savedBefore ver entry names with
  | some found => found
  | none => (entry :: names, true)

/-- `decap_namemsg` for a record of which `accepted` was accepted. -/
def decapNamemsg (ver : IpVersion) (accepted : Option NameEntry)
    (names : List NameEntry) : List NameEntry × Bool :=
  match accepted with
  | none => (names, false)
  | some entry => saveEntry ver entry names

def insertNewNameInList (originator : IpAddr ver) (vtime : UInt32) (accepted : Option NameEntry)
    (table : NameTable ver) : NameTable ver :=
  if table.entries.any fun entry => entry.originator = originator then
    { entries := table.entries.map fun entry =>
        if entry.originator = originator then
          { entry with
            names := (decapNamemsg ver accepted entry.names).1
            dbTimer := (vtime, namesvcDbJitter) }
        else
          entry
      changed := table.changed || table.entries.any fun entry =>
          entry.originator = originator &&
            (decapNamemsg ver accepted entry.names).2 }
  else
    { entries := table.entries ++
        [{ originator := originator
           dbTimer := (vtime, linkLossJitter)
           names := (decapNamemsg ver accepted []).1 }]
      changed := table.changed || (decapNamemsg ver accepted []).2 }

/-- The `switch` of `update_name_entry` for the record at `pos`. -/
def fileRecord (cfg : NameConfig) (mem : Memory) (limit : Nat)
    (originator : IpAddr ver) (vtime : UInt32) (pos : Nat)
    (db : NameDb ver) : Option (NameDb ver) := do
  let code ← readU16Below mem limit pos
  match NameType.ofCode code with
  | none => return db
  | some type =>
    let accepted ← decapRecord cfg mem limit pos type
    return Function.update db type (insertNewNameInList originator vtime accepted (db type))

/-- How far the pointer moves over a name.  With a length of 0 the sum is that
of 1 and -1. -/
def paddedLength (len : Nat) : Nat := if len = 0 then 0 else 1 + ((len - 1) ||| 3)

def fileRecords (cfg : NameConfig) (mem : Memory) (limit endPos : Nat) (originator : IpAddr ver)
    (vtime : UInt32) : Nat → Nat → NameDb ver → Option (NameDb ver)
  | 0, _, db => some db
  | count + 1, pos, db =>
    if pos < endPos then do
      let db' ← fileRecord cfg mem limit originator vtime pos db
      let len ← readU16Below mem limit (pos + 2)
      fileRecords cfg mem limit endPos originator vtime count
        (pos + sizeofName + paddedLength len) db'
    else
      some db

/-- `end_pos`: the size is that of the message, the place it is added to lies
in its body. -/
def endPosition (ver : IpVersion) (msgSize : Nat) : Nat :=
  bodyStart ver + sizeofNamemsg + msgSize - sizeofPointer

def updateNameEntry (cfg : NameConfig) (mem : Memory) (limit : Nat)
    (originator : IpAddr ver) (msgSize : Nat) (vtime : UInt32)
    (db : NameDb ver) : Option (NameDb ver) := do
  let version ← readU16Below mem limit (bodyStart ver)
  if version ≠ nameProtocolVersion then
    return db
  else
    let nrNames ← readU16Below mem limit (bodyStart ver + 2)
    fileRecords cfg mem limit (endPosition ver msgSize)
      originator vtime nrNames (bodyStart ver + sizeofNamemsg) db

/-- What `olsr_parser` has to know: whether the plugin is configured, the main
address, and whether the neighbour that sent the message is symmetric. -/
structure NameNode (ver : IpVersion) where
  configured : Bool
  mainAddr : IpAddr ver
  fromSymNeighbor : Bool

def headerOriginator (ver : IpVersion) (mem : Memory) : IpAddr ver :=
  ⟨readBytes mem 4 ver.ipsize, readBytes_length mem 4 ver.ipsize⟩

def olsrParser (cfg : NameConfig) (node : NameNode ver) (mem : Memory) (limit : Nat)
    (db : NameDb ver) : Option (Bool × NameDb ver) :=
  if !node.configured then
    some (false, db)
  else if limit < bodyStart ver then
    none
  else
    let originator := headerOriginator ver mem
    if originator = node.mainAddr || !node.fromSymNeighbor then
      some (false, db)
    else
      (updateNameEntry cfg mem limit originator (readU16 mem 2)
        (meToReltime (mem 1)) db).map fun db' => (true, db')

end Filing

end QosOlsr.Names
