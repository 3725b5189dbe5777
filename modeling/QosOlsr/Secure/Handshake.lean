import QosOlsr.Clock
import QosOlsr.Library.Keyed
import QosOlsr.Library.Runs

/-!
# The handshake of the secure plugin

`olsrd_secure.c` signs every packet with a key that all hosts share, and lets a
packet pass only if its timestamp fits the offset that was agreed with its
originator in a handshake of three messages.
-/

namespace QosOlsr.Secure

open Library

abbrev Addr := UInt32

/-! ## Messages -/

structure Header where
  msgtype : UInt8
  vtime : UInt8
  msgsize : UInt16
  originator : Addr
  ttl : UInt8
  hopcnt : UInt8
  seqno : UInt16
  deriving DecidableEq, Repr

/-- `struct challengemsg` up to its signature. -/
structure ChallengeMsg where
  header : Header
  destination : Addr
  challenge : UInt32
  deriving DecidableEq, Repr

section

variable (Sig : Type)

/-- `struct c_respmsg` up to its signature. -/
structure CRespMsg where
  header : Header
  destination : Addr
  challenge : UInt32
  timestamp : UInt32
  resSig : Sig
  deriving DecidableEq, Repr

/-- `struct r_respmsg` up to its signature. -/
structure RRespMsg where
  header : Header
  destination : Addr
  timestamp : UInt32
  resSig : Sig
  deriving DecidableEq, Repr

/-- `struct s_olsrmsg` up to its signature. -/
structure SOlsrMsg where
  header : Header
  type : UInt8
  algorithm : UInt8
  reserved : UInt16
  timestamp : UInt32
  deriving DecidableEq, Repr

inductive SignedText where
  | challenge (msg : ChallengeMsg)
  | cres (msg : CRespMsg Sig)
  | rres (msg : RRespMsg Sig)
  | packet (body : List UInt8) (msg : SOlsrMsg)
  deriving DecidableEq, Repr

inductive AuthMsg where
  | challenge (msg : ChallengeMsg) (signature : Sig)
  | cres (msg : CRespMsg Sig) (signature : Sig)
  | rres (msg : RRespMsg Sig) (signature : Sig)
  deriving DecidableEq, Repr

/-- A packet: what is in front of the signature message, and that message. -/
structure SignedPacket where
  body : List UInt8
  msg : SOlsrMsg
  signature : Sig
  deriving DecidableEq, Repr

/-- `TYPE_CHALLENGE`, `TYPE_CRESPONSE`, `TYPE_RRESPONSE` and `MESSAGE_TYPE`. -/
def typeChallenge : UInt8 := 11

@[inherit_doc typeChallenge]
def typeCresponse : UInt8 := 12

@[inherit_doc typeChallenge]
def typeRresponse : UInt8 := 13

@[inherit_doc typeChallenge]
def messageType : UInt8 := 10

/-- The sizes of the four structures, with a `time_t` of 64 bits and the
signatures of MD5. -/
def sizeofChallengemsg : UInt16 := 36

@[inherit_doc sizeofChallengemsg]
def sizeofCRespmsg : UInt16 := 64

@[inherit_doc sizeofChallengemsg]
def sizeofRRespmsg : UInt16 := 56

@[inherit_doc sizeofChallengemsg]
def sizeofSOlsrmsg : UInt16 := 48

def oneChecksum : UInt8 := 1

/-- `UPPER_DIFF` and `LOWER_DIFF`. -/
def upperDiff : Int := 3

@[inherit_doc upperDiff]
def lowerDiff : Int := -3

/-- `TIMESTAMP_HOLD_TIME` and `EXCHANGE_HOLD_TIME`, in milliseconds. -/
def timestampHoldTime : UInt32 := 30000

@[inherit_doc timestampHoldTime]
def exchangeHoldTime : UInt32 := 5000

structure Stamp where
  addr : Addr
  diff : Int
  challenge : UInt32
  validated : UInt8
  valtime : UInt32
  conftime : UInt32
  deriving DecidableEq, Repr

/-- The checksums, the main address and the addresses of the interfaces. -/
structure SecureConfig where
  /-- The checksum of a text and the key. -/
  keyed : SignedText Sig → Sig
  /-- The checksum of a challenge and an address. -/
  digest : UInt32 → Addr → Sig
  mainAddr : Addr
  ifWithaddr : Addr → Bool

/-- `now` is the time of the last poll, `nowTimes` that of the scheduler.
`sent` are the messages that were sent and `passed` the originators of the
packets that were let through, the latest first. -/
structure SecureState where
  now : Int
  nowTimes : UInt32
  msgSeqno : UInt16
  timestamps : List Stamp
  sent : List (AuthMsg Sig)
  passed : List Addr
  deriving DecidableEq, Repr

end

/-- What an event does not determine: the random challenge that it may send, and
what `malloc` may return. -/
structure Choices where
  challenge : UInt32
  fresh : Stamp
  deriving DecidableEq, Repr

def toInt (value : Int) : Int := value.bmod (2 ^ 32)

section Functions

variable {Sig : Type}

def securePluginInit : SecureState Sig where
  now := 0
  nowTimes := 0
  msgSeqno := 0
  timestamps := []
  sent := []
  passed := []

section

variable (st : SecureState Sig)

def lookupTimestampEntry (adr : Addr) : Option Stamp :=
  st.timestamps.find? fun entry => entry.addr = adr

def SecureState.writeEntry (adr : Addr) (write : Stamp → Stamp) : SecureState Sig :=
  { st with timestamps := modifyKey Stamp.addr adr write st.timestamps }

def SecureState.queue (entry : Stamp) : SecureState Sig :=
  { st with timestamps := entry :: st.timestamps }

/-- `net_outbuffer_push` and `net_output`; the message took a number. -/
def SecureState.output (message : AuthMsg Sig) : SecureState Sig :=
  { st with
    sent := message :: st.sent
    msgSeqno := st.msgSeqno + 1 }

variable (cfg : SecureConfig Sig)

def ownHeader (st : SecureState Sig) (msgtype : UInt8) (msgsize : UInt16) : Header where
  msgtype := msgtype
  vtime := 0
  msgsize := msgsize
  originator := cfg.mainAddr
  ttl := 1
  hopcnt := 0
  seqno := st.msgSeqno

def sendChallenge (choices : Choices) (st : SecureState Sig) (newHost : Addr) : SecureState Sig :=
  let msg : ChallengeMsg :=
    { header := ownHeader cfg st typeChallenge sizeofChallengemsg
      destination := newHost
      challenge := choices.challenge }
  (st.output (.challenge msg (cfg.keyed (.challenge msg)))).queue
    { addr := newHost
      diff := 0
      challenge := choices.challenge
      validated := 0
      valtime := choices.fresh.valtime
      conftime := st.nowTimes + exchangeHoldTime }

def sendCres (choices : Choices) (st : SecureState Sig)
    (receiver sender : Addr) (chalIn : UInt32) : SecureState Sig :=
  let msg : CRespMsg Sig :=
    { header := ownHeader cfg st typeCresponse sizeofCRespmsg
      destination := receiver
      challenge := choices.challenge
      timestamp := UInt32.ofInt st.now
      resSig := cfg.digest chalIn sender }
  (st.writeEntry receiver fun entry =>
    { entry with challenge := choices.challenge }).output (.cres msg (cfg.keyed (.cres msg)))

def sendRres (st : SecureState Sig) (receiver sender : Addr) (chalIn : UInt32) : SecureState Sig :=
  let msg : RRespMsg Sig :=
    { header := ownHeader cfg st typeRresponse sizeofRRespmsg
      destination := receiver
      timestamp := UInt32.ofInt st.now
      resSig := cfg.digest chalIn sender }
  st.output (.rres msg (cfg.keyed (.rres msg)))

/-- `timeout_timestamps`, at the time `tvSec`. -/
def timeoutTimestamps (tvSec : Int) : SecureState Sig :=
  { st with
    now := tvSec
    timestamps := st.timestamps.filter fun entry =>
      !(olsrIsTimedOut st.nowTimes entry.valtime && olsrIsTimedOut st.nowTimes entry.conftime) }

end

/-! ## The messages of the handshake -/

/-- What `parse_cres` and `parse_rres` read of their messages. -/
structure Answer (Sig : Type) where
  text : SignedText Sig
  signature : Sig
  originator : Addr
  destination : Addr
  timestamp : UInt32
  resSig : Sig

def CRespMsg.answer (msg : CRespMsg Sig) (signature : Sig) : Answer Sig where
  text := .cres msg
  signature := signature
  originator := msg.header.originator
  destination := msg.destination
  timestamp := msg.timestamp
  resSig := msg.resSig

def RRespMsg.answer (msg : RRespMsg Sig) (signature : Sig) : Answer Sig where
  text := .rres msg
  signature := signature
  originator := msg.header.originator
  destination := msg.destination
  timestamp := msg.timestamp
  resSig := msg.resSig

def Stamp.answered (st : SecureState Sig) (answer : Answer Sig) (entry : Stamp) : Stamp :=
  { entry with
    challenge := 0
    validated := 1
    diff := toInt (st.now - answer.timestamp.toNat)
    valtime := st.nowTimes + timestampHoldTime }

variable [DecidableEq Sig]

section

variable (cfg : SecureConfig Sig) (st : SecureState Sig)

/-- The checks that `parse_cres` and `parse_rres` make. -/
def answerAccepted (answer : Answer Sig) : Bool :=
  cfg.ifWithaddr answer.destination && cfg.keyed answer.text = answer.signature &&
    match lookupTimestampEntry st answer.originator with
    | none => false
    | some entry => answer.resSig = cfg.digest entry.challenge answer.originator

/-- What `parse_cres` and `parse_rres` have in common. -/
def parseAnswer (answer : Answer Sig) : Bool × SecureState Sig :=
  if answerAccepted cfg st answer then
    (true, st.writeEntry answer.originator (Stamp.answered st answer))
  else
    (false, st)

def parseCres (msg : CRespMsg Sig) (signature : Sig) : Bool × SecureState Sig :=
  let parsed := parseAnswer cfg st (msg.answer signature)
  if parsed.1 then
    (true, sendRres cfg parsed.2 msg.header.originator msg.destination msg.challenge)
  else
    parsed

def parseRres (msg : RRespMsg Sig) (signature : Sig) : Bool × SecureState Sig :=
  parseAnswer cfg st (msg.answer signature)

variable (choices : Choices) (st : SecureState Sig)

/-- The end of `parse_challenge`, where the record exists. -/
def answerChallenge (msg : ChallengeMsg) (signature : Sig) : Bool × SecureState Sig :=
  if cfg.keyed (.challenge msg) = signature then
    (true, sendCres cfg choices
        (st.writeEntry msg.header.originator fun entry =>
          { entry with
            diff := 0
            validated := 0
            conftime := st.nowTimes + exchangeHoldTime })
        msg.header.originator msg.destination msg.challenge)
  else
    (false, st)

/-- `parse_challenge`: a record that is missing is queued before the signature
is looked at, with what `malloc` returned. -/
def parseChallenge (msg : ChallengeMsg) (signature : Sig) : Bool × SecureState Sig :=
  if cfg.ifWithaddr msg.destination then
    match lookupTimestampEntry st msg.header.originator with
    | none =>
      answerChallenge cfg choices
        (st.queue { choices.fresh with addr := msg.header.originator })
        msg signature
    | some entry =>
      if olsrIsTimedOut st.nowTimes entry.conftime then
        answerChallenge cfg choices st msg signature
      else
        (false, st)
  else
    (false, st)

/-- `check_auth`, for a message of one of the three types. -/
def checkAuth
    : AuthMsg Sig → Bool × SecureState Sig
  | .challenge msg signature => parseChallenge cfg choices st msg signature
  | .cres msg signature => parseCres cfg st msg signature
  | .rres msg signature => parseRres cfg st msg signature

end

/-! ## Packets -/

def averagedDiff (age diff : Int) : Int := toInt (if age + diff = 0 then 0 else (age + diff).tdiv 2)

variable (cfg : SecureConfig Sig)

def checkTimestamp (choices : Choices) (st : SecureState Sig)
    (originator : Addr) (tstamp : UInt32) : Bool × SecureState Sig :=
  match lookupTimestampEntry st originator with
  | none => (false, sendChallenge cfg choices st originator)
  | some entry =>
    let diff := toInt (entry.diff - (st.now - tstamp.toNat))
    if entry.validated = 0 then
      (false, st)
    else if upperDiff < diff ∨ diff < lowerDiff then
      (false, st)
    else
      (true, st.writeEntry originator fun entry =>
          { entry with
            diff := averagedDiff (st.now - tstamp.toNat) entry.diff
            valtime := st.nowTimes + timestampHoldTime })

/-- The checks of `validate_packet` before the timestamp.  Another algorithm
than the built-in one leaves the `switch` and ends up at the same checksum. -/
def packetSane (packet : SignedPacket Sig) : Bool :=
  4 ≤ packet.body.length && packet.msg.header.msgtype = messageType &&
    packet.msg.header.vtime = 0 &&
    packet.msg.header.msgsize = sizeofSOlsrmsg &&
    packet.msg.header.ttl = 1 &&
    packet.msg.header.hopcnt = 0 &&
    packet.msg.type = oneChecksum &&
    cfg.keyed (.packet packet.body packet.msg) = packet.signature

def validatePacket (choices : Choices) (st : SecureState Sig)
    (packet : SignedPacket Sig) : Bool × SecureState Sig :=
  if packetSane cfg packet then
    let checked := checkTimestamp cfg choices st packet.msg.header.originator packet.msg.timestamp
    if checked.1 then
      (true,
        { checked.2 with
          passed := packet.msg.header.originator :: checked.2.passed })
    else
      checked
  else
    (false, st)

/-- `secure_preprocessor`: `auth` is the message behind the header of the
packet, if it is one of the handshake. -/
def securePreprocessor (authChoices choices : Choices)
    (st : SecureState Sig) (auth : Option (AuthMsg Sig))
    (packet : SignedPacket Sig) : Bool × SecureState Sig :=
  match auth with
  | none => validatePacket cfg choices st packet
  | some message => validatePacket cfg choices (checkAuth cfg authChoices st message).2 packet

/-- What happens to the plugin.  `secure_preprocessor` is a `checkAuth`, if the
packet holds a message of the handshake, and a `validatePacket` after it. -/
inductive SecureEvent (Sig : Type) where
  | checkAuth (choices : Choices) (message : AuthMsg Sig)
  | validatePacket (choices : Choices) (packet : SignedPacket Sig)
  | timeoutTimestamps (tvSec : Int)
  | clock (nowTimes : UInt32)
  deriving DecidableEq, Repr

def secureStep (st : SecureState Sig) :
    SecureEvent Sig → Option (SecureState Sig)
  | .checkAuth choices message => some (checkAuth cfg choices st message).2
  | .validatePacket choices packet => some (validatePacket cfg choices st packet).2
  | .timeoutTimestamps tvSec => some (timeoutTimestamps st tvSec)
  | .clock nowTimes => some { st with nowTimes := nowTimes }

theorem securePreprocessor_run (authChoices choices : Choices)
    (st : SecureState Sig) (auth : Option (AuthMsg Sig)) (packet : SignedPacket Sig) :
    runEvents (secureStep cfg) st
        ((auth.map (.checkAuth authChoices)).toList ++ [.validatePacket choices packet]) =
      some (securePreprocessor cfg authChoices choices st auth packet).2 := by
  cases auth with
  | none => rfl
  | some message => rfl

end Functions

end QosOlsr.Secure
