import QosOlsr.Secure.Handshake

/-!
# Who is validated

A host is validated by its answer to the challenge that is outstanding for it.
-/

namespace QosOlsr.Secure

open Library List

variable {Sig : Type} {events : List (SecureEvent Sig)}

section Answers

def AuthMsg.challengeFor (host : Addr) : AuthMsg Sig → Option UInt32
  | .challenge msg _ => if msg.destination = host then some msg.challenge else none
  | .cres msg _ => if msg.destination = host then some msg.challenge else none
  | .rres _ _ => none

def lastChallenge (sent : List (AuthMsg Sig)) (host : Addr) : Option UInt32 :=
  sent.findSome? (AuthMsg.challengeFor host)

/-- A challenge is outstanding for a host: the host is registered and not
validated, and was sent no later challenge. -/
def Outstanding (st : SecureState Sig) (host : Addr) (challenge : UInt32) : Prop :=
  lastChallenge st.sent host = some challenge ∧
    ∃ entry ∈ st.timestamps, entry.addr = host ∧ entry.validated = 0

/-- The answer in a message, which `parse_cres` or `parse_rres` gets. -/
def AuthMsg.answer? : AuthMsg Sig → Option (Answer Sig)
  | .challenge _ _ => none
  | .cres msg signature => some (msg.answer signature)
  | .rres msg signature => some (msg.answer signature)

/-- A message of a host with a correct signature answers the challenge that is
outstanding for the host. -/
def Answers (cfg : SecureConfig Sig) (st : SecureState Sig) (host : Addr)
    (message : AuthMsg Sig) : Prop :=
  ∃ answer, message.answer? = some answer ∧ answer.originator = host ∧
    answer.signature = cfg.keyed answer.text ∧
    ∃ challenge, Outstanding st host challenge ∧ answer.resSig = cfg.digest challenge host

variable [DecidableEq Sig] (cfg : SecureConfig Sig)

def Answered (start : SecureState Sig) (events : List (SecureEvent Sig)) (host : Addr) : Prop :=
  ∃ front choices message back reached, events = front ++ .checkAuth choices message :: back ∧
    runEvents (secureStep cfg) start front = some reached ∧
    Answers cfg reached host message

theorem Answered.append_singleton {cfg : SecureConfig Sig} {start : SecureState Sig}
    {host : Addr} (answered : Answered cfg start events host) (event : SecureEvent Sig) :
    Answered cfg start (events ++ [event]) host := by
  obtain ⟨front, choices, message, back, reached, rfl, before, answers⟩ := answered
  exact ⟨front, choices, message, back ++ [event], reached, by simp, before, answers⟩

/-- A challenge to this host whose originator is not registered has a correct
signature. -/
def ChallengeSigned (st : SecureState Sig) : SecureEvent Sig → Prop
  | .checkAuth _ (.challenge msg signature) =>
    cfg.ifWithaddr msg.destination = true →
      lookupTimestampEntry st msg.header.originator = none → cfg.keyed (.challenge msg) = signature
  | _ => True

instance ChallengeSigned.decidable (st : SecureState Sig) :
    ∀ event : SecureEvent Sig, Decidable (ChallengeSigned cfg st event)
  | .checkAuth _ (.challenge _ _) =>
    inferInstanceAs (Decidable (_ → _ → _))
  | .checkAuth _ (.cres _ _) => inferInstanceAs (Decidable True)
  | .checkAuth _ (.rres _ _) => inferInstanceAs (Decidable True)
  | .validatePacket _ _ => inferInstanceAs (Decidable True)
  | .timeoutTimestamps _ => inferInstanceAs (Decidable True)
  | .clock _ => inferInstanceAs (Decidable True)

end Answers

/-- What holds of the records in terms of the messages sent: no host has two,
those of hosts in `Validated` may be validated, the others hold the last
challenge that was sent to their host. -/
structure RecordsOk (Validated : Addr → Prop) (st : SecureState Sig) : Prop where
  nodup : (st.timestamps.map Stamp.addr).Nodup
  validated : ∀ entry ∈ st.timestamps, entry.validated ≠ 0 → Validated entry.addr
  waiting : ∀ entry ∈ st.timestamps, entry.validated = 0 →
      lastChallenge st.sent entry.addr = some entry.challenge

section Steps

variable {cfg : SecureConfig Sig} {choices : Choices}
  {Validated Validated' : Addr → Prop} {st : SecureState Sig}

theorem RecordsOk.mono (ok : RecordsOk Validated st)
    (weaker : ∀ host, Validated host → Validated' host) : RecordsOk Validated' st where
  nodup := ok.nodup
  validated entry member isValidated := weaker entry.addr (ok.validated entry member isValidated)
  waiting := ok.waiting

theorem nodup_writeEntry
    {adr : Addr} {write : Stamp → Stamp} (nodup : (st.timestamps.map Stamp.addr).Nodup)
    (keepsAddr : ∀ entry, (write entry).addr = entry.addr) :
    ((st.writeEntry adr write).timestamps.map Stamp.addr).Nodup := by
  simpa only [SecureState.writeEntry, map_modifyKey keepsAddr] using nodup

theorem RecordsOk.writeEntry {adr : Addr} {write : Stamp → Stamp}
    (ok : RecordsOk Validated st) (keepsAddr : ∀ entry, (write entry).addr = entry.addr)
    (keepsValidated : ∀ entry ∈ st.timestamps, entry.addr = adr → (write entry).validated ≠ 0 →
        Validated adr) (keepsChallenge : ∀ entry ∈ st.timestamps, entry.addr = adr →
        (write entry).validated = 0 → lastChallenge st.sent adr = some (write entry).challenge) :
    RecordsOk Validated (st.writeEntry adr write) where
  nodup := nodup_writeEntry ok.nodup keepsAddr
  validated entry mem isValidated := by
    rcases (mem_modifyKey_iff ok.nodup).mp mem with ⟨old, _⟩ | ⟨written, old, isHost, rfl⟩
    · exact ok.validated entry old isValidated
    · rw [keepsAddr, isHost]
      exact keepsValidated written old isHost isValidated
  waiting entry mem waits := by
    rcases (mem_modifyKey_iff ok.nodup).mp mem with ⟨old, _⟩ | ⟨written, old, isHost, rfl⟩
    · exact ok.waiting entry old waits
    · rw [keepsAddr, isHost]
      exact keepsChallenge written old isHost waits

theorem RecordsOk.queue {entry : Stamp} (ok : RecordsOk Validated st)
    (absent : lookupTimestampEntry st entry.addr = none) (notValidated : entry.validated = 0)
    (isLast : lastChallenge st.sent entry.addr = some entry.challenge) :
    RecordsOk Validated (st.queue entry) where
  nodup := nodup_cons.mpr ⟨find?_key_eq_none_iff.mp absent, ok.nodup⟩
  validated other mem isValidated := by
    rcases mem_cons.mp mem with rfl | old
    · exact absurd notValidated isValidated
    · exact ok.validated other old isValidated
  waiting other mem waits := by
    rcases mem_cons.mp mem with rfl | old
    · exact isLast
    · exact ok.waiting other old waits

variable {message : AuthMsg Sig} {sent : List (AuthMsg Sig)}

theorem lastChallenge_cons_of_none {host : Addr} (other : message.challengeFor host = none) :
    lastChallenge (message :: sent) host = lastChallenge sent host := by
  simp [lastChallenge, other]

theorem lastChallenge_cons_of_some {host : Addr}
    {challenge : UInt32} (isFor : message.challengeFor host = some challenge) :
    lastChallenge (message :: sent) host = some challenge := by
  simp [lastChallenge, isFor]

theorem RecordsOk.output (ok : RecordsOk Validated st)
    (others : ∀ entry ∈ st.timestamps, message.challengeFor entry.addr = none) :
    RecordsOk Validated (st.output message) where
  nodup := ok.nodup
  validated := ok.validated
  waiting entry mem waits := by
    refine Eq.trans ?_ (ok.waiting entry mem waits)
    exact lastChallenge_cons_of_none (others entry mem)

theorem RecordsOk.sendChallenge {newHost : Addr} (ok : RecordsOk Validated st)
    (absent : lookupTimestampEntry st newHost = none) :
    RecordsOk Validated (sendChallenge cfg choices st newHost) := by
  refine RecordsOk.queue (ok.output ?_) absent rfl ?_
  · intro entry mem
    refine if_neg fun isHost : newHost = entry.addr => ?_
    exact find?_key_eq_none_iff.mp absent (isHost ▸ mem_map_of_mem mem)
  · exact lastChallenge_cons_of_some (if_pos rfl)

/-- The record of the host that is answered need not have been in order. -/
theorem recordsOk_sendCres
    {receiver sender : Addr} {chalIn : UInt32} (nodup : (st.timestamps.map Stamp.addr).Nodup)
    (notValidated : ∀ entry ∈ st.timestamps, entry.addr = receiver → entry.validated = 0)
    (validated : ∀ entry ∈ st.timestamps, entry.addr ≠ receiver → entry.validated ≠ 0 →
        Validated entry.addr) (waiting : ∀ entry ∈ st.timestamps, entry.addr ≠ receiver →
        entry.validated = 0 → lastChallenge st.sent entry.addr = some entry.challenge) :
    RecordsOk Validated (sendCres cfg choices st receiver sender chalIn) where
  nodup := nodup_writeEntry nodup fun _ => rfl
  validated entry mem isValidated := by
    rcases (mem_modifyKey_iff nodup).mp mem with ⟨old, other⟩ | ⟨written, old, isHost, rfl⟩
    · exact validated entry old other isValidated
    · exact absurd (notValidated written old isHost) isValidated
  waiting entry mem waits := by
    rcases (mem_modifyKey_iff nodup).mp mem with ⟨old, other⟩ | ⟨written, old, isHost, rfl⟩
    · refine Eq.trans ?_ (waiting entry old other waits)
      exact lastChallenge_cons_of_none (if_neg (Ne.symm other))
    · exact lastChallenge_cons_of_some (if_pos isHost.symm)

theorem RecordsOk.timeoutTimestamps {tvSec : Int} (ok : RecordsOk Validated st) :
    RecordsOk Validated (timeoutTimestamps st tvSec) where
  nodup := ok.nodup.sublist (filter_sublist.map Stamp.addr)
  validated entry member := ok.validated entry (mem_of_mem_filter member)
  waiting entry member := ok.waiting entry (mem_of_mem_filter member)

private theorem recordsOk_securePluginInit (Validated : Addr → Prop) :
    RecordsOk Validated (securePluginInit : SecureState Sig) where
  nodup := nodup_nil
  validated _ member := absurd member not_mem_nil
  waiting _ member := absurd member not_mem_nil

theorem RecordsOk.checkTimestamp
    {originator : Addr} {tstamp : UInt32} (ok : RecordsOk Validated st) :
    RecordsOk Validated (checkTimestamp cfg choices st originator tstamp).2 := by
  unfold Secure.checkTimestamp
  split
  next absent => exact ok.sendChallenge absent
  next entry present =>
    dsimp only
    split
    · exact ok
    next valid =>
      split
      · exact ok
      · apply ok.writeEntry
        case keepsAddr => exact fun _ => rfl
        case keepsValidated =>
          rintro other mem rfl
          exact ok.validated other mem
        case keepsChallenge =>
          rintro other mem rfl
          exact ok.waiting other mem

/-- Only the packets of validated hosts are accepted. -/
theorem validated_of_checkTimestamp {originator : Addr} {tstamp : UInt32}
    (accepted : (checkTimestamp cfg choices st originator tstamp).1 = true) :
    ∃ entry ∈ st.timestamps, entry.addr = originator ∧ entry.validated ≠ 0 := by
  unfold checkTimestamp at accepted
  split at accepted
  · cases accepted
  next entry present =>
    obtain ⟨mem, isHost⟩ := of_find?_key_eq_some present
    dsimp only at accepted
    split at accepted
    · cases accepted
    next valid => exact ⟨entry, mem, isHost, valid⟩

variable [DecidableEq Sig] {signature : Sig} {msg : ChallengeMsg}

theorem recordsOk_answerChallenge (nodup : (st.timestamps.map Stamp.addr).Nodup)
    (signed : cfg.keyed (.challenge msg) = signature) (validated : ∀ entry ∈ st.timestamps,
        entry.addr ≠ msg.header.originator → entry.validated ≠ 0 → Validated entry.addr)
    (waiting : ∀ entry ∈ st.timestamps, entry.addr ≠ msg.header.originator →
        entry.validated = 0 → lastChallenge st.sent entry.addr = some entry.challenge) :
    RecordsOk Validated (answerChallenge cfg choices st msg signature).2 := by
  rw [answerChallenge, if_pos signed]
  apply recordsOk_sendCres
  case nodup => exact nodup_writeEntry nodup fun _ => rfl
  case notValidated =>
    intro entry mem isHost
    rcases (mem_modifyKey_iff nodup).mp mem with ⟨_, other⟩ | ⟨written, _, _, rfl⟩
    · exact absurd isHost other
    · rfl
  case validated =>
    intro entry mem other valid
    rcases (mem_modifyKey_iff nodup).mp mem with ⟨old, _⟩ | ⟨written, _, isHost, rfl⟩
    · exact validated entry old other valid
    · exact absurd isHost other
  case waiting =>
    intro entry mem other waits
    rcases (mem_modifyKey_iff nodup).mp mem with ⟨old, _⟩ | ⟨written, _, isHost, rfl⟩
    · exact waiting entry old other waits
    · exact absurd isHost other

variable (ok : RecordsOk Validated st)
include ok

/-- A challenge validates no host, if the signature of one that makes a record
is correct. -/
theorem RecordsOk.parseChallenge
    (signed : ChallengeSigned cfg st (.checkAuth choices (.challenge msg signature))) :
    RecordsOk Validated (parseChallenge cfg choices st msg signature).2 := by
  unfold Secure.parseChallenge
  split
  next isOurs =>
    split
    next absent =>
      apply recordsOk_answerChallenge
      case nodup => exact nodup_cons.mpr ⟨find?_key_eq_none_iff.mp absent, ok.nodup⟩
      case signed => exact signed isOurs absent
      case validated =>
        intro entry mem other valid
        rcases mem_cons.mp mem with rfl | old
        · exact absurd rfl other
        · exact ok.validated entry old valid
      case waiting =>
        intro entry mem other waits
        rcases mem_cons.mp mem with rfl | old
        · exact absurd rfl other
        · exact ok.waiting entry old waits
    next entry present =>
      split
      · by_cases correct : cfg.keyed (.challenge msg) = signature
        · exact recordsOk_answerChallenge ok.nodup correct
              (fun other mem _ => ok.validated other mem)
              (fun other mem _ => ok.waiting other mem)
        · rw [answerChallenge, if_neg correct]
          exact ok
      · exact ok
  · exact ok

/-- An accepted answer validates its host and no other. -/
theorem RecordsOk.parseAnswer {answer : Answer Sig}
    (answers : answerAccepted cfg st answer = true → Validated answer.originator) :
    RecordsOk Validated (parseAnswer cfg st answer).2 := by
  unfold Secure.parseAnswer
  split
  next accepted =>
    apply ok.writeEntry
    case keepsAddr => exact fun _ => rfl
    case keepsValidated => exact fun _ _ _ _ => answers accepted
    case keepsChallenge =>
      intro entry _ _ waits
      exact absurd waits (by decide : (1 : UInt8) ≠ 0)
  · exact ok

theorem RecordsOk.parseCres {msg : CRespMsg Sig}
    (answers :
      answerAccepted cfg st (msg.answer signature) = true → Validated msg.header.originator) :
    RecordsOk Validated (parseCres cfg st msg signature).2 := by
  have parsed := RecordsOk.parseAnswer ok answers
  unfold Secure.parseCres
  dsimp only
  split
  · exact parsed.output fun _ _ => rfl
  · exact parsed

theorem RecordsOk.validatePacket {packet : SignedPacket Sig} :
    RecordsOk Validated (validatePacket cfg choices st packet).2 := by
  have checked : RecordsOk Validated
        (Secure.checkTimestamp cfg choices st
          packet.msg.header.originator packet.msg.timestamp).2 :=
    ok.checkTimestamp
  unfold Secure.validatePacket
  split
  · dsimp only
    split
    · exact ⟨checked.nodup, checked.validated, checked.waiting⟩
    · exact checked
  · exact ok

/-- An accepted answer is one to the outstanding challenge, unless its host is
validated already. -/
theorem RecordsOk.answers_of_accepted {answer : Answer Sig}
    (isAnswer : message.answer? = some answer) (accepted : answerAccepted cfg st answer = true) :
    Validated answer.originator ∨ Answers cfg st answer.originator message := by
  unfold answerAccepted at accepted
  simp only [Bool.and_eq_true, decide_eq_true_eq] at accepted
  obtain ⟨⟨-, signed⟩, digested⟩ := accepted
  cases found : lookupTimestampEntry st answer.originator with
  | none => simp [found] at digested
  | some entry =>
    obtain ⟨mem, isHost⟩ := of_find?_key_eq_some found
    simp only [found, decide_eq_true_eq] at digested
    by_cases waits : entry.validated = 0
    · right
      have isLast := ok.waiting entry mem waits
      rw [isHost] at isLast
      exact ⟨answer, isAnswer, rfl, signed.symm, entry.challenge,
          ⟨isLast, entry, mem, isHost, waits⟩, digested⟩
    · left
      exact isHost ▸ ok.validated entry mem waits

end Steps

section Runs

variable [DecidableEq Sig] {cfg : SecureConfig Sig} {start : SecureState Sig}

theorem RecordsOk.secureStep {st next : SecureState Sig} {event : SecureEvent Sig}
    (before : runEvents (secureStep cfg) start events = some st)
    (ok : RecordsOk (Answered cfg start events) st) (signed : ChallengeSigned cfg st event)
    (taken : secureStep cfg st event = some next) :
    RecordsOk (Answered cfg start (events ++ [event])) next := by
  have later : RecordsOk (Answered cfg start (events ++ [event])) st :=
    ok.mono fun host answered => answered.append_singleton event
  -- an answer that is accepted now is the last event of the longer run
  have now : ∀ {choices message answer}, event = .checkAuth choices message →
        message.answer? = some answer →
        answerAccepted cfg st answer = true →
          Answered cfg start (events ++ [event]) answer.originator := by
    rintro choices message answer rfl isAnswer accepted
    rcases later.answers_of_accepted isAnswer accepted with known | answers
    · exact known
    · exact ⟨events, choices, message, [], st, rfl, before, answers⟩
  cases event with
  | checkAuth choices message =>
    cases taken
    cases message with
    | challenge msg signature => exact later.parseChallenge signed
    | cres msg signature => exact later.parseCres (now rfl rfl)
    | rres msg signature => exact later.parseAnswer (now rfl rfl)
  | validatePacket choices packet =>
    cases taken
    exact later.validatePacket
  | timeoutTimestamps tvSec =>
    cases taken
    exact later.timeoutTimestamps
  | clock nowTimes =>
    cases taken
    exact ⟨later.nodup, later.validated, later.waiting⟩

/-- If every challenge that makes a record has a correct signature, then in
every run a packet is accepted only from a host that has answered the
outstanding challenge, and no other host is validated. -/
theorem checkTimestamp_answered
    (cfg : SecureConfig Sig) {events : List (SecureEvent Sig)} {st : SecureState Sig}
    (meets : RunMeets (secureStep cfg) (ChallengeSigned cfg) securePluginInit events)
    (finished : runEvents (secureStep cfg) securePluginInit events = some st) :
    (∀ (choices : Choices) (originator : Addr) (tstamp : UInt32),
      (checkTimestamp cfg choices st originator tstamp).1 = true →
        Answered cfg securePluginInit events originator) ∧
    ∀ entry ∈ st.timestamps, entry.validated ≠ 0 →
      Answered cfg securePluginInit events entry.addr := by
  have ok := runEvents_history_of_meets (recordsOk_securePluginInit _) RecordsOk.secureStep meets
    finished
  refine ⟨?_, ok.validated⟩
  intro choices originator tstamp accepted
  obtain ⟨entry, member, isHost, isValidated⟩ := validated_of_checkTimestamp accepted
  exact isHost ▸ ok.validated entry member isValidated

end Runs

/-! ## A handshake, and a way around it -/

def plainConfig : SecureConfig UInt32 where
  keyed _ := 1
  digest challenge adr := challenge + adr
  mainAddr := 1
  ifWithaddr adr := adr = 1

def plainChoices : Choices where
  challenge := 7
  fresh :=
    { addr := 0, diff := 0, challenge := 0, validated := 1, valtime := 0,
      conftime := 0 }

def peerHeader (msgtype : UInt8) (msgsize : UInt16) : Header where
  msgtype := msgtype
  vtime := 0
  msgsize := msgsize
  originator := 2
  ttl := 1
  hopcnt := 0
  seqno := 0

def peerPacket (timestamp : UInt32) : SignedPacket UInt32 where
  body := [0, 4, 0, 0]
  msg :=
    { header := peerHeader messageType sizeofSOlsrmsg
      type := oneChecksum
      algorithm := 2
      reserved := 0
      timestamp := timestamp }
  signature := 1

def peerCres (timestamp : UInt32) : CRespMsg UInt32 where
  header := peerHeader typeCresponse sizeofCRespmsg
  destination := 1
  challenge := 5
  timestamp := timestamp
  resSig := 9

def forgedChallenge : AuthMsg UInt32 := .challenge
    { header := peerHeader typeChallenge sizeofChallengemsg
      destination := 1
      challenge := 5 } 0

/-- The first packet of a host makes the challenge, and the answer to it
validates the host. -/
def handshakeRun : List (SecureEvent UInt32) :=
  [.timeoutTimestamps 1000, .validatePacket plainChoices (peerPacket 1000),
    .checkAuth plainChoices (.cres (peerCres 1000) 1)]

theorem checkTimestamp_answered_handshake : ∃ st,
      runEvents (secureStep plainConfig) securePluginInit handshakeRun = some st ∧
      (checkTimestamp plainConfig plainChoices st 2 1001).1 = true ∧
      Answered plainConfig securePluginInit handshakeRun 2 := by
  have accepted :
      (runEvents (secureStep plainConfig) securePluginInit
        handshakeRun).map (fun st => (checkTimestamp plainConfig plainChoices st 2 1001).1) =
        some true := by
    decide +kernel
  obtain ⟨st, reached, passes⟩ := Option.map_eq_some_iff.mp accepted
  refine ⟨st, reached, passes, ?_⟩
  exact
    (checkTimestamp_answered plainConfig (by decide +kernel) reached).1 plainChoices 2 1001 passes

/-- A challenge with a wrong signature, from a host that never answered one, has
its packets accepted: the record that it leaves says what the memory said. -/
theorem forgedChallenge_validates : ∃ st, runEvents (secureStep plainConfig) securePluginInit
          [.timeoutTimestamps 1000, .checkAuth plainChoices forgedChallenge] =
        some st ∧
      (checkTimestamp plainConfig plainChoices st 2 1000).1 = true ∧
      ¬ Answered plainConfig securePluginInit
        [.timeoutTimestamps 1000, .checkAuth plainChoices forgedChallenge]
        2 := by
  refine ⟨_, rfl, by decide +kernel, ?_⟩
  rintro ⟨front, choices, message, back, reached, isRun, -, answers⟩
  obtain ⟨answer, isAnswer, -⟩ := answers
  have member : SecureEvent.checkAuth choices message ∈
        [.timeoutTimestamps 1000, .checkAuth plainChoices forgedChallenge] :=
    isRun ▸ mem_append_right front mem_cons_self
  simp only [mem_cons, not_mem_nil, or_false, reduceCtorEq,
    false_or, SecureEvent.checkAuth.injEq] at member
  rw [member.2] at isAnswer
  cases isAnswer

end QosOlsr.Secure
