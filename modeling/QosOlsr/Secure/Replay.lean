import QosOlsr.Secure.Authentication

/-!
# Replayed packets

Every accepted packet moves the offset towards its own age.  By replaying one
packet again and again an adversary can drag the offset along.
-/

namespace QosOlsr.Secure

open Library List

variable {host : Addr} {agreed : Int} {before : Nat}

theorem toInt_eq {value : Int} (above : -2 ^ 31 ≤ value) (below : value < 2 ^ 31) :
    toInt value = value := by
  unfold toInt
  rw [Int.bmod_eq_of_le] <;> omega

private theorem toInt_range (value : Int) : -2 ^ 31 ≤ toInt value ∧ toInt value < 2 ^ 31 := by
  have lower := Int.le_bmod (x := value) (by decide : 0 < 2 ^ 32)
  have upper := Int.bmod_lt (x := value) (by decide : 0 < 2 ^ 32)
  unfold toInt
  omega

/-- An accepted packet moves the offset by two seconds at most. -/
theorem averagedDiff_near {age diff : Int} (near : |age - diff| ≤ 3)
    (isInt : -2 ^ 31 ≤ age ∧ age < 2 ^ 31) (diffInt : -2 ^ 31 ≤ diff ∧ diff < 2 ^ 31) :
    |averagedDiff age diff - diff| ≤ 2 ∧ min age diff ≤ averagedDiff age diff ∧
      averagedDiff age diff ≤ max age diff := by
  rw [abs_le] at near
  have average : (if age + diff = 0 then 0 else (age + diff).tdiv 2) = (age + diff).tdiv 2 := by
    split
    next zero => rw [zero, Int.zero_tdiv]
    · rfl
  have halved : 2 * (age + diff).tdiv 2 + (age + diff).tmod 2 = age + diff :=
    Int.mul_tdiv_add_tmod (age + diff) 2
  have remainder : |(age + diff).tmod 2| ≤ 1 := by
    have := Int.tmod_lt_of_pos (age + diff) (by decide : (0 : Int) < 2)
    have := Int.lt_tmod_of_pos (age + diff) (by decide : (0 : Int) < 2)
    rw [abs_le]
    omega
  rw [abs_le] at remainder
  rw [averagedDiff, average, toInt_eq (by omega) (by omega), abs_le]
  omega

variable {Sig : Type}

/-- What a step leaves of the records of the hosts under watch: it validates
none of them, changes none that is validated, and lets none of their packets
through. -/
structure Keeps (Watched : Addr → Prop) (st next : SecureState Sig) : Prop where
  nodup : (st.timestamps.map Stamp.addr).Nodup → (next.timestamps.map Stamp.addr).Nodup
  kept : (st.timestamps.map Stamp.addr).Nodup →
      ∀ entry ∈ next.timestamps, Watched entry.addr → entry.validated ≠ 0 → entry ∈ st.timestamps
  passed : ∀ host, Watched host → next.passed.count host = st.passed.count host

section Keeping

variable {cfg : SecureConfig Sig} {choices : Choices}
  {Watched : Addr → Prop} {st next last : SecureState Sig}

theorem Keeps.refl (st : SecureState Sig) : Keeps Watched st st :=
  ⟨id, fun _ _ mem _ _ => mem, fun _ _ => rfl⟩

theorem Keeps.trans (first : Keeps Watched st next) (second : Keeps Watched next last) :
    Keeps Watched st last where
  nodup distinct := second.nodup (first.nodup distinct)
  kept distinct entry member watched isValidated := first.kept distinct entry
      (second.kept (first.nodup distinct) entry member watched isValidated)
      watched isValidated
  passed host watched := (second.passed host watched).trans (first.passed host watched)

theorem keeps_writeEntry {adr : Addr} {write : Stamp → Stamp} (other : ¬ Watched adr)
    (keepsAddr : ∀ entry, (write entry).addr = entry.addr) :
    Keeps Watched st (st.writeEntry adr write) where
  nodup distinct := nodup_writeEntry distinct keepsAddr
  kept distinct entry mem watched isValidated := by
    rcases (mem_modifyKey_iff distinct).mp mem with ⟨old, _⟩ | ⟨written, _, isHost, rfl⟩
    · exact old
    · rw [keepsAddr, isHost] at watched
      exact absurd watched other
  passed _ _ := rfl

theorem keeps_queue {entry : Stamp} (absent : lookupTimestampEntry st entry.addr = none)
    (notValidated : Watched entry.addr → entry.validated = 0) :
    Keeps Watched st (st.queue entry) where
  nodup distinct := nodup_cons.mpr ⟨find?_key_eq_none_iff.mp absent, distinct⟩
  kept distinct other mem watched isValidated := by
    rcases mem_cons.mp mem with rfl | old
    · exact absurd (notValidated watched) isValidated
    · exact old
  passed _ _ := rfl

theorem keeps_output (message : AuthMsg Sig) : Keeps Watched st (st.output message) :=
  ⟨id, fun _ _ mem _ _ => mem, fun _ _ => rfl⟩

private theorem keeps_sendCres
    {receiver sender : Addr} {chalIn : UInt32} (other : ¬ Watched receiver) :
    Keeps Watched st (sendCres cfg choices st receiver sender chalIn) := by
  refine Keeps.trans (keeps_writeEntry other ?_) (keeps_output _)
  exact fun _ => rfl

theorem keeps_timeoutTimestamps (tvSec : Int) : Keeps Watched st (timeoutTimestamps st tvSec) where
  nodup distinct := distinct.sublist (filter_sublist.map Stamp.addr)
  kept _ _ member _ _ := mem_of_mem_filter member
  passed _ _ := rfl

theorem keeps_checkTimestamp {originator : Addr} {tstamp : UInt32}
    (others : Watched originator → (checkTimestamp cfg choices st originator tstamp).1 = false) :
    Keeps Watched st (checkTimestamp cfg choices st originator tstamp).2 := by
  unfold checkTimestamp at others ⊢
  split
  next absent => exact (keeps_output _).trans (keeps_queue absent fun _ => rfl)
  next entry present =>
    simp only [present] at others ⊢
    split
    · exact .refl st
    next valid =>
      rw [if_neg valid] at others
      split
      · exact .refl st
      next within =>
        rw [if_neg within] at others
        exact keeps_writeEntry (fun watched => by cases others watched) fun _ => rfl

variable [DecidableEq Sig] {msg : ChallengeMsg} {signature : Sig}

theorem keeps_answerChallenge (other : ¬ Watched msg.header.originator) :
    Keeps Watched st (answerChallenge cfg choices st msg signature).2 := by
  unfold answerChallenge
  split
  · refine Keeps.trans (keeps_writeEntry other ?_) (keeps_sendCres other)
    exact fun _ => rfl
  · exact .refl st

private theorem keeps_parseChallenge (other : ¬ Watched msg.header.originator) :
    Keeps Watched st (parseChallenge cfg choices st msg signature).2 := by
  unfold parseChallenge
  split
  · split
    next absent =>
      exact
        (keeps_queue absent fun watched => absurd watched other).trans (keeps_answerChallenge other)
    · split
      · exact keeps_answerChallenge other
      · exact .refl st
  · exact .refl st

theorem keeps_parseAnswer {answer : Answer Sig} (other : ¬ Watched answer.originator) :
    Keeps Watched st (parseAnswer cfg st answer).2 := by
  unfold parseAnswer
  split
  · exact keeps_writeEntry other fun _ => rfl
  · exact .refl st

def AuthMsg.originator : AuthMsg Sig → Addr
  | .challenge msg _ => msg.header.originator
  | .cres msg _ => msg.header.originator
  | .rres msg _ => msg.header.originator

theorem keeps_checkAuth {message : AuthMsg Sig} (other : ¬ Watched message.originator) :
    Keeps Watched st (checkAuth cfg choices st message).2 := by
  cases message with
  | challenge msg signature => exact keeps_parseChallenge other
  | cres msg signature =>
    have parsed : Keeps Watched st (parseAnswer cfg st (msg.answer signature)).2 :=
      keeps_parseAnswer other
    rw [checkAuth, parseCres]
    split
    · exact parsed.trans (keeps_output _)
    · exact parsed
  | rres msg signature => exact keeps_parseAnswer other

/-- A message that is turned down changes nothing, unless it is a challenge
that makes a record without a correct signature. -/
theorem checkAuth_rejected
    {message : AuthMsg Sig} (signed : ChallengeSigned cfg st (.checkAuth choices message))
    (rejected : (checkAuth cfg choices st message).1 = false) :
    (checkAuth cfg choices st message).2 = st := by
  have answers : ∀ answer : Answer Sig, (parseAnswer cfg st answer).1 = false →
        (parseAnswer cfg st answer).2 = st := by
    intro answer turnedDown
    unfold parseAnswer at turnedDown ⊢
    split at turnedDown
    · cases turnedDown
    next accepted => rw [if_neg accepted]
  cases message with
  | challenge msg signature =>
    rw [checkAuth, parseChallenge] at rejected ⊢
    split at rejected
    next isOurs =>
      rw [if_pos isOurs]
      split at rejected
      next absent =>
        rw [answerChallenge, if_pos (signed isOurs absent)] at rejected
        cases rejected
      next entry present =>
        split at rejected
        next timedOut =>
          rw [answerChallenge] at rejected ⊢
          split at rejected
          · cases rejected
          next wrong => simp [timedOut, wrong]
        next holds => simp [holds]
    next notOurs => rw [if_neg notOurs]
  | cres msg signature =>
    rw [checkAuth, parseCres] at rejected ⊢
    split at rejected
    · cases rejected
    next turnedDown =>
      rw [if_neg turnedDown]
      exact answers _ rejected
  | rres msg signature => exact answers _ rejected

theorem keeps_validatePacket {packet : SignedPacket Sig}
    (others : Watched packet.msg.header.originator →
        (validatePacket cfg choices st packet).1 = false) :
    Keeps Watched st (validatePacket cfg choices st packet).2 := by
  unfold validatePacket at others ⊢
  split
  next sane =>
    rw [if_pos sane] at others
    dsimp only at others ⊢
    split
    next accepted =>
      rw [if_pos accepted] at others
      have other : ¬ Watched packet.msg.header.originator := by
        intro watched
        cases others watched
      have checked : Keeps Watched st
            (checkTimestamp cfg choices st packet.msg.header.originator packet.msg.timestamp).2 :=
        keeps_checkTimestamp fun watched => absurd watched other
      refine ⟨checked.nodup, checked.kept, ?_⟩
      intro host watched
      rw [← checked.passed host watched]
      refine count_cons_of_ne ?_
      rintro rfl
      exact other watched
    next rejected =>
      rw [if_neg rejected] at others
      exact keeps_checkTimestamp others
  · exact .refl st

end Keeping

/-- Ages that `check_timestamp` tells from those close to the offset modulo
`2 ^ 32`. -/
def Unwrapped (agreed age : Int) : Prop := |age - agreed| < 2 ^ 31 - 1

/-- The offset of a host is no farther from the one of the handshake than the
packets that were let through could move it. -/
structure OffsetNear (host : Addr) (agreed : Int) (before : Nat) (st : SecureState Sig) : Prop where
  nodup : (st.timestamps.map Stamp.addr).Nodup
  since : before ≤ st.passed.count host
  near : ∀ entry ∈ st.timestamps, entry.addr = host → entry.validated ≠ 0 →
      |entry.diff - agreed| ≤ 2 * (st.passed.count host - before) ∧
        Unwrapped agreed entry.diff ∧ -2 ^ 31 ≤ entry.diff ∧ entry.diff < 2 ^ 31

section Offset

variable {cfg : SecureConfig Sig} {st next : SecureState Sig}

theorem OffsetNear.of_keeps (ok : OffsetNear host agreed before st)
    (keeps : Keeps (· = host) st next) : OffsetNear host agreed before next where
  nodup := keeps.nodup ok.nodup
  since := by
    rw [keeps.passed host rfl]
    exact ok.since
  near entry mem isHost isValidated := by
    rw [keeps.passed host rfl]
    exact ok.near entry (keeps.kept ok.nodup entry mem isHost isValidated) isHost isValidated

theorem checkTimestamp_accepted {choices : Choices} {tstamp : UInt32}
    (accepted : (checkTimestamp cfg choices st host tstamp).1 = true) :
    ∃ entry ∈ st.timestamps, entry.addr = host ∧ entry.validated ≠ 0 ∧
      |toInt (entry.diff - (st.now - tstamp.toNat))| ≤ 3 ∧
      (checkTimestamp cfg choices st host tstamp).2 = st.writeEntry host fun entry =>
          { entry with
            diff := averagedDiff (st.now - tstamp.toNat) entry.diff
            valtime := st.nowTimes + timestampHoldTime } := by
  unfold checkTimestamp at accepted ⊢
  split at accepted
  · cases accepted
  next entry present =>
    obtain ⟨mem, isHost⟩ := of_find?_key_eq_some present
    dsimp only at accepted ⊢
    split at accepted
    · cases accepted
    next valid =>
      split at accepted
      · cases accepted
      next within =>
        refine ⟨entry, mem, isHost, valid, ?_, ?_⟩
        · rw [abs_le]
          simp only [upperDiff, lowerDiff] at within
          omega
        · rw [if_neg valid, if_neg within]

theorem near_of_toInt {age diff : Int} (within : |toInt (diff - age)| ≤ 3)
    (ageUnwrapped : Unwrapped agreed age) (diffUnwrapped : Unwrapped agreed diff) :
    |age - diff| ≤ 3 := by
  unfold Unwrapped at ageUnwrapped diffUnwrapped
  rw [abs_lt] at ageUnwrapped diffUnwrapped
  rw [abs_le] at within ⊢
  have wraps := Int.bmod_eq_self_sub_mul_bdiv (diff - age) (2 ^ 32)
  unfold toInt at within
  omega

theorem OffsetNear.passes {choices : Choices} {tstamp : UInt32}
    (ok : OffsetNear host agreed before st)
    (isInt : -2 ^ 31 ≤ st.now - tstamp.toNat ∧ st.now - tstamp.toNat < 2 ^ 31)
    (ageUnwrapped : Unwrapped agreed (st.now - tstamp.toNat))
    (accepted : (checkTimestamp cfg choices st host tstamp).1 = true) :
    OffsetNear host agreed before
      { (checkTimestamp cfg choices st host tstamp).2 with
        passed := host ::
            (checkTimestamp cfg choices st host tstamp).2.passed } := by
  obtain ⟨entry, mem, isHost, valid, within, isWritten⟩ := checkTimestamp_accepted accepted
  have ⟨entryNear, entryUnwrapped, entryInt⟩ := ok.near entry mem isHost valid
  have ⟨moved, notBelow, notAbove⟩ :=
    averagedDiff_near (near_of_toInt within ageUnwrapped entryUnwrapped) isInt entryInt
  rw [isWritten]
  constructor
  case nodup => exact nodup_writeEntry ok.nodup fun _ => rfl
  case since => exact ok.since.trans count_le_count_cons
  case near =>
    intro other inNext otherHost _
    rcases (mem_modifyKey_iff ok.nodup).mp inNext with
      ⟨_, isOther⟩ | ⟨written, old, writtenHost, rfl⟩
    · exact absurd otherHost isOther
    · have same : written = entry := inj_on_of_nodup_map ok.nodup old mem
          (writtenHost.trans isHost.symm)
      subst same
      unfold Unwrapped at ageUnwrapped entryUnwrapped ⊢
      have since := ok.since
      simp only [SecureState.writeEntry, count_cons_self]
      rw [abs_le] at entryNear moved ⊢
      rw [abs_lt] at ageUnwrapped entryUnwrapped ⊢
      omega

end Offset

section Runs

variable [DecidableEq Sig] {cfg : SecureConfig Sig} {st next : SecureState Sig}

private theorem nodup_run {events : List (SecureEvent Sig)}
    (ran : runEvents (secureStep cfg) securePluginInit events = some st) :
    (st.timestamps.map Stamp.addr).Nodup := by
  have kept : ∀ {st next : SecureState Sig} {event : SecureEvent Sig},
        (st.timestamps.map Stamp.addr).Nodup →
          secureStep cfg st event = some next → (next.timestamps.map Stamp.addr).Nodup := by
    intro st next event distinct taken
    have nobody : Keeps (fun _ => False) st next := by
      cases event with
      | checkAuth choices message =>
        cases taken
        exact keeps_checkAuth id
      | validatePacket choices packet =>
        cases taken
        exact keeps_validatePacket False.elim
      | timeoutTimestamps tvSec =>
        cases taken
        exact keeps_timeoutTimestamps tvSec
      | clock nowTimes =>
        cases taken
        exact ⟨id, fun _ _ mem _ _ => mem, fun _ _ => rfl⟩
    exact nobody.nodup distinct
  have start : ((securePluginInit : SecureState Sig).timestamps.map Stamp.addr).Nodup := nodup_nil
  exact runEvents_invariant kept start ran

/-- The event is no handshake with the host, and if it lets a packet of the host
through, the age of that packet is an `int` and not close to the offset only
modulo `2 ^ 32`. -/
def Undisturbed (cfg : SecureConfig Sig) (host : Addr) (agreed : Int) (st : SecureState Sig) :
    SecureEvent Sig → Prop
  | .checkAuth choices message =>
    message.originator = host → (checkAuth cfg choices st message).1 = false ∧
        ChallengeSigned cfg st (.checkAuth choices message)
  | .validatePacket choices packet =>
    packet.msg.header.originator = host → (validatePacket cfg choices st packet).1 = true →
      (-2 ^ 31 ≤ st.now - packet.msg.timestamp.toNat ∧
        st.now - packet.msg.timestamp.toNat < 2 ^ 31) ∧
      Unwrapped agreed (st.now - packet.msg.timestamp.toNat)
  | _ => True

theorem OffsetNear.secureStep {event : SecureEvent Sig}
    (ok : OffsetNear host agreed before st) (undisturbed : Undisturbed cfg host agreed st event)
    (taken : secureStep cfg st event = some next) : OffsetNear host agreed before next := by
  cases event with
  | checkAuth choices message =>
    cases taken
    by_cases isHost : message.originator = host
    · obtain ⟨rejected, signed⟩ := undisturbed isHost
      rw [checkAuth_rejected signed rejected]
      exact ok
    · exact ok.of_keeps (keeps_checkAuth isHost)
  | validatePacket choices packet =>
    cases taken
    by_cases passes : (validatePacket cfg choices st packet).1 = true
    · by_cases isHost : packet.msg.header.originator = host
      · subst isHost
        obtain ⟨isInt, ageUnwrapped⟩ := undisturbed rfl passes
        unfold validatePacket at passes ⊢
        split at passes
        next sane =>
          dsimp only at passes ⊢
          split at passes
          next accepted =>
            rw [if_pos sane, if_pos accepted]
            exact ok.passes isInt ageUnwrapped accepted
          next rejected => exact absurd passes rejected
        · cases passes
      · exact ok.of_keeps (keeps_validatePacket fun isHost' => absurd isHost' isHost)
    · exact ok.of_keeps (keeps_validatePacket fun _ => by simpa using passes)
  | timeoutTimestamps tvSec =>
    cases taken
    exact ok.of_keeps (keeps_timeoutTimestamps tvSec)
  | clock nowTimes =>
    cases taken
    exact ⟨ok.nodup, ok.since, ok.near⟩

private theorem offsetNear_handshake
    {message : AuthMsg Sig} {answer : Answer Sig} {choices : Choices} {start : SecureState Sig}
    (distinct : (st.timestamps.map Stamp.addr).Nodup) (isAnswer : message.answer? = some answer)
    (handshake : checkAuth cfg choices st message = (true, start)) :
    OffsetNear answer.originator (toInt (st.now - answer.timestamp.toNat))
      (start.passed.count answer.originator) start := by
  have written : start.timestamps =
        (st.writeEntry answer.originator (Stamp.answered st answer)).timestamps := by
    cases message with
    | challenge msg signature => cases isAnswer
    | cres msg signature =>
      cases isAnswer
      rw [checkAuth, parseCres, parseAnswer] at handshake
      by_cases accepted : answerAccepted cfg st (msg.answer signature) = true
      · rw [if_pos accepted] at handshake
        cases handshake
        rfl
      · rw [if_neg accepted] at handshake
        cases handshake
    | rres msg signature =>
      cases isAnswer
      rw [checkAuth, parseRres, parseAnswer] at handshake
      split at handshake
      · cases handshake
        rfl
      · cases handshake
  constructor
  case nodup =>
    rw [written]
    exact nodup_writeEntry distinct fun _ => rfl
  case since => exact le_rfl
  case near =>
    intro entry mem isHost _
    rw [written] at mem
    rcases (mem_modifyKey_iff distinct).mp mem with ⟨_, isOther⟩ | ⟨old, _, _, rfl⟩
    · exact absurd isHost isOther
    · simpa [Stamp.answered, Unwrapped] using toInt_range _

/-- After a handshake that agreed on an offset, and until the next one, an
accepted packet is within the tolerance of the offset that the record holds,
and within two seconds more, for each packet that was let through before, of
the offset agreed on. -/
theorem checkTimestamp_replayed (cfg : SecureConfig Sig) {front events : List (SecureEvent Sig)}
    {registered start st : SecureState Sig} {message : AuthMsg Sig} {answer : Answer Sig}
    {handshakeChoices : Choices}
    (reached : runEvents (secureStep cfg) securePluginInit front = some registered)
    (isAnswer : message.answer? = some answer)
    (handshake : checkAuth cfg handshakeChoices registered message = (true, start))
    (meets : RunMeets (secureStep cfg)
      (Undisturbed cfg answer.originator (toInt (registered.now - answer.timestamp.toNat)))
      start events)
    (finished : runEvents (secureStep cfg) start events = some st) (choices : Choices)
    (tstamp : UInt32)
    (ageUnwrapped : Unwrapped (toInt (registered.now - answer.timestamp.toNat))
      (st.now - tstamp.toNat))
    (accepted : (checkTimestamp cfg choices st answer.originator tstamp).1 = true) :
    (∃ entry ∈ st.timestamps, entry.addr = answer.originator ∧
      |st.now - tstamp.toNat - entry.diff| ≤ upperDiff) ∧
    |st.now - tstamp.toNat -
        toInt (registered.now - answer.timestamp.toNat)| ≤
      upperDiff +
        2 * (st.passed.count answer.originator - start.passed.count answer.originator) := by
  have ok := runEvents_invariant_of_meets OffsetNear.secureStep
      (offsetNear_handshake (nodup_run reached) isAnswer handshake) meets finished
  obtain ⟨entry, member, isHost, isValidated, within, -⟩ := checkTimestamp_accepted accepted
  have ⟨entryNear, entryUnwrapped, _⟩ := ok.near entry member isHost isValidated
  have closeBy : |st.now - tstamp.toNat - entry.diff| ≤ upperDiff :=
    near_of_toInt within ageUnwrapped entryUnwrapped
  refine ⟨⟨entry, member, isHost, closeBy⟩, ?_⟩
  calc
    |st.now - tstamp.toNat -
        toInt (registered.now - answer.timestamp.toNat)| ≤
        |st.now - tstamp.toNat - entry.diff| +
          |entry.diff - toInt (registered.now - answer.timestamp.toNat)| :=
      abs_sub_le _ _ _
    _ ≤ _ := add_le_add closeBy entryNear

end Runs

def replays (polls : List (Int × Nat)) : List (SecureEvent UInt32) := polls.flatMap fun poll =>
    .timeoutTimestamps poll.1 ::
      List.replicate poll.2 (.validatePacket plainChoices (peerPacket 1000))

instance (agreed age : Int) : Decidable (Unwrapped agreed age) :=
  inferInstanceAs (Decidable (_ < _))

instance Undisturbed.decidable [DecidableEq Sig] (cfg : SecureConfig Sig) (host : Addr)
    (agreed : Int) (st : SecureState Sig) :
    ∀ event : SecureEvent Sig, Decidable (Undisturbed cfg host agreed st event)
  | .checkAuth _ _ => inferInstanceAs (Decidable (_ → _ ∧ _))
  | .validatePacket _ _ => inferInstanceAs (Decidable (_ → _ → _ ∧ _))
  | .timeoutTimestamps _ => inferInstanceAs (Decidable True)
  | .clock _ => inferInstanceAs (Decidable True)

def registeredPeer : SecureState UInt32 :=
  (validatePacket plainConfig plainChoices
    (timeoutTimestamps securePluginInit 1000) (peerPacket 1000)).2

def validatedPeer : SecureState UInt32 :=
  (checkAuth plainConfig plainChoices registeredPeer (.cres (peerCres 1000) 1)).2

theorem checkTimestamp_replayed_peer : ∃ st,
      runEvents (secureStep plainConfig) validatedPeer (replays [(1002, 2)]) = some st ∧
      (checkTimestamp plainConfig plainChoices st 2 1000).1 = true ∧
      |st.now - 1000 - 0| ≤ upperDiff + 2 * (2 - 0) := by
  have polled : runEvents (secureStep plainConfig) securePluginInit
          [.timeoutTimestamps 1000, .validatePacket plainChoices (peerPacket 1000)] =
        some registeredPeer := rfl
  have isAnswer : (AuthMsg.cres (peerCres 1000) 1).answer? = some ((peerCres 1000).answer 1) := rfl
  have handshake : checkAuth plainConfig plainChoices registeredPeer
          (.cres (peerCres 1000) 1) = (true, validatedPeer) := by
    decide +kernel
  have accepted :
      (runEvents (secureStep plainConfig) validatedPeer (replays [(1002, 2)])).map (fun st =>
          ((checkTimestamp plainConfig plainChoices st 2 1000).1, st.now, st.passed.count 2)) =
        some (true, 1002, 2) := by
    decide +kernel
  obtain ⟨st, reached, passes⟩ := Option.map_eq_some_iff.mp accepted
  simp only [Prod.mk.injEq] at passes
  obtain ⟨passes, isNow, isCount⟩ := passes
  refine ⟨st, reached, passes, ?_⟩
  have bound :=
    (checkTimestamp_replayed plainConfig polled isAnswer handshake
      (by decide +kernel) reached plainChoices 1000
      (by rw [isNow]; decide +kernel) passes).2
  have isOriginator : ((peerCres 1000).answer 1).originator = 2 := rfl
  have agreed : toInt (registeredPeer.now - ((peerCres 1000).answer 1).timestamp.toNat) = 0 := by
    decide +kernel
  have none : validatedPeer.passed.count 2 = 0 := by decide +kernel
  rw [isOriginator, isCount, none, agreed] at bound
  exact bound

/-- The packet of time 1000, replayed a few times after every poll, is accepted
at the age of eight seconds, with an agreed offset of 0. -/
theorem replayedPacket_accepted : ∃ st, runEvents (secureStep plainConfig) securePluginInit
          [.timeoutTimestamps 1000, .validatePacket plainChoices (peerPacket 1000)] =
        some registeredPeer ∧
      checkAuth plainConfig plainChoices registeredPeer (.cres (peerCres 1000) 1) =
        (true, validatedPeer) ∧
      runEvents (secureStep plainConfig) validatedPeer
          (replays [(1002, 1), (1004, 3), (1006, 3), (1008, 0)]) =
        some st ∧
      (checkTimestamp plainConfig plainChoices st 2 1000).1 = true ∧
      ¬ |st.now - 1000 - toInt (registeredPeer.now - 1000)| ≤ upperDiff - lowerDiff := by
  refine ⟨_, by decide +kernel, by decide +kernel, rfl, by decide +kernel, by decide +kernel⟩

end QosOlsr.Secure
