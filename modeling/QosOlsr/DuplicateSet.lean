import QosOlsr.Clock
import QosOlsr.Library.Runs
import QosOlsr.MprSelectorSet
import QosOlsr.NeighborTable

/-!
# The duplicate set and at-most-once flooding

`duplicate_set.c` keeps, for each originator, the newest sequence number and a
bitmap of the 32 newest ones, and `olsr_forward_message` asks it.
-/

namespace QosOlsr

open Library Function

universe u

variable {Addr : Type u} {entry : DupEntry} {seqnr : UInt16} {distance : Nat}

/-- `struct dup_entry` without its key, which the set holds. -/
structure DupEntry where
  seqnr : UInt16
  tooLowCounter : UInt16
  array : BitVec 32
  validUntil : UInt32
  deriving DecidableEq

def dupMaxTooLow : UInt16 := 16

/-- `DUPLICATE_VTIME`, in milliseconds. -/
def duplicateVtime : UInt32 := 120000

/-- `olsr_seqno_diff`: the signed distance from `seqno2` to `seqno1`. -/
def olsrSeqnoDiff (seqno1 seqno2 : UInt16) : Int :=
  let diff : Int := (seqno1.toNat : Int) - seqno2.toNat
  if diff > 0x8000 then
    diff - 0x10000
  else if diff < -0x8000 then
    diff + 0x10000
  else
    diff

/-- `olsr_create_duplicate_entry`, with the time its caller sets. -/
def olsrCreateDuplicateEntry (seqnr : UInt16) (validUntil : UInt32) : DupEntry :=
  ⟨seqnr, 0, 0, validUntil⟩

def stampDuplicateEntry (validUntil : UInt32) (entry : DupEntry) : DupEntry :=
  if entry.validUntil < validUntil then
    { entry with validUntil := validUntil }
  else
    entry

def restartsEntry (seqnr : UInt16) (entry : DupEntry) : Bool :=
  olsrSeqnoDiff seqnr entry.seqnr < -31 ∧ dupMaxTooLow < entry.tooLowCounter + 1

/-- The part of `olsr_message_is_duplicate` that follows the timestamp: the
answer and the entry it leaves. -/
def checkDuplicateEntry (seqnr : UInt16) (entry : DupEntry) : Bool × DupEntry :=
  let diff := olsrSeqnoDiff seqnr entry.seqnr
  if diff < -31 then
    let tooLowCounter := entry.tooLowCounter + 1
    if dupMaxTooLow < tooLowCounter then
      (false, { entry with tooLowCounter := 0, seqnr := seqnr, array := 1 })
    else
      (true, { entry with tooLowCounter := tooLowCounter })
  else
    if diff ≤ 0 then
      let bitmask := 1#32 <<< (-diff).toNat
      if entry.array &&& bitmask ≠ 0 then
        (true, { entry with tooLowCounter := 0 })
      else
        (false,
          { entry with
            tooLowCounter := 0
            array := entry.array ||| bitmask })
    else
      let shifted :=
        if diff < 32 then entry.array <<< diff.toNat else 0
      (false,
        { entry with
          tooLowCounter := 0
          array := shifted ||| 1
          seqnr := seqnr })

/-! ## The set, its timer and the forwarding decision -/

/-- `now_times` and `duplicate_set`, a tree keyed by the originator. -/
structure DuplicateSet (Addr : Type u) where
  nowTimes : UInt32
  entries : Addr → Option DupEntry

def DuplicateSet.init (Addr : Type u) : DuplicateSet Addr := ⟨0, fun _ => none⟩

/-- What `olsr_forward_message` reads of the node before it consults the
duplicate set, with the neighbour that sent the message. -/
structure ForwardContext (Addr : Type u) where
  midLookupMainAddr : Addr → Option Addr
  neighbors : List (NeighborEntry Addr)
  selectors : SelectorState Addr
  fromAddr : Addr

/-- The events of a run: a message handed to `olsr_forward_message`, the
cleanup timer, the clock, and `olsr_cleanup_duplicates`. -/
inductive DupEvent (Addr : Type u) where
  | forward (ctx : ForwardContext Addr) (originator : Addr) (seqnr : UInt16)
  | cleanupTimer
  | setClock (nowTimes : UInt32)
  | cleanupDuplicates (originator : Addr)

section Operations

variable [DecidableEq Addr]

/-- `olsr_message_is_duplicate`: the answer and the set it leaves. -/
def olsrMessageIsDuplicate (ip : Addr) (seqnr : UInt16) (set : DuplicateSet Addr) :
    Bool × DuplicateSet Addr :=
  let validUntil := set.nowTimes + duplicateVtime
  match set.entries ip with
  | none =>
    (false,
      { set with
        entries := update set.entries ip
            (some (olsrCreateDuplicateEntry seqnr validUntil)) })
  | some entry =>
    let checked := checkDuplicateEntry seqnr (stampDuplicateEntry validUntil entry)
    (checked.1,
      { set with
        entries := update set.entries ip (some checked.2) })

def olsrCleanupDuplicateEntry (set : DuplicateSet Addr) : DuplicateSet Addr :=
  { set with
    entries := fun ip =>
      (set.entries ip).filter fun entry =>
        !olsrIsTimedOut set.nowTimes entry.validUntil }

def olsrCleanupDuplicates (orig : Addr) (set : DuplicateSet Addr) : DuplicateSet Addr :=
  { set with
    entries := update set.entries orig
        ((set.entries orig).map fun entry =>
          { entry with tooLowCounter := dupMaxTooLow - 2 }) }

/-- The tests of `olsr_forward_message` on the sender and on the node itself:
the sender is a symmetric neighbour, and the node has an MPR selector or is a
head. -/
def forwardAdmits (ctx : ForwardContext Addr) : Bool :=
  let src := (ctx.midLookupMainAddr ctx.fromAddr).getD ctx.fromAddr
  match olsrLookupNeighborTable ctx.midLookupMainAddr ctx.neighbors src with
  | none => false
  | some neighbor =>
    neighbor.status = .sym ∧ ¬ (ctx.selectors.mprsList.length = 0 ∧ ctx.selectors.isHead = 0)

/-- `olsr_forward_message` up to the loop over the interfaces: whether the
message is retransmitted, and the duplicate set left behind. -/
def olsrForwardMessage (ctx : ForwardContext Addr) (originator : Addr) (seqnr : UInt16)
    (set : DuplicateSet Addr) : Bool × DuplicateSet Addr :=
  if forwardAdmits ctx then
    let asked := olsrMessageIsDuplicate originator seqnr set
    (!asked.1, asked.2)
  else
    (false, set)

def dupStep (set : DuplicateSet Addr) : DupEvent Addr → DuplicateSet Addr
  | .forward ctx originator seqnr => (olsrForwardMessage ctx originator seqnr set).2
  | .cleanupTimer => olsrCleanupDuplicateEntry set
  | .setClock nowTimes => { set with nowTimes := nowTimes }
  | .cleanupDuplicates originator => olsrCleanupDuplicates originator set

end Operations

/-- The newest number of the entry is `distance` ahead of `seqnr`. -/
def DupEntry.Follows (seqnr : UInt16) (distance : Nat) (entry : DupEntry) : Prop :=
  entry.seqnr.toNat = (seqnr.toNat + distance) % 2 ^ 16

/-- The bitmap holds the number that is `distance` behind the newest one, if
it reaches that far. -/
def DupEntry.Marks (distance : Nat) (entry : DupEntry) : Prop :=
  distance < 32 → entry.array.getLsbD distance = true

def seqnoAdvance (seqnr : UInt16) (entry : DupEntry) : Nat :=
  (olsrSeqnoDiff seqnr entry.seqnr).toNat

def seqnoBehind (seqnr : UInt16) (entry : DupEntry) : Nat :=
  (-olsrSeqnoDiff seqnr entry.seqnr).toNat

theorem and_bitmask_ne_zero_iff (array : BitVec 32) {position : Nat} (inside : position < 32) :
    array &&& 1#32 <<< position ≠ 0 ↔ array.getLsbD position = true := by
  rw [← BitVec.twoPow_eq, BitVec.and_twoPow]
  split
  next marked =>
    refine ⟨fun _ => marked, fun _ vanishes => ?_⟩
    have bit := BitVec.getLsbD_twoPow (w := 32) position position
    simp [vanishes, inside] at bit
  next unmarked => simp [unmarked]

private theorem olsrSeqnoDiff_of_follows (follows : entry.Follows seqnr distance)
    (near : distance < 2 ^ 15) : olsrSeqnoDiff seqnr entry.seqnr = -(distance : Int) := by
  have seqnrBound : seqnr.toNat < 0x10000 := seqnr.toNat_lt
  unfold DupEntry.Follows at follows
  unfold olsrSeqnoDiff
  dsimp only
  omega

theorem DupEntry.follows_of_nonpositive (late : olsrSeqnoDiff seqnr entry.seqnr ≤ 0) :
    entry.Follows seqnr (seqnoBehind seqnr entry) := by
  have seqnrBound : seqnr.toNat < 0x10000 := seqnr.toNat_lt
  have newestBound : entry.seqnr.toNat < 0x10000 := entry.seqnr.toNat_lt
  revert late
  unfold DupEntry.Follows seqnoBehind olsrSeqnoDiff
  dsimp only
  omega

/-- The five outcomes of `checkDuplicateEntry`, with the test each one
passed. -/
inductive CheckOutcome (seqnr : UInt16) (entry : DupEntry) : Bool × DupEntry → Prop where
  | restarted
      (restarts : restartsEntry seqnr entry = true) :
      CheckOutcome seqnr entry
        (false, { entry with tooLowCounter := 0, seqnr := seqnr, array := 1 })
  | tooLow
      (old : olsrSeqnoDiff seqnr entry.seqnr < -31) :
      CheckOutcome seqnr entry (true, { entry with tooLowCounter := entry.tooLowCounter + 1 })
  | seen
      (late : olsrSeqnoDiff seqnr entry.seqnr ≤ 0) :
      CheckOutcome seqnr entry (true, { entry with tooLowCounter := 0 })
  | recorded
      (late : olsrSeqnoDiff seqnr entry.seqnr ≤ 0)
      (inside : seqnoBehind seqnr entry < 32)
      (unmarked : entry.array.getLsbD (seqnoBehind seqnr entry) = false) :
      CheckOutcome seqnr entry
        (false,
          { entry with
            tooLowCounter := 0
            array := entry.array ||| 1#32 <<< seqnoBehind seqnr entry })
  | newest
      (ahead : 0 < olsrSeqnoDiff seqnr entry.seqnr)
      (array : BitVec 32)
      (marked : array.getLsbD 0 = true)
      (shifted : ∀ position, entry.array.getLsbD position = true →
        position + seqnoAdvance seqnr entry < 32 →
        array.getLsbD (position + seqnoAdvance seqnr entry) = true) :
      CheckOutcome seqnr entry
        (false,
          { entry with
            tooLowCounter := 0, array := array, seqnr := seqnr })

theorem checkDuplicateEntry_outcome (seqnr : UInt16) (entry : DupEntry) :
    CheckOutcome seqnr entry (checkDuplicateEntry seqnr entry) := by
  unfold checkDuplicateEntry
  dsimp only
  split
  next old =>
    split
    next exhausted => exact .restarted (by simp [restartsEntry, old, exhausted])
    · exact .tooLow old
  next recent =>
    split
    next late =>
      have inside : seqnoBehind seqnr entry < 32 := by
        unfold seqnoBehind
        omega
      split
      · exact .seen late
      next clear =>
        refine .recorded late inside ?_
        rw [← Bool.not_eq_true]
        exact fun marked => clear ((and_bitmask_ne_zero_iff _ inside).mpr marked)
    next ahead =>
      refine .newest (by omega) _ (by simp) fun position marked bound => ?_
      -- Only the shift by less than 32 keeps older bits.
      have near : olsrSeqnoDiff seqnr entry.seqnr < 32 := by
        unfold seqnoAdvance at bound
        omega
      simp only [near, if_true, seqnoAdvance] at bound ⊢
      simp [bound, marked]

private theorem seqnoAdvance_of_late (late : olsrSeqnoDiff seqnr entry.seqnr ≤ 0) :
    seqnoAdvance seqnr entry = 0 := by
  unfold seqnoAdvance
  omega

/-- A message that does not restart the entry keeps track of every number:
its distance grows by what the newest number moved. -/
theorem checkDuplicateEntry_follows {arriving : UInt16}
    (alive : restartsEntry arriving entry = false) (follows : entry.Follows seqnr distance) :
    (checkDuplicateEntry arriving entry).2.Follows seqnr
      (distance + seqnoAdvance arriving entry) := by
  have outcome := checkDuplicateEntry_outcome arriving entry
  generalize checkDuplicateEntry arriving entry = result at *
  cases outcome with
  | restarted restarts => simp [restarts] at alive
  | tooLow old =>
    rw [seqnoAdvance_of_late (by omega)]
    exact follows
  | seen late =>
    rw [seqnoAdvance_of_late late]
    exact follows
  | recorded late =>
    rw [seqnoAdvance_of_late late]
    exact follows
  | newest ahead =>
    have arrivingBound : arriving.toNat < 0x10000 := arriving.toNat_lt
    have newestBound : entry.seqnr.toNat < 0x10000 := entry.seqnr.toNat_lt
    revert ahead
    unfold DupEntry.Follows seqnoAdvance olsrSeqnoDiff at *
    dsimp only
    omega

theorem checkDuplicateEntry_marks {arriving : UInt16} (alive : restartsEntry arriving entry = false)
    (marks : entry.Marks distance) :
    (checkDuplicateEntry arriving entry).2.Marks (distance + seqnoAdvance arriving entry) := by
  have outcome := checkDuplicateEntry_outcome arriving entry
  generalize checkDuplicateEntry arriving entry = result at *
  cases outcome with
  | restarted restarts => simp [restarts] at alive
  | tooLow old =>
    rw [seqnoAdvance_of_late (by omega)]
    exact marks
  | seen late =>
    rw [seqnoAdvance_of_late late]
    exact marks
  | recorded late =>
    intro inside
    simp only [seqnoAdvance_of_late late, Nat.add_zero] at inside ⊢
    rw [BitVec.getLsbD_or, marks inside, Bool.true_or]
  | newest ahead array marked shifted =>
    intro inside
    exact shifted distance (marks (by omega)) inside

theorem checkDuplicateEntry_accepted (accepted : (checkDuplicateEntry seqnr entry).1 = false) :
    (checkDuplicateEntry seqnr entry).2.Follows seqnr
        (seqnoBehind seqnr (checkDuplicateEntry seqnr entry).2) ∧
      (checkDuplicateEntry seqnr entry).2.Marks
        (seqnoBehind seqnr (checkDuplicateEntry seqnr entry).2) := by
  have outcome := checkDuplicateEntry_outcome seqnr entry
  generalize checkDuplicateEntry seqnr entry = result at *
  cases outcome with
  | restarted => simp [DupEntry.Follows, DupEntry.Marks, seqnoBehind, olsrSeqnoDiff]
  | tooLow => simp at accepted
  | seen => simp at accepted
  | recorded late inside =>
    refine ⟨DupEntry.follows_of_nonpositive late, fun _ => ?_⟩
    rw [BitVec.getLsbD_or, ← BitVec.twoPow_eq, BitVec.getLsbD_twoPow]
    simp [seqnoBehind] at inside ⊢
    tauto
  | newest ahead array marked =>
    simp [DupEntry.Follows, DupEntry.Marks, seqnoBehind, olsrSeqnoDiff, marked]

private theorem checkDuplicateEntry_repeated (alive : restartsEntry seqnr entry = false)
    (follows : entry.Follows seqnr distance) (marks : entry.Marks distance)
    (near : distance < 2 ^ 15) : (checkDuplicateEntry seqnr entry).1 = true := by
  have diff := olsrSeqnoDiff_of_follows follows near
  have behind : seqnoBehind seqnr entry = distance := by
    unfold seqnoBehind
    omega
  have outcome := checkDuplicateEntry_outcome seqnr entry
  generalize checkDuplicateEntry seqnr entry = result at *
  cases outcome with
  | restarted restarts => simp [restarts] at alive
  | tooLow => rfl
  | seen => rfl
  | recorded late inside unmarked =>
    rw [behind] at inside unmarked
    simp [marks inside] at unmarked
  | newest ahead => omega

@[simp]
theorem restartsEntry_stamp (seqnr : UInt16) (validUntil : UInt32) (entry : DupEntry) :
    restartsEntry seqnr (stampDuplicateEntry validUntil entry) = restartsEntry seqnr entry := by
  unfold stampDuplicateEntry
  split <;> rfl

@[simp]
theorem seqnoAdvance_stamp (seqnr : UInt16) (validUntil : UInt32) (entry : DupEntry) :
    seqnoAdvance seqnr (stampDuplicateEntry validUntil entry) = seqnoAdvance seqnr entry := by
  unfold stampDuplicateEntry
  split <;> rfl

/-- What an entry knows of a number: how far behind it is and, for a recorded
number, that it is in the bitmap or has left the window. -/
structure DupEntry.Tracks (seqnr : UInt16) (recorded : Prop) (distance : Nat)
    (entry : DupEntry) : Prop where
  follows : entry.Follows seqnr distance
  marks : recorded → entry.Marks distance

namespace DupEntry.Tracks

variable {recorded : Prop} (tracks : entry.Tracks seqnr recorded distance)
include tracks

theorem frame (tooLowCounter : UInt16) (validUntil : UInt32) :
    DupEntry.Tracks seqnr recorded distance
      { entry with
        tooLowCounter := tooLowCounter, validUntil := validUntil } :=
  ⟨tracks.follows, tracks.marks⟩

theorem stamp (validUntil : UInt32) :
    (stampDuplicateEntry validUntil entry).Tracks seqnr recorded distance := by
  unfold stampDuplicateEntry
  split
  · exact tracks.frame entry.tooLowCounter validUntil
  · exact tracks

theorem congr_distance {other : Nat} (same : distance = other) :
    entry.Tracks seqnr recorded other :=
  same ▸ tracks

theorem check (arriving : UInt16) (alive : restartsEntry arriving entry = false) :
    (checkDuplicateEntry arriving entry).2.Tracks
      seqnr recorded (distance + seqnoAdvance arriving entry) :=
  ⟨checkDuplicateEntry_follows alive tracks.follows,
    fun known => checkDuplicateEntry_marks alive (tracks.marks known)⟩

end DupEntry.Tracks

section Runs

variable [DecidableEq Addr]

section

variable (originator : Addr)

/-- The event removes the originator's entry by the cleanup timer or restarts
it by the `too_low_counter` rule. -/
def disturbs (set : DuplicateSet Addr) : DupEvent Addr → Bool
  | .forward ctx source seqnr =>
    source = originator && forwardAdmits ctx && (set.entries originator).any (restartsEntry seqnr)
  | .cleanupTimer =>
    (set.entries originator).any fun entry =>
      olsrIsTimedOut set.nowTimes entry.validUntil
  | .setClock _ => false
  | .cleanupDuplicates _ => false

/-- How far the event moves the newest number of the originator's entry. -/
def eventAdvance (set : DuplicateSet Addr) : DupEvent Addr → Nat
  | .forward ctx source seqnr =>
    if source = originator ∧ forwardAdmits ctx then
      (set.entries originator).elim 0 (seqnoAdvance seqnr)
    else
      0
  | .cleanupTimer => 0
  | .setClock _ => 0
  | .cleanupDuplicates _ => 0

/-- The steps of a run in which the originator's entry stays undisturbed,
with the total its newest number advanced. -/
def undisturbedStep :
    DuplicateSet Addr × Nat → DupEvent Addr → Option (DuplicateSet Addr × Nat)
  | (set, advanced), event =>
    if disturbs originator set event then
      none
    else
      some (dupStep set event, advanced + eventAdvance originator set event)

/-- The originator has an entry that tracks `seqnr` at the distance the run
reached from `start`. -/
def EntryTracks (seqnr : UInt16) (recorded : Prop) (start : Nat)
    (st : DuplicateSet Addr × Nat) : Prop :=
  ∃ entry, st.1.entries originator = some entry ∧ entry.Tracks seqnr recorded (start + st.2)

end

variable {set : DuplicateSet Addr}

theorem olsrMessageIsDuplicate_of_none {ip : Addr}
    (missing : set.entries ip = none) (seqnr : UInt16) :
    (olsrMessageIsDuplicate ip seqnr set).2 =
      { set with
        entries := update set.entries ip
            (some (olsrCreateDuplicateEntry seqnr
              (set.nowTimes + duplicateVtime))) } := by
  rw [olsrMessageIsDuplicate, missing]

theorem olsrMessageIsDuplicate_of_some {ip : Addr}
    (found : set.entries ip = some entry) (seqnr : UInt16) :
    (olsrMessageIsDuplicate ip seqnr set).1 =
        (checkDuplicateEntry seqnr (stampDuplicateEntry (set.nowTimes + duplicateVtime) entry)).1 ∧
      (olsrMessageIsDuplicate ip seqnr set).2 =
        { set with
          entries := update set.entries ip
              (some (checkDuplicateEntry seqnr
                (stampDuplicateEntry (set.nowTimes + duplicateVtime) entry)).2) } := by
  -- Compared as pairs: through the projections the kernel would evaluate
  -- the check itself.
  apply Prod.mk.inj
  rw [Prod.mk.eta, olsrMessageIsDuplicate, found]

private theorem olsrMessageIsDuplicate_entries_of_ne {ip other : Addr} (distinct : other ≠ ip)
    (seqnr : UInt16) (set : DuplicateSet Addr) :
    (olsrMessageIsDuplicate ip seqnr set).2.entries other = set.entries other := by
  unfold olsrMessageIsDuplicate
  cases set.entries ip with
  | none => exact update_of_ne distinct ..
  | some entry => exact update_of_ne distinct ..

variable {originator : Addr} {recorded : Prop}

/-- One undisturbed step keeps track of every number. -/
theorem EntryTracks.step {start : Nat} {st next : DuplicateSet Addr × Nat}
    {event : DupEvent Addr} (tracked : EntryTracks originator seqnr recorded start st)
    (taken : undisturbedStep originator st event = some next) :
    EntryTracks originator seqnr recorded start next := by
  obtain ⟨set, advanced⟩ := st
  obtain ⟨entry, found, tracks⟩ := tracked
  dsimp only at found tracks
  simp only [undisturbedStep] at taken
  split at taken
  · simp at taken
  next calm =>
    obtain rfl := Option.some.inj taken
    cases event with
    | forward ctx source arriving =>
      by_cases admitted : source = originator ∧ forwardAdmits ctx
      · obtain ⟨rfl, admitted⟩ := admitted
        have alive : restartsEntry arriving entry = false := by
          simpa [disturbs, admitted, found] using calm
        have checked :=
          (tracks.stamp (set.nowTimes + duplicateVtime)).check arriving (by simpa using alive)
        refine ⟨_, ?_, checked.congr_distance ?_⟩
        · simp only [dupStep, olsrForwardMessage, admitted, if_true]
          rw [(olsrMessageIsDuplicate_of_some found arriving).2]
          exact update_self ..
        · simp [eventAdvance, admitted, found, Nat.add_assoc]
      · refine ⟨entry, ?_, ?_⟩
        · simp only [dupStep, olsrForwardMessage]
          split
          next admits =>
            have distinct : originator ≠ source := fun same => admitted ⟨same.symm, admits⟩
            exact (olsrMessageIsDuplicate_entries_of_ne distinct arriving set).trans found
          · exact found
        · simpa [eventAdvance, admitted] using tracks
    | cleanupTimer =>
      refine ⟨entry, ?_, tracks⟩
      simpa [disturbs, dupStep, olsrCleanupDuplicateEntry, found] using calm
    | setClock nowTimes => exact ⟨entry, found, tracks⟩
    | cleanupDuplicates source =>
      by_cases same : source = originator
      · subst same
        refine ⟨_, ?_, tracks.frame (dupMaxTooLow - 2) entry.validUntil⟩
        simp [dupStep, olsrCleanupDuplicates, found]
      · refine ⟨entry, ?_, tracks⟩
        simpa [dupStep, olsrCleanupDuplicates, Ne.symm same] using found

/-- How far a number is behind the newest one of its originator. -/
def behindNewest (originator : Addr) (seqnr : UInt16) (set : DuplicateSet Addr) : Nat :=
  (set.entries originator).elim 0 (seqnoBehind seqnr)

/-- The originator's entry, if there is one, is not restarted by `seqnr`. -/
def SurvivesMessage (originator : Addr) (seqnr : UInt16) (set : DuplicateSet Addr) : Prop :=
  (set.entries originator).any (restartsEntry seqnr) = false

instance
    (originator : Addr) (seqnr : UInt16) (set : DuplicateSet Addr) :
    Decidable (SurvivesMessage originator seqnr set) :=
  inferInstanceAs (Decidable (_ = _))

omit [DecidableEq Addr] in
private theorem entryTracks_behindNewest (found : set.entries originator = some entry)
    (tracks : entry.Tracks seqnr recorded (seqnoBehind seqnr entry)) :
    EntryTracks originator seqnr recorded (behindNewest originator seqnr set) (set, 0) := by
  refine ⟨entry, found, tracks.congr_distance ?_⟩
  rw [behindNewest, found, Option.elim_some, Nat.add_zero]

/-- After an accepted message the originator's entry tracks it; the bitmap
has it unless the message created the entry. -/
theorem olsrMessageIsDuplicate_accepted
    (accepted : (olsrMessageIsDuplicate originator seqnr set).1 = false) :
    EntryTracks originator seqnr (set.entries originator ≠ none)
      (behindNewest originator seqnr (olsrMessageIsDuplicate originator seqnr set).2)
      ((olsrMessageIsDuplicate originator seqnr set).2, 0) := by
  cases found : set.entries originator with
  | none =>
    rw [olsrMessageIsDuplicate_of_none found]
    refine entryTracks_behindNewest (update_self ..) ⟨?_, fun known => absurd rfl known⟩
    apply DupEntry.follows_of_nonpositive
    simp [olsrCreateDuplicateEntry, olsrSeqnoDiff]
  | some entry =>
    obtain ⟨answer, left⟩ := olsrMessageIsDuplicate_of_some found seqnr
    have recorded := checkDuplicateEntry_accepted (answer.symm.trans accepted)
    rw [left]
    exact entryTracks_behindNewest (update_self ..) ⟨recorded.1, fun _ => recorded.2⟩

/-- A message whose number the entry tracks is answered as a duplicate, and no
context makes `olsr_forward_message` retransmit it. -/
theorem olsrMessageIsDuplicate_of_tracks (found : set.entries originator = some entry)
    (tracks : entry.Tracks seqnr True distance) (alive : SurvivesMessage originator seqnr set)
    (near : distance < 2 ^ 15) : (olsrMessageIsDuplicate originator seqnr set).1 = true := by
  have stamped := tracks.stamp (set.nowTimes + duplicateVtime)
  rw [(olsrMessageIsDuplicate_of_some found seqnr).1]
  refine checkDuplicateEntry_repeated ?_ stamped.follows (stamped.marks trivial) near
  simpa [SurvivesMessage, found] using alive

/-- Flooding is at most once for every recorded number.  From any state of
the set, a number that was accepted is answered as a duplicate, and is not
retransmitted for any sender, at its next arrival, when nothing in between
removed or restarted the entry and the newest number stays less than `2 ^ 15`
ahead of it.  The number that created its entry is not recorded; for it the
window has to have moved on by 32. -/
theorem acceptedMessage_not_repeated
    {originator : Addr} {seqnr : UInt16} {events : List (DupEvent Addr)}
    {set after : DuplicateSet Addr} {advanced : Nat}
    (accepted : (olsrMessageIsDuplicate originator seqnr set).1 = false)
    (undisturbed : runEvents (undisturbedStep originator)
          ((olsrMessageIsDuplicate originator seqnr set).2, 0) events =
        some (after, advanced))
    (alive : SurvivesMessage originator seqnr after)
    (near : behindNewest originator seqnr
          (olsrMessageIsDuplicate originator seqnr set).2 + advanced <
        2 ^ 15)
    (recorded : set.entries originator ≠ none ∨ 32 ≤ advanced) :
    (olsrMessageIsDuplicate originator seqnr after).1 = true ∧ ∀ ctx : ForwardContext Addr,
        (olsrForwardMessage ctx originator seqnr after).1 = false := by
  obtain ⟨entry, found, tracks⟩ :=
    runEvents_invariant EntryTracks.step (olsrMessageIsDuplicate_accepted accepted) undisturbed
  have marked : entry.Marks
        (behindNewest originator seqnr
          (olsrMessageIsDuplicate originator seqnr set).2 + advanced) := by
    rcases recorded with known | movedOn
    · exact tracks.marks known
    · exact fun inside => absurd inside (by omega)
  have duplicate :=
    olsrMessageIsDuplicate_of_tracks found ⟨tracks.follows, fun _ => marked⟩ alive near
  refine ⟨duplicate, fun ctx => ?_⟩
  unfold olsrForwardMessage
  split
  · simp [duplicate]
  · rfl

end Runs

def headForwardContext : ForwardContext Nat where
  midLookupMainAddr := fun _ => none
  neighbors := [⟨1, .sym, 0, 0, false, false⟩]
  selectors := ⟨1, [], []⟩
  fromAddr := 1

/-- Number 2 is accepted by the entry that number 1 created, number 3 follows,
and number 2 is then blocked. -/
theorem acceptedMessage_not_repeated_after_newer :
    let first := (olsrMessageIsDuplicate 7 1 (DuplicateSet.init Nat)).2
    let second := (olsrMessageIsDuplicate 7 2 first).2
    let third := dupStep second (.forward headForwardContext 7 3)
    (olsrMessageIsDuplicate 7 2 third).1 = true ∧ ∀ ctx : ForwardContext Nat,
        (olsrForwardMessage ctx 7 2 third).1 = false :=
  @acceptedMessage_not_repeated Nat _ 7 2 [.forward headForwardContext 7 3]
    (olsrMessageIsDuplicate 7 1 (DuplicateSet.init Nat)).2 _ 1
    (by decide) rfl (by decide) (by decide) (.inl (by decide))

/-- The first message of an originator is accepted when it arrives a second
time: the entry it created has an empty bitmap. -/
theorem creatingMessage_repeated : ¬ ∀ (before events : List (DupEvent Nat)) (originator : Nat)
        (seqnr : UInt16) (after : DuplicateSet Nat) (advanced : Nat),
        let set := before.foldl dupStep (DuplicateSet.init Nat)
        (olsrMessageIsDuplicate originator seqnr set).1 = false →
        runEvents (undisturbedStep originator)
            ((olsrMessageIsDuplicate originator seqnr set).2, 0) events =
          some (after, advanced) →
        SurvivesMessage originator seqnr after →
        advanced < 2 ^ 15 →
        (olsrMessageIsDuplicate originator seqnr after).1 = true := by
  intro atMostOnce
  have blocked := atMostOnce [] [] 7 1 _ 0 (by decide) rfl
  revert blocked
  decide

end QosOlsr
