import QosOlsr.Clock
import QosOlsr.Library.Bytes
import QosOlsr.Library.Keyed

/-!
# The packet history of BMF

`CalcCrc32` takes a byte at a time through a table of remainders; `PacketCrc32`
blanks the fields of the IP header that change on the way.  The history keeps
the checksums of the last seconds in a table of lists.
-/

namespace QosOlsr.Bmf

open Library Function

/-- One pass of the inner loop of `GenerateCrc32Table`. -/
def crcShift (crc : UInt32) : UInt32 :=
  if crc &&& 1 ≠ 0 then (crc >>> 1) ^^^ 0xedb88320 else crc >>> 1

def generateCrc32Table (i : UInt8) : UInt32 := crcShift^[8] i.toUInt32

section

variable (crcTable : UInt8 → UInt32)

def calcCrc32 (buffer : List UInt8) : UInt32 :=
  let crc : UInt32 :=
    buffer.foldl (fun crc byte => (crc >>> 8) ^^^ crcTable (crc.toUInt8 ^^^ byte)) 0xffffffff
  crc ^^^ 0xffffffff

/-- The reflected CRC-32 that shifts every bit of the buffer through the
register. -/
def bitwiseCrc32 (buffer : List UInt8) : UInt32 :=
  buffer.foldl (fun crc byte => crcShift^[8] (crc ^^^ byte.toUInt32)) 0xffffffff ^^^ 0xffffffff

private theorem crcShift_xor {high : UInt32} (even : high.toNat % 2 = 0) (low : UInt32) :
    crcShift (high ^^^ low) = (high >>> 1) ^^^ crcShift low := by
  have lowBit : (high ^^^ low) &&& 1 = low &&& 1 := by
    rw [← UInt32.toNat_inj, UInt32.toNat_and, UInt32.toNat_and, UInt32.toNat_xor, UInt32.toNat_one,
      Nat.and_one_is_mod, Nat.and_one_is_mod, ← pow_one 2, Nat.xor_mod_two_pow, pow_one, even,
      Nat.zero_xor]
  rw [crcShift, crcShift, lowBit, UInt32.shiftRight_xor]
  split
  · exact UInt32.xor_assoc ..
  · rfl

/-- The upper part of the register only moves down while zeros leave it, and does
not touch what the lower part becomes. -/
theorem crcShift_iterate_xor (count : Nat) {high top : UInt32}
    (zeros : high.toNat = 2 ^ count * top.toNat) (low : UInt32) :
    crcShift^[count] (high ^^^ low) = top ^^^ crcShift^[count] low := by
  induction count generalizing high low with
  | zero =>
    rw [UInt32.toNat_inj.mp (zeros.trans (Nat.one_mul _))]
    rfl
  | succ count ih =>
    rw [pow_succ, Nat.mul_right_comm] at zeros
    have even : high.toNat % 2 = 0 := by omega
    have moved : (high >>> 1).toNat = 2 ^ count * top.toNat := by
      change high.toNat / 2 = _
      omega
    rw [iterate_succ_apply, crcShift_xor even, ih moved, iterate_succ_apply]

private theorem shiftRight_xor_crcShift (crc : UInt32) (byte : UInt8) :
    (crc >>> 8) ^^^ crcShift^[8] (crc.toUInt8 ^^^ byte).toUInt32 =
      crcShift^[8] (crc ^^^ byte.toUInt32) := by
  have parts : crc ^^^ byte.toUInt32 =
      (crc ^^^ crc.toUInt8.toUInt32) ^^^ (crc.toUInt8 ^^^ byte).toUInt32 := by
    rw [UInt8.toUInt32_xor, UInt32.xor_assoc, ← UInt32.xor_assoc _ _ byte.toUInt32,
      UInt32.xor_self, UInt32.zero_xor]
  have zeros : (crc ^^^ crc.toUInt8.toUInt32).toNat = 2 ^ 8 * (crc >>> 8).toNat := by
    have low : (crc.toNat ^^^ crc.toNat % 2 ^ 8) % 2 ^ 8 = 0 := by
      rw [Nat.xor_mod_two_pow, Nat.mod_mod, Nat.xor_self]
    have high : (crc.toNat ^^^ crc.toNat % 2 ^ 8) / 2 ^ 8 = crc.toNat / 2 ^ 8 := by
      rw [Nat.xor_div_two_pow, Nat.div_eq_of_lt (Nat.mod_lt _ (by decide)), Nat.xor_zero]
    rw [UInt32.toNat_shiftRight, Nat.shiftRight_eq_div_pow]
    refine Eq.trans ?_ (congrArg (2 ^ 8 * ·) high)
    exact (Nat.mul_div_cancel' (Nat.dvd_of_mod_eq_zero low)).symm
  rw [parts, crcShift_iterate_xor 8 zeros]

private theorem calcCrc32_eq (buffer : List UInt8) :
    calcCrc32 generateCrc32Table buffer = bitwiseCrc32 buffer := by
  rw [calcCrc32, bitwiseCrc32]
  congr 2
  funext crc byte
  exact shiftRight_xor_crcShift crc byte

structure TSaveTtl where
  ttl : UInt8
  check : Nat

variable (ipPacket : Memory)

def saveTtlAndChecksum : TSaveTtl := ⟨ipPacket 8, readU16 ipPacket 10⟩

def putTtlAndChecksum (sttl : TSaveTtl) : Memory :=
  update (update (update ipPacket 8 sttl.ttl) 10 (UInt8.ofNat (sttl.check / 256))) 11
    (UInt8.ofNat sttl.check)

/-- The checksum of at most the first 256 bytes, and the packet behind the call. -/
def packetCrc32 (len : Nat) : UInt32 × Memory :=
  let sttl := saveTtlAndChecksum ipPacket
  let blanked := putTtlAndChecksum ipPacket ⟨0xff, 0x5a5a⟩
  (calcCrc32 crcTable (readBytes blanked 0 (min len 256)), putTtlAndChecksum blanked sttl)

theorem packetCrc32_restores (len : Nat) : (packetCrc32 crcTable ipPacket len).2 = ipPacket := by
  funext address
  obtain ⟨high, low⟩ := bytes_readU16 ipPacket 10
  simp only [packetCrc32, putTtlAndChecksum, saveTtlAndChecksum, update_apply]
  grind

private theorem packetCrc32_congr {ipPacket other : Memory} {len : Nat} (same : ∀ address < len,
        address ≠ 8 → address ≠ 10 → address ≠ 11 → ipPacket address = other address) :
    (packetCrc32 crcTable ipPacket len).1 = (packetCrc32 crcTable other len).1 := by
  have blanked : readBytes (putTtlAndChecksum ipPacket ⟨0xff, 0x5a5a⟩) 0 (min len 256) =
      readBytes (putTtlAndChecksum other ⟨0xff, 0x5a5a⟩) 0 (min len 256) := by
    refine List.map_congr_left fun index inside => ?_
    have below := lt_min_iff.mp (List.mem_range.mp inside)
    simp only [putTtlAndChecksum, update_apply]
    grind
  exact congrArg (calcCrc32 crcTable) blanked

end

/-- The table gives the CRC-32 of every buffer.  The packet is as it was after
the call, and neither its TTL nor its header checksum has a part in the result. -/
theorem packetCrc32_correct :
    (∀ buffer, calcCrc32 generateCrc32Table buffer = bitwiseCrc32 buffer) ∧
    ∀ (ipPacket : Memory) (len : Nat),
      (packetCrc32 generateCrc32Table ipPacket len).2 = ipPacket ∧
      ∀ other : Memory,
        (∀ address < len, address ≠ 8 → address ≠ 10 → address ≠ 11 →
          ipPacket address = other address) →
        (packetCrc32 generateCrc32Table ipPacket len).1 =
          (packetCrc32 generateCrc32Table other len).1 := by
  refine ⟨calcCrc32_eq, fun ipPacket len => ⟨packetCrc32_restores _ ipPacket len, ?_⟩⟩
  exact fun other same => packetCrc32_congr _ same

structure TDupEntry where
  crc32 : UInt32
  timeOut : UInt32

abbrev History := UInt32 → List TDupEntry

def hash (from32 : UInt32) : UInt32 := ((from32 >>> 12) + from32) &&& 0xfff

def historyHashSize : UInt32 := 0x1000

def historyHoldTime : UInt32 := 3000

/-- The walk of `CheckAndMarkRecentPacket` along a list. -/
def markRecent (crc32 timeOut : UInt32) (bucket : List TDupEntry) : List TDupEntry :=
  if crc32 ∈ bucket.map TDupEntry.crc32 then
    modifyKey TDupEntry.crc32 crc32 ({ · with timeOut := timeOut }) bucket
  else
    ⟨crc32, timeOut⟩ :: bucket

def checkAndMarkRecentPacket (nowTimes crc32 : UInt32) (history : History) : Bool × History :=
  let bucket := history (hash crc32)
  (crc32 ∈ bucket.map TDupEntry.crc32,
    update history (hash crc32)
      (markRecent crc32 (olsrGetTimestamp nowTimes historyHoldTime) bucket))

def prunePacketHistory (nowTimes : UInt32) (history : History) : History := fun i =>
  if i < historyHashSize then
    (history i).filter fun entry => !olsrIsTimedOut nowTimes entry.timeOut
  else
    history i

inductive HistoryCall where
  | check (crc32 : UInt32)
  | prune

def historyStep (history : History) : UInt32 × HistoryCall → History
  | (nowTimes, .check crc32) => (checkAndMarkRecentPacket nowTimes crc32 history).2
  | (nowTimes, .prune) => prunePacketHistory nowTimes history

/-- What a call does to the timeout of one checksum, without regard to others. -/
def seenStep (crc32 : UInt32) (seen : Option UInt32) : UInt32 × HistoryCall → Option UInt32
  | (nowTimes, .check other) =>
    if crc32 = other then some (olsrGetTimestamp nowTimes historyHoldTime) else seen
  | (nowTimes, .prune) => seen.filter fun timeOut => !olsrIsTimedOut nowTimes timeOut

/-- No list has a checksum twice, and `seen` is what is kept of one. -/
structure Keeps (crc32 : UInt32) (history : History) (seen : Option UInt32) : Prop where
  nodup : ∀ idx, ((history idx).map TDupEntry.crc32).Nodup
  found : (history (hash crc32)).find? (fun entry => entry.crc32 = crc32) =
    seen.map (TDupEntry.mk crc32)

variable {history : History} {crc32 : UInt32} {seen : Option UInt32}

theorem Keeps.check (keeps : Keeps crc32 history seen) (nowTimes : UInt32) :
    (checkAndMarkRecentPacket nowTimes crc32 history).1 = seen.isSome := by
  rw [checkAndMarkRecentPacket, ← Option.isSome_map (f := TDupEntry.mk crc32), ← keeps.found,
    Bool.eq_iff_iff, List.find?_isSome]
  simp

private theorem hash_lt (from32 : UInt32) : hash from32 < historyHashSize := by
  have masked : (hash from32).toNat ≤ 0xfff := by
    rw [hash, UInt32.toNat_and]
    exact Nat.and_le_right
  rw [UInt32.lt_iff_toNat_lt]
  exact Nat.lt_succ_of_le masked

variable {bucket : List TDupEntry}

theorem nodup_markRecent (nodup : (bucket.map TDupEntry.crc32).Nodup) (crc32 timeOut : UInt32) :
    ((markRecent crc32 timeOut bucket).map TDupEntry.crc32).Nodup := by
  rw [markRecent]
  split
  · rwa [map_modifyKey fun _ => by rfl]
  next new => exact List.nodup_cons.mpr ⟨new, nodup⟩

theorem find?_markRecent (other timeOut crc32 : UInt32) :
    (markRecent other timeOut bucket).find? (fun entry => entry.crc32 = crc32) =
      if crc32 = other then some ⟨crc32, timeOut⟩
      else bucket.find? fun entry => entry.crc32 = crc32 := by
  rw [markRecent]
  split
  next known =>
    rw [find?_modifyKey fun _ => by rfl]
    split
    next same =>
      subst same
      cases found : bucket.find? fun entry => entry.crc32 = crc32 with
      | none => exact absurd known (find?_key_eq_none_iff.mp found)
      | some entry =>
        rw [Option.map_some, (of_find?_key_eq_some found).2]
    · rfl
  next new =>
    rw [List.find?_cons]
    grind

theorem Keeps.historyStep (keeps : Keeps crc32 history seen) (call : UInt32 × HistoryCall) :
    Keeps crc32 (historyStep history call) (seenStep crc32 seen call) := by
  rcases call with ⟨nowTimes, other | _⟩
  · refine ⟨fun idx => ?_, ?_⟩
    · simp only [Bmf.historyStep, checkAndMarkRecentPacket, update_apply]
      split
      · exact nodup_markRecent (keeps.nodup _) ..
      · exact keeps.nodup idx
    · simp only [Bmf.historyStep, checkAndMarkRecentPacket, update_apply, seenStep]
      split
      next sameBucket =>
        rw [find?_markRecent, ← sameBucket, keeps.found]
        split <;> rfl
      next otherBucket =>
        rw [if_neg (mt (congrArg hash) otherBucket), keeps.found]
  · refine ⟨fun idx => ?_, ?_⟩
    · rw [Bmf.historyStep, prunePacketHistory]
      split
      · exact (keeps.nodup idx).sublist (List.filter_sublist.map _)
      · exact keeps.nodup idx
    · rw [Bmf.historyStep, prunePacketHistory, if_pos (hash_lt crc32),
        find?_filter_of_nodup (keeps.nodup _), keeps.found, seenStep, Option.filter_map]
      rfl

theorem keeps_run (crc32 : UInt32) (calls : List (UInt32 × HistoryCall)) :
    Keeps crc32 (calls.foldl historyStep fun _ => []) (calls.foldl (seenStep crc32) none) :=
  List.foldl_rel (r := Keeps crc32) ⟨fun _ => List.nodup_nil, rfl⟩
    fun call _ _ _ keeps => keeps.historyStep call

variable {nowTimes checked : UInt32}

private theorem not_timedOut (checkedSoon : checked - nowTimes < historyHoldTime) {pruned : UInt32}
    (prunedSoon : pruned - nowTimes < historyHoldTime) :
    olsrIsTimedOut pruned (olsrGetTimestamp checked historyHoldTime) = false := by
  have hold : historyHoldTime.toNat = 3000 := rfl
  rw [UInt32.lt_iff_toNat_lt, UInt32.toNat_sub, hold] at checkedSoon prunedSoon
  rw [Bool.eq_false_iff, ne_eq, olsrIsTimedOut_iff, olsrGetTimestamp, UInt32.toNat_add, hold]
  have bounds := And.intro checked.toNat_lt pruned.toNat_lt
  split <;> omega

private theorem isSome_seen_of_soon (checkedSoon : checked - nowTimes < historyHoldTime)
    {calls : List (UInt32 × HistoryCall)}
    (soon : ∀ call ∈ calls, call.1 - nowTimes < historyHoldTime) :
    (calls.foldl (seenStep crc32) (some (olsrGetTimestamp checked historyHoldTime))).isSome := by
  induction calls generalizing checked with
  | nil => rfl
  | cons call rest ih =>
    obtain ⟨here, later⟩ := List.forall_mem_cons.mp soon
    rw [List.foldl_cons]
    rcases call with ⟨time, other | _⟩
    · rw [seenStep]
      split
      · exact ih here later
      · exact ih checkedSoon later
    · rw [seenStep, Option.filter_some, not_timedOut checkedSoon here]
      exact ih checkedSoon later

/-- A checksum is found exactly if it would be, were it the only one; and from
the first time on it is found while the calls fall into the hold time. -/
theorem history_recognises (nowTimes crc32 : UInt32) (before calls : List (UInt32 × HistoryCall)) :
    (checkAndMarkRecentPacket nowTimes crc32 (before.foldl historyStep fun _ => [])).1 =
        (before.foldl (seenStep crc32) none).isSome ∧
      ((∀ call ∈ calls, call.1 - nowTimes < historyHoldTime) → ∀ later,
        (checkAndMarkRecentPacket later crc32
          ((before ++ (nowTimes, .check crc32) :: calls).foldl historyStep fun _ => [])).1) := by
  refine ⟨(keeps_run crc32 before).check nowTimes, fun soon later => ?_⟩
  rw [(keeps_run crc32 _).check later, List.foldl_append, List.foldl_cons, seenStep, if_pos rfl]
  exact isSome_seen_of_soon (by rw [UInt32.sub_self]; decide) soon

theorem history_recognises_again :
    (checkAndMarkRecentPacket 2500 7
      ([(0, .check 7), (9, .check 0x1006), (2000, .prune)].foldl historyStep fun _ => [])).1 :=
  (history_recognises 0 7 [] [(9, .check 0x1006), (2000, .prune)]).2 (by decide) 2500

end QosOlsr.Bmf
