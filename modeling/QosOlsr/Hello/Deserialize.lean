import QosOlsr.Hello.Message
import QosOlsr.Library.Loop
import QosOlsr.Packet

/-!
# Decoding HELLO messages

`deserialize_hello` of `process_package.c` reads the blocks of a HELLO four
times, once for each link type, and skips blocks of another link type by their
size field.  A size field of zero keeps the pointer where it is, so the loop
gets a number of iterations.
-/

namespace QosOlsr

open Library

/-- The pointer and `hello->neighbors`, last decoded entry first. -/
structure HelloReading (ver : IpVersion) where
  curr : Cursor
  neighbors : List (HelloNeighbor (IpAddr ver))

/-- What a bounded run of `deserialize_hello` leaves: `message` is there once
all loops ended, unless the message type was wrong. -/
structure HelloOutcome (ver : IpVersion) where
  curr : Cursor
  ended : Bool
  message : Option (HelloMessage (IpAddr ver))

section Decoder

variable (mem : Memory) (ver : IpVersion)

/-- The fixed part behind the type: the message size and the header fields. -/
def readHelloHeader : PacketReader (Nat × HelloMessage (IpAddr ver)) := do
  let vtime ← pktGetU8 mem
  let size ← pktGetU16 mem
  let sourceAddr ← pktGetIpaddress mem ver
  let ttl ← pktGetU8 mem
  let hopCount ← pktGetU8 mem
  let packetSeqNumber ← pktGetU16 mem
  pktIgnore 2
  let htime ← pktGetU8 mem
  let willingness ← pktGetU8 mem
  let qos ← pktGetU8 mem
  let qos2 ← pktGetU8 mem
  let isHead ← pktGetU8 mem
  pktIgnore 1
  return (size,
    { vtime := vtime
      htime := htime
      sourceAddr := sourceAddr
      packetSeqNumber := packetSeqNumber
      hopCount := hopCount
      ttl := ttl
      willingness := willingness
      qos := (qos2.toNat <<< 8) ||| (qos.toNat &&& 0xff)
      isHead := isHead.toNat
      neighbors := [] })

/-- One address of a block, with its link quality in an LQ_HELLO. -/
def readHelloNeighbor (lq : Option LqHandler) (linkCode : Nat) :
    PacketReader (HelloNeighbor (IpAddr ver)) := do
  let address ← pktGetIpaddress mem ver
  let linkquality ←
    match lq with
    | none => pure []
    | some handler => deserializeLqPair mem handler
  return ⟨extractStatus linkCode, extractLink linkCode, address, linkquality⟩

def recordLength (lq : Option LqHandler) : Nat := ver.ipsize + lq.elim 0 fun _ => 4

def recordRead (lq : Option LqHandler) : Nat := ver.ipsize + lq.elim 0 LqHandler.readLength

theorem recordLength_pos (lq : Option LqHandler) : 0 < recordLength ver lq :=
  Nat.add_pos_left ver.ipsize_pos _

theorem readHelloNeighbor_cursor (lq : Option LqHandler) (linkCode : Nat) (curr : Cursor) :
    (readHelloNeighbor mem ver lq linkCode curr).2 =
      ⟨curr.pos + recordLength ver lq, max curr.reach (curr.pos + recordRead ver lq)⟩ := by
  cases lq with
  | none => rfl
  | some handler =>
    change (deserializeLqPair mem handler (curr.read ver.ipsize)).2 = _
    rw [deserializeLqPair_cursor, Cursor.mk.injEq]
    simp only [Cursor.read, recordLength, recordRead, Option.elim_some]
    omega

/-- The innermost loop: the addresses of a block up to `limit2`. -/
def readHelloBlock (lq : Option LqHandler) (linkCode limit2 : Nat)
    (reading : HelloReading ver) : HelloReading ver :=
  if reading.curr.pos < limit2 then
    let next := readHelloNeighbor mem ver lq linkCode reading.curr
    readHelloBlock lq linkCode limit2 ⟨next.2, next.1 :: reading.neighbors⟩
  else
    reading
termination_by limit2 - reading.curr.pos
decreasing_by
  rw [readHelloNeighbor_cursor]
  have positive := recordLength_pos ver lq
  dsimp only
  omega

def readBlockHeader : PacketReader (Nat × Nat) := do
  let linkCode ← pktGetU8 mem
  pktIgnore 1
  let size2 ← pktGetU16 mem
  return (linkCode.toNat, size2)

/-- One iteration of the loop over the blocks, in the pass for `link`. -/
def helloBlockStep (lq : Option LqHandler) (limit : Nat) (link : LinkType)
    (reading : HelloReading ver) : Option (HelloReading ver) :=
  if reading.curr.pos < limit then
    let header := readBlockHeader mem reading.curr
    let limit2 := reading.curr.pos + header.1.2
    if extractLink header.1.1 ≠ link then
      some { reading with curr := { header.2 with pos := limit2 } }
    else
      some (readHelloBlock mem ver lq header.1.1 limit2 { reading with curr := header.2 })
  else
    none

def runHelloPasses (lq : Option LqHandler) (limit currSaved fuel : Nat) :
    List LinkType → HelloReading ver → HelloReading ver × Bool
  | [], reading => (reading, true)
  | link :: rest, reading =>
    let walked :=
      runLoop (helloBlockStep mem ver lq limit link) fuel
        { reading with curr := { reading.curr with pos := currSaved } }
    if walked.2 then
      runHelloPasses lq limit currSaved fuel rest walked.1
    else
      walked

end Decoder

/-- The culling at the end of `deserialize_hello`: entries from the first
`UNSPEC_LINK` on lose those whose address an entry before it has. -/
def cullUnspec {ver : IpVersion} (neighbors : List (HelloNeighbor (IpAddr ver))) :
    List (HelloNeighbor (IpAddr ver)) :=
  let others := neighbors.takeWhile fun neigh => neigh.link ≠ .unspec
  let unspec := neighbors.dropWhile fun neigh => neigh.link ≠ .unspec
  others ++ others.foldl
      (fun remaining neigh =>
        remaining.filter fun cull => cull.address ≠ neigh.address)
      unspec

def helloLq (mem : Memory) (handler : LqHandler) : Option LqHandler :=
  if mem 0 = lqHelloMessage then some handler else none

def concludeHello {ver : IpVersion} (header : HelloMessage (IpAddr ver))
    (passes : HelloReading ver × Bool) : HelloOutcome ver where
  curr := passes.1.curr
  ended := passes.2
  message :=
    if passes.2 then
      some { header with neighbors := cullUnspec passes.1.neighbors }
    else
      none

/-- `deserialize_hello` with at most `fuel` iterations of each block loop. -/
def deserializeHello (mem : Memory) (ver : IpVersion) (handler : LqHandler)
    (fuel : Nat) : HelloOutcome ver :=
  let type := pktGetU8 mem Cursor.start
  if type.1 ≠ helloMessage ∧ type.1 ≠ lqHelloMessage then
    ⟨type.2, true, none⟩
  else
    let header := readHelloHeader mem ver type.2
    let passes :=
      runHelloPasses mem ver (helloLq mem handler)
        header.1.1 header.2.pos fuel LinkType.order ⟨header.2, []⟩
    concludeHello header.1.2 passes

section Walk

variable (mem : Memory) (ver : IpVersion) (lq : Option LqHandler) (limit : Nat)

def blockLink (position : Nat) : LinkType := extractLink (mem position).toNat

def blockSize (position : Nat) : Nat := readU16 mem (position + 2)

/-- How many addresses are read from a block of `size` bytes: an incomplete
one at its end counts. -/
def recordCount (size : Nat) : Nat := (size - 4 + recordLength ver lq - 1) / recordLength ver lq

/-- Where the pass for `link` goes from the block at `position`. -/
def nextBlock (link : LinkType) (position : Nat) : Nat :=
  if blockLink mem position = link then
    position + 4 + recordCount ver lq (blockSize mem position) * recordLength ver lq
  else
    position + blockSize mem position

/-- How far the pass for `link` reads in the block at `position`. -/
def blockReach (link : LinkType) (position : Nat) : Nat :=
  if blockLink mem position = link ∧ 4 < blockSize mem position then
    position + 4 + (recordCount ver lq (blockSize mem position) - 1) *
        recordLength ver lq +
      recordRead ver lq
  else
    position + 4

/-- The positions the pass for `link` visits, the first one behind `limit`
included. -/
inductive BlockReached (link : LinkType) : Nat → Prop where
  | first : BlockReached link (16 + ver.ipsize)
  | next
      {position : Nat}
      (reached : BlockReached link position)
      (inside : position < limit) :
      BlockReached link (nextBlock mem ver lq link position)

/-- The pass for `link` meets no block of another link type whose size field
is zero. -/
def PassEnds (link : LinkType) : Prop :=
  ∀ position, BlockReached mem ver lq limit link position → position < limit →
    blockLink mem position = link ∨ 0 < blockSize mem position

private theorem roundUp_step {length amount : Nat} (positive : 0 < length) (some : 0 < amount) :
    (amount + length - 1) / length = (amount - length + length - 1) / length + 1 := by
  by_cases enough : length ≤ amount
  · obtain ⟨rest, rfl⟩ := Nat.exists_eq_add_of_le enough
    rw [← Nat.add_div_right _ positive]
    congr 1
    omega
  · have rounded : amount + length - 1 = amount - 1 + length := by omega
    rw [rounded, Nat.add_div_right _ positive,
      Nat.div_eq_of_lt (show amount - 1 < length by omega), Nat.div_eq_of_lt (by omega)]

private theorem readHelloBlock_curr (linkCode limit2 : Nat) (reading : HelloReading ver) :
    (readHelloBlock mem ver lq linkCode limit2 reading).curr =
      let count := (limit2 - reading.curr.pos + recordLength ver lq - 1) / recordLength ver lq
      ⟨reading.curr.pos + count * recordLength ver lq,
        if reading.curr.pos < limit2 then
          max reading.curr.reach
            (reading.curr.pos + (count - 1) * recordLength ver lq + recordRead ver lq)
        else
          reading.curr.reach⟩ := by
  have positive := recordLength_pos ver lq
  fun_induction readHelloBlock mem ver lq linkCode limit2 reading with
  | case1 reading inside next ih =>
    have moved : next.2 =
          ⟨reading.curr.pos + recordLength ver lq, max reading.curr.reach
              (reading.curr.pos + recordRead ver lq)⟩ :=
      readHelloNeighbor_cursor mem ver lq linkCode reading.curr
    rw [ih, moved]
    dsimp only
    rw [if_pos inside, roundUp_step positive (show 0 < limit2 - reading.curr.pos by omega),
      ← Nat.sub_sub, Cursor.mk.injEq]
    refine ⟨by rw [Nat.succ_mul]; omega, ?_⟩
    split
    next more =>
      rw [roundUp_step positive
        (show 0 < limit2 - reading.curr.pos - recordLength ver lq by
          omega)]
      simp only [Nat.add_sub_cancel, Nat.succ_mul]
      omega
    next last =>
      have nothingLeft : limit2 - reading.curr.pos - recordLength ver lq = 0 := by omega
      rw [nothingLeft, Nat.zero_add, Nat.div_eq_of_lt (by omega)]
      simp
  | case2 reading outside =>
    have nothingLeft : limit2 - reading.curr.pos = 0 := by omega
    dsimp only
    rw [nothingLeft, Nat.zero_add, Nat.div_eq_of_lt (by omega), if_neg outside]
    simp

theorem readBlockHeader_eq (curr : Cursor) : readBlockHeader mem curr =
      (((mem curr.pos).toNat, blockSize mem curr.pos),
        ⟨curr.pos + 4, max curr.reach (curr.pos + 4)⟩) := by
  obtain ⟨pos, reach⟩ := curr
  change
    (((mem pos).toNat, readU16 mem (pos + 1 + 1)),
      Cursor.mk (pos + 1 + 1 + 2) (max (max reach (pos + 1)) (pos + 1 + 1 + 2))) = _
  rw [Prod.mk.injEq, Cursor.mk.injEq]
  dsimp only
  exact ⟨rfl, by omega, by omega⟩

variable {link : LinkType} {reading : HelloReading ver}

theorem helloBlockStep_of_le (outside : limit ≤ reading.curr.pos) :
    helloBlockStep mem ver lq limit link reading = none := by
  rw [helloBlockStep, if_neg (by omega)]

theorem helloBlockStep_of_lt (link : LinkType) (inside : reading.curr.pos < limit) :
    ∃ neighbors, helloBlockStep mem ver lq limit link reading = some
          ⟨⟨nextBlock mem ver lq link reading.curr.pos,
              max reading.curr.reach (blockReach mem ver lq link reading.curr.pos)⟩,
            neighbors⟩ := by
  rw [helloBlockStep, if_pos inside, readBlockHeader_eq]
  dsimp only
  rw [← blockLink]
  by_cases own : blockLink mem reading.curr.pos = link
  · rw [if_neg (not_not.mpr own)]
    have left := readHelloBlock_curr mem ver lq (mem reading.curr.pos).toNat
        (reading.curr.pos + blockSize mem reading.curr.pos)
        ⟨⟨reading.curr.pos + 4, max reading.curr.reach (reading.curr.pos + 4)⟩, reading.neighbors⟩
    dsimp only at left
    rw [Nat.add_sub_add_left, ← recordCount] at left
    refine ⟨(readHelloBlock mem ver lq _ _ _).neighbors,
        congrArg some (congrArg (HelloReading.mk · _) (left.trans ?_))⟩
    rw [nextBlock, if_pos own, Cursor.mk.injEq]
    refine ⟨rfl, ?_⟩
    by_cases nonempty : 4 < blockSize mem reading.curr.pos
    · rw [if_pos (by omega), blockReach, if_pos ⟨own, nonempty⟩]
      omega
    · rw [if_neg (by omega), blockReach, if_neg (fun both => nonempty both.2)]
  · rw [if_pos own]
    refine ⟨reading.neighbors, congrArg some ?_⟩
    rw [nextBlock, if_neg own, blockReach, if_neg (fun both => own both.1)]

theorem helloBlockStep_eq_some {reading next : HelloReading ver}
    (taken : helloBlockStep mem ver lq limit link reading = some next) :
    reading.curr.pos < limit ∧ next.curr =
        ⟨nextBlock mem ver lq link reading.curr.pos,
          max reading.curr.reach (blockReach mem ver lq link reading.curr.pos)⟩ := by
  by_cases inside : reading.curr.pos < limit
  · obtain ⟨neighbors, step⟩ := helloBlockStep_of_lt mem ver lq limit link inside
    cases Option.some.inj (taken.symm.trans step)
    exact ⟨inside, rfl⟩
  · rw [helloBlockStep_of_le mem ver lq limit (by omega)] at taken
    cases taken

private theorem lt_nextBlock {position : Nat}
    (advances : blockLink mem position = link ∨ 0 < blockSize mem position) :
    position < nextBlock mem ver lq link position := by
  unfold nextBlock
  split
  · omega
  next other =>
    have sized := advances.resolve_left other
    omega

/-- The loop of one pass ends exactly when its walk meets no empty block of
another link type. -/
theorem loopTerminates_helloBlockStep_iff (link : LinkType) (reading : HelloReading ver)
    (atFirst : reading.curr.pos = 16 + ver.ipsize) :
    LoopTerminates (helloBlockStep mem ver lq limit link) reading ↔
      PassEnds mem ver lq limit link := by
  constructor
  · intro terminates position reached inside
    -- The loop also ends from some state at each visited position.
    have there : ∃ visited : HelloReading ver, visited.curr.pos = position ∧
            LoopTerminates (helloBlockStep mem ver lq limit link) visited := by
      clear inside
      induction reached with
      | first => exact ⟨reading, atFirst, terminates⟩
      | next reached before ih =>
        obtain ⟨visited, rfl, ends⟩ := ih
        obtain ⟨neighbors, taken⟩ := helloBlockStep_of_lt mem ver lq limit link before
        exact ⟨_, rfl, (loopTerminates_step taken).mp ends⟩
    obtain ⟨visited, visits, ends⟩ := there
    by_contra blocked
    rw [not_or, Nat.not_lt, Nat.le_zero] at blocked
    refine not_loopTerminates_of_stuck (fun st => st.curr.pos = position) ?_ visits ends
    intro st here
    obtain ⟨neighbors, taken⟩ := helloBlockStep_of_lt mem ver lq limit link (here.trans_lt inside)
    refine ⟨_, taken, ?_⟩
    dsimp only
    rw [here, nextBlock, if_neg blocked.1, blocked.2, Nat.add_zero]
  · intro advances
    refine loopTerminates_of_measure
        (fun st => BlockReached mem ver lq limit link st.curr.pos)
        (fun st => limit - st.curr.pos) ?_ ?_
        (limit - reading.curr.pos) le_rfl (atFirst ▸ .first)
    · intro st next reached taken
      obtain ⟨inside, moved⟩ := helloBlockStep_eq_some mem ver lq limit taken
      rw [moved]
      exact .next reached inside
    · intro st next reached taken
      obtain ⟨inside, moved⟩ := helloBlockStep_eq_some mem ver lq limit taken
      have further := lt_nextBlock mem ver lq (advances st.curr.pos reached inside)
      rw [moved]
      dsimp only
      omega

variable (currSaved : Nat)

theorem runHelloPasses_eq_of_ended {fuel more : Nat} (enough : fuel ≤ more) :
    ∀ {links : List LinkType} {reading : HelloReading ver},
      (runHelloPasses mem ver lq limit currSaved fuel links reading).2 = true →
      runHelloPasses mem ver lq limit currSaved more links reading =
        runHelloPasses mem ver lq limit currSaved fuel links reading
  | [], reading, ended => rfl
  | link :: rest, reading, ended => by
    unfold runHelloPasses at ended ⊢
    dsimp only at ended ⊢
    split at ended
    next walked =>
      rw [runLoop_eq_of_ended walked enough, if_pos walked, if_pos walked]
      exact runHelloPasses_eq_of_ended enough ended
    next stopped => exact absurd ended stopped

theorem runHelloPasses_ends_iff (atFirst : currSaved = 16 + ver.ipsize) :
    ∀ (links : List LinkType) (reading : HelloReading ver),
      (∃ fuel, (runHelloPasses mem ver lq limit currSaved fuel links reading).2 = true) ↔
      ∀ link ∈ links, PassEnds mem ver lq limit link
  | [], reading => by simp [runHelloPasses]
  | link :: rest, reading => by
    rw [List.forall_mem_cons]
    constructor
    · rintro ⟨fuel, ended⟩
      unfold runHelloPasses at ended
      dsimp only at ended
      split at ended
      next walked =>
        exact
          ⟨(loopTerminates_helloBlockStep_iff mem ver lq limit
              link _ atFirst).mp ⟨fuel, walked⟩,
            (runHelloPasses_ends_iff atFirst rest _).mp ⟨fuel, ended⟩⟩
      next stopped => exact absurd ended stopped
    · rintro ⟨passEnds, restEnds⟩
      obtain ⟨fuel, walked⟩ :=
        (loopTerminates_helloBlockStep_iff mem ver lq limit link
          { reading with curr := { reading.curr with pos := currSaved } }
          atFirst).mpr passEnds
      obtain ⟨more, ended⟩ := (runHelloPasses_ends_iff atFirst rest _).mpr restEnds
      refine ⟨max fuel more, ?_⟩
      unfold runHelloPasses
      dsimp only
      rw [runLoop_eq_of_ended walked (le_max_left fuel more), if_pos walked,
        runHelloPasses_eq_of_ended mem ver lq limit currSaved (le_max_right fuel more) ended]
      exact ended

end Walk

section Message

variable (mem : Memory) (ver : IpVersion) (handler : LqHandler)

def IsHello : Prop := mem 0 = helloMessage ∨ mem 0 = lqHelloMessage

instance : Decidable (IsHello mem) := instDecidableOr

private theorem readHelloHeader_size :
    (readHelloHeader mem ver (Cursor.start.read 1)).1.1 = readU16 mem 2 :=
  rfl

private theorem readHelloHeader_cursor :
    (readHelloHeader mem ver (Cursor.start.read 1)).2 = ⟨16 + ver.ipsize, 15 + ver.ipsize⟩ := by
  cases ver <;> rfl

def helloPasses (fuel : Nat) : HelloReading ver × Bool :=
  runHelloPasses mem ver (helloLq mem handler)
    (readU16 mem 2) (16 + ver.ipsize) fuel LinkType.order
    ⟨⟨16 + ver.ipsize, 15 + ver.ipsize⟩, []⟩

variable {mem}

theorem deserializeHello_of_not_isHello (rejected : ¬ IsHello mem) (fuel : Nat) :
    deserializeHello mem ver handler fuel = ⟨⟨1, 1⟩, true, none⟩ := by
  have unknown := not_or.mp rejected
  exact if_pos unknown

theorem deserializeHello_of_isHello (accepted : IsHello mem) (fuel : Nat) :
    deserializeHello mem ver handler fuel = concludeHello
        (readHelloHeader mem ver (Cursor.start.read 1)).1.2
        (helloPasses mem ver handler fuel) := by
  have known : ¬ (mem 0 ≠ helloMessage ∧ mem 0 ≠ lqHelloMessage) := by
    rintro ⟨notHello, notLq⟩
    exact accepted.elim notHello notLq
  have position := readHelloHeader_cursor mem ver
  refine (if_neg known).trans ?_
  dsimp only [pktGetU8]
  rw [position, readHelloHeader_size]
  rfl

variable (mem)

/-- `deserialize_hello` returns exactly when no pass over the blocks meets an
empty block of a link type other than its own. -/
theorem deserializeHello_ends_iff :
    (∃ fuel, (deserializeHello mem ver handler fuel).ended = true) ↔
      (IsHello mem → ∀ link ∈ LinkType.order,
          PassEnds mem ver (helloLq mem handler) (readU16 mem 2) link) := by
  by_cases accepted : IsHello mem
  · rw [← runHelloPasses_ends_iff mem ver (helloLq mem handler)
      (readU16 mem 2) (16 + ver.ipsize) rfl LinkType.order
      ⟨⟨16 + ver.ipsize, 15 + ver.ipsize⟩, []⟩]
    constructor
    · rintro ⟨fuel, ended⟩ -
      rw [deserializeHello_of_isHello ver handler accepted] at ended
      exact ⟨fuel, ended⟩
    · intro passesEnd
      obtain ⟨fuel, ended⟩ := passesEnd accepted
      refine ⟨fuel, ?_⟩
      rw [deserializeHello_of_isHello ver handler accepted]
      exact ended
  · refine iff_of_true ⟨0, ?_⟩ (fun known => absurd known accepted)
    rw [deserializeHello_of_not_isHello ver handler accepted]

end Message

/-- An IPv4 HELLO of 24 bytes whose only block, of a symmetric link, has the
size zero. -/
def emptyBlockHello : Memory := ofBytes
    [1, 134, 0, 24, 10, 0, 0, 1, 1, 0, 0, 5, 0, 0, 134, 3, 0, 0, 0, 0, 6, 0, 0, 0]

/-- The first pass never leaves that block. -/
theorem deserializeHello_loops_on_emptyBlock :
    ¬ ∀ (mem : Memory) (ver : IpVersion) (handler : LqHandler), IsHello mem →
        8 + ver.ipsize ≤ readU16 mem 2 →
        readU16 mem 2 % 4 = 0 →
        ∃ fuel, (deserializeHello mem ver handler fuel).ended = true := by
  intro terminates
  have isHello : IsHello emptyBlockHello := Or.inl rfl
  obtain ⟨fuel, ended⟩ := terminates emptyBlockHello .inet .etxFf isHello (by decide) (by decide)
  rw [deserializeHello_of_isHello .inet .etxFf isHello] at ended
  have advances :=
    (runHelloPasses_ends_iff emptyBlockHello .inet
      (helloLq emptyBlockHello .etxFf) (readU16 emptyBlockHello 2) 20 rfl
      LinkType.order ⟨⟨20, 19⟩, []⟩).mp ⟨fuel, ended⟩
  exact absurd (advances .unspec (by decide) 20 .first (by decide)) (by decide)

end QosOlsr
