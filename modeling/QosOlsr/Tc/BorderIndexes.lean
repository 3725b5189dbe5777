import QosOlsr.Tc.Input

/-!
# Where border flags point

`olsr_calculate_tc_border` takes the two border bytes of a received LQ_TC
message as bit positions and counts bytes back from the end of an address.
Here the bytes around the address are part of the model, so that a write in
front of the address can be told from one inside.
-/

namespace QosOlsr

open Function List

/-- A flag that names a bit of an address or is 0xff. -/
def BorderFits (ver : IpVersion) (border : UInt8) : Prop :=
  border = 0xff ∨ 1 ≤ border.toNat ∧ border.toNat ≤ 8 * ver.ipsize

theorem toNat_pred_border (border : UInt8) :
    (border - 1).toNat = if border = 0 then 255 else border.toNat - 1 := by
  split
  next isZero =>
    rw [isZero]
    rfl
  next notZero =>
    have positive : border.toNat ≠ 0 := by
      intro isZero
      exact notZero (UInt8.toNat_inj.mp isZero)
    rw [UInt8.toNat_sub_of_le]
    · rfl
    · rw [UInt8.le_iff_toNat_le]
      exact Nat.one_le_iff_ne_zero.mpr positive

/-- The bytes around a border address by their offset from its first byte, and
the indexes that were used into it. -/
structure BorderBytes where
  memory : Int → UInt8
  used : List Int

namespace BorderBytes

def write (index : Int) (change : UInt8 → UInt8) (bytes : BorderBytes) : BorderBytes :=
  ⟨update bytes.memory index (change (bytes.memory index)), bytes.used ++ [index]⟩

def fill (value : UInt8) (bytes : BorderBytes) : BorderBytes :=
  { bytes with
    memory := fun offset =>
      if 0 ≤ offset ∧ offset < 16 then value else bytes.memory offset }

variable (ver : IpVersion)

/-- The loop over the bytes behind the border, for `i` below `count`. -/
def clearBehind : Nat → BorderBytes → BorderBytes
  | 0, bytes => bytes
  | i + 1, bytes => (clearBehind i bytes).write ((ver.ipsize : Int) - i - 1) fun _ => 0

/-- The branch for a border flag other than 0xff.  The flag is decremented as
an unsigned byte. -/
def setBorder (border : UInt8) (bytes : BorderBytes) : BorderBytes :=
  let border := border - 1
  let index : Int := (ver.ipsize : Int) - (border.toNat / 8 : Nat) - 1
  let bit := UInt8.ofNat (border.toNat % 8)
  ((clearBehind ver (border.toNat / 8) bytes).write index
      fun byte => byte &&& (0xff <<< bit)).write index
    fun byte => byte ||| (1 <<< bit)

/-- `olsr_calculate_tc_border` with the bytes around both addresses. -/
def calculateTcBorder (lowerBorder : UInt8) (lowerBorderIp : BorderBytes) (upperBorder : UInt8)
    (upperBorderIp : BorderBytes) : Option (BorderBytes × BorderBytes) :=
  if lowerBorder = 0 ∧ upperBorder = 0 then
    none
  else
    some
      (if lowerBorder = 0xff then
          lowerBorderIp.fill 0
        else
          setBorder ver lowerBorder lowerBorderIp,
        if upperBorder = 0xff then
          upperBorderIp.fill 0xff
        else
          setBorder ver upperBorder upperBorderIp)

variable {ver}

private theorem mem_used_clearBehind_iff (count : Nat) (bytes : BorderBytes) (index : Int) :
    index ∈ (clearBehind ver count bytes).used ↔
      index ∈ bytes.used ∨ (ver.ipsize : Int) - count ≤ index ∧ index < ver.ipsize := by
  induction count with
  | zero =>
    have none : ¬((ver.ipsize : Int) - (0 : Nat) ≤ index ∧ index < ver.ipsize) := by omega
    exact (or_iff_left none).symm
  | succ i ih =>
    simp only [clearBehind, write, mem_append, mem_singleton, ih, or_assoc]
    refine or_congr_right ?_
    push_cast
    omega

theorem memory_clearBehind (count : Nat) (bytes : BorderBytes) (offset : Int) :
    (clearBehind ver count bytes).memory offset =
      if (ver.ipsize : Int) - count ≤ offset ∧ offset < ver.ipsize then
        0
      else
        bytes.memory offset := by
  induction count with
  | zero =>
    rw [if_neg (by omega)]
    rfl
  | succ i ih =>
    simp only [clearBehind, write]
    by_cases isIndex : offset = (ver.ipsize : Int) - i - 1
    · rw [isIndex, update_self, if_pos]
      omega
    · rw [update_of_ne isIndex, ih]
      congr 1
      apply propext
      push_cast
      omega

/-- The indexes of one border run back from the end of the address to the byte
that the flag names. -/
theorem mem_used_setBorder_iff (border : UInt8) {bytes : BorderBytes}
    (fresh : bytes.used = []) (index : Int) : index ∈ (setBorder ver border bytes).used ↔
      (ver.ipsize : Int) - ((border - 1).toNat / 8 : Nat) - 1 ≤ index ∧ index < ver.ipsize := by
  simp only [setBorder, write, mem_append, mem_singleton,
    mem_used_clearBehind_iff, fresh, not_mem_nil, false_or]
  omega

/-- The bytes behind the start are those of the address. -/
def Holds (addr : IpAddr ver) (bytes : BorderBytes) : Prop :=
  ∀ index (inAddr : index < addr.bytes.length), bytes.memory index = addr.bytes[index]

theorem Holds.setBorder {addr : IpAddr ver} {bytes : BorderBytes} (loaded : Holds addr bytes)
    (border : UInt8) : Holds (borderAddr (border - 1).toNat addr) (setBorder ver border bytes) := by
  intro index inAddr
  have addrLength := addr.length_eq
  have borderLength := (borderAddr (border - 1).toNat addr).length_eq
  have byteEq := loaded index (by omega)
  simp only [BorderBytes.setBorder, write, borderAddr, getElem_mapIdx, ← byteEq]
  generalize (border - 1).toNat / 8 = count
  rcases Nat.lt_trichotomy (ver.ipsize - 1 - index) count with behind | isBorder | before
  · have other : (index : Int) ≠ (ver.ipsize : Int) - count - 1 := by omega
    rw [update_of_ne other, update_of_ne other,
      memory_clearBehind, if_pos (by omega), if_pos behind]
  · have atBorder : (index : Int) = (ver.ipsize : Int) - count - 1 := by omega
    rw [atBorder, update_self, update_self,
      memory_clearBehind, if_neg (by omega), if_neg (by omega), if_pos isBorder, ← atBorder]
  · have other : (index : Int) ≠ (ver.ipsize : Int) - count - 1 := by omega
    rw [update_of_ne other, update_of_ne other,
      memory_clearBehind, if_neg (by omega), if_neg (by omega), if_neg (by omega)]

theorem holds_fill (value : UInt8) (bytes : BorderBytes) :
    Holds (⟨replicate ver.ipsize value, length_replicate ..⟩ : IpAddr ver) (bytes.fill value) := by
  intro index inAddr
  have most : ver.ipsize ≤ 16 := by cases ver <;> decide
  simp only [length_replicate] at inAddr
  exact (if_pos (by omega)).trans (getElem_replicate _).symm

/-- The bytes in front of the address and behind the 16 of its union are those
from before. -/
def KeepsOutside (before after : BorderBytes) : Prop :=
  ∀ offset, offset < 0 ∨ 16 ≤ offset → after.memory offset = before.memory offset

theorem keepsOutside_setBorder {border : UInt8} (positive : 1 ≤ border.toNat)
    (most : border.toNat ≤ 8 * ver.ipsize) (bytes : BorderBytes) :
    KeepsOutside bytes (setBorder ver border bytes) := by
  intro offset outside
  have sizeLe : ver.ipsize ≤ 16 := by cases ver <;> decide
  have predLt : (border - 1).toNat / 8 < ver.ipsize := by
    have notZero : border ≠ 0 := by
      rintro rfl
      exact absurd positive (by decide)
    rw [toNat_pred_border, if_neg notZero]
    omega
  have other : offset ≠ (ver.ipsize : Int) - ((border - 1).toNat / 8 : Nat) - 1 := by omega
  simp only [setBorder, write]
  rw [update_of_ne other, update_of_ne other, memory_clearBehind, if_neg (by omega)]

/-- For flags that name a bit of the address or are 0xff, what is written in
place are the borders as addresses, and nothing around them changes, so that it
does not matter where one address lies beside the other. -/
theorem calculateTcBorder_refines {lower upper : IpAddr ver} {lowerBytes upperBytes : BorderBytes}
    (lowerHolds : Holds lower lowerBytes) (upperHolds : Holds upper upperBytes)
    {lowerBorder upperBorder : UInt8}
    (fits : lowerBorder = 0 ∧ upperBorder = 0 ∨
      BorderFits ver lowerBorder ∧ BorderFits ver upperBorder) :
    Option.Rel
      (fun addrs bytes =>
        (Holds addrs.1 bytes.1 ∧ KeepsOutside lowerBytes bytes.1) ∧
          Holds addrs.2 bytes.2 ∧ KeepsOutside upperBytes bytes.2)
      (olsrCalculateTcBorder lowerBorder lower upperBorder upper)
      (calculateTcBorder ver lowerBorder lowerBytes upperBorder upperBytes) := by
  rw [olsrCalculateTcBorder, calculateTcBorder]
  split
  · exact .none
  next someBorder =>
    obtain ⟨lowerFits, upperFits⟩ := fits.resolve_left someBorder
    refine .some ⟨?_, ?_⟩
    · dsimp only
      split
      · exact ⟨holds_fill 0 lowerBytes, fun _ outside => if_neg (by omega)⟩
      next notMax =>
        obtain ⟨positive, most⟩ := lowerFits.resolve_left notMax
        exact ⟨lowerHolds.setBorder lowerBorder, keepsOutside_setBorder positive most lowerBytes⟩
    · dsimp only
      split
      · exact ⟨holds_fill 0xff upperBytes, fun _ outside => if_neg (by omega)⟩
      next notMax =>
        obtain ⟨positive, most⟩ := upperFits.resolve_left notMax
        exact ⟨upperHolds.setBorder upperBorder, keepsOutside_setBorder positive most upperBytes⟩

theorem calculateTcBorder_refines_three :
    Option.Rel
      (fun addrs bytes =>
        (Holds addrs.1 bytes.1 ∧ KeepsOutside ⟨fun _ => 7, []⟩ bytes.1) ∧
          Holds addrs.2 bytes.2 ∧ KeepsOutside ⟨fun _ => 7, []⟩ bytes.2)
      (olsrCalculateTcBorder 3 (⟨replicate 4 7, rfl⟩ : IpAddr .inet) 0xff ⟨replicate 4 7, rfl⟩)
      (calculateTcBorder .inet 3 ⟨fun _ => 7, []⟩ 0xff ⟨fun _ => 7, []⟩) :=
  have loaded : Holds (⟨replicate 4 7, rfl⟩ : IpAddr .inet) ⟨fun _ => 7, []⟩ :=
    fun _ _ => (getElem_replicate _).symm
  calculateTcBorder_refines loaded loaded (.inr ⟨.inr (by decide), .inl rfl⟩)

end BorderBytes

def IndexesInside (ver : IpVersion) (bytes : BorderBytes) : Prop :=
  ∀ index ∈ bytes.used, 0 ≤ index ∧ index < (ver.ipsize : Int)

private theorem indexesInside_setBorder_iff {ver : IpVersion} (border : UInt8) {bytes : BorderBytes}
    (fresh : bytes.used = []) : IndexesInside ver (bytes.setBorder ver border) ↔
      1 ≤ border.toNat ∧ border.toNat ≤ 8 * ver.ipsize := by
  have sizePos := ver.ipsize_pos
  have sizeLe : ver.ipsize ≤ 16 := by cases ver <;> decide
  have lastByte : IndexesInside ver (bytes.setBorder ver border) ↔
        (border - 1).toNat / 8 < ver.ipsize := by
    unfold IndexesInside
    simp only [BorderBytes.mem_used_setBorder_iff border fresh]
    constructor
    · intro inside
      have last := inside ((ver.ipsize : Int) - ((border - 1).toNat / 8 : Nat) - 1) (by omega)
      omega
    · intro below index used
      omega
  rw [lastByte, toNat_pred_border]
  split
  next isZero =>
    rw [isZero]
    simp only [UInt8.toNat_zero]
    omega
  next notZero =>
    have positive : border.toNat ≠ 0 := by
      intro isZero
      exact notZero (UInt8.toNat_inj.mp isZero)
    omega

private theorem indexesInside_fill {ver : IpVersion} (value : UInt8)
    {bytes : BorderBytes} (fresh : bytes.used = []) : IndexesInside ver (bytes.fill value) := by
  intro index used
  rw [BorderBytes.fill, fresh] at used
  cases used

/-- The indexes into the border addresses are inside them exactly when both
flags are 0 or each names a bit of an address or is 0xff. -/
theorem calculateTcBorder_indexesInside_iff (ver : IpVersion) (lowerBorder upperBorder : UInt8)
    (lowerMemory upperMemory : Int → UInt8) :
    (∀ lower upper, BorderBytes.calculateTcBorder ver lowerBorder ⟨lowerMemory, []⟩
          upperBorder ⟨upperMemory, []⟩ = some (lower, upper) →
        IndexesInside ver lower ∧ IndexesInside ver upper) ↔
      lowerBorder = 0 ∧ upperBorder = 0 ∨ BorderFits ver lowerBorder ∧
          BorderFits ver upperBorder := by
  have branch (border value : UInt8) (mem : Int → UInt8) : IndexesInside ver
          (if border = 0xff then
            BorderBytes.fill value ⟨mem, []⟩
          else
            BorderBytes.setBorder ver border ⟨mem, []⟩) ↔
        BorderFits ver border := by
    unfold BorderFits
    by_cases isMax : border = 0xff
    · rw [if_pos isMax]
      exact iff_of_true (indexesInside_fill value rfl) (Or.inl isMax)
    · rw [if_neg isMax, indexesInside_setBorder_iff border rfl]
      exact (or_iff_right isMax).symm
  unfold BorderBytes.calculateTcBorder
  by_cases noBorder : lowerBorder = 0 ∧ upperBorder = 0
  · simp [noBorder]
  · rw [if_neg noBorder, or_iff_right noBorder,
      ← branch lowerBorder 0 lowerMemory, ← branch upperBorder 0xff upperMemory]
    constructor
    · intro inside
      exact inside _ _ rfl
    · rintro inside lower upper ⟨⟩
      exact inside

/-- A lower border flag of 0 beside an upper one of 1 is decremented to 255:
the first byte written is 28 bytes in front of an IPv4 address. -/
theorem calculateTcBorder_zero_flag : ∃ lower upper,
      BorderBytes.calculateTcBorder .inet 0 ⟨fun _ => 0, []⟩ 1
          ⟨fun _ => 0, []⟩ = some (lower, upper) ∧
        (-28 : Int) ∈ lower.used := by
  refine ⟨_, _, rfl, ?_⟩
  decide

end QosOlsr
