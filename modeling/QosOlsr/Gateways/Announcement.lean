import QosOlsr.Gateways.Safety

/-!
# Announcing a gateway

A gateway writes its speeds and flags over the host part of the netmask of an
HNA, which is a round trip over IPv4.
-/

namespace QosOlsr

variable {ver : IpVersion}

/-- `is_prefix_inetgw`: of `2000::/3` only the length is compared. -/
def isPrefixInetgw : {ver : IpVersion} → Lsdb.IpNetwork ver → Bool
  | .inet, net => net.prefixLen = 0 ∧ net.network.bytes = [0, 0, 0, 0]
  | .inet6, net =>
    net.prefixLen = 3 ∨ net.prefixLen = 96 ∧ net.network.bytes.take 12 =
          [0, 0, 0, 0, 0, 0, 0, 0, 0, 0, 0xff, 0xff]

/-- `prefix_to_netmask` on this number of bytes. -/
def prefixToNetmask : Nat → Nat → List UInt8
  | 0, _ => []
  | len + 1, prefixLen =>
    if 8 < prefixLen then
      0xff :: prefixToNetmask len (prefixLen - 8)
    else
      UInt8.ofNat (0xff <<< (8 - prefixLen)) :: List.replicate len 0

private theorem prefixToNetmask_length (len prefixLen : Nat) :
    (prefixToNetmask len prefixLen).length = len := by
  induction len generalizing prefixLen with
  | zero => rfl
  | succ len ih =>
    rw [prefixToNetmask]
    split
    · rw [List.length_cons, ih]
    · rw [List.length_cons, List.length_replicate]

def olsrPrefixToNetmask (prefixLen : Nat) : IpAddr ver :=
  ⟨prefixToNetmask ver.ipsize prefixLen, prefixToNetmask_length _ _⟩

end QosOlsr

namespace QosOlsr.Gateways

variable {ver : IpVersion}

/-- What the configuration says about the own gateway.  Of the external prefix
the length zero stands for none. -/
structure SgwConfig where
  smartGwActive : Bool
  smartGwUplink : Nat
  smartGwDownlink : Nat
  smartGwUplinkNat : Bool
  smartGwPrefix : IpAddr .inet6
  smartGwPrefixLen : UInt8
  hasIpv4Gateway : Bool
  hasIpv6Gateway : Bool

/-- The loop of `serialize_gw_speed`, which divides at most this often: the
mantissa and the number of divisions. -/
def scaleSpeed : Nat → Nat → Nat × Nat
  | 0, speed => (speed, 0)
  | left + 1, speed =>
    if 32 < speed ∨ speed % 10 = 0 then
      ((scaleSpeed left (speed / 10)).1, (scaleSpeed left (speed / 10)).2 + 1)
    else
      (speed, 0)

def serializeGwSpeed (speed : Nat) : UInt8 :=
  if speed = 0 then
    0
  else
    let speed := if speed = 1 then 2 else speed
    if maxSmartgwSpeed ≤ speed then
      255
    else
      UInt8.ofNat (((scaleSpeed 7 speed).1 - 1) <<< 3 ||| (scaleSpeed 7 speed).2)

/-- `refresh_smartgw_netmask`: the sixteen bytes of `smart_gateway_netmask` or,
without bandwidth, of `smart_gateway_netmask_zero`. -/
def refreshSmartgwNetmask (ver : IpVersion) (cfg : SgwConfig) (zero : Bool) : List UInt8 :=
  if cfg.smartGwActive then
    let prefixed := ver = .inet6 ∧ 0 < cfg.smartGwPrefixLen
    let speed := fun value => serializeGwSpeed (if zero then 0 else value)
    [0, if prefixed then 1 ||| 16 else 1, speed cfg.smartGwUplink,
      speed cfg.smartGwDownlink] ++
      (if prefixed then
        cfg.smartGwPrefixLen :: cfg.smartGwPrefix.bytes.take 8
      else
        List.replicate 9 0) ++
      List.replicate 3 0
  else
    List.replicate 16 0

/-- The memory at a mask, and the place behind the last byte written. -/
structure MaskMemory where
  byte : Nat → UInt8
  reach : Nat

def MaskMemory.copy (mem : MaskMemory) (offset : Nat) (source : List UInt8) : MaskMemory where
  byte := fun index =>
    if offset ≤ index ∧ index < offset + source.length then
      source.getD (index - offset) 0
    else
      mem.byte index
  reach := max mem.reach (offset + source.length)

def MaskMemory.modify (mem : MaskMemory) (place : Nat) (write : UInt8 → UInt8) : MaskMemory where
  byte := Function.update mem.byte place (write (mem.byte place))
  reach := max mem.reach (place + 1)

/-- The flags that `olsr_modifiy_inetgw_netmask` adds and removes. -/
def modifiedFlags (cfg : SgwConfig) (prefixLen : Nat) (flags : UInt8) : UInt8 :=
  let flags := if cfg.hasIpv4Gateway then flags ||| 2 else flags
  let flags :=
    if cfg.hasIpv4Gateway ∧ cfg.smartGwUplinkNat then flags ||| 4
    else flags
  let flags := if cfg.hasIpv6Gateway then flags ||| 8 else flags
  if cfg.hasIpv6Gateway = false ∨ prefixLen ≠ 3 then flags &&& ~~~16
  else flags

def olsrModifiyInetgwNetmask (ver : IpVersion) (cfg : SgwConfig) (mask : MaskMemory)
    (prefixLen : Nat) (zero : Bool) : MaskMemory :=
  let copied :=
    mask.copy (hnaOffset prefixLen) ((refreshSmartgwNetmask ver cfg zero).take (16 - prefixLen / 8))
  copied.modify (hnaOffset prefixLen + 1) (modifiedFlags cfg prefixLen)

def inetgwPrefixLen : IpVersion → Nat
  | .inet => 0
  | .inet6 => 3

def inetgwPrefix : (ver : IpVersion) → IpAddr ver
  | .inet => .v4 0 0 0 0
  | .inet6 => ⟨ipv6InternetRoute, rfl⟩

def announcedMask (ver : IpVersion) (cfg : SgwConfig) (mem : Nat → UInt8) : MaskMemory :=
  let netmask : IpAddr ver := olsrPrefixToNetmask (inetgwPrefixLen ver)
  olsrModifiyInetgwNetmask ver cfg ((⟨mem, 0⟩ : MaskMemory).copy 0 netmask.bytes)
    (inetgwPrefixLen ver) false

def MaskMemory.sent (mem : MaskMemory) (ver : IpVersion) : IpAddr ver :=
  ⟨(List.range ver.ipsize).map mem.byte, by simp⟩

def lastMaskBits (byte : UInt8) : Option Nat :=
  if byte = 0 then some 0
  else if byte = 128 then some 1
  else if byte = 192 then some 2
  else if byte = 224 then some 3
  else if byte = 240 then some 4
  else if byte = 248 then some 5
  else if byte = 252 then some 6
  else if byte = 254 then some 7
  else none

/-- `netmask_to_prefix`, with what has been counted so far. -/
def netmaskToPrefix (counted : Nat) : List UInt8 → Nat
  | [] => counted
  | byte :: rest =>
    if byte = 255 then
      netmaskToPrefix (counted + 8) rest
    else
      match lastMaskBits byte with
      | some bits => counted + bits
      | none => 255

def olsrIsSmartGateway (net : Lsdb.IpNetwork ver) (mask : IpAddr ver) : Bool :=
  isPrefixInetgw net && hnaByte mask.bytes net.prefixLen 0 = 0 &&
    hnaByte mask.bytes net.prefixLen 1 ≠ 0

def receivedPrefix (mask : IpAddr ver) : Lsdb.IpNetwork ver where
  network := inetgwPrefix ver
  prefixLen := netmaskToPrefix 0 mask.bytes

structure StoresAnnouncement (cfg : SgwConfig) (entry : GatewayEntry ver) : Prop where
  ipv4 : entry.ipv4 = cfg.hasIpv4Gateway
  nat : cfg.hasIpv4Gateway = true → entry.ipv4nat = cfg.smartGwUplinkNat
  ipv6 : ver = .inet6 → entry.ipv6 = cfg.hasIpv6Gateway
  uplink : entry.uplink = deserializeGwSpeed (serializeGwSpeed cfg.smartGwUplink)
  downlink : entry.downlink = deserializeGwSpeed (serializeGwSpeed cfg.smartGwDownlink)
  external : ver = .inet6 → 0 < cfg.smartGwPrefixLen →
    entry.externalPrefixLen = cfg.smartGwPrefixLen.toNat ∧
      entry.externalPrefix = cfg.smartGwPrefix.bytes.take 8

/-- An announcement is written inside its mask, recognised, and stored by every
receiver that has not seen a newer one. -/
structure RoundTrips (ver : IpVersion) (cfg : SgwConfig) (mem : Nat → UInt8) : Prop where
  inside : (announcedMask ver cfg mem).reach ≤ 16
  recognised :
    let mask := (announcedMask ver cfg mem).sent ver
    olsrIsSmartGateway (receivedPrefix mask) mask = true
  stored : ∀ (gwConfig : GwConfig) (world : GwWorld ver)
    (st : GwState ver) (originator : IpAddr ver) (seqno : UInt16),
    GwInv st → KeepsCurrent world →
    (∀ gw entry, st.findGateway originator = some gw →
      st.entries gw = some entry → 0 < olsrSeqnoDiff seqno entry.seqno) →
    let mask := (announcedMask ver cfg mem).sent ver
    ∃ after gw entry, olsrUpdateGatewayEntry gwConfig world originator mask
        (receivedPrefix mask).prefixLen seqno st = some after ∧
      after.entries gw = some entry ∧ entry.originator = originator ∧
      StoresAnnouncement cfg entry

/-! ## Speeds -/

/-- The loop divides until the mantissa fits and, without a loss, as long as the
last digit is a zero. -/
theorem scaleSpeed_spec (left speed : Nat) (positive : 0 < speed) (small : speed < 32 * 10 ^ left) :
    (0 < (scaleSpeed left speed).1 ∧ (scaleSpeed left speed).1 ≤ 32 ∧
      (scaleSpeed left speed).2 ≤ left) ∧
    ∃ k ≤ left, (scaleSpeed left speed).1 * 10 ^ (scaleSpeed left speed).2 =
        speed / 10 ^ k * 10 ^ k ∧ speed < 33 * 10 ^ k ∧ ∀ less < k, 33 * 10 ^ less ≤ speed := by
  induction left generalizing speed with
  | zero =>
    exact ⟨by simp only [scaleSpeed]; omega, 0, le_rfl, by simp [scaleSpeed], by omega, by simp⟩
  | succ left ih =>
    rw [pow_succ] at small
    rw [scaleSpeed]
    split
    next divides =>
      obtain ⟨bounds, k, kLe, same, fits, least⟩ := ih (speed / 10) (by omega) (by omega)
      refine ⟨by dsimp only; omega, ?_⟩
      dsimp only
      rw [pow_succ, ← mul_assoc, same]
      by_cases large : 32 < speed
      · refine ⟨k + 1, by omega, ?_, by rw [pow_succ]; omega, ?_⟩
        · rw [Nat.div_div_eq_div_mul, ← pow_succ', mul_assoc, ← pow_succ]
        · rintro (_ | less) below
          · omega
          · have := least less (by omega)
            rw [pow_succ]
            omega
      · -- nothing more is cut off from a number of one digit
        have noMore : k = 0 := by
          by_contra some
          have := least 0 (by omega)
          omega
        subst noMore
        exact ⟨0, by omega, by simp; omega, by omega, by simp⟩
    next stays => exact ⟨by dsimp only; omega, 0, by omega, by simp, by omega, by simp⟩

/-- What a receiver reads from the announcement of a speed. -/
def shownSpeed (speed : Nat) : Nat := deserializeGwSpeed (serializeGwSpeed speed)

variable {speed : Nat}

theorem shownSpeed_eq (several : 2 ≤ speed) (small : speed < maxSmartgwSpeed) :
    ∃ k < 8, shownSpeed speed = speed / 10 ^ k * 10 ^ k ∧ speed < 33 * 10 ^ k ∧
      ∀ less < k, 33 * 10 ^ less ≤ speed := by
  obtain ⟨⟨positive, mantissaLe, exponentLe⟩, k, kLe, same, fits, least⟩ :=
    scaleSpeed_spec 7 speed (by omega) small
  have below : speed / 10 ^ k * 10 ^ k ≤ speed := Nat.div_mul_le_self _ _
  have above : 2 ≤ speed / 10 ^ k * 10 ^ k := by
    have previous := least (k - 1)
    interval_cases k <;> omega
  refine ⟨k, by omega, ?_, fits, least⟩
  rw [← same] at below above ⊢
  rw [shownSpeed, serializeGwSpeed, if_neg (by omega)]
  dsimp only
  rw [if_neg (by omega : speed ≠ 1), if_neg small.not_ge]
  generalize scaleSpeed 7 speed = scaled at *
  obtain ⟨mantissa, exponent⟩ := scaled
  dsimp only at *
  have isByte : (UInt8.ofNat ((mantissa - 1) <<< 3 ||| exponent)).toNat =
      (mantissa - 1) * 8 + exponent := by
    rw [← Nat.shiftLeft_add_eq_or_of_lt (by omega), Nat.shiftLeft_eq, UInt8.toNat_ofNat',
      Nat.mod_eq_of_lt (by omega)]
  rw [deserializeGwSpeed, if_neg, if_neg, isByte, show ((mantissa - 1) * 8 + exponent) / 8 + 1 =
    mantissa by omega, show ((mantissa - 1) * 8 + exponent) % 8 = exponent by omega]
  · rw [maxSmartgwSpeed] at small
    exact Nat.mod_eq_of_lt (by omega)
  · -- the greatest mantissa and exponent are those of the maximum
    intro isMax
    rw [isMax] at isByte
    obtain ⟨rfl, rfl⟩ : mantissa = 32 ∧ exponent = 7 := by
      change 255 = _ at isByte
      omega
    exact absurd small below.not_gt
  · intro isZero
    rw [isZero] at isByte
    obtain ⟨rfl, rfl⟩ : mantissa = 1 ∧ exponent = 0 := by
      change 0 = _ at isByte
      omega
    exact absurd above (by decide)

theorem shownSpeed_bounds (several : 2 ≤ speed) (small : speed < maxSmartgwSpeed) :
    0 < shownSpeed speed ∧ shownSpeed speed ≤ speed ∧ 3 * speed < 4 * shownSpeed speed := by
  obtain ⟨k, kLt, same, fits, least⟩ := shownSpeed_eq several small
  have previous := least (k - 1)
  rw [same]
  interval_cases k <;> omega

theorem shownSpeed_of_max_le (large : maxSmartgwSpeed ≤ speed) :
    shownSpeed speed = maxSmartgwSpeed := by
  have isMax : serializeGwSpeed speed = 255 := by
    rw [maxSmartgwSpeed] at large
    simp [serializeGwSpeed, maxSmartgwSpeed, show speed ≠ 0 by omega, show speed ≠ 1 by omega,
      large]
  rw [shownSpeed, isMax]
  rfl

theorem shownSpeed_pos (positive : 0 < speed) : 0 < shownSpeed speed := by
  by_cases large : maxSmartgwSpeed ≤ speed
  · rw [shownSpeed_of_max_le large]
    decide
  · by_cases isOne : speed = 1
    · subst isOne
      decide
    · exact (shownSpeed_bounds (by omega) (by omega)).1

/-- Between 31 and 33 times a power of ten a speed keeps a digit that the ones up
to 40 times lose. -/
def LosesDigit (slow fast : Nat) : Prop :=
  ∃ k < 7, 31 * 10 ^ k ≤ slow ∧ slow < 33 * 10 ^ k ∧ 33 * 10 ^ k ≤ fast ∧ fast < 40 * 10 ^ k

private theorem shownSpeed_mono {slow fast : Nat} (several : 2 ≤ slow) (le : slow ≤ fast)
    (small : fast < maxSmartgwSpeed) (keeps : ¬ LosesDigit slow fast) :
    shownSpeed slow ≤ shownSpeed fast := by
  obtain ⟨k, kLt, slowEq, slowFits, slowLeast⟩ := shownSpeed_eq several (by omega)
  obtain ⟨j, jLt, fastEq, fastFits, fastLeast⟩ := shownSpeed_eq (by omega) small
  rw [slowEq, fastEq]
  obtain before | rfl | before := lt_trichotomy j k
  · exact absurd (slowLeast j before) (by omega)
  · exact Nat.mul_le_mul_right _ (Nat.div_le_div_right le)
  · have digit : slow < 31 * 10 ^ k ∨ 40 * 10 ^ k ≤ fast := by
      by_contra lost
      rw [not_or, not_lt, not_le] at lost
      exact keeps ⟨k, by omega, lost.1, slowFits, fastLeast k before, lost.2⟩
    have tenfold : ∀ more, k < more → 10 * 10 ^ k ≤ 10 ^ more := by
      intro more later
      rw [← pow_succ']
      exact Nat.pow_le_pow_right (by decide) later
    have cut : ∀ digits, digits * 10 ^ j ≤ fast → digits * 10 ^ j ≤ fast / 10 ^ j * 10 ^ j :=
      fun digits le =>
        Nat.mul_le_mul_right _ ((Nat.le_div_iff_mul_le (Nat.pow_pos (by decide))).2 le)
    obtain ⟨i, rfl⟩ : ∃ i, j = i + 1 := ⟨j - 1, by omega⟩
    have previous := fastLeast i (by omega)
    have ten := tenfold _ before
    rw [pow_succ] at cut ten ⊢
    have three := cut 3 (by omega)
    obtain slower | faster := digit
    · have thirty : slow / 10 ^ k ≤ 30 := by
        have := Nat.div_lt_of_lt_mul (mul_comm 31 _ ▸ slower)
        omega
      have := Nat.mul_le_mul_right (10 ^ k) thirty
      omega
    · have below : slow / 10 ^ k * 10 ^ k ≤ slow := Nat.div_mul_le_self _ _
      obtain rfl | later := (Nat.le_of_lt_succ before).eq_or_lt
      · have := cut 4 (by omega)
        omega
      · have := tenfold _ later
        omega

private theorem shownSpeed_lt_of_losesDigit {slow fast : Nat} (loses : LosesDigit slow fast) :
    shownSpeed fast < shownSpeed slow := by
  obtain ⟨k, kLt, slowLe, slowLt, fastLe, fastLt⟩ := loses
  have power : ∀ {less more : Nat}, less ≤ more → 10 ^ less ≤ 10 ^ more :=
    Nat.pow_le_pow_right (by decide)
  have million := power (Nat.le_of_lt_succ kLt)
  have one := power (Nat.zero_le k)
  obtain ⟨i, -, slowEq, slowFits, slowLeast⟩ :=
    shownSpeed_eq (by omega) (by rw [maxSmartgwSpeed]; omega : slow < _)
  obtain ⟨j, -, fastEq, fastFits, fastLeast⟩ :=
    shownSpeed_eq (by omega) (by rw [maxSmartgwSpeed]; omega : fast < _)
  obtain rfl : i = k := by
    rcases lt_trichotomy i k with less | same | more
    · have := power (Nat.succ_le_of_lt less)
      rw [pow_succ] at this
      omega
    · exact same
    · exact absurd (slowLeast k more) (by omega)
  obtain rfl : j = i + 1 := by
    rcases lt_trichotomy j (i + 1) with less | same | more
    · have := power (Nat.le_of_lt_succ less)
      omega
    · exact same
    · have := fastLeast (i + 1) more
      rw [pow_succ] at this
      omega
  have many : 31 ≤ slow / 10 ^ i := (Nat.le_div_iff_mul_le (by omega)).mpr slowLe
  have few : fast / 10 ^ (i + 1) < 4 := Nat.div_lt_of_lt_mul (by rw [pow_succ]; omega)
  have := Nat.mul_le_mul_right (10 ^ i) many
  have := Nat.mul_le_mul_right (10 ^ (i + 1)) (Nat.le_of_lt_succ few)
  rw [slowEq, fastEq]
  rw [pow_succ] at *
  omega

/-- A speed is shown with more than three quarters of its value, and a faster one
as no slower exactly if it does not lose a digit. -/
theorem shownSpeed_near (slow fast : Nat) :
    (2 ≤ slow → slow < maxSmartgwSpeed →
      0 < shownSpeed slow ∧ shownSpeed slow ≤ slow ∧ 3 * slow < 4 * shownSpeed slow) ∧
    (maxSmartgwSpeed ≤ slow → shownSpeed slow = maxSmartgwSpeed) ∧
    (slow ≤ fast → (shownSpeed slow ≤ shownSpeed fast ↔ ¬ LosesDigit slow fast)) := by
  refine
    ⟨shownSpeed_bounds, shownSpeed_of_max_le, fun le => ⟨fun shown loses => ?_, fun keeps => ?_⟩⟩
  · exact (shownSpeed_lt_of_losesDigit loses).not_ge shown
  by_cases several : 2 ≤ slow
  · by_cases large : maxSmartgwSpeed ≤ fast
    · rw [shownSpeed_of_max_le large]
      by_cases slowLarge : maxSmartgwSpeed ≤ slow
      · exact (shownSpeed_of_max_le slowLarge).le
      · exact (shownSpeed_bounds several (by omega)).2.1.trans (by omega)
    · exact shownSpeed_mono several le (by omega) keeps
  · obtain rfl | rfl : slow = 0 ∨ slow = 1 := by omega
    · exact Nat.zero_le _
    · have two : shownSpeed 1 = 2 := by decide
      rw [two]
      by_cases large : maxSmartgwSpeed ≤ fast
      · rw [shownSpeed_of_max_le large]
        decide
      · obtain rfl | more := le.eq_or_lt
        · exact two.ge
        · have := shownSpeed_bounds more (by omega)
          omega

theorem shownSpeed_near_fourfold :
    3 * 329 < 4 * shownSpeed 329 ∧ shownSpeed 329 ≤ shownSpeed 400 := by
  have near := shownSpeed_near 329 400
  have keeps : ¬ LosesDigit 329 400 := by
    unfold LosesDigit
    decide
  exact ⟨(near.1 (by decide) (by decide)).2.2, (near.2.2 (by decide)).mpr keeps⟩

theorem shownSpeed_loses_digit : shownSpeed 330 = 300 ∧ shownSpeed 329 = 320 := by
  decide

variable {cfg : SgwConfig}

section

variable (active : cfg.smartGwActive = true) (mem : Nat → UInt8)
include active

private theorem announcedMask_ipv4_sent : ((announcedMask .inet cfg mem).sent .inet).bytes =
      [0, modifiedFlags cfg 0 1, serializeGwSpeed cfg.smartGwUplink,
        serializeGwSpeed cfg.smartGwDownlink] := by
  have four : List.range 4 = [0, 1, 2, 3] := rfl
  simp [MaskMemory.sent, announcedMask, olsrModifiyInetgwNetmask,
    MaskMemory.copy, MaskMemory.modify, refreshSmartgwNetmask, active,
    inetgwPrefixLen, hnaOffset, IpVersion.ipsize, four]

private theorem announcedMask_ipv4_reach : (announcedMask .inet cfg mem).reach = 16 := by
  simp [announcedMask, olsrModifiyInetgwNetmask, MaskMemory.copy,
    MaskMemory.modify, refreshSmartgwNetmask, active, inetgwPrefixLen,
    hnaOffset, IpAddr.length_eq, IpVersion.ipsize]

/-- Over IPv6 the parameters begin at the second byte, and sixteen bytes are
copied nevertheless. -/
theorem announcedMask_ipv6_reach : (announcedMask .inet6 cfg mem).reach = 17 := by
  have length : (refreshSmartgwNetmask .inet6 cfg false).length = 16 := by
    unfold refreshSmartgwNetmask
    rw [if_pos active]
    dsimp only
    split <;> simp [IpAddr.length_eq, IpVersion.ipsize]
  simp [announcedMask, olsrModifiyInetgwNetmask, MaskMemory.copy,
    MaskMemory.modify, inetgwPrefixLen, hnaOffset, IpAddr.length_eq, IpVersion.ipsize, length]

end

theorem modifiedFlags_ipv4 (cfg : SgwConfig) : (modifiedFlags cfg 0 1 &&& 1 ≠ 0) ∧
    (modifiedFlags cfg 0 1 &&& 2 ≠ 0 ↔ cfg.hasIpv4Gateway = true) ∧
    (modifiedFlags cfg 0 1 &&& 4 ≠ 0 ↔ cfg.hasIpv4Gateway = true ∧ cfg.smartGwUplinkNat = true) ∧
    modifiedFlags cfg 0 1 ≠ 0 := by
  unfold modifiedFlags
  cases cfg.hasIpv4Gateway <;> cases cfg.hasIpv6Gateway <;> cases cfg.smartGwUplinkNat <;> decide

private theorem announcedEntry_ipv4_stores {mask : IpAddr .inet}
    (isMask : mask.bytes =
      [0, modifiedFlags cfg 0 1, serializeGwSpeed cfg.smartGwUplink,
        serializeGwSpeed cfg.smartGwDownlink])
    (seqno : UInt16) (entry : GatewayEntry .inet) :
    StoresAnnouncement cfg (announcedEntry mask 0 seqno entry) := by
  obtain ⟨speed, isIpv4, isNat, _⟩ := modifiedFlags_ipv4 cfg
  constructor
  case ipv4 =>
    rw [Bool.eq_iff_iff, ← isIpv4]
    simp [announcedEntry, hnaFlag, hnaByte, hnaOffset, isMask]
  case nat =>
    intro hasIpv4
    rw [hasIpv4] at isNat
    rw [Bool.eq_iff_iff]
    simpa [announcedEntry, hnaFlag, hnaByte, hnaOffset, isMask] using isNat
  case ipv6 =>
    intro no
    cases no
  case uplink => simp [announcedEntry, hnaFlag, hnaByte, hnaOffset, isMask, speed]
  case downlink => simp [announcedEntry, hnaFlag, hnaByte, hnaOffset, isMask, speed]
  case external =>
    intro no
    cases no

private theorem StoresAnnouncement.withTimers {entry : GatewayEntry ver}
    (stores : StoresAnnouncement cfg entry) (pathCost : Int) :
    StoresAnnouncement cfg
      { entry with
        expireTimer := true
        cleanupTimer := .unset
        pathCost := pathCost } :=
  ⟨stores.ipv4, stores.nat, stores.ipv6, stores.uplink, stores.downlink, stores.external⟩

private theorem olsrUpdateGatewayEntry_stores {gwConfig : GwConfig} {world : GwWorld ver}
    {st : GwState ver} {originator mask : IpAddr ver} {prefixLen : Nat} {seqno : UInt16}
    (inv : GwInv st) (keeps : KeepsCurrent world)
    (newer : ∀ gw entry, st.findGateway originator = some gw →
      st.entries gw = some entry → 0 < olsrSeqnoDiff seqno entry.seqno)
    (speeds : ∀ entry : GatewayEntry ver,
      (announcedEntry mask prefixLen seqno entry).uplink ≠ 0 ∧
        (announcedEntry mask prefixLen seqno entry).downlink ≠ 0) :
    ∃ after gw entry pathCost, olsrUpdateGatewayEntry gwConfig world originator mask prefixLen seqno
        st = some after ∧
      entry.originator = originator ∧
      after.entries gw = some
          { announcedEntry mask prefixLen seqno entry with
            expireTimer := true
            cleanupTimer := .unset
            pathCost := pathCost } := by
  unfold olsrUpdateGatewayEntry
  split
  next missing =>
    obtain ⟨invInserted, isNew, _⟩ := inv.insertGateway missing
    obtain ⟨after, reached, _, _, stored⟩ :=
      refreshGateway_spec gwConfig invInserted keeps isNew mask prefixLen seqno
    obtain ⟨pathCost, isStored⟩ := stored (speeds _).1 (speeds _).2
    exact ⟨after, _, _, pathCost, reached, rfl, isStored⟩
  next gw found =>
    obtain ⟨entry, isEntry, same⟩ := findGateway_spec inv found
    have later := newer gw entry found isEntry
    obtain ⟨after, reached, _, _, stored⟩ :=
      refreshGateway_spec gwConfig inv keeps isEntry mask prefixLen seqno
    obtain ⟨pathCost, isStored⟩ := stored (speeds _).1 (speeds _).2
    refine ⟨after, gw, entry, pathCost, ?_, same, isStored⟩
    simpa [isEntry, later.not_ge] using reached

private theorem roundTrips_ipv4 (active : cfg.smartGwActive = true) (uplink : 0 < cfg.smartGwUplink)
    (downlink : 0 < cfg.smartGwDownlink) (mem : Nat → UInt8) : RoundTrips .inet cfg mem := by
  have isMask := announcedMask_ipv4_sent active mem
  have received : (receivedPrefix ((announcedMask .inet cfg mem).sent .inet)).prefixLen = 0 := by
    simp [receivedPrefix, isMask, netmaskToPrefix, lastMaskBits]
  constructor
  case inside => exact (announcedMask_ipv4_reach active mem).le
  case recognised =>
    have flags := (modifiedFlags_ipv4 cfg).2.2.2
    have inetgw : isPrefixInetgw (receivedPrefix ((announcedMask .inet cfg mem).sent .inet)) =
          true := by
      simp only [isPrefixInetgw, received]
      rfl
    simp [olsrIsSmartGateway, inetgw, received, hnaByte, hnaOffset, isMask, flags]
  case stored =>
    intro gwConfig world st originator seqno inv keeps newer
    dsimp only
    rw [received]
    have stores := announcedEntry_ipv4_stores isMask seqno
    have speeds : ∀ entry : GatewayEntry .inet,
        (announcedEntry ((announcedMask .inet cfg mem).sent .inet) 0 seqno entry).uplink ≠ 0 ∧
        (announcedEntry ((announcedMask .inet cfg mem).sent .inet) 0 seqno entry).downlink ≠ 0 := by
      intro entry
      rw [(stores entry).uplink, (stores entry).downlink]
      exact ⟨(shownSpeed_pos uplink).ne', (shownSpeed_pos downlink).ne'⟩
    obtain ⟨after, gw, entry, pathCost, reached, same, isStored⟩ :=
      olsrUpdateGatewayEntry_stores inv keeps newer speeds
    exact ⟨after, gw, _, reached, isStored, same, (stores entry).withTimers pathCost⟩

/-- The announcement of a gateway makes its round trip exactly over IPv4. -/
theorem roundTrips_iff (ver : IpVersion) {cfg : SgwConfig} (active : cfg.smartGwActive = true)
    (uplink : 0 < cfg.smartGwUplink) (downlink : 0 < cfg.smartGwDownlink) (mem : Nat → UInt8) :
    RoundTrips ver cfg mem ↔ ver = .inet := by
  cases ver with
  | inet => exact iff_of_true (roundTrips_ipv4 active uplink downlink mem) rfl
  | inet6 =>
    refine iff_of_false ?_ nofun
    intro roundTrips
    have inside := roundTrips.inside
    rw [announcedMask_ipv6_reach active mem] at inside
    omega

def prefixSender : SgwConfig where
  smartGwActive := true
  smartGwUplink := 2000
  smartGwDownlink := 10000
  smartGwUplinkNat := false
  smartGwPrefix := ⟨[0x20, 1, 0x0d, 0xb8] ++ List.replicate 12 0, rfl⟩
  smartGwPrefixLen := 48
  hasIpv4Gateway := false
  hasIpv6Gateway := true

theorem roundTrips_iff_sender :
    RoundTrips .inet { prefixSender with hasIpv4Gateway := true } fun _ => 0 :=
  (roundTrips_iff .inet rfl (by decide) (by decide) _).mpr rfl

/-- Over IPv6 a byte behind the mask is written, and what a receiver reads from
the mask has no external prefix. -/
theorem prefixSender_fails : (announcedMask .inet6 prefixSender fun _ => 0).reach = 17 ∧
      (let mask := (announcedMask .inet6 prefixSender fun _ => 0).sent .inet6
      (announcedEntry mask (receivedPrefix mask).prefixLen 1
        (newGateway (inetgwPrefix .inet6))).externalPrefixLen = 0) ∧
      ¬ RoundTrips .inet6 prefixSender fun _ => 0 := by
  have reach : (announcedMask .inet6 prefixSender fun _ => 0).reach = 17 := by decide
  refine ⟨reach, by decide, ?_⟩
  intro roundTrips
  have inside := roundTrips.inside
  rw [reach] at inside
  omega

end QosOlsr.Gateways
