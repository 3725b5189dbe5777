import QosOlsr.Gateways.Announcement

/-!
# Prefix matching

`ip_in_net` compares 32-bit words in the byte order of the host;
`prefix_to_netmask` writes its mask byte by byte.
-/

namespace QosOlsr

open List

variable {ver : IpVersion}

def loadWord (little : Bool) : List UInt8 → BitVec 32
  | a :: b :: c :: d :: _ =>
    if little then
      d.toBitVec ++ c.toBitVec ++ b.toBitVec ++ a.toBitVec
    else
      a.toBitVec ++ b.toBitVec ++ c.toBitVec ++ d.toBitVec
  | _ => 0

def htonl (little : Bool) (word : BitVec 32) : BitVec 32 :=
  if little then
    word.extractLsb' 0 8 ++ word.extractLsb' 8 8 ++ word.extractLsb' 16 8 ++ word.extractLsb' 24 8
  else
    word

def prefixToNetmask4 (prefixLen : Nat) : BitVec 32 :=
  if prefixLen = 0 then 0 else (~~~0 : BitVec 32) <<< (32 - prefixLen)

def inNet4 (little : Bool) (i n : BitVec 32) (prefixLen : Nat) : Bool :=
  let netmask := htonl little (prefixToNetmask4 prefixLen)
  i &&& netmask = n &&& netmask

/-- The loop over the words of an IPv6 address, which does not come to its end. -/
def inNet6 (little : Bool) : List UInt8 → List UInt8 → Nat → Bool
  | a :: b :: c :: d :: ipaddr, a' :: b' :: c' :: d' :: net, prefixLen =>
    if 32 < prefixLen then
      loadWord little [a, b, c, d] = loadWord little [a', b', c', d'] ∧
        inNet6 little ipaddr net (prefixLen - 32)
    else
      inNet4 little (loadWord little [a, b, c, d]) (loadWord little [a', b', c', d']) prefixLen
  | _, _, _ => true

def ipInNet (little : Bool) : {ver : IpVersion} → IpAddr ver → Lsdb.IpNetwork ver → Bool
  | .inet, ipaddr, net =>
    inNet4 little (loadWord little ipaddr.bytes) (loadWord little net.network.bytes) net.prefixLen
  | .inet6, ipaddr, net => inNet6 little ipaddr.bytes net.network.bytes net.prefixLen

def maskByte (prefixLen : Nat) : UInt8 := UInt8.ofNat (0xff <<< (8 - prefixLen))

theorem prefixToNetmask_succ (len prefixLen : Nat) : prefixToNetmask (len + 1) prefixLen =
      maskByte prefixLen :: prefixToNetmask len (prefixLen - 8) := by
  rw [prefixToNetmask, maskByte]
  split
  next long =>
    rw [Nat.sub_eq_zero_of_le long.le]
    rfl
  next short =>
    rw [Nat.sub_eq_zero_of_le (not_lt.mp short)]
    cases len with
    | zero => rfl
    | succ len => rfl

def byteBits (byte : UInt8) : List Bool := (range 8).map byte.toBitVec.getMsbD

def addressBits (bytes : List UInt8) : List Bool := bytes.flatMap byteBits

theorem getMsbD_maskByte (prefixLen : Nat) {k : Nat} (inside : k < 8) :
    (maskByte prefixLen).toBitVec.getMsbD k = decide (k < prefixLen) := by
  have shifted : ∀ count ≤ 8, ∀ k < 8,
      (UInt8.ofNat (0xff <<< count)).toBitVec.getMsbD k = decide (k < 8 - count) := by
    decide
  rw [maskByte, shifted _ (Nat.sub_le ..) k inside]
  exact decide_eq_decide.mpr (by omega)

private theorem and_maskByte_iff {left right : UInt8} {prefixLen : Nat} :
    left &&& maskByte prefixLen = right &&& maskByte prefixLen ↔
      (byteBits left).take prefixLen = (byteBits right).take prefixLen := by
  rw [byteBits, byteBits, ← map_take, ← map_take, take_range, map_inj_left, ← UInt8.toBitVec_inj]
  constructor
  · intro same k inside
    have bit := congrArg (·.getMsbD k) same
    simp only [UInt8.toBitVec_and, BitVec.getMsbD_and] at bit
    grind [getMsbD_maskByte]
  · intro same
    refine BitVec.eq_of_getMsbD_eq fun k inside => ?_
    simp only [UInt8.toBitVec_and, BitVec.getMsbD_and, getMsbD_maskByte prefixLen inside]
    grind

theorem take_addressBits_cons {left right : UInt8} {lefts rights : List UInt8} {prefixLen : Nat} :
    (addressBits (left :: lefts)).take prefixLen = (addressBits (right :: rights)).take prefixLen ↔
      left &&& maskByte prefixLen = right &&& maskByte prefixLen ∧
      (addressBits lefts).take (prefixLen - 8) = (addressBits rights).take (prefixLen - 8) := by
  have size (byte : UInt8) : (byteBits byte).length = 8 := by simp [byteBits]
  rw [and_maskByte_iff, addressBits, addressBits, flatMap_cons, flatMap_cons, take_append,
    take_append, size, size]
  constructor
  · exact fun same => append_inj same (by simp [size])
  · exact fun same => congrArg₂ _ same.1 same.2

/-- The bytes under the mask that `prefix_to_netmask` writes. -/
def masked (bytes : List UInt8) (prefixLen : Nat) : List UInt8 :=
  zipWith (· &&& ·) bytes (prefixToNetmask bytes.length prefixLen)

theorem masked_iff : ∀ {ipaddr net : List UInt8}, ipaddr.length = net.length → ∀ prefixLen : Nat,
    (masked ipaddr prefixLen = masked net prefixLen ↔
      (addressBits ipaddr).take prefixLen = (addressBits net).take prefixLen)
  | [], [], _, _ => by simp [masked]
  | left :: lefts, right :: rights, sizes, prefixLen => by
    have rest := masked_iff (Nat.succ.inj sizes) (prefixLen - 8)
    rw [take_addressBits_cons, ← rest, masked, masked, length_cons, length_cons,
      prefixToNetmask_succ, prefixToNetmask_succ, zipWith_cons_cons, zipWith_cons_cons, cons.injEq]
    rfl

variable {little : Bool} {a b c d a' b' c' d' : UInt8}

theorem loadWord_inj : loadWord little [a, b, c, d] = loadWord little [a', b', c', d'] ↔
      a = a' ∧ b = b' ∧ c = c' ∧ d = d' := by
  have parts {width : Nat} {high high' : BitVec width} {low low' : BitVec 8} :
      high ++ low = high' ++ low' ↔ high = high' ∧ low = low' := by
    refine ⟨fun same => ⟨?_, ?_⟩, fun same => congrArg₂ _ same.1 same.2⟩
    · simpa [BitVec.extractLsb'_append_eq_left] using congrArg (BitVec.extractLsb' 8 width) same
    · simpa [BitVec.extractLsb'_append_eq_right] using congrArg (BitVec.extractLsb' 0 8) same
  cases little with
  | false =>
    simp only [loadWord, Bool.false_eq_true, if_false, parts, UInt8.toBitVec_inj, and_assoc]
  | true =>
    simp only [loadWord, if_true, parts, UInt8.toBitVec_inj]
    tauto

private theorem loadWord_and : loadWord little [a, b, c, d] &&& loadWord little [a', b', c', d'] =
      loadWord little [a &&& a', b &&& b', c &&& c', d &&& d'] := by
  have parts (a b c d a' b' c' d' : BitVec 8) :
      (a ++ b ++ c ++ d) &&& (a' ++ b' ++ c' ++ d') =
        (a &&& a') ++ (b &&& b') ++ (c &&& c') ++ (d &&& d') := by
    rw [BitVec.and_append, BitVec.and_append, BitVec.and_append]
  cases little with
  | false => exact parts ..
  | true => exact parts ..

private theorem htonl_prefixToNetmask4 (little : Bool) {prefixLen : Nat} (short : prefixLen ≤ 32) :
    htonl little (prefixToNetmask4 prefixLen) =
      loadWord little [maskByte prefixLen, maskByte (prefixLen - 8), maskByte (prefixLen - 16),
        maskByte (prefixLen - 24)] := by
  revert little prefixLen
  decide

private theorem and_maskByte_of_le (byte : UInt8) {prefixLen : Nat} (long : 8 ≤ prefixLen) :
    byte &&& maskByte prefixLen = byte := by
  rw [maskByte, Nat.sub_eq_zero_of_le long]
  exact UInt8.and_neg_one

private theorem inNet6_iff (little : Bool) {ipaddr net : List UInt8}
    {prefixLen : Nat} (sizes : ipaddr.length = net.length) (words : net.length % 4 = 0)
    (inside : prefixLen ≤ 8 * net.length) : inNet6 little ipaddr net prefixLen ↔
      (addressBits ipaddr).take prefixLen = (addressBits net).take prefixLen := by
  fun_induction inNet6 little ipaddr net prefixLen with
  | case1 a b c d ipaddr a' b' c' d' net prefixLen long ih =>
    simp only [length_cons] at sizes words inside
    simp (disch := omega) only [take_addressBits_cons, and_maskByte_of_le, Nat.sub_sub,
      Nat.reduceAdd, decide_eq_true_eq, loadWord_inj, and_assoc,
      ih (by omega) (by omega) (by omega)]
  | case2 a b c d ipaddr a' b' c' d' net prefixLen short =>
    rw [not_lt] at short
    simp only [take_addressBits_cons, Nat.sub_sub, Nat.reduceAdd, inNet4, decide_eq_true_eq,
      htonl_prefixToNetmask4 little short, loadWord_and, loadWord_inj,
      Nat.sub_eq_zero_of_le short, take_zero, and_true]
  | case3 ipaddr net prefixLen other =>
    -- neither list has a word left
    have ended : net = [] := by
      match ipaddr, net with
      | _, [] => rfl
      | a :: b :: c :: d :: _, a' :: b' :: c' :: d' :: _ =>
        exact (other a b c d _ a' b' c' d' _ rfl rfl).elim
    rw [ended] at inside
    rw [Nat.le_zero.mp inside]
    simp

private theorem inNet4_eq_inNet6 {ipaddr net : List UInt8} {prefixLen : Nat}
    (size : ipaddr.length = 4) (netSize : net.length = 4) (short : prefixLen ≤ 32) :
    inNet4 little (loadWord little ipaddr) (loadWord little net) prefixLen =
      inNet6 little ipaddr net prefixLen := by
  match ipaddr, net with
  | [_, _, _, _], [_, _, _, _] => rw [inNet6, if_neg (not_lt.mpr short)]

/-- On either kind of host, an address is in a net exactly if the bits of the
prefix agree, and exactly if the masked bytes do. -/
theorem ipInNet_iff (little : Bool) (ipaddr : IpAddr ver) (net : Lsdb.IpNetwork ver)
    (inside : net.prefixLen ≤ 8 * ver.ipsize) :
    (ipInNet little ipaddr net ↔ (addressBits ipaddr.bytes).take net.prefixLen =
        (addressBits net.network.bytes).take net.prefixLen) ∧
      (ipInNet little ipaddr net ↔
        masked ipaddr.bytes net.prefixLen = masked net.network.bytes net.prefixLen) := by
  have netSize := net.network.length_eq
  have sizes := ipaddr.length_eq.trans netSize.symm
  rw [masked_iff sizes, and_self,
    ← inNet6_iff little sizes (netSize ▸ ver.ipsize_mod_four) (netSize ▸ inside)]
  cases ver with
  | inet => rw [ipInNet, inNet4_eq_inNet6 ipaddr.length_eq netSize inside]
  | inet6 => rfl

theorem ipInNet_iff_slash16 :
    (addressBits [10, 1, 2, 3]).take 16 = (addressBits [10, 1, 0, 0]).take 16 ∧
      ipInNet true (.v4 10 1 2 3) ⟨.v4 10 1 0 0, 16⟩ := by
  have agree : (addressBits [10, 1, 2, 3]).take 16 = (addressBits [10, 1, 0, 0]).take 16 := by
    decide
  exact ⟨agree, (ipInNet_iff true (.v4 10 1 2 3) ⟨.v4 10 1 0 0, 16⟩ (by decide)).1.mpr agree⟩

end QosOlsr
