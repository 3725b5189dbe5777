import Mathlib.Data.Nat.Digits.Lemmas

/-!
# Node identifiers on the wire

`configuration.c` and `nodeIdConversion.c` of the PUD plugin, for identifiers
that are numbers.  A text is the list of its digits; the blanks and signs that
`strtoull` accepts in front of them are left out.
-/

namespace QosOlsr.Pud

open List

inductive NodeIdType
  | msisdn | tetra | uuid | mmsi | urn | mip | type192 | type193 | type194

/-- The values of a number and the bytes that it takes. -/
structure NumberRange where
  min : Nat
  max : Nat
  bytes : Nat

/-- A number, or two numbers of which the first has `chars1` characters. -/
inductive NodeIdFormat
  | longLong (range : NumberRange)
  | doubleLongLong (chars1 base : Nat) (range1 range2 : NumberRange)

def NodeIdType.format : NodeIdType → NodeIdFormat
  | .msisdn => .longLong ⟨0, 999999999999999, 7⟩
  | .tetra => .longLong ⟨0, 99999999999999999, 8⟩
  | .uuid => .doubleLongLong 16 16 ⟨0, 0xffffffffffffffff, 8⟩ ⟨0, 0xffffffffffffffff, 8⟩
  | .mmsi => .longLong ⟨0, 999999999, 4⟩
  | .urn => .longLong ⟨0, 16777215, 3⟩
  | .mip => .doubleLongLong 1 10 ⟨0, 9, 1⟩ ⟨0, 9999999999999999999, 8⟩
  | .type192 => .longLong ⟨0, 9999999, 3⟩
  | .type193 => .longLong ⟨0, 999999, 3⟩
  | .type194 => .longLong ⟨1, 8191, 2⟩

def readULL (base : Nat) (text : List Nat) : Option Nat :=
  let value := Nat.ofDigits base text.reverse
  if text = [] ∨ (∃ digit ∈ text, base ≤ digit) ∨ 2 ^ 64 ≤ value then none else some value

def printULL (base value : Nat) : List Nat :=
  if value = 0 then [0] else (Nat.digits base value).reverse

/-- The loop that writes a number from its last byte on, and the assertion behind it. -/
def numberBytes : Nat → Nat → Option (List UInt8)
  | 0, value => if value = 0 then some [] else none
  | count + 1, value => (numberBytes count (value / 256)).map (· ++ [UInt8.ofNat value])

def bytesNumber (bytes : List UInt8) : Nat :=
  bytes.foldl (fun val byte => (val * 256 + byte.toNat) % 2 ^ 64) 0

def NumberRange.read (range : NumberRange) (base : Nat) (text : List Nat) : Option Nat :=
  (readULL base text).filter fun longValue => range.min ≤ longValue ∧ longValue ≤ range.max

/-- `intSetupNodeIdBinaryLongLong` and `intSetupNodeIdBinaryDoubleLongLong`. -/
def intSetupNodeIdBinary : NodeIdFormat → List Nat → Option (List UInt8)
  | .longLong range, nodeId => (range.read 10 nodeId).bind (numberBytes range.bytes)
  | .doubleLongLong chars1 base range1 range2, nodeId => do
    let longValue1 ← if 0 < nodeId.length then range1.read base (nodeId.take chars1) else some 0
    if chars1 < nodeId.length then
      let longValue2 ← range2.read base (nodeId.drop chars1)
      let first ← numberBytes range1.bytes longValue1
      return first ++ (← numberBytes range2.bytes longValue2)
    else
      -- the first value is the only one, and so the least significant
      let first ← numberBytes range1.bytes 0
      return first ++ (← numberBytes range2.bytes longValue1)

/-- `getNodeIdStringFromOlsr`.  The second number is printed behind the place of
the first one, which ends the string where it does not fill that place. -/
def getNodeIdString : NodeIdFormat → List UInt8 → List Nat
  | .longLong _, nodeId => printULL 10 (bytesNumber nodeId)
  | .doubleLongLong chars1 base range1 _, nodeId =>
    let first := (printULL base (bytesNumber (nodeId.take range1.bytes))).take chars1
    if first.length < chars1 then first
    else first ++ printULL base (bytesNumber (nodeId.drop range1.bytes))

def Canonical (text : List Nat) : Prop := text = [0] ∨ text.head? ≠ some 0

/-- Each number is written without zeros in front. -/
def NodeIdFormat.Canonical : NodeIdFormat → List Nat → Prop
  | .longLong _, text => Pud.Canonical text
  | .doubleLongLong chars1 .., text =>
    Pud.Canonical (text.take chars1) ∧ Pud.Canonical (text.drop chars1)

def NodeIdFormat.IsWhole : NodeIdFormat → List Nat → Prop
  | .longLong _, _ => True
  | .doubleLongLong chars1 .., text => chars1 < text.length

section Numbers

variable {base value : Nat} {text : List Nat}

private theorem canonical_printULL (base value : Nat) : Canonical (printULL base value) := by
  rw [printULL]
  split
  next => exact Or.inl rfl
  next nonzero =>
    refine Or.inr ?_
    rw [head?_reverse, getLast?_eq_getLast_of_ne_nil (Nat.digits_ne_nil_iff_ne_zero.2 nonzero)]
    simpa using Nat.getLast_digit_ne_zero base nonzero

theorem readULL_eq_some_iff : readULL base text = some value ↔ text ≠ [] ∧
      (∀ digit ∈ text, digit < base) ∧ value < 2 ^ 64 ∧ Nat.ofDigits base text.reverse = value := by
  rw [readULL]
  split
  next refused =>
    refine iff_of_false (by simp) ?_
    rintro ⟨nonempty, digits, small, rfl⟩
    obtain empty | ⟨digit, mem, large⟩ | large := refused
    · exact nonempty empty
    · exact (digits digit mem).not_ge large
    · exact small.not_ge large
  next passed =>
    simp only [not_or, not_exists, not_and, not_le] at passed
    rw [Option.some.injEq]
    constructor
    · rintro rfl
      exact ⟨passed.1, passed.2.1, passed.2.2, rfl⟩
    · exact fun spec => spec.2.2.2

theorem printULL_eq_iff (large : 1 < base) (read : readULL base text = some value) :
    printULL base value = text ↔ Canonical text := by
  obtain ⟨nonempty, digits, -, rfl⟩ := readULL_eq_some_iff.1 read
  constructor
  · intro printed
    rw [← printed]
    exact canonical_printULL ..
  · rintro (rfl | head)
    · simp [printULL]
    · have isDigits := Nat.digits_ofDigits base large text.reverse (by simpa using digits) (by
        simpa [getLast_reverse, head?_eq_some_head nonempty] using fun _ => head)
      have nonzero : Nat.ofDigits base text.reverse ≠ 0 := by
        intro isZero
        rw [isZero, Nat.digits_zero] at isDigits
        exact nonempty (reverse_eq_nil_iff.1 isDigits.symm)
      rw [printULL, if_neg nonzero, isDigits, reverse_reverse]

private theorem length_printULL_le (large : 1 < base) (read : readULL base text = some value) :
    (printULL base value).length ≤ text.length := by
  obtain ⟨nonempty, digits, -, rfl⟩ := readULL_eq_some_iff.1 read
  rw [printULL]
  split
  · exact length_pos_of_ne_nil nonempty
  · rw [length_reverse, Nat.digits_length_le_iff large, ← length_reverse]
    exact Nat.ofDigits_lt_base_pow_length large (by simpa using digits)

theorem bytesNumber_of_numberBytes {count : Nat} {bytes : List UInt8}
    (written : numberBytes count value = some bytes) (small : value < 2 ^ 64) :
    bytes.length = count ∧ bytesNumber bytes = value := by
  induction count generalizing value bytes with
  | zero =>
    obtain ⟨rfl, rfl⟩ : value = 0 ∧ [] = bytes := by simpa [numberBytes] using written
    exact ⟨rfl, rfl⟩
  | succ count ih =>
    obtain ⟨front, isFront, rfl⟩ := Option.map_eq_some_iff.1 written
    obtain ⟨isLength, isNumber⟩ := ih isFront (by omega)
    refine ⟨by simp [isLength], ?_⟩
    rw [bytesNumber, foldl_append, ← bytesNumber, isNumber, foldl_cons, foldl_nil,
      UInt8.toNat_ofNat']
    omega

theorem read_eq_some {range : NumberRange} (read : range.read base text = some value) :
    readULL base text = some value := (Option.filter_eq_some_iff.1 read).1

end Numbers

private theorem longLong_survives_iff {range : NumberRange} {text : List Nat} {binary : List UInt8}
    (accepted : intSetupNodeIdBinary (.longLong range) text = some binary) :
    getNodeIdString (.longLong range) binary = text ↔ Canonical text := by
  obtain ⟨value, read, written⟩ := Option.bind_eq_some_iff.1 accepted
  have isRead := read_eq_some read
  have small := (readULL_eq_some_iff.1 isRead).2.2.1
  rw [getNodeIdString, (bytesNumber_of_numberBytes written small).2]
  exact printULL_eq_iff (by decide) isRead

theorem doubleLongLong_survives_iff {chars1 base : Nat} {range1 range2 : NumberRange}
    {text : List Nat} {binary : List UInt8} (large : 1 < base) (whole : chars1 < text.length)
    (accepted :
      intSetupNodeIdBinary (.doubleLongLong chars1 base range1 range2) text = some binary) :
    getNodeIdString (.doubleLongLong chars1 base range1 range2) binary = text ↔
      Canonical (text.take chars1) ∧ Canonical (text.drop chars1) := by
  simp only [intSetupNodeIdBinary, if_pos (Nat.zero_lt_of_lt whole), if_pos whole,
    Option.bind_eq_bind, Option.bind_eq_some_iff, Option.pure_def, Option.some.injEq] at accepted
  obtain ⟨value1, read1, value2, read2, bytes1, written1, bytes2, written2, rfl⟩ := accepted
  have isRead1 := read_eq_some read1
  have isRead2 := read_eq_some read2
  obtain ⟨isLength, number1⟩ :=
    bytesNumber_of_numberBytes written1 (readULL_eq_some_iff.1 isRead1).2.2.1
  obtain ⟨-, number2⟩ := bytesNumber_of_numberBytes written2 (readULL_eq_some_iff.1 isRead2).2.2.1
  have short : (printULL base value1).length ≤ chars1 :=
    (length_printULL_le large isRead1).trans (length_take_le ..)
  rw [getNodeIdString, take_left' isLength, drop_left' isLength, number1, number2,
    ← printULL_eq_iff large isRead1, ← printULL_eq_iff large isRead2]
  rw [take_of_length_le short]
  split
  next shorter =>
    constructor
    · rintro rfl
      omega
    · rintro ⟨isFirst, -⟩
      rw [isFirst, length_take, Nat.min_eq_left whole.le] at shorter
      exact absurd shorter (Nat.lt_irrefl _)
  next fills =>
    have isLength : (printULL base value1).length = chars1 := by omega
    constructor
    · rintro rfl
      exact ⟨(take_left' isLength).symm, (drop_left' isLength).symm⟩
    · rintro ⟨isFirst, isSecond⟩
      rw [isFirst, isSecond, take_append_drop]

/-- An identifier survives the wire exactly if its numbers have no zeros in
front. -/
theorem nodeId_survives_iff (type : NodeIdType) {text : List Nat} {binary : List UInt8}
    (whole : type.format.IsWhole text)
    (accepted : intSetupNodeIdBinary type.format text = some binary) :
    getNodeIdString type.format binary = text ↔ type.format.Canonical text := by
  cases type with
  | uuid => exact doubleLongLong_survives_iff (by decide) whole accepted
  | mip => exact doubleLongLong_survives_iff (by decide) whole accepted
  | _ => exact longLong_survives_iff accepted

theorem nodeId_survives_ones : ∃ binary,
    intSetupNodeIdBinary NodeIdType.mip.format (replicate 20 1) = some binary ∧
      getNodeIdString NodeIdType.mip.format binary = replicate 20 1 := by
  have whole : NodeIdType.mip.format.IsWhole (replicate 20 1) := (by decide : 1 < 20)
  refine ⟨_, rfl, (nodeId_survives_iff .mip whole rfl).2 ⟨?_, ?_⟩⟩
  · exact Or.inr (by decide)
  · exact Or.inr (by decide)

/-- A UUID with a zero in the middle loses it. -/
theorem nodeId_loses_zero : ∃ binary,
    intSetupNodeIdBinary NodeIdType.uuid.format (replicate 16 1 ++ 0 :: replicate 15 1) =
        some binary ∧
      getNodeIdString NodeIdType.uuid.format binary = replicate 31 1 := by
  refine ⟨_, rfl, ?_⟩
  decide +kernel

end QosOlsr.Pud
