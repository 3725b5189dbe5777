import QosOlsr.DuplicateSet

/-!
# The window of the duplicate set is exact

One originator sends numbers that lie close together, and never too many old
ones in a row.  Then the answers of `olsr_message_is_duplicate` say exactly
which numbers were handled before, but for the one that created the entry.
-/

namespace QosOlsr.DuplicateWindow

open List

universe u

/-- How far a number is behind another one, in the direction of the sender's
counter. -/
def behindBy (newest number : UInt16) : Nat := (newest - number).toNat

/-- Two numbers lie within `2 ^ 14` of each other, modulo `2 ^ 16`. -/
def Close (first second : UInt16) : Prop :=
  behindBy first second ≤ 2 ^ 14 ∨ behindBy second first ≤ 2 ^ 14

structure IsNewest (numbers : List UInt16) (newest : UInt16) : Prop where
  present : newest ∈ numbers
  ahead : ∀ number ∈ numbers, behindBy newest number ≤ 2 ^ 14

/-- The number is more than 31 behind the newest one of those listed. -/
def TooLow (numbers : List UInt16) (seqnr : UInt16) : Prop := ∃ newest, IsNewest numbers newest ∧
    31 < behindBy newest seqnr ∧ behindBy newest seqnr ≤ 2 ^ 14

/-- Every message of the row is too low when it arrives. -/
def TooLowRow (numbers row : List UInt16) : Prop :=
  ∀ earlier seqnr later, row = earlier ++ seqnr :: later → TooLow (numbers ++ earlier) seqnr

/-- At most 16 too-low messages come in a row after the creating one. -/
def FewTooLow (creating : UInt16) (handled : List UInt16) : Prop :=
  ∀ before row after, handled = before ++ row ++ after →
    TooLowRow (creating :: before) row → row.length ≤ 16

section Distances

theorem behindBy_eq (newest number : UInt16) :
    behindBy newest number = (2 ^ 16 - number.toNat + newest.toNat) % 2 ^ 16 :=
  UInt16.toNat_sub newest number

theorem behindBy_eq_zero {newest number : UInt16} :
    behindBy newest number = 0 ↔ number = newest := by
  have newestBound : newest.toNat < 2 ^ 16 := newest.toNat_lt
  have numberBound : number.toNat < 2 ^ 16 := number.toNat_lt
  rw [behindBy_eq, ← UInt16.toNat_inj]
  omega

theorem behindBy_lt (newest number : UInt16) : behindBy newest number < 2 ^ 16 := UInt16.toNat_lt _

private theorem behindBy_right_injective {newest first second : UInt16}
    (same : behindBy newest first = behindBy newest second) : first = second := by
  have firstBound : first.toNat < 2 ^ 16 := first.toNat_lt
  have secondBound : second.toNat < 2 ^ 16 := second.toNat_lt
  rw [behindBy_eq, behindBy_eq] at same
  rw [← UInt16.toNat_inj]
  omega

theorem behindBy_trans (newest middle number : UInt16) :
    behindBy newest number = (behindBy newest middle + behindBy middle number) % 2 ^ 16 := by
  have middleBound : middle.toNat < 2 ^ 16 := middle.toNat_lt
  have numberBound : number.toNat < 2 ^ 16 := number.toNat_lt
  rw [behindBy_eq, behindBy_eq, behindBy_eq]
  omega

theorem behindBy_symm (first second : UInt16) :
    behindBy first second = (2 ^ 16 - behindBy second first) % 2 ^ 16 := by
  have firstBound : first.toNat < 2 ^ 16 := first.toNat_lt
  have secondBound : second.toNat < 2 ^ 16 := second.toNat_lt
  rw [behindBy_eq, behindBy_eq]
  omega

variable {newest seqnr : UInt16}

theorem olsrSeqnoDiff_of_behind (near : behindBy newest seqnr ≤ 2 ^ 14) :
    olsrSeqnoDiff seqnr newest = -(behindBy newest seqnr : Int) := by
  have newestBound : newest.toNat < 2 ^ 16 := newest.toNat_lt
  have seqnrBound : seqnr.toNat < 2 ^ 16 := seqnr.toNat_lt
  rw [behindBy_eq] at *
  unfold olsrSeqnoDiff
  dsimp only
  omega

private theorem olsrSeqnoDiff_of_ahead (near : behindBy seqnr newest ≤ 2 ^ 14) :
    olsrSeqnoDiff seqnr newest = behindBy seqnr newest := by
  have newestBound : newest.toNat < 2 ^ 16 := newest.toNat_lt
  have seqnrBound : seqnr.toNat < 2 ^ 16 := seqnr.toNat_lt
  rw [behindBy_eq] at *
  unfold olsrSeqnoDiff
  dsimp only
  omega

variable {numbers : List UInt16}

section

variable (isNewest : IsNewest numbers newest)
include isNewest

theorem IsNewest.unique {other : UInt16} (otherNewest : IsNewest numbers other) :
    other = newest := by
  have first := isNewest.ahead other otherNewest.present
  have second := otherNewest.ahead newest isNewest.present
  have opposite := behindBy_symm newest other
  rw [← behindBy_eq_zero]
  omega

theorem IsNewest.tooLow_iff (seqnr : UInt16) :
    TooLow numbers seqnr ↔ 31 < behindBy newest seqnr ∧ behindBy newest seqnr ≤ 2 ^ 14 := by
  constructor
  · rintro ⟨other, otherNewest, far⟩
    rwa [isNewest.unique otherNewest] at far
  · exact fun far => ⟨newest, isNewest, far⟩

theorem IsNewest.append_behind (behind : behindBy newest seqnr ≤ 2 ^ 14) :
    IsNewest (numbers ++ [seqnr]) newest := by
  refine ⟨mem_append_left _ isNewest.present, ?_⟩
  intro number mem
  rcases mem_append.mp mem with old | new
  · exact isNewest.ahead number old
  · rwa [mem_singleton.mp new]

private theorem IsNewest.append_ahead (ahead : behindBy seqnr newest ≤ 2 ^ 14)
    (close : ∀ number ∈ numbers, Close seqnr number) : IsNewest (numbers ++ [seqnr]) seqnr := by
  refine ⟨mem_append_right _ mem_cons_self, ?_⟩
  intro number mem
  rcases mem_append.mp mem with old | new
  · -- the distances add up to at most half a turn
    have rest := isNewest.ahead number old
    have total := behindBy_trans seqnr newest number
    have opposite := behindBy_symm number seqnr
    rcases close number old with ahead | behind
    · exact ahead
    · omega
  · rw [mem_singleton.mp new, behindBy_eq_zero.mpr rfl]
    exact Nat.zero_le _

end

end Distances

/-- The entry knows the newest number, its bitmap has exactly the numbers
handled since it was created, and its counter is the length of a row of too-low
messages at the end. -/
structure Exact (creating : UInt16) (handled : List UInt16) (entry : DupEntry) : Prop where
  newest : IsNewest (creating :: handled) entry.seqnr
  marked : ∀ number, behindBy entry.seqnr number < 32 →
    (entry.array.getLsbD (behindBy entry.seqnr number) = true ↔ number ∈ handled)
  counted : ∃ before row, handled = before ++ row ∧ TooLowRow (creating :: before) row ∧
    row.length = entry.tooLowCounter.toNat

private theorem exact_create (creating : UInt16) (validUntil : UInt32) :
    Exact creating [] (olsrCreateDuplicateEntry creating validUntil) := by
  refine ⟨⟨mem_cons_self, ?_⟩, ?_, [], [], rfl, ?_, rfl⟩
  · intro number mem
    have zero : behindBy creating number = 0 := behindBy_eq_zero.mpr (mem_singleton.mp mem)
    exact zero.trans_le (Nat.zero_le _)
  · simp [olsrCreateDuplicateEntry]
  · intro earlier seqnr later empty
    simp at empty

variable {entry : DupEntry} {handled : List UInt16}

theorem Exact.stamp {creating : UInt16} (window : Exact creating handled entry)
    (validUntil : UInt32) : Exact creating handled (stampDuplicateEntry validUntil entry) := by
  unfold stampDuplicateEntry
  split
  · exact ⟨window.newest, window.marked, window.counted⟩
  · exact window

variable {seqnr : UInt16}

private theorem checkDuplicateEntry_of_tooLow
    (old : olsrSeqnoDiff seqnr entry.seqnr < -31) (room : entry.tooLowCounter.toNat < 16) :
    checkDuplicateEntry seqnr entry =
      (true, { entry with tooLowCounter := entry.tooLowCounter + 1 }) := by
  have kept : ¬ dupMaxTooLow < entry.tooLowCounter + 1 := by
    have sixteen : dupMaxTooLow.toNat = 16 := rfl
    have one : (1 : UInt16).toNat = 1 := rfl
    rw [UInt16.lt_iff_toNat_lt, UInt16.toNat_add, sixteen, one]
    omega
  simp only [checkDuplicateEntry, old, kept, if_true, if_false]

private theorem checkDuplicateEntry_of_late
    {behind : Nat} (diff : olsrSeqnoDiff seqnr entry.seqnr = -(behind : Int))
    (inside : behind < 32) : (checkDuplicateEntry seqnr entry).1 = entry.array.getLsbD behind ∧
      (checkDuplicateEntry seqnr entry).2.seqnr = entry.seqnr ∧
      (checkDuplicateEntry seqnr entry).2.tooLowCounter = 0 ∧
      ∀ position, (checkDuplicateEntry seqnr entry).2.array.getLsbD position =
      (entry.array.getLsbD position || position == behind) := by
  have recent : ¬ -(behind : Int) < -31 := by omega
  have late : -(behind : Int) ≤ 0 := by omega
  have mask (position : Nat) : (1#32 <<< behind).getLsbD position = (position == behind) := by
    rw [← BitVec.twoPow_eq, BitVec.getLsbD_twoPow]
    grind
  simp only [checkDuplicateEntry, diff, recent, late, if_true, if_false, neg_neg, Int.toNat_natCast]
  have marks := and_bitmask_ne_zero_iff entry.array inside
  split
  next present =>
    have marked := marks.mp present
    refine ⟨marked.symm, rfl, rfl, fun position => ?_⟩
    by_cases same : position = behind
    · simp [same, marked]
    · simp [same]
  next absent =>
    rw [marks, Bool.not_eq_true] at absent
    refine ⟨absent.symm, rfl, rfl, fun position => ?_⟩
    rw [BitVec.getLsbD_or, mask]

private theorem checkDuplicateEntry_of_ahead
    {advance : Nat} (diff : olsrSeqnoDiff seqnr entry.seqnr = advance) (moves : 0 < advance) :
    (checkDuplicateEntry seqnr entry).1 = false ∧ (checkDuplicateEntry seqnr entry).2.seqnr =
      seqnr ∧ (checkDuplicateEntry seqnr entry).2.tooLowCounter = 0 ∧
      ∀ position < 32, (checkDuplicateEntry seqnr entry).2.array.getLsbD position = true ↔
      position = 0 ∨ advance ≤ position ∧ entry.array.getLsbD (position - advance) = true := by
  have recent : ¬ (advance : Int) < -31 := by omega
  have ahead : ¬ (advance : Int) ≤ 0 := by omega
  simp only [checkDuplicateEntry, diff, recent, ahead, if_false, Int.toNat_natCast]
  refine ⟨trivial, trivial, trivial, fun position inside => ?_⟩
  have one : (1 : BitVec 32).getLsbD position = true ↔ position = 0 := by
    rw [show (1 : BitVec 32) = BitVec.twoPow 32 0 from rfl, BitVec.getLsbD_twoPow]
    simp [eq_comm]
  rw [BitVec.getLsbD_or, Bool.or_eq_true, one, or_comm]
  refine or_congr_right ?_
  split
  next near =>
    rw [BitVec.getLsbD_shiftLeft]
    simp [inside]
  next far =>
    have outside : ¬ advance ≤ position := by omega
    simp [outside]

variable {creating seqnr : UInt16}

private theorem Exact.check_tooLow (window : Exact creating handled entry)
    (few : FewTooLow creating (handled ++ [seqnr])) (near : behindBy entry.seqnr seqnr ≤ 2 ^ 14)
    (far : 31 < behindBy entry.seqnr seqnr) : (checkDuplicateEntry seqnr entry).1 = true ∧
      Exact creating (handled ++ [seqnr]) (checkDuplicateEntry seqnr entry).2 := by
  obtain ⟨before, row, split, low, length⟩ := window.counted
  have tooLow : TooLow (creating :: handled) seqnr :=
    (window.newest.tooLow_iff seqnr).mpr ⟨far, near⟩
  have lowRow : TooLowRow (creating :: before) (row ++ [seqnr]) := by
    intro earlier number later parts
    rcases eq_nil_or_concat later with rfl | ⟨rest, last, rfl⟩
    · obtain ⟨rfl, same⟩ := append_inj' parts rfl
      obtain rfl := (List.cons.inj same).1
      rwa [cons_append, ← split]
    · rw [concat_eq_append, ← cons_append, ← append_assoc] at parts
      obtain ⟨rowParts, -⟩ := append_inj' parts rfl
      exact low earlier number rest rowParts
  have bound := few before (row ++ [seqnr]) [] (by rw [split]; simp) lowRow
  rw [length_append, length_singleton, length] at bound
  have diff := olsrSeqnoDiff_of_behind near
  rw [checkDuplicateEntry_of_tooLow (by omega) (by omega)]
  refine ⟨rfl, window.newest.append_behind near, ?_, before, row ++ [seqnr], ?_, lowRow, ?_⟩
  · intro number inside
    have ne : number ≠ seqnr := by
      rintro rfl
      exact absurd far (by simp only [] at inside; omega)
    rw [mem_append, mem_singleton, or_iff_left ne]
    exact window.marked number inside
  · rw [split, append_assoc]
  · have one : (1 : UInt16).toNat = 1 := rfl
    rw [length_append, length_singleton, length, UInt16.toNat_add, one]
    omega

theorem counted_of_zero (zero : entry.tooLowCounter = 0) : ∃ before row, handled = before ++ row ∧
      TooLowRow (creating :: before) row ∧ row.length = entry.tooLowCounter.toNat := by
  refine ⟨handled, [], (append_nil _).symm, ?_, ?_⟩
  · intro earlier seqnr later empty
    simp at empty
  · rw [zero]
    rfl

private theorem Exact.check_late
    (window : Exact creating handled entry) (near : behindBy entry.seqnr seqnr < 32) :
    ((checkDuplicateEntry seqnr entry).1 = true ↔ seqnr ∈ handled) ∧
      Exact creating (handled ++ [seqnr]) (checkDuplicateEntry seqnr entry).2 := by
  have diff : olsrSeqnoDiff seqnr entry.seqnr = -(behindBy entry.seqnr seqnr : Int) :=
    olsrSeqnoDiff_of_behind (by omega)
  obtain ⟨answer, newest, zero, bits⟩ := checkDuplicateEntry_of_late diff near
  refine ⟨?_, ?_, ?_, counted_of_zero zero⟩
  · rw [answer]
    exact window.marked seqnr near
  · rw [newest]
    exact window.newest.append_behind (by omega)
  · intro number inside
    rw [newest] at inside ⊢
    rw [bits, Bool.or_eq_true, window.marked number inside, mem_append, mem_singleton, beq_iff_eq]
    exact or_congr_right ⟨behindBy_right_injective, fun same => by rw [same]⟩

section

variable (window : Exact creating handled entry)
  (close : ∀ number ∈ creating :: handled, Close seqnr number)
include window close

private theorem Exact.check_ahead (near : behindBy seqnr entry.seqnr ≤ 2 ^ 14)
    (notBehind : 2 ^ 14 < behindBy entry.seqnr seqnr) : (checkDuplicateEntry seqnr entry).1 =
      false ∧ Exact creating (handled ++ [seqnr]) (checkDuplicateEntry seqnr entry).2 := by
  have moves : 0 < behindBy seqnr entry.seqnr := by
    have opposite := behindBy_symm entry.seqnr seqnr
    omega
  obtain ⟨answer, newest, zero, bits⟩ :=
    checkDuplicateEntry_of_ahead (olsrSeqnoDiff_of_ahead near) moves
  refine ⟨answer, ?_, ?_, counted_of_zero zero⟩
  · rw [newest]
    exact window.newest.append_ahead near close
  · intro number inside
    have total := behindBy_trans seqnr entry.seqnr number
    have rest := behindBy_lt entry.seqnr number
    rw [newest] at inside ⊢
    rw [bits _ inside, behindBy_eq_zero, mem_append, mem_singleton, or_comm]
    refine or_congr_left ⟨?_, ?_⟩
    · rintro ⟨reached, marked⟩
      have moved :
          behindBy seqnr number - behindBy seqnr entry.seqnr = behindBy entry.seqnr number := by
        omega
      rw [moved] at marked
      exact (window.marked number (by omega)).mp marked
    · intro mem
      have old := window.newest.ahead number (mem_cons_of_mem _ mem)
      have sum :
          behindBy seqnr number = behindBy seqnr entry.seqnr + behindBy entry.seqnr number := by
        omega
      refine ⟨by omega, ?_⟩
      rw [sum, Nat.add_sub_cancel_left]
      exact (window.marked number (by omega)).mpr mem

/-- One message keeps the window exact, and is answered by what was handled
before. -/
theorem Exact.check (few : FewTooLow creating (handled ++ [seqnr])) :
    ((checkDuplicateEntry seqnr entry).1 = true ↔
        seqnr ∈ handled ∨ TooLow (creating :: handled) seqnr) ∧
      Exact creating (handled ++ [seqnr]) (checkDuplicateEntry seqnr entry).2 := by
  rw [window.newest.tooLow_iff seqnr]
  by_cases behind : behindBy entry.seqnr seqnr ≤ 2 ^ 14
  · by_cases far : 31 < behindBy entry.seqnr seqnr
    · obtain ⟨answer, kept⟩ := window.check_tooLow few behind far
      refine ⟨?_, kept⟩
      exact iff_of_true answer (.inr ⟨far, behind⟩)
    · have near : behindBy entry.seqnr seqnr < 32 := by omega
      obtain ⟨answer, kept⟩ := window.check_late near
      refine ⟨?_, kept⟩
      rw [answer, or_iff_left (fun low => far low.1)]
  · have ahead : behindBy seqnr entry.seqnr ≤ 2 ^ 14 :=
      (close entry.seqnr window.newest.present).resolve_right behind
    have new : seqnr ∉ handled := fun mem =>
      behind (window.newest.ahead seqnr (mem_cons_of_mem _ mem))
    obtain ⟨answer, kept⟩ := window.check_ahead close ahead (by omega)
    refine ⟨?_, kept⟩
    rw [answer]
    refine iff_of_false Bool.false_ne_true ?_
    rintro (mem | low)
    · exact new mem
    · exact behind low.2

end

section Sequences

variable {Addr : Type u} [DecidableEq Addr]

/-- `olsr_message_is_duplicate` at the time that the message arrives. -/
def handleAt (ip : Addr) (set : DuplicateSet Addr) (msg : UInt32 × UInt16) :
    Bool × DuplicateSet Addr :=
  olsrMessageIsDuplicate ip msg.2 { set with nowTimes := msg.1 }

def handleAll (ip : Addr) (set : DuplicateSet Addr) (messages : List (UInt32 × UInt16)) :
    DuplicateSet Addr :=
  messages.foldl (fun set msg => (handleAt ip set msg).2) set

variable {creating : UInt16} {set : DuplicateSet Addr}

theorem handleAt_of_exact {ip : Addr} {msg : UInt32 × UInt16}
    (found : set.entries ip = some entry) (window : Exact creating handled entry)
    (close : ∀ number ∈ creating :: handled, Close msg.2 number)
    (few : FewTooLow creating (handled ++ [msg.2])) :
    ((handleAt ip set msg).1 = true ↔ msg.2 ∈ handled ∨ TooLow (creating :: handled) msg.2) ∧
      ∃ next, (handleAt ip set msg).2.entries ip = some next ∧
      Exact creating (handled ++ [msg.2]) next := by
  have foundThen :
      ({ set with nowTimes := msg.1 } : DuplicateSet Addr).entries ip = some entry := found
  obtain ⟨answer, left⟩ := olsrMessageIsDuplicate_of_some foundThen msg.2
  obtain ⟨exactly, kept⟩ := (window.stamp (msg.1 + duplicateVtime)).check close few
  rw [handleAt, answer, left]
  exact ⟨exactly, _, Function.update_self .., kept⟩

theorem FewTooLow.take {front back : List UInt16}
    (few : FewTooLow creating (front ++ back)) : FewTooLow creating front := by
  intro before row after parts low
  refine few before row (after ++ back) ?_ low
  rw [parts, append_assoc]

/-- After every message the entry is exact. -/
theorem exact_handleAll {ip : Addr} (fresh : set.entries ip = none) (start : UInt32)
    (messages : List (UInt32 × UInt16)) (close : ∀ first ∈ creating :: messages.map Prod.snd,
        ∀ second ∈ creating :: messages.map Prod.snd, Close first second)
    (few : FewTooLow creating (messages.map Prod.snd)) :
    ∃ entry, (handleAll ip (handleAt ip set (start, creating)).2 messages).entries ip = some entry ∧
      Exact creating (messages.map Prod.snd) entry := by
  induction messages using List.reverseRecOn with
  | nil =>
    have freshThen : ({ set with nowTimes := start } : DuplicateSet Addr).entries ip = none := fresh
    refine ⟨_, ?_, exact_create creating (start + duplicateVtime)⟩
    simp only [handleAll, foldl_nil, handleAt, olsrMessageIsDuplicate_of_none freshThen]
    exact Function.update_self ..
  | append_singleton messages msg ih =>
    rw [map_append, map_singleton] at close few ⊢
    obtain ⟨entry, found, window⟩ :=
      ih (fun first mem second other =>
        close first (mem_append_left [msg.2] mem) second (mem_append_left [msg.2] other))
        few.take
    have closeHere : ∀ number ∈ creating :: messages.map Prod.snd, Close msg.2 number := by
      intro number mem
      exact close msg.2
        (mem_append_right (creating :: messages.map Prod.snd) mem_cons_self) number
        (mem_append_left [msg.2] mem)
    obtain ⟨next, left, kept⟩ := (handleAt_of_exact found window closeHere few).2
    refine ⟨next, ?_, kept⟩
    rw [handleAll, foldl_append]
    exact left

/-- The answer to every message after the one that created the entry: it is a
duplicate if and only if its number was handled since, or is more than 31 behind
the newest one handled so far. -/
theorem duplicate_window_exact {ip : Addr} {set : DuplicateSet Addr} {creating seqnr : UInt16}
    {handled : List (UInt32 × UInt16)} (fresh : set.entries ip = none) (start now : UInt32)
    (close : ∀ first ∈ creating :: (handled.map Prod.snd ++ [seqnr]),
      ∀ second ∈ creating :: (handled.map Prod.snd ++ [seqnr]), Close first second)
    (few : FewTooLow creating (handled.map Prod.snd ++ [seqnr])) :
    (handleAt ip (handleAll ip (handleAt ip set (start, creating)).2 handled)
        (now, seqnr)).1 = true ↔
      seqnr ∈ handled.map Prod.snd ∨ TooLow (creating :: handled.map Prod.snd) seqnr := by
  obtain ⟨entry, found, window⟩ := exact_handleAll fresh start handled
      (fun first member second other =>
        close first (mem_append_left [seqnr] member) second (mem_append_left [seqnr] other))
      few.take
  have closeHere : ∀ number ∈ creating :: handled.map Prod.snd, Close seqnr number := by
    intro number member
    exact close seqnr (mem_append_right (creating :: handled.map Prod.snd) mem_cons_self)
      number (mem_append_left [seqnr] member)
  have answered :
      ((handleAt ip (handleAll ip (handleAt ip set (start, creating)).2 handled)
          (now, seqnr)).1 = true ↔ _) ∧ _ :=
    handleAt_of_exact found window closeHere few
  exact answered.1

end Sequences

/-- Number 1 creates the entry, 2 and 40 follow, and 2 comes again. -/
theorem duplicate_window_exact_repeated :
    let handled : List (UInt32 × UInt16) := [(5, 2), (6, 40)]
    (handleAt 7 (handleAll 7 (handleAt 7 (DuplicateSet.init Nat) (0, 1)).2 handled)
        (9, 2)).1 = true ↔
      2 ∈ handled.map Prod.snd ∨ TooLow (1 :: handled.map Prod.snd) 2 := by
  have fresh : (DuplicateSet.init Nat).entries 7 = none := rfl
  intro handled
  refine duplicate_window_exact fresh 0 9 ?_ ?_
  · -- the members one by one, since `decide` may run through all of `UInt16`
    simp only [handled, map_cons, map_nil, cons_append, nil_append,
      forall_mem_cons, not_mem_nil, IsEmpty.forall_iff, implies_true, Close]
    decide
  · intro before row after parts _
    have lengths : 3 = (before ++ row ++ after).length := congrArg List.length parts
    rw [length_append, length_append] at lengths
    omega

end QosOlsr.DuplicateWindow
