import Mathlib.Data.ZMod.Basic
import QosOlsr.Library.Loop
import QosOlsr.Library.Runs

/-!
# Averaging positions

`posAvg.c` of the PUD plugin counts in how many entries of the window each field
is present, and derives from the counters what the average has.
-/

namespace QosOlsr.Pud

open Function List Library

inductive NmeaPresent where
  | smask | utcdate | utctime | sig | fix | pdop | hdop | vdop | lat | lon | elv | speed | track
  | mtrack | magvar | satinusecount | satinuse | satinviewcount | satinview | height | dgpsage
  | dgpssid
  deriving DecidableEq

inductive NmeaSentence where
  | gpgga | gpgsa | gpgsv | gprmc | gpvtg
  deriving DecidableEq

/-- From the best to the worst; all other values are `invalid`. -/
inductive NmeaSig where
  | sensitive | differential | fix | invalid
  deriving DecidableEq

inductive NmeaFix where
  | fix3d | fix2d | bad
  deriving DecidableEq

def NmeaSig.rank : NmeaSig → Nat
  | .sensitive => 0
  | .differential => 1
  | .fix => 2
  | .invalid => 3

def NmeaFix.rank : NmeaFix → Nat
  | .fix3d => 0
  | .fix2d => 1
  | .bad => 2

def Worst {Value : Type} (rank : Value → Nat) (values : List Value) (value : Value) : Prop :=
  value ∈ values ∧ ∀ other ∈ values, rank other ≤ rank value

structure NmeaInfo where
  present : NmeaPresent → Bool
  smask : NmeaSentence → Bool
  sig : NmeaSig
  fix : NmeaFix

inductive Counter where
  | present (field : NmeaPresent)
  | smask (sentence : NmeaSentence)
  | sig (sig : NmeaSig)
  | fix (fix : NmeaFix)
  deriving DecidableEq

def Counter.all : List Counter :=
  (range 22).map (.present <| .ofNat ·) ++ (range 5).map (.smask <| .ofNat ·) ++
    (range 4).map (.sig <| .ofNat ·) ++ (range 3).map (.fix <| .ofNat ·)

def NmeaInfo.counted (entry : NmeaInfo) : Counter → Bool
  | .present field => entry.present field
  | .smask sentence => entry.smask sentence
  | .sig sig => entry.present .sig ∧ entry.sig = sig
  | .fix fix => entry.present .fix ∧ entry.fix = fix

/-- The entries are a ring with room for one more than the window has. -/
structure PositionAverageList (maxCount : Nat) where
  entries : ZMod (maxCount + 1) → NmeaInfo
  entriesCount : Nat
  newestEntryIndex : ZMod (maxCount + 1)
  counters : Counter → Nat
  positionAverageCumulative : NmeaInfo
  positionAverage : NmeaInfo

namespace PositionAverageList

variable {maxCount : Nat} (list : PositionAverageList maxCount)

def initPositionAverageList (maxEntries : Nat) (stale : ZMod (maxEntries + 1) → NmeaInfo)
    (cleared : NmeaInfo) : Option (PositionAverageList maxEntries) :=
  if maxEntries < 2 then none else some ⟨stale, 0, 0, fun _ => 0, cleared, cleared⟩

def incomingIndex : ZMod (maxCount + 1) := list.newestEntryIndex + 1

def oldestIndex : ZMod (maxCount + 1) :=
  if 1 < list.entriesCount then list.incomingIndex - list.entriesCount else list.newestEntryIndex

/-- The assertion on a counter, for adding and for removing an entry. -/
def mayCount (counter : Counter) : Bool → Bool
  | true => list.counters counter < maxCount
  | false => 0 < list.counters counter

def adjusted (count : Nat) : Bool → Nat
  | true => count + 1
  | false => count - 1

def updateCounters (entry : NmeaInfo) (add : Bool) : Option (Counter → Nat) :=
  if ∀ counter ∈ Counter.all, entry.counted counter → list.mayCount counter add then
    some fun counter =>
      if entry.counted counter then adjusted (list.counters counter) add else list.counters counter
  else
    none

def determineCumulativePresentSmaskSigFix : NmeaInfo :=
  let all (counter : Counter) : Bool := list.entriesCount ≤ list.counters counter
  let none (counter : Counter) : Bool := list.counters counter = 0
  { present := fun field => all (.present field)
    smask := fun sentence => all (.smask sentence)
    sig :=
      if all (.present .sig) ∧ none (.sig .invalid) then
        if all (.sig .sensitive) then .sensitive
        else if ¬ none (.sig .differential) then .differential
        else if ¬ none (.sig .fix) then .fix
        else .invalid
      else .invalid
    fix :=
      if all (.present .fix) ∧ none (.fix .bad) then
        if all (.fix .fix3d) then .fix3d
        else if ¬ none (.fix .fix2d) then .fix2d
        else .bad
      else .bad }

def mayAdjust : Bool → Bool
  | true => list.entriesCount < maxCount
  | false => maxCount ≤ list.entriesCount

/-- There is no result if an assertion fails. -/
def addOrRemoveEntryToFromCumulativeAverage (entry : NmeaInfo) (add : Bool) :
    Option (PositionAverageList maxCount) :=
  if list.mayAdjust add then
    (list.updateCounters entry add).map fun counters =>
      let changed :=
        { list with entriesCount := adjusted list.entriesCount add, counters := counters }
      { changed with positionAverageCumulative := changed.determineCumulativePresentSmaskSigFix }
  else
    none

def removeOldest : Option (PositionAverageList maxCount) :=
  if maxCount ≤ list.entriesCount then
    list.addOrRemoveEntryToFromCumulativeAverage (list.entries list.oldestIndex) false
  else
    some list

/-- The caller has filled the incoming entry. -/
def addNewPositionToAverage (newEntry : NmeaInfo) : Option (PositionAverageList maxCount) :=
  let filled := { list with entries := update list.entries list.incomingIndex newEntry }
  filled.removeOldest.bind fun list =>
    (list.addOrRemoveEntryToFromCumulativeAverage newEntry true).map fun list =>
      { list with
        newestEntryIndex := list.incomingIndex
        positionAverage := list.positionAverageCumulative }

section

variable (window : List NmeaInfo)

/-- In how many entries of a window a counter finds what it counts. -/
def occurrences (counter : Counter) : Nat :=
  window.countP fun entry : NmeaInfo => entry.counted counter

/-- The list with what belongs to a window of entries. -/
def holding : PositionAverageList maxCount :=
  let changed := { list with entriesCount := window.length, counters := occurrences window }
  { changed with positionAverageCumulative := changed.determineCumulativePresentSmaskSigFix }

structure Averages : Prop where
  fits : window.length ≤ maxCount
  count : list.entriesCount = window.length
  counters : list.counters = occurrences window
  placed : ∀ age (inside : age < window.length),
    list.entries (list.newestEntryIndex - age) = window[age]

end

variable {list} {entry : NmeaInfo} {window : List NmeaInfo}

private theorem addOrRemove_add (count : list.entriesCount = window.length)
    (counters : list.counters = occurrences window) (room : window.length < maxCount) :
    list.addOrRemoveEntryToFromCumulativeAverage entry true =
      some (list.holding (entry :: window)) := by
  have mayAdd : list.mayAdjust true := decide_eq_true (count ▸ room)
  have mayCount (counter : Counter) : list.mayCount counter true := by
    rw [PositionAverageList.mayCount, counters]
    exact decide_eq_true (countP_le_length.trans_lt room)
  have updated : list.updateCounters entry true = some (occurrences (entry :: window)) := by
    rw [updateCounters, if_pos fun counter _ _ => mayCount counter, counters]
    congr 1
    funext counter
    rw [occurrences, occurrences, countP_cons]
    split <;> rfl
  rw [addOrRemoveEntryToFromCumulativeAverage, updated, if_pos mayAdd, count]
  rfl

private theorem addOrRemove_remove (count : list.entriesCount = (window ++ [entry]).length)
    (counters : list.counters = occurrences (window ++ [entry]))
    (full : maxCount ≤ list.entriesCount) :
    list.addOrRemoveEntryToFromCumulativeAverage entry false = some (list.holding window) := by
  have added (counter : Counter) : list.counters counter =
      occurrences window counter + if entry.counted counter then 1 else 0 := by
    simp [counters, occurrences]
  have updated : list.updateCounters entry false = some (occurrences window) := by
    rw [updateCounters, if_pos]
    · congr 1
      funext counter
      rw [added]
      split <;> rfl
    · intro counter _ counted
      simp [mayCount, added, counted]
  have mayRemove : list.mayAdjust false := decide_eq_true full
  rw [addOrRemoveEntryToFromCumulativeAverage, updated, if_pos mayRemove, count, length_append]
  rfl

/-- The entry before the oldest one of a full ring is free. -/
theorem sub_ne_add_one (index : ZMod (maxCount + 1)) {age : Nat} (young : age < maxCount) :
    index - age ≠ index + 1 := by
  intro same
  have zero : ((age + 1 : Nat) : ZMod (maxCount + 1)) = 0 := by
    push_cast
    linear_combination -same
  have := Nat.le_of_dvd (Nat.succ_pos age) ((ZMod.natCast_eq_zero_iff _ _).mp zero)
  omega

theorem Averages.removeOldest (averages : list.Averages window) (size : 2 ≤ maxCount)
    (newEntry : NmeaInfo) :
    let filled := { list with entries := update list.entries list.incomingIndex newEntry }
    let kept := window.take (maxCount - 1)
    ∃ middle, filled.removeOldest = some middle ∧ middle.entriesCount = kept.length ∧
      middle.counters = occurrences kept ∧
      ∀ front, middle.holding front = filled.holding front := by
  intro filled kept
  by_cases full : maxCount ≤ list.entriesCount
  · rw [averages.count] at full
    obtain rfl | ⟨front, last, rfl⟩ := eq_nil_or_concat' window
    · simp at full
      omega
    have isFull : front.length + 1 = maxCount := by
      have := averages.fits
      simp at this full
      omega
    have isKept : kept = front := by simp only [kept, ← isFull, Nat.add_sub_cancel, take_left]
    have count : filled.entriesCount = front.length + 1 := averages.count.trans length_append
    have isOldest : filled.oldestIndex = list.newestEntryIndex - front.length := by
      rw [oldestIndex, if_pos (by omega), count, incomingIndex]
      push_cast
      ring
    have oldest : filled.entries filled.oldestIndex = last := by
      rw [isOldest]
      refine (update_of_ne (sub_ne_add_one _ (by omega)) _ _).trans ?_
      rw [averages.placed _ (by simp), getElem_concat_length rfl]
    rw [isKept, PositionAverageList.removeOldest, if_pos (by omega), oldest]
    exact ⟨_, addOrRemove_remove averages.count averages.counters (by omega), rfl, rfl,
      fun _ => rfl⟩
  · have isKept : kept = window := take_of_length_le (by have := averages.count; omega)
    rw [isKept]
    exact ⟨filled, if_neg full, averages.count, averages.counters, fun _ => rfl⟩

theorem Averages.addNewPositionToAverage (averages : list.Averages window) (size : 2 ≤ maxCount)
    (newEntry : NmeaInfo) : ∃ next, list.addNewPositionToAverage newEntry = some next ∧
      next.Averages ((newEntry :: window).take maxCount) ∧
      next.positionAverage = next.determineCumulativePresentSmaskSigFix := by
  obtain ⟨middle, removed, count, counters, same⟩ := averages.removeOldest size newEntry
  have short : (window.take (maxCount - 1)).length < maxCount := by
    rw [length_take]
    omega
  have isWindow : (newEntry :: window).take maxCount =
      newEntry :: window.take (maxCount - 1) := take_cons (by omega)
  rw [PositionAverageList.addNewPositionToAverage, removed, Option.bind_some,
    addOrRemove_add count counters short, isWindow, same]
  refine ⟨_, rfl, ⟨short, rfl, rfl, ?_⟩, rfl⟩
  intro age inside
  change update _ (list.newestEntryIndex + 1) _ (list.newestEntryIndex + 1 - age) = _
  cases age with
  | zero => simp
  | succ age =>
    have young := Nat.lt_of_succ_lt_succ inside
    have older : list.newestEntryIndex + 1 - (age + 1 : Nat) = list.newestEntryIndex - age := by
      push_cast
      ring
    rw [older, update_of_ne (sub_ne_add_one _ (by omega)), getElem_cons_succ, getElem_take]
    exact averages.placed age (by rw [length_take] at young; omega)

theorem Averages.run
    (initial : list.Averages []) (size : 2 ≤ maxCount) (positions : List NmeaInfo) :
    ∃ final, positions.foldlM PositionAverageList.addNewPositionToAverage list = some final ∧
      final.Averages (positions.reverse.take maxCount) ∧
      (positions ≠ [] → final.positionAverage = final.determineCumulativePresentSmaskSigFix) := by
  obtain ⟨more, rfl⟩ := Nat.exists_eq_add_of_le' size
  apply foldlM_invariant fun visited (reached : PositionAverageList (more + 2)) =>
    reached.Averages (visited.reverse.take (more + 2)) ∧ (visited ≠ [] →
      reached.positionAverage = reached.determineCumulativePresentSmaskSigFix)
  · rintro visited position st - ⟨averages, -⟩
    obtain ⟨next, done, kept, isAverage⟩ := averages.addNewPositionToAverage size position
    refine ⟨next, done, ?_, fun _ => isAverage⟩
    simpa [take_take] using kept
  · exact ⟨initial, fun empty => (empty rfl).elim⟩

section

variable (averages : list.Averages window)
include averages

theorem Averages.le_counters_iff (counter : Counter) :
    list.entriesCount ≤ list.counters counter ↔ ∀ entry ∈ window, entry.counted counter := by
  rw [averages.count, averages.counters, occurrences, ← countP_eq_length]
  exact ⟨countP_le_length.antisymm, ge_of_eq⟩

theorem Averages.counters_eq_zero_iff (counter : Counter) :
    list.counters counter = 0 ↔ ∀ entry ∈ window, ¬ entry.counted counter := by
  rw [averages.counters, occurrences, countP_eq_zero]

private theorem Averages.worst_fix (nonempty : window ≠ [])
    (present : ∀ entry ∈ window, entry.present .fix) :
    Worst NmeaFix.rank (window.map (·.fix)) list.determineCumulativePresentSmaskSigFix.fix := by
  have values (entry : NmeaInfo) : entry.fix = .fix3d ∨ entry.fix = .fix2d ∨ entry.fix = .bad := by
    cases entry.fix <;> simp
  obtain ⟨first, isFirst⟩ := exists_mem_of_ne_nil window nonempty
  simp only [determineCumulativePresentSmaskSigFix, decide_eq_true_eq, averages.le_counters_iff,
    averages.counters_eq_zero_iff, NmeaInfo.counted, Worst, mem_map]
  split_ifs <;> grind [NmeaFix.rank]

private theorem Averages.worst_sig_iff (nonempty : window ≠ [])
    (present : ∀ entry ∈ window, entry.present .sig) :
    let sigs := window.map (·.sig)
    Worst NmeaSig.rank sigs list.determineCumulativePresentSmaskSigFix.sig ↔
      ¬ (.differential ∈ sigs ∧ .fix ∈ sigs ∧ .invalid ∉ sigs) := by
  have values (entry : NmeaInfo) : entry.sig = .sensitive ∨ entry.sig = .differential ∨
      entry.sig = .fix ∨ entry.sig = .invalid := by
    cases entry.sig <;> simp
  obtain ⟨first, isFirst⟩ := exists_mem_of_ne_nil window nonempty
  simp only [determineCumulativePresentSmaskSigFix, decide_eq_true_eq, averages.le_counters_iff,
    averages.counters_eq_zero_iff, NmeaInfo.counted, Worst, mem_map]
  split_ifs <;> grind [NmeaSig.rank]

end

/-- After any positions the counters are those of the window, and the average has
the fields, the sentences and the worst fix of its entries.  The signal quality
is the worst one, unless `differential` hides `fix`. -/
theorem positionAverage_of_run (size : Nat) (stale : ZMod (size + 2 + 1) → NmeaInfo)
    (cleared : NmeaInfo) (positions : List NmeaInfo) :
    ∃ list, (initPositionAverageList (size + 2) stale cleared).bind
        (positions.foldlM PositionAverageList.addNewPositionToAverage) = some list ∧
      let window := positions.reverse.take (size + 2)
      let sigs := window.map (·.sig)
      (∀ counter, list.counters counter = occurrences window counter) ∧
      (positions ≠ [] →
        (∀ field, list.positionAverage.present field ↔ ∀ entry ∈ window, entry.present field) ∧
        (∀ sentence, list.positionAverage.smask sentence ↔ ∀ entry ∈ window, entry.smask sentence) ∧
        ((∀ entry ∈ window, entry.present .fix) →
          Worst NmeaFix.rank (window.map (·.fix)) list.positionAverage.fix) ∧
        ((∀ entry ∈ window, entry.present .sig) →
          (Worst NmeaSig.rank sigs list.positionAverage.sig ↔
            ¬ (.differential ∈ sigs ∧ .fix ∈ sigs ∧ .invalid ∉ sigs)))) := by
  have initial : @Averages (size + 2) ⟨stale, 0, 0, fun _ => 0, cleared, cleared⟩ [] :=
    ⟨Nat.zero_le _, rfl, rfl, nofun⟩
  obtain ⟨list, run, averages, isAverage⟩ := initial.run (Nat.le_add_left 2 size) positions
  refine ⟨list, run, congrFun averages.counters, fun nonempty => ?_⟩
  have someEntry : positions.reverse.take (size + 2) ≠ [] := by simpa using nonempty
  rw [isAverage nonempty]
  exact ⟨fun field => decide_eq_true_iff.trans (averages.le_counters_iff (.present field)),
    fun sentence => decide_eq_true_iff.trans (averages.le_counters_iff (.smask sentence)),
    averages.worst_fix someEntry, averages.worst_sig_iff someEntry⟩

def plainInfo (sig : NmeaSig) : NmeaInfo := ⟨fun _ => true, fun _ => true, sig, .fix3d⟩

theorem positionAverage_hides_fix :
    ∃ list, (initPositionAverageList 2 (fun _ => plainInfo .invalid) (plainInfo .invalid)).bind
        ([plainInfo .differential, plainInfo .fix].foldlM
          PositionAverageList.addNewPositionToAverage) = some list ∧
      ¬ NmeaSig.rank .fix ≤ NmeaSig.rank list.positionAverage.sig := by
  decide +kernel

end PositionAverageList

end QosOlsr.Pud
