import Mathlib.Data.List.Induction
import Mathlib.Logic.Function.Basic

/-!
# The de-duplication ring

`dedup.c` of the PUD plugin.  A message goes in front of the newest entry, so
that the ring is filled downwards; a search goes upwards from the newest entry
over as many entries as are in use.
-/

namespace QosOlsr.Pud

open Function List

variable {Addr : Type*}

structure DeDupEntry (Addr : Type*) where
  originator : Addr
  seqno : UInt16
  deriving DecidableEq

structure DeDupList (Addr : Type*) where
  entriesMaxCount : Nat
  entries : Nat → DeDupEntry Addr
  entriesCount : Nat
  newestEntryIndex : Nat

/-- `initDeDupList`; `stale` is what the allocated memory holds. -/
def initDeDupList (maxEntries : Nat) (stale : Nat → DeDupEntry Addr) : Option (DeDupList Addr) :=
  if maxEntries < 1 then none else some ⟨maxEntries, stale, 0, 0⟩

namespace DeDupList

def wrapIndex (list : DeDupList Addr) (index : Nat) : Nat := index % list.entriesMaxCount

def incomingIndex (list : DeDupList Addr) : Nat :=
  list.wrapIndex (list.newestEntryIndex + list.entriesMaxCount - 1)

def addToDeDup (list : DeDupList Addr) (msg : DeDupEntry Addr) : DeDupList Addr :=
  { list with
    entries := update list.entries list.incomingIndex msg
    newestEntryIndex := list.incomingIndex
    entriesCount :=
      if list.entriesCount < list.entriesMaxCount then list.entriesCount + 1
      else list.entriesCount }

def search [DecidableEq Addr] (list : DeDupList Addr) (msg : DeDupEntry Addr) : Nat → Nat → Bool
  | 0, _ => false
  | count + 1, iteratedIndex =>
    if list.entries iteratedIndex = msg then true
    else list.search msg count (list.wrapIndex (iteratedIndex + 1))

def isInDeDupList [DecidableEq Addr] (list : DeDupList Addr) (msg : DeDupEntry Addr) : Bool :=
  list.search msg list.entriesCount list.newestEntryIndex

def recent (list : DeDupList Addr) : List (DeDupEntry Addr) :=
  (List.range list.entriesCount).map fun age =>
    list.entries (list.wrapIndex (list.newestEntryIndex + age))

def Valid (list : DeDupList Addr) : Prop :=
  list.newestEntryIndex < list.entriesMaxCount ∧ list.entriesCount ≤ list.entriesMaxCount

variable {list : DeDupList Addr} {msg : DeDupEntry Addr}

theorem search_iff [DecidableEq Addr] {count index : Nat} (inside : index < list.entriesMaxCount) :
    list.search msg count index = true ↔
      ∃ age < count, list.entries (list.wrapIndex (index + age)) = msg := by
  induction count generalizing index with
  | zero => simp [search]
  | succ count ih =>
    have here : list.wrapIndex (index + 0) = index := Nat.mod_eq_of_lt inside
    have next : list.wrapIndex (index + 1) < list.entriesMaxCount :=
      Nat.mod_lt _ (Nat.zero_lt_of_lt inside)
    rw [search, Nat.exists_lt_succ_left, here]
    split
    next same => simp [same]
    next other =>
      rw [ih next]
      simp [other, wrapIndex, Nat.add_right_comm, ← Nat.add_assoc]

theorem wrapIndex_add {index age : Nat} (inside : index < list.entriesMaxCount)
    (young : age < list.entriesMaxCount) :
    list.wrapIndex (index + age) =
      if index + age < list.entriesMaxCount then index + age
      else index + age - list.entriesMaxCount := by
  rw [wrapIndex]
  split
  next below => exact Nat.mod_eq_of_lt below
  next above => rw [Nat.mod_eq_sub_mod (by omega), Nat.mod_eq_of_lt (by omega)]

theorem incomingIndex_eq (valid : list.Valid) : list.incomingIndex =
    if list.newestEntryIndex = 0 then list.entriesMaxCount - 1 else list.newestEntryIndex - 1 := by
  have := valid.1
  rw [incomingIndex, Nat.add_sub_assoc (by omega), wrapIndex_add valid.1 (by omega)]
  split_ifs <;> omega

theorem Valid.addToDeDup (valid : list.Valid) (msg : DeDupEntry Addr) :
    (list.addToDeDup msg).Valid := by
  have := valid.1
  have := valid.2
  rw [Valid, DeDupList.addToDeDup, incomingIndex_eq valid]
  dsimp only
  split_ifs <;> omega

private theorem recent_addToDeDup (valid : list.Valid) : (list.addToDeDup msg).recent =
    (msg :: list.recent).take list.entriesMaxCount := by
  have incoming_lt : list.incomingIndex < list.entriesMaxCount := (valid.addToDeDup msg).1
  have incoming := incomingIndex_eq valid
  obtain ⟨newest_lt, count_le⟩ := valid
  apply ext_getElem
  · simp only [recent, addToDeDup, length_map, length_range, length_take, length_cons]
    split <;> omega
  · intro age _ inside
    rw [length_take] at inside
    have placed := wrapIndex_add incoming_lt (by omega : age < list.entriesMaxCount)
    simp only [recent, addToDeDup, getElem_map, getElem_range, getElem_take]
    change update _ _ _ (list.wrapIndex _) = _
    cases age with
    | zero =>
      rw [placed, if_pos (by omega)]
      exact update_self ..
    | succ age =>
      have older : list.wrapIndex (list.incomingIndex + (age + 1)) =
          list.wrapIndex (list.newestEntryIndex + age) := by
        rw [placed, wrapIndex_add newest_lt (by omega), incoming]
        split_ifs <;> omega
      have apart : list.wrapIndex (list.incomingIndex + (age + 1)) ≠ list.incomingIndex := by
        rw [placed]
        split <;> omega
      rw [update_of_ne apart, older]
      simp

private theorem recent_foldl {size : Nat} {stale : Nat → DeDupEntry Addr}
    (init : initDeDupList size stale = some list) (added : List (DeDupEntry Addr)) :
    (added.foldl addToDeDup list).entriesMaxCount = size ∧ (added.foldl addToDeDup list).Valid ∧
      (added.foldl addToDeDup list).recent = added.reverse.take size := by
  induction added using List.reverseRecOn with
  | nil =>
    obtain ⟨nonzero, rfl⟩ : size ≠ 0 ∧ ⟨size, stale, 0, 0⟩ = list := by
      simpa [initDeDupList] using init
    simpa [Valid, recent] using Nat.pos_of_ne_zero nonzero
  | append_singleton earlier last ih =>
    obtain ⟨isSize, valid, isRecent⟩ := ih
    rw [foldl_append]
    refine ⟨isSize, valid.addToDeDup last, ?_⟩
    rw [foldl_cons, foldl_nil, recent_addToDeDup valid, isSize, isRecent]
    cases size <;> simp [take_take]

/-- A message is found exactly if it is among the last ones that the ring has
room for. -/
theorem isInDeDupList_iff [DecidableEq Addr] (size : Nat) (stale : Nat → DeDupEntry Addr)
    (added : List (DeDupEntry Addr)) (msg : DeDupEntry Addr) :
    ∃ list, initDeDupList (size + 1) stale = some list ∧
      ((added.foldl addToDeDup list).isInDeDupList msg = true ↔
        msg ∈ added.reverse.take (size + 1)) := by
  have init : initDeDupList (size + 1) stale = some ⟨size + 1, stale, 0, 0⟩ := rfl
  refine ⟨_, init, ?_⟩
  obtain ⟨-, valid, isRecent⟩ := recent_foldl init added
  rw [isInDeDupList, search_iff valid.1, ← isRecent]
  simp [recent]

end DeDupList

end QosOlsr.Pud
