import Mathlib.Data.List.TakeWhile
import QosOlsr.Clock
import QosOlsr.Library.Keyed
import QosOlsr.Library.Runs

/-!
# The interface association set

`mid_set.c`: which interface addresses belong to which main address.  An alias
is queued under its main address in `mid_set` and under itself in
`reverse_mid_set`; each table is one list here, newest element first.
`insert_mid_alias` does not ask whether the alias is a main address or its main
address an alias.
-/

namespace QosOlsr

open Library List Option

universe u

variable {Addr : Type u} {adr : Addr} {mainAddr : Addr} {mAddr : Addr} {queued : Addr × Addr}

section

variable (Addr : Type u)

/-- `struct mid_address`, as its main address lists it. -/
structure MidAddress where
  aliasAddr : Addr
  vtime : UInt32
  deriving DecidableEq

structure MidEntry where
  mainAddr : Addr
  aliases : List (MidAddress Addr)
  deriving DecidableEq

/-- `mid_set` and `reverse_mid_set`; of an alias the latter holds the address
and the main address its `main_entry` leads to. -/
structure MidSet where
  midSet : List (MidEntry Addr)
  reverseMidSet : List (Addr × Addr)
  deriving DecidableEq

def MidSet.init : MidSet Addr := ⟨[], []⟩

structure MidAnnouncement where
  vtime : UInt32
  midOrigaddr : Addr
  midAddr : List Addr

end

section Operations

variable [DecidableEq Addr] (set : MidSet Addr)

def midLookupMainAddr (adr : Addr) : Option Addr :=
  (set.reverseMidSet.find? fun queued => queued.1 = adr).map Prod.snd

def midLookupEntryBymain (adr : Addr) : Option (MidEntry Addr) :=
  set.midSet.find? fun entry => entry.mainAddr = adr

def midLookupAliases (adr : Addr) : List (MidAddress Addr) :=
  (midLookupEntryBymain set adr).elim [] MidEntry.aliases

/-- `olsr_delete_mid_entry` of the entry under a main address. -/
def olsrDeleteMidEntry (mainAddr : Addr) : MidSet Addr where
  midSet := set.midSet.eraseP fun entry => entry.mainAddr = mainAddr
  reverseMidSet := set.reverseMidSet.filter fun queued => queued.2 ≠ mainAddr

def olsrCleanupMid (orig : Addr) : MidSet Addr :=
  match midLookupEntryBymain set orig with
  | some _ => olsrDeleteMidEntry set orig
  | none => set

/-- The part of `insert_mid_tuple` that queues an alias; the time of a new
alias is zero. -/
def queueMidTuple (mAddr aliasAddr : Addr) : MidSet Addr where
  midSet :=
    match midLookupEntryBymain set mAddr with
    | some _ =>
      modifyKey MidEntry.mainAddr mAddr
        (fun entry => { entry with aliases := ⟨aliasAddr, 0⟩ :: entry.aliases })
        set.midSet
    | none => ⟨mAddr, [⟨aliasAddr, 0⟩]⟩ :: set.midSet
  reverseMidSet := (aliasAddr, mAddr) :: set.reverseMidSet

variable (nowTimes : UInt32)

/-- Does `olsr_prune_aliases` keep an alias?  One that is not declared any
more is kept until its time is over, unless no alias is declared at all. -/
def keepsAlias (declared : List Addr) (registered : MidAddress Addr) : Bool :=
  registered.aliasAddr ∈ declared ∨ ¬ olsrIsTimedOut nowTimes registered.vtime ∧ declared ≠ []

/-- The aliases that `olsr_prune_aliases` leaves, with the time of those
declared anew. -/
def keptAliases (msg : MidAnnouncement Addr)
    (aliases : List (MidAddress Addr)) : List (MidAddress Addr) :=
  (aliases.filter fun registered =>
      keepsAlias nowTimes msg.midAddr registered).map fun registered =>
    if registered.aliasAddr ∈ msg.midAddr then
      { registered with vtime := nowTimes + msg.vtime }
    else
      registered

def olsrPruneAliases (msg : MidAnnouncement Addr) (set : MidSet Addr) : MidSet Addr :=
  match midLookupEntryBymain set msg.midOrigaddr with
  | none => set
  | some entry =>
    let removed :=
      (entry.aliases.filter fun registered =>
          ¬ keepsAlias nowTimes msg.midAddr registered).map
        MidAddress.aliasAddr
    { midSet :=
        modifyKey MidEntry.mainAddr msg.midOrigaddr
          (fun entry =>
            { entry with
              aliases := keptAliases nowTimes msg entry.aliases })
          set.midSet
      reverseMidSet := set.reverseMidSet.filter fun queued =>
          ¬ (queued.2 = msg.midOrigaddr ∧ queued.1 ∈ removed) }

end Operations

/-! ## Aliases and neighbours -/

structure MidState (Addr : Type u) where
  mids : MidSet Addr
  neighbors : List Addr
  deriving DecidableEq

structure MidContext (Addr : Type u) where
  nowTimes : UInt32
  olsrValidateAddress : Addr → Bool
  isOwnInterface : Addr → Bool

section Aliases

variable [DecidableEq Addr]

/-- The loop at the end of `insert_mid_tuple`: an alias does not stay in the
neighbour table beside its main address. -/
def dropBogusNeighbors (mAddr : Addr) (neighbors : List Addr) (aliases : List Addr) : List Addr :=
  aliases.foldl
    (fun neighbors aliasAddr =>
      if aliasAddr ∈ neighbors ∧ mAddr ∈ neighbors then
        neighbors.erase aliasAddr
      else
        neighbors)
    neighbors

def insertMidTuple (mAddr aliasAddr : Addr) (st : MidState Addr) : MidState Addr :=
  if midLookupMainAddr st.mids aliasAddr = some mAddr then
    st
  else
    let mids := queueMidTuple st.mids mAddr aliasAddr
    { mids := mids
      neighbors := dropBogusNeighbors mAddr st.neighbors
          ((midLookupAliases mids mAddr).map MidAddress.aliasAddr) }

/-- `olsr_delete_neighbor_table(alias)` and
`olsr_insert_neighbor_table(main_add)`, on the main addresses. -/
def renameNeighbor (mainAdd aliasAddr : Addr) (neighbors : List Addr) : List Addr :=
  let remaining := neighbors.erase aliasAddr
  if mainAdd ∈ remaining then remaining else mainAdd :: remaining

variable (ctx : MidContext Addr)

def insertMidAlias (mainAdd aliasAddr : Addr) (st : MidState Addr) : MidState Addr :=
  if ¬ ctx.olsrValidateAddress aliasAddr then
    st
  else if aliasAddr ∈ st.neighbors then
    insertMidTuple mainAdd aliasAddr
      { mids := olsrCleanupMid st.mids aliasAddr
        neighbors := renameNeighbor mainAdd aliasAddr st.neighbors }
  else
    insertMidTuple mainAdd aliasAddr st

/-- One round of the loop of `olsr_input_mid`. -/
def inputMidAlias (origaddr : Addr) (st : MidState Addr) (aliasAddr : Addr) : MidState Addr :=
  if ctx.isOwnInterface aliasAddr then
    st
  else if midLookupMainAddr st.mids aliasAddr = none then
    insertMidAlias ctx origaddr aliasAddr st
  else
    st

/-- `olsr_input_mid`; `symmetric` is what `check_neighbor_link` says about the
sender. -/
def olsrInputMid (symmetric : Bool) (msg : MidAnnouncement Addr)
    (st : MidState Addr) : MidState Addr :=
  if ¬ ctx.olsrValidateAddress msg.midOrigaddr ∨ ¬ symmetric then
    st
  else
    let inserted := msg.midAddr.foldl (inputMidAlias ctx msg.midOrigaddr) st
    { inserted with mids := olsrPruneAliases ctx.nowTimes msg inserted.mids }

/-- The part of `olsr_hello_tap` that registers the sender's interface. -/
def helloTapAlias (sourceAddr fromAddr : Addr) (st : MidState Addr) : MidState Addr :=
  if sourceAddr ≠ fromAddr ∧ ctx.olsrValidateAddress fromAddr ∧
      (midLookupMainAddr st.mids fromAddr = none ∨
        midLookupMainAddr st.mids fromAddr = some sourceAddr) then
    insertMidAlias ctx sourceAddr fromAddr st
  else
    st

end Aliases

section WellKept

variable [DecidableEq Addr]

/-- The two tables hold the same aliases, each alias and each main address
once. -/
structure WellKept (set : MidSet Addr) : Prop where
  queued_iff : ∀ {aliasAddr mainAddr}, (aliasAddr, mainAddr) ∈ set.reverseMidSet ↔
        ∃ entry ∈ set.midSet,
          entry.mainAddr = mainAddr ∧ aliasAddr ∈ entry.aliases.map MidAddress.aliasAddr
  keys_nodup : (set.reverseMidSet.map Prod.fst).Nodup
  mains_nodup : (set.midSet.map MidEntry.mainAddr).Nodup
  aliases_nodup : ∀ entry ∈ set.midSet, (entry.aliases.map MidAddress.aliasAddr).Nodup

def IsMain (set : MidSet Addr) (adr : Addr) : Prop := ∃ entry ∈ set.midSet, entry.mainAddr = adr

omit [DecidableEq Addr] in
theorem WellKept.init : WellKept (MidSet.init Addr) where
  queued_iff := by simp [MidSet.init]
  keys_nodup := nodup_nil
  mains_nodup := nodup_nil
  aliases_nodup := fun _ no => nomatch no

variable {set : MidSet Addr} {aliasAddr : Addr}

omit [DecidableEq Addr] in
theorem WellKept.isMain (kept : WellKept set)
    (queued : (aliasAddr, mainAddr) ∈ set.reverseMidSet) : IsMain set mainAddr := by
  obtain ⟨entry, mem, isMain, -⟩ := kept.queued_iff.mp queued
  exact ⟨entry, mem, isMain⟩

theorem midLookupMainAddr_eq_none_iff :
    midLookupMainAddr set adr = none ↔ adr ∉ set.reverseMidSet.map Prod.fst :=
  map_eq_none_iff.trans find?_key_eq_none_iff

theorem WellKept.midLookupMainAddr_iff (kept : WellKept set) :
    midLookupMainAddr set adr = some mainAddr ↔ (adr, mainAddr) ∈ set.reverseMidSet := by
  simp [midLookupMainAddr, map_eq_some_iff, find?_key_eq_some_iff kept.keys_nodup]

theorem midLookupEntryBymain_eq_none_iff :
    midLookupEntryBymain set adr = none ↔ ¬ IsMain set adr := by
  rw [midLookupEntryBymain, find?_key_eq_none_iff, List.mem_map]
  rfl

theorem WellKept.mem_olsrDeleteMidEntry (kept : WellKept set) {entry : MidEntry Addr} :
    entry ∈ (olsrDeleteMidEntry set mainAddr).midSet ↔
      entry ∈ set.midSet ∧ entry.mainAddr ≠ mainAddr :=
  mem_eraseP_key_iff kept.mains_nodup

theorem WellKept.delete (kept : WellKept set) (mainAddr : Addr) :
    WellKept (olsrDeleteMidEntry set mainAddr) where
  queued_iff := by
    intro aliasAddr other
    have inTable : (aliasAddr, other) ∈ (olsrDeleteMidEntry set mainAddr).reverseMidSet ↔
          (aliasAddr, other) ∈ set.reverseMidSet ∧ other ≠ mainAddr := by
      simp [olsrDeleteMidEntry]
    rw [inTable, kept.queued_iff]
    simp only [kept.mem_olsrDeleteMidEntry]
    grind
  keys_nodup := kept.keys_nodup.sublist (filter_sublist.map Prod.fst)
  mains_nodup := kept.mains_nodup.sublist (eraseP_sublist.map MidEntry.mainAddr)
  aliases_nodup := fun entry mem =>
    kept.aliases_nodup entry (kept.mem_olsrDeleteMidEntry.mp mem).1

theorem WellKept.cleanup (kept : WellKept set) (orig : Addr) :
    WellKept (olsrCleanupMid set orig) := by
  rw [olsrCleanupMid]
  cases midLookupEntryBymain set orig with
  | none => exact kept
  | some entry => exact kept.delete orig

theorem WellKept.isMain_olsrCleanupMid (kept : WellKept set) {orig : Addr} :
    IsMain (olsrCleanupMid set orig) adr ↔ IsMain set adr ∧ adr ≠ orig := by
  rw [olsrCleanupMid]
  cases found : midLookupEntryBymain set orig with
  | none =>
    have notMain := midLookupEntryBymain_eq_none_iff.mp found
    exact ⟨fun isMain => ⟨isMain, fun same => notMain (same ▸ isMain)⟩, And.left⟩
  | some entry =>
    simp only [IsMain, kept.mem_olsrDeleteMidEntry]
    grind

theorem mem_of_mem_olsrCleanupMid {orig : Addr}
    (mem : queued ∈ (olsrCleanupMid set orig).reverseMidSet) : queued ∈ set.reverseMidSet := by
  rw [olsrCleanupMid] at mem
  split at mem
  · exact mem_of_mem_filter mem
  · exact mem

theorem midLookupAliases_queueMidTuple :
    midLookupAliases (queueMidTuple set mAddr aliasAddr) mAddr =
      ⟨aliasAddr, 0⟩ :: midLookupAliases set mAddr := by
  cases found : midLookupEntryBymain set mAddr with
  | none =>
    have written : midLookupEntryBymain (queueMidTuple set mAddr aliasAddr) mAddr =
          some ⟨mAddr, [⟨aliasAddr, 0⟩]⟩ := by
      rw [midLookupEntryBymain, queueMidTuple, found]
      exact find?_cons_of_pos (decide_eq_true rfl)
    rw [midLookupAliases, written, midLookupAliases, found]
    rfl
  | some old =>
    have written : midLookupEntryBymain (queueMidTuple set mAddr aliasAddr) mAddr =
          some ⟨old.mainAddr, ⟨aliasAddr, 0⟩ :: old.aliases⟩ := by
      rw [midLookupEntryBymain, queueMidTuple, found]
      simp only []
      rw [find?_modifyKey, if_pos rfl]
      · exact congrArg (Option.map _) found
      · exact fun _ => rfl
    rw [midLookupAliases, written, midLookupAliases, found]
    rfl

section

variable (kept : WellKept set)
include kept

theorem WellKept.only {old : MidEntry Addr} (found : midLookupEntryBymain set mAddr = some old) :
    (old ∈ set.midSet ∧ old.mainAddr = mAddr) ∧
      ∀ entry ∈ set.midSet, entry.mainAddr = mAddr → entry = old := by
  have isOld := (find?_key_eq_some_iff kept.mains_nodup).mp found
  refine ⟨isOld, fun entry mem isMain => ?_⟩
  exact inj_on_of_nodup_map kept.mains_nodup mem isOld.1 (isMain.trans isOld.2.symm)

variable {aliasAddr : Addr}

theorem WellKept.mem_queueMidTuple
    {entry : MidEntry Addr} : entry ∈ (queueMidTuple set mAddr aliasAddr).midSet ↔
      entry ∈ set.midSet ∧ entry.mainAddr ≠ mAddr ∨
      entry.mainAddr = mAddr ∧ entry.aliases = ⟨aliasAddr, 0⟩ :: midLookupAliases set mAddr := by
  cases found : midLookupEntryBymain set mAddr with
  | none =>
    have noMain : ∀ entry ∈ set.midSet, entry.mainAddr ≠ mAddr := fun entry mem isMain =>
        midLookupEntryBymain_eq_none_iff.mp found ⟨entry, mem, isMain⟩
    cases entry
    simp only [queueMidTuple, midLookupAliases, found, mem_cons, MidEntry.mk.injEq, Option.elim]
    grind
  | some old =>
    obtain ⟨isOld, only⟩ := kept.only found
    cases entry
    simp only [queueMidTuple, midLookupAliases, found, Option.elim,
      mem_modifyKey_iff kept.mains_nodup]
    grind

theorem WellKept.isMain_queueMidTuple :
    IsMain (queueMidTuple set mAddr aliasAddr) adr ↔ IsMain set adr ∨ adr = mAddr := by
  simp only [IsMain, kept.mem_queueMidTuple]
  constructor
  · grind
  · rintro (⟨entry, mem, isMain⟩ | isMain)
    · by_cases isNew : entry.mainAddr = mAddr
      · exact
          ⟨⟨mAddr, ⟨aliasAddr, 0⟩ :: midLookupAliases set mAddr⟩, Or.inr ⟨rfl, rfl⟩, isNew ▸ isMain⟩
      · exact ⟨entry, Or.inl ⟨mem, isNew⟩, isMain⟩
    · exact ⟨⟨mAddr, ⟨aliasAddr, 0⟩ :: midLookupAliases set mAddr⟩, Or.inr ⟨rfl, rfl⟩, isMain.symm⟩

theorem WellKept.mem_aliases_iff {registered : MidAddress Addr} :
    registered ∈ midLookupAliases set mainAddr ↔
      ∃ entry ∈ set.midSet, entry.mainAddr = mainAddr ∧ registered ∈ entry.aliases := by
  rw [midLookupAliases]
  cases found : midLookupEntryBymain set mainAddr with
  | none =>
    have notMain := midLookupEntryBymain_eq_none_iff.mp found
    simp only [IsMain] at notMain
    simp only [Option.elim]
    grind
  | some old =>
    obtain ⟨isOld, only⟩ := kept.only found
    simp only [Option.elim]
    grind

theorem WellKept.mem_midLookupAliases_iff :
    aliasAddr ∈ (midLookupAliases set mainAddr).map MidAddress.aliasAddr ↔
      (aliasAddr, mainAddr) ∈ set.reverseMidSet := by
  simp only [kept.queued_iff, List.mem_map, kept.mem_aliases_iff]
  grind

private theorem WellKept.nodup_midLookupAliases (mainAddr : Addr) :
    ((midLookupAliases set mainAddr).map MidAddress.aliasAddr).Nodup := by
  rw [midLookupAliases]
  cases found : midLookupEntryBymain set mainAddr with
  | none => exact nodup_nil
  | some entry => exact kept.aliases_nodup entry (of_find?_key_eq_some found).1

theorem WellKept.queue (mAddr : Addr) (isNew : midLookupMainAddr set aliasAddr = none) :
    WellKept (queueMidTuple set mAddr aliasAddr) := by
  have unqueued := midLookupMainAddr_eq_none_iff.mp isNew
  refine ⟨?_, ?_, ?_, ?_⟩
  · intro other mainAddr
    simp only [kept.mem_queueMidTuple]
    simp only [queueMidTuple, mem_cons, Prod.mk.injEq]
    constructor
    · rintro (⟨rfl, rfl⟩ | old)
      · exact ⟨⟨_, _⟩, Or.inr ⟨rfl, rfl⟩, rfl, mem_cons_self⟩
      · by_cases isM : mainAddr = mAddr
        · subst isM
          exact ⟨⟨_, _⟩, Or.inr ⟨rfl, rfl⟩, rfl,
              mem_cons_of_mem _ (kept.mem_midLookupAliases_iff.mpr old)⟩
        · obtain ⟨entry, mem, isMain, listed⟩ := kept.queued_iff.mp old
          exact ⟨entry, Or.inl ⟨mem, isMain ▸ isM⟩, isMain, listed⟩
    · rintro ⟨entry, ⟨mem, -⟩ | ⟨isM, aliases⟩, rfl, listed⟩
      · exact Or.inr (kept.queued_iff.mpr ⟨entry, mem, rfl, listed⟩)
      · rw [aliases, map_cons, mem_cons] at listed
        refine listed.imp (fun same => ⟨same, isM⟩) fun old => ?_
        rw [isM]
        exact kept.mem_midLookupAliases_iff.mp old
  · exact nodup_cons.mpr ⟨unqueued, kept.keys_nodup⟩
  · rw [queueMidTuple]
    cases found : midLookupEntryBymain set mAddr with
    | none =>
      refine nodup_cons.mpr ⟨?_, kept.mains_nodup⟩
      exact find?_key_eq_none_iff.mp found
    | some entry =>
      simp only []
      rw [map_modifyKey]
      · exact kept.mains_nodup
      · exact fun _ => rfl
  · intro entry mem
    rcases kept.mem_queueMidTuple.mp mem with old | ⟨-, aliases⟩
    · exact kept.aliases_nodup entry old.1
    · rw [aliases]
      refine nodup_cons.mpr ⟨?_, kept.nodup_midLookupAliases mAddr⟩
      intro listed
      exact unqueued (mem_map_of_mem (kept.mem_midLookupAliases_iff.mp listed))

end

theorem map_keptAliases (nowTimes : UInt32) (msg : MidAnnouncement Addr)
    (aliases : List (MidAddress Addr)) :
    (keptAliases nowTimes msg aliases).map MidAddress.aliasAddr =
      (aliases.filter fun registered =>
        keepsAlias nowTimes msg.midAddr registered).map MidAddress.aliasAddr := by
  rw [keptAliases, List.map_map]
  apply map_congr_left
  intro registered _
  rw [Function.comp_apply]
  split <;> rfl

/-- Pruning removes the same aliases from both tables. -/
theorem WellKept.prune (kept : WellKept set) (nowTimes : UInt32) (msg : MidAnnouncement Addr) :
    WellKept (olsrPruneAliases nowTimes msg set) := by
  rw [olsrPruneAliases]
  cases found : midLookupEntryBymain set msg.midOrigaddr with
  | none => exact kept
  | some pruned =>
    have isPruned := (find?_key_eq_some_iff kept.mains_nodup).mp found
    have nodup := kept.aliases_nodup pruned isPruned.1
    refine ⟨?_, ?_, ?_, ?_⟩
    · intro aliasAddr mainAddr
      simp only [mem_filter, decide_eq_true_eq, kept.queued_iff, mem_modifyKey_iff kept.mains_nodup]
      constructor
      · rintro ⟨⟨entry, mem, rfl, listed⟩, stays⟩
        by_cases isOrig : entry.mainAddr = msg.midOrigaddr
        · have same := inj_on_of_nodup_map kept.mains_nodup mem isPruned.1
              (isOrig.trans isPruned.2.symm)
          subst same
          refine ⟨_, Or.inr ⟨_, mem, isOrig, rfl⟩, rfl, ?_⟩
          rw [map_keptAliases, mem_map_filter_iff nodup]
          exact ⟨listed, fun removed => stays ⟨isOrig, removed⟩⟩
        · exact ⟨entry, Or.inl ⟨mem, isOrig⟩, rfl, listed⟩
      · rintro ⟨entry, ⟨mem, notOrig⟩ | ⟨old, mem, isOrig, rfl⟩, rfl, listed⟩
        · exact ⟨⟨entry, mem, rfl, listed⟩, fun both => notOrig both.1⟩
        · have same := inj_on_of_nodup_map kept.mains_nodup mem isPruned.1
              (isOrig.trans isPruned.2.symm)
          subst same
          rw [map_keptAliases, mem_map_filter_iff nodup] at listed
          exact ⟨⟨old, mem, rfl, listed.1⟩, fun both => listed.2 both.2⟩
    · exact kept.keys_nodup.sublist (filter_sublist.map Prod.fst)
    · rw [map_modifyKey]
      · exact kept.mains_nodup
      · exact fun _ => rfl
    · intro entry mem
      rw [mem_modifyKey_iff kept.mains_nodup] at mem
      rcases mem with old | ⟨old, inSet, -, rfl⟩
      · exact kept.aliases_nodup entry old.1
      · rw [map_keptAliases]
        exact (kept.aliases_nodup old inSet).sublist (filter_sublist.map MidAddress.aliasAddr)

variable {msg : MidAnnouncement Addr} {nowTimes : UInt32}

private theorem isMain_olsrPruneAliases :
    IsMain (olsrPruneAliases nowTimes msg set) adr ↔ IsMain set adr := by
  rw [olsrPruneAliases]
  split
  · rfl
  · simp only [IsMain, ← List.mem_map (f := MidEntry.mainAddr)]
    rw [map_modifyKey]
    exact fun _ => rfl

theorem mem_of_mem_olsrPruneAliases
    (mem : queued ∈ (olsrPruneAliases nowTimes msg set).reverseMidSet) :
    queued ∈ set.reverseMidSet := by
  rw [olsrPruneAliases] at mem
  split at mem
  · exact mem
  · exact mem_of_mem_filter mem

end WellKept

section Pruning

variable [DecidableEq Addr] {nowTimes : UInt32}

/-- The aliases that stay by their own time: declared ones with the new time,
others until they are timed out. -/
def stayingAliases (nowTimes : UInt32) (msg : MidAnnouncement Addr)
    (aliases : List (MidAddress Addr)) : List (MidAddress Addr) :=
  aliases.filterMap fun registered =>
    if registered.aliasAddr ∈ msg.midAddr then
      some { registered with vtime := nowTimes + msg.vtime }
    else if olsrIsTimedOut nowTimes registered.vtime then
      none
    else
      some registered

private theorem keptAliases_eq_of_declared {msg : MidAnnouncement Addr}
    (declares : msg.midAddr ≠ []) (aliases : List (MidAddress Addr)) :
    keptAliases nowTimes msg aliases = stayingAliases nowTimes msg aliases := by
  induction aliases with
  | nil => rfl
  | cons registered rest ih =>
    rw [keptAliases, stayingAliases] at ih ⊢
    rw [filter_cons, filterMap_cons, ← ih]
    by_cases isDeclared : registered.aliasAddr ∈ msg.midAddr
    · simp [keepsAlias, isDeclared]
    · by_cases timedOut : olsrIsTimedOut nowTimes registered.vtime <;>
        simp [keepsAlias, isDeclared, declares, timedOut]

/-- Pruning leaves the aliases that stay by their own time, exactly if the
message declares an alias or the times of all are over. -/
theorem olsrPruneAliases_staying_iff {set : MidSet Addr} {msg : MidAnnouncement Addr}
    {entry : MidEntry Addr} (found : midLookupEntryBymain set msg.midOrigaddr = some entry) :
    ∃ pruned, midLookupEntryBymain (olsrPruneAliases nowTimes msg set) msg.midOrigaddr =
        some pruned ∧
      (pruned.aliases = stayingAliases nowTimes msg entry.aliases ↔ msg.midAddr ≠ [] ∨
          ∀ registered ∈ entry.aliases, olsrIsTimedOut nowTimes registered.vtime = true) := by
  refine ⟨{ entry with aliases := keptAliases nowTimes msg entry.aliases }, ?_, ?_⟩
  · rw [olsrPruneAliases, found, midLookupEntryBymain]
    dsimp only
    rw [find?_modifyKey, if_pos rfl]
    · exact congrArg (Option.map _) found
    · exact fun _ => rfl
  · by_cases declares : msg.midAddr = []
    · have gone : keptAliases nowTimes msg entry.aliases = [] := by
        simp [keptAliases, keepsAlias, declares]
      rw [gone, eq_comm, stayingAliases, filterMap_eq_nil_iff]
      simp [declares]
    · simp [keptAliases_eq_of_declared declares, declares]

/-- Of three aliases the declared one stays with a new time, another until its
time is over, and the third is over. -/
theorem olsrPruneAliases_staying_declared : ∃ pruned,
      midLookupEntryBymain (olsrPruneAliases 5 ⟨10, 1, [2]⟩
          ⟨[⟨1, [⟨2, 3⟩, ⟨4, 300⟩, ⟨6, 4⟩]⟩], [(2, 1), (4, 1), (6, 1)]⟩) 1 =
        some pruned ∧ pruned.aliases = [(⟨2, 15⟩ : MidAddress Nat), ⟨4, 300⟩] := by
  obtain ⟨pruned, isPruned, staying⟩ := @olsrPruneAliases_staying_iff Nat _ 5
    ⟨[⟨1, [⟨2, 3⟩, ⟨4, 300⟩, ⟨6, 4⟩]⟩], [(2, 1), (4, 1), (6, 1)]⟩ ⟨10, 1, [2]⟩
    ⟨1, [⟨2, 3⟩, ⟨4, 300⟩, ⟨6, 4⟩]⟩ rfl
  exact ⟨pruned, isPruned, staying.mpr (.inl (by decide))⟩

/-- A message without an alias takes away one whose time is not over. -/
theorem olsrPruneAliases_without_declared :
    let set : MidSet Nat := ⟨[⟨1, [⟨2, 300⟩]⟩], [(2, 1)]⟩
    olsrIsTimedOut 5 300 = false ∧ (olsrPruneAliases 5 ⟨10, 1, []⟩ set).midSet = [⟨1, []⟩] := by
  decide

end Pruning

section Canonical

variable [DecidableEq Addr]

structure Canonical (set : MidSet Addr) : Prop extends WellKept set where
  separate : ∀ {aliasAddr mainAddr},
      (aliasAddr, mainAddr) ∈ set.reverseMidSet → IsMain set aliasAddr → mainAddr = aliasAddr

omit [DecidableEq Addr] in
theorem Canonical.init : Canonical (MidSet.init Addr) where
  toWellKept := WellKept.init
  separate := fun no => nomatch no

omit [DecidableEq Addr] in
theorem Canonical.shrink
    {set smaller : MidSet Addr} (canonical : Canonical set) (kept : WellKept smaller)
    (fewer : ∀ {queued}, queued ∈ smaller.reverseMidSet → queued ∈ set.reverseMidSet)
    (fewerMains : ∀ {adr}, IsMain smaller adr → IsMain set adr) : Canonical smaller where
  toWellKept := kept
  separate := fun queued isMain => canonical.separate (fewer queued) (fewerMains isMain)

variable {set : MidSet Addr}

theorem Canonical.cleanup (canonical : Canonical set) (orig : Addr) :
    Canonical (olsrCleanupMid set orig) :=
  canonical.shrink (canonical.toWellKept.cleanup orig) mem_of_mem_olsrCleanupMid
    fun isMain => (canonical.isMain_olsrCleanupMid.mp isMain).1

theorem Canonical.prune (canonical : Canonical set) (nowTimes : UInt32)
    (msg : MidAnnouncement Addr) : Canonical (olsrPruneAliases nowTimes msg set) :=
  canonical.shrink (canonical.toWellKept.prune nowTimes msg)
    mem_of_mem_olsrPruneAliases isMain_olsrPruneAliases.mp

theorem Canonical.queue (canonical : Canonical set) {aliasAddr : Addr}
    (isNew : midLookupMainAddr set aliasAddr = none)
    (mainFree : ∀ {mainAddr}, (mAddr, mainAddr) ∈ set.reverseMidSet → mainAddr = mAddr)
    (aliasFree : aliasAddr = mAddr ∨ ¬ IsMain set aliasAddr) :
    Canonical (queueMidTuple set mAddr aliasAddr) where
  toWellKept := canonical.toWellKept.queue mAddr isNew
  separate := by
    intro other mainAddr queued isMain
    rw [canonical.isMain_queueMidTuple] at isMain
    rcases mem_cons.mp queued with isNewest | old
    · obtain ⟨rfl, rfl⟩ := Prod.mk.inj isNewest
      rcases isMain with isMain | isMain
      · exact (aliasFree.resolve_right (not_not_intro isMain)).symm
      · exact isMain.symm
    · rcases isMain with isMain | rfl
      · exact canonical.separate old isMain
      · exact mainFree old

end Canonical

section Registering

variable [DecidableEq Addr]

/-- What `insert_mid_alias` does not ask: the main address is no alias of
another one, and the alias is no main address unless it is in the neighbour
table, where it is cleaned up. -/
def MayRegister (st : MidState Addr) (mainAdd aliasAddr : Addr) : Prop :=
  (midLookupMainAddr st.mids mainAdd = none ∨
      midLookupMainAddr st.mids mainAdd = some mainAdd) ∧
    (aliasAddr = mainAdd ∨ midLookupEntryBymain st.mids aliasAddr = none ∨ aliasAddr ∈ st.neighbors)

private theorem mem_dropBogusNeighbors {neighbors aliases : List Addr} (isNbr : adr ∈ neighbors)
    (notListed : adr ∉ aliases) : adr ∈ dropBogusNeighbors mAddr neighbors aliases := by
  rw [dropBogusNeighbors]
  induction aliases generalizing neighbors with
  | nil => exact isNbr
  | cons aliasAddr rest ih =>
    rw [mem_cons, not_or] at notListed
    rw [foldl_cons]
    apply ih _ notListed.2
    split
    · exact (mem_erase_of_ne notListed.1).mpr isNbr
    · exact isNbr

/-- What `insert_mid_alias` does before it calls `insert_mid_tuple`. -/
def replaceNeighbor (mainAdd aliasAddr : Addr) (st : MidState Addr) : MidState Addr :=
  if aliasAddr ∈ st.neighbors then
    { mids := olsrCleanupMid st.mids aliasAddr
      neighbors := renameNeighbor mainAdd aliasAddr st.neighbors }
  else
    st

theorem insertMidAlias_eq (ctx : MidContext Addr) (mainAdd aliasAddr : Addr) (st : MidState Addr) :
    insertMidAlias ctx mainAdd aliasAddr st =
      if ctx.olsrValidateAddress aliasAddr then
        insertMidTuple mainAdd aliasAddr (replaceNeighbor mainAdd aliasAddr st)
      else
        st := by
  grind [insertMidAlias, replaceNeighbor]

variable {st : MidState Addr} {mainAdd aliasAddr : Addr}

theorem canonical_replaceNeighbor (canonical : Canonical st.mids) :
    Canonical (replaceNeighbor mainAdd aliasAddr st).mids := by
  rw [replaceNeighbor]
  split
  · exact canonical.cleanup aliasAddr
  · exact canonical

theorem mem_of_mem_replaceNeighbor
    (mem : queued ∈ (replaceNeighbor mainAdd aliasAddr st).mids.reverseMidSet) :
    queued ∈ st.mids.reverseMidSet := by
  rw [replaceNeighbor] at mem
  split at mem
  · exact mem_of_mem_olsrCleanupMid mem
  · exact mem

theorem mem_replaceNeighbor (mem : queued ∈ st.mids.reverseMidSet) (ne : queued.2 ≠ aliasAddr) :
    queued ∈ (replaceNeighbor mainAdd aliasAddr st).mids.reverseMidSet := by
  rw [replaceNeighbor]
  split
  · rw [olsrCleanupMid]
    split
    · exact mem_filter.mpr ⟨mem, decide_eq_true ne⟩
    · exact mem
  · exact mem

theorem isMain_replaceNeighbor (kept : WellKept st.mids) :
    IsMain (replaceNeighbor mainAdd aliasAddr st).mids adr ↔
      IsMain st.mids adr ∧ (aliasAddr ∈ st.neighbors → adr ≠ aliasAddr) := by
  rw [replaceNeighbor]
  split
  next isNbr =>
    rw [kept.isMain_olsrCleanupMid]
    simp [isNbr]
  next notNbr => simp [notNbr]

private theorem mem_neighbors_replaceNeighbor (isNbr : adr ∈ st.neighbors)
    (ne : adr ≠ aliasAddr) : adr ∈ (replaceNeighbor mainAdd aliasAddr st).neighbors := by
  have remains : adr ∈ st.neighbors.erase aliasAddr := (mem_erase_of_ne ne).mpr isNbr
  rw [replaceNeighbor]
  split
  · rw [renameNeighbor]
    split
    · exact remains
    · exact mem_cons_of_mem _ remains
  · exact isNbr

theorem lookup_replaceNeighbor_eq_none (isNew : midLookupMainAddr st.mids aliasAddr = none) :
    midLookupMainAddr (replaceNeighbor mainAdd aliasAddr st).mids aliasAddr = none := by
  rw [midLookupMainAddr_eq_none_iff] at isNew ⊢
  intro registered
  obtain ⟨queued, mem, rfl⟩ := List.mem_map.mp registered
  exact isNew (mem_map_of_mem (mem_of_mem_replaceNeighbor mem))

theorem MayRegister.mainFree (may : MayRegister st mainAdd aliasAddr) (kept : WellKept st.mids)
    (queued : (mainAdd, mainAddr) ∈ st.mids.reverseMidSet) : mainAddr = mainAdd := by
  have found := kept.midLookupMainAddr_iff.mpr queued
  rcases may.1 with none | own
  · rw [found] at none
    cases none
  · rw [found] at own
    exact some.inj own

theorem MayRegister.aliasFree (may : MayRegister st mainAdd aliasAddr) (kept : WellKept st.mids) :
    aliasAddr = mainAdd ∨ ¬ IsMain (replaceNeighbor mainAdd aliasAddr st).mids aliasAddr := by
  rw [isMain_replaceNeighbor kept]
  rcases may.2 with same | notMain | isNbr
  · exact Or.inl same
  · exact Or.inr fun isMain => midLookupEntryBymain_eq_none_iff.mp notMain isMain.1
  · exact Or.inr fun isMain => isMain.2 isNbr rfl

variable {ctx : MidContext Addr}

theorem insertMidAlias_of_new (valid : ctx.olsrValidateAddress aliasAddr)
    (isNew : midLookupMainAddr st.mids aliasAddr = none) :
    (insertMidAlias ctx mainAdd aliasAddr st).mids =
      queueMidTuple (replaceNeighbor mainAdd aliasAddr st).mids mainAdd aliasAddr := by
  rw [insertMidAlias_eq, if_pos valid, insertMidTuple,
    if_neg (by simp [lookup_replaceNeighbor_eq_none isNew])]

/-- Registering keeps main addresses and aliases apart where it may be done. -/
theorem canonical_insertMidAlias (canonical : Canonical st.mids)
    (valid : ctx.olsrValidateAddress aliasAddr) (isNew : midLookupMainAddr st.mids aliasAddr = none)
    (may : MayRegister st mainAdd aliasAddr) :
    Canonical (insertMidAlias ctx mainAdd aliasAddr st).mids := by
  rw [insertMidAlias_of_new valid isNew]
  apply (canonical_replaceNeighbor canonical).queue
  · exact lookup_replaceNeighbor_eq_none isNew
  · intro mainAddr queued
    exact may.mainFree canonical.toWellKept (mem_of_mem_replaceNeighbor queued)
  · exact may.aliasFree canonical.toWellKept

private theorem canonical_insertMidAlias_of_registered (canonical : Canonical st.mids)
    (ne : mainAdd ≠ aliasAddr) (registered : midLookupMainAddr st.mids aliasAddr = some mainAdd) :
    Canonical (insertMidAlias ctx mainAdd aliasAddr st).mids := by
  have replaced : Canonical (replaceNeighbor mainAdd aliasAddr st).mids :=
    canonical_replaceNeighbor canonical
  rw [insertMidAlias_eq]
  split
  · rw [insertMidTuple, if_pos]
    · exact replaced
    · rw [replaced.midLookupMainAddr_iff]
      exact mem_replaceNeighbor (canonical.midLookupMainAddr_iff.mp registered) ne
  · exact canonical

/-! One alias of the list after another. -/

/-- The aliases of a message that are still to be registered may be. -/
def RestMayRegister (ctx : MidContext Addr) (origaddr : Addr) (rest : List Addr)
    (st : MidState Addr) : Prop :=
  ∀ aliasAddr ∈ rest, ¬ ctx.isOwnInterface aliasAddr → ctx.olsrValidateAddress aliasAddr →
      midLookupMainAddr st.mids aliasAddr = none → MayRegister st origaddr aliasAddr

private theorem neighbors_insertMidAlias_of_new (valid : ctx.olsrValidateAddress aliasAddr)
    (isNew : midLookupMainAddr st.mids aliasAddr = none) :
    (insertMidAlias ctx mainAdd aliasAddr st).neighbors = dropBogusNeighbors mainAdd
        (replaceNeighbor mainAdd aliasAddr st).neighbors
        ((midLookupAliases (insertMidAlias ctx mainAdd aliasAddr st).mids mainAdd).map
          MidAddress.aliasAddr) := by
  rw [insertMidAlias_of_new valid isNew, insertMidAlias_eq, if_pos valid, insertMidTuple,
    if_neg (by simp [lookup_replaceNeighbor_eq_none isNew])]

section

variable (canonical : Canonical st.mids) (valid : ctx.olsrValidateAddress aliasAddr)
  (isNew : midLookupMainAddr st.mids aliasAddr = none) (may : MayRegister st mainAdd aliasAddr)
include canonical valid isNew may

/-- A main address that is not registered as an alias stays in the neighbour
table while another address is registered. -/
theorem mem_neighbors_insertMidAlias {other : Addr} (isNbr : other ∈ st.neighbors)
    (ne : other ≠ aliasAddr)
    (otherNew : midLookupMainAddr (insertMidAlias ctx mainAdd aliasAddr st).mids other = none) :
    other ∈ (insertMidAlias ctx mainAdd aliasAddr st).neighbors := by
  have after := canonical_insertMidAlias canonical valid isNew may
  rw [neighbors_insertMidAlias_of_new valid isNew]
  apply mem_dropBogusNeighbors
  · exact mem_neighbors_replaceNeighbor isNbr ne
  · rw [after.mem_midLookupAliases_iff]
    intro queued
    exact midLookupMainAddr_eq_none_iff.mp otherNew (mem_map_of_mem queued)

/-- A main address that the message lists too stays in the neighbour table
until its own turn, or it is its own alias and has none. -/
theorem isNeighbor_insertMidAlias_of_isMain {other : Addr}
    (otherMay : midLookupMainAddr st.mids other = none → MayRegister st mainAdd other)
    (otherNew : midLookupMainAddr (insertMidAlias ctx mainAdd aliasAddr st).mids other = none)
    (notMainAdd : other ≠ mainAdd)
    (isMain : IsMain (replaceNeighbor mainAdd aliasAddr st).mids other) :
    other ∈ (insertMidAlias ctx mainAdd aliasAddr st).neighbors := by
  rw [isMain_replaceNeighbor canonical.toWellKept] at isMain
  cases found : midLookupMainAddr st.mids other with
  | none =>
    have isNbr : other ∈ st.neighbors := by
      rcases (otherMay found).2 with same | notMain | isNbr
      · exact absurd same notMainAdd
      · exact absurd isMain.1 (midLookupEntryBymain_eq_none_iff.mp notMain)
      · exact isNbr
    apply mem_neighbors_insertMidAlias canonical valid isNew may isNbr
    · intro same
      exact isMain.2 (same ▸ isNbr) same
    · exact otherNew
  | some mainAddr =>
    have queued := canonical.midLookupMainAddr_iff.mp found
    obtain rfl := canonical.separate queued isMain.1
    have ne : mainAddr ≠ aliasAddr := by
      rintro rfl
      rw [found] at isNew
      cases isNew
    have stays : (mainAddr, mainAddr) ∈ (replaceNeighbor mainAdd aliasAddr st).mids.reverseMidSet :=
      mem_replaceNeighbor queued ne
    rw [insertMidAlias_of_new valid isNew] at otherNew
    exact absurd (mem_map_of_mem (mem_cons_of_mem _ stays))
        (midLookupMainAddr_eq_none_iff.mp otherNew)

private theorem mayRegister_insertMidAlias {other : Addr}
    (otherMay : midLookupMainAddr st.mids other = none → MayRegister st mainAdd other)
    (otherNew : midLookupMainAddr (insertMidAlias ctx mainAdd aliasAddr st).mids other = none) :
    MayRegister (insertMidAlias ctx mainAdd aliasAddr st) mainAdd other := by
  have after := canonical_insertMidAlias canonical valid isNew may
  have mids : (insertMidAlias ctx mainAdd aliasAddr st).mids =
        queueMidTuple (replaceNeighbor mainAdd aliasAddr st).mids mainAdd aliasAddr :=
    insertMidAlias_of_new valid isNew
  constructor
  · cases found : midLookupMainAddr (insertMidAlias ctx mainAdd aliasAddr st).mids mainAdd with
    | none => exact Or.inl rfl
    | some mainAddr =>
      have queued := after.midLookupMainAddr_iff.mp found
      rw [mids] at queued
      rcases mem_cons.mp queued with newest | old
      · rw [(Prod.mk.inj newest).2]
        exact Or.inr rfl
      · rw [may.mainFree canonical.toWellKept (mem_of_mem_replaceNeighbor old)]
        exact Or.inr rfl
  · by_cases same : other = mainAdd
    · exact Or.inl same
    · by_cases isMain : IsMain (replaceNeighbor mainAdd aliasAddr st).mids other
      · exact Or.inr <| Or.inr <| isNeighbor_insertMidAlias_of_isMain canonical valid isNew may
              otherMay otherNew same isMain
      · refine Or.inr (Or.inl ?_)
        rw [midLookupEntryBymain_eq_none_iff, mids,
          (canonical_replaceNeighbor canonical).isMain_queueMidTuple]
        exact not_or.mpr ⟨isMain, same⟩

end

/-- One round of the loop keeps what the rounds before established. -/
theorem inputMidAlias_step {origaddr : Addr} {rest : List Addr} (canonical : Canonical st.mids)
    (may : RestMayRegister ctx origaddr (aliasAddr :: rest) st) :
    Canonical (inputMidAlias ctx origaddr st aliasAddr).mids ∧
      RestMayRegister ctx origaddr rest (inputMidAlias ctx origaddr st aliasAddr) := by
  have restMay : RestMayRegister ctx origaddr rest st :=
    fun other mem => may other (mem_cons_of_mem _ mem)
  rw [inputMidAlias]
  split
  · exact ⟨canonical, restMay⟩
  next notOwn =>
    split
    next isNew =>
      by_cases valid : ctx.olsrValidateAddress aliasAddr
      · have mayThis := may aliasAddr mem_cons_self notOwn valid isNew
        refine ⟨canonical_insertMidAlias canonical valid isNew mayThis, ?_⟩
        intro other mem otherNotOwn otherValid otherNew
        exact mayRegister_insertMidAlias canonical valid isNew mayThis
            (restMay other mem otherNotOwn otherValid) otherNew
      · rw [insertMidAlias_eq, if_neg valid]
        exact ⟨canonical, restMay⟩
    · exact ⟨canonical, restMay⟩

private theorem canonical_foldl_inputMidAlias {origaddr : Addr} {aliases : List Addr}
    (canonical : Canonical st.mids) (may : RestMayRegister ctx origaddr aliases st) :
    Canonical (aliases.foldl (inputMidAlias ctx origaddr) st).mids := by
  induction aliases generalizing st with
  | nil => exact canonical
  | cons aliasAddr rest ih =>
    have next := inputMidAlias_step canonical may
    exact ih next.1 next.2

end Registering

section Runs

variable [DecidableEq Addr]

/-- What changes the set: messages, an entry whose time is over or that an
empty topology message cleans up, and what happens to the neighbour table
meanwhile. -/
inductive MidEvent (Addr : Type u) where
  | inputMid
      (ctx : MidContext Addr) (symmetric : Bool)
      (msg : MidAnnouncement Addr)
  | helloTap (ctx : MidContext Addr) (sourceAddr fromAddr : Addr)
  | expireMidEntry (mainAddr : Addr)
  | neighborTable (neighbors : List Addr)

def midStep (st : MidState Addr) : MidEvent Addr → Option (MidState Addr)
  | .inputMid ctx symmetric msg => some (olsrInputMid ctx symmetric msg st)
  | .helloTap ctx sourceAddr fromAddr => some (helloTapAlias ctx sourceAddr fromAddr st)
  | .expireMidEntry mainAddr => some { st with mids := olsrCleanupMid st.mids mainAddr }
  | .neighborTable neighbors => some { st with neighbors := neighbors }

def RegistersCleanly (st : MidState Addr) : MidEvent Addr → Prop
  | .inputMid ctx symmetric msg =>
    ctx.olsrValidateAddress msg.midOrigaddr → symmetric →
      RestMayRegister ctx msg.midOrigaddr msg.midAddr st
  | .helloTap ctx sourceAddr fromAddr =>
    ctx.olsrValidateAddress fromAddr → sourceAddr ≠ fromAddr →
      midLookupMainAddr st.mids fromAddr = none → MayRegister st sourceAddr fromAddr
  | .expireMidEntry _ => True
  | .neighborTable _ => True

private theorem canonical_olsrInputMid
    {st : MidState Addr} {ctx : MidContext Addr} {symmetric : Bool} {msg : MidAnnouncement Addr}
    (canonical : Canonical st.mids) (may : ctx.olsrValidateAddress msg.midOrigaddr →
        symmetric → RestMayRegister ctx msg.midOrigaddr msg.midAddr st) :
    Canonical (olsrInputMid ctx symmetric msg st).mids := by
  rw [olsrInputMid]
  split
  · exact canonical
  next processed =>
    rw [not_or, not_not, not_not] at processed
    exact (canonical_foldl_inputMidAlias canonical
        (may processed.1 processed.2)).prune ctx.nowTimes msg

private theorem canonical_helloTapAlias {st : MidState Addr}
    {ctx : MidContext Addr} {sourceAddr fromAddr : Addr} (canonical : Canonical st.mids)
    (may : ctx.olsrValidateAddress fromAddr → sourceAddr ≠ fromAddr →
        midLookupMainAddr st.mids fromAddr = none → MayRegister st sourceAddr fromAddr) :
    Canonical (helloTapAlias ctx sourceAddr fromAddr st).mids := by
  rw [helloTapAlias]
  split
  next registers =>
    obtain ⟨ne, valid, isNew | registered⟩ := registers
    · exact canonical_insertMidAlias canonical valid isNew (may valid ne isNew)
    · exact canonical_insertMidAlias_of_registered canonical ne registered
  · exact canonical

private theorem canonical_midStep {st next : MidState Addr}
    {event : MidEvent Addr} (canonical : Canonical st.mids) (cleanly : RegistersCleanly st event)
    (taken : midStep st event = some next) : Canonical next.mids := by
  cases event with
  | inputMid ctx symmetric msg =>
    cases taken
    exact canonical_olsrInputMid canonical cleanly
  | helloTap ctx sourceAddr fromAddr =>
    cases taken
    exact canonical_helloTapAlias canonical cleanly
  | expireMidEntry mainAddr =>
    cases taken
    exact canonical.cleanup mainAddr
  | neighborTable neighbors =>
    cases taken
    exact canonical

/-- Main addresses are fixed under the lookup: none of them is an alias of
another one, so that a second lookup leads nowhere else. -/
def MainsAreFixed (set : MidSet Addr) : Prop :=
  (∀ adr mainAddr, (midLookupEntryBymain set adr).isSome →
        midLookupMainAddr set adr = some mainAddr → mainAddr = adr) ∧
    ∀ adr mainAddr third, midLookupMainAddr set adr = some mainAddr →
        midLookupMainAddr set mainAddr = some third → third = mainAddr

private theorem Canonical.mainsAreFixed {set : MidSet Addr} (canonical : Canonical set) :
    MainsAreFixed set := by
  constructor
  · intro adr mainAddr isMain found
    apply canonical.separate (canonical.midLookupMainAddr_iff.mp found)
    by_contra notMain
    rw [midLookupEntryBymain_eq_none_iff.mpr notMain] at isMain
    cases isMain
  · intro adr mainAddr third first second
    exact canonical.separate (canonical.midLookupMainAddr_iff.mp second)
        (canonical.isMain (canonical.midLookupMainAddr_iff.mp first))

/-- In a run that registers cleanly, a lookup's result is final. -/
theorem mainsAreFixed_of_registersCleanly
    (neighbors : List Addr) (events : List (MidEvent Addr)) (final : MidState Addr)
    (cleanly : RunMeets midStep RegistersCleanly ⟨MidSet.init Addr, neighbors⟩ events)
    (finished : runEvents midStep ⟨MidSet.init Addr, neighbors⟩ events = some final) :
    MainsAreFixed final.mids := by
  have canonical : (fun st => Canonical st.mids) final :=
    runEvents_invariant_of_meets canonical_midStep Canonical.init cleanly finished
  exact canonical.mainsAreFixed

def openContext : MidContext Nat := ⟨0, fun _ => true, fun _ => false⟩

/-- Two nodes announce an interface each. -/
theorem mainsAreFixed_of_registersCleanly_two_nodes :
    MainsAreFixed (⟨[⟨3, [⟨4, 9⟩]⟩, ⟨1, [⟨2, 9⟩]⟩], [(4, 3), (2, 1)]⟩ : MidSet Nat) := by
  refine mainsAreFixed_of_registersCleanly []
      [.inputMid openContext true ⟨9, 1, [2]⟩, .inputMid openContext true ⟨9, 3, [4]⟩]
      ⟨⟨[⟨3, [⟨4, 9⟩]⟩, ⟨1, [⟨2, 9⟩]⟩], [(4, 3), (2, 1)]⟩, []⟩ ?_ (by decide)
  refine ⟨fun _ _ => ?_, fun next taken => ?_⟩
  · intro aliasAddr listed _ _ _
    exact ⟨Or.inl rfl, Or.inr (Or.inl rfl)⟩
  · cases taken
    refine ⟨fun _ _ => ?_, fun _ _ => trivial⟩
    intro aliasAddr listed _ _ _
    rw [mem_singleton.mp listed]
    exact ⟨Or.inl (by decide), Or.inr (Or.inl (by decide))⟩

/-- Node 1 announces interface 2, then node 2 announces interface 3: what 3
leads to is the alias of a third address. -/
theorem midLookupMainAddr_third_address : ∃ final : MidState Nat,
      runEvents midStep ⟨MidSet.init Nat, []⟩
          [.inputMid openContext true ⟨9, 1, [2]⟩,
            .inputMid openContext true ⟨9, 2, [3]⟩] = some final ∧
        (midLookupEntryBymain final.mids 2).isSome ∧
        midLookupMainAddr final.mids 3 = some 2 ∧
        midLookupMainAddr final.mids 2 = some 1 ∧
        ¬ MainsAreFixed final.mids := by
  refine ⟨_, rfl, by decide, by decide, by decide, fun fixed => ?_⟩
  exact absurd (fixed.2 3 2 1 (by decide) (by decide)) (by decide)

end Runs

end QosOlsr
