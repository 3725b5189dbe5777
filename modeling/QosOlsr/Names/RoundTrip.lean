import QosOlsr.Names.Messages

/-!
# Name announcements, encoded and decoded

What a host announces is stored by a receiver exactly as it was announced under
four conditions: the message fits the buffer it is encoded in, no name has a
backslash or an apostrophe, no host name or service is the beginning of one
announced before it, and the last name of the message is padded.
-/

namespace QosOlsr.Names

open Library Function List Option

variable {cfg : NameConfig} {mem : Memory} {ver : IpVersion}
  {originator : IpAddr ver} {vtime : UInt32} {db : NameDb ver}

private theorem or_three (value : Nat) : value ||| 3 = 4 * (value / 4) + 3 := by
  have low : (value ||| 3) % 2 = 1 := by
    rw [Nat.or_mod_two_eq_one]
    exact .inr rfl
  have half : (value ||| 3) / 2 = value / 2 ||| 1 := Nat.or_div_two
  have lowHalf : (value / 2 ||| 1) % 2 = 1 := by
    rw [Nat.or_mod_two_eq_one]
    exact .inr rfl
  have quarter : (value / 2 ||| 1) / 2 = value / 2 / 2 ||| 0 := Nat.or_div_two
  rw [Nat.or_zero] at quarter
  omega

private theorem paddedLength_eq (len : Nat) : paddedLength len = len + padding len := by
  unfold paddedLength padding
  split
  next zero => simp [zero]
  next nonzero =>
    rw [or_three]
    omega

structure EntryOk (cfg : NameConfig) (type : NameType) (entry : NameEntry) : Prop where
  type_eq : entry.type = type
  len_eq : entry.len = entry.name.length
  nonempty : 1 ≤ entry.len
  short : entry.len ≤ maxName
  noZero : 0 ∉ entry.name
  wellformed : isWellformed cfg type entry.name = true

section Records

variable {type : NameType} {entry : NameEntry} {limit pos : Nat}

theorem createPacket_length (lenEq : entry.len = entry.name.length) :
    (createPacket entry).length = sizeofName + (entry.len + padding entry.len) := by
  simp only [createPacket, u16Bytes, length_append, length_cons,
    length_nil, entry.ip.length_eq, length_take, length_replicate, sizeofName]
  omega

theorem carries_createPacket
    (ok : EntryOk cfg type entry) (carried : Carries mem pos (createPacket entry)) :
    readU16 mem pos = entry.type.code ∧ readU16 mem (pos + 2) = entry.len ∧
      readBytes mem (pos + 4) 16 = entry.ip.bytes ∧ Carries mem (pos + sizeofName) entry.name ∧
      (entry.len % 4 ≠ 0 → mem (pos + sizeofName + entry.len) = 0) := by
  have codeSmall := entry.type.code_lt
  have lenSmall := ok.short
  have whole : entry.name.take entry.len = entry.name := by rw [ok.len_eq, take_length]
  simp only [createPacket, carries_append, whole, length_append,
    u16Bytes, length_cons, length_nil, entry.ip.length_eq] at carried
  obtain ⟨⟨⟨⟨isType, isLen⟩, isIp⟩, isName⟩, isPadding⟩ := carried
  refine ⟨?_, ?_, ?_, isName, ?_⟩
  · exact Carries.readU16_eq isType (by omega)
  · exact Carries.readU16_eq isLen (by unfold maxName at lenSmall; omega)
  · have read := Carries.readBytes_eq isIp
    rwa [entry.ip.length_eq] at read
  · intro padded
    have some : ∃ more, padding entry.len = more + 1 :=
      ⟨padding entry.len - 1, by unfold padding; omega⟩
    obtain ⟨more, isMore⟩ := some
    rw [isMore, replicate_succ] at isPadding
    have zero := isPadding.1
    rwa [← ok.len_eq, ← Nat.add_assoc] at zero

def received (entry : NameEntry) : Option NameEntry :=
  if isQuoted entry.name then none else some entry

private theorem decapRecord_eq (ok : EntryOk cfg type entry)
    (carried : Carries mem pos (createPacket entry)) (zero : mem (pos + sizeofName + entry.len) = 0)
    (below : pos + sizeofName + entry.len < limit) :
    decapRecord cfg mem limit pos entry.type = some (received entry) := by
  obtain ⟨-, isLen, isIp, isName, -⟩ := carries_createPacket ok carried
  have scanned : isScanned cfg entry.type entry.len = true := by simp [isScanned, ok.short]
  have found : cString mem limit (pos + sizeofName) = some entry.name := by
    apply cString_of_carries isName ok.noZero
    · rwa [← ok.len_eq]
    · rwa [← ok.len_eq]
  have lenRead : readU16Below mem limit (pos + 2) = some entry.len := by
    rw [readU16Below_eq (by unfold sizeofName at below; omega), isLen]
  have isWell : isWellformed cfg entry.type entry.name = true := by
    rw [ok.type_eq]
    exact ok.wellformed
  have notLong : ¬ maxName < entry.len := Nat.not_lt.mpr ok.short
  simp only [decapRecord, lenRead, scanName, scanned, found, isIp, isWell,
    bind_eq_bind, bind_some, if_true, Bool.not_true,
    Bool.false_eq_true, if_false, notLong, decide_false, Bool.false_or,
    ← ok.len_eq, ne_eq, not_true_eq_false, received]
  split <;> rfl

private theorem decapRecord_unterminated
    (ok : EntryOk cfg type entry) (carried : Carries mem pos (createPacket entry))
    (nonzero : mem (pos + sizeofName + entry.len) ≠ 0)
    (zero : mem (pos + sizeofName + entry.len + 1) = 0)
    (below : pos + sizeofName + entry.len + 1 < limit) :
    decapRecord cfg mem limit pos entry.type = some none := by
  obtain ⟨-, isLen, -, -, -⟩ := carries_createPacket ok carried
  have scanned : isScanned cfg entry.type entry.len = true := by simp [isScanned, ok.short]
  have lenRead : readU16Below mem limit (pos + 2) = some entry.len := by
    rw [readU16Below_eq (by unfold sizeofName at below; omega), isLen]
  have found : (cString mem limit (pos + sizeofName)).isSome :=
    cString_isSome_iff.mpr ⟨_, by omega, below, zero⟩
  obtain ⟨name, isName⟩ := isSome_iff_exists.mp found
  have longer : name.length ≠ entry.len := by
    intro same
    have terminated := (cString_terminated isName).1
    rw [same] at terminated
    exact nonzero terminated
  simp [decapRecord, lenRead, scanName, scanned, isName, longer]

end Records

/-! ## The loop over the records -/

/-- The string at the end of every record has its terminator below the limit. -/
def Terminated (mem : Memory) (limit : Nat) : Nat → List NameEntry → Prop
  | _, [] => True
  | pos, entry :: rest =>
    mem (pos + sizeofName + entry.len) = 0 ∧ pos + sizeofName + entry.len < limit ∧
      Terminated mem limit (pos + (createPacket entry).length) rest

section Loop

variable {limit endPos : Nat} {pos : Nat} {entry : NameEntry}

/-- The next record terminates a name without padding. -/
theorem first_createPacket (carried : Carries mem pos (createPacket entry)) : mem pos = 0 := by
  have small := entry.type.code_lt
  simp only [createPacket, u16Bytes, cons_append, Carries] at carried
  rw [carried.1, Nat.div_eq_of_lt small]
  rfl

variable {entries : List NameEntry}

theorem terminated_of_carries (ok : ∀ entry ∈ entries, EntryOk cfg entry.type entry)
    (carried : Carries mem pos (entries.flatMap createPacket))
    (below : pos + (entries.flatMap createPacket).length ≤ limit)
    (ending : ∀ last ∈ entries.getLast?,
        last.len % 4 ≠ 0 ∨ mem (pos + (entries.flatMap createPacket).length) = 0 ∧
        pos + (entries.flatMap createPacket).length < limit) :
    Terminated mem limit pos entries := by
  induction entries generalizing pos with
  | nil => trivial
  | cons entry rest ih =>
    have entryOk := ok entry mem_cons_self
    have restOk : ∀ other ∈ rest, EntryOk cfg other.type other :=
      fun other member => ok other (mem_cons_of_mem entry member)
    rw [flatMap_cons, carries_append] at carried
    rw [flatMap_cons, length_append, ← Nat.add_assoc] at below ending
    have length := createPacket_length entryOk.len_eq
    obtain ⟨-, -, -, -, padded⟩ := carries_createPacket entryOk carried.1
    have later : Terminated mem limit (pos + (createPacket entry).length) rest := by
      apply ih restOk carried.2 below
      intro last isLast
      apply ending last
      rw [getLast?_cons, mem_def.mp isLast]
      rfl
    refine ⟨?_, ?_, later⟩
    · by_cases aligned : entry.len % 4 = 0
      · have unpadded : padding entry.len = 0 := by
          unfold padding
          omega
        rw [unpadded, Nat.add_zero] at length
        rw [length, ← Nat.add_assoc] at carried ending
        cases rest with
        | nil =>
          rcases ending entry rfl with isPadded | ⟨zero, -⟩
          · exact absurd aligned isPadded
          · simpa using zero
        | cons next others =>
          rw [flatMap_cons, carries_append] at carried
          exact first_createPacket carried.2.1
      · exact padded aligned
    · by_cases aligned : entry.len % 4 = 0
      · cases rest with
        | nil =>
          rcases ending entry rfl with isPadded | ⟨-, inside⟩
          · exact absurd aligned isPadded
          · simp only [flatMap_nil, length_nil] at inside
            omega
        | cons next others =>
          have nextLength := createPacket_length (restOk next mem_cons_self).len_eq
          rw [flatMap_cons, length_append, nextLength] at below
          unfold sizeofName at *
          omega
      · have isPadded : 0 < padding entry.len := by
          unfold padding
          omega
        omega

def fileAll (originator : IpAddr ver) (vtime : UInt32) : List NameEntry → NameDb ver → NameDb ver
  | [], db => db
  | entry :: rest, db =>
    fileAll originator vtime rest
      (update db entry.type
        (insertNewNameInList originator vtime (received entry) (db entry.type)))

theorem fileRecord_eq {type : NameType} {accepted : Option NameEntry}
    (ok : EntryOk cfg type entry) (carried : Carries mem pos (createPacket entry))
    (below : pos + 2 ≤ limit) (decoded : decapRecord cfg mem limit pos entry.type = some accepted) :
    fileRecord cfg mem limit originator vtime pos db = some
        (update db entry.type (insertNewNameInList originator vtime accepted (db entry.type))) := by
  obtain ⟨isCode, -⟩ := carries_createPacket ok carried
  simp [fileRecord, readU16Below_eq below, isCode, decoded]

theorem fileRecords_eq (count : Nat) (ok : ∀ entry ∈ entries, EntryOk cfg entry.type entry)
    (carried : Carries mem pos (entries.flatMap createPacket))
    (terminated : Terminated mem limit pos entries)
    (inside : pos + (entries.flatMap createPacket).length ≤ endPos) :
    fileRecords cfg mem limit endPos originator vtime (entries.length + count) pos db =
      fileRecords cfg mem limit endPos originator vtime count
        (pos + (entries.flatMap createPacket).length)
        (fileAll originator vtime entries db) := by
  induction entries generalizing pos db with
  | nil => simp [fileAll]
  | cons entry rest ih =>
    have entryOk := ok entry mem_cons_self
    obtain ⟨zero, below, restTerminated⟩ := terminated
    rw [flatMap_cons, carries_append] at carried
    rw [flatMap_cons, length_append, ← Nat.add_assoc] at inside ⊢
    have length := createPacket_length entryOk.len_eq
    have decoded := decapRecord_eq entryOk carried.1 zero below
    obtain ⟨-, isLen, -⟩ := carries_createPacket entryOk carried.1
    unfold sizeofName at length below
    have before : pos < endPos := by omega
    -- the tables after this record
    generalize filedDb : update db entry.type
        (insertNewNameInList originator vtime (received entry) (db entry.type)) = db'
    have filed : fileRecord cfg mem limit originator vtime pos db = some db' :=
      filedDb ▸ fileRecord_eq entryOk carried.1 (by omega) decoded
    have filedAll :
        fileAll originator vtime (entry :: rest) db = fileAll originator vtime rest db' :=
      filedDb ▸ rfl
    have moved : pos + sizeofName + paddedLength entry.len = pos + (createPacket entry).length := by
      rw [paddedLength_eq, length]
      unfold sizeofName
      omega
    rw [filedAll, length_cons, Nat.add_right_comm, fileRecords,
      if_pos before, filed, readU16Below_eq (by omega), isLen]
    simp only [bind_eq_bind, bind_some]
    rw [moved]
    exact ih (fun other member => ok other (mem_cons_of_mem entry member))
        carried.2 restTerminated inside

end Loop

/-- The saved entry makes `decap_namemsg` skip the entry. -/
def Repeats (ver : IpVersion) (entry saved : NameEntry) : Prop :=
  (entry.type = .host ∨ entry.type = .service) ∧
      saved.name.take entry.len = entry.name.take entry.len ∨
    entry.type = .forwarder ∧ ipequal ver saved.ip entry.ip = true

instance Repeats.decidable (ver : IpVersion) (entry saved : NameEntry) :
    Decidable (Repeats ver entry saved) :=
  instDecidableOr

section Saving

/-- Apart from positions, an entry is skipped or put in front. -/
theorem saveEntry_eq {entry : NameEntry} (notLatlon : entry.type ≠ .latlon)
    (names : List NameEntry) :
    (saveEntry ver entry names).1 =
      if ∃ saved ∈ names, Repeats ver entry saved then
        names
      else
        entry :: names := by
  have found : (savedBefore ver entry names).map Prod.fst =
        if ∃ saved ∈ names, Repeats ver entry saved then
          some names
        else
          none := by
    induction names with
    | nil => simp [savedBefore]
    | cons saved rest ih =>
      rw [savedBefore]
      split
      next same =>
        rw [if_pos ⟨saved, mem_cons_self, .inl same⟩]
        rfl
      next ne =>
        split
        next same =>
          rw [if_pos ⟨saved, mem_cons_self, .inr same⟩]
          rfl
        next differsToo =>
          have notThis : ¬ Repeats ver entry saved := by
            rintro (same | same)
            · exact ne same
            · exact differsToo same
          rw [Option.map_map]
          have shifted : (savedBefore ver entry rest).map
                  (Prod.fst ∘ fun found => (saved :: found.1, found.2)) =
                ((savedBefore ver entry rest).map Prod.fst).map (saved :: ·) := by
            rw [Option.map_map]
            rfl
          rw [shifted, ih]
          simp only [mem_cons, exists_eq_or_imp, notThis, false_or]
          split <;> rfl
  rw [saveEntry]
  split at found
  next repeated =>
    obtain ⟨result, isResult, isNames⟩ := map_eq_some_iff.mp found
    rw [isResult, if_pos repeated]
    exact isNames
  next new => rw [map_eq_none_iff.mp found, if_neg new]

def saveAll (ver : IpVersion) (entries : List NameEntry)
    (names : List NameEntry) : List NameEntry :=
  entries.foldl
    (fun names entry =>
      (decapNamemsg ver (received entry) names).1) names

theorem saveAll_append_singleton (entries : List NameEntry)
    (last : NameEntry) (names : List NameEntry) : saveAll ver (entries ++ [last]) names =
      (decapNamemsg ver (received last) (saveAll ver entries names)).1 := by
  simp [saveAll]

variable {entries : List NameEntry} (notLatlon : ∀ entry ∈ entries, entry.type ≠ .latlon)
include notLatlon

/-- What is saved is a part of what was announced, the last first. -/
theorem saveAll_sublist : (saveAll ver entries []).Sublist entries.reverse ∧
    (∀ entry ∈ saveAll ver entries [], isQuoted entry.name = false) ∧
    (saveAll ver entries []).Pairwise fun newer older => ¬ Repeats ver newer older := by
  induction entries using List.reverseRecOn with
  | nil => exact ⟨List.Sublist.refl [], by simp [saveAll], List.Pairwise.nil⟩
  | append_singleton entries last ih =>
    obtain ⟨part, unquoted, distinct⟩ := ih fun entry member =>
        notLatlon entry (mem_append_left [last] member)
    rw [saveAll_append_singleton, reverse_append, reverse_singleton, singleton_append]
    by_cases quoted : isQuoted last.name = true
    · rw [received, if_pos quoted]
      exact ⟨part.cons last, unquoted, distinct⟩
    · rw [received, if_neg quoted, decapNamemsg, saveEntry_eq (notLatlon last (by simp))]
      split
      · exact ⟨part.cons last, unquoted, distinct⟩
      next new =>
        refine ⟨part.cons_cons last, ?_, ?_⟩
        · intro entry member
          rcases mem_cons.mp member with rfl | old
          · simpa using quoted
          · exact unquoted entry old
        · refine pairwise_cons.mpr ⟨?_, distinct⟩
          intro saved member repeats
          exact new ⟨saved, member, repeats⟩

private theorem saveAll_eq_reverse (unquoted : ∀ entry ∈ entries, isQuoted entry.name = false)
    (distinct : entries.Pairwise fun earlier later => ¬ Repeats ver later earlier) :
    saveAll ver entries [] = entries.reverse := by
  induction entries using List.reverseRecOn with
  | nil => rfl
  | append_singleton entries last ih =>
    rw [pairwise_append] at distinct
    have before := ih (fun entry member => notLatlon entry (mem_append_left [last] member))
        (fun entry member => unquoted entry (mem_append_left [last] member))
        distinct.1
    have lastUnquoted : ¬ isQuoted last.name = true := by simp [unquoted last (by simp)]
    have new : ¬ ∃ saved ∈ entries.reverse, Repeats ver last saved := by
      rintro ⟨saved, member, repeats⟩
      exact distinct.2.2 saved (mem_reverse.mp member) last mem_cons_self repeats
    rw [saveAll_append_singleton, before, received, if_neg lastUnquoted,
      decapNamemsg, saveEntry_eq (notLatlon last (by simp)), if_neg new]
    simp

/-- All entries are saved exactly if none is quoted and none repeats an earlier
one. -/
theorem saveAll_perm_iff :
    (saveAll ver entries []).Perm entries ↔ (∀ entry ∈ entries, isQuoted entry.name = false) ∧
      entries.Pairwise fun earlier later => ¬ Repeats ver later earlier := by
  constructor
  · intro same
    obtain ⟨part, unquoted, distinct⟩ := saveAll_sublist notLatlon
    have whole : saveAll ver entries [] = entries.reverse :=
      part.eq_of_length (by rw [same.length_eq, length_reverse])
    refine ⟨fun entry member => unquoted entry (same.mem_iff.mpr member), ?_⟩
    rwa [whole, pairwise_reverse] at distinct
  · rintro ⟨unquoted, distinct⟩
    rw [saveAll_eq_reverse notLatlon unquoted distinct]
    exact entries.reverse_perm

end Saving

section Tables

variable {accepted : Option NameEntry} {table : NameTable ver}

def namesOf (table : NameTable ver) (originator : IpAddr ver) : List NameEntry :=
  (table.entries.filter fun entry =>
    entry.originator = originator).flatMap DbEntry.names

def AtMostOne (table : NameTable ver) (originator : IpAddr ver) : Prop :=
  (table.entries.filter fun entry =>
    entry.originator = originator).length ≤ 1

theorem insertNewNameInList_spec (single : AtMostOne table originator) :
    AtMostOne (insertNewNameInList originator vtime accepted table) originator ∧
      namesOf (insertNewNameInList originator vtime accepted table) originator =
      (decapNamemsg ver accepted (namesOf table originator)).1 := by
  unfold insertNewNameInList AtMostOne namesOf at *
  split
  next present =>
    have keeps :
        (fun entry : DbEntry ver =>
          decide ((if entry.originator = originator then
            { entry with
              names := (decapNamemsg ver accepted entry.names).1
              dbTimer := (vtime, namesvcDbJitter) }
          else
            entry).originator = originator)) =
          fun entry => decide (entry.originator = originator) := by
      funext entry
      split <;> rfl
    simp only [List.filter_map, Function.comp_def, keeps, List.length_map]
    refine ⟨single, ?_⟩
    obtain ⟨entry, member, isOrig⟩ := List.any_eq_true.mp present
    have inFilter : entry ∈ table.entries.filter fun entry =>
          entry.originator = originator :=
      mem_filter.mpr ⟨member, isOrig⟩
    obtain ⟨only, isOnly⟩ := length_eq_one_iff.mp (le_antisymm single (length_pos_of_mem inFilter))
    have onlyOriginator : only.originator = originator := by
      have onlyIn := isOnly ▸ mem_cons_self
      simpa using (mem_filter.mp onlyIn).2
    rw [isOnly]
    simp [onlyOriginator]
  next absent =>
    simp only [List.any_eq_true, decide_eq_true_eq, not_exists, not_and] at absent
    have none : (table.entries.filter fun entry => entry.originator = originator) = [] := by
      simpa [filter_eq_nil_iff] using absent
    simp [filter_append, none]

theorem fileAll_spec {entries : List NameEntry}
    (single : ∀ type, AtMostOne (db type) originator) (type : NameType) :
    AtMostOne (fileAll originator vtime entries db type) originator ∧
      namesOf (fileAll originator vtime entries db type) originator =
        saveAll ver (entries.filter fun entry => entry.type = type)
          (namesOf (db type) originator) := by
  induction entries generalizing db with
  | nil => exact ⟨single type, rfl⟩
  | cons entry rest ih =>
    have inserted : AtMostOne
            (insertNewNameInList originator vtime (received entry) (db entry.type)) originator ∧
          namesOf
              (insertNewNameInList originator vtime (received entry) (db entry.type)) originator =
            (decapNamemsg ver (received entry) (namesOf (db entry.type) originator)).1 :=
      insertNewNameInList_spec (single entry.type)
    have stillSingle : ∀ other, AtMostOne
          (update db entry.type
            (insertNewNameInList originator vtime (received entry)
              (db entry.type)) other) originator := by
      intro other
      by_cases same : other = entry.type
      · subst same
        rw [update_self]
        exact inserted.1
      · rw [update_of_ne same]
        exact single other
    obtain ⟨singleLater, namesLater⟩ := ih stillSingle
    refine ⟨singleLater, ?_⟩
    rw [fileAll, namesLater, filter_cons]
    by_cases same : entry.type = type
    · subst same
      rw [update_self, inserted.2, if_pos (by simp)]
      rfl
    · rw [update_of_ne (Ne.symm same), if_neg (by simpa using same)]

end Tables

structure AnnouncementOk (cfg : NameConfig) (ver : IpVersion) (own : Announcement) : Prop where
  names : ∀ entry ∈ own.names, EntryOk cfg .host entry
  forwarders : ∀ entry ∈ own.forwarders, EntryOk cfg .forwarder entry
  services : ∀ entry ∈ own.services, EntryOk cfg .service entry
  macs : ∀ entry ∈ own.macs, EntryOk cfg .macaddr entry
  distinct : (own.entries.map fun entry => (entry.type, entry.name)).Nodup
  forwarderIps : own.forwarders.Pairwise fun earlier later =>
      ipequal ver earlier.ip later.ip = false

/-- The announcement can be encoded, and whatever follows the message in
memory, a receiver without an entry for its originator stores exactly what was
announced. -/
def RoundTrips (cfg : NameConfig) (ver : IpVersion) (own : Announcement) : Prop :=
  ∃ msg, encapNamemsg ver own none = some msg ∧
    ∀ (mem : Memory) (limit : Nat) (originator : IpAddr ver)
      (vtime : UInt32) (db : NameDb ver),
      Carries mem (bodyStart ver) msg →
      bodyStart ver + msg.length ≤ limit →
      (∀ type, ∀ entry ∈ (db type).entries, entry.originator ≠ originator) →
      ∃ db', updateNameEntry cfg mem limit originator
            (bodyStart ver + msg.length) vtime db = some db' ∧
        ∀ type, (namesOf (db' type) originator).Perm
            (own.entries.filter fun entry => entry.type = type)

structure Survives (ver : IpVersion) (own : Announcement) : Prop where
  fits : bodyStart ver + sizeofNamemsg + (own.entries.flatMap createPacket).length ≤ sendBuffer
  unquoted : ∀ entry ∈ own.entries, isQuoted entry.name = false
  names : own.names.Pairwise fun earlier later => ¬ later.name <+: earlier.name
  services : own.services.Pairwise fun earlier later => ¬ later.name <+: earlier.name
  padded : ∀ last ∈ own.entries.getLast?, last.len % 4 ≠ 0

section Announcements

variable {own : Announcement}

theorem AnnouncementOk.entryOk (ok : AnnouncementOk cfg ver own) :
    ∀ entry ∈ own.entries, EntryOk cfg entry.type entry ∧ entry.type ≠ .latlon := by
  intro entry member
  simp only [Announcement.entries, mem_append] at member
  rcases member with ((isName | isForwarder) | isService) | isMac
  · have entryOk := ok.names entry isName
    rw [entryOk.type_eq]
    exact ⟨entryOk, by decide⟩
  · have entryOk := ok.forwarders entry isForwarder
    rw [entryOk.type_eq]
    exact ⟨entryOk, by decide⟩
  · have entryOk := ok.services entry isService
    rw [entryOk.type_eq]
    exact ⟨entryOk, by decide⟩
  · have entryOk := ok.macs entry isMac
    rw [entryOk.type_eq]
    exact ⟨entryOk, by decide⟩

variable {entries : List NameEntry} {type : NameType}

/-- A list of entries of one type, seen through a filter. -/
theorem filter_type_eq
    (ok : ∀ entry ∈ entries, EntryOk cfg type entry) (wanted : NameType) :
    (entries.filter fun entry => entry.type = wanted) =
      if type = wanted then entries else [] := by
  split
  next same =>
    rw [filter_eq_self]
    intro entry member
    simp [(ok entry member).type_eq, same]
  next ne =>
    rw [filter_eq_nil_iff]
    intro entry member
    simp [(ok entry member).type_eq, ne]

theorem AnnouncementOk.filter_entries (ok : AnnouncementOk cfg ver own) (type : NameType) :
    (own.entries.filter fun entry => entry.type = type) =
      match type with
      | .host => own.names
      | .forwarder => own.forwarders
      | .service => own.services
      | .latlon => []
      | .macaddr => own.macs := by
  simp only [Announcement.entries, filter_append, filter_type_eq ok.names,
    filter_type_eq ok.forwarders, filter_type_eq ok.services, filter_type_eq ok.macs]
  cases type <;> simp

theorem repeats_iff_begins {entry saved : NameEntry}
    (ok : EntryOk cfg type entry) (isName : type = .host ∨ type = .service) :
    Repeats ver entry saved ↔ entry.name <+: saved.name := by
  have whole : entry.name.take entry.len = entry.name := by rw [ok.len_eq, take_length]
  rw [← ok.type_eq] at isName
  rw [Repeats, whole, prefix_iff_eq_take, ← ok.len_eq, eq_comm (a := entry.name)]
  rcases isName with isHost | isService
  · simp [isHost]
  · simp [isService]

/-- No entry of any type repeats an earlier one exactly if no host name and no
service does. -/
theorem AnnouncementOk.pairwise_iff (ok : AnnouncementOk cfg ver own) :
    (∀ type, (own.entries.filter fun entry => entry.type = type).Pairwise
        fun earlier later => ¬ Repeats ver later earlier) ↔
      (own.names.Pairwise fun earlier later => ¬ later.name <+: earlier.name) ∧
      own.services.Pairwise fun earlier later => ¬ later.name <+: earlier.name := by
  have hosts : (own.names.Pairwise fun earlier later => ¬ Repeats ver later earlier) ↔
      own.names.Pairwise fun earlier later => ¬ later.name <+: earlier.name := by
    apply List.Pairwise.iff_of_mem
    intro earlier later _ member
    rw [repeats_iff_begins (ok.names later member) (.inl rfl)]
  have services : (own.services.Pairwise fun earlier later => ¬ Repeats ver later earlier) ↔
      own.services.Pairwise fun earlier later => ¬ later.name <+: earlier.name := by
    apply List.Pairwise.iff_of_mem
    intro earlier later _ member
    rw [repeats_iff_begins (ok.services later member) (.inr rfl)]
  constructor
  · intro all
    have host := all .host
    have service := all .service
    rw [ok.filter_entries] at host service
    exact ⟨hosts.mp host, services.mp service⟩
  · rintro ⟨host, service⟩ type
    rw [ok.filter_entries]
    cases type with
    | host => exact hosts.mpr host
    | service => exact services.mpr service
    | latlon => exact List.Pairwise.nil
    | forwarder =>
      refine ok.forwarderIps.imp_of_mem ?_
      intro earlier later _ member ne repeats
      have isForwarder := (ok.forwarders later member).type_eq
      rcases repeats with ⟨isName, -⟩ | ⟨-, same⟩
      · simp [isForwarder] at isName
      · simp [ne] at same
    | macaddr =>
      refine pairwise_of_forall_mem_list ?_
      intro earlier _ later member repeats
      have isMac := (ok.macs later member).type_eq
      rcases repeats with ⟨isName, -⟩ | ⟨isForwarder, -⟩
      · simp [isMac] at isName
      · simp [isMac] at isForwarder

private theorem length_flatMap_createPacket (ok : ∀ entry ∈ entries, EntryOk cfg entry.type entry) :
    entries.length ≤ (entries.flatMap createPacket).length := by
  induction entries with
  | nil => rfl
  | cons entry rest ih =>
    have length := createPacket_length (ok entry mem_cons_self).len_eq
    have later := ih fun other member => ok other (mem_cons_of_mem entry member)
    rw [flatMap_cons, length_append, length_cons, length]
    unfold sizeofName
    omega

theorem namemsgBytes_length :
    (namemsgBytes own none).length = sizeofNamemsg + (own.entries.flatMap createPacket).length := by
  simp [namemsgBytes, u16Bytes, sizeofNamemsg]
  omega

theorem updateNameEntry_eq {limit : Nat} (originator : IpAddr ver) (msgSize : Nat) (vtime : UInt32)
    (db : NameDb ver) (ok : AnnouncementOk cfg ver own)
    (fits : bodyStart ver + sizeofNamemsg + (own.entries.flatMap createPacket).length ≤ sendBuffer)
    (carried : Carries mem (bodyStart ver) (namemsgBytes own none))
    (below : bodyStart ver + (namemsgBytes own none).length ≤ limit) :
    updateNameEntry cfg mem limit originator msgSize vtime db =
        fileRecords cfg mem limit (endPosition ver msgSize)
          originator vtime own.entries.length
          (bodyStart ver + sizeofNamemsg) db ∧
      Carries mem (bodyStart ver + sizeofNamemsg) (own.entries.flatMap createPacket) := by
  have few := length_flatMap_createPacket fun entry member => (ok.entryOk entry member).1
  rw [namemsgBytes_length] at below
  unfold sendBuffer at fits
  simp only [namemsgBytes, toList_none, append_nil,
    carries_append, u16Bytes, length_append, length_cons, length_nil] at carried
  obtain ⟨⟨isVersion, isCount⟩, isRecords⟩ := carried
  have version : readU16 mem (bodyStart ver) = nameProtocolVersion :=
    Carries.readU16_eq isVersion (by decide)
  have count : readU16 mem (bodyStart ver + 2) = own.entries.length :=
    Carries.readU16_eq isCount (by omega)
  unfold sizeofNamemsg at below
  refine ⟨?_, isRecords⟩
  rw [updateNameEntry, readU16Below_eq (by omega), version]
  simp [readU16Below_eq (by omega : bodyStart ver + 2 + 2 ≤ limit), count]

theorem updateNameEntry_terminated {limit : Nat} (ok : AnnouncementOk cfg ver own)
    (fits : bodyStart ver + sizeofNamemsg + (own.entries.flatMap createPacket).length ≤ sendBuffer)
    (carried : Carries mem (bodyStart ver) (namemsgBytes own none))
    (below : bodyStart ver + (namemsgBytes own none).length ≤ limit)
    (ending : ∀ last ∈ own.entries.getLast?, last.len % 4 ≠ 0 ∨
        mem (bodyStart ver + (namemsgBytes own none).length) = 0 ∧
          bodyStart ver + (namemsgBytes own none).length < limit) :
    updateNameEntry cfg mem limit originator
        (bodyStart ver + (namemsgBytes own none).length) vtime db =
      some (fileAll originator vtime own.entries db) := by
  have entryOk : ∀ entry ∈ own.entries, EntryOk cfg entry.type entry :=
    fun entry member => (ok.entryOk entry member).1
  have size : (namemsgBytes own none).length = _ := namemsgBytes_length
  obtain ⟨read, isRecords⟩ :=
    updateNameEntry_eq originator (bodyStart ver + (namemsgBytes own none).length) vtime db ok
      fits carried below
  generalize isSize : bodyStart ver + (namemsgBytes own none).length =
    msgSize at below ending read ⊢
  have ends : bodyStart ver + sizeofNamemsg +
        (own.entries.flatMap createPacket).length = msgSize := by
    omega
  have terminated : Terminated mem limit (bodyStart ver + sizeofNamemsg) own.entries := by
    apply terminated_of_carries entryOk isRecords
    · rwa [ends]
    · rwa [ends]
  have inside : bodyStart ver + sizeofNamemsg + (own.entries.flatMap createPacket).length ≤
        endPosition ver msgSize := by
    unfold endPosition sizeofPointer bodyStart sizeofNamemsg at *
    omega
  rw [read]
  exact fileRecords_eq 0 entryOk isRecords terminated inside

theorem noEntry_spec {table : NameTable ver}
    (absent : ∀ entry ∈ table.entries, entry.originator ≠ originator) :
    AtMostOne table originator ∧ namesOf table originator = [] := by
  have none : (table.entries.filter fun entry => entry.originator = originator) = [] := by
    simpa [filter_eq_nil_iff] using absent
  unfold AtMostOne namesOf
  rw [none]
  exact ⟨Nat.zero_le 1, rfl⟩

def placed (ver : IpVersion) (msg behind : List UInt8) : Memory :=
  ofBytes (List.replicate (bodyStart ver) 0 ++ (msg ++ behind))

theorem carries_placed (ver : IpVersion) (msg behind : List UInt8) :
    Carries (placed ver msg behind) (bodyStart ver) msg ∧
      Carries (placed ver msg behind) (bodyStart ver + msg.length) behind := by
  have carried := carries_ofBytes (List.replicate (bodyStart ver) 0 ++ (msg ++ behind))
  rw [carries_append, carries_append, length_replicate, Nat.zero_add] at carried
  exact carried.2

def emptyDb (ver : IpVersion) : NameDb ver := fun _ => ⟨[], false⟩

section

variable (ok : AnnouncementOk cfg ver own)
  (fits : bodyStart ver + sizeofNamemsg + (own.entries.flatMap createPacket).length ≤ sendBuffer)
include ok fits

theorem updateNameEntry_unterminated {limit : Nat} {front : List NameEntry} {last : NameEntry}
    (isFront : own.entries = front ++ [last]) (aligned : last.len % 4 = 0)
    (carried : Carries mem (bodyStart ver) (namemsgBytes own none))
    (below : bodyStart ver + (namemsgBytes own none).length + 1 < limit)
    (nonzero : mem (bodyStart ver + (namemsgBytes own none).length) ≠ 0)
    (zero : mem (bodyStart ver + (namemsgBytes own none).length + 1) = 0) :
    updateNameEntry cfg mem limit originator
        (bodyStart ver + (namemsgBytes own none).length) vtime db =
      some
        (update (fileAll originator vtime front db) last.type
          (insertNewNameInList originator vtime none
            (fileAll originator vtime front db last.type))) := by
  have entryOk : ∀ entry ∈ own.entries, EntryOk cfg entry.type entry :=
    fun entry member => (ok.entryOk entry member).1
  have size : (namemsgBytes own none).length = _ := namemsgBytes_length
  obtain ⟨read, isRecords⟩ :=
    updateNameEntry_eq originator (bodyStart ver + (namemsgBytes own none).length) vtime db ok
      fits carried (by omega : _ ≤ limit)
  generalize isSize : bodyStart ver + (namemsgBytes own none).length =
    msgSize at below nonzero zero read ⊢
  rw [isFront] at entryOk
  have lastOk := entryOk last (by simp)
  have frontOk : ∀ entry ∈ front, EntryOk cfg entry.type entry :=
    fun entry member => entryOk entry (mem_append_left [last] member)
  have unpadded : padding last.len = 0 := by
    unfold padding
    omega
  have lastLength := createPacket_length lastOk.len_eq
  rw [unpadded, Nat.add_zero] at lastLength
  rw [isFront, flatMap_append, flatMap_singleton] at isRecords size
  rw [length_append, lastLength] at size
  rw [carries_append] at isRecords
  generalize isPos : bodyStart ver + sizeofNamemsg +
    (front.flatMap createPacket).length = pos at isRecords
  have ends : pos + sizeofName + last.len = msgSize := by omega
  have terminated : Terminated mem limit (bodyStart ver + sizeofNamemsg) front := by
    apply terminated_of_carries frontOk isRecords.1
    · omega
    · intro _ _
      right
      rw [isPos]
      exact ⟨first_createPacket isRecords.2, by omega⟩
  have inside : pos ≤ endPosition ver msgSize ∧ pos < endPosition ver msgSize := by
    unfold endPosition sizeofPointer bodyStart sizeofNamemsg sizeofName at *
    omega
  have ignored : decapRecord cfg mem limit pos last.type = some none := by
    apply decapRecord_unterminated lastOk isRecords.2
    · rwa [ends]
    · rwa [ends]
    · rwa [ends]
  unfold sizeofName at ends
  obtain ⟨-, isLen, -⟩ := carries_createPacket lastOk isRecords.2
  rw [read, isFront, length_append, length_singleton,
    fileRecords_eq 1 frontOk isRecords.1 terminated (isPos ▸ inside.1), isPos,
    fileRecords, if_pos inside.2,
    fileRecord_eq lastOk isRecords.2 (by omega) ignored,
    readU16Below_eq (by omega)]
  rfl

/-- The last name is lost if it has no padding and is followed by something
else than a zero. -/
theorem padded_of_roundTrips (roundTrips : RoundTrips cfg ver own) :
    ∀ last ∈ own.entries.getLast?, last.len % 4 ≠ 0 := by
  intro last isLast aligned
  obtain ⟨front, isFront⟩ := getLast?_eq_some_iff.mp isLast
  obtain ⟨msg, encoded, stores⟩ := roundTrips
  have isMsg : msg = namemsgBytes own none := by
    unfold encapNamemsg at encoded
    split at encoded
    · exact (some.inj encoded).symm
    · cases encoded
  subst isMsg
  -- the message is followed by a byte that continues the last name
  obtain ⟨isMsg, isOne, isZero, -⟩ := carries_placed ver (namemsgBytes own none) [1, 0]
  obtain ⟨db', decoded, same⟩ := stores (placed ver (namemsgBytes own none) [1, 0])
      (bodyStart ver + (namemsgBytes own none).length + 2)
      (zeroAddr ver) 0 (emptyDb ver) isMsg (by omega) (by simp [emptyDb])
  rw [updateNameEntry_unterminated ok fits isFront aligned isMsg (by omega)
    (by rw [isOne]; decide) isZero] at decoded
  have stored := same last.type
  rw [← some.inj decoded, update_self] at stored
  have absent : ∀ type, AtMostOne (emptyDb ver type) (zeroAddr ver) ∧
        namesOf (emptyDb ver type) (zeroAddr ver) = [] :=
    fun type => noEntry_spec (by simp [emptyDb])
  have ⟨single, names⟩ : AtMostOne
          (fileAll (zeroAddr ver) 0 front (emptyDb ver) last.type)
          (zeroAddr ver) ∧ _ :=
    fileAll_spec (fun type => (absent type).1) last.type
  rw [(insertNewNameInList_spec single).2, names, (absent _).2] at stored
  have inStored : last ∈ saveAll ver (front.filter fun entry => entry.type = last.type) [] :=
    stored.mem_iff.mpr (mem_filter.mpr ⟨by simp [isFront], by simp⟩)
  have notLatlon :
      ∀ entry ∈ front.filter fun entry => entry.type = last.type, entry.type ≠ .latlon := by
    intro entry member
    have inFront := (mem_filter.mp member).1
    exact (ok.entryOk entry (by simp [isFront, inFront])).2
  have inFront : last ∈ front :=
    (mem_filter.mp (mem_reverse.mp ((saveAll_sublist notLatlon).1.subset inStored))).1
  have distinct := ok.distinct
  rw [isFront, map_append, nodup_append] at distinct
  exact distinct.2.2 (last.type, last.name)
      (mem_map_of_mem (f := fun entry => (entry.type, entry.name)) inFront)
      (last.type, last.name) (by simp) rfl

end

/-- The announcement of a host is stored as it was announced exactly if it
survives. -/
theorem nameRoundTrips_iff (cfg : NameConfig) {ver : IpVersion} {own : Announcement}
    (ok : AnnouncementOk cfg ver own) :
    RoundTrips cfg ver own ↔ Survives ver own := by
  have size : (namemsgBytes own none).length =
      sizeofNamemsg + (own.entries.flatMap createPacket).length :=
    namemsgBytes_length
  have notLatlon : ∀ type,
      ∀ entry ∈ own.entries.filter fun entry => entry.type = type, entry.type ≠ .latlon :=
    fun type entry member => (ok.entryOk entry (mem_filter.mp member).1).2
  constructor
  · intro roundTrips
    have fits : bodyStart ver + sizeofNamemsg +
          (own.entries.flatMap createPacket).length ≤ sendBuffer := by
      obtain ⟨msg, encoded, -⟩ := roundTrips
      unfold encapNamemsg at encoded
      split at encoded
      next fits => omega
      · cases encoded
    have padded := padded_of_roundTrips ok fits roundTrips
    obtain ⟨msg, encoded, stores⟩ := roundTrips
    rw [encapNamemsg, if_pos (by omega)] at encoded
    cases encoded
    obtain ⟨isMessage, -⟩ := carries_placed ver (namemsgBytes own none) []
    obtain ⟨db', decoded, same⟩ := stores (placed ver (namemsgBytes own none) [])
        (bodyStart ver + (namemsgBytes own none).length)
        (zeroAddr ver) 0 (emptyDb ver) isMessage le_rfl
        (by simp [emptyDb])
    rw [updateNameEntry_terminated ok fits isMessage le_rfl
      fun last isLast => .inl (padded last isLast)] at decoded
    have absent : ∀ type, AtMostOne (emptyDb ver type) (zeroAddr ver) ∧
          namesOf (emptyDb ver type) (zeroAddr ver) = [] :=
      fun type => noEntry_spec (by simp [emptyDb])
    have saved : ∀ type,
        (∀ entry ∈ own.entries.filter fun entry => entry.type = type, isQuoted entry.name = false) ∧
        (own.entries.filter fun entry => entry.type = type).Pairwise
          fun earlier later => ¬ Repeats ver later earlier := by
      intro type
      have stored := same type
      rw [← some.inj decoded, (fileAll_spec (fun type => (absent type).1) type).2,
        (absent type).2] at stored
      exact (saveAll_perm_iff (notLatlon type)).mp stored
    obtain ⟨names, services⟩ := ok.pairwise_iff.mp fun type => (saved type).2
    refine ⟨fits, ?_, names, services, padded⟩
    intro entry member
    exact (saved entry.type).1 entry (mem_filter.mpr ⟨member, by simp⟩)
  · rintro ⟨fits, unquoted, names, services, padded⟩
    refine ⟨namemsgBytes own none, if_pos (by omega), ?_⟩
    intro mem limit originator vtime db carried below absent
    refine ⟨_, updateNameEntry_terminated ok fits carried below
        fun last isLast => .inl (padded last isLast), ?_⟩
    intro type
    have distinct := ok.pairwise_iff.mpr ⟨names, services⟩ type
    rw [(fileAll_spec (fun type => (noEntry_spec (absent type)).1) type).2,
      (noEntry_spec (absent type)).2]
    refine (saveAll_perm_iff (notLatlon type)).mpr ⟨?_, distinct⟩
    intro entry member
    exact unquoted entry (mem_filter.mp member).1

end Announcements

/-- `http://h.olsr:80|tcp|p`. -/
def serviceLine : List UInt8 :=
  [104, 116, 116, 112, 58, 47, 47, 104, 46, 111, 108, 115, 114, 58, 56, 48, 124, 116, 99,
    112, 124, 112]

/-- Matchers that agree with those of the C library on the names announced
here. -/
def webConfig : NameConfig where
  isServiceWellformed name := name = serviceLine
  isMacWellformed _ := false
  isLatlonWellformed _ := false
  debug := false

def plainEntry (type : NameType) (name : List UInt8) : NameEntry where
  ip := ⟨List.replicate 16 0, rfl⟩
  type := type
  len := name.length
  name := name

/-- The name `node`, a forwarder without much of a name, and the service. -/
def smallAnnouncement : Announcement where
  names := [plainEntry .host [110, 111, 100, 101]]
  forwarders := [plainEntry .forwarder [45]]
  services := [plainEntry .service serviceLine]
  macs := []

def nodeAnnouncement : Announcement where
  names := [plainEntry .host [110, 111, 100, 101]]
  forwarders := []
  services := []
  macs := []

theorem plainEntry_ok {type : NameType} {name : List UInt8} (nonempty : 1 ≤ name.length)
    (short : name.length ≤ maxName) (noZero : 0 ∉ name)
    (wellformed : isWellformed webConfig type name = true) :
    EntryOk webConfig type (plainEntry type name) :=
  ⟨rfl, rfl, nonempty, short, noZero, wellformed⟩

theorem roundTrips_smallAnnouncement : AnnouncementOk webConfig .inet smallAnnouncement ∧
      RoundTrips webConfig .inet smallAnnouncement := by
  have ok : AnnouncementOk webConfig .inet smallAnnouncement := by
    constructor
    case names =>
      intro entry member
      rw [mem_singleton.mp member]
      exact plainEntry_ok (by decide) (by decide) (by decide) (by decide)
    case forwarders =>
      intro entry member
      rw [mem_singleton.mp member]
      exact plainEntry_ok (by decide) (by decide) (by decide) (by decide)
    case services =>
      intro entry member
      rw [mem_singleton.mp member]
      exact plainEntry_ok (by decide) (by decide) (by decide) (by decide)
    case macs => exact fun entry member => absurd member not_mem_nil
    case distinct => decide
    case forwarderIps => exact pairwise_singleton _ _
  refine ⟨ok, (nameRoundTrips_iff webConfig ok).mpr ?_⟩
  constructor
  case fits => decide
  case unquoted => decide
  case names => exact pairwise_singleton _ _
  case services => exact pairwise_singleton _ _
  case padded => decide

/-- The name `node` alone, of four letters, is lost where the message is
followed by a byte that is not zero. -/
theorem nodeAnnouncement_lost : AnnouncementOk webConfig .inet nodeAnnouncement ∧
      ¬ RoundTrips webConfig .inet nodeAnnouncement := by
  have ok : AnnouncementOk webConfig .inet nodeAnnouncement := by
    constructor
    case names =>
      intro entry member
      rw [mem_singleton.mp member]
      exact plainEntry_ok (by decide) (by decide) (by decide) (by decide)
    case forwarders => exact fun entry member => absurd member not_mem_nil
    case services => exact fun entry member => absurd member not_mem_nil
    case macs => exact fun entry member => absurd member not_mem_nil
    case distinct => decide
    case forwarderIps => exact List.Pairwise.nil
  refine ⟨ok, ?_⟩
  intro roundTrips
  exact
    padded_of_roundTrips ok (by decide) roundTrips (plainEntry .host [110, 111, 100, 101]) rfl rfl

end QosOlsr.Names
