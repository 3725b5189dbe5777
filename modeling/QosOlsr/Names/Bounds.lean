import QosOlsr.MessageBounds
import QosOlsr.Names.RoundTrip

/-!
# Reads behind the end of a name message

The size that the loop of the name service is bounded by is that of the whole
message, counted from a place inside of it; and the end of a name is found by
its terminator.
-/

namespace QosOlsr.Names

open Library Option

section Bounds

variable {cfg : NameConfig} {ver : IpVersion} {mem : Memory} {limit : Nat}

def recordStart (mem : Memory) : Nat → Nat → Nat
  | pos, 0 => pos
  | pos, index + 1 =>
    recordStart mem (pos + sizeofName + paddedLength (readU16 mem (pos + 2))) index

/-- The type and the length of a record lie below the limit, and so does the
terminator of its name, if the name is looked at. -/
structure RecordFits (cfg : NameConfig) (mem : Memory) (limit pos : Nat) : Prop where
  head : pos + 4 ≤ limit
  name : ∀ type, NameType.ofCode (readU16 mem pos) = some type →
      isScanned cfg type (readU16 mem (pos + 2)) = true →
        ∃ place, pos + sizeofName ≤ place ∧ place < limit ∧ mem place = 0

variable {originator : IpAddr ver} {db : NameDb ver} {vtime : UInt32}

theorem fileRecord_isSome_iff
    {pos : Nat} : (fileRecord cfg mem limit originator vtime pos db).isSome ∧
      (readU16Below mem limit (pos + 2)).isSome ↔ RecordFits cfg mem limit pos := by
  rw [readU16Below_isSome_iff]
  by_cases head : pos + 4 ≤ limit
  · have lenRead : readU16Below mem limit (pos + 2) = some (readU16 mem (pos + 2)) :=
      readU16Below_eq head
    rw [fileRecord, readU16Below_eq (by omega)]
    simp only [bind_eq_bind, bind_some]
    cases isType : NameType.ofCode (readU16 mem pos) with
    | none =>
      refine iff_of_true ⟨rfl, head⟩ ⟨head, ?_⟩
      simp [isType]
    | some type =>
      have decoded : (decapRecord cfg mem limit pos type).isSome ↔
            (scanName cfg mem limit pos type (readU16 mem (pos + 2))).isSome := by
        rw [decapRecord, lenRead]
        simp only [bind_eq_bind, bind_some]
        cases scanName cfg mem limit pos type (readU16 mem (pos + 2)) with
        | none => rfl
        | some name =>
          refine iff_of_true ?_ rfl
          simp only [bind_some]
          split
          · rfl
          · split <;> rfl
      have filed :
          (decapRecord cfg mem limit pos type >>= fun accepted =>
            some (Function.update db type
              (insertNewNameInList originator vtime accepted (db type)))).isSome ↔
            (decapRecord cfg mem limit pos type).isSome := by
        cases decapRecord cfg mem limit pos type <;> rfl
      refine (and_iff_left head).trans (filed.trans (decoded.trans ?_))
      rw [scanName]
      by_cases scanned : isScanned cfg type (readU16 mem (pos + 2)) = true
      · rw [if_pos scanned, cString_isSome_iff]
        constructor
        · intro terminated
          refine ⟨head, ?_⟩
          intro _ _ _
          exact terminated
        · intro fits
          exact fits.name type isType scanned
      · rw [if_neg scanned]
        refine iff_of_true rfl ⟨head, ?_⟩
        intro other isOther otherScanned
        rw [isType] at isOther
        cases isOther
        exact absurd otherScanned scanned
  · refine iff_of_false ?_ ?_
    · exact fun read => head read.2
    · exact fun fits => head fits.head

/-- The loop reads below the limit exactly if every record that it reaches
fits. -/
theorem fileRecords_isSome_iff {endPos : Nat}
    {count pos : Nat} : (fileRecords cfg mem limit endPos originator vtime count pos db).isSome ↔
      ∀ index < count, (∀ earlier ≤ index, recordStart mem pos earlier < endPos) →
      RecordFits cfg mem limit (recordStart mem pos index) := by
  induction count generalizing pos db with
  | zero => exact iff_of_true rfl fun index no => by cases no
  | succ count ih =>
    rw [fileRecords]
    split
    next before =>
      by_cases fits : RecordFits cfg mem limit pos
      · obtain ⟨filed, -⟩ := fileRecord_isSome_iff.mpr fits
        obtain ⟨db', isFiled⟩ := isSome_iff_exists.mp filed
        rw [isFiled, readU16Below_eq fits.head]
        refine ih.trans ?_
        constructor
        · intro later index inCount reached
          cases index with
          | zero => exact fits
          | succ index =>
            refine later index (Nat.lt_of_succ_lt_succ inCount) ?_
            intro earlier upTo
            exact reached (earlier + 1) (Nat.succ_le_succ upTo)
        · intro all index inCount reached
          refine all (index + 1) (Nat.succ_lt_succ inCount) ?_
          intro earlier upTo
          cases earlier with
          | zero => exact before
          | succ earlier => exact reached earlier (Nat.le_of_succ_le_succ upTo)
      · refine iff_of_false ?_ ?_
        · intro done
          have read : (fileRecord cfg mem limit originator vtime pos db).isSome ∧
                (readU16Below mem limit (pos + 2)).isSome := by
            cases filed : fileRecord cfg mem limit originator vtime pos db with
            | none =>
              rw [filed] at done
              cases done
            | some db' =>
              cases read : readU16Below mem limit (pos + 2) with
              | none =>
                rw [filed, read] at done
                cases done
              | some len => exact ⟨rfl, rfl⟩
          exact fits (fileRecord_isSome_iff.mp read)
        · intro all
          refine fits (all 0 count.succ_pos ?_)
          intro earlier upTo
          rw [Nat.le_zero.mp upTo]
          exact before
    next behind =>
      refine iff_of_true rfl ?_
      intro index _ reached
      exact absurd (reached 0 (Nat.zero_le index)) behind

/-- The message has a body, and every record that the loop reaches fits. -/
structure NameMessageFits (cfg : NameConfig) (ver : IpVersion) (mem : Memory) : Prop where
  body : bodyStart ver < readU16 mem 2
  records : readU16 mem (bodyStart ver) = nameProtocolVersion →
      ∀ index < readU16 mem (bodyStart ver + 2),
        (∀ earlier ≤ index, recordStart mem (bodyStart ver + sizeofNamemsg) earlier <
            endPosition ver (readU16 mem 2)) →
        RecordFits cfg mem (readU16 mem 2) (recordStart mem (bodyStart ver + sizeofNamemsg) index)

private theorem updateNameEntry_isSome_iff (framed : FramedMessage mem ver) :
    (updateNameEntry cfg mem (readU16 mem 2) originator (readU16 mem 2) vtime db).isSome ↔
      NameMessageFits cfg ver mem := by
  obtain ⟨minimum, aligned⟩ := framed
  have ipAligned := ver.ipsize_mod_four
  rw [updateNameEntry]
  by_cases body : bodyStart ver < readU16 mem 2
  · -- the sizes are multiples of four
    have room : bodyStart ver + 4 ≤ readU16 mem 2 := by
      unfold bodyStart at body ⊢
      omega
    rw [readU16Below_eq (by omega)]
    simp only [bind_eq_bind, bind_some]
    split
    next otherVersion =>
      refine iff_of_true rfl ⟨body, ?_⟩
      intro isVersion
      exact absurd isVersion otherVersion
    next isVersion =>
      rw [readU16Below_eq (by omega)]
      refine fileRecords_isSome_iff.trans ?_
      constructor
      · intro fits
        exact ⟨body, fun _ => fits⟩
      · intro fits
        exact fits.records (not_not.mp isVersion)
  · refine iff_of_false ?_ ?_
    · rw [readU16Below, if_neg (by omega)]
      exact Bool.false_ne_true
    · exact fun fits => body fits.body

/-- Everything that the name service reads of the message lies inside its
declared size: the parser succeeds with the end of the message as the limit. -/
def ParsesInside (cfg : NameConfig) (node : NameNode ver) (mem : Memory) (db : NameDb ver) : Prop :=
  (olsrParser cfg node mem (readU16 mem 2) db).isSome

instance ParsesInside.decidable (cfg : NameConfig) (node : NameNode ver) (mem : Memory)
    (db : NameDb ver) :
    Decidable (ParsesInside cfg node mem db) :=
  inferInstanceAs (Decidable (_ = true))

/-- A message that passed the size checks of `parse_packet` is read inside
exactly if the parser does not look at it or it fits. -/
theorem parsesInside_iff (cfg : NameConfig) (node : NameNode ver) {mem : Memory}
    (framed : FramedMessage mem ver) (db : NameDb ver) :
    ParsesInside cfg node mem db ↔ node.configured = false ∨
      headerOriginator ver mem = node.mainAddr ∨
      node.fromSymNeighbor = false ∨
      NameMessageFits cfg ver mem := by
  have header : ¬ readU16 mem 2 < bodyStart ver := Nat.not_lt.mpr framed.minimum
  unfold ParsesInside olsrParser
  cases configured : node.configured with
  | false => exact iff_of_true rfl (.inl rfl)
  | true =>
    rw [if_neg (by decide), if_neg header]
    dsimp only
    split
    next backsOff =>
      refine iff_of_true rfl ?_
      simp only [Bool.or_eq_true, decide_eq_true_eq, Bool.not_eq_true'] at backsOff
      rcases backsOff with isOwn | notSym
      · exact .inr (.inl isOwn)
      · exact .inr (.inr (.inl notSym))
    next goesOn =>
      simp only [Bool.or_eq_true, decide_eq_true_eq, Bool.not_eq_true', not_or] at goesOn
      rw [isSome_map, updateNameEntry_isSome_iff framed]
      constructor
      · exact fun fits => .inr (.inr (.inr fits))
      · rintro (notConfigured | isOwn | notSym | fits)
        · cases notConfigured
        · exact absurd isOwn goesOn.1
        · exact absurd notSym goesOn.2
        · exact fits

end Bounds

def nameMessage (body : List UInt8) : Memory := ofBytes
    ([130, 0x85] ++ u16Bytes (12 + body.length) ++ [10, 0, 0, 2] ++ [255, 0, 0, 1] ++ body)

/-- The host `10.0.0.1`, which has the message from a symmetric neighbour. -/
def receiver : NameNode .inet where
  configured := true
  mainAddr := .v4 10 0 0 1
  fromSymNeighbor := true

theorem nameMessageFits_smallAnnouncement :
    FramedMessage (nameMessage (namemsgBytes smallAnnouncement none)) .inet ∧
      NameMessageFits webConfig .inet (nameMessage (namemsgBytes smallAnnouncement none)) := by
  have framed : FramedMessage (nameMessage (namemsgBytes smallAnnouncement none)) .inet :=
    ⟨by decide +kernel, by decide +kernel⟩
  have inside : ParsesInside webConfig receiver
        (nameMessage (namemsgBytes smallAnnouncement none))
        (emptyDb .inet) := by
    decide +kernel
  refine ⟨framed, ?_⟩
  rcases (parsesInside_iff webConfig receiver framed (emptyDb .inet)).mp inside with
    notConfigured | isOwn | notSym | fits
  · exact absurd notConfigured (by decide)
  · exact absurd isOwn (by decide +kernel)
  · exact absurd notSym (by decide)
  · exact fits

/-- A message with the name `node` alone is read behind its end. -/
theorem nodeAnnouncement_overread :
    FramedMessage (nameMessage (namemsgBytes nodeAnnouncement none)) .inet ∧
      ¬ ParsesInside webConfig receiver (nameMessage (namemsgBytes nodeAnnouncement none))
        (emptyDb .inet) :=
  ⟨⟨by decide +kernel, by decide +kernel⟩, by decide +kernel⟩

end QosOlsr.Names
