import QosOlsr.Hello.Bounds
import QosOlsr.HnaMessage
import QosOlsr.MidMessage
import QosOlsr.Tc.Bounds

/-!
# Reads behind the end of a message

The four message parsers, applied to a message that passed the size checks of
`parse_packet`.  HNA messages are always read inside their declared size; the
other three have no check of their own.
-/

namespace QosOlsr

open Library

universe u

/-- The size checks of `parse_packet` on one message. -/
structure FramedMessage (mem : Memory) (ver : IpVersion) : Prop where
  minimum : 8 + ver.ipsize ≤ readU16 mem 2
  aligned : readU16 mem 2 % 4 = 0

section Parsers

variable {ver : IpVersion} {State : Type u} {mem : Memory}

/-- Everything that the four parsers read of the message lies inside its
declared size. -/
structure ReadsInside (mem : Memory) (lqHandler : LqHandler) (tcNode : TcNode ver)
    (hnaNode : HnaNode ver State) (st : State) : Prop where
  tc : (olsrInputTc tcNode mem).curr.reach ≤ readU16 mem 2
  hello : ∀ fuel, (deserializeHello mem ver lqHandler fuel).curr.reach ≤ readU16 mem 2
  mid : (midChgestruct mem : Option (MidMessage ver) × Cursor).2.reach ≤ readU16 mem 2
  hna : (olsrInputHna hnaNode mem st).curr.reach ≤ readU16 mem 2

def MidFits (mem : Memory) (ver : IpVersion) : Prop := ver = .inet6 → (readU16 mem 2 - 24) % 16 = 0

structure MessageFits (mem : Memory) (lqHandler : LqHandler) (tcNode : TcNode ver) : Prop where
  tc : IsTc mem → TcFits tcNode mem
  hello : IsHello mem → HelloFits mem ver lqHandler
  mid : mem 0 = midMessage → MidFits mem ver

theorem midChgestruct_reach_le_iff (framed : FramedMessage mem ver) (isMid : mem 0 = midMessage) :
    (midChgestruct mem : Option (MidMessage ver) × Cursor).2.reach ≤ readU16 mem 2 ↔
      MidFits mem ver := by
  obtain ⟨minimum, aligned⟩ := framed
  rw [midChgestruct_reach isMid, midAliasCount, MidFits]
  cases ver with
  | inet =>
    refine iff_of_true ?_ (fun no => by cases no)
    simp only [IpVersion.ipsize] at minimum ⊢
    omega
  | inet6 =>
    simp only [IpVersion.ipsize, forall_const] at minimum ⊢
    omega

/-- HNA messages are read inside: a message with an incomplete network is
refused before the first one is read. -/
theorem olsrInputHna_reach_le (framed : FramedMessage mem ver) (hnaNode : HnaNode ver State)
    (st : State) : (olsrInputHna hnaNode mem st).curr.reach ≤ readU16 mem 2 := by
  have minimum := framed.minimum
  have header : (readHnaHeader mem (Cursor.start.read 1) : HnaHeader ver × Cursor).2 =
        ⟨8 + ver.ipsize, 8 + ver.ipsize⟩ := by
    cases ver <;> rfl
  unfold olsrInputHna
  dsimp only [pktGetU8]
  split
  · change 1 ≤ _
    omega
  · split
    · rw [header]
      exact minimum
    · rename_i whole
      split
      · rw [header]
        exact minimum
      · dsimp only
        apply readHnaNetworks_reach_le
        · rw [header]
          exact minimum
        · rw [header]
          apply Nat.dvd_of_mod_eq_zero
          rw [← Nat.sub_sub]
          exact not_not.mp whole

/-- The parsers stay inside a framed message exactly when it fits their
layout. -/
theorem readsInside_iff (framed : FramedMessage mem ver) (lqHandler : LqHandler)
    (tcNode : TcNode ver) (hnaNode : HnaNode ver State) (st : State) :
    ReadsInside mem lqHandler tcNode hnaNode st ↔ MessageFits mem lqHandler tcNode := by
  constructor
  · rintro ⟨tc, hello, mid, -⟩
    exact ⟨fun isTc => (olsrInputTc_reach_le_iff isTc framed.minimum).mp tc,
        fun isHello => (deserializeHello_reach_le_iff lqHandler isHello framed.aligned).mp hello,
        fun isMid => (midChgestruct_reach_le_iff framed isMid).mp mid⟩
  · rintro ⟨tc, hello, mid⟩
    have one : 1 ≤ readU16 mem 2 := by
      have minimum := framed.minimum
      omega
    refine ⟨?_, ?_, ?_, olsrInputHna_reach_le framed hnaNode st⟩
    · by_cases isTc : IsTc mem
      · exact (olsrInputTc_reach_le_iff isTc framed.minimum).mpr (tc isTc)
      · rw [olsrInputTc_of_not_isTc isTc]
        exact one
    · by_cases isHello : IsHello mem
      · exact (deserializeHello_reach_le_iff lqHandler isHello framed.aligned).mpr (hello isHello)
      · intro fuel
        rw [deserializeHello_of_not_isHello ver lqHandler isHello]
        exact one
    · by_cases isMid : mem 0 = midMessage
      · exact (midChgestruct_reach_le_iff framed isMid).mpr (mid isMid)
      · have refused : (midChgestruct mem : Option (MidMessage ver) × Cursor) = (none, ⟨1, 1⟩) :=
          if_pos isMid
        rw [refused]
        exact one

end Parsers

/-- An IPv4 node that hears a symmetric neighbour and knows no topology. -/
def freshTcNode : TcNode .inet where
  config :=
    { lqLevel := 2
      lqHandler := .etxFfeth
      olsrValidateAddress := fun _ => true }
  mainAddr := .v4 10 0 0 2
  senderIsSym := true
  olsrLookupTcEntry := fun _ => none

def freshHnaNode : HnaNode .inet Unit where
  senderIsSym := true
  handleNetwork := fun st _ _ _ _ _ => st

/-- An LQ_TC message with records for 10.0.0.5 and 10.0.0.6. -/
def twoRecordMessage : Memory :=
  ofBytes [202, 134, 0, 32, 10, 0, 0, 1, 255, 0, 0, 7, 0, 1, 0, 0,
    10, 0, 0, 5, 255, 255, 0, 0, 10, 0, 0, 6, 255, 255, 0, 0]

theorem readsInside_iff_twoRecords : FramedMessage twoRecordMessage .inet ∧
      IsTc twoRecordMessage ∧ AcceptsTc freshTcNode twoRecordMessage ∧
      ReadsInside twoRecordMessage .etxFfeth freshTcNode freshHnaNode () := by
  refine ⟨⟨by decide, by decide⟩, .inl rfl, ⟨rfl, by decide⟩,
    (readsInside_iff ⟨by decide, by decide⟩ .etxFfeth freshTcNode freshHnaNode ()).mpr
      ⟨fun _ _ => ⟨by decide, fun _ => ?_⟩, fun isHello => absurd isHello (by decide), nofun⟩⟩
  rw [TcRecordsFit, if_pos (by decide), if_pos (by decide)]
  refine ⟨by decide, ?_⟩
  rw [TcRecordsFit, if_pos (by decide), if_pos (by decide)]
  refine ⟨by decide, ?_⟩
  rw [TcRecordsFit, if_neg (by decide)]
  trivial

/-- An LQ_TC message of twelve bytes: it ends where its own header begins. -/
def shortTcMessage : Memory := ofBytes [202, 134, 0, 12, 10, 0, 0, 1, 255, 0, 0, 7]

/-- The header of that message is read behind its end. -/
theorem shortTcMessage_read_behind_end :
    ¬ ∀ (ver : IpVersion) (mem : Memory) (lqHandler : LqHandler)
        (tcNode : TcNode ver) (hnaNode : HnaNode ver Unit),
        FramedMessage mem ver →
        ReadsInside mem lqHandler tcNode hnaNode () := by
  intro inside
  have reads :=
    inside .inet shortTcMessage .etxFfeth freshTcNode freshHnaNode ⟨by decide, by decide⟩
  have fits := (olsrInputTc_reach_le_iff (Or.inl rfl) (by decide)).mp reads.tc
  exact absurd (fits rfl).1 (by decide)

end QosOlsr
