import QosOlsr.NetBuffer
import QosOlsr.OutputBuffer
import QosOlsr.Parser

/-!
# Packets between two nodes

What `net_output` sends is cut into the pushed messages again by `parse_packet`.
-/

namespace QosOlsr

open Library List

universe u

/-- A message that begins as `serialize_common` writes it. -/
structure SentMessage (ver : IpVersion) where
  comm : OlsrCommon ver
  seqno : Nat
  body : List UInt8
  aligned : body.length % 4 = 0
  small : commonSize ver + body.length < 0x10000

def SentMessage.bytes {ver : IpVersion} (msg : SentMessage ver) : List UInt8 :=
  commonBytes msg.comm (commonSize ver + msg.body.length) msg.seqno ++ msg.body

theorem SentMessage.length_bytes {ver : IpVersion} (msg : SentMessage ver) :
    msg.bytes.length = commonSize ver + msg.body.length := by
  rw [bytes, length_append, commonBytes_length]

variable {Node : Type u} {env : ParserEnv Node} {st : PacketState Node} {m : Nat}

/-- The handlers write at most the header of their message, as forwarding does. -/
structure WritesHeaders (env : ParserEnv Node) : Prop where
  prepare : ∀ st i, 4 ≤ i → (preparePacket env st).memory i = st.memory i
  handle : ∀ st m size i, m + commonSize env.ipVersion ≤ i →
    (handleMessage env m size st).1.memory i = st.memory i

/-- The calls are made for one message after the other, and there are some for
each message of an originator that is accepted. -/
def Delivers (env : ParserEnv Node) :
    Nat → List (SentMessage env.ipVersion) → List MessageCall → Prop
  | _, [], calls => calls = []
  | m, msg :: rest, calls => ∃ here later, calls = here ++ later ∧
    (∀ call ∈ here, call.offset = m ∧ call.msgsize = msg.bytes.length) ∧
    ((∀ node, msg.comm.orig.bytes ≠ env.mainAddr node ∧
      env.olsrValidateAddress node msg.comm.orig.bytes) → here ≠ []) ∧
    Delivers env (m + msg.bytes.length) rest later

private theorem parseMessages_delivers (writes : WritesHeaders env)
    {messages : List (SentMessage env.ipVersion)}
    (carried : Carries st.memory m (messages.flatMap SentMessage.bytes)) :
    Delivers env m messages
      (parseMessages env m (messages.flatMap SentMessage.bytes).length st).2 := by
  induction messages generalizing m st with
  | nil => rw [parseMessages, dif_neg (by simp [wellSized]), Delivers]
  | cons msg rest ih =>
    have length := msg.length_bytes
    rw [flatMap_cons, carries_append] at carried
    obtain ⟨here, behind⟩ := carried
    simp only [SentMessage.bytes, commonBytes, append_assoc, carries_append] at here
    obtain ⟨-, size, orig, -⟩ := here
    have isSize : readU16 st.memory (m + 2) = msg.bytes.length := by
      rw [length]
      exact size.readU16_eq msg.small
    have isOrig : readBytes st.memory (m + 4) env.ipVersion.ipsize = msg.comm.orig.bytes := by
      rw [← msg.comm.orig.length_eq]
      exact orig.readBytes_eq
    have sized :
        wellSized env m (msg.bytes.length + (rest.flatMap SentMessage.bytes).length) st := by
      have multiple := env.ipVersion.ipsize_mod_four
      have aligned := msg.aligned
      rw [wellSized_iff, isSize, length, commonSize]
      omega
    rw [flatMap_cons, length_append, parseMessages, dif_pos sized]
    simp only [isSize, Nat.add_sub_cancel_left]
    split
    next accepted =>
      refine ⟨_, _, rfl, fun call => handleMessage_calls,
        fun _ => handleMessage_calls_ne_nil env m _ st, ih (behind.congr ?_)⟩
      intro i above
      exact writes.handle st m _ i (by omega)
    next refused =>
      refine ⟨[], _, rfl, by simp, fun accepts => absurd ?_ refused, ih ?_⟩
      · simp [acceptsOriginator, isOrig, accepts st.node]
      · rw [skipMessage]
        split <;> exact behind

section Sender

open NetBuffer

def helloOfOne : SentMessage .inet := ⟨⟨130, 5, .v4 10 0 0 1, 2, 0⟩, 7, [], rfl, by decide⟩

end Sender

end QosOlsr
