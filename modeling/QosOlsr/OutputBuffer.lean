import QosOlsr.Packet

/-!
# Sending messages

The output buffer of an interface in `net_olsr.c` and the message header of
`serialize_common`.  Of the buffer the model keeps its size, how many bytes
wait in it, and the messages that have entered it, in order.
-/

namespace QosOlsr

open Library List

/-- The four bytes that `olsr_serialize_hello_lq_pair` and
`olsr_serialize_tc_lq_pair` write behind an address. -/
structure LqBytes where
  bytes : List UInt8
  length_eq : bytes.length = 4

def LqBytes.ofFour (a b c d : UInt8) : LqBytes := ⟨[a, b, c, d], by simp⟩

/-- The output buffer of an interface, with the counter of
`get_msg_seqno`. -/
structure Outif where
  maxsize : Nat
  pending : Nat
  messageSeqno : Nat
  messages : List (List UInt8)

def netOutbufferBytesLeft (outif : Outif) : Int := min 1228 ((outif.maxsize : Int) - outif.pending)

def netOutput (outif : Outif) : Outif := { outif with pending := 0 }

def netOutbufferPush (outif : Outif) (data : List UInt8) : Outif :=
  if outif.maxsize < outif.pending + data.length then
    outif
  else
    { outif with
      pending := outif.pending + data.length
      messages := outif.messages ++ [data] }

/-- `struct olsr_common`, with the validity time in its wire form. -/
structure OlsrCommon (ver : IpVersion) where
  type : UInt8
  vtime : UInt8
  orig : IpAddr ver
  ttl : UInt8
  hops : UInt8

def commonSize (ver : IpVersion) : Nat := 8 + ver.ipsize

def commonBytes {ver : IpVersion} (comm : OlsrCommon ver) (size seqno : Nat) : List UInt8 :=
  [comm.type, comm.vtime] ++ u16Bytes size ++ comm.orig.bytes ++
    [comm.ttl, comm.hops] ++ u16Bytes seqno

variable {ver : IpVersion}

theorem commonBytes_length (comm : OlsrCommon ver) (size seqno : Nat) :
    (commonBytes comm size seqno).length = commonSize ver := by
  simp [commonBytes, u16Bytes, comm.orig.length_eq, commonSize]
  omega

theorem carries_commonBytes {mem : Memory} {comm : OlsrCommon ver} {size seqno : Nat}
    {body : List UInt8} (carried : Carries mem 0 (commonBytes comm size seqno ++ body))
    (smallSize : size < 0x10000) :
    mem 0 = comm.type ∧ readU16 mem 2 = size ∧ Carries mem (commonSize ver) body := by
  obtain ⟨front, back⟩ := carries_append.mp carried
  rw [commonBytes_length, Nat.zero_add] at back
  simp only [commonBytes, append_assoc] at front
  obtain ⟨⟨type, -⟩, behindType⟩ := carries_append.mp front
  obtain ⟨sizeBytes, -⟩ := carries_append.mp behindType
  exact ⟨type, sizeBytes.readU16_eq smallSize, back⟩

def pushMessage {ver : IpVersion} (comm : OlsrCommon ver)
    (body : List UInt8) (outif : Outif) : Outif :=
  netOutbufferPush { outif with messageSeqno := (outif.messageSeqno + 1) % 0x10000 }
    (commonBytes comm (commonSize ver + body.length) outif.messageSeqno ++ body)

/-- A message of this common header and body, under some sequence number. -/
def IsMessage {ver : IpVersion} (comm : OlsrCommon ver) (body msg : List UInt8) : Prop :=
  commonSize ver + body.length ≤ 1228 ∧ ∃ seqno, msg =
        commonBytes comm (commonSize ver + body.length) seqno ++ body

private theorem pushMessage_of_fits (comm : OlsrCommon ver) {body : List UInt8} {outif : Outif}
    (fits : ((commonSize ver + body.length : Nat) : Int) ≤ netOutbufferBytesLeft outif) :
    (pushMessage comm body outif).messages = outif.messages ++
        [commonBytes comm (commonSize ver + body.length) outif.messageSeqno ++ body] := by
  rw [netOutbufferBytesLeft, le_min_iff] at fits
  have room : ¬ outif.maxsize < outif.pending + (commonSize ver + body.length) := by omega
  rw [pushMessage, netOutbufferPush, length_append, commonBytes_length, if_neg room]

/-- The messages that enter the buffer between two of its states, each within
what `net_outbuffer_bytes_left` allowed when it was built. -/
inductive Emits (start : Outif) : List (List UInt8) → Outif → Prop
  | start : Emits start [] start
  | flush {messages : List (List UInt8)} {outif : Outif} :
      Emits start messages outif → Emits start messages (netOutput outif)
  | push {messages : List (List UInt8)} {outif : Outif}
      {ver : IpVersion} (comm : OlsrCommon ver)
      (body : List UInt8) :
      Emits start messages outif →
      ((commonSize ver + body.length : Nat) : Int) ≤ netOutbufferBytesLeft outif →
      Emits start
        (messages ++
          [commonBytes comm (commonSize ver + body.length) outif.messageSeqno ++ body])
        (pushMessage comm body outif)

variable {messages : List (List UInt8)} {start outif : Outif}

theorem Emits.messages_eq
    (emits : Emits start messages outif) : outif.messages = start.messages ++ messages := by
  induction emits with
  | start => exact (append_nil _).symm
  | flush _ ih => exact ih
  | push comm body _ fits ih => rw [pushMessage_of_fits comm fits, ih, append_assoc]

@[simp]
theorem pushMessage_maxsize (comm : OlsrCommon ver) (body : List UInt8) (outif : Outif) :
    (pushMessage comm body outif).maxsize = outif.maxsize := by
  rw [pushMessage, netOutbufferPush]
  split <;> rfl

theorem Emits.maxsize_eq (emits : Emits start messages outif) : outif.maxsize = start.maxsize := by
  induction emits with
  | start => rfl
  | flush _ ih => exact ih
  | push comm body _ _ ih => rw [pushMessage_maxsize, ih]

end QosOlsr
