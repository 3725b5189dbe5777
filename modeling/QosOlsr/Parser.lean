import QosOlsr.Packet

/-!
# Packet framing

`parse_packet` of `parser.c` cuts a received packet into messages and hands
each one to the parse functions and to `olsr_forward_message`.  The handlers
are parameters, and their calls are logged.  The count of remaining bytes is
unsigned, and wraps around for fewer than four received bytes.
-/

namespace QosOlsr

open Library List

universe u

/-- The receive buffer, addressed from the start of the packet, with the rest
of the node. -/
structure PacketState (Node : Type u) where
  memory : Memory
  node : Node

/-- `struct parse_function_entry`: a function gets the offset of its message
and answers whether the message may be forwarded. -/
structure ParseFunctionEntry (Node : Type u) where
  type : Nat
  function : PacketState Node → Nat → PacketState Node × Bool

/-- What `parse_packet` calls and reads besides the packet. -/
structure ParserEnv (Node : Type u) where
  ipVersion : IpVersion
  packetparserFunctions : List (PacketState Node → PacketState Node)
  useHysteresis : Bool
  updateHysteresisIncoming : PacketState Node → Nat → PacketState Node
  mainAddr : Node → List UInt8
  olsrValidateAddress : Node → List UInt8 → Bool
  olsrTestOriginatorCollision : Node → UInt8 → Nat → Node
  parseFunctions : Node → List (ParseFunctionEntry Node)
  olsrForwardMessage : PacketState Node → Nat → PacketState Node

inductive MessageHandler where
  | parseFunction
  | forwardMessage
  deriving DecidableEq

/-- One call that received the message of `msgsize` bytes at `offset`. -/
structure MessageCall where
  handler : MessageHandler
  offset : Nat
  msgsize : Nat
  deriving DecidableEq

def promiscuous : Nat := 0xffffffff

section Framing

variable {Node : Type u}

/-- The loop over the registered parse functions: the state, whether the
message may still be forwarded, and the calls made. -/
def runParseFunctions (m msgsize : Nat) : List (ParseFunctionEntry Node) → PacketState Node → Bool →
      PacketState Node × Bool × List MessageCall
  | [], st, forward => (st, forward, [])
  | entry :: rest, st, forward =>
    if entry.type = promiscuous ∨ entry.type = (st.memory m).toNat then
      let answered := entry.function st m
      let later := runParseFunctions m msgsize rest answered.1 (forward && answered.2)
      (later.1, later.2.1, ⟨.parseFunction, m, msgsize⟩ :: later.2.2)
    else
      runParseFunctions m msgsize rest st forward

section

variable (env : ParserEnv Node)

def handleMessage (m msgsize : Nat) (st : PacketState Node) : PacketState Node × List MessageCall :=
  let parsed := runParseFunctions m msgsize (env.parseFunctions st.node) st true
  if parsed.2.1 then
    (env.olsrForwardMessage parsed.1 m, parsed.2.2 ++ [⟨.forwardMessage, m, msgsize⟩])
  else
    (parsed.1, parsed.2.2)

def acceptsOriginator (m : Nat) (st : PacketState Node) : Bool :=
  let originator := readBytes st.memory (m + 4) env.ipVersion.ipsize
  originator ≠ env.mainAddr st.node ∧ env.olsrValidateAddress st.node originator

def skipMessage (m : Nat) (st : PacketState Node) : PacketState Node :=
  let originator := readBytes st.memory (m + 4) env.ipVersion.ipsize
  if env.olsrValidateAddress st.node originator then
    { st with
      node := env.olsrTestOriginatorCollision st.node (st.memory m)
          (readU16 st.memory (m + 6 + env.ipVersion.ipsize)) }
  else
    st

/-- The size checks of one iteration, with `count` bytes left at `m`. -/
def wellSized (m count : Nat) (st : PacketState Node) : Bool :=
  let msgsize := readU16 st.memory (m + 2)
  0 < count ∧ ¬ count < 8 + env.ipVersion.ipsize ∧ ¬ msgsize < 8 + env.ipVersion.ipsize ∧
    msgsize % 4 = 0 ∧ ¬ count < msgsize

end

variable {st : PacketState Node} {env : ParserEnv Node}

theorem wellSized_iff {m count : Nat} :
    wellSized env m count st ↔ 8 + env.ipVersion.ipsize ≤ readU16 st.memory (m + 2) ∧
      readU16 st.memory (m + 2) % 4 = 0 ∧ readU16 st.memory (m + 2) ≤ count := by
  simp only [wellSized, decide_eq_true_eq]
  omega

private theorem wellSized_shorter {m count : Nat} (sized : wellSized env m count st) :
    count - readU16 st.memory (m + 2) < count := by
  have bounds := wellSized_iff.mp sized
  omega

def parseMessages (env : ParserEnv Node) (m count : Nat) (st : PacketState Node) :
    PacketState Node × List MessageCall :=
  if sized : wellSized env m count st then
    have _ := wellSized_shorter sized
    let msgsize := readU16 st.memory (m + 2)
    if acceptsOriginator env m st then
      let handled := handleMessage env m msgsize st
      let rest := parseMessages env (m + msgsize) (count - msgsize) handled.1
      (rest.1, handled.2 ++ rest.2)
    else
      parseMessages env (m + msgsize) (count - msgsize) (skipMessage env m st)
  else
    (st, [])
termination_by count

/-- `size - 4` as the unsigned 32-bit number that `count` holds. -/
def packetCount (size : Nat) : Nat := (size + 0x100000000 - 4) % 0x100000000

/-- What happens between the checks of the packet and its first message: the
sequence number is put in host order, and the packet parsers and the
hysteresis see the packet. -/
def preparePacket (env : ParserEnv Node) (st : PacketState Node) : PacketState Node :=
  let swapped :=
    { st with
      memory := Function.update (Function.update st.memory 2 (st.memory 3)) 3 (st.memory 2) }
  let parsed := env.packetparserFunctions.foldl (fun seen parser => parser seen) swapped
  if env.useHysteresis then
    env.updateHysteresisIncoming parsed ((parsed.memory 2).toNat + (parsed.memory 3).toNat * 256)
  else
    parsed

def parsePacket (env : ParserEnv Node) (size : Nat) (st : PacketState Node) :
    PacketState Node × List MessageCall :=
  if packetCount size < 4 then
    (st, [])
  else if readU16 st.memory 0 ≠ size % 0x10000 then
    (st, [])
  else
    parseMessages env 4 (packetCount size) (preparePacket env st)

/-! ## Every call is inside the packet -/

/-- The message of the call lies between `first` and `limit` and has an
admissible size. -/
structure MessageCall.Framed (ipsize first limit : Nat) (call : MessageCall) : Prop where
  first_le : first ≤ call.offset
  minimum : 8 + ipsize ≤ call.msgsize
  aligned : call.msgsize % 4 = 0
  inside : call.offset + call.msgsize ≤ limit

variable {m msgsize : Nat}

theorem runParseFunctions_calls : ∀ {entries : List (ParseFunctionEntry Node)}
      {st : PacketState Node} {forward : Bool} {call : MessageCall},
      call ∈ (runParseFunctions m msgsize entries st forward).2.2 →
      call.offset = m ∧ call.msgsize = msgsize
  | [], st, forward, call, mem => by simp [runParseFunctions] at mem
  | entry :: rest, st, forward, call, mem => by
    rw [runParseFunctions] at mem
    split at mem
    · rcases mem_cons.mp mem with called | later
      · rw [called]
        exact ⟨rfl, rfl⟩
      · exact runParseFunctions_calls later
    · exact runParseFunctions_calls mem

theorem handleMessage_calls {call : MessageCall} (mem : call ∈ (handleMessage env m msgsize st).2) :
    call.offset = m ∧ call.msgsize = msgsize := by
  unfold handleMessage at mem
  dsimp only at mem
  split at mem
  · rcases mem_append.mp mem with parsed | forwarded
    · exact runParseFunctions_calls parsed
    · rw [mem_singleton.mp forwarded]
      exact ⟨rfl, rfl⟩
  · exact runParseFunctions_calls mem

/-- The loop stays within the bytes it counts, whatever the handlers do. -/
theorem parseMessages_framed (env : ParserEnv Node) (m count : Nat) (st : PacketState Node) :
    ∀ call ∈ (parseMessages env m count st).2, call.Framed env.ipVersion.ipsize m (m + count) := by
  fun_induction parseMessages env m count st with
  | case1 m count st sized shorter msgsize accepted handled rest ih =>
    obtain ⟨minimum, aligned, enough⟩ := wellSized_iff.mp sized
    intro call mem
    rcases mem_append.mp mem with here | later
    · obtain ⟨offset, size⟩ := handleMessage_calls here
      constructor <;> omega
    · have framed := ih call later
      obtain ⟨first, smallest, multiple, inside⟩ := framed
      constructor <;> omega
  | case2 m count st sized shorter msgsize rejected ih =>
    obtain ⟨minimum, aligned, enough⟩ := wellSized_iff.mp sized
    intro call mem
    obtain ⟨first, smallest, multiple, inside⟩ := ih call mem
    constructor <;> omega
  | case3 m count st unsized =>
    intro call mem
    exact absurd mem not_mem_nil

/-! ## Packets of fewer than four bytes -/

/-- From `m` on, a chain of well-sized messages leads to one whose originator
is accepted. -/
inductive ReachesMessage (env : ParserEnv Node) : Nat → Nat → PacketState Node → Prop where
  | here
      {m count : Nat} {st : PacketState Node}
      (sized : wellSized env m count st)
      (accepted : acceptsOriginator env m st) :
      ReachesMessage env m count st
  | later
      {m count : Nat} {st : PacketState Node}
      (sized : wellSized env m count st)
      (rejected : ¬ acceptsOriginator env m st)
      (reaches : ReachesMessage env (m + readU16 st.memory (m + 2))
          (count - readU16 st.memory (m + 2))
          (skipMessage env m st)) :
      ReachesMessage env m count st

theorem runParseFunctions_forward_or_called :
    ∀ {entries : List (ParseFunctionEntry Node)} {st : PacketState Node},
      (runParseFunctions m msgsize entries st true).2.1 = true ∨
        (runParseFunctions m msgsize entries st true).2.2 ≠ []
  | [], st => Or.inl rfl
  | entry :: rest, st => by
    rw [runParseFunctions]
    split
    · exact Or.inr (cons_ne_nil _ _)
    · exact runParseFunctions_forward_or_called

theorem handleMessage_calls_ne_nil (env : ParserEnv Node)
    (m msgsize : Nat) (st : PacketState Node) : (handleMessage env m msgsize st).2 ≠ [] := by
  unfold handleMessage
  dsimp only
  split
  · exact append_ne_nil_of_right_ne_nil _ (cons_ne_nil _ _)
  · rename_i stopped
    exact runParseFunctions_forward_or_called.resolve_left stopped

theorem parseMessages_calls_eq_nil_iff
    (env : ParserEnv Node) (m count : Nat) (st : PacketState Node) :
    (parseMessages env m count st).2 = [] ↔ ¬ ReachesMessage env m count st := by
  fun_induction parseMessages env m count st with
  | case1 m count st sized shorter msgsize accepted handled rest ih =>
    have called : handled.2 ≠ [] := handleMessage_calls_ne_nil env m msgsize st
    constructor
    · intro silent
      exact absurd (append_eq_nil_iff.mp silent).1 called
    · intro unreached
      exact absurd (.here sized accepted) unreached
  | case2 m count st sized shorter msgsize rejected ih =>
    rw [ih]
    apply not_congr
    constructor
    · exact .later sized rejected
    · intro reaches
      cases reaches with
      | here _ accepted => exact absurd accepted rejected
      | later _ _ reaches => exact reaches
  | case3 m count st unsized =>
    refine iff_of_true rfl ?_
    intro reaches
    cases reaches with
    | here sized => exact unsized sized
    | later sized => exact unsized sized

/-- Framing is safe exactly when a packet of fewer than four bytes does not
pass the length check with an acceptable message behind it in the buffer. -/
theorem parsePacket_framed_iff (env : ParserEnv Node) {size : Nat} (isInt : size < 0x80000000)
    (st : PacketState Node) :
    ((∀ call ∈ (parsePacket env size st).2, call.Framed env.ipVersion.ipsize 4 size) ∧
      (size < 4 → (parsePacket env size st).2 = [])) ↔
    ¬ (size < 4 ∧ readU16 st.memory 0 = size ∧
      ReachesMessage env 4 (packetCount size) (preparePacket env st)) := by
  by_cases short : size < 4
  · have wrapped : ¬ packetCount size < 4 := by
      unfold packetCount
      omega
    have truncated : size % 0x10000 = size := by omega
    have silent_iff : (parsePacket env size st).2 = [] ↔
          ¬ (readU16 st.memory 0 = size ∧
            ReachesMessage env 4 (packetCount size) (preparePacket env st)) := by
      unfold parsePacket
      rw [if_neg wrapped, truncated]
      split
      · rename_i differs
        exact iff_of_true rfl (fun both => differs both.1)
      · rename_i same
        rw [parseMessages_calls_eq_nil_iff]
        simp [not_not.mp same]
    constructor
    · rintro ⟨-, silent⟩ ⟨-, both⟩
      exact silent_iff.mp (silent short) both
    · intro unreached
      have silent := silent_iff.mpr fun both => unreached ⟨short, both⟩
      rw [silent]
      exact ⟨fun call member => absurd member not_mem_nil, fun _ => rfl⟩
  · have counted : 4 + packetCount size = size := by
      unfold packetCount
      omega
    refine iff_of_true ⟨?_, fun less => absurd less short⟩ (fun both => short both.1)
    intro call member
    unfold parsePacket at member
    split at member
    · exact absurd member not_mem_nil
    · split at member
      · exact absurd member not_mem_nil
      · rw [← counted]
        exact parseMessages_framed env 4 _ _ call member

end Framing

def quietParserEnv : ParserEnv Unit where
  ipVersion := .inet
  packetparserFunctions := []
  useHysteresis := false
  updateHysteresisIncoming := fun st _ => st
  mainAddr := fun _ => [10, 0, 0, 2]
  olsrValidateAddress := fun _ _ => true
  olsrTestOriginatorCollision := fun node _ _ => node
  parseFunctions := fun _ => []
  olsrForwardMessage := fun st _ => st

/-- Two received bytes that say length 2, in a buffer that still holds a
message of 10.0.0.1 from offset 4 on. -/
def staleBuffer : Memory := ofBytes [0, 2, 0, 1, 130, 5, 0, 12, 10, 0, 0, 1, 2, 0, 0, 7]

private theorem staleBuffer_wellSized :
    wellSized quietParserEnv 4 (packetCount 2)
      (preparePacket quietParserEnv ⟨staleBuffer, ()⟩) = true := by
  decide

private theorem staleBuffer_reachesMessage :
    ReachesMessage quietParserEnv 4 (packetCount 2)
      (preparePacket quietParserEnv ⟨staleBuffer, ()⟩) :=
  .here staleBuffer_wellSized (by decide)

def wholePacket : Memory := ofBytes [0, 16, 0, 1, 130, 5, 0, 12, 10, 0, 0, 1, 2, 0, 0, 7]

theorem parsePacket_framed_iff_sixteen :
    (∀ call ∈ (parsePacket quietParserEnv 16 ⟨wholePacket, ()⟩).2, call.Framed 4 4 16) ∧
      (16 < 4 → (parsePacket quietParserEnv 16 ⟨wholePacket, ()⟩).2 = []) :=
  (parsePacket_framed_iff quietParserEnv (by decide)
    ⟨wholePacket, ()⟩).mpr (fun both => absurd both.1 (by decide))

/-- Two bytes are enough to have the old contents of the buffer processed. -/
theorem parsePacket_reads_stale_buffer :
    ¬ ∀ (env : ParserEnv Unit) (size : Nat) (st : PacketState Unit), size < 0x80000000 →
        (∀ call ∈ (parsePacket env size st).2, call.Framed env.ipVersion.ipsize 4 size) ∧
        (size < 4 → (parsePacket env size st).2 = []) := by
  intro framed
  have silent := (framed quietParserEnv 2 ⟨staleBuffer, ()⟩ (by decide)).2 (by decide)
  unfold parsePacket at silent
  rw [if_neg (by decide), if_neg (by decide), parseMessages_calls_eq_nil_iff] at silent
  exact silent staleBuffer_reachesMessage

end QosOlsr
