import QosOlsr.DuplicateSet

/-!
# Forwarding and the hop limit

`olsr_forward_message`: the treatment of `ttl` and `hopcnt`, and the loop that
copies the buffer to the interfaces.
-/

namespace QosOlsr.Forwarding

open Library Option

universe u

inductive IfMode where
  | mesh
  | ether
  | silent
  deriving DecidableEq

/-- A message in the form of `struct olsrmsg`; `olsrMsgsize` is what its header
says of its length. -/
structure FloodMessage (Addr : Type u) where
  originator : Addr
  seqno : UInt16
  ttl : UInt8
  hopcnt : UInt8
  olsrMsgsize : UInt16
  body : List UInt8

/-- An interface with its output buffer: the bytes that wait in it, and the
messages that have entered it. -/
structure OutInterface (Addr : Type u) where
  mode : IfMode
  maxsize : Nat
  pending : Nat
  buffered : List (FloodMessage Addr)

/-- A node that receives a message: what the forwarding decision reads, the
duplicate set, the interfaces in the order of `ifnet`, and the position of the
incoming one. -/
structure ForwardNode (Addr : Type u) where
  context : ForwardContext Addr
  set : DuplicateSet Addr
  ifnet : List (OutInterface Addr)
  inIf : Nat

variable {Addr : Type u}

section

variable (m : FloodMessage Addr)

def isTtl1 : Bool := m.ttl < 2 ∨ 255 < m.hopcnt.toNat + m.ttl.toNat

def treatHeader : FloodMessage Addr :=
  if isTtl1 m then
    m
  else
    { m with hopcnt := m.hopcnt + 1, ttl := m.ttl - 1 }

variable (ifn : OutInterface Addr)

def OutInterface.fits : Bool := ifn.pending + m.olsrMsgsize.toNat ≤ ifn.maxsize

def netOutbufferPush : OutInterface Addr :=
  if ifn.fits m then
    { ifn with
      pending := ifn.pending + m.olsrMsgsize.toNat
      buffered := ifn.buffered ++ [m] }
  else
    ifn

def netOutput : OutInterface Addr := { ifn with pending := 0 }

/-- The body of the loop behind its `continue` tests. -/
def bufferMessage : OutInterface Addr :=
  if 0 < ifn.pending then
    if ifn.fits m then
      netOutbufferPush m ifn
    else
      netOutbufferPush m (netOutput ifn)
  else
    netOutbufferPush m ifn

end

def forwardTo (overdue : Bool) (inIf : Nat) (m : FloodMessage Addr) (position : Nat)
    (ifn : OutInterface Addr) : OutInterface Addr :=
  if ifn.mode = .silent then
    ifn
  else if position = inIf ∧ ifn.mode = .ether then
    ifn
  else if overdue ∧ ifn.mode ≠ .ether then
    ifn
  else
    bufferMessage m ifn

theorem buffered_netOutbufferPush (m : FloodMessage Addr) (ifn : OutInterface Addr) :
    (netOutbufferPush m ifn).buffered = ifn.buffered ∨
      (netOutbufferPush m ifn).buffered = ifn.buffered ++ [m] := by
  unfold netOutbufferPush
  split
  · exact .inr rfl
  · exact .inl rfl

private theorem buffered_bufferMessage (m : FloodMessage Addr) (ifn : OutInterface Addr) :
    (bufferMessage m ifn).buffered = ifn.buffered ∨
      (bufferMessage m ifn).buffered = ifn.buffered ++ [m] := by
  unfold bufferMessage
  split
  · split
    · exact buffered_netOutbufferPush m ifn
    · exact buffered_netOutbufferPush m (netOutput ifn)
  · exact buffered_netOutbufferPush m ifn

/-- Only a message that is not overdue enters the buffer of a non-ether
interface. -/
theorem buffered_forwardTo (overdue : Bool) (inIf : Nat) (m : FloodMessage Addr)
    (position : Nat) {ifn : OutInterface Addr} (notEther : ifn.mode ≠ .ether) :
    (forwardTo overdue inIf m position ifn).buffered = ifn.buffered ∨
      overdue = false ∧ (forwardTo overdue inIf m position ifn).buffered = ifn.buffered ++ [m] := by
  unfold forwardTo
  split
  · exact .inl rfl
  · split
    · exact .inl rfl
    · split
      · exact .inl rfl
      next admitted =>
        have fresh : overdue = false := by simpa [notEther] using admitted
        rcases buffered_bufferMessage m ifn with same | added
        · exact .inl same
        · exact .inr ⟨fresh, added⟩

theorem treatHeader_of_not_isTtl1 {m : FloodMessage Addr} (fresh : isTtl1 m = false) :
    2 ≤ m.ttl.toNat ∧ (treatHeader m).ttl.toNat + 1 = m.ttl.toNat ∧
      (treatHeader m).hopcnt.toNat = m.hopcnt.toNat + 1 := by
  have bounds : 2 ≤ m.ttl.toNat ∧ m.hopcnt.toNat + m.ttl.toNat ≤ 255 := by
    simpa [isTtl1, UInt8.lt_iff_toNat_lt, Nat.succ_le_iff] using fresh
  have one : (1 : UInt8).toNat = 1 := rfl
  have below : 1 ≤ m.ttl := by
    rw [UInt8.le_iff_toNat_le, one]
    omega
  refine ⟨bounds.1, ?_⟩
  rw [treatHeader, fresh]
  simp only [Bool.false_eq_true, if_false]
  rw [UInt8.toNat_sub_of_le _ _ below, UInt8.toNat_add, one]
  omega

variable [DecidableEq Addr]

/-- `olsr_forward_message`: the message in the buffer and the node it
leaves. -/
def olsrForwardMessage (m : FloodMessage Addr) (node : ForwardNode Addr) :
    FloodMessage Addr × ForwardNode Addr :=
  let decision := QosOlsr.olsrForwardMessage node.context m.originator m.seqno node.set
  if decision.1 then
    let treated := treatHeader m
    (treated,
      { node with
        set := decision.2
        ifnet := node.ifnet.mapIdx (forwardTo (isTtl1 m) node.inIf treated) })
  else
    (m, { node with set := decision.2 })

/-! ## Chains of nodes -/

/-- A node of a chain, with the position of the interface through which the
message goes on to the next one. -/
structure Hop (Addr : Type u) where
  node : ForwardNode Addr
  outIf : Nat

/-- The message the next node of the chain receives: the one that entered the
buffer of a non-ether interface, if any did. -/
def hopStep (m : FloodMessage Addr) (hop : Hop Addr) : Option (FloodMessage Addr) := do
  let before ← hop.node.ifnet[hop.outIf]?
  let after ← (olsrForwardMessage m hop.node).2.ifnet[hop.outIf]?
  if before.mode ≠ .ether ∧ before.buffered.length < after.buffered.length then
    after.buffered.getLast?
  else
    none

private theorem hopStep_eq_some {m next : FloodMessage Addr} {hop : Hop Addr}
    (sent : hopStep m hop = some next) : isTtl1 m = false ∧ next = treatHeader m := by
  simp only [hopStep, bind_eq_bind, bind_eq_some_iff] at sent
  obtain ⟨before, found, after, left, sent⟩ := sent
  split at sent
  next entered =>
    obtain ⟨notEther, grown⟩ := entered
    simp only [olsrForwardMessage] at left
    split at left
    · rw [List.getElem?_mapIdx, found] at left
      obtain rfl := some.inj left
      rcases buffered_forwardTo (isTtl1 m) hop.node.inIf (treatHeader m) hop.outIf notEther
        with same | ⟨fresh, added⟩
      · rw [same] at grown
        exact absurd grown (Nat.lt_irrefl _)
      · rw [added, List.getLast?_concat] at sent
        exact ⟨fresh, (some.inj sent).symm⟩
    · rw [found] at left
      obtain rfl := some.inj left
      exact absurd grown (Nat.lt_irrefl _)
  · cases sent

private theorem forwardMessage_header (m : FloodMessage Addr) (node : ForwardNode Addr) :
    (olsrForwardMessage m node).1.hopcnt.toNat + (olsrForwardMessage m node).1.ttl.toNat =
      m.hopcnt.toNat + m.ttl.toNat ∧ (olsrForwardMessage m node).1.ttl.toNat ≤ m.ttl.toNat := by
  simp only [olsrForwardMessage]
  split
  · cases overdue : isTtl1 m with
    | true => simp [treatHeader, overdue]
    | false =>
      have treated := treatHeader_of_not_isTtl1 overdue
      dsimp only
      omega
  · exact ⟨rfl, le_rfl⟩

/-- Along a chain of nodes that forward a message over non-ether interfaces each
hop moves one from `ttl` to `hopcnt` without a wrap, and there are fewer hops
than the first `ttl`.  The sum of the two numbers stays, also in the buffer of
the node that receives the message at the end. -/
theorem forwarding_hop_limit {m last : FloodMessage Addr} {hops : List (Hop Addr)}
    (forwarded : runEvents hopStep m hops = some last) :
    last.ttl.toNat + hops.length = m.ttl.toNat ∧ last.hopcnt.toNat = m.hopcnt.toNat + hops.length ∧
      hops.length ≤ m.ttl.toNat - 1 ∧
      last.hopcnt.toNat + last.ttl.toNat = m.hopcnt.toNat + m.ttl.toNat ∧
      ∀ node, (olsrForwardMessage last node).1.hopcnt.toNat +
            (olsrForwardMessage last node).1.ttl.toNat =
          m.hopcnt.toNat + m.ttl.toNat ∧
        (olsrForwardMessage last node).1.ttl.toNat ≤ last.ttl.toNat := by
  induction hops generalizing m with
  | nil =>
    obtain rfl := some.inj forwarded
    exact ⟨rfl, rfl, Nat.zero_le _, rfl, forwardMessage_header m⟩
  | cons hop rest ih =>
    obtain ⟨next, sent, continued⟩ := runEvents_cons_eq_some.mp forwarded
    obtain ⟨fresh, rfl⟩ := hopStep_eq_some sent
    have header := treatHeader_of_not_isTtl1 fresh
    obtain ⟨ttl, hopcnt, limit, sum, kept⟩ := ih continued
    rw [List.length_cons]
    refine ⟨by omega, by omega, by omega, by omega, fun node => ?_⟩
    have keptHere := kept node
    omega

def meshNode : ForwardNode Nat where
  context := headForwardContext
  set := DuplicateSet.init Nat
  ifnet := [⟨.mesh, 1500, 0, []⟩]
  inIf := 0

/-- Two such nodes bring a message of `ttl` 3 to its last one. -/
theorem forwarding_hop_limit_two_hops : runEvents hopStep (⟨7, 1, 3, 0, 100, []⟩ : FloodMessage Nat)
        [⟨meshNode, 0⟩, ⟨meshNode, 0⟩] = some ⟨7, 1, 1, 2, 100, []⟩ ∧
      (1 : UInt8).toNat + 2 = (3 : UInt8).toNat := by
  have forwarded : runEvents hopStep (⟨7, 1, 3, 0, 100, []⟩ : FloodMessage Nat)
        [⟨meshNode, 0⟩, ⟨meshNode, 0⟩] = some ⟨7, 1, 1, 2, 100, []⟩ := rfl
  exact ⟨forwarded, (forwarding_hop_limit forwarded).1⟩

end QosOlsr.Forwarding
