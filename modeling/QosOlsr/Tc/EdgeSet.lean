import QosOlsr.Packet

/-!
# The edges of one originator

The `edge_tree` of a `tc_entry`, as the list of its edges in tree order.  The
tree is keyed by the destination: `ip4cmp` compares IPv4 addresses as 32-bit
numbers in the byte order of the host, here little-endian.
-/

namespace QosOlsr

open Library

/-- The number whose digits to base 256 are the bytes, first byte highest. -/
def beValue (bytes : List UInt8) : Nat := bytes.foldl (fun value byte => value * 256 + byte.toNat) 0

/-- The number by which `avl_comp_default` orders an address. -/
def addrKey : {ver : IpVersion} → IpAddr ver → Nat
  | .inet, addr => beValue addr.bytes.reverse
  | .inet6, addr => beValue addr.bytes

/-- `struct tc_edge_entry`, without its cost and its pointers. -/
structure TcEdge (ver : IpVersion) where
  destAddr : IpAddr ver
  ansn : Nat
  linkquality : List UInt8
  deriving DecidableEq

def seqnoGreaterThan (s1 s2 : Nat) : Bool :=
  (s2 < s1 ∧ s1 - s2 ≤ 0x7fff) ∨ (s1 < s2 ∧ 0x7fff < s2 - s1)

section EdgeSet

variable {ver : IpVersion}

def olsrLookupTcEdge (edges : List (TcEdge ver)) (edgeAddr : IpAddr ver) : Option (TcEdge ver) :=
  edges.find? fun edge => edge.destAddr = edgeAddr

def insertTcEdge (edge : TcEdge ver) : List (TcEdge ver) → List (TcEdge ver)
  | [] => [edge]
  | other :: rest =>
    if addrKey edge.destAddr < addrKey other.destAddr then
      edge :: other :: rest
    else
      other :: insertTcEdge edge rest

def updateTcEdge (destAddr : IpAddr ver) (write : TcEdge ver → TcEdge ver)
    (edges : List (TcEdge ver)) : List (TcEdge ver) :=
  edges.map fun edge =>
    if edge.destAddr = destAddr then write edge else edge

/-- `olsr_delete_revoked_tc_edges`; `passedLowerBorder` is its local flag. -/
def olsrDeleteRevokedTcEdges (ansn : Nat) (lowerBorder upperBorder : IpAddr ver) :
    Bool → List (TcEdge ver) → List (TcEdge ver)
  | _, [] => []
  | passedLowerBorder, edge :: rest =>
    if passedLowerBorder = false ∧ addrKey edge.destAddr < addrKey lowerBorder then
      edge :: olsrDeleteRevokedTcEdges ansn lowerBorder upperBorder false rest
    else if addrKey upperBorder ≤ addrKey edge.destAddr then
      edge :: rest
    else if seqnoGreaterThan ansn edge.ansn then
      olsrDeleteRevokedTcEdges ansn lowerBorder upperBorder true rest
    else
      edge :: olsrDeleteRevokedTcEdges ansn lowerBorder upperBorder true rest

end EdgeSet

structure TcConfig (ver : IpVersion) where
  lqLevel : Nat
  lqHandler : LqHandler
  olsrValidateAddress : IpAddr ver → Bool

section Update

variable {ver : IpVersion}

/-- `olsr_tc_update_edge` once it has read the address. -/
def storeTcEdge (cfg : TcConfig ver) (mem : Memory) (ansn : Nat) (edges : List (TcEdge ver))
    (neighbor : IpAddr ver) : PacketReader (List (TcEdge ver)) :=
  match olsrLookupTcEdge edges neighbor with
  | none =>
    if cfg.olsrValidateAddress neighbor then do
      let linkquality ← deserializeLqPair mem cfg.lqHandler
      return insertTcEdge ⟨neighbor, ansn, linkquality⟩ edges
    else
      return edges
  | some _ =>
    if 0 < cfg.lqLevel then do
      let linkquality ← deserializeLqPair mem cfg.lqHandler
      return updateTcEdge neighbor
        (fun edge =>
          { edge with ansn := ansn, linkquality := linkquality })
        edges
    else
      return updateTcEdge neighbor (fun edge => { edge with ansn := ansn }) edges

/-- `olsr_tc_update_edge`: the address it read and the edges it leaves. -/
def olsrTcUpdateEdge (cfg : TcConfig ver) (mem : Memory) (ansn : Nat) (edges : List (TcEdge ver)) :
    PacketReader (IpAddr ver × List (TcEdge ver)) := do
  let neighbor ← pktGetIpaddress mem ver
  let stored ← storeTcEdge cfg mem ansn edges neighbor
  return (neighbor, stored)

/-- Whether the record of an address carries link quality as far as the
receiver is concerned. -/
def readsLqPair (cfg : TcConfig ver) (edges : List (TcEdge ver)) (neighbor : IpAddr ver) : Bool :=
  if (olsrLookupTcEdge edges neighbor).isSome then
    0 < cfg.lqLevel
  else
    cfg.olsrValidateAddress neighbor

variable (cfg : TcConfig ver) (mem : Memory) (ansn : Nat) (edges : List (TcEdge ver))

theorem storeTcEdge_cursor (neighbor : IpAddr ver) (curr : Cursor) :
    (storeTcEdge cfg mem ansn edges neighbor curr).2 =
      if readsLqPair cfg edges neighbor then
        (deserializeLqPair mem cfg.lqHandler curr).2
      else
        curr := by
  unfold storeTcEdge readsLqPair
  cases olsrLookupTcEdge edges neighbor with
  | none => cases cfg.olsrValidateAddress neighbor <;> rfl
  | some edge =>
    by_cases level : 0 < cfg.lqLevel
    · simp only [level]
      rfl
    · simp only [level]
      rfl

theorem olsrTcUpdateEdge_eq (curr : Cursor) : olsrTcUpdateEdge cfg mem ansn edges curr =
      let neighbor := (pktGetIpaddress mem ver curr).1
      let stored := storeTcEdge cfg mem ansn edges neighbor (curr.read ver.ipsize)
      ((neighbor, stored.1), stored.2) :=
  rfl

theorem olsrTcUpdateEdge_cursor (curr : Cursor) :
    (olsrTcUpdateEdge cfg mem ansn edges curr).2 =
      if readsLqPair cfg edges (pktGetIpaddress mem ver curr).1 then
        ⟨curr.pos + ver.ipsize + 4,
          max curr.reach (curr.pos + ver.ipsize + cfg.lqHandler.readLength)⟩
      else
        curr.read ver.ipsize := by
  have lqPair : (deserializeLqPair mem cfg.lqHandler (curr.read ver.ipsize)).2 =
        ⟨curr.pos + ver.ipsize + 4,
          max curr.reach (curr.pos + ver.ipsize + cfg.lqHandler.readLength)⟩ := by
    rw [deserializeLqPair_cursor, Cursor.mk.injEq]
    dsimp only [Cursor.read]
    omega
  rw [olsrTcUpdateEdge_eq]
  dsimp only
  rw [storeTcEdge_cursor, lqPair]

end Update

end QosOlsr
