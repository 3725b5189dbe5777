import Mathlib.Tactic

/-!
# Protocol constants

Link types, neighbour types and the link code of `olsr_protocol.h`.  The link
code packs a neighbour type above two bits of link type; a received code may
carry one of the two neighbour types the protocol leaves unassigned.
-/

namespace QosOlsr

/-- `UNSPEC_LINK`, `ASYM_LINK`, `SYM_LINK`, `LOST_LINK` and `HIDE_LINK`. -/
inductive LinkType where
  | unspec
  | asym
  | sym
  | lost
  | hide
  deriving DecidableEq, Repr

namespace LinkType

/-- The numeric values given by `olsr_protocol.h`. -/
def code : LinkType → Nat
  | .unspec => 0
  | .asym => 1
  | .sym => 2
  | .lost => 3
  | .hide => 4

def ofBits (bits : Nat) : LinkType :=
  match bits % 4 with
  | 0 => .unspec
  | 1 => .asym
  | 2 => .sym
  | _ => .lost

def order : List LinkType := [.unspec, .lost, .asym, .sym]

end LinkType

/-- The neighbour types of a HELLO; `unassigned` covers the codes above
`MAX_NEIGH` that fit the three bits of a link code. -/
inductive NeighType where
  | notNeigh
  | symNeigh
  | mprNeigh
  | mprHead
  | nhead
  | twoHead
  | unassigned (value : Nat)
  deriving DecidableEq, Repr

namespace NeighType

/-- The numeric values given by `olsr_protocol.h`. -/
def code : NeighType → Nat
  | .notNeigh => 0
  | .symNeigh => 1
  | .mprNeigh => 2
  | .mprHead => 3
  | .nhead => 4
  | .twoHead => 5
  | .unassigned value => value

/-- The neighbour type that three bits of a received link code denote. -/
def ofBits (bits : Nat) : NeighType :=
  match bits % 8 with
  | 0 => .notNeigh
  | 1 => .symNeigh
  | 2 => .mprNeigh
  | 3 => .mprHead
  | 4 => .nhead
  | 5 => .twoHead
  | value => .unassigned value

/-- The neighbour types in the order in which `serialize_lq_hello` visits
them, `0` up to `MAX_NEIGH`. -/
def order : List NeighType := [.notNeigh, .symNeigh, .mprNeigh, .mprHead, .nhead, .twoHead]

end NeighType

/-- `NOT_SYM` and `SYM`, the status of an entry of the neighbour table. -/
inductive NeighStatus where
  | notSym
  | sym
  deriving DecidableEq, Repr

def createLinkCode (status : NeighType) (link : LinkType) : Nat := link.code ||| (status.code <<< 2)

def extractStatus (linkCode : Nat) : NeighType := NeighType.ofBits ((linkCode &&& 0x1E) >>> 2)

def extractLink (linkCode : Nat) : LinkType := LinkType.ofBits (linkCode &&& 0x3)

theorem extractLink_createLinkCode : ∀ status ∈ NeighType.order, ∀ link ∈ LinkType.order,
      extractLink (createLinkCode status link) = link := by
  decide

theorem extractStatus_createLinkCode : ∀ status ∈ NeighType.order, ∀ link ∈ LinkType.order,
      extractStatus (createLinkCode status link) = status := by
  decide

theorem createLinkCode_lt :
    ∀ status ∈ NeighType.order, ∀ link ∈ LinkType.order, createLinkCode status link < 256 := by
  decide

end QosOlsr
