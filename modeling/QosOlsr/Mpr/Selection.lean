import QosOlsr.LinkChoice
import QosOlsr.NeighborTable
import QosOlsr.Packet

/-!
# Selecting relays by link quality

`olsr_calculate_lq_mpr` of `lq_mpr.c`.  It writes three flags of the neighbours
and reads everything else, so what it reads is one record and the flags are
another.
-/

namespace QosOlsr.Mpr

open Function

universe u v

def willAlways : Nat := 7

structure Neighbor (Addr : Type u) where
  neighborMainAddr : Addr
  status : NeighStatus
  willingness : Nat
  isHead : Nat
  myHead : Bool

structure MprFlags where
  isMpr : Bool
  wasMpr : Bool
  skip : Bool
  deriving DecidableEq

/-- `struct neighbor_list_entry`: a neighbour through which there is a path. -/
structure NeighborListEntry (Ptr : Type v) where
  neighbor : Ptr
  pathLinkcost : Nat

structure Neighbor2Entry (Addr : Type u) (Ptr : Type v) where
  neighbor2Addr : Addr
  is2hop : Bool
  neighbor2Nblist : List (NeighborListEntry Ptr)

/-- The neighbour table and the two-hop table in the order of the loops.  A
neighbour is met once, and a two-hop neighbour points to neighbours of the
table. -/
structure Tables (Addr : Type u) (Ptr : Type v) where
  neighbortable : List Ptr
  nbr : Ptr → Neighbor Addr
  twoHopNeighbortable : List (Neighbor2Entry Addr Ptr)
  nodup : neighbortable.Nodup
  linked : ∀ neigh2 ∈ twoHopNeighbortable, ∀ walker ∈ neigh2.neighbor2Nblist,
      walker.neighbor ∈ neighbortable

/-- The configuration, and what `get_best_link_to_neighbor` reads. -/
structure Config (Addr : Type u) where
  isHead : Nat
  mprCoverage : Nat
  tcRedundancy : Nat
  lqLevel : Nat
  linkSet : List (LinkChoice.LinkEntry Addr)
  midLookupMainAddr : Addr → Option Addr

/-- The flags of all neighbours and `mpr_changes`. -/
structure State (Ptr : Type v) where
  flags : Ptr → MprFlags
  mprChanges : Bool

/-- The flags in the end, and whether `signal_link_changes(true)` was
called. -/
structure Outcome (Ptr : Type v) where
  flags : Ptr → MprFlags
  signalled : Bool

variable {Addr : Type u} {Ptr : Type v}

def Neighbor.IsAlways (neigh : Neighbor Addr) : Prop :=
  ¬(neigh.status = .notSym ∨ neigh.willingness ≠ willAlways)

instance (neigh : Neighbor Addr) : Decidable neigh.IsAlways := inferInstanceAs (Decidable (¬_))

def resetFlags (neigh : Neighbor Addr) (flags : MprFlags) : MprFlags where
  wasMpr := flags.isMpr
  isMpr :=
    if neigh.IsAlways then
      true
    else if neigh.isHead = 0 ∧ neigh.myHead = false then
      false
    else
      flags.isMpr
  skip := flags.skip

variable [DecidableEq Ptr]

def resetNeighbor (tables : Tables Addr Ptr) (st : State Ptr) (ptr : Ptr) : State Ptr :=
  let flags := resetFlags (tables.nbr ptr) (st.flags ptr)
  { flags := update st.flags ptr flags
    mprChanges := st.mprChanges ||
        decide ((tables.nbr ptr).IsAlways ∧ flags.isMpr ≠ flags.wasMpr) }

/-! ## One two-hop neighbour -/

/-- Set `is_mpr` and `skip` of a neighbour and compare with `was_mpr`. -/
def markMpr (st : State Ptr) (ptr : Ptr) : State Ptr where
  flags := update st.flags ptr { st.flags ptr with isMpr := true, skip := true }
  mprChanges := st.mprChanges || decide ((st.flags ptr).wasMpr ≠ true)

def clearSkip (walkers : List (NeighborListEntry Ptr)) (st : State Ptr) : State Ptr :=
  { st with
    flags := walkers.foldl
        (fun flags walker =>
          update flags walker.neighbor { flags walker.neighbor with skip := false })
        st.flags }

def betterWalker (nbr : Ptr → Neighbor Addr) (skip : Ptr → Bool) (best : Option Ptr × Nat)
    (walker : NeighborListEntry Ptr) : Option Ptr × Nat :=
  if (nbr walker.neighbor).status = .sym ∧ skip walker.neighbor = false ∧
      walker.pathLinkcost < best.2 then
    (some walker.neighbor, walker.pathLinkcost)
  else
    best

/-- The neighbour with the best path that is not yet selected, if that path is
better than the direct one. -/
def bestWalker (nbr : Ptr → Neighbor Addr) (skip : Ptr → Bool) (best1hop : Nat)
    (walkers : List (NeighborListEntry Ptr)) : Option Ptr :=
  let best := walkers.foldl (betterWalker nbr skip) (none, linkCostBroken)
  best.1.filter fun _ => best.2 < best1hop

/-- The loop over the requested coverage.  A two-hop neighbour with
`is_2hop` unset falls back to the first neighbour of its list; the list has
none when its head is followed, and there is no result. -/
def coverLoop (nbr : Ptr → Neighbor Addr) (neigh2 : Neighbor2Entry Addr Ptr)
    (best1hop : Nat) : Nat → State Ptr → Option (State Ptr)
  | 0, st => some st
  | k + 1, st =>
    match bestWalker nbr (fun ptr => (st.flags ptr).skip) best1hop neigh2.neighbor2Nblist with
    | some neigh => some (markMpr st neigh)
    | none =>
      if neigh2.is2hop = false then
        neigh2.neighbor2Nblist.head?.map fun walker =>
          markMpr st walker.neighbor
      else
        coverLoop nbr neigh2 best1hop k st

variable [DecidableEq Addr] (cfg : Config Addr) (tables : Tables Addr Ptr)

def olsrLookupNeighborTable (dst : Addr) : Option Ptr :=
  tables.neighbortable.find? fun ptr =>
    (tables.nbr ptr).neighborMainAddr = neighborKey cfg.midLookupMainAddr dst

variable (neigh2 : Neighbor2Entry Addr Ptr)

def asSymNeighbor : Option Ptr :=
  (olsrLookupNeighborTable cfg tables neigh2.neighbor2Addr).filter
    fun neigh => (tables.nbr neigh).status = .sym

def Config.bestLinkcost (addr : Addr) : Option Nat :=
  (LinkChoice.getBestLinkToNeighbor cfg.lqLevel cfg.midLookupMainAddr cfg.linkSet addr).map
    LinkChoice.LinkEntry.linkcost

/-- `best_1hop`, unless the two-hop neighbour is passed over: it is a symmetric
neighbour, and there is no link to it or no path better than the link. -/
def bestOneHop : Option Nat :=
  match asSymNeighbor cfg tables neigh2 with
  | none => some linkCostBroken
  | some neigh =>
    (cfg.bestLinkcost (tables.nbr neigh).neighborMainAddr).filter fun linkcost =>
        neigh2.neighbor2Nblist.any fun walker =>
          walker.pathLinkcost < linkcost

def coverTwoHop (st : State Ptr) (neigh2 : Neighbor2Entry Addr Ptr) : Option (State Ptr) :=
  match bestOneHop cfg tables neigh2 with
  | none => some st
  | some best1hop =>
    coverLoop tables.nbr neigh2 best1hop cfg.mprCoverage (clearSkip neigh2.neighbor2Nblist st)

def olsrCalculateLqMpr (flags : Ptr → MprFlags) : Option (Outcome Ptr) :=
  if cfg.isHead = 0 then
    some ⟨flags, false⟩
  else
    (tables.twoHopNeighbortable.foldlM (coverTwoHop cfg tables)
      (tables.neighbortable.foldl (resetNeighbor tables) ⟨flags, false⟩)).map fun st =>
      ⟨st.flags, st.mprChanges && decide (0 < cfg.tcRedundancy)⟩

end QosOlsr.Mpr
