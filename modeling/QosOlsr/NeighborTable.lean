import QosOlsr.Protocol

/-!
# Neighbour table entries

The fields of `struct neighbor_entry` that the modelled functions read.  The
table is a list in the order in which `OLSR_FOR_ALL_NBR_ENTRIES` visits it.
-/

namespace QosOlsr

universe u

structure NeighborEntry (Addr : Type u) where
  neighborMainAddr : Addr
  status : NeighStatus
  qos : Nat
  isHead : Nat
  myHead : Bool
  isMpr : Bool
  deriving DecidableEq

section Lookup

variable {Addr : Type u} [DecidableEq Addr] (midLookupMainAddr : Addr → Option Addr)

/-- The address `olsr_lookup_neighbor_table` searches for: the main address
the MID set knows for `dst`, and `dst` itself when it knows none. -/
def neighborKey (dst : Addr) : Addr := (midLookupMainAddr dst).getD dst

def olsrLookupNeighborTable
    (neighbors : List (NeighborEntry Addr)) (dst : Addr) : Option (NeighborEntry Addr) :=
  neighbors.find? fun entry =>
    entry.neighborMainAddr = neighborKey midLookupMainAddr dst

/-- Write to the entry a lookup returns: the first one under that key. -/
def updateNeighborEntry (key : Addr) (write : NeighborEntry Addr → NeighborEntry Addr) :
    List (NeighborEntry Addr) → List (NeighborEntry Addr)
  | [] => []
  | entry :: rest =>
    if entry.neighborMainAddr = key then
      write entry :: rest
    else
      entry :: updateNeighborEntry key write rest

end Lookup

end QosOlsr
