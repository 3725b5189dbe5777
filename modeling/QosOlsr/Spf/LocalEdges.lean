import QosOlsr.NeighborTable

/-!
# The edges to our neighbours

`olsr_calculate_routing_table` keeps the edge tree of `tc_myself` in step with
the neighbour table.  An edge is made under the main address of a neighbour, and
`olsr_delete_link_entry` looks it up under the address of the interface.  The
edge tree is the list of its keys, the destinations of the edges.
-/

namespace QosOlsr.LocalEdges

open List

universe u

/-- The fields of `struct neighbor_entry` that the loop and the deletion of a
link read. -/
structure Neighbor (Addr : Type u) where
  neighborMainAddr : Addr
  status : NeighStatus
  linkcount : Nat

structure Link (Addr : Type u) where
  neighborIfaceAddr : Addr
  neighbor : Addr

structure State (Addr : Type u) where
  edgeTree : List Addr
  neighbortable : List (Neighbor Addr)
  linkSet : List (Link Addr)

variable {Addr : Type u} [DecidableEq Addr]

/-- `olsr_delete_tc_edge_entry` on the edge that a lookup found, if any. -/
def deleteEdge (edgeTree : List Addr) (dst : Addr) : List Addr := edgeTree.filter (· ≠ dst)

section

variable (bestLink : Addr → Option LinkType)

/-- The best link to a neighbour is there and not lost; `bestLink` gives the
status of what `get_best_link_to_neighbor` returns. -/
def Usable (mainAddr : Addr) : Prop := ∃ status ∈ bestLink mainAddr, status ≠ .lost

instance (mainAddr : Addr) : Decidable (Usable bestLink mainAddr) :=
  inferInstanceAs (Decidable (∃ status ∈ bestLink mainAddr, status ≠ .lost))

def visitNeighbor (edgeTree : List Addr) (neigh : Neighbor Addr) : List Addr :=
  if neigh.status ≠ .sym then
    deleteEdge edgeTree neigh.neighborMainAddr
  else if ¬ Usable bestLink neigh.neighborMainAddr then
    deleteEdge edgeTree neigh.neighborMainAddr
  else if neigh.neighborMainAddr ∈ edgeTree then
    edgeTree
  else
    neigh.neighborMainAddr :: edgeTree

def neighborLoop (st : State Addr) : State Addr :=
  { st with edgeTree := st.neighbortable.foldl (visitNeighbor bestLink) st.edgeTree }

/-- The part of `olsr_delete_neighbor_table` that concerns the table. -/
def olsrDeleteNeighborTable (neighborAddr : Addr) (st : State Addr) : State Addr :=
  { st with
    neighbortable := st.neighbortable.eraseP fun entry => entry.neighborMainAddr = neighborAddr }

def olsrDeleteLinkEntry (position : Nat) (st : State Addr) : Option (State Addr) := do
  let link ← st.linkSet[position]?
  let entry ← st.neighbortable.find? fun entry => entry.neighborMainAddr = link.neighbor
  let st := { st with edgeTree := deleteEdge st.edgeTree link.neighborIfaceAddr }
  let st :=
    if entry.linkcount = 1 then
      olsrDeleteNeighborTable link.neighbor st
    else
      { st with
        neighbortable := st.neighbortable.map fun entry =>
          if entry.neighborMainAddr = link.neighbor then
            { entry with linkcount := entry.linkcount - 1 }
          else
            entry }
  return { st with linkSet := st.linkSet.eraseIdx position }

/-- Every edge leads to the main address of a symmetric neighbour in the table
whose best link is there and not lost. -/
def NoStaleEdges (st : State Addr) : Prop :=
  ∀ dst ∈ st.edgeTree, ∃ neigh ∈ st.neighbortable,
    neigh.neighborMainAddr = dst ∧ neigh.status = .sym ∧ Usable bestLink dst

end

variable {edgeTree : List Addr}

theorem mem_deleteEdge_iff {dst other : Addr} :
    other ∈ deleteEdge edgeTree dst ↔ other ∈ edgeTree ∧ other ≠ dst := by
  simp [deleteEdge]

variable {bestLink : Addr → Option LinkType} {dst : Addr} {neigh : Neighbor Addr}

theorem mem_visitNeighbor_of_ne (ne : dst ≠ neigh.neighborMainAddr) :
    dst ∈ visitNeighbor bestLink edgeTree neigh ↔ dst ∈ edgeTree := by
  unfold visitNeighbor
  split
  · simp [mem_deleteEdge_iff, ne]
  · split
    · simp [mem_deleteEdge_iff, ne]
    · split
      · exact Iff.rfl
      · simp [ne]

private theorem mem_visitNeighbor_self :
    neigh.neighborMainAddr ∈ visitNeighbor bestLink edgeTree neigh ↔
      neigh.status = .sym ∧ Usable bestLink neigh.neighborMainAddr := by
  unfold visitNeighbor
  split
  next notSym => simp [mem_deleteEdge_iff, notSym]
  next sym =>
    split
    next unusable => simp [mem_deleteEdge_iff, unusable]
    next usable =>
      have both : neigh.status = .sym ∧ Usable bestLink neigh.neighborMainAddr :=
        ⟨not_not.mp sym, not_not.mp usable⟩
      split
      next present => exact iff_of_true present both
      · exact iff_of_true mem_cons_self both

variable {neighbors : List (Neighbor Addr)}

/-- The loop leaves an edge alone that is not under a main address of the
table. -/
theorem mem_foldl_visitNeighbor_of_unlisted (bestLink : Addr → Option LinkType)
    (unlisted : dst ∉ neighbors.map Neighbor.neighborMainAddr) :
    dst ∈ neighbors.foldl (visitNeighbor bestLink) edgeTree ↔ dst ∈ edgeTree := by
  induction neighbors generalizing edgeTree with
  | nil => rfl
  | cons neigh rest ih =>
    rw [map_cons, mem_cons, not_or] at unlisted
    rw [foldl_cons, ih unlisted.2, mem_visitNeighbor_of_ne unlisted.1]

/-- About a main address of the table the last entry under it decides. -/
theorem exists_of_mem_foldl_visitNeighbor
    (bestLink : Addr → Option LinkType) (listed : dst ∈ neighbors.map Neighbor.neighborMainAddr)
    (present : dst ∈ neighbors.foldl (visitNeighbor bestLink) edgeTree) : ∃ neigh ∈ neighbors,
      neigh.neighborMainAddr = dst ∧ neigh.status = .sym ∧ Usable bestLink dst := by
  induction neighbors using List.reverseRecOn with
  | nil => cases listed
  | append_singleton front last ih =>
    rw [foldl_append, foldl_cons, foldl_nil] at present
    by_cases same : dst = last.neighborMainAddr
    · subst same
      have valid := mem_visitNeighbor_self.mp present
      exact ⟨last, mem_append_right _ mem_cons_self, rfl, valid⟩
    · rw [mem_visitNeighbor_of_ne same] at present
      have earlier : dst ∈ front.map Neighbor.neighborMainAddr := by simpa [same] using listed
      obtain ⟨neigh, mem, valid⟩ := ih earlier present
      exact ⟨neigh, mem_append_left _ mem, valid⟩

/-- The loop leaves no stale edge if and only if every edge it finds is under the
main address of a neighbour that is in the table. -/
theorem noStaleEdges_neighborLoop_iff (bestLink : Addr → Option LinkType) (st : State Addr) :
    NoStaleEdges bestLink (neighborLoop bestLink st) ↔
      ∀ dst ∈ st.edgeTree, dst ∈ st.neighbortable.map Neighbor.neighborMainAddr := by
  constructor
  · intro fresh dst present
    by_contra unlisted
    have stays := (mem_foldl_visitNeighbor_of_unlisted bestLink unlisted).mpr present
    obtain ⟨neigh, member, isDst, -⟩ := fresh dst stays
    exact unlisted (isDst ▸ mem_map_of_mem member)
  · intro known dst present
    by_cases listed : dst ∈ st.neighbortable.map Neighbor.neighborMainAddr
    · exact exists_of_mem_foldl_visitNeighbor bestLink listed present
    · have old := (mem_foldl_visitNeighbor_of_unlisted bestLink listed).mp present
      exact absurd (known dst old) listed

/-- A symmetric neighbour whose main address is 1 and whose interface has the
address 2, before its edge is made. -/
def oneNeighbor : State Nat := ⟨[], [⟨1, .sym, 1⟩], [⟨2, 1⟩]⟩

/-- The edge is made, the link and with it the neighbour is deleted, and the edge
is still there after the loop has run again. -/
theorem edge_stays_behind_deleted_link :
    ∃ st, olsrDeleteLinkEntry 0 (neighborLoop (fun _ => some .sym) oneNeighbor) = some st ∧
      st.neighbortable = [] ∧ (neighborLoop (fun _ => none) st).edgeTree = [1] ∧
      ¬ NoStaleEdges (fun _ => none) (neighborLoop (fun _ => none) st) := by
  refine ⟨_, rfl, rfl, rfl, fun fresh => ?_⟩
  obtain ⟨neigh, member, -⟩ := fresh 1 mem_cons_self
  cases member

end QosOlsr.LocalEdges
