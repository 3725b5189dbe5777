import QosOlsr.Library.ShortestPaths

/-!
# The candidate tree and the path list

`olsr_spf.c` runs the Dijkstra algorithm over the link-state database.  The
candidate tree is the list of its vertices in tree order; `avl_insert` places a
vertex behind those of equal cost.  Costs and hop counts wrap.
-/

namespace QosOlsr.Spf

open Library Function

universe u w

def linkCostBroken : UInt32 := (1 : UInt32) <<< 22

def routeCostBroken : UInt32 := 0xffffffff

def zeroRouteCost : UInt32 := 0

/-- A `tc_edge_entry`: the vertex `edge_inv->tc`, if the edge has an inverse,
and the cost. -/
structure SpfEdge (V : Type u) where
  inv : Option V
  cost : UInt32

abbrev EdgeTrees (V : Type u) := V → List (SpfEdge V)

/-- The fields of the vertices that the calculation writes, with the candidate
tree and the path list. -/
structure SpfState (V : Type u) (Link : Type w) where
  pathCost : V → UInt32
  nextHop : V → Option Link
  hops : V → UInt8
  candTree : List V
  pathList : List V

variable {V : Type u} {Link : Type w} [DecidableEq V]

def olsrSpfAddCandTree (pathCost : V → UInt32) (tree : List V) (tc : V) : List V :=
  tree.orderedInsert (fun left right => pathCost left < pathCost right) tc

def olsrSpfDelCandTree (tree : List V) (tc : V) : Option (List V) :=
  if tc ∈ tree then some (tree.erase tc) else none

/-- The candidate tree without a vertex that gets a better cost.  That the
vertex is on the tree is read off its cost. -/
def dropCandidate (st : SpfState V Link) (newTc : V) : Option (List V) :=
  if st.pathCost newTc < routeCostBroken then
    olsrSpfDelCandTree st.candTree newTc
  else
    some st.candTree

def improvePath (st : SpfState V Link) (tc newTc : V) (newCost : UInt32)
    (tree : List V) : SpfState V Link :=
  let pathCost := update st.pathCost newTc newCost
  { st with
    pathCost := pathCost
    candTree := olsrSpfAddCandTree pathCost tree newTc
    nextHop :=
      match st.nextHop tc with
      | some link => update st.nextHop newTc (some link)
      | none => st.nextHop
    hops := update st.hops newTc (st.hops tc + 1) }

def relaxEdge (tc : V) (st : SpfState V Link) (edge : SpfEdge V) : Option (SpfState V Link) :=
  match edge.inv with
  | none => some st
  | some newTc =>
    if linkCostBroken ≤ edge.cost then
      some st
    else if st.pathCost tc + edge.cost < st.pathCost newTc then
      (dropCandidate st newTc).map (improvePath st tc newTc (st.pathCost tc + edge.cost))
    else
      some st

def olsrSpfRelax (edgeTrees : EdgeTrees V) (st : SpfState V Link) (tc : V) :
    Option (SpfState V Link) :=
  (edgeTrees tc).foldlM (relaxEdge tc) st

/-- `olsr_spf_del_cand_tree` and `olsr_spf_add_path_list` behind the
relaxation of the best candidate. -/
def moveToPathList (st : SpfState V Link) (tc : V) : Option (SpfState V Link) :=
  (olsrSpfDelCandTree st.candTree tc).map fun tree =>
    { st with candTree := tree, pathList := st.pathList ++ [tc] }

/-- One round of the loop of `olsr_spf_run_full`, for the vertex that
`olsr_spf_extract_best` returned. -/
def spfRound (edgeTrees : EdgeTrees V) (st : SpfState V Link) (tc : V) : Option (SpfState V Link) :=
  (olsrSpfRelax edgeTrees st tc).bind (moveToPathList · tc)

/-- `olsr_spf_run_full`, with a bound on the number of rounds. -/
def olsrSpfRunFull (edgeTrees : EdgeTrees V) : Nat → SpfState V Link → Option (SpfState V Link)
  | 0, _ => none
  | fuel + 1, st =>
    match st.candTree with
    | [] => some st
    | tc :: _ => (spfRound edgeTrees st tc).bind (olsrSpfRunFull edgeTrees fuel)

/-- The vertices as `olsr_calculate_routing_table` hands them to the run: reset,
ourselves at cost zero on the candidate tree, and with the next hops that the
neighbour loop has set. -/
def spfStart (myself : V) (preset : V → Option Link) : SpfState V Link where
  pathCost := update (fun _ => routeCostBroken) myself zeroRouteCost
  nextHop := preset
  hops := fun _ => 0
  candTree := [myself]
  pathList := []

/-- The vertex an edge leads to, with its cost, when `olsr_spf_relax` does not
pass over the edge. -/
def SpfEdge.step? (edge : SpfEdge V) : Option (V × Nat) :=
  match edge.inv with
  | none => none
  | some newTc =>
    if linkCostBroken ≤ edge.cost then
      none
    else
      some (newTc, edge.cost.toNat)

/-- The edges with an inverse whose cost is below `LINK_COST_BROKEN`. -/
def usableSteps (edgeTrees : EdgeTrees V) (tc : V) : List (V × Nat) :=
  (edgeTrees tc).filterMap SpfEdge.step?

/-- No sum `tc->path_cost + tc_edge->cost` wraps around while the run relaxes
the edges of its best candidates. -/
def RunFits (edgeTrees : EdgeTrees V) : Nat → SpfState V Link → Prop
  | 0, _ => True
  | fuel + 1, st =>
    ∀ tc ∈ st.candTree.head?,
      (∀ step ∈ usableSteps edgeTrees tc, (st.pathCost tc).toNat + step.2 < 2 ^ 32) ∧
      ∀ next ∈ spfRound edgeTrees st tc, RunFits edgeTrees fuel next

end QosOlsr.Spf
