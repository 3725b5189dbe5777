import QosOlsr.Library.Choice
import QosOlsr.Tc.Database

/-!
# The election of the best path

`olsr_rt_best` walks the paths of an entry in the order of their originators
and keeps the better of two paths at every step.  The comparison is a strict
order in which paths of different originators never tie, so the order of the
walk does not matter.
-/

namespace QosOlsr.Rib

open Library Lsdb List

structure RtMetric where
  cost : Nat
  hops : Nat

/-- The fields of `struct rt_path` that the comparison reads. -/
structure RtPath (ver : IpVersion) where
  originator : IpAddr ver
  metric : RtMetric

/-- `struct rt_entry`, without what it remembers of the kernel.  The path tree
is the list of its paths in tree order. -/
structure RtEntry (ver : IpVersion) where
  dst : IpNetwork ver
  best : Option Ptr
  pathTree : List Ptr

variable {ver : IpVersion}

/-- What `memcmp` compares: the bytes as numbers, of which the first that differ
decide. -/
def memcmpKey (adr : IpAddr ver) : List Nat := adr.bytes.map UInt8.toNat

section Config

-- the product of a cost with `olsr_cnf->lq_nat_thresh`
variable (scaledCost : Nat → Nat)

section

variable (paths : Ptr → RtPath ver) (inetgw : Option Ptr)

def olsrCmpRtp (rtp1 rtp2 : Ptr) : Bool :=
  let etx1 :=
    if inetgw = some rtp1 then
      scaledCost (paths rtp1).metric.cost
    else
      (paths rtp1).metric.cost
  let etx2 :=
    if inetgw = some rtp2 then
      scaledCost (paths rtp2).metric.cost
    else
      (paths rtp2).metric.cost
  if etx1 < etx2 then
    true
  else if etx2 < etx1 then
    false
  else if (paths rtp1).metric.hops < (paths rtp2).metric.hops then
    true
  else if (paths rtp2).metric.hops < (paths rtp1).metric.hops then
    false
  else
    memcmpKey (paths rtp1).originator < memcmpKey (paths rtp2).originator

/-- The walk of `olsr_rt_best` over a path tree; its assertion fails on an
empty one. -/
def electBest : List Ptr → Option Ptr
  | [] => none
  | first :: rest =>
    some <| rest.foldl
      (fun best rtp => if olsrCmpRtp scaledCost paths inetgw rtp best then rtp else best)
      first

/-- `olsr_rt_best`: the entry and `current_inetgw` that it leaves. -/
def olsrRtBest (rt : RtEntry ver) :
    Option (RtEntry ver × Option Ptr) := do
  let best ← electBest scaledCost paths inetgw rt.pathTree
  return ({ rt with best := some best }, if rt.dst.prefixLen = 0 then some best else inetgw)

end

variable (paths : Ptr → RtPath ver) (inetgw : Option Ptr)

/-- The cost by which a path is compared: that of the current gateway path is
scaled. -/
def effectiveCost (rtp : Ptr) : Nat :=
  if inetgw = some rtp then
    scaledCost (paths rtp).metric.cost
  else
    (paths rtp).metric.cost

/-- What a path is compared by: effective cost, hops and originator bytes, in
lexicographic order. -/
def electionKey (rtp : Ptr) : Nat ×ₗ Nat ×ₗ List Nat :=
  toLex (effectiveCost scaledCost paths inetgw rtp,
    toLex ((paths rtp).metric.hops, memcmpKey (paths rtp).originator))

/-- `best` comes before every other of the listed paths. -/
def Leads (tree : List Ptr) (best : Ptr) : Prop := best ∈ tree ∧ ∀ other ∈ tree, other ≠ best →
    electionKey scaledCost paths inetgw best < electionKey scaledCost paths inetgw other

theorem olsrCmpRtp_iff (rtp1 rtp2 : Ptr) : olsrCmpRtp scaledCost paths inetgw rtp1 rtp2 = true ↔
      electionKey scaledCost paths inetgw rtp1 < electionKey scaledCost paths inetgw rtp2 := by
  simp only [electionKey, Prod.Lex.toLex_lt_toLex, effectiveCost, olsrCmpRtp]
  grind

theorem electionKey_injective {rtp1 rtp2 : Ptr}
    (same : electionKey scaledCost paths inetgw rtp1 = electionKey scaledCost paths inetgw rtp2) :
    (paths rtp1).originator = (paths rtp2).originator := by
  have parts := (Prod.mk.inj (toLex.injective same)).2
  have sameKey := (Prod.mk.inj (toLex.injective parts)).2
  have sameBytes : (paths rtp1).originator.bytes = (paths rtp2).originator.bytes :=
    map_injective_iff.mpr (fun _ _ => UInt8.toNat_inj.mp) sameKey
  cases first : (paths rtp1).originator
  cases second : (paths rtp2).originator
  simpa [first, second] using sameBytes

variable {tree : List Ptr}

private theorem electBest_least {best : Ptr}
    (elected : electBest scaledCost paths inetgw tree = some best) : best ∈ tree ∧ ∀ other ∈ tree,
      electionKey scaledCost paths inetgw best ≤ electionKey scaledCost paths inetgw other := by
  cases tree with
  | nil => cases elected
  | cons first rest =>
    obtain rfl := Option.some.inj elected
    have steps : ∀ best rtp, (if olsrCmpRtp scaledCost paths inetgw rtp best then rtp else best) =
        if True ∧ electionKey scaledCost paths inetgw rtp < electionKey scaledCost paths inetgw best
        then rtp else best := by
      simp [← olsrCmpRtp_iff]
    rcases foldl_firstLeast steps (fun _ => rfl) rest first with
      ⟨stays, above⟩ | ⟨best, isBest, least, cheaper⟩
    · rw [stays]
      exact ⟨mem_cons_self, by simpa using above⟩
    · rw [isBest]
      refine ⟨mem_cons_of_mem _ least.mem, fun other member => ?_⟩
      rcases mem_cons.mp member with rfl | later
      · exact cheaper.le
      · exact least.least later trivial

theorem leads_unique {best other : Ptr} (leads : Leads scaledCost paths inetgw tree best)
    (otherLeads : Leads scaledCost paths inetgw tree other) : other = best := by
  by_contra ne
  have before := leads.2 other otherLeads.1 ne
  have behind := otherLeads.2 best leads.1 (Ne.symm ne)
  exact lt_asymm before behind

theorem electBest_leads (distinct : (tree.map fun rtp => (paths rtp).originator).Nodup)
    (nonempty : tree ≠ []) : ∃ best, electBest scaledCost paths inetgw tree = some best ∧
      Leads scaledCost paths inetgw tree best := by
  obtain ⟨best, elected⟩ : ∃ best, electBest scaledCost paths inetgw tree = some best := by
    cases tree with
    | nil => exact absurd rfl nonempty
    | cons first rest => exact ⟨_, rfl⟩
  obtain ⟨present, least⟩ := electBest_least scaledCost paths inetgw elected
  refine ⟨best, elected, present, ?_⟩
  intro other mem ne
  refine lt_of_le_of_ne (least other mem) ?_
  intro tie
  have sameOriginator := electionKey_injective scaledCost paths inetgw tie
  exact ne (inj_on_of_nodup_map distinct mem present sameOriginator.symm)

end Config

/-- One path leads, and it is elected in whatever order the paths came into the
tree; the comparison is a strict total order on paths of different
originators. -/
theorem olsrRtBest_order_independent (scaledCost : Nat → Nat) (paths : Ptr → RtPath ver)
    (inetgw : Option Ptr) (rt : RtEntry ver) (nonempty : rt.pathTree ≠ [])
    (distinct : (rt.pathTree.map fun rtp => (paths rtp).originator).Nodup) :
    (∃! best, Leads scaledCost paths inetgw rt.pathTree best) ∧
      (∀ best, Leads scaledCost paths inetgw rt.pathTree best → ∀ order, order.Perm rt.pathTree →
          olsrRtBest scaledCost paths inetgw { rt with pathTree := order } =
            some ({ rt with pathTree := order, best := some best },
              if rt.dst.prefixLen = 0 then some best else inetgw)) ∧
      (∀ rtp, olsrCmpRtp scaledCost paths inetgw rtp rtp = false) ∧
      (∀ rtp1 rtp2 rtp3, olsrCmpRtp scaledCost paths inetgw rtp1 rtp2 = true →
        olsrCmpRtp scaledCost paths inetgw rtp2 rtp3 = true →
        olsrCmpRtp scaledCost paths inetgw rtp1 rtp3 = true) ∧
      ∀ rtp1 rtp2, (paths rtp1).originator ≠ (paths rtp2).originator →
        olsrCmpRtp scaledCost paths inetgw rtp1 rtp2 = true ∨
          olsrCmpRtp scaledCost paths inetgw rtp2 rtp1 = true := by
  refine ⟨?_, ?_, ?_, ?_, ?_⟩
  · obtain ⟨best, -, leads⟩ := electBest_leads scaledCost paths inetgw distinct nonempty
    exact ⟨best, leads, fun other otherLeads =>
      leads_unique scaledCost paths inetgw leads otherLeads⟩
  · intro best leads order permuted
    have orderDistinct : (order.map fun rtp => (paths rtp).originator).Nodup :=
      (permuted.map _).nodup_iff.mpr distinct
    have orderNonempty : order ≠ [] := by
      intro empty
      rw [empty] at permuted
      exact nonempty permuted.nil_eq.symm
    obtain ⟨chosen, elected, chosenLeads⟩ :=
      electBest_leads scaledCost paths inetgw orderDistinct orderNonempty
    have same : chosen = best := by
      refine leads_unique scaledCost paths inetgw leads ⟨?_, ?_⟩
      · exact permuted.mem_iff.mp chosenLeads.1
      · exact fun other member => chosenLeads.2 other (permuted.mem_iff.mpr member)
    subst same
    rw [olsrRtBest, elected]
    rfl
  · intro rtp
    rw [← Bool.not_eq_true, olsrCmpRtp_iff]
    exact lt_irrefl _
  · intro rtp1 rtp2 rtp3 first second
    rw [olsrCmpRtp_iff] at first second ⊢
    exact first.trans second
  · intro rtp1 rtp2 different
    rw [olsrCmpRtp_iff, olsrCmpRtp_iff]
    apply lt_or_gt_of_ne
    intro tie
    exact different (electionKey_injective scaledCost paths inetgw tie)

/-- Path 1 costs 20; path 2, the current gateway path, costs 30, which is
halved. -/
theorem olsrRtBest_order_independent_two_paths :
    let paths : Ptr → RtPath .inet := fun rtp =>
      if rtp = 1 then ⟨⟨[10, 0, 0, 1], rfl⟩, ⟨20, 1⟩⟩ else ⟨⟨[10, 0, 0, 2], rfl⟩, ⟨30, 1⟩⟩
    let net : IpNetwork .inet := ⟨⟨[0, 0, 0, 0], rfl⟩, 0⟩
    ∃ best, Leads (· / 2) paths (some 2) [1, 2] best ∧ ∀ order, order.Perm [1, 2] →
        olsrRtBest (· / 2) paths (some 2) ⟨net, none, order⟩ =
          some (⟨net, some best, order⟩, some best) := by
  intro paths net
  obtain ⟨⟨best, leads, -⟩, elects, -⟩ :=
    olsrRtBest_order_independent (· / 2) paths (some 2) ⟨net, none, [1, 2]⟩ (by decide) (by decide)
  exact ⟨best, leads, elects best leads⟩

end QosOlsr.Rib
