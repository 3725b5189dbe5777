import QosOlsr.Packet
import QosOlsr.Protocol

/-!
# The best link to a neighbour

`get_best_link_to_neighbor` of `link_set.c` walks over all links once and keeps
the best symmetric link and the best other link it has met.
-/

namespace QosOlsr.LinkChoice

open List Option

universe u

/-- What `get_best_link_to_neighbor` reads of a `link_entry`: the main address
of `neighbor`, what `lookup_link_status` returns, and the metric of the
interface, if the interface is found. -/
structure LinkEntry (Addr : Type u) where
  neighborMainAddr : Addr
  localIfaceAddr : Addr
  status : LinkType
  linkcost : Nat
  intMetric : Option Int
  deriving DecidableEq

def maxIfMetric : Int := 100

structure Choice (Addr : Type u) where
  currMetric : Int
  currLcost : Nat
  goodLink : Option (LinkEntry Addr)
  backupLink : Option (LinkEntry Addr)

variable {Addr : Type u}

def Choice.start : Choice Addr := ⟨maxIfMetric, linkCostBroken, none, none⟩

def Choice.place (choice : Choice Addr) (walker : LinkEntry Addr) : Choice Addr :=
  if walker.status = .sym then
    { choice with goodLink := some walker }
  else
    { choice with backupLink := some walker }

/-- `good_link ? good_link : backup_link`. -/
def Choice.result (choice : Choice Addr) : Option (LinkEntry Addr) :=
  choice.goodLink.or choice.backupLink

variable [DecidableEq Addr]

section

variable (remote : Addr)

def considerMetric (choice : Choice Addr) (walker : LinkEntry Addr) : Choice Addr :=
  match walker.intMetric with
  | none => choice
  | some metric =>
    if metric < choice.currMetric ∨ metric = choice.currMetric ∧ walker.localIfaceAddr = remote then
      { choice with currMetric := metric }.place walker
    else
      choice

/-- The link is better than anything before, or as good and from the requested
address. -/
def Accepts (currLcost : Nat) (walker : LinkEntry Addr) : Prop :=
  walker.linkcost < currLcost ∨ walker.linkcost = currLcost ∧ walker.localIfaceAddr = remote

instance (currLcost : Nat) (walker : LinkEntry Addr) :
    Decidable (Accepts remote currLcost walker) :=
  instDecidableOr

def considerCost (choice : Choice Addr) (walker : LinkEntry Addr) : Choice Addr :=
  if Accepts remote choice.currLcost walker then
    { choice with currLcost := walker.linkcost }.place walker
  else
    choice

def considerLink (lqLevel : Nat) (remote mainAddr : Addr) (choice : Choice Addr)
    (walker : LinkEntry Addr) : Choice Addr :=
  if walker.neighborMainAddr ≠ mainAddr then
    choice
  else if lqLevel = 0 then
    considerMetric remote choice walker
  else
    considerCost remote choice walker

def getBestLinkToNeighbor (lqLevel : Nat) (midLookupMainAddr : Addr → Option Addr)
    (links : List (LinkEntry Addr)) (remote : Addr) : Option (LinkEntry Addr) :=
  (links.foldl (considerLink lqLevel remote ((midLookupMainAddr remote).getD remote))
    Choice.start).result

def linksTo (midLookupMainAddr : Addr → Option Addr) (links : List (LinkEntry Addr))
    (remote : Addr) : List (LinkEntry Addr) :=
  links.filter fun link =>
    link.neighborMainAddr = (midLookupMainAddr remote).getD remote

theorem foldl_considerLink_eq {lqLevel : Nat} (lqUsed : 0 < lqLevel) (remote mainAddr : Addr)
    (links : List (LinkEntry Addr)) :
    ∀ choice, links.foldl (considerLink lqLevel remote mainAddr) choice =
        (links.filter fun link => link.neighborMainAddr = mainAddr).foldl
          (considerCost remote) choice := by
  induction links with
  | nil => exact fun _ => rfl
  | cons link rest ih =>
    intro choice
    rw [foldl_cons, ih]
    by_cases isTo : link.neighborMainAddr = mainAddr
    · have step : considerLink lqLevel remote mainAddr choice link =
            considerCost remote choice link := by
        unfold considerLink
        rw [if_neg (not_not.mpr isTo), if_neg (Nat.ne_of_gt lqUsed)]
      rw [filter_cons_of_pos (by simpa using isTo), foldl_cons, step]
    · have step : considerLink lqLevel remote mainAddr choice link = choice := if_pos isTo
      rw [filter_cons_of_neg (by simpa using isTo), step]

def scan (links : List (LinkEntry Addr)) : Choice Addr :=
  links.foldl (considerCost remote) Choice.start

end

theorem getBestLinkToNeighbor_eq {lqLevel : Nat} (lqUsed : 0 < lqLevel)
    (midLookupMainAddr : Addr → Option Addr) (links : List (LinkEntry Addr)) (remote : Addr) :
    getBestLinkToNeighbor lqLevel midLookupMainAddr links remote =
      (scan remote (linksTo midLookupMainAddr links remote)).result := by
  unfold getBestLinkToNeighbor scan linksTo
  rw [foldl_considerLink_eq lqUsed]

section Steps

variable {remote : Addr} {choice : Choice Addr} {walker : LinkEntry Addr}

omit [DecidableEq Addr] in
@[simp]
private theorem Choice.place_currLcost : (choice.place walker).currLcost = choice.currLcost := by
  unfold Choice.place
  split <;> rfl

theorem considerCost_currLcost :
    (considerCost remote choice walker).currLcost = min choice.currLcost walker.linkcost := by
  unfold considerCost
  by_cases accepted : Accepts remote choice.currLcost walker
  · rw [if_pos accepted, Choice.place_currLcost]
    unfold Accepts at accepted
    dsimp only
    omega
  · rw [if_neg accepted]
    unfold Accepts at accepted
    omega

theorem considerCost_goodLink : (considerCost remote choice walker).goodLink =
      if Accepts remote choice.currLcost walker ∧ walker.status = .sym then
        some walker
      else
        choice.goodLink := by
  unfold considerCost Choice.place
  by_cases accepted : Accepts remote choice.currLcost walker
  · by_cases isSym : walker.status = .sym
    · simp [accepted, isSym]
    · simp [accepted, isSym]
  · simp [accepted]

theorem considerCost_backupLink : (considerCost remote choice walker).backupLink =
      if Accepts remote choice.currLcost walker ∧ walker.status ≠ .sym then
        some walker
      else
        choice.backupLink := by
  unfold considerCost Choice.place
  by_cases accepted : Accepts remote choice.currLcost walker
  · by_cases isSym : walker.status = .sym
    · simp [accepted, isSym]
    · simp [accepted, isSym]
  · simp [accepted]

private theorem considerCost_of_not_accepts (refused : ¬Accepts remote choice.currLcost walker) :
    considerCost remote choice walker = choice :=
  if_neg refused

end Steps

variable {remote : Addr}

section

variable (links : List (LinkEntry Addr))

private theorem foldl_currLcost :
    ∀ choice : Choice Addr, (links.foldl (considerCost remote) choice).currLcost =
      (links.map LinkEntry.linkcost).foldl min choice.currLcost := by
  induction links with
  | nil => exact fun _ => rfl
  | cons link rest ih =>
    intro choice
    rw [foldl_cons, ih, considerCost_currLcost]
    rfl

theorem foldl_goodLink_mem : ∀ {choice : Choice Addr} {good : LinkEntry Addr},
      (links.foldl (considerCost remote) choice).goodLink = some good →
      good ∈ links ∧ good.status = .sym ∨ choice.goodLink = some good := by
  induction links with
  | nil => exact fun isGood => Or.inr isGood
  | cons link rest ih =>
    intro choice good isGood
    rcases ih isGood with ⟨inRest, isSym⟩ | earlier
    · exact Or.inl ⟨mem_cons_of_mem link inRest, isSym⟩
    · rw [considerCost_goodLink] at earlier
      split at earlier
      next accepted =>
        obtain rfl := some.inj earlier
        exact Or.inl ⟨mem_cons_self, accepted.2⟩
      · exact Or.inr earlier

private theorem foldl_goodLink_isSome : ∀ {choice : Choice Addr},
      choice.goodLink.isSome → (links.foldl (considerCost remote) choice).goodLink.isSome := by
  induction links with
  | nil => exact fun isGood => isGood
  | cons link rest ih =>
    intro choice isGood
    refine ih ?_
    rw [considerCost_goodLink]
    split
    · rfl
    · exact isGood

end

/-- No symmetric link of the list is accepted at this cost or below. -/
def RefusesSym (remote : Addr) (bound : Nat) (links : List (LinkEntry Addr)) : Prop :=
  ∀ link ∈ links, link.status = .sym → ∀ currLcost ≤ bound, ¬Accepts remote currLcost link

variable {rest : List (LinkEntry Addr)}

omit [DecidableEq Addr] in
theorem RefusesSym.tail {bound smaller : Nat} {link : LinkEntry Addr}
    (refuses : RefusesSym remote bound (link :: rest)) (le : smaller ≤ bound) :
    RefusesSym remote smaller rest := by
  intro other inRest isSym currLcost below
  exact refuses other (mem_cons_of_mem link inRest) isSym currLcost (below.trans le)

theorem considerCost_currLcost_le (remote : Addr) (choice : Choice Addr) (walker : LinkEntry Addr) :
    (considerCost remote choice walker).currLcost ≤ choice.currLcost := by
  rw [considerCost_currLcost]
  exact min_le_left _ _

theorem foldl_goodLink_of_refusesSym (links : List (LinkEntry Addr)) :
    ∀ {choice : Choice Addr}, RefusesSym remote choice.currLcost links →
      (links.foldl (considerCost remote) choice).goodLink = choice.goodLink := by
  induction links with
  | nil => exact fun _ => rfl
  | cons link rest ih =>
    intro choice refuses
    rw [foldl_cons, ih (refuses.tail (considerCost_currLcost_le _ _ _)),
      considerCost_goodLink, if_neg]
    rintro ⟨accepted, isSym⟩
    exact refuses link mem_cons_self isSym _ le_rfl accepted

/-- Where no symmetric link is accepted, the backup link has the least cost,
and there is one as soon as another link is accepted. -/
theorem foldl_backupLink_of_refusesSym (links : List (LinkEntry Addr)) : ∀ {choice : Choice Addr},
      RefusesSym remote choice.currLcost links →
      (∀ backup ∈ choice.backupLink, backup.status ≠ .sym ∧ backup.linkcost = choice.currLcost) →
      let final := links.foldl (considerCost remote) choice
      (∀ backup ∈ final.backupLink, backup.status ≠ .sym ∧ backup.linkcost = final.currLcost) ∧
        (final.backupLink.isSome ↔ choice.backupLink.isSome ∨
            ∃ link ∈ links, Accepts remote choice.currLcost link) := by
  induction links with
  | nil =>
    intro choice _ backups
    exact ⟨backups, by simp⟩
  | cons link rest ih =>
    intro choice refuses backups
    rw [foldl_cons]
    have restRefuses := refuses.tail (considerCost_currLcost_le remote choice link)
    by_cases accepted : Accepts remote choice.currLcost link
    · have notSym : link.status ≠ .sym := by
        intro isSym
        exact refuses link mem_cons_self isSym _ le_rfl accepted
      have isBackup : (considerCost remote choice link).backupLink = some link := by
        rw [considerCost_backupLink, if_pos ⟨accepted, notSym⟩]
      have isCost : link.linkcost = (considerCost remote choice link).currLcost := by
        rw [considerCost_currLcost]
        unfold Accepts at accepted
        omega
      obtain ⟨lasting, isSomeIff⟩ :=
        ih restRefuses (by
          intro backup isLink
          rw [isBackup] at isLink
          obtain rfl := some.inj isLink
          exact ⟨notSym, isCost⟩)
      refine ⟨lasting, isSomeIff.trans ?_⟩
      refine iff_of_true (Or.inl ?_) (Or.inr ⟨link, mem_cons_self, accepted⟩)
      rw [isBackup]
      rfl
    · rw [considerCost_of_not_accepts accepted] at restRefuses ⊢
      obtain ⟨lasting, isSomeIff⟩ := ih restRefuses backups
      refine ⟨lasting, isSomeIff.trans ?_⟩
      simp [accepted]

/-- The good link is symmetric and has the cost of the running minimum. -/
def HasGood (cost : Nat) (choice : Choice Addr) : Prop := choice.currLcost = cost ∧
    ∃ good ∈ choice.goodLink, good.status = .sym ∧ good.linkcost = cost

variable {choice : Choice Addr} {cost : Nat} {walker : LinkEntry Addr}

theorem HasGood.considerCost (hasGood : HasGood cost choice) (dearer : cost ≤ walker.linkcost) :
    HasGood cost (LinkChoice.considerCost remote choice walker) := by
  obtain ⟨isCost, good, isGood, goodSym, goodCost⟩ := hasGood
  constructor
  · rw [considerCost_currLcost, isCost]
    exact min_eq_left dearer
  · rw [considerCost_goodLink]
    split
    next accepted =>
      refine ⟨walker, rfl, accepted.2, ?_⟩
      obtain ⟨isAccepted, -⟩ := accepted
      unfold Accepts at isAccepted
      omega
    · exact ⟨good, isGood, goodSym, goodCost⟩

/-- A symmetric link that is accepted at the least cost of the list becomes
the good link. -/
theorem hasGood_of_accepts (above : cost ≤ choice.currLcost) (isCost : walker.linkcost = cost)
    (isSym : walker.status = .sym) (accepted : Accepts remote choice.currLcost walker) :
    HasGood cost (LinkChoice.considerCost remote choice walker) := by
  constructor
  · rw [considerCost_currLcost]
    omega
  · rw [considerCost_goodLink, if_pos ⟨accepted, isSym⟩]
    exact ⟨walker, rfl, isSym, isCost⟩

section

variable (links : List (LinkEntry Addr))

/-- A symmetric link of least cost wins in any order, if no other link is as
cheap or if it has the requested address. -/
theorem foldl_hasGood : ∀ {choice : Choice Addr},
      cost ≤ choice.currLcost →
      (∀ link ∈ links, cost ≤ link.linkcost) →
      HasGood cost choice ∨
        (∃ best ∈ links, best.status = .sym ∧ best.linkcost = cost ∧
          (best.localIfaceAddr = remote ∨
            cost < choice.currLcost ∧ ∀ link ∈ links, link.linkcost = cost → link.status = .sym)) →
      HasGood cost (links.foldl (considerCost remote) choice) := by
  induction links with
  | nil =>
    rintro choice _ _ (hasGood | ⟨best, isMem, -⟩)
    · exact hasGood
    · cases isMem
  | cons link rest ih =>
    intro choice above dearer wins
    have linkDearer := dearer link mem_cons_self
    have restDearer : ∀ other ∈ rest, cost ≤ other.linkcost :=
      fun other inRest => dearer other (mem_cons_of_mem link inRest)
    have stillAbove : cost ≤ (considerCost remote choice link).currLcost := by
      rw [considerCost_currLcost]
      exact le_min above linkDearer
    refine ih stillAbove restDearer ?_
    rcases wins with hasGood | ⟨best, isMem, isSym, isCost, insists⟩
    · exact Or.inl (hasGood.considerCost linkDearer)
    rcases mem_cons.mp isMem with rfl | inRest
    · refine Or.inl (hasGood_of_accepts above isCost isSym ?_)
      rcases insists with requested | ⟨strict, -⟩
      · rcases Nat.lt_or_eq_of_le above with less | equal
        · exact Or.inl (by omega)
        · exact Or.inr ⟨by omega, requested⟩
      · exact Or.inl (by omega)
    · rcases insists with requested | ⟨strict, onlySym⟩
      · exact Or.inr ⟨best, inRest, isSym, isCost, Or.inl requested⟩
      · by_cases linkCost : link.linkcost = cost
        · have linkSym := onlySym link mem_cons_self linkCost
          exact Or.inl (hasGood_of_accepts above linkCost linkSym (Or.inl (by omega)))
        · refine Or.inr
              ⟨best, inRest, isSym, isCost, Or.inr
                  ⟨?_, fun other inRest' => onlySym other (mem_cons_of_mem link inRest')⟩⟩
          rw [considerCost_currLcost]
          omega

def LinkEntry.view (link : LinkEntry Addr) : Bool × Nat := (link.status = .sym, link.linkcost)

/-- With a usable symmetric link the result is one of least cost, and in any
order of the links the result has the same status and cost. -/
structure ChoosesBest (lqLevel : Nat) (midLookupMainAddr : Addr → Option Addr)
    (links : List (LinkEntry Addr)) (remote : Addr) : Prop where
  best :
    (∃ link ∈ linksTo midLookupMainAddr links remote,
      link.status = .sym ∧ link.linkcost < linkCostBroken) →
    ∃ best, getBestLinkToNeighbor lqLevel midLookupMainAddr links remote = some best ∧
      best ∈ linksTo midLookupMainAddr links remote ∧
      best.status = .sym ∧ best.linkcost < linkCostBroken ∧
      ∀ other ∈ linksTo midLookupMainAddr links remote,
        other.status = .sym → best.linkcost ≤ other.linkcost
  order : ∀ reordered, reordered.Perm links →
      (getBestLinkToNeighbor lqLevel midLookupMainAddr reordered remote).map LinkEntry.view =
        (getBestLinkToNeighbor lqLevel midLookupMainAddr links remote).map LinkEntry.view

/-- A usable symmetric link than which no symmetric link is cheaper. -/
structure Cheapest (best : LinkEntry Addr) : Prop where
  mem : best ∈ links
  sym : best.status = .sym
  usable : best.linkcost < linkCostBroken
  least : ∀ other ∈ links, other.status = .sym → best.linkcost ≤ other.linkcost

/-- No other link is as cheap as the cheapest symmetric one, except where a
cheapest symmetric link has the requested address as its local address.
Without a usable symmetric link, a broken one with that address does not meet
a usable link that is not symmetric. -/
structure SymLinksCheapest (remote : Addr) : Prop where
  cheapest : ∀ best, Cheapest links best → ∀ other ∈ links, other.status ≠ .sym →
        best.linkcost < other.linkcost ∨ best.linkcost = other.linkcost ∧
            ∃ tied, Cheapest links tied ∧ tied.localIfaceAddr = remote
  broken : (∀ link ∈ links, link.status = .sym → linkCostBroken ≤ link.linkcost) →
    (∃ link ∈ links,
      link.status = .sym ∧ link.linkcost = linkCostBroken ∧ link.localIfaceAddr = remote) →
    ∀ other ∈ links, other.status ≠ .sym → linkCostBroken ≤ other.linkcost

end

variable {links : List (LinkEntry Addr)}

omit [DecidableEq Addr] in
theorem exists_cheapest
    (hasUsable : ∃ link ∈ links, link.status = .sym ∧ link.linkcost < linkCostBroken) :
    ∃ best, Cheapest links best := by
  obtain ⟨link, isMem, isSym, usable⟩ := hasUsable
  obtain ⟨best, ⟨bestMem, bestSym⟩, least⟩ :=
    (measure (LinkEntry.linkcost : LinkEntry Addr → Nat)).wf.has_min
      {link | link ∈ links ∧ link.status = .sym} ⟨link, isMem, isSym⟩
  have bestLeast : ∀ other ∈ links, other.status = .sym → best.linkcost ≤ other.linkcost :=
    fun other otherMem otherSym => Nat.le_of_not_lt (least other ⟨otherMem, otherSym⟩)
  exact ⟨best, bestMem, bestSym, (bestLeast link isMem isSym).trans_lt usable, bestLeast⟩

omit [DecidableEq Addr] in
private theorem Cheapest.cost_eq {best tied : LinkEntry Addr} (bestCheapest : Cheapest links best)
    (tiedCheapest : Cheapest links tied) : best.linkcost = tied.linkcost :=
  Nat.le_antisymm (bestCheapest.least tied tiedCheapest.mem tiedCheapest.sym)
    (tiedCheapest.least best bestCheapest.mem bestCheapest.sym)

variable {reordered : List (LinkEntry Addr)} {best : LinkEntry Addr}

omit [DecidableEq Addr] in
theorem Cheapest.perm
    (cheapest : Cheapest links best) (perm : reordered.Perm links) : Cheapest reordered best where
  mem := perm.mem_iff.mpr cheapest.mem
  sym := cheapest.sym
  usable := cheapest.usable
  least other otherMem := cheapest.least other (perm.mem_iff.mp otherMem)

omit [DecidableEq Addr] in
theorem SymLinksCheapest.perm (condition : SymLinksCheapest links remote)
    (perm : reordered.Perm links) : SymLinksCheapest reordered remote := by
  constructor
  case cheapest =>
    intro best isCheapest other otherMem notSym
    rcases condition.cheapest best (isCheapest.perm perm.symm) other
      (perm.mem_iff.mp otherMem) notSym with less | ⟨equal, tied, tiedCheapest, requested⟩
    · exact Or.inl less
    · exact Or.inr ⟨equal, tied, tiedCheapest.perm perm, requested⟩
  case broken =>
    simp only [perm.mem_iff]
    exact condition.broken

/-- With a cheapest symmetric link the walk ends with a good link of its
cost. -/
theorem SymLinksCheapest.scan_hasGood (condition : SymLinksCheapest links remote)
    (isCheapest : Cheapest links best) : HasGood best.linkcost (scan remote links) := by
  have dearer : ∀ link ∈ links, best.linkcost ≤ link.linkcost := by
    intro link isMem
    by_cases isSym : link.status = .sym
    · exact isCheapest.least link isMem isSym
    · rcases condition.cheapest best isCheapest link isMem isSym with less | ⟨equal, -⟩
      · exact less.le
      · exact equal.le
  refine foldl_hasGood links isCheapest.usable.le dearer (Or.inr ?_)
  by_cases hasTie : ∃ tied, Cheapest links tied ∧ tied.localIfaceAddr = remote
  · obtain ⟨tied, tiedCheapest, requested⟩ := hasTie
    exact ⟨tied, tiedCheapest.mem, tiedCheapest.sym,
        (isCheapest.cost_eq tiedCheapest).symm, Or.inl requested⟩
  · refine ⟨best, isCheapest.mem, isCheapest.sym, rfl, Or.inr ⟨isCheapest.usable, ?_⟩⟩
    intro link isMem isCost
    by_contra notSym
    rcases condition.cheapest best isCheapest link isMem notSym with less | ⟨-, tie⟩
    · omega
    · exact hasTie tie

omit [DecidableEq Addr] in
theorem HasGood.result_view (hasGood : HasGood cost choice) :
    choice.result.map LinkEntry.view = some (true, cost) := by
  obtain ⟨-, good, isGood, isSym, isCost⟩ := hasGood
  unfold Choice.result
  rw [mem_def.mp isGood, some_or, map_some, LinkEntry.view, isCost]
  simp [isSym]

private theorem foldl_backupLink_notSym
    (links : List (LinkEntry Addr)) : ∀ {choice : Choice Addr} {backup : LinkEntry Addr},
      (links.foldl (considerCost remote) choice).backupLink = some backup →
      backup.status ≠ .sym ∨ choice.backupLink = some backup := by
  induction links with
  | nil => exact fun isBackup => Or.inr isBackup
  | cons link rest ih =>
    intro choice backup isBackup
    rcases ih isBackup with notSym | earlier
    · exact Or.inl notSym
    · rw [considerCost_backupLink] at earlier
      split at earlier
      next accepted =>
        obtain rfl := some.inj earlier
        exact Or.inl accepted.2
      · exact Or.inr earlier

/-- The walk over links of which no symmetric one can be accepted. -/
theorem scan_view_of_refusesSym (refuses : RefusesSym remote linkCostBroken links) :
    (scan remote links).result.map LinkEntry.view =
      if ∃ link ∈ links, Accepts remote linkCostBroken link then
        some (false, (links.map LinkEntry.linkcost).foldl min linkCostBroken)
      else
        none := by
  have startRefuses : RefusesSym remote (Choice.start : Choice Addr).currLcost links := refuses
  have noGood : (scan remote links).goodLink = none :=
    foldl_goodLink_of_refusesSym links startRefuses
  have lcost :
      (scan remote links).currLcost = (links.map LinkEntry.linkcost).foldl min linkCostBroken :=
    foldl_currLcost links Choice.start
  obtain ⟨backups, isSomeIff⟩ :=
    foldl_backupLink_of_refusesSym links startRefuses (by simp [Choice.start])
  unfold Choice.result
  rw [noGood, none_or]
  split
  next hasLink =>
    obtain ⟨backup, isBackup⟩ := isSome_iff_exists.mp (isSomeIff.mpr (Or.inr hasLink))
    obtain ⟨notSym, isCost⟩ := backups backup isBackup
    have scanned : (scan remote links).backupLink = some backup := isBackup
    rw [scanned, map_some, LinkEntry.view, ← lcost]
    simp only [notSym, decide_false]
    exact congrArg (fun cost => some (false, cost)) isCost
  next noLink =>
    have noBackup : (scan remote links).backupLink = none := by
      rw [← not_isSome_iff_eq_none]
      intro isSome
      rcases isSomeIff.mp isSome with no | hasLink
      · cases no
      · exact noLink hasLink
    rw [noBackup]
    rfl

/-- Without a usable symmetric link the result is the same in any order. -/
theorem SymLinksCheapest.scan_view_perm (condition : SymLinksCheapest links remote)
    (perm : reordered.Perm links) : (scan remote reordered).result.map LinkEntry.view =
      (scan remote links).result.map LinkEntry.view := by
  by_cases hasUsable : ∃ link ∈ links, link.status = .sym ∧ link.linkcost < linkCostBroken
  · obtain ⟨best, isCheapest⟩ := exists_cheapest hasUsable
    rw [(condition.scan_hasGood isCheapest).result_view,
      ((condition.perm perm).scan_hasGood (isCheapest.perm perm)).result_view]
  have allBroken : ∀ link ∈ links, link.status = .sym → linkCostBroken ≤ link.linkcost := by
    intro link isMem isSym
    by_contra usable
    exact hasUsable ⟨link, isMem, isSym, Nat.lt_of_not_le usable⟩
  by_cases hasRequested : ∃ link ∈ links,
        link.status = .sym ∧ link.linkcost = linkCostBroken ∧ link.localIfaceAddr = remote
  · have wins : ∀ {order : List (LinkEntry Addr)}, order.Perm links →
          HasGood linkCostBroken (scan remote order) := by
      intro order orderPerm
      obtain ⟨link, isMem, isSym, isCost, requested⟩ := hasRequested
      refine foldl_hasGood order le_rfl ?_
          (Or.inr ⟨link, orderPerm.mem_iff.mpr isMem, isSym, isCost, Or.inl requested⟩)
      intro other otherMem
      have otherMem := orderPerm.mem_iff.mp otherMem
      by_cases otherSym : other.status = .sym
      · exact allBroken other otherMem otherSym
      · exact
          condition.broken allBroken ⟨link, isMem, isSym, isCost, requested⟩ other otherMem otherSym
    rw [(wins perm).result_view, (wins (List.Perm.refl links)).result_view]
  · have refuses : RefusesSym remote linkCostBroken links := by
      intro link isMem isSym currLcost below
      have costGe := allBroken link isMem isSym
      rintro (less | ⟨equal, requested⟩)
      · omega
      · exact hasRequested ⟨link, isMem, isSym, by omega, requested⟩
    have reorderedRefuses : RefusesSym remote linkCostBroken reordered :=
      fun link isMem => refuses link (perm.mem_iff.mp isMem)
    rw [scan_view_of_refusesSym refuses, scan_view_of_refusesSym reorderedRefuses]
    have sameCost : (reordered.map LinkEntry.linkcost).foldl min linkCostBroken =
          (links.map LinkEntry.linkcost).foldl min linkCostBroken :=
      (perm.map LinkEntry.linkcost).foldl_eq _
    simp only [perm.mem_iff, sameCost]

/-- A link that is not symmetric and comes first hides the symmetric links that
are not accepted after it. -/
theorem scan_view_fst_of_notSym_first {first : LinkEntry Addr} (notSym : first.status ≠ .sym)
    (usable : first.linkcost < linkCostBroken) (refuses : RefusesSym remote first.linkcost rest)
    (cost : Nat) : (scan remote (first :: rest)).result.map LinkEntry.view ≠ some (true, cost) := by
  have lcost : (considerCost remote Choice.start first).currLcost = first.linkcost := by
    rw [considerCost_currLcost]
    exact min_eq_right usable.le
  have noGood : (scan remote (first :: rest)).goodLink = none := by
    unfold scan
    rw [foldl_cons, foldl_goodLink_of_refusesSym rest (lcost ▸ refuses),
      considerCost_goodLink, if_neg (fun accepted => notSym accepted.2)]
    rfl
  unfold Choice.result
  rw [noGood, none_or]
  intro isSymView
  obtain ⟨backup, isBackup, viewEq⟩ := map_eq_some_iff.mp isSymView
  have backupNotSym : backup.status ≠ .sym := by
    rcases foldl_backupLink_notSym (first :: rest) isBackup with backupNotSym | no
    · exact backupNotSym
    · cases no
  have isSym := congrArg Prod.fst viewEq
  simp only [LinkEntry.view, decide_eq_true_eq] at isSym
  exact backupNotSym isSym

theorem linksTo_cons_erase {midLookupMainAddr : Addr → Option Addr}
    {first : LinkEntry Addr} (isMem : first ∈ linksTo midLookupMainAddr links remote) :
    (first :: links.erase first).Perm links ∧
      ∃ rest, linksTo midLookupMainAddr (first :: links.erase first) remote = first :: rest ∧
      ∀ link ∈ rest, link ∈ linksTo midLookupMainAddr links remote := by
  obtain ⟨inLinks, isTo⟩ := mem_filter.mp isMem
  refine ⟨(perm_cons_erase inLinks).symm, _, filter_cons_of_pos isTo, ?_⟩
  intro link inRest
  obtain ⟨inErased, linkTo⟩ := mem_filter.mp inRest
  exact mem_filter.mpr ⟨mem_of_mem_erase inErased, linkTo⟩

/-- With link quality in use, the best link is chosen in any order exactly when
no other link is in the way of the cheapest symmetric ones. -/
theorem getBestLinkToNeighbor_choosesBest_iff {lqLevel : Nat} (lqUsed : 0 < lqLevel)
    (midLookupMainAddr : Addr → Option Addr) (links : List (LinkEntry Addr)) (remote : Addr) :
    ChoosesBest lqLevel midLookupMainAddr links remote ↔
      SymLinksCheapest (linksTo midLookupMainAddr links remote) remote := by
  constructor
  · intro chooses
    have sameView := chooses.order
    simp only [getBestLinkToNeighbor_eq lqUsed] at sameView
    constructor
    case cheapest =>
      intro best isCheapest other otherMem notSym
      by_contra hidden
      rw [not_or, not_and, Nat.not_lt] at hidden
      obtain ⟨otherLe, noTie⟩ := hidden
      obtain ⟨found, isFound, -, foundSym, -⟩ :=
        chooses.best ⟨best, isCheapest.mem, isCheapest.sym, isCheapest.usable⟩
      rw [getBestLinkToNeighbor_eq lqUsed] at isFound
      obtain ⟨perm, rest, orderEq, restMem⟩ := linksTo_cons_erase otherMem
      have reordered := sameView _ perm
      rw [orderEq, isFound, map_some] at reordered
      have isView : found.view = (true, found.linkcost) := by simp [LinkEntry.view, foundSym]
      rw [isView] at reordered
      refine
        scan_view_fst_of_notSym_first notSym (otherLe.trans_lt isCheapest.usable) ?_ _ reordered
      intro link inRest isSym currLcost below
      have costGe := isCheapest.least link (restMem link inRest) isSym
      rintro (less | ⟨equal, requested⟩)
      · omega
      · refine noTie (by omega) ⟨link, ?_, requested⟩
        exact
          ⟨restMem link inRest, isSym, (by have := isCheapest.usable; omega),
            fun third thirdMem thirdSym => by
              have := isCheapest.least third thirdMem thirdSym
              omega⟩
    case broken =>
      rintro allBroken ⟨link, isMem, isSym, isCost, requested⟩ other otherMem notSym
      by_contra usable
      obtain ⟨symPerm, symRest, symEq, -⟩ := linksTo_cons_erase isMem
      obtain ⟨perm, rest, orderEq, restMem⟩ := linksTo_cons_erase otherMem
      have symView := sameView _ symPerm
      have otherView := sameView _ perm
      rw [symEq] at symView
      rw [orderEq, ← symView] at otherView
      have isGood : (scan remote (link :: symRest)).goodLink.isSome := by
        refine foldl_goodLink_isSome symRest ?_
        have accepted : Accepts remote (Choice.start : Choice Addr).currLcost link :=
          Or.inr ⟨isCost, requested⟩
        rw [considerCost_goodLink, if_pos ⟨accepted, isSym⟩]
        rfl
      obtain ⟨good, goodEq⟩ := isSome_iff_exists.mp isGood
      have goodSym : good.status = .sym := by
        rcases foldl_goodLink_mem (link :: symRest) goodEq with ⟨-, goodSym⟩ | impossible
        · exact goodSym
        · cases impossible
      unfold Choice.result at otherView
      rw [goodEq, some_or, map_some] at otherView
      have isView : good.view = (true, good.linkcost) := by simp [LinkEntry.view, goodSym]
      rw [isView] at otherView
      refine scan_view_fst_of_notSym_first notSym (Nat.lt_of_not_le usable) ?_ _ otherView
      intro third inRest thirdSym currLcost below
      have costGe := allBroken third (restMem third inRest) thirdSym
      rintro (less | ⟨equal, -⟩)
      · omega
      · omega
  · intro condition
    constructor
    case best =>
      intro hasUsable
      obtain ⟨cheapest, isCheapest⟩ := exists_cheapest hasUsable
      obtain ⟨-, good, goodEq, goodSym, goodCost⟩ := condition.scan_hasGood isCheapest
      have goodMem : good ∈ linksTo midLookupMainAddr links remote := by
        rcases foldl_goodLink_mem _ goodEq with ⟨goodMem, -⟩ | impossible
        · exact goodMem
        · cases impossible
      refine ⟨good, ?_, goodMem, goodSym, ?_, ?_⟩
      · rw [getBestLinkToNeighbor_eq lqUsed, Choice.result, mem_def.mp goodEq, some_or]
      · rw [goodCost]
        exact isCheapest.usable
      · rw [goodCost]
        exact isCheapest.least
    case order =>
      intro reordered perm
      rw [getBestLinkToNeighbor_eq lqUsed, getBestLinkToNeighbor_eq lqUsed]
      exact condition.scan_view_perm (perm.filter _)

def symLink (linkcost : Nat) : LinkEntry Nat := ⟨9, 1, .sym, linkcost, some 0⟩

def asymLink (linkcost : Nat) : LinkEntry Nat := ⟨9, 2, .asym, linkcost, some 0⟩

theorem getBestLinkToNeighbor_dearAsymLink : SymLinksCheapest
        (linksTo (fun _ => none) [asymLink 4096, symLink 2048] 9) 9 ∧
      ChoosesBest 2 (fun _ => none) [asymLink 4096, symLink 2048] 9 := by
  have condition :
      SymLinksCheapest (linksTo (fun _ => none) [asymLink 4096, symLink 2048] 9) 9 := by
    have linksEq : linksTo (fun _ => none) [asymLink 4096, symLink 2048] 9 =
          [asymLink 4096, symLink 2048] := by
      decide
    rw [linksEq]
    constructor
    case cheapest =>
      intro best isCheapest other otherMem notSym
      left
      have bestLe := isCheapest.least (symLink 2048) (by decide) rfl
      simp only [mem_cons, not_mem_nil, or_false] at otherMem
      rcases otherMem with rfl | rfl
      · exact bestLe.trans_lt (by decide)
      · exact absurd rfl notSym
    case broken =>
      intro allBroken
      exact absurd (allBroken (symLink 2048) (by decide) rfl) (by decide)
  exact ⟨condition,
      (getBestLinkToNeighbor_choosesBest_iff (by decide) (fun _ => none)
        [asymLink 4096, symLink 2048] 9).mpr condition⟩

/-- A cheaper link that is not symmetric hides the symmetric one behind it, but
not the one in front of it. -/
theorem getBestLinkToNeighbor_cheapAsymLink :
    ¬ChoosesBest 2 (fun _ => none) [asymLink 1024, symLink 2048] 9 ∧
      getBestLinkToNeighbor 2 (fun _ => none)
        [asymLink 1024, symLink 2048] 9 = some (asymLink 1024) ∧
      getBestLinkToNeighbor 2 (fun _ => none)
        [symLink 2048, asymLink 1024] 9 = some (symLink 2048) := by
  refine ⟨?_, by decide, by decide⟩
  intro chooses
  have views := chooses.order [symLink 2048, asymLink 1024] (List.Perm.swap _ _ _)
  exact absurd views (by decide)

end QosOlsr.LinkChoice
