import QosOlsr.Clock
import QosOlsr.Hello.Message
import QosOlsr.NeighborTable
import QosOlsr.OutputBuffer

/-!
# The link set

`lookup_link_status` and `check_link_status` of `link_set.c`: what a node
makes of its own link, and what it reads about it in the HELLO of the
neighbour.  Times are the 32-bit clock of `scheduler.c`.
-/

namespace QosOlsr

variable {ver : IpVersion}

/-- The fields of `struct link_entry` that a HELLO is built from.  The link
quality is in the form it takes on the wire. -/
structure LinkEntry (ver : IpVersion) where
  localIfaceAddr : IpAddr ver
  neighborIfaceAddr : IpAddr ver
  linkSymTimer : Bool
  asymTime : UInt32
  linkPending : Bool
  lostLinkTime : UInt32
  neighbor : NeighborEntry (IpAddr ver)
  linkquality : LqBytes

/-- What `lookup_link_status` reads besides the entry. -/
structure LinkContext where
  nowTimes : UInt32
  useHysteresis : Bool

def lookupLinkStatus (ctx : LinkContext) (entry : LinkEntry ver) : LinkType :=
  if ctx.useHysteresis ∧ ¬ olsrIsTimedOut ctx.nowTimes entry.lostLinkTime then
    .lost
  else if ctx.useHysteresis ∧ entry.linkPending then
    .hide
  else if entry.linkSymTimer then
    .sym
  else if ¬ olsrIsTimedOut ctx.nowTimes entry.asymTime then
    .asym
  else
    .lost

theorem lookupLinkStatus_ne_unspec (ctx : LinkContext) (entry : LinkEntry ver) :
    lookupLinkStatus ctx entry ≠ .unspec := by
  unfold lookupLinkStatus
  split_ifs <;> exact LinkType.noConfusion

theorem lookupLinkStatus_mem_order {ctx : LinkContext} (noHysteresis : ctx.useHysteresis = false)
    (entry : LinkEntry ver) : lookupLinkStatus ctx entry ∈ LinkType.order := by
  unfold lookupLinkStatus
  rw [noHysteresis]
  simp only [Bool.false_eq_true, false_and, if_false]
  split_ifs <;> decide

section Check

variable {Addr : Type*} [DecidableEq Addr] (ifAddr : Addr)

/-- The loop of `check_link_status`, with `ret` found so far. -/
def checkLinkStatusFrom (ret : LinkType) : List (HelloNeighbor Addr) → LinkType
  | [] => ret
  | neighbor :: rest =>
    if neighbor.address = ifAddr ∧ neighbor.link ≠ .unspec then
      if neighbor.link = .sym then
        .sym
      else
        checkLinkStatusFrom neighbor.link rest
    else
      checkLinkStatusFrom ret rest

def checkLinkStatus (msg : HelloMessage Addr) : LinkType :=
  checkLinkStatusFrom ifAddr .unspec msg.neighbors

variable {ifAddr}

theorem checkLinkStatusFrom_eq_sym {neighbors : List (HelloNeighbor Addr)}
    {neighbor : HelloNeighbor Addr} (mem : neighbor ∈ neighbors)
    (address : neighbor.address = ifAddr) (sym : neighbor.link = .sym) (ret : LinkType) :
    checkLinkStatusFrom ifAddr ret neighbors = .sym := by
  induction neighbors generalizing ret with
  | nil => exact (List.not_mem_nil mem).elim
  | cons first rest ih =>
    rw [checkLinkStatusFrom]
    rcases List.mem_cons.mp mem with rfl | inRest
    · rw [if_pos ⟨address, by rw [sym]; decide⟩, if_pos sym]
    · split_ifs
      · rfl
      · exact ih inRest _
      · exact ih inRest _

variable (ifAddr)

/-- The result is that of an entry for the interface, or still the initial
one; it is an entry's as soon as there is one with a link type. -/
theorem checkLinkStatusFrom_cases (neighbors : List (HelloNeighbor Addr)) (ret : LinkType) :
    (checkLinkStatusFrom ifAddr ret neighbors = ret ∧
        ∀ neighbor ∈ neighbors, neighbor.address = ifAddr → neighbor.link = .unspec) ∨
      ∃ neighbor ∈ neighbors, neighbor.address = ifAddr ∧ neighbor.link ≠ .unspec ∧
          checkLinkStatusFrom ifAddr ret neighbors = neighbor.link := by
  induction neighbors generalizing ret with
  | nil => exact Or.inl ⟨rfl, nofun⟩
  | cons first rest ih =>
    rw [checkLinkStatusFrom]
    by_cases named : first.address = ifAddr ∧ first.link ≠ .unspec
    · rw [if_pos named]
      right
      by_cases sym : first.link = .sym
      · rw [if_pos sym]
        exact ⟨first, List.mem_cons_self, named.1, named.2, sym.symm⟩
      · rw [if_neg sym]
        rcases ih first.link with ⟨unchanged, -⟩ | later
        · exact ⟨first, List.mem_cons_self, named.1, named.2, unchanged⟩
        · obtain ⟨neighbor, mem, found⟩ := later
          exact ⟨neighbor, List.mem_cons_of_mem first mem, found⟩
    · rw [if_neg named]
      rcases ih ret with ⟨unchanged, unnamed⟩ | later
      · refine Or.inl ⟨unchanged, ?_⟩
        intro neighbor mem address
        rcases List.mem_cons.mp mem with rfl | inRest
        · exact not_not.mp fun linked => named ⟨address, linked⟩
        · exact unnamed neighbor inRest address
      · obtain ⟨neighbor, mem, found⟩ := later
        exact Or.inr ⟨neighbor, List.mem_cons_of_mem first mem, found⟩

end Check

end QosOlsr
