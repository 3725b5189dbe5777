import QosOlsr.Hello.Message

/-!
# MPR selectors, head selectors and the head flag

The two selector lists of `mpr_selector_set.c` and `olsr_cnf->is_head`.  Bit 0
of the flag says that the node elected itself; bit 1 says that a neighbour
selected it.  Both expiry functions clear bit 1 when their list runs empty.
-/

namespace QosOlsr

universe u

/-- `olsr_cnf->is_head` with the main addresses queued on `mprs_list` and on
`heads_list`. -/
structure SelectorState (Addr : Type u) where
  isHead : UInt16
  mprsList : List Addr
  headsList : List Addr
  deriving DecidableEq

/-- The state `main` and `olsr_init_mprs_set` leave. -/
def SelectorState.init (Addr : Type u) : SelectorState Addr := ⟨0, [], []⟩

section Updates

variable {Addr : Type u} [DecidableEq Addr] (st : SelectorState Addr) (addr : Addr)

/-- `olsr_update_mprs_set`: a known selector only has its timer restarted. -/
def olsrUpdateMprsSet : SelectorState Addr :=
  if addr ∈ st.mprsList then
    st
  else
    { st with mprsList := addr :: st.mprsList }

def olsrUpdateHeadsSet : SelectorState Addr :=
  if addr ∈ st.headsList then
    st
  else
    { st with headsList := addr :: st.headsList }

@[simp]
theorem olsrUpdateMprsSet_isHead : (olsrUpdateMprsSet st addr).isHead = st.isHead := by
  unfold olsrUpdateMprsSet
  split <;> rfl

@[simp]
theorem olsrUpdateMprsSet_headsList : (olsrUpdateMprsSet st addr).headsList = st.headsList := by
  unfold olsrUpdateMprsSet
  split <;> rfl

@[simp]
theorem olsrUpdateHeadsSet_isHead : (olsrUpdateHeadsSet st addr).isHead = st.isHead := by
  unfold olsrUpdateHeadsSet
  split <;> rfl

theorem olsrUpdateHeadsSet_headsList_ne_nil : (olsrUpdateHeadsSet st addr).headsList ≠ [] := by
  unfold olsrUpdateHeadsSet
  split
  next queued => exact List.ne_nil_of_mem queued
  · exact List.cons_ne_nil addr st.headsList

def olsrHelloTapSelectors (msg : HelloMessage Addr) (ifAddr : Addr) : SelectorState Addr :=
  let relayed :=
    if lookupMprStatus msg ifAddr then
      olsrUpdateMprsSet st msg.sourceAddr
    else
      st
  if lookupHeadStatus msg ifAddr then
    let headed := olsrUpdateHeadsSet relayed msg.sourceAddr
    if headed.isHead < 3 ∧ headed.isHead ≠ 2 then
      { headed with isHead := headed.isHead + 2 }
    else
      headed
  else
    relayed

/-- `olsr_expire_mpr_sel_entry`, enabled while the entry is queued. -/
def olsrExpireMprSelEntry : Option (SelectorState Addr) :=
  if addr ∈ st.mprsList then
    let remaining := st.mprsList.erase addr
    if (st.isHead = 2 ∨ st.isHead = 3) ∧ remaining = [] then
      some { st with mprsList := remaining, isHead := st.isHead - 2 }
    else
      some { st with mprsList := remaining }
  else
    none

/-- `olsr_expire_head_sel_entry`, enabled while the entry is queued. -/
def olsrExpireHeadSelEntry : Option (SelectorState Addr) :=
  if addr ∈ st.headsList then
    let remaining := st.headsList.erase addr
    if (st.isHead = 2 ∨ st.isHead = 3) ∧ remaining = [] then
      some { st with headsList := remaining, isHead := st.isHead - 2 }
    else
      some { st with headsList := remaining }
  else
    none

theorem olsrHelloTapSelectors_of_not_head {msg : HelloMessage Addr} {ifAddr : Addr}
    (unselected : lookupHeadStatus msg ifAddr = false) :
    (olsrHelloTapSelectors st msg ifAddr).isHead = st.isHead ∧
      (olsrHelloTapSelectors st msg ifAddr).headsList = st.headsList := by
  unfold olsrHelloTapSelectors
  simp only [unselected, Bool.false_eq_true, if_false]
  split
  · simp
  · exact ⟨rfl, rfl⟩

end Updates

def HeadFlagValue (flag : UInt16) : Prop := flag = 0 ∨ flag = 1 ∨ flag = 2 ∨ flag = 3

instance (flag : UInt16) : Decidable (HeadFlagValue flag) := instDecidableOr

theorem HeadFlagValue.clear_selected {flag : UInt16} (selected : flag = 2 ∨ flag = 3) :
    HeadFlagValue (flag - 2) ∧ ¬ 2 ≤ flag - 2 := by
  rcases selected with rfl | rfl <;> decide

theorem HeadFlagValue.not_selected {flag : UInt16}
    (value : HeadFlagValue flag) (cleared : ¬ (flag = 2 ∨ flag = 3)) : ¬ 2 ≤ flag := by
  rcases value with rfl | rfl | rfl | rfl <;> simp_all

theorem olsrHelloTapSelectors_of_head {Addr : Type u} [DecidableEq Addr]
    {msg : HelloMessage Addr} {ifAddr : Addr} {st : SelectorState Addr}
    (value : HeadFlagValue st.isHead) (selected : lookupHeadStatus msg ifAddr = true) :
    HeadFlagValue (olsrHelloTapSelectors st msg ifAddr).isHead ∧
      2 ≤ (olsrHelloTapSelectors st msg ifAddr).isHead ∧
      (olsrHelloTapSelectors st msg ifAddr).headsList ≠ [] := by
  have relayed := lookupMprStatus_of_lookupHeadStatus selected
  have listed := olsrUpdateHeadsSet_headsList_ne_nil
      (olsrUpdateMprsSet st msg.sourceAddr) msg.sourceAddr
  unfold olsrHelloTapSelectors
  simp only [relayed, selected, if_true, olsrUpdateHeadsSet_isHead, olsrUpdateMprsSet_isHead]
  rcases value with zero | one | two | three
  · simpa [zero, HeadFlagValue] using listed
  · simpa [one, HeadFlagValue] using listed
  · simpa [two, HeadFlagValue] using listed
  · simpa [three, HeadFlagValue] using listed

end QosOlsr
