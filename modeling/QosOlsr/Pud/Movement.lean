import Mathlib.Data.List.Infix
import Mathlib.Logic.Function.Basic

/-!
# The movement state

`state.c` of the PUD plugin.  A counter stops at its threshold, so that natural
numbers do for the counters.
-/

namespace QosOlsr.Pud

open Function List

inductive TristateBoolean
  | unknown | unset | set
  deriving DecidableEq

inductive MovementState
  | stationary | moving
  deriving DecidableEq

inductive SubStateIndex
  | position | gateway
  deriving DecidableEq

structure HysteresisCounts where
  hysteresisCounterToStationary : Nat
  hysteresisCounterToMoving : Nat

def HysteresisCounts.towards (counts : HysteresisCounts) : MovementState → Nat
  | .stationary => counts.hysteresisCounterToStationary
  | .moving => counts.hysteresisCounterToMoving

structure SubStateType extends HysteresisCounts where
  internalState : MovementState
  hysteresisCounter : Nat
  externalState : MovementState

structure StateType where
  substate : SubStateIndex → SubStateType
  externalState : MovementState

def initState (counts : SubStateIndex → HysteresisCounts) : StateType where
  substate index :=
    let initial := if index = .position then .stationary else .moving
    ⟨counts index, initial, 0, initial⟩
  externalState := .moving

/-- What `determineStateWithHysteresis` is called with. -/
structure Observation where
  subStateIndex : SubStateIndex
  movingNow : TristateBoolean
  gpnonChanged : Bool

def Observation.newState (seen : Observation) : MovementState :=
  if seen.movingNow = .set ∨ seen.gpnonChanged then .moving
  else if seen.movingNow = .unset then .stationary
  else .stationary

namespace SubStateType

variable (subState : SubStateType)

def restarted (newState : MovementState) : Nat :=
  if subState.internalState ≠ newState then 0 else subState.hysteresisCounter

def counted (seen : Observation) : Nat :=
  if seen.newState ≠ subState.externalState then
    match seen.newState with
    | .stationary => subState.restarted .stationary + 1
    | .moving =>
      if seen.gpnonChanged then subState.hysteresisCounterToMoving
      else subState.restarted .moving + 1
  else subState.restarted seen.newState

/-- The part of `determineStateWithHysteresis` on the sub-state. -/
def observe (seen : Observation) : SubStateType :=
  { subState with
    internalState := seen.newState
    hysteresisCounter := subState.counted seen
    externalState :=
      if seen.newState ≠ subState.externalState ∧
          subState.counted seen ≥ subState.towards seen.newState then seen.newState
      else subState.externalState }

end SubStateType

/-- The state and the flags that `determineStateWithHysteresis` stores. -/
structure Determined where
  state : StateType
  externalStateChange : Bool
  subStateExternalStateChange : Bool

def StateType.determineStateWithHysteresis (st : StateType) (seen : Observation) : Determined :=
  let subState := (st.substate seen.subStateIndex).observe seen
  let newState := subState.externalState
  let substate := update st.substate seen.subStateIndex subState
  if (st.substate seen.subStateIndex).externalState ≠ newState then
    -- moving for any of the sub-states, stationary for all of them
    if newState = .stationary →
        (substate .position).externalState = newState ∧
          (substate .gateway).externalState = newState then
      ⟨⟨substate, newState⟩, decide (st.externalState ≠ newState), true⟩
    else ⟨⟨substate, st.externalState⟩, false, true⟩
  else ⟨⟨substate, st.externalState⟩, false, false⟩

/-- The state after a sequence of observations, the last one first. -/
def reached (counts : SubStateIndex → HysteresisCounts) : List Observation → StateType
  | [] => initState counts
  | present :: earlier => ((reached counts earlier).determineStateWithHysteresis present).state

/-- What a sub-state was told, the last value first. -/
def heard (index : SubStateIndex) (history : List Observation) : List MovementState :=
  (history.filter fun seen => seen.subStateIndex = index).map Observation.newState

/-- The present observation lets the external state of its sub-state change to `value`. -/
def Due (counts : HysteresisCounts) (present : Observation) (value : MovementState)
    (values : List MovementState) : Prop :=
  List.replicate (max 1 (counts.towards value)) value <+: values ∨
    present.gpnonChanged ∧ value = .moving

/-- The internal state is the last value; while it is not the external one, the
counter is the number of times that it was heard in a row. -/
structure SubStateType.Tracks (values : List MovementState) (subState : SubStateType) : Prop where
  last : ∀ value ∈ values.head?, value = subState.internalState
  counter : subState.internalState ≠ subState.externalState →
    ∀ count, List.replicate count subState.internalState <+: values ↔
      count ≤ subState.hysteresisCounter

namespace SubStateType

variable {values : List MovementState} {subState : SubStateType} {seen : Observation}

section

variable (tracks : subState.Tracks values)
include tracks

/-- How often a value was heard in a row, with the present one. -/
theorem Tracks.row_iff {value : MovementState} (ne : value ≠ subState.externalState) (count : Nat) :
    List.replicate count value <+: value :: values ↔ count ≤ subState.restarted value + 1 := by
  cases count with
  | zero => simp
  | succ count =>
    rw [replicate_succ, cons_prefix_cons, restarted]
    split
    next changed =>
      cases count with
      | zero => simp
      | succ count =>
        have short : ¬ List.replicate (count + 1) value <+: values := by
          rintro ⟨rest, rfl⟩
          exact changed (tracks.last value (by simp [replicate_succ])).symm
        simp [short]
    next kept =>
      obtain rfl := not_not.1 kept
      simp [tracks.counter ne]

theorem Tracks.counted_cases (ne : seen.newState ≠ subState.externalState) :
    (subState.counted seen ≥ subState.towards seen.newState ↔
        Due subState.toHysteresisCounts seen seen.newState (seen.newState :: values)) ∧
      (subState.counted seen < subState.towards seen.newState →
        subState.counted seen = subState.restarted seen.newState + 1) := by
  rw [Due, tracks.row_iff ne, counted, if_pos ne]
  split
  next stationary =>
    rw [stationary, Nat.max_le]
    simp
  next moving =>
    rw [moving, HysteresisCounts.towards, Nat.max_le]
    cases seen.gpnonChanged <;> simp

theorem Tracks.observe (seen : Observation) :
    (subState.observe seen).Tracks (seen.newState :: values) where
  last := by simp [SubStateType.observe]
  counter := by
    dsimp only [SubStateType.observe]
    split
    · exact fun apart => absurd rfl apart
    next stays =>
      intro ne count
      have below : subState.counted seen < subState.towards seen.newState := by
        simpa [ne] using stays
      rw [(tracks.counted_cases ne).2 below]
      exact tracks.row_iff ne count

private theorem Tracks.externalState_observe {value : MovementState}
    (ne : subState.externalState ≠ value) : (subState.observe seen).externalState = value ↔
      Due subState.toHysteresisCounts seen value (seen.newState :: values) := by
  by_cases told : seen.newState = value
  · subst told
    rw [← (tracks.counted_cases ne.symm).1]
    simp [SubStateType.observe, ne, ne.symm]
  · have other : ¬ Due subState.toHysteresisCounts seen value (seen.newState :: values) := by
      rintro (⟨rest, row⟩ | ⟨changed, rfl⟩)
      · obtain ⟨rows, isSucc⟩ : ∃ rows, max 1 (subState.towards value) = rows + 1 :=
          Nat.exists_eq_add_one.2 (by omega)
        rw [isSucc, replicate_succ, cons_append, List.cons.injEq] at row
        exact told row.1.symm
      · exact told (by simp [Observation.newState, changed])
    simp only [other, iff_false, SubStateType.observe]
    split
    · exact told
    · exact ne

end

end SubStateType

namespace StateType

variable {st : StateType} {seen : Observation}

def Agrees (st : StateType) : Prop :=
  st.externalState = .moving ↔ ∃ index, (st.substate index).externalState = .moving

theorem substate_determine : (st.determineStateWithHysteresis seen).state.substate =
    update st.substate seen.subStateIndex ((st.substate seen.subStateIndex).observe seen) := by
  rw [determineStateWithHysteresis]
  split_ifs <;> rfl

private theorem exists_index {p : SubStateIndex → Prop} :
    (∃ index, p index) ↔ p .position ∨ p .gateway := by
  constructor
  · rintro ⟨_ | _, holds⟩ <;> simp [holds]
  · rintro (holds | holds) <;> exact ⟨_, holds⟩

private theorem Agrees.determine (agrees : st.Agrees) (seen : Observation) :
    (st.determineStateWithHysteresis seen).state.Agrees := by
  rw [Agrees, exists_index] at agrees ⊢
  rw [substate_determine, determineStateWithHysteresis]
  generalize (st.substate seen.subStateIndex).observe seen = subState
  cases seen.subStateIndex <;>
    cases new : subState.externalState <;>
    cases position : (st.substate .position).externalState <;>
    cases gateway : (st.substate .gateway).externalState <;>
    simp_all

end StateType

section Histories

variable (counts : SubStateIndex → HysteresisCounts) (present : Observation)
  (earlier : List Observation) (index : SubStateIndex)

theorem heard_cons : heard index (present :: earlier) =
    if present.subStateIndex = index then present.newState :: heard index earlier
    else heard index earlier := by
  rw [heard, filter_cons]
  split <;> simp_all [heard]

private theorem agrees_reached : (reached counts earlier).Agrees := by
  induction earlier with
  | nil => exact ⟨fun _ => ⟨.gateway, rfl⟩, fun _ => rfl⟩
  | cons present earlier ih => exact ih.determine present

private theorem tracks_reached :
    ((reached counts earlier).substate index).Tracks (heard index earlier) ∧
      ((reached counts earlier).substate index).toHysteresisCounts = counts index := by
  induction earlier with
  | nil => exact ⟨⟨nofun, fun apart => absurd rfl apart⟩, rfl⟩
  | cons present earlier ih =>
    rw [reached, StateType.substate_determine, heard_cons]
    by_cases same : present.subStateIndex = index
    · subst same
      rw [if_pos rfl, update_self]
      exact ⟨ih.1.observe present, ih.2⟩
    · rw [if_neg same, update_of_ne (Ne.symm same)]
      exact ih

/-- The overall state is moving exactly if a sub-state is, and a sub-state
changes to a value exactly if it was told so as often in a row as its count
wants, or has to move at once. -/
theorem movement_hysteresis (value : MovementState) :
    let before := reached counts earlier
    let after := reached counts (present :: earlier)
    (before.externalState = .moving ↔ ∃ index, (before.substate index).externalState = .moving) ∧
    ((before.substate index).externalState ≠ value ∧
        (after.substate index).externalState = value ↔
      (before.substate index).externalState ≠ value ∧ present.subStateIndex = index ∧
        Due (counts index) present value (heard index (present :: earlier))) := by
  refine ⟨agrees_reached counts earlier, and_congr_right fun differs => ?_⟩
  obtain ⟨tracks, isCounts⟩ := tracks_reached counts earlier index
  rw [reached, StateType.substate_determine, heard_cons]
  by_cases same : present.subStateIndex = index
  · subst same
    rw [update_self, if_pos rfl, ← isCounts, tracks.externalState_observe differs]
    simp
  · rw [update_of_ne (Ne.symm same)]
    simp [same, differs]

end Histories

end QosOlsr.Pud
