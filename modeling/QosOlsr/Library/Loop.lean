import Mathlib.Tactic

/-!
# While loops that need not end

The body of a loop is a partial function on its state: `none` says that the
loop condition failed.  Safety statements quantify over every number of
iterations; a loop terminates when some number is enough.
-/

namespace QosOlsr.Library

open List

universe u

variable {State : Type u}

/-- Run at most `fuel` iterations; the flag says whether the loop ended. -/
def runLoop (step : State → Option State) : Nat → State → State × Bool
  | 0, st => (st, false)
  | fuel + 1, st =>
    match step st with
    | none => (st, true)
    | some next => runLoop step fuel next

def LoopTerminates (step : State → Option State) (start : State) : Prop :=
  ∃ fuel, (runLoop step fuel start).2 = true

variable {step : State → Option State}

theorem runLoop_succ_none {st : State} (ended : step st = none) (fuel : Nat) :
    runLoop step (fuel + 1) st = (st, true) := by
  rw [runLoop, ended]

theorem runLoop_succ_some {st next : State} (taken : step st = some next) (fuel : Nat) :
    runLoop step (fuel + 1) st = runLoop step fuel next := by
  rw [runLoop, taken]

/-- A property each iteration keeps holds after any number of them. -/
theorem runLoop_invariant (Invariant : State → Prop)
    (kept : ∀ {st next : State}, Invariant st → step st = some next → Invariant next) :
    ∀ (fuel : Nat) {start : State}, Invariant start → Invariant (runLoop step fuel start).1
  | 0, start, initially => initially
  | fuel + 1, start, initially => by
    cases taken : step start with
    | none =>
      rw [runLoop_succ_none taken]
      exact initially
    | some next =>
      rw [runLoop_succ_some taken]
      exact runLoop_invariant Invariant kept fuel (kept initially taken)

/-- More iterations do not change a loop that ended. -/
theorem runLoop_eq_of_ended : ∀ {fuel more : Nat} {start : State},
      (runLoop step fuel start).2 = true → fuel ≤ more →
      runLoop step more start = runLoop step fuel start
  | 0, more, start, ended, enough => by cases ended
  | fuel + 1, 0, start, ended, enough => by omega
  | fuel + 1, more + 1, start, ended, enough => by
    cases taken : step start with
    | none => rw [runLoop_succ_none taken, runLoop_succ_none taken]
    | some next =>
      rw [runLoop_succ_some taken] at ended ⊢
      rw [runLoop_succ_some taken]
      exact runLoop_eq_of_ended ended (by omega)

theorem runLoop_extend : ∀ {fuel : Nat} {start reached next : State},
      runLoop step fuel start = (reached, false) →
      step reached = some next →
      runLoop step (fuel + 1) start = (next, false)
  | 0, start, reached, next, running, taken => by
    cases running
    rw [runLoop_succ_some taken]
    rfl
  | fuel + 1, start, reached, next, running, taken => by
    cases first : step start with
    | none =>
      rw [runLoop_succ_none first] at running
      cases running
    | some second =>
      rw [runLoop_succ_some first] at running ⊢
      exact runLoop_extend running taken

theorem runLoop_monotone (quantity : State → Nat)
    (grows : ∀ {st next : State}, step st = some next → quantity st ≤ quantity next)
    (start : State) : Monotone fun fuel => quantity (runLoop step fuel start).1 := by
  refine monotone_nat_of_le_succ fun fuel => ?_
  induction fuel generalizing start with
  | zero =>
    cases taken : step start with
    | none =>
      rw [runLoop_succ_none taken]
      exact le_rfl
    | some next =>
      rw [runLoop_succ_some taken]
      exact grows taken
  | succ fuel ih =>
    cases taken : step start with
    | none => rw [runLoop_succ_none taken, runLoop_succ_none taken]
    | some next =>
      rw [runLoop_succ_some taken, runLoop_succ_some taken]
      exact ih next

/-- A loop whose iterations decrease a measure terminates, when an invariant
guarantees the decrease. -/
theorem loopTerminates_of_measure (Invariant : State → Prop) (measure : State → Nat)
    (kept : ∀ {st next : State}, Invariant st → step st = some next → Invariant next)
    (decreases : ∀ {st next : State}, Invariant st → step st = some next →
          measure next < measure st) :
    ∀ (bound : Nat) {start : State}, measure start ≤ bound → Invariant start →
      LoopTerminates step start
  | bound, start, bounded, initially => by
    cases taken : step start with
    | none => exact ⟨1, by rw [runLoop_succ_none taken]⟩
    | some next =>
      have smaller := decreases initially taken
      cases bound with
      | zero => omega
      | succ bound =>
        obtain ⟨fuel, ended⟩ := loopTerminates_of_measure Invariant measure kept
            decreases bound (by omega) (kept initially taken)
        exact ⟨fuel + 1, by rwa [runLoop_succ_some taken]⟩

/-- A loop that enters a set of states in which it always continues does not
terminate. -/
theorem not_loopTerminates_of_stuck (Stuck : State → Prop)
    (continues : ∀ {st : State}, Stuck st → ∃ next, step st = some next ∧ Stuck next)
    {start : State} (stuck : Stuck start) : ¬ LoopTerminates step start := by
  rintro ⟨fuel, ended⟩
  induction fuel generalizing start with
  | zero => cases ended
  | succ fuel ih =>
    obtain ⟨next, taken, stillStuck⟩ := continues stuck
    rw [runLoop_succ_some taken] at ended
    exact ih stillStuck ended

theorem loopTerminates_step {start next : State} (taken : step start = some next) :
    LoopTerminates step start ↔ LoopTerminates step next := by
  constructor
  · rintro ⟨fuel, ended⟩
    cases fuel with
    | zero => cases ended
    | succ fuel =>
      rw [runLoop_succ_some taken] at ended
      exact ⟨fuel, ended⟩
  · rintro ⟨fuel, ended⟩
    exact ⟨fuel + 1, by rwa [runLoop_succ_some taken]⟩

/-! ## Loops over a list -/

/-- A loop over a list whose body never fails under an invariant runs to the
end.  The invariant may speak of the items already visited. -/
theorem foldlM_invariant
    {Item : Type*} {step : State → Item → Option State} (Invariant : List Item → State → Prop)
    {items : List Item} {start : State} (kept : ∀ {visited : List Item} {item : Item} {st : State},
        item ∈ items → Invariant visited st → ∃ next, step st item = some next ∧
        Invariant (visited ++ [item]) next) (initially : Invariant [] start) :
    ∃ final, items.foldlM step start = some final ∧ Invariant items final := by
  induction items using List.reverseRecOn with
  | nil => exact ⟨start, rfl, initially⟩
  | append_singleton front last ih =>
    obtain ⟨middle, reached, holds⟩ := ih fun mem => kept (mem_append_left _ mem)
    obtain ⟨final, taken, finalHolds⟩ := kept (mem_append_right _ mem_cons_self) holds
    refine ⟨final, ?_, finalHolds⟩
    rw [foldlM_append, reached]
    simpa using taken

/-- What the body of a loop over a list keeps, a loop that did not fail has
kept. -/
theorem foldlM_preserves {Item : Type*} {step : State → Item → Option State}
    (Invariant : List Item → State → Prop) {items : List Item} {start final : State}
    (kept : ∀ {visited : List Item} {item : Item} {st next : State}, item ∈ items →
        Invariant visited st → step st item = some next → Invariant (visited ++ [item]) next)
    (initially : Invariant [] start)
    (ran : items.foldlM step start = some final) : Invariant items final := by
  induction items using List.reverseRecOn generalizing final with
  | nil => rwa [← Option.some.inj ran]
  | append_singleton front last ih =>
    rw [foldlM_append] at ran
    obtain ⟨middle, reached, taken⟩ := Option.bind_eq_some_iff.mp ran
    have holds := ih (fun mem => kept (mem_append_left _ mem)) reached
    exact kept (mem_append_right _ mem_cons_self) holds (by simpa using taken)

end QosOlsr.Library
