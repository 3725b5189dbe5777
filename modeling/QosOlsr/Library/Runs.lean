import Mathlib.Tactic

/-!
# Runs of a guarded transition function

A step function answers `none` when an event is not enabled in the present
state.  A property of the start state that each enabled step keeps holds at the
end of every run.
-/

namespace QosOlsr.Library

universe u v

variable {State : Type u} {Event : Type v}

/-- Execute the events in order, stopping at the first disabled one. -/
def runEvents (step : State → Event → Option State) : State → List Event → Option State
  | st, [] => some st
  | st, event :: rest =>
    match step st event with
    | none => none
    | some next => runEvents step next rest

@[simp]
theorem runEvents_nil (step : State → Event → Option State) (st : State) :
    runEvents step st [] = some st := rfl

variable {step : State → Event → Option State} {start final : State}

theorem runEvents_cons_eq_some {event : Event} {rest : List Event} :
    runEvents step start (event :: rest) = some final ↔
      ∃ next, step start event = some next ∧ runEvents step next rest = some final := by
  cases enabled : step start event with
  | none => simp [runEvents, enabled]
  | some next => simp [runEvents, enabled]

/-- What holds of the result of a run is decided by its computation. -/
instance decidableExistsSome (P : State → Prop) [DecidablePred P] (result : Option State) :
    Decidable (∃ st, result = some st ∧ P st) :=
  decidable_of_iff (result.any (fun st => decide (P st)) = true)
    (by simp only [Option.any_eq_true, decide_eq_true_eq])

variable {Invariant : State → Prop}

/-- A property kept by every enabled step holds at the end of every run. -/
theorem runEvents_invariant
    (kept : ∀ {st next : State} {event : Event},
        Invariant st → step st event = some next → Invariant next) :
    ∀ {events : List Event} {start final : State}, Invariant start →
      runEvents step start events = some final →
      Invariant final
  | [], start, final, initially, ran => by
    cases ran
    exact initially
  | event :: rest, start, final, initially, ran => by
    obtain ⟨next, taken, continued⟩ := runEvents_cons_eq_some.mp ran
    exact runEvents_invariant kept (kept initially taken) continued

/-- Every event of a run meets a condition in the state that it finds. -/
def RunMeets (step : State → Event → Option State) (Condition : State → Event → Prop) :
    State → List Event → Prop
  | _, [] => True
  | st, event :: rest =>
    Condition st event ∧ ∀ next, step st event = some next → RunMeets step Condition next rest

instance RunMeets.decidable (step : State → Event → Option State) (Condition : State → Event → Prop)
    [∀ st event, Decidable (Condition st event)] :
    ∀ (st : State) (events : List Event), Decidable (RunMeets step Condition st events)
  | _, [] => isTrue trivial
  | st, event :: rest =>
    match taken : step st event with
    | none =>
      decidable_of_iff (Condition st event)
        ⟨fun met => ⟨met, fun next other => by simp [taken] at other⟩, And.left⟩
    | some next =>
      have := RunMeets.decidable step Condition next rest
      decidable_of_iff (Condition st event ∧ RunMeets step Condition next rest)
        (and_congr_right fun _ =>
          ⟨fun met next' other => by
              rw [taken] at other
              cases other
              exact met,
            fun met => met next taken⟩)

variable {Condition : State → Event → Prop} {events : List Event}

theorem runMeets_append_singleton {start : State} {last : Event} :
    RunMeets step Condition start (events ++ [last]) ↔ RunMeets step Condition start events ∧
      ∀ reached, runEvents step start events = some reached → Condition reached last := by
  induction events generalizing start with
  | nil => simp [RunMeets]
  | cons event rest ih =>
    simp only [List.cons_append, RunMeets, ih, runEvents_cons_eq_some]
    grind

variable {Other : State → Event → Prop}

theorem RunMeets.and :
    ∀ {start : State} {events : List Event}, RunMeets step Condition start events →
      RunMeets step Other start events →
      RunMeets step (fun st event => Condition st event ∧ Other st event) start events
  | _, [], _, _ => trivial
  | _, _ :: _, meets, meetsOther =>
    ⟨⟨meets.1, meetsOther.1⟩, fun next taken =>
      (meets.2 next taken).and (meetsOther.2 next taken)⟩

/-- A run that meets one condition meets another one that follows from it in
the states that are reached. -/
theorem RunMeets.imp_of_invariant
    (follows : ∀ {st : State} {event : Event}, Invariant st → Condition st event → Other st event)
    (kept : ∀ {st next : State} {event : Event}, Invariant st → Condition st event →
          step st event = some next → Invariant next) :
    ∀ {start : State} {events : List Event},
      Invariant start → RunMeets step Condition start events →
      RunMeets step Other start events
  | _, [], _, _ => trivial
  | _, _ :: _, initially, meets =>
    ⟨follows initially meets.1, fun next taken =>
      (meets.2 next taken).imp_of_invariant follows kept (kept initially meets.1 taken)⟩

theorem runEvents_append_singleton_eq_some {last : Event} :
    runEvents step start (events ++ [last]) = some final ↔
      ∃ reached, runEvents step start events = some reached ∧ step reached last = some final := by
  induction events generalizing start with
  | nil => simp [runEvents_cons_eq_some]
  | cons event rest ih =>
    simp only [List.cons_append, runEvents_cons_eq_some, ih]
    grind

/-- What relates a state to the events before it, and is kept by every step that
meets the condition, holds at the end of every run whose steps all meet it. -/
theorem runEvents_history_of_meets
    {start : State} {History : List Event → State → Prop} (initially : History [] start)
    (preserved : ∀ {events : List Event} {st next : State} {event : Event},
        runEvents step start events = some st → History events st →
        Condition st event → step st event = some next → History (events ++ [event]) next)
    {final : State} (meets : RunMeets step Condition start events)
    (ran : runEvents step start events = some final) : History events final := by
  induction events using List.reverseRecOn generalizing final with
  | nil =>
    cases ran
    exact initially
  | append_singleton events last ih =>
    rw [runMeets_append_singleton] at meets
    obtain ⟨reached, before, taken⟩ := runEvents_append_singleton_eq_some.mp ran
    exact preserved before (ih meets.1 before) (meets.2 reached before) taken

/-- A property kept by every step that meets the condition holds at the end of
every run whose steps all meet it. -/
theorem runEvents_invariant_of_meets
    (preserved : ∀ {st next : State} {event : Event}, Invariant st → Condition st event →
          step st event = some next → Invariant next) :
    ∀ {events : List Event} {start final : State},
      Invariant start → RunMeets step Condition start events →
      runEvents step start events = some final → Invariant final
  | [], start, final, initially, _, ran => by
    cases ran
    exact initially
  | event :: rest, start, final, initially, meets, ran => by
    obtain ⟨next, taken, continued⟩ := runEvents_cons_eq_some.mp ran
    exact runEvents_invariant_of_meets preserved
        (preserved initially meets.1 taken) (meets.2 next taken)
        continued

/-- A system whose steps all succeed from states with a property, and keep it,
runs through whatever meets the condition. -/
theorem runEvents_exists_of_meets
    (succeeds : ∀ {st : State} {event : Event}, Invariant st → Condition st event →
          ∃ next, step st event = some next ∧ Invariant next) :
    ∀ {events : List Event} {start : State},
      Invariant start → RunMeets step Condition start events →
      ∃ final, runEvents step start events = some final ∧ Invariant final
  | [], start, initially, _ => ⟨start, rfl, initially⟩
  | event :: rest, start, initially, meets => by
    obtain ⟨next, taken, kept⟩ := succeeds initially meets.1
    obtain ⟨final, ran, holds⟩ := runEvents_exists_of_meets succeeds kept (meets.2 next taken)
    exact ⟨final, runEvents_cons_eq_some.mpr ⟨next, taken, ran⟩, holds⟩

/-- A system whose steps all succeed from states with a property, and keep it,
runs through every list of events. -/
theorem runEvents_exists (Invariant : State → Prop)
    (succeeds : ∀ {st : State} (event : Event), Invariant st →
          ∃ next, step st event = some next ∧ Invariant next) :
    ∀ (events : List Event) {start : State}, Invariant start →
      ∃ final, runEvents step start events = some final ∧ Invariant final
  | [], start, initially => ⟨start, rfl, initially⟩
  | event :: rest, start, initially => by
    obtain ⟨next, taken, kept⟩ := succeeds event initially
    obtain ⟨final, ran, holds⟩ := runEvents_exists Invariant succeeds rest kept
    exact ⟨final, runEvents_cons_eq_some.mpr ⟨next, taken, ran⟩, holds⟩

end QosOlsr.Library
