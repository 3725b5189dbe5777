import QosOlsr.Hello.Deserialize

/-!
# How far the HELLO decoder reads

A bounded run of `deserialize_hello` reads no byte behind the message exactly
when the walk of each pass that is run stays inside it.
-/

namespace QosOlsr

open Library

section Bounds

variable (mem : Memory) (ver : IpVersion) (lq : Option LqHandler) (limit : Nat)

/-- Every block that the pass for `link` visits is read inside the message. -/
def BlocksFit (link : LinkType) : Prop :=
  ∀ position, BlockReached mem ver lq limit link position → position < limit →
    blockReach mem ver lq link position ≤ limit

/-- The passes in order; a pass is run when the ones before it end. -/
def PassesFit : List LinkType → Prop
  | [] => True
  | link :: rest =>
    BlocksFit mem ver lq limit link ∧ (PassEnds mem ver lq limit link → PassesFit rest)

variable {link : LinkType}

private theorem helloBlockStep_reach_le {reading next : HelloReading ver}
    (taken : helloBlockStep mem ver lq limit link reading = some next) :
    reading.curr.reach ≤ next.curr.reach := by
  rw [(helloBlockStep_eq_some mem ver lq limit taken).2]
  exact le_max_left _ _

private theorem runLoop_at_blockReached
    (reading : HelloReading ver) (atFirst : reading.curr.pos = 16 + ver.ipsize)
    {position : Nat} (reached : BlockReached mem ver lq limit link position) :
    ∃ fuel visited, runLoop (helloBlockStep mem ver lq limit link) fuel reading = (visited, false) ∧
      visited.curr.pos = position := by
  induction reached with
  | first => exact ⟨0, reading, rfl, atFirst⟩
  | next reached before ih =>
    obtain ⟨fuel, visited, running, rfl⟩ := ih
    obtain ⟨neighbors, taken⟩ := helloBlockStep_of_lt mem ver lq limit link before
    exact ⟨fuel + 1, _, runLoop_extend running taken, rfl⟩

/-- The loop of one pass stays inside when its blocks fit. -/
theorem runLoop_reach_le (reading : HelloReading ver) (atFirst : reading.curr.pos = 16 + ver.ipsize)
    (before : reading.curr.reach ≤ limit) (fit : BlocksFit mem ver lq limit link) (fuel : Nat) :
    (runLoop (helloBlockStep mem ver lq limit link) fuel reading).1.curr.reach ≤ limit := by
  have kept : ∀ {st next : HelloReading ver},
        BlockReached mem ver lq limit link st.curr.pos ∧ st.curr.reach ≤ limit →
        helloBlockStep mem ver lq limit link st = some next →
        BlockReached mem ver lq limit link next.curr.pos ∧ next.curr.reach ≤ limit := by
    rintro st next ⟨reached, inside⟩ taken
    obtain ⟨more, moved⟩ := helloBlockStep_eq_some mem ver lq limit taken
    rw [moved]
    exact ⟨.next reached more, max_le inside (fit st.curr.pos reached more)⟩
  exact (runLoop_invariant
      (fun st : HelloReading ver =>
        BlockReached mem ver lq limit link st.curr.pos ∧ st.curr.reach ≤ limit)
      kept fuel ⟨atFirst ▸ .first, before⟩).2

theorem runLoop_reach_monotone (link : LinkType) (reading : HelloReading ver) : Monotone fun fuel =>
      (runLoop (helloBlockStep mem ver lq limit link) fuel reading).1.curr.reach :=
  runLoop_monotone (fun st => st.curr.reach) (helloBlockStep_reach_le mem ver lq limit) reading

variable (currSaved : Nat)

theorem runHelloPasses_le_reach (fuel : Nat) :
    ∀ (links : List LinkType) (reading : HelloReading ver), reading.curr.reach ≤
        (runHelloPasses mem ver lq limit currSaved fuel links reading).1.curr.reach
  | [], reading => le_rfl
  | link :: rest, reading => by
    have walked := runLoop_reach_monotone mem ver lq limit link
        { reading with curr := { reading.curr with pos := currSaved } }
        (Nat.zero_le fuel)
    rw [runHelloPasses]
    split
    · exact walked.trans (runHelloPasses_le_reach fuel rest _)
    · exact walked

theorem runHelloPasses_reach_mono {fuel more : Nat} (enough : fuel ≤ more) :
    ∀ (links : List LinkType) (reading : HelloReading ver),
      (runHelloPasses mem ver lq limit currSaved fuel links reading).1.curr.reach ≤
        (runHelloPasses mem ver lq limit currSaved more links reading).1.curr.reach
  | [], reading => le_rfl
  | link :: rest, reading => by
    have walked := runLoop_reach_monotone mem ver lq limit link
        { reading with curr := { reading.curr with pos := currSaved } }
        enough
    rw [runHelloPasses, runHelloPasses]
    dsimp only at walked ⊢
    split
    next ended =>
      rw [runLoop_eq_of_ended ended enough, if_pos ended]
      exact runHelloPasses_reach_mono enough rest _
    · split
      · exact walked.trans (runHelloPasses_le_reach mem ver lq limit currSaved more rest _)
      · exact walked

/-- The passes stay inside the message, however many iterations they get,
exactly when the walks of the passes that are run do. -/
theorem runHelloPasses_reach_le_iff (atFirst : currSaved = 16 + ver.ipsize) :
    ∀ (links : List LinkType) (reading : HelloReading ver), reading.curr.reach ≤ limit →
      ((∀ fuel,
        (runHelloPasses mem ver lq limit currSaved fuel links reading).1.curr.reach ≤ limit) ↔
      PassesFit mem ver lq limit links)
  | [], reading, before => iff_of_true (fun _ => before) trivial
  | link :: rest, reading, before => by
    constructor
    · intro inside
      constructor
      · intro position reached more
        obtain ⟨fuel, visited, running, rfl⟩ := runLoop_at_blockReached mem ver lq limit
            { reading with curr := { reading.curr with pos := currSaved } }
            atFirst reached
        obtain ⟨neighbors, taken⟩ := helloBlockStep_of_lt mem ver lq limit link more
        have read := inside (fuel + 1)
        rw [runHelloPasses, runLoop_extend running taken] at read
        exact (le_max_right _ _).trans read
      · intro ends
        obtain ⟨fuel, walked⟩ :=
          (loopTerminates_helloBlockStep_iff mem ver lq limit link
            { reading with curr := { reading.curr with pos := currSaved } }
            atFirst).mpr ends
        have restInside (more : Nat) :
            (runHelloPasses mem ver lq limit currSaved more rest
              (runLoop (helloBlockStep mem ver lq limit link) fuel
                { reading with
                  curr :=
                    { reading.curr with
                      pos := currSaved } }).1).1.curr.reach ≤ limit := by
          refine (runHelloPasses_reach_mono mem ver lq limit currSaved
              (le_max_right fuel more) rest _).trans ?_
          have whole := inside (max fuel more)
          rw [runHelloPasses, runLoop_eq_of_ended walked (le_max_left fuel more)] at whole
          dsimp only at whole
          rwa [if_pos walked] at whole
        exact (runHelloPasses_reach_le_iff atFirst rest _
            ((runHelloPasses_le_reach mem ver lq limit currSaved 0
              rest _).trans (restInside 0))).mp restInside
    · rintro ⟨fit, restFit⟩ fuel
      have walked := runLoop_reach_le mem ver lq limit
          { reading with curr := { reading.curr with pos := currSaved } }
          atFirst before fit fuel
      rw [runHelloPasses]
      dsimp only
      split
      next ended =>
        have ends :=
          (loopTerminates_helloBlockStep_iff mem ver lq limit link
            { reading with curr := { reading.curr with pos := currSaved } }
            atFirst).mp ⟨fuel, ended⟩
        exact (runHelloPasses_reach_le_iff atFirst rest _ walked).mpr (restFit ends) fuel
      · exact walked

end Bounds

def HelloFits (mem : Memory) (ver : IpVersion) (handler : LqHandler) : Prop :=
  16 + ver.ipsize ≤ readU16 mem 2 ∧
    PassesFit mem ver (helloLq mem handler) (readU16 mem 2) LinkType.order

theorem deserializeHello_reach_le_iff {mem : Memory} {ver : IpVersion} (handler : LqHandler)
    (isHello : IsHello mem) (aligned : readU16 mem 2 % 4 = 0) :
    (∀ fuel, (deserializeHello mem ver handler fuel).curr.reach ≤ readU16 mem 2) ↔
      HelloFits mem ver handler := by
  have multiple := ver.ipsize_mod_four
  have outcome (fuel : Nat) : (deserializeHello mem ver handler fuel).curr =
        (helloPasses mem ver handler fuel).1.curr := by
    rw [deserializeHello_of_isHello ver handler isHello]
    rfl
  by_cases room : 16 + ver.ipsize ≤ readU16 mem 2
  · have passes := runHelloPasses_reach_le_iff mem ver (helloLq mem handler)
        (readU16 mem 2) (16 + ver.ipsize) rfl LinkType.order
        ⟨⟨16 + ver.ipsize, 15 + ver.ipsize⟩, []⟩
        (by dsimp only; omega)
    simp only [outcome, HelloFits, room, true_and]
    exact passes
  · refine iff_of_false (fun inside => ?_) (fun fits => room fits.1)
    have started := runHelloPasses_le_reach mem ver (helloLq mem handler)
        (readU16 mem 2) (16 + ver.ipsize) 0 LinkType.order
        ⟨⟨16 + ver.ipsize, 15 + ver.ipsize⟩, []⟩
    have within := inside 0
    rw [outcome] at within
    have short := started.trans within
    dsimp only at short
    omega

end QosOlsr
