import Mathlib.Tactic

/-!
# Walks with costs

A walk from a start grows at its end; it is written as the list of the vertices
visited after the start.  A potential that no step can lower bounds the cost of
every walk from below, up to a cap beyond which nothing is said.
-/

namespace QosOlsr.Library

open List

universe u

variable {V : Type u}

inductive Walk (steps : V → List (V × Nat)) (start : V) : List V → Nat → Prop
  | nil : Walk steps start [] 0
  | snoc {visited : List V} {cost : Nat} {next : V} {weight : Nat} :
      Walk steps start visited cost →
      (next, weight) ∈ steps (visited.getLastD start) →
      Walk steps start (visited ++ [next]) (cost + weight)

structure SimpleWalk (steps : V → List (V × Nat)) (start : V) (visited : List V)
    (cost : Nat) : Prop where
  walk : Walk steps start visited cost
  nodup : (start :: visited).Nodup

variable {steps : V → List (V × Nat)} {start : V} {visited : List V} {cost : Nat}

theorem Walk.head?_mem (walk : Walk steps start visited cost) :
    ∀ first ∈ visited.head?, ∃ weight, (first, weight) ∈ steps start := by
  induction walk with
  | nil => simp
  | @snoc visited cost next weight _ step ih =>
    cases visited with
    | nil =>
      rintro first isFirst
      simp only [nil_append, head?_cons, Option.mem_def, Option.some.injEq] at isFirst
      subst isFirst
      exact ⟨weight, step⟩
    | cons first rest => simpa using ih

/-- No step lowers the potential below what it costs, so no walk does. -/
theorem Walk.potential_le (potential : V → Nat) (cap : Nat) (atStart : potential start = 0)
    (capped : ∀ vertex, potential vertex ≤ cap) (relaxed : ∀ vertex, potential vertex < cap →
        ∀ step ∈ steps vertex, potential step.1 ≤ potential vertex + step.2)
    (walk : Walk steps start visited cost) : potential (visited.getLastD start) ≤ cost := by
  induction walk with
  | nil => exact atStart.le
  | @snoc visited cost next weight _ step ih =>
    rw [getLastD_concat]
    rcases Nat.lt_or_ge (potential (visited.getLastD start)) cap with below | atCap
    · exact (relaxed _ below (next, weight) step).trans (Nat.add_le_add_right ih weight)
    · exact ((capped next).trans (atCap.trans ih)).trans (Nat.le_add_right cost weight)

theorem Walk.cost_le {bound : Nat} (bounded : ∀ vertex, ∀ step ∈ steps vertex, step.2 ≤ bound)
    (walk : Walk steps start visited cost) : cost ≤ visited.length * bound := by
  induction walk with
  | nil => simp
  | @snoc visited cost next weight _ step ih =>
    rw [length_append, length_singleton, Nat.succ_mul]
    exact Nat.add_le_add ih (bounded _ (next, weight) step)

theorem SimpleWalk.length_lt_card [Fintype V] (simple : SimpleWalk steps start visited cost) :
    visited.length < Fintype.card V :=
  simple.nodup.length_le_card

end QosOlsr.Library
