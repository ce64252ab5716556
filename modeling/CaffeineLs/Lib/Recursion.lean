/-
Module: CaffeineLs.Lib.Recursion
Purpose: Recursive computations run with fuel, the calls they make, and when they finish.
Trusted boundary: none
Main exports: run, Finishes, Asks
-/
import Mathlib.Data.Finset.Card

namespace Recursion

variable {C V : Type}

/-- The computation with a bound on the depth of its calls. `none` says that the bound is too low. -/
def run (body : (C → Option V) → C → Option V) : Nat → C → Option V
  | 0, _ => none
  | n + 1, c => body (run body n) c

def Finishes (body : (C → Option V) → C → Option V) (c : C) : Prop :=
  ∃ n, (run body n c).isSome

/-- The computation of a call has a result exactly when the calls that it makes have. -/
def Asks (body : (C → Option V) → C → Option V) (calls : C → List C) : Prop :=
  ∀ answer c, (body answer c).isSome ↔ ∀ callee ∈ calls c, (answer callee).isSome

variable {body : (C → Option V) → C → Option V} {calls : C → List C}

/-- More fuel does no harm. -/
theorem Asks.run_succ (asks : Asks body calls) {n : Nat} {c : C} (done : (run body n c).isSome) :
    (run body (n + 1) c).isSome := by
  induction n generalizing c with
  | zero => cases done
  | succ n ih =>
      apply (asks _ c).mpr
      intro callee called
      exact ih ((asks _ c).mp done callee called)

theorem Asks.run_mono (asks : Asks body calls) {n m : Nat} (le : n ≤ m) {c : C}
    (done : (run body n c).isSome) : (run body m c).isSome := by
  induction le with
  | refl => exact done
  | step _ ih => exact asks.run_succ ih

/-- Finitely many computations that finish do so with one amount of fuel. -/
theorem Asks.common_fuel (asks : Asks body calls) {cs : List C}
    (finish : ∀ c ∈ cs, Finishes body c) : ∃ n, ∀ c ∈ cs, (run body n c).isSome := by
  induction cs with
  | nil => exact ⟨0, nofun⟩
  | cons c rest ih =>
      obtain ⟨n, first⟩ := finish c List.mem_cons_self
      obtain ⟨m, others⟩ := ih fun other member => finish other (List.mem_cons_of_mem _ member)
      refine ⟨max n m, ?_⟩
      intro other member
      rcases List.mem_cons.mp member with rfl | member
      · exact asks.run_mono (Nat.le_max_left n m) first
      · exact asks.run_mono (Nat.le_max_right n m) (others other member)

/-- A computation finishes exactly when no infinite chain of calls starts from it. -/
theorem Asks.finishes_iff_acc (asks : Asks body calls) {c : C} :
    Finishes body c ↔ Acc (fun callee caller => callee ∈ calls caller) c := by
  constructor
  · intro ⟨n, done⟩
    induction n generalizing c with
    | zero => cases done
    | succ n ih =>
        constructor
        intro callee called
        exact ih ((asks _ c).mp done callee called)
  · intro acc
    induction acc with
    | intro c _ ih =>
        obtain ⟨n, done⟩ := asks.common_fuel ih
        exact ⟨n + 1, (asks _ c).mpr done⟩

/-- No chain of calls leads back to a call that finishes. -/
theorem not_transGen_self {R : C → C → Prop} {c : C} (acc : Acc R c) :
    ¬ Relation.TransGen R c c := by
  have further := acc.transGen
  clear acc
  induction further with
  | intro c _ ih =>
      intro cycle
      exact ih c cycle cycle

/-- A property that holds of a node when it holds of all nodes below it holds of every node, where no node
is below itself and only finitely many are below any. -/
theorem induction_of_acyclic {N : Type} {Below : N → N → Prop} (nodes : Finset N)
    (listed : ∀ n m, Below n m → m ∈ nodes) (trans : ∀ n m k, Below n m → Below m k → Below n k)
    (acyclic : ∀ n, ¬ Below n n) {P : N → Prop} (step : ∀ n, (∀ m, Below n m → P m) → P n)
    (n : N) : P n := by
  classical
  -- By the number of nodes below it, which is less for a node below: that one is no longer counted.
  have counted : ∀ k n, (nodes.filter (Below n)).card = k → P n := by
    intro k
    induction k using Nat.strongRecOn with
    | ind k ih =>
        intro n count
        apply step
        intro m under
        apply ih _ _ m rfl
        rw [← count]
        apply Finset.card_lt_card
        rw [Finset.ssubset_iff_of_subset]
        · refine ⟨m, Finset.mem_filter.mpr ⟨listed n m under, under⟩, ?_⟩
          intro member
          exact acyclic m (Finset.mem_filter.mp member).2
        · intro other member
          obtain ⟨here, further⟩ := Finset.mem_filter.mp member
          exact Finset.mem_filter.mpr ⟨here, trans n m other under further⟩
  exact counted _ n rfl

end Recursion
