/-
Module: CaffeineLs.Lib.Worklist
Purpose: Loops that pop an item from the state until none is left: the invariant rule and the
  measure that bounds them; and the closure that a worklist computes.
Trusted boundary: none
Main exports: drain, drain_keeps, drain_returns
-/
import CaffeineLs.Lib.Collect
import Mathlib.Data.Finset.Card

namespace Worklist

open Collect

universe u v w

variable {σ : Type u} {α : Type v} {τ : Type w}

/-- `while let Some(item) = pop() { step(item) }`, with fuel. -/
def drain (pop : σ → Option (α × σ)) (step : α → σ → σ) : Nat → σ → Option σ
  | 0, _ => none
  | fuel + 1, s =>
      match pop s with
      | none => some s
      | some (a, rest) => drain pop step fuel (step a rest)

variable {pop : σ → Option (α × σ)} {step : α → σ → σ} {P : σ → Prop}

/-- What every round keeps holds at the end, where nothing is left to pop. -/
theorem drain_keeps (keeps : ∀ s a rest, P s → pop s = some (a, rest) → P (step a rest))
    {fuel : Nat} {s last : σ} (start : P s) (drained : drain pop step fuel s = some last) :
    P last ∧ pop last = none := by
  induction fuel generalizing s with
  | zero => cases drained
  | succ fuel ih =>
      rw [drain] at drained
      cases popped : pop s with
      | none =>
          rw [popped] at drained
          obtain rfl := Option.some.inj drained
          exact ⟨start, popped⟩
      | some item =>
          obtain ⟨a, rest⟩ := item
          rw [popped] at drained
          exact ih (keeps s a rest start popped) drained

/-- A loop whose rounds lower a measure comes to an end. -/
theorem drain_returns (measure : σ → Nat)
    (keeps : ∀ s a rest, P s → pop s = some (a, rest) → P (step a rest))
    (lowers : ∀ s a rest, P s → pop s = some (a, rest) → measure (step a rest) < measure s)
    {fuel : Nat} {s : σ} (start : P s) (enough : measure s < fuel) :
    ∃ last, drain pop step fuel s = some last := by
  induction fuel generalizing s with
  | zero => exact absurd enough (Nat.not_lt_zero _)
  | succ fuel ih =>
      rw [drain]
      cases popped : pop s with
      | none => exact ⟨s, rfl⟩
      | some item =>
          obtain ⟨a, rest⟩ := item
          have lower := lowers s a rest start popped
          exact ih (keeps s a rest start popped) (by omega)

/-! ### Visited set and queue -/

/-- What is left to expand, and what was ever put there. -/
structure Agenda (α : Type v) where
  visited : Finset α
  queue : List α

namespace Agenda

variable [DecidableEq α]

/-- `if visited.insert(a) { queue.push(a) }` -/
def push (w : Agenda α) (a : α) : Agenda α :=
  if a ∈ w.visited then w else { visited := insert a w.visited, queue := a :: w.queue }

theorem mem_visited_push {w : Agenda α} {a b : α} :
    b ∈ (w.push a).visited ↔ b = a ∨ b ∈ w.visited := by
  rw [push]
  split
  · rename_i seen
    constructor
    · exact Or.inr
    · rintro (rfl | old)
      · exact seen
      · exact old
  · exact Finset.mem_insert

theorem visited_subset_push (w : Agenda α) (a : α) : w.visited ⊆ (w.push a).visited := by
  intro b old
  exact mem_visited_push.mpr (.inr old)

/-- Twice what is not visited yet, plus what waits in the queue. -/
def weight (every : Finset α) (w : Agenda α) : Nat :=
  2 * (every \ w.visited).card + w.queue.length

/-- Pushing a member of the universe does not add to the weight. -/
theorem weight_push {every : Finset α} {a : α} (known : a ∈ every) (w : Agenda α) :
    (w.push a).weight every ≤ w.weight every := by
  rw [push]
  split
  · exact Nat.le_refl _
  · rename_i unseen
    have fewer : (every \ insert a w.visited).card + 1 = (every \ w.visited).card := by
      have there : a ∈ every \ w.visited := Finset.mem_sdiff.mpr ⟨known, unseen⟩
      rw [Finset.sdiff_insert, Finset.card_erase_of_mem there]
      have := Finset.card_pos.mpr ⟨a, there⟩
      omega
    simp only [weight, List.length_cons]
    omega

variable {w : Agenda α} {a b : α}

theorem mem_queue_push_of_mem (waits : b ∈ w.queue) : b ∈ (w.push a).queue := by
  rw [push]
  split
  · exact waits
  · exact List.mem_cons_of_mem a waits

/-- What is newly visited waits. -/
theorem fresh_push (visited : b ∈ (w.push a).visited) :
    b ∈ w.visited ∨ b ∈ (w.push a).queue := by
  rw [push] at visited ⊢
  split
  · rename_i seen
    rw [if_pos seen] at visited
    exact .inl visited
  · rename_i unseen
    rw [if_neg unseen] at visited
    rcases Finset.mem_insert.mp visited with rfl | old
    · exact .inr List.mem_cons_self
    · exact .inl old

/-- What newly waits is visited. -/
theorem queued_push (waits : b ∈ (w.push a).queue) : b ∈ w.queue ∨ b ∈ (w.push a).visited := by
  rw [push] at waits ⊢
  split
  · rename_i seen
    rw [if_pos seen] at waits
    exact .inl waits
  · rename_i unseen
    rw [if_neg unseen] at waits
    rcases List.mem_cons.mp waits with rfl | old
    · exact .inr (Finset.mem_insert_self b _)
    · exact .inl old

end Agenda

/-! ### What a worklist computes -/

/-- The least set with the roots that has what each of its items adds. -/
inductive Reached (item : α → τ) (adds : α → Set τ) (roots : Set τ) : τ → Prop where
  | root {t : τ} (there : t ∈ roots) : Reached item adds roots t
  | next {a : α} {t : τ} (before : Reached item adds roots (item a)) (added : t ∈ adds a) :
      Reached item adds roots t

/-- A loop whose rounds pop a waiting item and record what it adds; an item that is new waits. -/
structure Frontier (σ : Type u) (α : Type v) (τ : Type w) where
  pop : σ → Option (α × σ)
  step : α → σ → σ
  seen : σ → Set τ
  waits : σ → α → Prop
  item : α → τ
  adds : α → Set τ
  popNone : ∀ {s a}, pop s = none → ¬ waits s a
  popSeen : ∀ {s a rest}, pop s = some (a, rest) → seen rest = seen s
  popWaits : ∀ {s a rest}, pop s = some (a, rest) → ∀ b, waits s b ↔ b = a ∨ waits rest b
  stepSeen : ∀ a, Collects seen (step a) (adds a)
  stepWaits : ∀ {a b s}, waits s b → waits (step a s) b
  stepNew : ∀ {a b s}, item b ∈ seen (step a s) → item b ∈ seen s ∨ waits (step a s) b
  stepQueued : ∀ {a b s}, waits (step a s) b → waits s b ∨ item b ∈ seen (step a s)

namespace Frontier

variable (F : Frontier σ α τ)

/-- Everything seen was reached, the roots are seen, what waits is seen, and an item seen waits or
is expanded. -/
structure Sound (roots : Set τ) (s : σ) : Prop where
  reached : ∀ t ∈ F.seen s, Reached F.item F.adds roots t
  rooted : roots ⊆ F.seen s
  queued : ∀ a, F.waits s a → F.item a ∈ F.seen s
  expanded : ∀ a, F.item a ∈ F.seen s → F.waits s a ∨ F.adds a ⊆ F.seen s

variable {F} {roots : Set τ}

theorem Sound.round {s rest : σ} {a : α} (sound : F.Sound roots s)
    (popped : F.pop s = some (a, rest)) : F.Sound roots (F.step a rest) := by
  have known := sound.queued a ((F.popWaits popped a).mpr (.inl rfl))
  have grown := F.stepSeen a rest
  rw [F.popSeen popped] at grown
  have kept : F.seen s ⊆ F.seen (F.step a rest) := by
    rw [grown]
    exact Set.subset_union_left
  constructor
  · intro t there
    rw [grown] at there
    rcases there with old | added
    · exact sound.reached t old
    · exact .next (sound.reached _ known) added
  · exact sound.rooted.trans kept
  · intro b waits
    rcases F.stepQueued waits with before | seen
    · exact kept (sound.queued b ((F.popWaits popped b).mpr (.inr before)))
    · exact seen
  · intro b there
    rcases F.stepNew there with old | waits
    · rw [F.popSeen popped] at old
      rcases sound.expanded b old with waits | done
      · rcases (F.popWaits popped b).mp waits with rfl | still
        · right
          rw [grown]
          exact Set.subset_union_right
        · exact .inl (F.stepWaits still)
      · exact .inr (done.trans kept)
    · exact .inl waits

/-- A worklist that comes to an end has seen what is reached, and nothing else. -/
theorem seen_drained {fuel : Nat} {s last : σ} (start : F.Sound roots s)
    (drained : drain F.pop F.step fuel s = some last) :
    F.seen last = {t | Reached F.item F.adds roots t} := by
  have keeps : ∀ s a rest, F.Sound roots s → F.pop s = some (a, rest) →
      F.Sound roots (F.step a rest) := fun _ _ _ sound popped => sound.round popped
  obtain ⟨sound, empty⟩ := drain_keeps keeps start drained
  ext t
  constructor
  · exact sound.reached t
  · intro reached
    induction reached with
    | root there => exact sound.rooted there
    | next _ added ih =>
        rcases sound.expanded _ ih with waits | done
        · exact absurd waits (F.popNone empty)
        · exact done added

end Frontier

end Worklist
