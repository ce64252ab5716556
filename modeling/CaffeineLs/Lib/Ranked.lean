/-
Module: CaffeineLs.Lib.Ranked
Purpose: Recursion over a ranked structure: the meaning of a node from the meanings of its parts.
Trusted boundary: none
Main exports: Local, tower, tower_eq
-/
import Mathlib.Order.Basic

namespace Ranked

universe u v

variable {α : Type u} {β : Type v}

/-- `F` gives a node a meaning that depends on the meanings of its parts only. -/
def Local (parts : α → List α) (F : (α → β) → α → β) : Prop :=
  ∀ (f g : α → β) (a : α), (∀ part ∈ parts a, f part = g part) → F f a = F g a

/-- The meaning found by looking `fuel` levels deep. -/
def layers (F : (α → β) → α → β) (bottom : α → β) : Nat → α → β
  | 0 => bottom
  | fuel + 1 => F (layers F bottom fuel)

/-- The meaning of a node, found by looking as deep as the node is high. -/
def tower (height : α → Nat) (F : (α → β) → α → β) (bottom : α → β) (a : α) : β :=
  layers F bottom (height a + 1) a

variable {parts : α → List α} {height : α → Nat} {F : (α → β) → α → β} {bottom : α → β}

/-- Looking deeper than a node is high finds nothing more. -/
theorem layers_eq_tower (lower : ∀ a, ∀ part ∈ parts a, height part < height a)
    (respects : Local parts F) {fuel : Nat} {a : α} (enough : height a < fuel) :
    layers F bottom fuel a = tower height F bottom a := by
  induction fuel using Nat.strongRecOn generalizing a with
  | ind fuel ih =>
      cases fuel with
      | zero => exact absurd enough (Nat.not_lt_zero _)
      | succ fuel =>
          apply respects
          intro part inside
          have below := lower a part inside
          have fits : height part < fuel := by omega
          rcases Nat.lt_or_ge (height a) fuel with deeper | exactly
          · rw [ih fuel (Nat.lt_succ_self _) fits, ih (height a) (by omega) below]
          · obtain rfl : fuel = height a := by omega
            rfl

/-- The meaning of a node from the meanings of its parts. -/
theorem tower_eq (lower : ∀ a, ∀ part ∈ parts a, height part < height a)
    (respects : Local parts F) (a : α) :
    tower height F bottom a = F (tower height F bottom) a :=
  respects _ _ a fun part inside => layers_eq_tower lower respects (lower a part inside)

/-- What holds of a node when it holds of its parts holds of every node. -/
theorem ranked_induction (lower : ∀ a, ∀ part ∈ parts a, height part < height a) {P : α → Prop}
    (step : ∀ a, (∀ part ∈ parts a, P part) → P a) (a : α) : P a := by
  induction rank : height a using Nat.strongRecOn generalizing a with
  | ind n ih =>
      subst rank
      exact step a fun part inside => ih (height part) (lower a part inside) part rfl

end Ranked
