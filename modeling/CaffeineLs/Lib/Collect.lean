/-
Module: CaffeineLs.Lib.Collect
Purpose: Functions that add to what a state has seen: composition and loops, and what a walk over a
  forest gathers.
Trusted boundary: none
Main exports: Collects, Collects.comp, Collects.foldl
-/
import Mathlib.Data.Set.Lattice

namespace Collect

universe u v w

variable {σ : Type u} {β : Type v} {α : Type w}

/-- `g` adds exactly `S` to what a state has seen. -/
def Collects (seen : σ → Set β) (g : σ → σ) (S : Set β) : Prop :=
  ∀ s, seen (g s) = seen s ∪ S

variable {seen : σ → Set β} {g h : σ → σ} {S T : Set β}

theorem Collects.mem (collects : Collects seen g S) {s : σ} {b : β} :
    b ∈ seen (g s) ↔ b ∈ seen s ∨ b ∈ S := by
  rw [collects s]
  exact Iff.rfl

theorem Collects.congr (collects : Collects seen g S) (same : S = T) : Collects seen g T :=
  same ▸ collects

theorem Collects.id : Collects seen (fun s => s) ∅ := fun s => (Set.union_empty (seen s)).symm

theorem Collects.comp (first : Collects seen g S) (second : Collects seen h T) :
    Collects seen (fun s => h (g s)) (S ∪ T) := by
  intro s
  rw [second, first, Set.union_assoc]

/-- A loop adds what its rounds add. -/
theorem Collects.foldl {step : σ → α → σ} {S : α → Set β} (xs : List α)
    (each : ∀ x ∈ xs, Collects seen (fun s => step s x) (S x)) :
    Collects seen (fun s => xs.foldl step s) (⋃ x ∈ xs, S x) := by
  induction xs with
  | nil =>
      intro s
      simp
  | cons x xs ih =>
      intro s
      have rest := ih (fun y there => each y (List.mem_cons_of_mem x there)) (step s x)
      have here := each x List.mem_cons_self s
      simp only [List.foldl_cons] at rest here ⊢
      rw [rest, here, Set.union_assoc]
      congr 1
      ext b
      simp

/-! ### Walks over a forest -/

variable (parts : α → List α) (own : α → Set β)

/-- What a walk `fuel` levels deep meets from `a`. -/
def gathered : Nat → α → Set β
  | 0, _ => ∅
  | fuel + 1, a => own a ∪ ⋃ part ∈ parts a, gathered fuel part

/-- `b` stands somewhere inside `a`, or is `a`. -/
def Inside (a b : α) : Prop := Relation.ReflTransGen (fun outer inner => inner ∈ parts outer) a b

variable {parts own}

theorem Inside.refl (a : α) : Inside parts a a := Relation.ReflTransGen.refl

theorem Inside.head {a b c : α} (part : b ∈ parts a) (inside : Inside parts b c) :
    Inside parts a c := Relation.ReflTransGen.head part inside

theorem Inside.tail {a b c : α} (inside : Inside parts a b) (part : c ∈ parts b) :
    Inside parts a c := Relation.ReflTransGen.tail inside part

theorem Inside.trans {a b c : α} (inside : Inside parts a b) (further : Inside parts b c) :
    Inside parts a c := Relation.ReflTransGen.trans inside further

theorem Inside.cases_head {a c : α} (inside : Inside parts a c) :
    a = c ∨ ∃ b ∈ parts a, Inside parts b c := Relation.ReflTransGen.cases_head inside

/-- A smaller set of parts reaches less. -/
theorem Inside.mono {more : α → List α} (fewer : ∀ a, ∀ b ∈ parts a, b ∈ more a) {a b : α}
    (inside : Inside parts a b) : Inside more a b :=
  Relation.ReflTransGen.mono (fun a b part => fewer a b part) _ _ inside

/-- A walk deep enough meets exactly what stands inside. -/
theorem mem_gathered_iff (height : α → Nat)
    (lower : ∀ a, ∀ part ∈ parts a, height part < height a) {fuel : Nat} {a : α} {b : β}
    (enough : height a < fuel) :
    b ∈ gathered parts own fuel a ↔ ∃ c, Inside parts a c ∧ b ∈ own c := by
  induction fuel generalizing a with
  | zero => exact absurd enough (Nat.not_lt_zero _)
  | succ fuel ih =>
      simp only [gathered, Set.mem_union, Set.mem_iUnion, exists_prop]
      constructor
      · rintro (here | ⟨part, inside, there⟩)
        · exact ⟨a, .refl a, here⟩
        · have below := lower a part inside
          obtain ⟨c, further, holds⟩ := (ih (by omega)).mp there
          exact ⟨c, .head inside further, holds⟩
      · rintro ⟨c, inside, holds⟩
        rcases inside.cases_head with rfl | ⟨part, first, further⟩
        · exact .inl holds
        · have below := lower a part first
          exact .inr ⟨part, first, (ih (by omega)).mpr ⟨c, further, holds⟩⟩

end Collect
