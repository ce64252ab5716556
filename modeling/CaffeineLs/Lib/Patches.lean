/-
Module: CaffeineLs.Lib.Patches
Purpose: Bytes written over a list at given positions, one patch after another.
Trusted boundary: none
Main exports: Patch, Patch.apply, applyPatches
-/
import Mathlib.Data.List.Basic

namespace Patches

variable {α : Type}

/-- The positions from `pos` on, `width` of them. -/
structure Region where
  pos : Nat
  width : Nat
deriving DecidableEq, Repr

namespace Region

def Apart (a b : Region) : Prop := a.pos + a.width ≤ b.pos ∨ b.pos + b.width ≤ a.pos

theorem Apart.symm {a b : Region} (apart : Apart a b) : Apart b a := Or.symm apart

instance : Std.Symm Apart := ⟨fun _ _ => Apart.symm⟩

end Region

structure Patch (α : Type) where
  pos : Nat
  values : List α

namespace Patch

def region (patch : Patch α) : Region := ⟨patch.pos, patch.values.length⟩

/-- `out[pos + i] = values[i]` for every `i`. -/
def apply (out : List α) (patch : Patch α) : List α :=
  out.take patch.pos ++ patch.values ++ out.drop (patch.pos + patch.values.length)

/-- All of the positions are there. -/
def Fits (length : Nat) (patch : Patch α) : Prop := patch.pos + patch.values.length ≤ length

theorem length_apply {out : List α} {patch : Patch α} (fits : patch.Fits out.length) :
    (patch.apply out).length = out.length := by
  unfold Fits at fits
  simp only [apply, List.length_append, List.length_take, List.length_drop]
  omega

theorem apply_inside {out : List α} {patch : Patch α} (fits : patch.Fits out.length) {i : Nat}
    (inside : i < patch.values.length) :
    (patch.apply out)[patch.pos + i]? = patch.values[i]? := by
  have before : (out.take patch.pos).length = patch.pos := by
    unfold Fits at fits
    rw [List.length_take]
    omega
  unfold apply
  rw [List.append_assoc, List.getElem?_append_right (by omega), before, Nat.add_sub_cancel_left,
    List.getElem?_append_left inside]

theorem apply_outside {out : List α} {patch : Patch α} (fits : patch.Fits out.length) {i : Nat}
    (outside : i < patch.pos ∨ patch.pos + patch.values.length ≤ i) :
    (patch.apply out)[i]? = out[i]? := by
  have before : (out.take patch.pos).length = patch.pos := by
    unfold Fits at fits
    rw [List.length_take]
    omega
  unfold apply
  rcases outside with left | right
  · rw [List.append_assoc, List.getElem?_append_left (by omega), List.getElem?_take_of_lt left]
  · rw [List.getElem?_append_right (by simp; omega), List.getElem?_drop]
    congr 1
    simp only [List.length_append, before]
    omega

end Patch

/-- The patches in order. -/
def applyPatches (out : List α) (patches : List (Patch α)) : List α :=
  patches.foldl (fun out patch => patch.apply out) out

theorem applyPatches_cons (out : List α) (patch : Patch α) (patches : List (Patch α)) :
    applyPatches out (patch :: patches) = applyPatches (patch.apply out) patches := rfl

theorem applyPatches_append (out : List α) (first second : List (Patch α)) :
    applyPatches out (first ++ second) = applyPatches (applyPatches out first) second :=
  List.foldl_append

theorem applyPatches_outside {patches : List (Patch α)} {out : List α}
    (fits : ∀ patch ∈ patches, patch.Fits out.length) {i : Nat}
    (outside : ∀ patch ∈ patches, i < patch.pos ∨ patch.pos + patch.values.length ≤ i) :
    (applyPatches out patches)[i]? = out[i]? := by
  induction patches generalizing out with
  | nil => rfl
  | cons patch patches ih =>
      have first := fits patch List.mem_cons_self
      have same := Patch.length_apply first
      rw [applyPatches_cons, ih]
      · exact Patch.apply_outside first (outside patch List.mem_cons_self)
      · exact fun later member => same ▸ fits later (List.mem_cons_of_mem _ member)
      · exact fun later member => outside later (List.mem_cons_of_mem _ member)

/-- Patches apart from each other all stand in the end. -/
theorem applyPatches_holds {patches : List (Patch α)} {out : List α}
    (fits : ∀ patch ∈ patches, patch.Fits out.length)
    (apart : (patches.map Patch.region).Pairwise Region.Apart) {patch : Patch α}
    (member : patch ∈ patches) {i : Nat} (inside : i < patch.values.length) :
    (applyPatches out patches)[patch.pos + i]? = patch.values[i]? := by
  induction patches generalizing out with
  | nil => cases member
  | cons first patches ih =>
      have here := fits first List.mem_cons_self
      have same := Patch.length_apply here
      have later : ∀ patch ∈ patches, patch.Fits (first.apply out).length :=
        fun patch member => same ▸ fits patch (List.mem_cons_of_mem _ member)
      obtain ⟨alone, rest⟩ := List.pairwise_cons.mp apart
      rw [applyPatches_cons]
      rcases List.mem_cons.mp member with rfl | among
      · rw [applyPatches_outside later, Patch.apply_inside here inside]
        intro other otherIn
        have separate := alone other.region (List.mem_map_of_mem otherIn)
        unfold Region.Apart Patch.region at separate
        simp only at separate
        omega
      · exact ih later rest among

/-- The values stand from the position on. -/
def Holds (out : List α) (pos : Nat) (values : List α) : Prop := values <+: out.drop pos

theorem holds_of_getElem? {out values : List α} {pos : Nat}
    (each : ∀ i, i < values.length → out[pos + i]? = values[i]?) : Holds out pos values := by
  apply List.prefix_iff_getElem?.mpr
  intro i inside
  rw [List.getElem?_drop, each i inside, List.getElem?_eq_getElem inside]

end Patches
