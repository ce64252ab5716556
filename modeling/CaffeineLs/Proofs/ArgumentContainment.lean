/-
Module: CaffeineLs.Proofs.ArgumentContainment
Purpose: The test of type arguments is the containment of JLS §4.5.1, argument by argument.
Trusted boundary: none
Main exports: ArgContained, ArgsContained, paramsOk_iff
-/
import CaffeineLs.HirTy.TypeArguments
import CaffeineLs.Proofs.IntersectionMeet

namespace CaffeineLs.HirTy

open HirExpand

/-! ### Containment of type arguments -/

section Containment

variable (supertypes : Ty → List Ty)

/-- A type argument contains another, JLS §4.5.1. -/
inductive ArgContained : Ty → Ty → Prop where
  | anything {sub : Ty} : ArgContained sub (.wildcard none)
  | same {arg : Ty} (concrete : arg.isWildcard = false) : ArgContained arg arg
  | below {arg bound : Ty} (concrete : arg.isWildcard = false) (le : IsSubtype supertypes arg bound) :
      ArgContained arg (.wildcard (some (.upper, bound)))
  | above {arg bound : Ty} (concrete : arg.isWildcard = false) (le : IsSubtype supertypes bound arg) :
      ArgContained arg (.wildcard (some (.lower, bound)))
  | upper {sub sup : Ty} (le : IsSubtype supertypes sub sup) :
      ArgContained (.wildcard (some (.upper, sub))) (.wildcard (some (.upper, sup)))
  | lower {sub sup : Ty} (le : IsSubtype supertypes sup sub) :
      ArgContained (.wildcard (some (.lower, sub))) (.wildcard (some (.lower, sup)))
  | object {sub sup : Ty} (top : sup.isObject = true) :
      ArgContained (.wildcard (some (.lower, sub))) (.wildcard (some (.upper, sup)))

/-- Every argument is contained in its counterpart, and the raw type is above all. -/
def ArgsContained (subArgs supArgs : List Ty) : Prop :=
  supArgs = [] ∨ subArgs ≠ [] ∧ List.Forall₂ (ArgContained supertypes) subArgs supArgs

end Containment

section Subtyping

variable {supertypes : Ty → List Ty} {sub sup : Ty} {subArgs supArgs : List Ty}

/-- The test of one argument, with the same fuel for every question. -/
theorem argContained_of_argOk {fuel : Nat}
    (holds : argOk (isSubtype supertypes fuel) sub sup = some true) :
    ArgContained supertypes sub sup := by
  unfold argOk at holds
  split at holds
  · exact .anything
  · rename_i subBound supBound
    rcases subBound with ⟨_ | _, sub⟩ <;> rcases supBound with ⟨_ | _, sup⟩
    · exact .upper ⟨fuel, holds⟩
    · cases holds
    · exact .object (Option.some.inj holds)
    · exact .lower ⟨fuel, holds⟩
  · cases holds
  · rename_i notWildcard
    refine .below ?_ ⟨fuel, holds⟩
    cases sub with
    | wildcard bound => exact absurd rfl (notWildcard bound)
    | _ => rfl
  · rename_i notWildcard
    refine .above ?_ ⟨fuel, holds⟩
    cases sub with
    | wildcard bound => exact absurd rfl (notWildcard bound)
    | _ => rfl
  · have same : sub = sup := of_decide_eq_true (Option.some.inj holds)
    subst same
    refine .same ?_
    cases sub with
    | wildcard bound => simp_all
    | _ => rfl

/-- A contained argument passes the test with enough fuel. -/
theorem argOk_of_argContained (contained : ArgContained supertypes sub sup) :
    ∃ fuel, argOk (isSubtype supertypes fuel) sub sup = some true := by
  cases contained with
  | anything => exact ⟨0, by simp [argOk]⟩
  | same concrete =>
      refine ⟨0, ?_⟩
      cases sub with
      | wildcard _ => cases concrete
      | _ => simp [argOk]
  | below concrete le =>
      rcases le with ⟨fuel, known⟩
      refine ⟨fuel, ?_⟩
      cases sub with
      | wildcard _ => cases concrete
      | _ => exact known
  | above concrete le =>
      rcases le with ⟨fuel, known⟩
      refine ⟨fuel, ?_⟩
      cases sub with
      | wildcard _ => cases concrete
      | _ => exact known
  | upper le => exact le
  | lower le => exact le
  | object top => exact ⟨0, congrArg some top⟩

/-- More fuel does not change the test of an argument. -/
theorem argOk_fuel {fuel fuel' : Nat} (le : fuel ≤ fuel')
    (holds : argOk (isSubtype supertypes fuel) sub sup = some true) :
    argOk (isSubtype supertypes fuel') sub sup = some true :=
  argOk_mono (isSubtype_mono le) holds

/-- The tests of all arguments in turn are containment throughout. -/
theorem allM_argOk_iff (length : subArgs.length = supArgs.length) :
    (∃ fuel, (subArgs.zip supArgs).allM
        (fun (sub, sup) => argOk (isSubtype supertypes fuel) sub sup) = some true) ↔
      List.Forall₂ (ArgContained supertypes) subArgs supArgs := by
  constructor
  · rintro ⟨fuel, holds⟩
    rw [allM_eq_true] at holds
    rw [List.forall₂_iff_zip]
    exact ⟨length, fun inside => argContained_of_argOk (holds _ inside)⟩
  · intro contained
    induction contained with
    | nil => exact ⟨0, rfl⟩
    | cons first _ ih =>
        rcases argOk_of_argContained first with ⟨fuel, holds⟩
        rcases ih (Nat.succ.inj length) with ⟨fuel', others⟩
        refine ⟨max fuel fuel', ?_⟩
        rw [allM_eq_true] at others ⊢
        intro pair inside
        rcases List.mem_cons.mp inside with rfl | inside
        · exact argOk_fuel (Nat.le_max_left fuel fuel') holds
        · exact argOk_fuel (Nat.le_max_right fuel fuel') (others pair inside)

/-- The arguments pass exactly when they are contained. -/
theorem paramsOk_iff :
    (∃ fuel, paramsOk (isSubtype supertypes fuel) subArgs supArgs = some true) ↔
      ArgsContained supertypes subArgs supArgs := by
  cases supArgs with
  | nil => exact iff_of_true ⟨0, rfl⟩ (.inl rfl)
  | cons sup sups =>
      cases subArgs with
      | nil => simp [paramsOk, ArgsContained]
      | cons sub subs =>
          have contained : ArgsContained supertypes (sub :: subs) (sup :: sups) ↔
              List.Forall₂ (ArgContained supertypes) (sub :: subs) (sup :: sups) := by
            simp [ArgsContained]
          rw [contained]
          by_cases length : (sub :: subs).length = (sup :: sups).length
          · rw [← allM_argOk_iff length]
            simp only [paramsOk, List.isEmpty_cons, Bool.false_eq_true, if_false, if_pos length]
          · refine iff_of_false ?_ fun all => length all.length_eq
            rintro ⟨fuel, holds⟩
            rw [paramsOk, if_neg (by simp), if_neg (by simp), if_neg length] at holds
            cases holds

/-- References of one name are subtypes where the arguments are contained. -/
theorem isSubtype_of_argsContained {name : Name} {subLoc supLoc : Option SourceClass}
    (contained : ArgsContained supertypes subArgs supArgs) :
    IsSubtype supertypes (.reference name subArgs subLoc) (.reference name supArgs supLoc) := by
  rcases paramsOk_iff.mpr contained with ⟨fuel, holds⟩
  refine ⟨fuel + 1, ?_⟩
  rw [isSubtype]
  unfold isSubtypeBody
  split
  · rfl
  · split
    · rfl
    · simpa only [referenceSubtype, if_pos] using holds

end Subtyping

end CaffeineLs.HirTy
