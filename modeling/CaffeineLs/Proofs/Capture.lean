/-
Module: CaffeineLs.Proofs.Capture
Purpose: Capture conversion replaces wildcards by fresh variables, and the captured type is below the
  type it captures. The bounds are not those of JLS §5.1.10.
Trusted boundary: the declared type parameters of a class are what the class table says they are.
Main exports: Captured, captures_without_declared_bound, Ty.rewriteWith_varLeaf
-/
import CaffeineLs.Proofs.ArgumentContainment
import CaffeineLs.Proofs.Rewriting

namespace CaffeineLs.HirTy

open HirExpand

/-! ### The numbers of the variables -/

section Numbers

variable {args : List Ty} {i j : Nat}

/-- The wildcards before a position. -/
def wildcardsBefore (args : List Ty) (i : Nat) : Nat := (args.take i).countP Ty.isWildcard

/-- The argument at a position is a wildcard. -/
def WildcardAt (args : List Ty) (i : Nat) : Prop :=
  ∃ arg, args[i]? = some arg ∧ arg.isWildcard = true

theorem wildcardsBefore_cons {arg : Ty} :
    wildcardsBefore (arg :: args) (i + 1) =
      (if arg.isWildcard then 1 else 0) + wildcardsBefore args i := by
  simp only [wildcardsBefore, List.take_succ_cons, List.countP_cons]
  exact Nat.add_comm _ _

/-- A wildcard is counted behind its position. -/
theorem wildcardsBefore_lt (wild : WildcardAt args i) (lt : i < j) :
    wildcardsBefore args i < wildcardsBefore args j := by
  induction args generalizing i j with
  | nil => rcases wild with ⟨arg, found, _⟩; simp at found
  | cons arg args ih =>
      obtain ⟨j, rfl⟩ : ∃ k, j = k + 1 := ⟨j - 1, by omega⟩
      rw [wildcardsBefore_cons]
      rcases wild with ⟨other, found, wild⟩
      cases i with
      | zero =>
          obtain rfl : arg = other := by simpa using found
          rw [if_pos wild]
          exact Nat.lt_of_lt_of_le Nat.zero_lt_one (Nat.le_add_right 1 _)
      | succ i =>
          rw [wildcardsBefore_cons]
          have later : WildcardAt args i := ⟨other, by simpa using found, wild⟩
          exact Nat.add_lt_add_left (ih later (Nat.lt_of_succ_lt_succ lt)) _

theorem wildcardsBefore_lt_all (wild : WildcardAt args i) :
    wildcardsBefore args i < args.countP Ty.isWildcard := by
  have inside : i < args.length := by
    rcases wild with ⟨arg, found, _⟩
    exact (List.getElem?_eq_some_iff.mp found).1
  have counted := wildcardsBefore_lt wild inside
  rwa [show wildcardsBefore args args.length = args.countP Ty.isWildcard by
    rw [wildcardsBefore, List.take_length]] at counted

/-- No two wildcards have the same number. -/
theorem wildcardsBefore_injective (first : WildcardAt args i) (second : WildcardAt args j)
    (same : wildcardsBefore args i = wildcardsBefore args j) : i = j := by
  rcases Nat.lt_trichotomy i j with lt | eq | gt
  · exact absurd same (Nat.ne_of_lt (wildcardsBefore_lt first lt))
  · exact eq
  · exact absurd same.symm (Nat.ne_of_lt (wildcardsBefore_lt second gt))

end Numbers

/-! ### The runs of the counter -/

section Runs

variable {declared : List Ty} {arg : Ty} {args : List Ty} {next i j : Nat}

/-- The placeholder of a wildcard, and none for another argument. -/
def placeholderOf (id : Nat) (arg : Ty) : Option Ty :=
  if arg.isWildcard then some (.typeVar (captureScope id) [] none) else none

theorem placeholdersFor_cons :
    placeholdersFor (arg :: args) next =
      (placeholderOf next arg ::
          (placeholdersFor args (next + if arg.isWildcard then 1 else 0)).1,
        (placeholdersFor args (next + if arg.isWildcard then 1 else 0)).2) := by
  cases wild : arg.isWildcard with
  | true =>
      simp only [placeholdersFor, placeholderOf, wild, if_true]
      rfl
  | false =>
      simp only [placeholdersFor, placeholderOf, wild, Bool.false_eq_true, if_false]
      rfl

/-- The placeholders take the next numbers. -/
theorem placeholdersFor_next :
    (placeholdersFor args next).2 = next + args.countP Ty.isWildcard := by
  induction args generalizing next with
  | nil => rfl
  | cons arg args ih =>
      rw [placeholdersFor_cons, ih, List.countP_cons]
      omega

theorem placeholdersFor_get :
    (placeholdersFor args next).1[i]? =
      args[i]?.map fun arg => placeholderOf (next + wildcardsBefore args i) arg := by
  induction args generalizing next i with
  | nil => rfl
  | cons arg args ih =>
      rw [placeholdersFor_cons]
      cases i with
      | zero => simp [wildcardsBefore]
      | succ i =>
          rw [wildcardsBefore_cons, List.getElem?_cons_succ, ih, List.getElem?_cons_succ]
          simp only [Nat.add_assoc]

/-- An argument takes a number when it is a wildcard. -/
theorem captureArg_next {bound : Option Ty} :
    (captureArg bound arg next).2 = next + if arg.isWildcard then 1 else 0 := by
  unfold captureArg
  split
  · rfl
  · rfl
  · rfl
  · rename_i notUpper notLower notBare
    cases arg with
    | wildcard inner =>
        rcases inner with _ | ⟨_ | _, bound⟩
        · exact (notBare rfl).elim
        · exact (notUpper bound rfl).elim
        · exact (notLower bound rfl).elim
    | _ => rfl

theorem captureArgs_cons :
    captureArgs declared i (arg :: args) next =
      ((captureArg declared[i]? arg next).1 ::
          (captureArgs declared (i + 1) args (captureArg declared[i]? arg next).2).1,
        (captureArgs declared (i + 1) args (captureArg declared[i]? arg next).2).2) := rfl

theorem captureArgs_next :
    (captureArgs declared i args next).2 = next + args.countP Ty.isWildcard := by
  induction args generalizing i next with
  | nil => rfl
  | cons arg args ih =>
      rw [captureArgs_cons, ih, captureArg_next, List.countP_cons]
      omega

theorem captureArgs_length : (captureArgs declared i args next).1.length = args.length := by
  induction args generalizing i next with
  | nil => rfl
  | cons arg args ih =>
      rw [captureArgs_cons, List.length_cons, ih, List.length_cons]

/-- Every argument is captured with the number it has among the wildcards. -/
theorem captureArgs_get :
    (captureArgs declared i args next).1[j]? =
      args[j]?.map fun arg =>
        (captureArg declared[i + j]? arg (next + wildcardsBefore args j)).1 := by
  induction args generalizing i j next with
  | nil => rfl
  | cons arg args ih =>
      rw [captureArgs_cons]
      cases j with
      | zero => simp [wildcardsBefore]
      | succ j =>
          rw [wildcardsBefore_cons, List.getElem?_cons_succ, ih, List.getElem?_cons_succ,
            captureArg_next]
          simp only [Nat.add_assoc, Nat.add_comm 1 j]

end Runs

/-! ### The bounds -/

section Bounds

variable {supertypes : Ty → List Ty} {ty : Ty} {scope : TypeVarScope}

theorem isSubtype_self (fuel : Nat) : isSubtype supertypes (fuel + 1) ty ty = some true := by
  rw [isSubtype]
  unfold isSubtypeBody
  rw [if_pos rfl]

/-- A type is below every variable that it bounds below. -/
theorem isSubtype_lower {bounds : List Ty} :
    IsSubtype supertypes ty (.typeVar scope bounds (some ty)) := by
  refine ⟨2, ?_⟩
  rw [isSubtype]
  unfold isSubtypeBody
  split
  · rfl
  · split
    · rfl
    · cases ty <;> exact isSubtype_self 0

/-- What stands at the end of the lower bounds of a type. -/
def Ty.bottom : Ty → Ty
  | .typeVar _ _ (some lower) => lower.bottom
  | ty => ty

/-- A class type, or a type variable without a lower bound. -/
def Ty.IsSingle : Ty → Prop
  | .reference _ _ _ => True
  | .typeVar _ _ none => True
  | _ => False

/-- For a variable below a single type the bounds are searched. -/
theorem isSubtype_single {fuel : Nat} {bounds : List Ty} {lower : Option Ty} {sup : Ty}
    (single : sup.IsSingle)
    (holds : sup.isObject = false →
      boundLoop (isSubtype supertypes fuel) sup fuel [] [.typeVar scope bounds lower] = some true) :
    isSubtype supertypes (fuel + 1) (.typeVar scope bounds lower) sup = some true := by
  have search : typeVarSubtype (isSubtype supertypes fuel) fuel (.typeVar scope bounds lower) sup =
      some true := by
    unfold typeVarSubtype
    cases object : sup.isObject with
    | true => rfl
    | false =>
        cases sup with
        | reference => exact holds object
        | typeVar other others othersLower =>
            cases othersLower with
            | none => exact holds object
            | some _ => exact single.elim
        | _ => exact single.elim
  rw [isSubtype]
  unfold isSubtypeBody
  split
  · rfl
  · split
    · rfl
    · cases sup with
      | reference => exact search
      | typeVar other others othersLower =>
          cases othersLower with
          | none => exact search
          | some _ => exact single.elim
      | _ => exact single.elim

/-- A type is below the end of its lower bounds. -/
theorem isSubtype_bottom (single : ty.bottom.IsSingle) : IsSubtype supertypes ty ty.bottom := by
  induction ty using Ty.bottom.induct with
  | case1 scope bounds lower ih =>
      rw [Ty.bottom] at single ⊢
      rcases ih single with ⟨fuel, known⟩
      have more := isSubtype_mono (Nat.le_succ fuel) known
      refine ⟨fuel + 2, isSubtype_single single fun _ => ?_⟩
      simp [boundLoop, lowerReaches, more]
  | case2 ty other =>
      rw [Ty.bottom]
      · exact ⟨1, isSubtype_self 0⟩
      · exact other

/-- A variable without a lower bound is below the end of the lower bounds of its upper bound. -/
theorem isSubtype_variable_bottom {bound : Ty} (single : bound.bottom.IsSingle) :
    IsSubtype supertypes (.typeVar scope [bound] none) bound.bottom := by
  have shape : bound.bottom = bound ∨
      ∃ other bounds lower, bound = .typeVar other bounds (some lower) := by
    unfold Ty.bottom
    split
    · exact .inr ⟨_, _, _, rfl⟩
    · exact .inl rfl
  rcases shape with direct | ⟨other, bounds, lower, rfl⟩
  · rw [direct] at single ⊢
    refine ⟨2, isSubtype_single single fun _ => ?_⟩
    simp [boundLoop, lowerReaches, boundsRound]
  · -- The walk comes to the bound itself, and asks about its lower bound there.
    rw [Ty.bottom] at single ⊢
    have below : IsSubtype supertypes lower lower.bottom := isSubtype_bottom single
    rcases below with ⟨fuel, known⟩
    have more := isSubtype_mono (Nat.le_add_right fuel 2) known
    refine ⟨fuel + 3, isSubtype_single single fun _ => ?_⟩
    cases met : decide (Ty.typeVar other bounds (some lower) = lower.bottom) ||
        (Ty.typeVar other bounds (some lower)).sameShape lower.bottom with
    | true => simp [boundLoop, lowerReaches, boundsRound, met]
    | false => simp [boundLoop, lowerReaches, boundsRound, met, more]

/-- And so below everything with that end. -/
theorem isSubtype_variable {bound sup : Ty} (single : bound.bottom.IsSingle)
    (same : sup.bottom = bound.bottom) :
    IsSubtype supertypes (.typeVar scope [bound] none) sup := by
  induction sup using Ty.bottom.induct with
  | case1 other bounds lower ih =>
      rw [Ty.bottom] at same
      rcases ih same with ⟨fuel, known⟩
      refine ⟨fuel + 1, ?_⟩
      rw [isSubtype]
      unfold isSubtypeBody
      split
      · rfl
      · split
        · rfl
        · exact known
  | case2 sup other =>
      rw [Ty.bottom] at same
      · rw [same]
        exact isSubtype_variable_bottom single
      · exact other

end Bounds

/-! ### Bounds that mention no wildcard -/

mutual

/-- The type variables that a substitution comes to. -/
def Ty.freeVariables : Ty → List TypeVarScope
  | .typeVar scope _ _ => [scope]
  | .reference _ args _ => Ty.freeVariablesIn args
  | .array inner => inner.freeVariables
  | .nullable inner => inner.freeVariables
  | .definitelyNonNull inner => inner.freeVariables
  | .wildcard (some (_, bound)) => bound.freeVariables
  | .intersection members => Ty.freeVariablesIn members
  | .flexible lower upper => lower.freeVariables ++ upper.freeVariables
  | _ => []

def Ty.freeVariablesIn : List Ty → List TypeVarScope
  | [] => []
  | ty :: tys => ty.freeVariables ++ Ty.freeVariablesIn tys

end

mutual

/-- Only what the variables of a type are replaced by counts. -/
theorem Ty.substitute_congr {binding binding' : TypeVarScope → Option Ty} :
    (ty : Ty) → (∀ scope ∈ ty.freeVariables, binding scope = binding' scope) →
      ty.substitute binding = ty.substitute binding'
  | .typeVar scope _ _, agree => by
      rw [Ty.substitute, Ty.substitute, agree scope (by simp [Ty.freeVariables])]
  | .reference _ args _, agree => by
      rw [Ty.substitute, Ty.substitute, Ty.substituteAll_congr args agree]
  | .array inner, agree => by
      rw [Ty.substitute, Ty.substitute, Ty.substitute_congr inner agree]
  | .nullable inner, agree => by
      rw [Ty.substitute, Ty.substitute, Ty.substitute_congr inner agree]
  | .definitelyNonNull inner, agree => by
      rw [Ty.substitute, Ty.substitute, Ty.substitute_congr inner agree]
  | .wildcard none, _ => rfl
  | .wildcard (some (_, bound)), agree => by
      rw [Ty.substitute, Ty.substitute, Ty.substitute_congr bound agree]
  | .intersection members, agree => by
      rw [Ty.substitute, Ty.substitute, Ty.substituteAll_congr members agree]
  | .flexible lower upper, agree => by
      have first := Ty.substitute_congr lower fun scope inside =>
        agree scope (List.mem_append_left _ inside)
      have second := Ty.substitute_congr upper fun scope inside =>
        agree scope (List.mem_append_right _ inside)
      rw [Ty.substitute, Ty.substitute, first, second]
  | .void, _ => rfl
  | .null, _ => rfl
  | .primitive _, _ => rfl
  | .inferenceVar _, _ => rfl
  | .error, _ => rfl

theorem Ty.substituteAll_congr {binding binding' : TypeVarScope → Option Ty} :
    (tys : List Ty) → (∀ scope ∈ Ty.freeVariablesIn tys, binding scope = binding' scope) →
      Ty.substituteAll binding tys = Ty.substituteAll binding' tys
  | [], _ => rfl
  | ty :: tys, agree => by
      have first := Ty.substitute_congr ty fun scope inside =>
        agree scope (List.mem_append_left _ inside)
      have others := Ty.substituteAll_congr tys fun scope inside =>
        agree scope (List.mem_append_right _ inside)
      rw [Ty.substituteAll, Ty.substituteAll, first, others]

end

/-! ### Substitutions compose -/

namespace Ty

variable (binding first second : TypeVarScope → Option Ty)

theorem substituteAll_eq (tys : List Ty) : substituteAll binding tys = tys.map (substitute binding) := by
  induction tys with
  | nil => rfl
  | cons ty tys ih => rw [substituteAll, ih, List.map_cons]

theorem rewrite_varLeaf : (ty : Ty) → ty.rewrite (varLeaf binding) = ty.substitute binding
  | .typeVar .. => rewrite_done rfl
  | .reference _ args _ => by
      rw [rewrite_recur rfl, rebuildWith, substitute, substituteAll_eq,
        List.map_congr_left fun arg (_ : arg ∈ args) => rewrite_varLeaf arg]
  | .intersection members => by
      rw [rewrite_recur rfl, rebuildWith, substitute, substituteAll_eq,
        List.map_congr_left fun member (_ : member ∈ members) => rewrite_varLeaf member]
  | .array inner | .nullable inner | .definitelyNonNull inner | .wildcard (some (_, inner)) => by
      rw [rewrite_recur rfl, rebuildWith, substitute, rewrite_varLeaf inner]
  | .flexible lower upper => by
      rw [rewrite_recur rfl, rebuildWith, substitute, rewrite_varLeaf lower, rewrite_varLeaf upper]
  | .wildcard none | .void | .null | .primitive _ | .inferenceVar _ | .error => rfl

/-- The rewriting loop substitutes. -/
theorem rewriteWith_varLeaf {ty : Ty} (shallow : ty.nesting < maxRewriteDepth) :
    ty.rewriteWith (varLeaf binding) = some (ty.substitute binding) := by
  rw [rewriteWith_eq_rewrite _ shallow, rewrite_varLeaf]

theorem substitute_nullableOf (ty : Ty) :
    (nullableOf ty).substitute binding = nullableOf (ty.substitute binding) := by
  cases ty with
  | nullable inner =>
      rw [nullableOf, substitute]
      cases inner.substitute binding <;> rfl
  | _ => simp only [nullableOf, substitute]

theorem substitute_definitelyNonNullOf (ty : Ty) :
    (definitelyNonNullOf ty).substitute binding = definitelyNonNullOf (ty.substitute binding) := by
  cases ty with
  | definitelyNonNull inner =>
      rw [definitelyNonNullOf, substitute]
      cases inner.substitute binding <;> rfl
  | _ => simp only [definitelyNonNullOf, substitute]

theorem substitute_wildcardOf (kind : BoundKind) (bound : Ty) :
    (wildcardOf (some (kind, bound))).substitute binding =
      wildcardOf (some (kind, bound.substitute binding)) := by
  by_cases object : bound.isObject = true
  · have same : bound.substitute binding = bound := by
      cases bound with
      | reference name args loc =>
          have none : args = [] := by simp_all [isObject]
          rw [none, substitute, substituteAll, withArgs]
      | _ => cases object
    cases kind <;> simp only [same, wildcardOf, object, if_true, substitute]
  · cases kind <;> simp only [wildcardOf, object] <;> rfl

theorem substitute_intersectionOf (members : List Ty) :
    (intersectionOf members).substitute binding =
      intersectionOf (members.map (substitute binding)) := by
  rcases members with _ | ⟨_, _ | _⟩ <;> simp [intersectionOf, substitute, substituteAll_eq]

theorem substitute_flexibleOf (lower upper : Ty) :
    (flexibleOf lower upper).substitute binding =
      flexibleOf (lower.substitute binding) (upper.substitute binding) := by
  by_cases same : lower = upper
  · simp only [same, flexibleOf, if_true]
  · simp only [flexibleOf, if_neg same, substitute]

/-- Two substitutions one after the other are one. -/
theorem substitute_substitute : (ty : Ty) →
    (ty.substitute first).substitute second =
      ty.substitute fun scope => ((first scope).map (substitute second)).or (second scope)
  | .typeVar scope _ _ => by
      rw [substitute, substitute]
      cases first scope <;> simp [substitute]
  | .reference _ args _ => by
      have parts := List.map_congr_left fun arg (_ : arg ∈ args) => substitute_substitute arg
      simp only [substitute, substituteAll_eq, withArgs, List.map_map]
      rw [← parts]
      rfl
  | .array inner => by simp only [substitute, substitute_substitute inner]
  | .nullable inner => by
      rw [substitute, substitute_nullableOf, substitute_substitute inner, substitute]
  | .definitelyNonNull inner => by
      rw [substitute, substitute_definitelyNonNullOf, substitute_substitute inner, substitute]
  | .wildcard none => by simp only [substitute, wildcardOf]
  | .wildcard (some (_, bound)) => by
      rw [substitute, substitute_wildcardOf, substitute_substitute bound, substitute]
  | .intersection members => by
      have parts := List.map_congr_left fun member (_ : member ∈ members) =>
        substitute_substitute member
      rw [substitute, substituteAll_eq, substitute_intersectionOf, List.map_map, substitute,
        substituteAll_eq, ← parts]
      rfl
  | .flexible lower upper => by
      rw [substitute, substitute_flexibleOf, substitute_substitute lower, substitute_substitute upper,
        substitute]
  | .void | .null | .primitive _ | .inferenceVar _ | .error => by simp only [substitute]

end Ty

section Filling

variable {fill fill' : Nat → Ty} {params : List (TypeVarScope × List Ty)} {scope : TypeVarScope}

/-- Only the parameters of that scope count. -/
theorem paramBinding_congr
    (agree : ∀ i bounds, params[i]? = some (scope, bounds) → fill i = fill' i) :
    paramBinding fill params scope = paramBinding fill' params scope := by
  apply Option.map_congr
  rintro ⟨⟨declared, bounds⟩, i⟩ found
  have inside : ((declared, bounds), i) ∈ params.zipIdx :=
    List.mem_reverse.mp (List.mem_of_find?_eq_some found)
  have same : declared = scope := by simpa using List.find?_some found
  subst same
  exact agree i bounds (List.mem_zipIdx_iff_getElem?.mp inside)

end Filling

/-! ### What is captured -/

/-- A wildcard and the variable it is captured as. The variable of a bare wildcard has the bound of
its parameter. -/
inductive CapturedAs (id : Nat) (declared : Ty) : Ty → Ty → Prop where
  | upper {bound : Ty} :
      CapturedAs id declared (.wildcard (some (.upper, bound))) (.typeVar (captureScope id) [bound] none)
  | lower {bound : Ty} :
      CapturedAs id declared (.wildcard (some (.lower, bound)))
        (.typeVar (captureScope id) [.object] (some bound))
  | bare : CapturedAs id declared (.wildcard none) (.typeVar (captureScope id) [declared] none)

/-- The variables and the placeholders of the wildcards are new, and all of them are different. -/
structure Drawn (args : List Ty) (before after : Nat) (ids marks : Nat → Nat) : Prop where
  ids_new : ∀ i, WildcardAt args i → before ≤ ids i ∧ ids i < after
  marks_new : ∀ i, WildcardAt args i → before ≤ marks i ∧ marks i < after
  ids_distinct : ∀ i j, WildcardAt args i → WildcardAt args j →
    captureScope (ids i) = captureScope (ids j) → i = j
  marks_distinct : ∀ i j, WildcardAt args i → WildcardAt args j →
    captureScope (marks i) = captureScope (marks j) → i = j
  apart : ∀ i j, WildcardAt args i → WildcardAt args j → captureScope (ids i) ≠ captureScope (marks j)

/-- What a parameter is replaced by: its argument, or the placeholder of a wildcard. -/
def replacement (args : List Ty) (marks : Nat → Nat) (i : Nat) : Ty :=
  match args[i]? with
  | some arg => (placeholderOf (marks i) arg).getD arg
  | none => .object

/-- The first bound of a parameter, with the parameters replaced. -/
def declaredBound (params : List (TypeVarScope × List Ty)) (fill : Nat → Ty) (i : Nat) : Ty :=
  match params[i]? with
  | some (_, bounds) => upperBound (paramBinding fill params) bounds
  | none => .object

/-- The first bound of a parameter mentions no parameter that a wildcard stands for. -/
def Untied (params : List (TypeVarScope × List Ty)) (args : List Ty) (i : Nat) : Prop :=
  ∀ scope bounds bound, params[i]? = some (scope, bounds) → bounds.head? = some bound →
    ∀ j other others, params[j]? = some (other, others) → other ∈ bound.freeVariables →
      ¬ WildcardAt args j

/-- The arguments of the captured type. -/
structure Captured (params : List (TypeVarScope × List Ty)) (args : List Ty) (before after : Nat)
    (result : List Ty) (ids marks : Nat → Nat) : Prop where
  length : result.length = args.length
  unchanged : ∀ (i : Nat) (arg : Ty), args[i]? = some arg → arg.isWildcard = false → result[i]? = some arg
  drawn : Drawn args before after ids marks
  captured : ∀ (i : Nat) (arg : Ty), args[i]? = some arg → arg.isWildcard = true → ∃ var, result[i]? = some var ∧
    CapturedAs (ids i) (declaredBound params (replacement args marks) i) arg var
  tied : ∀ i : Nat, Untied params args i →
    declaredBound params (replacement args marks) i =
      declaredBound params (fun j => result[j]?.getD .object) i

section Conversion

variable {params : List (TypeVarScope × List Ty)} {args : List Ty} {before : Nat}

theorem captureScope_injective {id id' : Nat} (same : captureScope id = captureScope id') :
    id = id' := by
  injection same

/-- The placeholders take the first numbers, the variables those behind them. -/
theorem drawn_in_order {wildcards : Nat} (all : wildcards = args.countP Ty.isWildcard) :
    Drawn args before (before + wildcards + wildcards)
      (fun i => before + wildcards + wildcardsBefore args i)
      (fun i => before + wildcardsBefore args i) := by
  have within (i : Nat) (wild : WildcardAt args i) : wildcardsBefore args i < wildcards :=
    all ▸ wildcardsBefore_lt_all wild
  refine ⟨?_, ?_, ?_, ?_, ?_⟩
  · intro i wild
    have counted := within i wild
    omega
  · intro i wild
    have counted := within i wild
    omega
  · intro i j first second same
    exact wildcardsBefore_injective first second
      (Nat.add_left_cancel (captureScope_injective same))
  · intro i j first second same
    exact wildcardsBefore_injective first second
      (Nat.add_left_cancel (captureScope_injective same))
  · intro i j first second same
    have counted := within j second
    have numbers := captureScope_injective same
    omega

/-- What the code replaces the parameters by. -/
theorem filling_placeholders (i : Nat) :
    filling args (placeholdersFor args before).1 i =
      replacement args (fun i => before + wildcardsBefore args i) i := by
  unfold filling replacement
  rw [placeholdersFor_get]
  cases args[i]? with
  | none => rfl
  | some arg =>
      cases found : placeholderOf (before + wildcardsBefore args i) arg <;> simp [found]

theorem typeParamUpperBounds_get (i : Nat) :
    ((typeParamUpperBounds params args (placeholdersFor args before).1)[i]?).getD .object =
      declaredBound params (replacement args fun i => before + wildcardsBefore args i) i := by
  have same : filling args (placeholdersFor args before).1 =
      replacement args fun i => before + wildcardsBefore args i :=
    funext filling_placeholders
  unfold typeParamUpperBounds declaredBound
  rw [same, List.getElem?_map]
  cases params[i]? <;> rfl

/-- A wildcard is captured with the bound that is declared for its position. -/
theorem captureArg_captures {arg : Ty} {bound : Option Ty} {id : Nat} (wild : arg.isWildcard = true) :
    CapturedAs id (bound.getD .object) arg (captureArg bound arg id).1 := by
  cases arg with
  | wildcard inner =>
      rcases inner with _ | ⟨_ | _, own⟩
      · exact .bare
      · exact .upper
      · exact .lower
  | _ => cases wild

/-- Nothing else is captured. -/
theorem captureArg_unchanged {arg : Ty} {bound : Option Ty} {id : Nat}
    (concrete : arg.isWildcard = false) : (captureArg bound arg id).1 = arg := by
  cases arg with
  | wildcard _ => cases concrete
  | _ => rfl

/-- Where no wildcard is mentioned, the placeholders do not show. -/
theorem declaredBound_untied {fill fill' : Nat → Ty} {i : Nat} (untied : Untied params args i)
    (agree : ∀ j, ¬ WildcardAt args j → fill j = fill' j) :
    declaredBound params fill i = declaredBound params fill' i := by
  unfold declaredBound
  cases found : params[i]? with
  | none => rfl
  | some param =>
      rcases param with ⟨scope, bounds⟩
      cases first : bounds.head? with
      | none => simp [upperBound, first]
      | some bound =>
          have same : bound.substitute (paramBinding fill params) =
              bound.substitute (paramBinding fill' params) :=
            Ty.substitute_congr bound fun other inside =>
              paramBinding_congr fun j others at_ =>
                agree j (untied scope bounds bound found first j other others at_ inside)
          simp only [upperBound, first, Option.map_some, same]

/-- The placeholders are drawn before the variables. -/
theorem captureConversion_reference
    {declaredTypeParams : Name → List (TypeVarScope × List Ty)} {name : Name}
    {loc : Option SourceClass} :
    captureConversion declaredTypeParams (.reference name args loc) before =
      let declared := typeParamUpperBounds (declaredTypeParams name) args
        (placeholdersFor args before).1
      let run := captureArgs declared 0 args (placeholdersFor args before).2
      (.reference name run.1 loc, run.2) := rfl

/-- The captured arguments. -/
theorem captured_args :
    Captured params args before (before + args.countP Ty.isWildcard + args.countP Ty.isWildcard)
      (captureArgs (typeParamUpperBounds params args (placeholdersFor args before).1) 0 args
        (before + args.countP Ty.isWildcard)).1
      (fun i => before + args.countP Ty.isWildcard + wildcardsBefore args i)
      (fun i => before + wildcardsBefore args i) := by
  generalize result_eq : (captureArgs _ 0 args _).1 = result
  have get (i : Nat) : result[i]? = args[i]?.map fun arg =>
      (captureArg (typeParamUpperBounds params args (placeholdersFor args before).1)[i]? arg
        (before + args.countP Ty.isWildcard + wildcardsBefore args i)).1 := by
    rw [← result_eq, captureArgs_get, Nat.zero_add]
  have unchanged : ∀ (i : Nat) (arg : Ty), args[i]? = some arg → arg.isWildcard = false →
      result[i]? = some arg := by
    intro i arg found concrete
    rw [get, found]
    exact congrArg some (captureArg_unchanged concrete)
  refine ⟨?_, unchanged, drawn_in_order rfl, ?_, ?_⟩
  · rw [← result_eq, captureArgs_length]
  · intro i arg found wild
    refine ⟨_, by rw [get, found]; rfl, ?_⟩
    rw [← typeParamUpperBounds_get]
    exact captureArg_captures wild
  · intro i untied
    refine declaredBound_untied untied fun j concrete => ?_
    unfold replacement
    cases found : args[j]? with
    | none => simp [get, found]
    | some arg =>
        have plain : arg.isWildcard = false := by
          by_contra wild
          exact concrete ⟨arg, found, by simpa using wild⟩
        simp [placeholderOf, plain, unchanged j arg found plain]

/-- The captured arguments are contained in the ones they capture, where every upper bound ends in a
single type. -/
theorem Captured.contained {supertypes : Ty → List Ty} {after : Nat} {result : List Ty}
    {ids marks : Nat → Nat} (captured : Captured params args before after result ids marks)
    (single : ∀ bound, .wildcard (some (.upper, bound)) ∈ args → bound.bottom.IsSingle) :
    ArgsContained supertypes result args := by
  cases nonempty : args with
  | nil => exact .inl rfl
  | cons first others =>
      rw [← nonempty]
      have filled : result ≠ [] := by
        intro empty
        have length := captured.length
        rw [empty, nonempty] at length
        cases length
      refine .inr ⟨filled, List.forall₂_iff_get.mpr ⟨captured.length, ?_⟩⟩
      intro i inResult inArgs
      have found : args[i]? = some args[i] := List.getElem?_eq_getElem inArgs
      have here : result[i]? = some result[i] := List.getElem?_eq_getElem inResult
      change ArgContained supertypes result[i] args[i]
      cases wild : args[i].isWildcard with
      | false =>
          have same : result[i] = args[i] :=
            Option.some.inj (here.symm.trans (captured.unchanged i _ found wild))
          rw [same]
          exact .same wild
      | true =>
          rcases captured.captured i _ found wild with ⟨var, there, known⟩
          obtain rfl : result[i] = var := Option.some.inj (here.symm.trans there)
          generalize arg_eq : args[i] = arg at known
          generalize result[i] = var at known
          cases known with
          | upper =>
              rename_i bound
              have ends : bound.bottom.IsSingle := single bound (arg_eq ▸ List.getElem_mem inArgs)
              exact .below rfl (isSubtype_variable ends rfl)
          | lower => exact .above rfl isSubtype_lower
          | bare => exact .anything

end Conversion

/-- Capture conversion keeps the arguments that are no wildcards. Every wildcard becomes a variable
with a number of its own that was never drawn before: bounded by the bound of a `? extends`, above
the bound of a `? super`, and for a bare `?` bounded by the first bound its parameter declares, where
placeholders stand for the wildcards, so that this is the bound with the captured arguments in it
unless it mentions a wildcard. The captured type is below the one it captures where every
`? extends` has a class type or a type variable for its bound. -/
theorem captureConversion_captures (supertypes : Ty → List Ty)
    (declaredTypeParams : Name → List (TypeVarScope × List Ty)) (name : Name) (args : List Ty)
    (loc : Option SourceClass) (before : Nat) :
    ∃ result after ids marks,
      captureConversion declaredTypeParams (.reference name args loc) before =
          (.reference name result loc, after) ∧
        Captured (declaredTypeParams name) args before after result ids marks ∧
        ((∀ bound, .wildcard (some (.upper, bound)) ∈ args → bound.bottom.IsSingle) →
          IsSubtype supertypes (.reference name result loc) (.reference name args loc)) := by
  have captured : Captured (declaredTypeParams name) args before _ _ _ _ := captured_args
  refine ⟨_, _, _, _, ?_, captured, ?_⟩
  · simp only [captureConversion_reference, placeholdersFor_next, captureArgs_next]
  · intro single
    exact isSubtype_of_argsContained (captured.contained single)

theorem captureArg_concrete (bound : Option Ty) (arg : Ty) (id : Nat) :
    (captureArg bound arg id).1.isWildcard = false := by
  cases arg with
  | wildcard inner => rcases inner with _ | ⟨_ | _, _⟩ <;> rfl
  | _ => rfl

theorem captureArgs_concrete (declared : List Ty) (i : Nat) (args : List Ty) (id : Nat) :
    ∀ arg ∈ (captureArgs declared i args id).1, arg.isWildcard = false := by
  induction args generalizing i id with
  | nil => exact fun _ member => absurd member List.not_mem_nil
  | cons first args ih =>
      intro arg member
      rcases List.mem_cons.mp member with rfl | later
      · exact captureArg_concrete _ first id
      · exact ih _ _ arg later

theorem captureArgs_plain (declared : List Ty) (i : Nat) {args : List Ty} (id : Nat)
    (concrete : ∀ arg ∈ args, arg.isWildcard = false) : captureArgs declared i args id = (args, id) := by
  induction args generalizing i with
  | nil => rfl
  | cons first args ih =>
      have here : captureArg declared[i]? first id = (first, id) := by
        have plain := concrete first List.mem_cons_self
        cases first with
        | wildcard _ => cases plain
        | _ => rfl
      have later := ih (i + 1) fun arg member => concrete arg (List.mem_cons_of_mem _ member)
      rw [captureArgs_cons, here, later]

/-- A captured type is captured by itself, and no variable is drawn for it. -/
theorem captureConversion_captured (declaredTypeParams : Name → List (TypeVarScope × List Ty))
    (ty : Ty) (before next : Nat) :
    captureConversion declaredTypeParams (captureConversion declaredTypeParams ty before).1 next =
      ((captureConversion declaredTypeParams ty before).1, next) := by
  cases ty with
  | reference name args loc =>
      have concrete := captureArgs_concrete (typeParamUpperBounds (declaredTypeParams name) args
        (placeholdersFor args before).1) 0 args (placeholdersFor args before).2
      rw [captureConversion_reference]
      dsimp only
      generalize (captureArgs _ 0 args _).1 = captured at concrete ⊢
      have none : captured.countP Ty.isWildcard = 0 :=
        List.countP_eq_zero.mpr fun arg member => by simp [concrete arg member]
      simp only [captureConversion_reference, placeholdersFor_next, none, Nat.add_zero,
        captureArgs_plain _ 0 next concrete]
  | wildcard bound => rcases bound with _ | ⟨_ | _, _⟩ <;> rfl
  | _ => rfl

/-! ### The bounds of the specification -/

/-- What JLS §5.1.10 says of the captured type. -/
structure FollowsJls (supertypes : Ty → List Ty) (params : List (TypeVarScope × List Ty))
    (name : Name) (loc : Option SourceClass) (before : Nat) (args result : List Ty) : Prop where
  length : result.length = args.length
  unchanged : ∀ (i : Nat) (arg : Ty), args[i]? = some arg → arg.isWildcard = false →
    result[i]? = some arg
  fresh : ∀ i : Nat, WildcardAt args i → ∃ id bounds lower, before ≤ id ∧
    result[i]? = some (.typeVar (captureScope id) bounds lower)
  distinct : ∀ i j : Nat, WildcardAt args i → WildcardAt args j → result[i]? = result[j]? → i = j
  own : ∀ (i : Nat) (bound : Ty) (scope : TypeVarScope) (bounds : List Ty) (lower : Option Ty),
    args[i]? = some (.wildcard (some (.upper, bound))) →
    result[i]? = some (.typeVar scope bounds lower) →
    IsSubtype supertypes (.intersectionOf bounds) bound
  declared : ∀ (i : Nat) (param scope : TypeVarScope) (others bounds : List Ty) (lower : Option Ty),
    WildcardAt args i → params[i]? = some (param, others) →
    result[i]? = some (.typeVar scope bounds lower) → ∀ bound ∈ others,
    IsSubtype supertypes (.intersectionOf bounds)
      (bound.substitute (paramBinding (fun j => result[j]?.getD .object) params))
  below : IsSubtype supertypes (.reference name result loc) (.reference name args loc)

/-- For `class G<T extends N>` the type `G<? extends C>` is captured with the bound `C` alone. -/
theorem captures_without_declared_bound :
    ¬ ∀ (supertypes : Ty → List Ty) (declaredTypeParams : Name → List (TypeVarScope × List Ty))
      (name : Name) (args : List Ty) (loc : Option SourceClass) (before : Nat) (result : List Ty)
      (after : Nat),
      captureConversion declaredTypeParams (.reference name args loc) before =
        (.reference name result loc, after) →
      FollowsJls supertypes (declaredTypeParams name) name loc before args result := by
  intro all
  have follows := all bareInterfaces (fun _ => [(.libraryClass ⟨['G']⟩ ⟨['T']⟩, [namedTy ['N']])])
    ⟨['G']⟩ [.wildcard (some (.upper, namedTy ['C']))] none 0 _ _ rfl
  have declared := follows.declared 0 _ _ _ _ _ ⟨_, rfl, rfl⟩ rfl rfl (namedTy ['N']) (by simp)
  have not : Answers bareInterfaces (namedTy ['C']) (namedTy ['N']) false := ⟨4, by decide⟩
  cases Answers.unique not declared

end CaffeineLs.HirTy
