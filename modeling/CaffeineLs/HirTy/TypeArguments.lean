/-
Module: CaffeineLs.HirTy.TypeArguments
Purpose: The operations that rebuild a type: erasure and substitution, and the constructors they
  rebuild it with.
Trusted boundary: an interned handle is the type it stands for; types nested a million levels deep,
  where the rewrite gives up, are left out.
Main exports: Ty.withArgs, Ty.erasure, Ty.substitute
-/
import CaffeineLs.HirTy.Subtyping

namespace CaffeineLs.HirTy

open HirExpand

/-! ### Constructors -/

/-- `java.lang.Object`. -/
def Ty.object : Ty := .reference javaObjectName [] none

/-- `Ty::wildcard`: `? extends Object` is `?`. -/
def Ty.wildcardOf : Option (BoundKind × Ty) → Ty
  | some (.upper, bound) => if bound.isObject then .wildcard none else .wildcard (some (.upper, bound))
  | bound => .wildcard bound

/-- `Ty::nullable`: `T??` is `T?`. -/
def Ty.nullableOf : Ty → Ty
  | .nullable inner => .nullable inner
  | inner => .nullable inner

/-- `Ty::definitely_non_null`. -/
def Ty.definitelyNonNullOf : Ty → Ty
  | .definitelyNonNull inner => .definitelyNonNull inner
  | inner => .definitelyNonNull inner

/-- `Ty::flexible`: a pair of one type is that type. -/
def Ty.flexibleOf (lower upper : Ty) : Ty :=
  if lower = upper then lower else .flexible lower upper

/-- The same class, local or not, with other type arguments. It is only asked of references. -/
def Ty.withArgs (args : List Ty) : Ty → Ty
  | .reference name _ loc => .reference name args loc
  | ty => ty

/-- The class a reference names: its name, and its declaration when it is local. -/
def Ty.declaration : Ty → Option (Name × Option SourceClass)
  | .reference name _ loc => some (name, loc)
  | _ => none

def Ty.isWildcard : Ty → Bool
  | .wildcard _ => true
  | _ => false

/-! ### Rebuilding -/

/-- JLS §4.6. -/
def Ty.erasure : Ty → Ty
  | .reference name args loc => Ty.withArgs [] (.reference name args loc)
  | .array inner => .array inner.erasure
  | .typeVar _ [] _ => .object
  | .typeVar _ (bound :: _) _ => bound.erasure
  | .intersection [] => .object
  | .intersection (member :: _) => member.erasure
  | ty => ty

mutual

/-- Replaces the type variables that `binding` knows. What it puts in their place, and the bounds of
other variables, are left as they are. -/
def Ty.substitute (binding : TypeVarScope → Option Ty) : Ty → Ty
  | .typeVar scope bounds lower => (binding scope).getD (.typeVar scope bounds lower)
  | .reference name args loc =>
      Ty.withArgs (Ty.substituteAll binding args) (.reference name args loc)
  | .array inner => .array (inner.substitute binding)
  | .nullable inner => .nullableOf (inner.substitute binding)
  | .definitelyNonNull inner => .definitelyNonNullOf (inner.substitute binding)
  | .wildcard none => .wildcardOf none
  | .wildcard (some (kind, bound)) => .wildcardOf (some (kind, bound.substitute binding))
  | .intersection members => .intersectionOf (Ty.substituteAll binding members)
  | .flexible lower upper => .flexibleOf (lower.substitute binding) (upper.substitute binding)
  | ty => ty

def Ty.substituteAll (binding : TypeVarScope → Option Ty) : List Ty → List Ty
  | [] => []
  | ty :: tys => ty.substitute binding :: Ty.substituteAll binding tys

end

end CaffeineLs.HirTy
