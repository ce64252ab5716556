/-
Module: CaffeineLs.HirTy.Lub
Purpose: The least containing parameterization of the least upper bound, JLS §4.10.4.
Trusted boundary: none; the recursion on bounds, the subtype test and the class table's answer to
  which classes declare type parameters are arbitrary.
Main exports: Lub.lctaPair, Lub.lcpPair, Lub.best
-/
import CaffeineLs.HirTy.TypeArguments

namespace CaffeineLs.HirTy

open HirExpand

namespace Lub

section

variable (below : Ty → Ty → Bool) (set : List Ty → Ty)

def upperWildcard (upper : Ty) : Ty := .wildcardOf (some (.upper, upper))

def lowerWildcard (lower : Ty) : Ty := .wildcardOf (some (.lower, lower))

/-- The greatest lower bound. -/
def glb (u v : Ty) : Ty :=
  if below u v then u else if below v u then v else .intersectionOf [u, v]

/-- The least containing type argument of a pair. -/
def lctaPair : Ty → Ty → Ty
  | .wildcard none, _ => .wildcardOf none
  | _, .wildcard none => .wildcardOf none
  | .wildcard (some (.upper, x)), .wildcard (some (.upper, y)) => upperWildcard (set [x, y])
  | .wildcard (some (.upper, _)), .wildcard (some (.lower, _)) => .wildcardOf none
  | .wildcard (some (.lower, _)), .wildcard (some (.upper, _)) => .wildcardOf none
  | .wildcard (some (.lower, x)), .wildcard (some (.lower, y)) => lowerWildcard (glb below x y)
  | .wildcard (some (.upper, x)), y => upperWildcard (set [x, y])
  | .wildcard (some (.lower, x)), y => lowerWildcard (glb below x y)
  | x, .wildcard (some (.upper, y)) => upperWildcard (set [x, y])
  | x, .wildcard (some (.lower, y)) => lowerWildcard (glb below x y)
  | x, y => if x = y then x else upperWildcard (set [x, y])

/-- The least containing parameterization of a pair. It is `none` where the code panics, for a type
that is no reference. -/
def lcpPair : Ty → Ty → Option Ty
  | .reference name xs _, .reference _ ys _ =>
      some (.reference name (List.zipWith (lctaPair below set) xs ys) none)
  | _, _ => none

/-- The parameterization of a generic candidate, from its relevant ones. -/
def candidate : List Ty → Option Ty
  | [] => none
  | [only] => some only
  | first :: others => others.foldlM (lcpPair below set) first

/-- The parameterizations of one class among the supertypes. -/
def relevant (supers : List Ty) (name : Name) (loc : Option SourceClass) : List Ty :=
  supers.filter fun
    | .reference other args otherLoc => (other, otherLoc) = (name, loc) && !args.isEmpty
    | _ => false

/-- What becomes of a minimal erased candidate: its least containing parameterization when its name
is that of a class that declares type parameters. -/
def best (isGeneric : Name → Bool) (supers : List Ty) : Ty → Option Ty
  | .reference name args loc =>
      if isGeneric name then
        match relevant supers name loc with
        | [] => some (.reference name args loc)
        | types => candidate below set types
      else
        some (.reference name args loc)
  | ty => some ty

end

end Lub

end CaffeineLs.HirTy
