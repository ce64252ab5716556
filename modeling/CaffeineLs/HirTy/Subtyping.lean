/-
Module: CaffeineLs.HirTy.Subtyping
Purpose: The subtype relation of Java, as the memoized query decides it.
Trusted boundary: the direct supertypes of a type are what the class table says they are.
Main exports: Ty.sameShape, Ty.intersectionOf, isSubtype
-/
import CaffeineLs.HirTy.Ty

namespace CaffeineLs.HirTy

open HirExpand

/-! ### Types -/

def javaObjectName : Name := ⟨"java.lang.Object".toList⟩

def cloneableName : Name := ⟨"java.lang.Cloneable".toList⟩

def serializableName : Name := ⟨"java.io.Serializable".toList⟩

/-- Exactly `java.lang.Object`. -/
def Ty.isObject : Ty → Bool
  | .reference name args _ => name = javaObjectName && args.isEmpty
  | _ => false

mutual

/-- Identical by name: type variables are the same when one parameter declares them, whatever their
bounds. -/
def Ty.sameShape : Ty → Ty → Bool
  | .reference a aa la, .reference b bb lb => a = b && la = lb && Ty.sameShapes aa bb
  | .array a, .array b => a.sameShape b
  | .wildcard none, .wildcard none => true
  | .wildcard (some (ka, a)), .wildcard (some (kb, b)) => ka = kb && a.sameShape b
  | .wildcard none, .wildcard (some _) => false
  | .wildcard (some _), .wildcard none => false
  | .typeVar sa _ _, .typeVar sb _ _ => sa = sb
  | .intersection a, .intersection b => Ty.sameShapes a b
  | a, b => a = b

/-- As many types, identical by name in turn. -/
def Ty.sameShapes : List Ty → List Ty → Bool
  | [], [] => true
  | a :: as, b :: bs => a.sameShape b && Ty.sameShapes as bs
  | _, _ => false

end

/-- `Ty::intersection`: one member is itself, none is an error. -/
def Ty.intersectionOf : List Ty → Ty
  | [] => .error
  | [member] => member
  | members => .intersection members

/-! ### The query -/

/-- The answers of the query, where it has returned. -/
abbrev Ask := Ty → Ty → Option Bool

section Query

variable (supertypes : Ty → List Ty) (ask : Ask)

/-- The wildcard "contains" relation, JLS §4.5.1. -/
def wildcardContains : BoundKind × Ty → BoundKind × Ty → Option Bool
  | (.upper, sub), (.upper, sup) => ask sub sup
  | (.lower, sub), (.lower, sup) => ask sup sub
  | (.upper, _), (.lower, _) => some false
  | (.lower, _), (.upper, sup) => some sup.isObject

def argOk : Ty → Ty → Option Bool
  | _, .wildcard none => some true
  | .wildcard (some subBound), .wildcard (some supBound) => wildcardContains ask subBound supBound
  | .wildcard _, _ => some false
  | sub, .wildcard (some (.upper, bound)) => ask sub bound
  | sub, .wildcard (some (.lower, bound)) => ask bound sub
  | sub, sup => some (sub = sup)

/-- The type arguments are compatible: a raw type is above every instantiation, and below none. -/
def paramsOk (subArgs supArgs : List Ty) : Option Bool :=
  if supArgs.isEmpty then some true
  else if subArgs.isEmpty then some false
  else if subArgs.length = supArgs.length then
    (subArgs.zip supArgs).allM fun (sub, sup) => argOk ask sub sup
  else some false

/-- The direct supertypes of one type, walked until `sup` is reached: then there is no stack to go
on with. -/
def parentsRound (sup : Ty) (supName : Name) (supArgs : List Ty) :
    List Ty → List Ty → List Ty → Option (Option (List Ty × List Ty))
  | [], visited, stack => some (some (visited, stack))
  | parent :: parents, visited, stack =>
      if parent ∈ visited then
        parentsRound sup supName supArgs parents visited stack
      else if parent = sup then
        some none
      else
        match parent with
        | .reference parentName parentArgs _ =>
            if parentName = supName then do
              if ← paramsOk ask parentArgs supArgs then
                some none
              else
                parentsRound sup supName supArgs parents (parent :: visited) (parent :: stack)
            else
              parentsRound sup supName supArgs parents (parent :: visited) (parent :: stack)
        | _ => parentsRound sup supName supArgs parents (parent :: visited) (parent :: stack)

/-- The transitive closure of the direct supertypes, walked with fuel. -/
def closureLoop (sup : Ty) (supName : Name) (supArgs : List Ty) :
    Nat → List Ty → List Ty → Option Bool
  | 0, _, _ => none
  | _ + 1, _, [] => some false
  | fuel + 1, visited, current :: stack => do
      match ← parentsRound ask sup supName supArgs (supertypes current) visited stack with
      | none => return true
      | some (visited, stack) => closureLoop sup supName supArgs fuel visited stack

/-- Subtyping between class types. -/
def referenceSubtype (fuel : Nat) (sub : Ty) (subName : Name) (subArgs : List Ty) (sup : Ty)
    (supName : Name) (supArgs : List Ty) : Option Bool :=
  if subName = supName then
    paramsOk ask subArgs supArgs
  else
    closureLoop supertypes ask sup supName supArgs fuel [] [sub]

/-- The declared bounds of one variable, walked until `sup` is reached: then there is no stack to go
on with. -/
def boundsRound (sup : Ty) : List Ty → List Ty → Option (Option (List Ty))
  | [], stack => some (some stack)
  | bound :: bounds, stack =>
      if bound = sup || bound.sameShape sup then
        some none
      else
        match bound with
        | .reference .. => do
            if ← ask bound sup then
              some none
            else
              boundsRound sup bounds stack
        | .typeVar .. => boundsRound sup bounds (bound :: stack)
        | _ => boundsRound sup bounds stack

/-- A capture variable is below everything above its lower bound. -/
def lowerReaches (sup : Ty) : Option Ty → Option Bool
  | some lower => ask lower sup
  | none => some false

/-- The chain of bounds, walked with fuel. -/
def boundLoop (sup : Ty) : Nat → List TypeVarScope → List Ty → Option Bool
  | 0, _, _ => none
  | _ + 1, _, [] => some false
  | fuel + 1, visited, current :: stack =>
      match current with
      | .typeVar scope bounds lower => do
          if ← lowerReaches ask sup lower then
            return true
          else if scope ∈ visited then
            boundLoop sup fuel visited stack
          else
            match ← boundsRound ask sup bounds stack with
            | none => return true
            | some stack => boundLoop sup fuel (scope :: visited) stack
      | _ => boundLoop sup fuel visited stack

/-- Subtyping of a type variable. -/
def typeVarSubtype (fuel : Nat) (sub sup : Ty) : Option Bool :=
  if sup.isObject then
    some true
  else
    match sup with
    | .typeVar _ _ (some lower) => ask sub lower
    | _ => boundLoop ask sup fuel [] [sub]

/-- The body of the query. -/
def isSubtypeBody (fuel : Nat) (sub sup : Ty) : Option Bool :=
  if sub = sup then
    some true
  else if sub.sameShape sup then
    some true
  else
    match sub, sup with
    | .primitive _, .primitive _ => some false
    | .array s, .array t => ask s t
    | .array _, .reference name _ _ =>
        some (name = javaObjectName || name = cloneableName || name = serializableName)
    | sub, .typeVar _ _ (some lower) => ask sub lower
    | .typeVar _ _ _, .reference _ _ _ => typeVarSubtype ask fuel sub sup
    | .typeVar _ _ _, .typeVar _ _ _ => typeVarSubtype ask fuel sub sup
    | .reference subName subArgs _, .reference supName supArgs _ =>
        referenceSubtype supertypes ask fuel sub subName subArgs sup supName supArgs
    | .null, .reference _ _ _ => some true
    | .null, .array _ => some true
    | .null, .typeVar _ _ _ => some true
    | .null, .intersection members => members.allM fun member => ask .null member
    | .intersection members, sup => members.anyM fun member => ask member sup
    | sub, .intersection members => members.allM fun member => ask sub member
    | _, _ => some false

/-- The query with fuel. `none` says that it has not returned: the fuel is too low, the queries form
a cycle, or a walk over the supertypes does not end. -/
def isSubtype : Nat → Ask
  | 0, _, _ => none
  | fuel + 1, sub, sup => isSubtypeBody supertypes (isSubtype fuel) fuel sub sup

/-- The query returns this answer. -/
def Answers (sub sup : Ty) (answer : Bool) : Prop :=
  ∃ fuel, isSubtype supertypes fuel sub sup = some answer

/-- `is_subtype` holds. -/
def IsSubtype (sub sup : Ty) : Prop := Answers supertypes sub sup true

end Query

end CaffeineLs.HirTy
