/-
Module: CaffeineLs.HirTy.Capture
Purpose: Capture conversion, JLS §5.1.10, as the code draws its variables from a counter.
Trusted boundary: the declared type parameters of a class are what the class table says they are.
Main exports: captureConversion, typeParamUpperBounds
-/
import CaffeineLs.HirTy.TypeArguments

namespace CaffeineLs.HirTy

open HirExpand

/-- The next capture variable, numbered by the counter. -/
def nextCapture : StateM Nat Nat := fun next => (next, next + 1)

/-- `CAP#<id>`. -/
def captureScope (id : Nat) : TypeVarScope := .capture id ⟨"CAP#".toList ++ Nat.toDigits 10 id⟩

/-- A fresh variable with an upper bound. -/
def freshCapture (bound : Ty) : StateM Nat Ty := do
  let id ← nextCapture
  return .typeVar (captureScope id) [bound] none

/-- A fresh variable with a lower bound, below `Object`. -/
def capturedVar (lower : Ty) : StateM Nat Ty := do
  let id ← nextCapture
  return .typeVar (captureScope id) [.object] (some lower)

/-- A variable without bounds for every wildcard: it stands for it in the declared bounds. -/
def placeholdersFor : List Ty → StateM Nat (List (Option Ty))
  | [] => return []
  | arg :: args => do
      let first ←
        if arg.isWildcard then do
          let id ← nextCapture
          pure (some (.typeVar (captureScope id) [] none))
        else
          pure none
      let others ← placeholdersFor args
      return first :: others

/-- What a parameter of the class is replaced by in the bounds. -/
def filling (args : List Ty) (placeholders : List (Option Ty)) (i : Nat) : Ty :=
  match args[i]?, placeholders[i]? with
  | _, some (some placeholder) => placeholder
  | some arg, _ => arg
  | none, _ => .object

/-- The parameters of a class with the types they are replaced by. A later one counts where two
share a scope. -/
def paramBinding (fill : Nat → Ty) (params : List (TypeVarScope × List Ty)) (scope : TypeVarScope) :
    Option Ty :=
  (params.zipIdx.reverse.find? fun ((declared, _), _) => declared = scope).map fun (_, i) => fill i

/-- The upper bound of one parameter, `Object` where it declares none. Only the first bound
counts. -/
def upperBound (binding : TypeVarScope → Option Ty) (bounds : List Ty) : Ty :=
  match (bounds.head?.map (Ty.substitute binding)).filter fun bound => !bound.isObject with
  | some bound => bound
  | none => .object

/-- The upper bounds the type parameters of the class declare. -/
def typeParamUpperBounds (params : List (TypeVarScope × List Ty)) (args : List Ty)
    (placeholders : List (Option Ty)) : List Ty :=
  params.map fun (_, bounds) =>
    upperBound (paramBinding (filling args placeholders) params) bounds

/-- One type argument. Those that are no wildcards are not captured, nor anything in them. -/
def captureArg (declared : Option Ty) : Ty → StateM Nat Ty
  | .wildcard (some (.upper, bound)) => freshCapture bound
  | .wildcard (some (.lower, bound)) => capturedVar bound
  | .wildcard none => freshCapture (declared.getD .object)
  | arg => return arg

/-- The type arguments in turn, from position `i` on. -/
def captureArgs (declared : List Ty) : Nat → List Ty → StateM Nat (List Ty)
  | _, [] => return []
  | i, arg :: args => do
      let first ← captureArg declared[i]? arg
      let others ← captureArgs declared (i + 1) args
      return first :: others

/-- Capture conversion. `declaredTypeParams` gives the type parameters of the class of a name with
their declared bounds, and none for a name that does not resolve. -/
def captureConversion (declaredTypeParams : Name → List (TypeVarScope × List Ty)) :
    Ty → StateM Nat Ty
  | .reference name args loc => do
      let placeholders ← placeholdersFor args
      let declared := typeParamUpperBounds (declaredTypeParams name) args placeholders
      let captured ← captureArgs declared 0 args
      return Ty.withArgs captured (.reference name args loc)
  | .wildcard (some (.upper, bound)) => freshCapture bound
  | .wildcard (some (.lower, bound)) => capturedVar bound
  | .wildcard none => freshCapture .object
  | ty => return ty

end CaffeineLs.HirTy
