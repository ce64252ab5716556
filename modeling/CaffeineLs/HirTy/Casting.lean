/-
Module: CaffeineLs.HirTy.Casting
Purpose: Assignment conversion and casting conversion between types.
Trusted boundary: the class table answers for the supertypes, the kind and the type parameters of a
  class
Main exports: ClassTable, uncheckedConversion, isAssignable
-/
import CaffeineLs.HirTy.Capture

namespace CaffeineLs.HirTy

open HirExpand

/-! ### Primitive types -/

/-- The class a primitive boxes to, JLS §5.1.7. -/
def boxedType : PrimitiveType → Name
  | .boolean => ⟨"java.lang.Boolean".toList⟩
  | .byte => ⟨"java.lang.Byte".toList⟩
  | .short => ⟨"java.lang.Short".toList⟩
  | .char => ⟨"java.lang.Character".toList⟩
  | .int => ⟨"java.lang.Integer".toList⟩
  | .long => ⟨"java.lang.Long".toList⟩
  | .float => ⟨"java.lang.Float".toList⟩
  | .double => ⟨"java.lang.Double".toList⟩

/-- The primitive a class unboxes to, JLS §5.1.8. -/
def unboxedPrimitive (fqn : Name) : Option PrimitiveType :=
  [PrimitiveType.boolean, .byte, .short, .char, .int, .long, .float, .double].find? fun p =>
    boxedType p = fqn

/-- JLS table 5.1-B. -/
def wideningPrimitive : PrimitiveType → PrimitiveType → Bool
  | .byte, .short | .byte, .int | .byte, .long | .byte, .float | .byte, .double => true
  | .short, .int | .short, .long | .short, .float | .short, .double => true
  | .char, .int | .char, .long | .char, .float | .char, .double => true
  | .int, .long | .int, .float | .int, .double => true
  | .long, .float | .long, .double => true
  | .float, .double => true
  | _, _ => false

def Ty.boxed (p : PrimitiveType) : Ty := .reference (boxedType p) [] none

/-- Unboxing, optionally followed by a widening. -/
def unboxesTo (fqn : Name) (dst : PrimitiveType) : Bool :=
  match unboxedPrimitive fqn with
  | some unboxed => unboxed = dst || wideningPrimitive unboxed dst
  | none => false

/-! ### Types -/

/-- The declared bounds of a variable. -/
def Ty.bounds : Ty → List Ty
  | .typeVar _ bounds _ => bounds
  | _ => []

def Ty.isTypeVar : Ty → Bool
  | .typeVar .. => true
  | _ => false

def Ty.isReferenceLike : Ty → Bool
  | .reference .. | .array _ | .typeVar .. | .intersection _ | .null => true
  | _ => false

mutual

def Ty.containsInferVar : Ty → Bool
  | .inferenceVar _ => true
  | .reference _ args _ => Ty.containInferVar args
  | .array inner => inner.containsInferVar
  | .wildcard (some (_, bound)) => bound.containsInferVar
  | .intersection members => Ty.containInferVar members
  | _ => false

def Ty.containInferVar : List Ty → Bool
  | [] => false
  | ty :: tys => ty.containsInferVar || Ty.containInferVar tys

end

inductive JvmClassKind where
  | «class»
  | interface
  | enum
  | annotation
  | facade
deriving DecidableEq, Repr

def JvmClassKind.isInterface : JvmClassKind → Bool
  | .interface | JvmClassKind.annotation => true
  | _ => false

/-- What is known of the classes. -/
structure ClassTable where
  supertypes : Ty → List Ty
  /-- The kind of a class and whether it is final, where its name resolves. -/
  kindOf : Name → Option SourceClass → Option (JvmClassKind × Bool)
  declaredTypeParams : Name → List (TypeVarScope × List Ty)

namespace ClassTable

variable (table : ClassTable)

def classKind : Ty → Option (JvmClassKind × Bool)
  | .reference name _ loc => table.kindOf name loc
  | _ => none

/-! ### Assignment -/

/-- The direct supertypes of one type, walked for the class of `dst`. An `error` is the answer, with
which the walk ends. -/
def uncheckedRound (rawSrc : Bool) (dst : Ty) (dstName : Name) :
    List Ty → List Ty → List Ty → Except Bool (List Ty × List Ty)
  | [], visited, stack => .ok (visited, stack)
  | parent :: parents, visited, stack =>
      if parent ∈ visited then
        uncheckedRound rawSrc dst dstName parents visited stack
      else
        match parent with
        | .reference parentName parentArgs _ =>
            if parentName = dstName then
              .error (rawSrc || parentArgs.isEmpty || parent.sameShape dst)
            else
              uncheckedRound rawSrc dst dstName parents (parent :: visited) (parent :: stack)
        | _ => uncheckedRound rawSrc dst dstName parents (parent :: visited) stack

/-- The walk up from a source class, with fuel. -/
def uncheckedWalk (rawSrc : Bool) (dst : Ty) (dstName : Name) :
    Nat → List Ty → List Ty → Option Bool
  | 0, _, _ => none
  | _ + 1, _, [] => some false
  | fuel + 1, visited, current :: stack =>
      match uncheckedRound rawSrc dst dstName (table.supertypes current) visited stack with
      | .error answer => some answer
      | .ok (visited, stack) => uncheckedWalk rawSrc dst dstName fuel visited stack

/-- Unchecked conversion, JLS §5.1.9, with the dimensions of arrays peeled on both sides. -/
def uncheckedConversion (fuel : Nat) : Ty → Ty → Option Bool
  | .array si, .array ti => uncheckedConversion fuel si ti
  | .reference srcName srcArgs srcLoc, .reference dstName dstArgs dstLoc =>
      if !dstArgs.isEmpty && srcName = dstName then
        some true
      else
        table.uncheckedWalk srcArgs.isEmpty (.reference dstName dstArgs dstLoc) dstName fuel []
          [.reference srcName srcArgs srcLoc]
  | _, _ => some false

/-- `a || b` -/
def orElse (first second : Option Bool) : Option Bool := do
  if ← first then return true else second

/-- Assignment conversion, JLS §5.2. -/
def isAssignable (fuel : Nat) (src dst : Ty) : Option Bool :=
  let subtype := isSubtype table.supertypes fuel
  if src = dst then
    some true
  else if src.sameShape dst then
    some true
  else
    match src, dst with
    | .primitive src, .primitive dst => some (wideningPrimitive src dst)
    | .reference .., .reference .. | .reference .., .intersection _
    | .intersection _, .reference .. | .intersection _, .intersection _ =>
        orElse (subtype src dst) (table.uncheckedConversion fuel src dst)
    | .primitive p, .reference .. => subtype (.boxed p) dst
    | .reference name _ _, .primitive dst => some (unboxesTo name dst)
    | .array _, .reference .. | .array _, .typeVar .. => subtype src dst
    | .array si, .array ti =>
        orElse (subtype src dst)
          (if !si.containsInferVar && !ti.containsInferVar then
            table.uncheckedConversion fuel si ti
          else some false)
    | .typeVar _ _ (some (.reference name _ _)), .primitive dst => some (unboxesTo name dst)
    | .typeVar _ _ (some _), .primitive _ => some false
    | .primitive p, .typeVar .. => subtype (.boxed p) dst
    | .typeVar .., _ | .reference .., .typeVar .. | .intersection _, .typeVar ..
    | .null, .typeVar .. =>
        orElse (subtype src dst)
          (if dst.isTypeVar then some false
          else src.bounds.anyM fun bound => table.uncheckedConversion fuel bound dst)
    | .null, _ => subtype src dst
    | _, _ => some false

/-! ### Casting -/

/-- What a class shares with every array. -/
def isArraySupertype (name : Name) : Bool :=
  name = javaObjectName || name = cloneableName || name = serializableName

/-- Two classes that are both final, neither of them an interface. -/
def bothFinalClasses (src dst : Ty) : Bool :=
  match table.classKind src, table.classKind dst with
  | some (srcKind, true), some (dstKind, true) => !srcKind.isInterface && !dstKind.isInterface
  | _, _ => false

def referenceCastable (fuel : Nat) (src dst : Ty) : Option Bool := do
  let sub ← isSubtype table.supertypes fuel src dst
  let sup ← isSubtype table.supertypes fuel dst src
  if sub || sup then return true
  return !table.bothFinalClasses src dst

/-- The cases of a cast between two kinds of types. -/
def castableKinds (fuel : Nat) (src dst : Ty) : Option Bool :=
  match src, dst with
  | .primitive _, .primitive _ => some true
  | .primitive p, .reference .. =>
      if .boxed p = dst then some true else isSubtype table.supertypes fuel (.boxed p) dst
  | .reference name _ _, .primitive p =>
      match unboxedPrimitive name with
      | some unboxed => some (unboxed = p || wideningPrimitive unboxed p)
      | none => table.referenceCastable fuel src (.boxed p)
  | .reference name _ _, .array _ => some (isArraySupertype name)
  | .array _, .array _ => some true
  | .array _, .reference name _ _ => some (isArraySupertype name)
  | .typeVar .., .array _ => some true
  | .typeVar .., .reference .. => some true
  | .reference .., .reference .. => table.referenceCastable fuel src dst
  | _, _ => some false

/-- Casting conversion, JLS §5.5. A wildcard is captured first, with variables numbered from `next`
on. -/
def castable (fuel next : Nat) (src dst : Ty) : Option Bool :=
  if src = dst then
    some true
  else
    let src :=
      if src.isWildcard then (captureConversion table.declaredTypeParams src next).1 else src
    if src = .null && dst.isReferenceLike then some true
    else table.castableKinds fuel src dst

end ClassTable

end CaffeineLs.HirTy
