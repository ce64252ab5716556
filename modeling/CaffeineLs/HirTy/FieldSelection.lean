/-
Module: CaffeineLs.HirTy.FieldSelection
Purpose: The field that a field access selects: the walk of the receiver's supertypes for the first
  accessible field of a name.
Trusted boundary: the class table has the classes that names resolve to, with their direct supertypes and
  fields; how these are instantiated with type arguments is a parameter of each; the supertypes of a
  class are acyclic
Main exports: FieldData, FieldClass, FieldTable
-/
import CaffeineLs.HirTy.Capture
import CaffeineLs.HirTy.MemberAccess
import CaffeineLs.Lib.StackSearch

namespace CaffeineLs.HirTy

open HirExpand StackSearch

structure FieldData where
  name : Name
  owner : ClassKey
  ownerFile : Option FileId
  declItem : Option ItemId
  ty : Ty
  descriptor : Option (List Char)
  isStatic : Bool
  access : Access
  isFinal : Bool
  declaringPackage : Option Name
  declaringTopLevel : Option Name

/-! ### Class tables -/

/-- The class that a reference type names: the local declaration, or the class of the name. -/
def ClassKey.ofRef (name : Name) : Option SourceClass → ClassKey
  | some c => .loc c
  | none => .named name

def objectKey : ClassKey := .named javaObjectName

/-- A direct supertype as a class declares it, with its type arguments for those of the class. -/
structure SuperType where
  name : Name
  loc : Option SourceClass
  args : List Ty → List Ty

def SuperType.key (s : SuperType) : ClassKey := .ofRef s.name s.loc

/-- A field as a class declares it, with its type for the type arguments of the class. -/
structure FieldDecl where
  name : Name
  item : Option ItemId
  ty : List Ty → Ty
  descriptor : Option (List Char)
  isStatic : Bool
  access : Access
  isFinal : Bool

/-- A class: the superclass comes first, then the interfaces. -/
structure FieldClass where
  generic : Bool
  isInterface : Bool
  supers : List SuperType
  file : Option FileId
  package : Option Name
  topLevel : Option Name
  fields : List FieldDecl

structure FieldTable where
  classOf : ClassKey → Option FieldClass
  declaredTypeParams : Name → List (TypeVarScope × List Ty)
  rank : ClassKey → Nat
  acyclic : ∀ {key c}, classOf key = some c → ∀ s ∈ c.supers, rank s.key < rank key
  /-- Interfaces are below `Object`, which is no generic class. -/
  belowObject : ∀ {key c}, classOf key = some c → c.isInterface = true → rank objectKey < rank key
  plainObject : ∀ {key c}, classOf key = some c → ∀ s ∈ c.supers, s.key = objectKey →
    s.name = javaObjectName ∧ s.loc = none ∧ ∀ args, s.args args = []

namespace FieldTable

variable (table : FieldTable)

/-- `supertypes_query` -/
def supertypes : Ty → List Ty
  | .reference name args loc =>
      match table.classOf (.ofRef name loc) with
      | none => []
      | some c =>
          let out := c.supers.map fun s => .reference s.name (s.args args) s.loc
          if c.isInterface ∧ Ty.object ∉ out then out ++ [.object] else out
  | .array _ =>
      [.object, .reference cloneableName [] none, .reference serializableName [] none]
  | _ => []

/-- The name is looked up, also for a local class. -/
def isRawUse : Ty → Bool
  | .reference name [] _ =>
      match table.classOf (.named name) with
      | some c => c.generic
      | none => false
  | _ => false

def classFields (name : Name) : Ty → List FieldData
  | .reference className args loc =>
      let key : ClassKey := .ofRef className loc
      match table.classOf key with
      | none => []
      | some c =>
          (c.fields.filter fun field => field.name = name).map fun field =>
            { name := field.name
              owner := key
              ownerFile := c.file
              declItem := field.item
              ty := field.ty args
              descriptor := field.descriptor
              isStatic := field.isStatic
              access := field.access
              isFinal := field.isFinal
              declaringPackage := c.package
              declaringTopLevel := c.topLevel }
  | _ => []

end FieldTable

/-- `Ty::flexible_lower` -/
def Ty.flexibleLower : Ty → Ty
  | .flexible lower _ => lower
  | ty => ty

/-! ### The walk -/

section Pick

variable (units : FileId → JavaUnit) (subtype : Ty → Ty → Bool) (table : FieldTable)

/-- What an access asks for: a name, where the access stands, and whether access control holds. -/
structure FieldAccess where
  name : Name
  ctx : InvocationContext
  strictAccess : Bool

variable (access : FieldAccess)

/-- The condition on a field in the loop. -/
def FieldAccess.accepts (receiver : Ty) (field : FieldData) : Bool :=
  !access.strictAccess ||
    memberAccessible units subtype field.access field.declaringPackage field.owner
      field.declaringTopLevel receiver field.isStatic access.ctx

/-- The types that the walk begins with, the last one first. -/
def fieldSeeds : Ty → List Ty
  | .typeVar _ [] _ => [.object]
  | .typeVar _ bounds _ => bounds
  | receiver => [receiver]

/-- The supertypes of an entry of the stack. Behind a raw use they are erased. -/
def pushedParents (entry : Ty × Bool) : List (Ty × Bool) :=
  let raws := entry.2 || table.isRawUse entry.1
  (table.supertypes entry.1).map fun parent => (if raws then parent.erasure else parent, raws)

/-- The first field of a type that is accepted. -/
def fieldAt (receiver : Ty) (entry : Ty × Bool) : Option FieldData :=
  (table.classFields access.name entry.1).find? (access.accepts units subtype receiver)

/-- The loop on the receiver after capture conversion. -/
def walkFields (fuel : Nat) (receiver : Ty) : Option (Option FieldData) :=
  search Prod.fst (pushedParents table) (fieldAt units subtype table access receiver) fuel
    ((fieldSeeds receiver).map (·, false)).reverse []

def pickFieldImpl (fuel : Nat) (receiver : Ty) : StateM Nat (Option (Option FieldData)) := do
  let captured ← captureConversion table.declaredTypeParams receiver
  return walkFields units subtype table access fuel captured.flexibleLower

end Pick

end CaffeineLs.HirTy
