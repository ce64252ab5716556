/-
Module: CaffeineLs.HirDef.JavaItemTree
Purpose: The item tree of a Java file: declarations with the type references and annotations they
  write, their members, and the bodies and expressions they own.
Trusted boundary: modifiers, syntax-node ids, package declarations and module directives other than
  uses and provides are left out.
Main exports: ItemData, ItemTree, ItemTree.parts
-/
import CaffeineLs.HirExpand.Body
import CaffeineLs.Lib.Collect

namespace CaffeineLs.HirDef

open HirExpand

/-- A written type of a declaration, with the names in it. -/
structure ItemTypeRef where
  ty : TypeRef
  refs : List Name

structure TypeParam where
  name : Name
  bounds : List ItemTypeRef
  annotations : List AnnotationRef

structure Param where
  name : Name
  ty : ItemTypeRef
  annotations : List AnnotationRef

structure RecordComponent where
  name : Name
  ty : ItemTypeRef
  annotations : List AnnotationRef

/-- A class or interface declaration; they share the layout. -/
structure ClassData where
  name : Name
  annotations : List AnnotationRef
  superClass : Option ItemTypeRef
  interfaces : List ItemTypeRef
  permits : List ItemTypeRef
  typeParams : List TypeParam
  body : List ItemId

structure EnumData where
  name : Name
  annotations : List AnnotationRef
  interfaces : List ItemTypeRef
  body : List ItemId

structure RecordData where
  name : Name
  annotations : List AnnotationRef
  components : List RecordComponent
  interfaces : List ItemTypeRef
  permits : List ItemTypeRef
  typeParams : List TypeParam
  body : List ItemId

structure AnnotationData where
  name : Name
  annotations : List AnnotationRef
  body : List ItemId

structure ModuleProvides where
  service : ItemTypeRef
  implementations : List ItemTypeRef

structure ModuleData where
  name : Name
  annotations : List AnnotationRef
  uses : List ItemTypeRef
  provides : List ModuleProvides

structure Signature where
  typeParams : List TypeParam
  params : List Param
  ret : Option ItemTypeRef
  throws : List ItemTypeRef

/-- A method, constructor or annotation element. -/
structure MethodData where
  name : Name
  annotations : List AnnotationRef
  sig : Signature
  isConstructor : Bool
  body : Option BodyId
  defaultExpr : Option ExprId

structure FieldData where
  name : Name
  annotations : List AnnotationRef
  ty : ItemTypeRef
  initializerExpr : Option ExprId

structure EnumConstantData where
  name : Name
  argumentExprs : List ExprId
  body : List ItemId

structure InitData where
  body : Option BodyId

inductive ItemData where
  | «class» (data : ClassData)
  | interface (data : ClassData)
  | enum (data : EnumData)
  | record (data : RecordData)
  | annotation (data : AnnotationData)
  | module (data : ModuleData)
  | method (data : MethodData)
  | field (data : FieldData)
  | enumConstant (data : EnumConstantData)
  | staticInit (data : InitData)
  | instanceInit (data : InitData)

namespace ItemData

/-- The nested member items. -/
def body : ItemData → List ItemId
  | .class d | .interface d => d.body
  | .enum d => d.body
  | .record d => d.body
  | ItemData.annotation d => d.body
  | .enumConstant d => d.body
  | _ => []

def isMethod : ItemData → Bool
  | .method _ => true
  | _ => false

/-- Every type reference a declaration writes. -/
def typeRefs : ItemData → List ItemTypeRef
  | .class d | .interface d =>
      d.superClass.toList ++ d.interfaces ++ d.permits ++ d.typeParams.flatMap TypeParam.bounds
  | .enum d => d.interfaces
  | .record d =>
      d.components.map RecordComponent.ty ++ d.interfaces ++ d.permits ++
        d.typeParams.flatMap TypeParam.bounds
  | ItemData.annotation _ => []
  | .module d => d.uses ++ d.provides.flatMap fun provide => provide.service :: provide.implementations
  | .method d =>
      d.sig.typeParams.flatMap TypeParam.bounds ++ d.sig.params.map Param.ty ++ d.sig.ret.toList ++
        d.sig.throws
  | .field d => [d.ty]
  | .enumConstant _ | .staticInit _ | .instanceInit _ => []

/-- Every annotation a declaration writes on itself, its type parameters, its parameters or its
record components. -/
def annotations : ItemData → List AnnotationRef
  | .class d | .interface d => d.annotations ++ d.typeParams.flatMap TypeParam.annotations
  | .enum d => d.annotations
  | .record d =>
      d.annotations ++ d.typeParams.flatMap TypeParam.annotations ++
        d.components.flatMap RecordComponent.annotations
  | ItemData.annotation d => d.annotations
  | .module d => d.annotations
  | .method d =>
      d.annotations ++ d.sig.typeParams.flatMap TypeParam.annotations ++
        d.sig.params.flatMap Param.annotations
  | .field d => d.annotations
  | .enumConstant _ | .staticInit _ | .instanceInit _ => []

end ItemData

structure ImportItem where
  name : Name

/-- The lowered declarations of one file. What stands inside a declaration is `deeper`. -/
structure ItemTree where
  imports : List ImportItem
  top : List ItemId
  localTypes : List ItemId
  parent : List (Option ItemId)
  items : List ItemData
  height : ItemId → Nat
  bodyDeeper : ∀ i, ∀ data ∈ items[i]?, ∀ child ∈ data.body, height child < height ⟨i⟩
  localDeeper : ∀ id ∈ localTypes, ∀ owner ∈ parent[id.raw]?.join, height id < height owner

namespace ItemTree

variable (tree : ItemTree)

/-- An id outside the arena, which no lowering makes, reads as an initializer without a body. -/
def data (id : ItemId) : ItemData := tree.items[id.raw]?.getD (.staticInit { body := none })

def parentOf (item : ItemId) : Option ItemId := tree.parent[item.raw]?.join

/-- The local type declarations nested in `owner`. -/
def localTypesOf (owner : ItemId) : List ItemId :=
  tree.localTypes.filter fun item => tree.parentOf item = some owner

/-- What stands directly inside a declaration: its members and the local types of its bodies. -/
def parts (id : ItemId) : List ItemId := (tree.data id).body ++ tree.localTypesOf id

theorem height_lt_of_mem_parts {id child : ItemId} (inside : child ∈ tree.parts id) :
    tree.height child < tree.height id := by
  rcases List.mem_append.mp inside with member | nested
  · cases stored : tree.items[id.raw]? with
    | none => simp [data, stored, ItemData.body] at member
    | some data =>
        have here : child ∈ data.body := by simpa [ItemTree.data, stored] using member
        exact tree.bodyDeeper id.raw data (by simp [stored]) child here
  · obtain ⟨known, owned⟩ := List.mem_filter.mp nested
    exact tree.localDeeper child known id (of_decide_eq_true owned)

/-- The item is a top-level declaration or stands somewhere inside one. -/
def Has (item : ItemId) : Prop := ∃ top ∈ tree.top, Collect.Inside tree.parts top item

end ItemTree

end CaffeineLs.HirDef
