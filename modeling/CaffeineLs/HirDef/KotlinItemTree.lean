/-
Module: CaffeineLs.HirDef.KotlinItemTree
Purpose: The item tree of a Kotlin file, as far as the dependency index reads it: imports and the
  type references of every declaration.
Trusted boundary: names, modifiers, annotations, bodies and syntax-node ids are left out.
Main exports: KotlinItemData, KotlinItemTree, itemTypeRefs
-/
import CaffeineLs.HirDef.JavaItemTree

namespace CaffeineLs.HirDef

open HirExpand

structure KotlinTypeParam where
  bounds : List ItemTypeRef

structure KotlinParam where
  param : Param

structure KotlinSuperType where
  ty : ItemTypeRef

structure KotlinClassData where
  typeParams : List KotlinTypeParam
  superTypes : List KotlinSuperType

structure KotlinConstructorData where
  params : List KotlinParam

structure KotlinFunctionData where
  typeParams : List KotlinTypeParam
  receiver : Option ItemTypeRef
  params : List KotlinParam
  ret : Option ItemTypeRef

structure KotlinAccessorData where
  params : List KotlinParam

structure KotlinPropertyData where
  typeParams : List KotlinTypeParam
  receiver : Option ItemTypeRef
  ty : Option ItemTypeRef

structure KotlinTypeAliasData where
  typeParams : List KotlinTypeParam
  target : ItemTypeRef

inductive KotlinItemData where
  | «class» (data : KotlinClassData)
  | constructor (data : KotlinConstructorData)
  | function (data : KotlinFunctionData)
  | accessor (data : KotlinAccessorData)
  | property (data : KotlinPropertyData)
  | anonymousInitializer
  | enumEntry
  | typeAlias (data : KotlinTypeAliasData)

structure KotlinImportItem where
  path : Name

/-- The declarations of one file: an item's id is its place in the arena. -/
structure KotlinItemTree where
  imports : List KotlinImportItem
  items : List KotlinItemData

namespace KotlinItemTree

def data (tree : KotlinItemTree) (item : ItemId) : KotlinItemData :=
  tree.items[item.raw]?.getD .anonymousInitializer

/-- `items.iter()` -/
def iter (tree : KotlinItemTree) : List (ItemId × KotlinItemData) :=
  tree.items.zipIdx.map fun (data, i) => (⟨i⟩, data)

end KotlinItemTree

/-- The named type references of a declaration: a classifier's supertypes and its type parameters'
bounds, a callable's receiver, parameter and return types, a property's receiver and declared type,
and a type alias's target. -/
def KotlinItemData.itemTypeRefs : KotlinItemData → List ItemTypeRef
  | .class data =>
      data.superTypes.map KotlinSuperType.ty ++ data.typeParams.flatMap KotlinTypeParam.bounds
  | .constructor data => data.params.map fun param => param.param.ty
  | .function data =>
      data.typeParams.flatMap KotlinTypeParam.bounds ++ data.receiver.toList ++
        (data.params.map fun param => param.param.ty) ++ data.ret.toList
  | .accessor data => data.params.map fun param => param.param.ty
  | .property data =>
      data.typeParams.flatMap KotlinTypeParam.bounds ++ data.receiver.toList ++ data.ty.toList
  | .typeAlias data => data.typeParams.flatMap KotlinTypeParam.bounds ++ [data.target]
  | .anonymousInitializer | .enumEntry => []

end CaffeineLs.HirDef
