/-
Module: CaffeineLs.HirTy.KotlinResolver
Purpose: Resolution of the type references that a Kotlin file writes: type parameters with their bounds,
  type aliases, the declarations of the file, and other classifiers.
Trusted boundary: which classifier a name denotes outside the file, and substitution in a finished type,
  are parameters; an item id of another tree is read as a declaration without a name
Main exports: KotlinTypeParam, KotlinItem, KotlinFile
-/
import CaffeineLs.HirTy.Ty
import CaffeineLs.Lib.Recursion

namespace CaffeineLs.HirTy.KotlinResolver

open HirExpand

structure KotlinTypeParam where
  name : Name
  bounds : List TypeRef

/-- A declaration, as far as the resolution of types reads it. -/
inductive KotlinItem where
  | «class» (name : Name) (typeParams : List KotlinTypeParam) (body : List ItemId)
  | function (name : Name) (typeParams : List KotlinTypeParam)
  | property (name : Name) (typeParams : List KotlinTypeParam)
  | typeAlias (name : Name) (typeParams : List KotlinTypeParam) (target : TypeRef)
  | enumEntry (name : Name) (body : List ItemId)
  /-- A constructor, an accessor or an anonymous initializer. -/
  | unnamed

namespace KotlinItem

def name : KotlinItem → Option Name
  | .«class» name _ _ => some name
  | .function name _ => some name
  | .property name _ => some name
  | .typeAlias name _ _ => some name
  | .enumEntry name _ => some name
  | .unnamed => none

def body : KotlinItem → List ItemId
  | .«class» _ _ body => body
  | .enumEntry _ body => body
  | _ => []

def typeParams : KotlinItem → List KotlinTypeParam
  | .«class» _ typeParams _ => typeParams
  | .function _ typeParams => typeParams
  | .property _ typeParams => typeParams
  | .typeAlias _ typeParams _ => typeParams
  | _ => []

end KotlinItem

/-- The item tree of a file: every item, the parent of each, the declarations of the file itself, and the
local ones. -/
structure KotlinFile where
  file : FileId
  items : List KotlinItem
  parent : List (Option ItemId)
  top : List ItemId
  localTypes : List ItemId

/-- One declared type parameter, with the declaration that declares it. -/
structure TypeParamScope where
  declaring : ItemId
  param : KotlinTypeParam

def TypeParamScope.name (param : TypeParamScope) : Name := param.param.name

/-- What a resolver holds: the declaration that the name is written in, `none` in the body of a
script. -/
abbrev Scope := Option ItemId

namespace KotlinFile

variable (tree : KotlinFile)

def data (item : ItemId) : KotlinItem := tree.items[item.raw]?.getD .unnamed

def parentOf (item : ItemId) : Option ItemId := tree.parent[item.raw]?.join

/-- The item and those that enclose it, innermost first; the loops over `parent_of`. -/
def chain : Nat → Scope → List ItemId
  | 0, _ => []
  | _, none => []
  | n + 1, some item => item :: chain n (tree.parentOf item)

def enclosing (scope : Scope) : List ItemId := tree.chain tree.items.length scope

def declaredParams (item : ItemId) : List TypeParamScope :=
  (tree.data item).typeParams.map fun param => ⟨item, param⟩

/-- The type parameters in scope, innermost last. -/
def typeParams (scope : Scope) : List TypeParamScope :=
  (tree.enclosing scope).reverse.flatMap tree.declaredParams

/-- The innermost parameter of the name. -/
def typeParam (scope : Scope) (name : Name) : Option TypeParamScope :=
  (tree.typeParams scope).reverse.find? fun param => param.name = name

/-- A classifier's parameter is one of a class, any other one of a method. -/
def paramScope (item : ItemId) (name : Name) : TypeVarScope :=
  match tree.data item with
  | .«class» _ _ _ => .«class» tree.file item name
  | _ => .method tree.file item name

def isNamed (name : Name) (item : ItemId) : Bool := (tree.data item).name = some name

def localTypesOf (owner : ItemId) : List ItemId :=
  tree.localTypes.filter fun item => tree.parentOf item = some owner

/-- The search through a declaration and its members; the bound is on its depth. -/
def walk (name : Name) : Nat → ItemId → Option ItemId
  | 0, _ => none
  | n + 1, item =>
      if tree.isNamed name item then some item else (tree.data item).body.findSome? (walk name n)

/-- The local declarations of the enclosing bodies, the members of the enclosing classifiers, then every
declaration of the file. -/
def localDeclaration (scope : Scope) (simple : Name) : Option ItemId :=
  ((tree.enclosing scope).findSome? fun item => (tree.localTypesOf item).find? (tree.isNamed simple)).or <|
  ((tree.enclosing scope).findSome? fun item => (tree.data item).body.find? (tree.isNamed simple)).or <|
  tree.top.findSome? (tree.walk simple tree.items.length)

/-- The target of the alias that the name denotes, with the alias. -/
def typeAlias (scope : Scope) (simple : Name) : Option (ItemId × TypeRef) :=
  match tree.localDeclaration scope simple with
  | none => none
  | some item =>
      match tree.data item with
      | .typeAlias _ _ target => some (item, target)
      | _ => none

def localClassReference (scope : Scope) (simple : Name) (args : List Ty) : Option Ty :=
  match tree.localDeclaration scope simple with
  | none => none
  | some item =>
      if item ∈ tree.localTypes then
        (tree.data item).name.map fun name => .reference name args (some ⟨tree.file, item⟩)
      else none

end KotlinFile

/-- A reference to resolve, in the scope of a resolver, with the parameters whose bounds it is
resolving. -/
structure Call where
  scope : Scope
  resolving : List Name
  ty : TypeRef

/-- What the resolver takes from elsewhere. -/
structure Lookup where
  /-- `class_fqn_with_arity`, with the mapped name. -/
  classFqn : Scope → Name → Nat → Option Name
  substitute : Ty → List (TypeVarScope × Ty) → Ty

section Resolve

variable (lookup : Lookup) (tree : KotlinFile) (answer : Call → Option Ty)

/-- The bounds of a parameter; none while they are being resolved. -/
def paramBounds (scope : Scope) (resolving : List Name) (param : TypeParamScope) : Option (List Ty) :=
  if param.name ∈ resolving then some []
  else param.param.bounds.mapM fun bound => answer ⟨scope, resolving ++ [param.name], bound⟩

def typeVar (scope : Scope) (resolving : List Name) (param : TypeParamScope) : Option Ty :=
  (paramBounds answer scope resolving param).map fun bounds =>
    .typeVar (tree.paramScope param.declaring param.name) bounds none

/-- The alias's target, resolved where the alias is declared, with the arguments for its parameters. -/
def expandAlias (alias_ : ItemId) (target : TypeRef) (args : List Ty) : Option Ty :=
  let binding := ((tree.data alias_).typeParams.zip args).map fun (param, arg) =>
    (tree.paramScope alias_ param.name, arg)
  (answer ⟨some alias_, [], target⟩).map fun target => lookup.substitute target binding

def resolveReference (scope : Scope) (resolving : List Name) (name : Name) (args : List Ty) :
    Option Ty :=
  let simple := name.simpleName
  match tree.typeParam scope simple with
  | some param => if args.isEmpty then typeVar tree answer scope resolving param else some .error
  | none =>
      match tree.typeAlias scope simple with
      | some (alias_, target) => expandAlias lookup tree answer alias_ target args
      | none =>
          match tree.localClassReference scope simple args with
          | some found => some found
          | none =>
              match lookup.classFqn scope name args.length with
              | some fqn => some (.reference fqn args none)
              | none => some .error

/-- `Ty::nullable` and `Ty::definitely_non_null`: the attribute is not set twice. -/
def nullable : Ty → Ty
  | .nullable ty => .nullable ty
  | ty => .nullable ty

def definitelyNonNull : Ty → Ty
  | .definitelyNonNull ty => .definitelyNonNull ty
  | ty => .definitelyNonNull ty

def objectName : Name := ⟨"java.lang.Object".toList⟩

/-- `Ty::wildcard`: an upper bound `Object` is no bound. -/
def wildcard : BoundKind → Ty → Ty
  | .upper, .reference name [] loc =>
      if name = objectName then .wildcard none else .wildcard (some (.upper, .reference name [] loc))
  | kind, ty => .wildcard (some (kind, ty))

/-- The type of a reference, from those of the references that it asks for. -/
def tyFromTypeRef (call : Call) : Option Ty :=
  match call.ty with
  | .reference name genericArgs =>
      (genericArgs.mapM fun arg => answer { call with ty := arg }).bind
        (resolveReference lookup tree answer call.scope call.resolving name)
  | .primitive p => some (.primitive p)
  | .void => some .void
  | .wildcard none => some (.wildcard none)
  | .wildcard (some (kind, inner)) => (answer { call with ty := inner }).map (wildcard kind)
  | .typeVariable name => resolveReference lookup tree answer call.scope call.resolving name []
  | .array inner => (answer { call with ty := inner }).map .array
  | .error => some .error
  | .nullable inner => (answer { call with ty := inner }).map nullable
  | .definitelyNonNull inner => (answer { call with ty := inner }).map definitelyNonNull

end Resolve

end CaffeineLs.HirTy.KotlinResolver
