/-
Module: CaffeineLs.Hir.Stub
Purpose: The declaration stubs of classes and modules, over any representation of names.
Trusted boundary: floating-point constants are their bits, as in the source
Main exports: TypeRef, AnnotationValue, ClassStub
-/

namespace CaffeineLs.Hir

inductive PrimitiveType where
  | int | long | float | double | boolean | byte | char | short
deriving DecidableEq, Repr

inductive PrimitiveValue where
  | int (value : Int32)
  | long (value : Int64)
  | float (bits : UInt32)
  | double (bits : UInt64)
  | boolean (value : Bool)
  | byte (value : Int8)
  | char (value : UInt16)
  | short (value : Int16)
deriving DecidableEq, Repr

inductive ClassKind where
  | class_ | interface | enum | record | annotation_
deriving DecidableEq, Repr

mutual

inductive TypeRef (N : Type) where
  | primitive (type : PrimitiveType)
  | reference (name : N) (genericArgs : List (TypeRef N))
  | wildcard (bound : Option (TypeBound N))
  | typeVariable (name : N)
  | array (inner : TypeRef N)
  | error
  | nullable (inner : TypeRef N)
  | definitelyNonNull (inner : TypeRef N)
  | void

inductive TypeBound (N : Type) where
  | upper (type : TypeRef N)
  | lower (type : TypeRef N)

end

mutual

inductive AnnotationValue (N : Type) where
  | string (value : N)
  | primitive (value : PrimitiveValue)
  | class_ (type : TypeRef N)
  | enum (classType : TypeRef N) (entryName : N)
  | annotation_ (sig : AnnotationSig N)
  | array (values : List (AnnotationValue N))

/-- `AnnotationSig { annotation_type, arguments }`. -/
inductive AnnotationSig (N : Type) where
  | mk (annotationType : TypeRef N) (arguments : List (N × AnnotationValue N))

end

structure TypeParameter (N : Type) where
  name : N
  bounds : List (TypeRef N)
  annotations : List (AnnotationSig N)

structure RecordComponentData (N : Type) where
  name : N
  componentType : TypeRef N
  varargs : Bool
  annotations : List (AnnotationSig N)

structure ParamData (N : Type) where
  flags : UInt16
  name : Option N
  paramType : TypeRef N
  annotations : List (AnnotationSig N)

structure MethodStub (N : Type) where
  flags : UInt16
  name : N
  descriptor : N
  returnType : TypeRef N
  typeParams : List (TypeParameter N)
  throwsList : List (TypeRef N)
  params : List (ParamData N)
  annotations : List (AnnotationSig N)
  defaultValue : Option (AnnotationValue N)
  deprecated : Bool

structure FieldStub (N : Type) where
  name : N
  descriptor : N
  flags : UInt16
  fieldType : TypeRef N
  annotations : List (AnnotationSig N)
  constantValue : Option (AnnotationValue N)
  deprecated : Bool

structure ClassStub (N : Type) where
  fqn : N
  name : N
  flags : UInt16
  isRecord : Bool
  deprecated : Bool
  superClass : Option (TypeRef N)
  interfaces : List (TypeRef N)
  typeParams : List (TypeParameter N)
  permittedSubclasses : List (TypeRef N)
  recordComponents : List (RecordComponentData N)
  methods : List (MethodStub N)
  fields : List (FieldStub N)
  annotations : List (AnnotationSig N)

structure ModuleRequires (N : Type) where
  moduleName : N
  flags : UInt16
  compiledVersion : Option N

structure ModuleExports (N : Type) where
  packageName : N
  flags : UInt16
  toModules : List N

structure ModuleOpens (N : Type) where
  packageName : N
  flags : UInt16
  toModules : List N

structure ModuleProvides (N : Type) where
  serviceInterface : TypeRef N
  withImplementations : List (TypeRef N)

structure ModuleStub (N : Type) where
  name : N
  flags : UInt16
  version : Option N
  requires : List (ModuleRequires N)
  exports : List (ModuleExports N)
  opens : List (ModuleOpens N)
  uses : List (TypeRef N)
  provides : List (ModuleProvides N)

inductive ClassOrModuleStub (N : Type) where
  | class_ (stub : ClassStub N)
  | module_ (stub : ModuleStub N)

end CaffeineLs.Hir
