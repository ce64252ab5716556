/-
Module: CaffeineLs.ClassParser.SignatureGrammar
Purpose: The signatures that the grammar of the class file format generates, how they are written, and
  what they stand for.
Trusted boundary: none
Main exports: Identifier, RefType, TypeParam
-/
import CaffeineLs.ClassParser.Sig

namespace CaffeineLs.ClassParser

open Hir

/-! ### The grammar -/

/-- An identifier of a signature. -/
structure Identifier where
  chars : List Char
  some_ : chars ≠ []
  plain : ∀ c ∈ chars, c ≠ '.' ∧ c ≠ ';' ∧ c ≠ '[' ∧ c ≠ '/' ∧ c ≠ '<' ∧ c ≠ '>' ∧ c ≠ ':'

mutual

inductive JavaType where
  | base (type : PrimitiveType)
  | ref (type : RefType)

/-- A reference type. A class type has a package, a class and the classes nested in it. -/
inductive RefType where
  | class_ (package : List Identifier) (simple : Segment) (suffix : List Segment)
  | typeVariable (name : Identifier)
  | array (component : JavaType)

/-- A class with its type arguments. -/
inductive Segment where
  | mk (name : Identifier) (arguments : List TypeArgument)

inductive TypeArgument where
  | any
  | exactly (type : RefType)
  | extends_ (type : RefType)
  | super_ (type : RefType)

end

/-- A type parameter with its class bound and its interface bounds. -/
structure TypeParam where
  name : Identifier
  classBound : Option RefType
  interfaceBounds : List RefType

def TypeParam.Bounded (param : TypeParam) : Prop :=
  param.classBound.isSome ∨ param.interfaceBounds ≠ []

/-- A class type. -/
structure ClassType where
  package : List Identifier
  simple : Segment
  suffix : List Segment

structure ClassSig where
  typeParams : List TypeParam
  superClass : ClassType
  interfaces : List ClassType

/-- The result of a method, where nothing stands for `void`, and what it throws: classes and type
variables. -/
structure MethodSig where
  typeParams : List TypeParam
  params : List JavaType
  result : Option JavaType
  throwsList : List (ClassType ⊕ Identifier)

/-! ### Writing -/

def baseLetter : PrimitiveType → Char
  | .byte => 'B'
  | .char => 'C'
  | .double => 'D'
  | .float => 'F'
  | .int => 'I'
  | .long => 'J'
  | .short => 'S'
  | .boolean => 'Z'

mutual

def JavaType.write : JavaType → List Char
  | .base type => [baseLetter type]
  | .ref type => type.write

def RefType.write : RefType → List Char
  | .class_ package simple suffix =>
      'L' :: (package.flatMap fun name => name.chars ++ ['/']) ++ simple.write ++
        writeSuffix suffix ++ [';']
  | .typeVariable name => 'T' :: name.chars ++ [';']
  | .array component => '[' :: component.write

def Segment.write : Segment → List Char
  | .mk name arguments =>
      name.chars ++ if arguments.isEmpty then [] else '<' :: writeArguments arguments ++ ['>']

def writeSuffix : List Segment → List Char
  | [] => []
  | segment :: suffix => '.' :: segment.write ++ writeSuffix suffix

def TypeArgument.write : TypeArgument → List Char
  | .any => ['*']
  | .exactly type => type.write
  | .extends_ type => '+' :: type.write
  | .super_ type => '-' :: type.write

def writeArguments : List TypeArgument → List Char
  | [] => []
  | argument :: arguments => argument.write ++ writeArguments arguments

end

def TypeParam.write (param : TypeParam) : List Char :=
  param.name.chars ++ ':' :: ((param.classBound.map RefType.write).getD [] ++
    param.interfaceBounds.flatMap fun bound => ':' :: bound.write)

def writeTypeParams (params : List TypeParam) : List Char :=
  if params.isEmpty then [] else '<' :: params.flatMap TypeParam.write ++ ['>']

def ClassType.toRefType (type : ClassType) : RefType := .class_ type.package type.simple type.suffix

def ClassSig.write (sig : ClassSig) : List Char :=
  writeTypeParams sig.typeParams ++ sig.superClass.toRefType.write ++
    sig.interfaces.flatMap fun interface => interface.toRefType.write

/-- A class or a type variable that a method throws. -/
def thrownType : ClassType ⊕ Identifier → RefType
  | .inl type => type.toRefType
  | .inr name => .typeVariable name

def MethodSig.write (sig : MethodSig) : List Char :=
  writeTypeParams sig.typeParams ++ '(' :: (sig.params.flatMap JavaType.write) ++
    ')' :: (sig.result.map JavaType.write).getD ['V'] ++
    sig.throwsList.flatMap fun thrown => '^' :: (thrownType thrown).write

/-! ### What is written -/

/-- The name of a class in a package: dots behind the packages, and a `$` before each class nested in
another. -/
def binaryName (package : List Identifier) (simple : Segment) (suffix : List Segment) : List Char :=
  (package.flatMap fun name => name.chars ++ ['.']) ++ nameOf simple ++
    suffix.flatMap fun segment => '$' :: nameOf segment
where
  nameOf : Segment → List Char
    | .mk name _ => name.chars

mutual

def JavaType.toRef : JavaType → TypeRef String
  | .base type => .primitive type
  | .ref type => type.toRef

/-- The type arguments of all classes stand on the whole name, in their order. -/
def RefType.toRef : RefType → TypeRef String
  | .class_ package simple suffix =>
      .reference (String.ofList (binaryName package simple suffix))
        (simple.argumentRefs ++ suffixRefs suffix)
  | .typeVariable name => .typeVariable (String.ofList name.chars)
  | .array component => .array component.toRef

def Segment.argumentRefs : Segment → List (TypeRef String)
  | .mk _ arguments => toRefs arguments

def suffixRefs : List Segment → List (TypeRef String)
  | [] => []
  | segment :: suffix => segment.argumentRefs ++ suffixRefs suffix

def TypeArgument.toRef : TypeArgument → TypeRef String
  | .any => .wildcard none
  | .exactly type => type.toRef
  | .extends_ type => .wildcard (some (.upper type.toRef))
  | .super_ type => .wildcard (some (.lower type.toRef))

def toRefs : List TypeArgument → List (TypeRef String)
  | [] => []
  | argument :: arguments => argument.toRef :: toRefs arguments

end

def TypeParam.toTypeParameter (param : TypeParam) : TypeParameter String :=
  ⟨String.ofList param.name.chars,
    (param.classBound.map RefType.toRef).toList ++ param.interfaceBounds.map RefType.toRef, []⟩

def ClassSig.toSignature (sig : ClassSig) : ClassSignature where
  typeParams := sig.typeParams.map TypeParam.toTypeParameter
  superClass := sig.superClass.toRefType.toRef
  interfaces := sig.interfaces.map fun interface => interface.toRefType.toRef

def MethodSig.toSignature (sig : MethodSig) : MethodSignature where
  typeParams := sig.typeParams.map TypeParam.toTypeParameter
  paramTypes := sig.params.map JavaType.toRef
  returnType := (sig.result.map JavaType.toRef).getD .void
  throwsList := sig.throwsList.map fun thrown => (thrownType thrown).toRef

/-- There is no `TypeRef::Error` in a type. -/
inductive ErrorFree : TypeRef String → Prop where
  | primitive (type : PrimitiveType) : ErrorFree (.primitive type)
  | void : ErrorFree .void
  | typeVariable (name : String) : ErrorFree (.typeVariable name)
  | array {inner : TypeRef String} (free : ErrorFree inner) : ErrorFree (.array inner)
  | reference (name : String) {genericArgs : List (TypeRef String)}
      (free : ∀ argument ∈ genericArgs, ErrorFree argument) :
      ErrorFree (.reference name genericArgs)
  | any : ErrorFree (.wildcard none)
  | upper {bound : TypeRef String} (free : ErrorFree bound) :
      ErrorFree (.wildcard (some (.upper bound)))
  | lower {bound : TypeRef String} (free : ErrorFree bound) :
      ErrorFree (.wildcard (some (.lower bound)))

def TypeParamsErrorFree (params : List (TypeParameter String)) : Prop :=
  ∀ param ∈ params, ∀ bound ∈ param.bounds, ErrorFree bound

structure ClassSignature.ErrorFree (sig : ClassSignature) : Prop where
  typeParams : TypeParamsErrorFree sig.typeParams
  superClass : ClassParser.ErrorFree sig.superClass
  interfaces : ∀ interface ∈ sig.interfaces, ClassParser.ErrorFree interface

structure MethodSignature.ErrorFree (sig : MethodSignature) : Prop where
  typeParams : TypeParamsErrorFree sig.typeParams
  paramTypes : ∀ type ∈ sig.paramTypes, ClassParser.ErrorFree type
  returnType : ClassParser.ErrorFree sig.returnType
  throwsList : ∀ type ∈ sig.throwsList, ClassParser.ErrorFree type

/-! ### Signatures of all kinds -/

inductive GenericSignature where
  | field (type : RefType)
  | class_ (sig : ClassSig)
  | method (sig : MethodSig)

def GenericSignature.typeParams : GenericSignature → List TypeParam
  | .field _ => []
  | .class_ sig => sig.typeParams
  | .method sig => sig.typeParams

/-- A type parameter that another one follows has a bound. -/
def BoundedBeforeOthers : List TypeParam → Prop
  | [] => True
  | [_] => True
  | param :: next :: params => param.Bounded ∧ BoundedBeforeOthers (next :: params)

/-- The parser takes all that is written and gives what it was written for, without an error. -/
def ReadBack : GenericSignature → Prop
  | .field type => parseFieldSignature type.write = some (type.toRef, []) ∧ ErrorFree type.toRef
  | .class_ sig =>
      parseClassSignature sig.write = some (sig.toSignature, []) ∧ sig.toSignature.ErrorFree
  | .method sig =>
      parseMethodSignature sig.write = some (sig.toSignature, []) ∧ sig.toSignature.ErrorFree

end CaffeineLs.ClassParser
