/-
Module: CaffeineLs.ClassParser.MapMethod
Purpose: The parameters of a method stub: the types of the descriptor, those of the generic signature
  over them, and the names.
Trusted boundary: annotations, the default value and the deprecation mark are left out; an index of a
  local variable beyond `u16` panics, as with overflow checks
Main exports: parseMethodDescriptor, leadingSyntheticParams, alignment
-/
import CaffeineLs.ClassParser.Sig
import CaffeineLs.RustAsm.ClassNode

namespace CaffeineLs.ClassParser

open Hir RustAsm

def accStatic : UInt16 := 0x0008

def accSynthetic : UInt16 := 0x1000

def accMandated : UInt16 := 0x8000

/-! ### Descriptors -/

def parseTypeRef : List Char → TypeRef String × List Char
  | [] => (.error, [])
  | c :: rest =>
    match baseType c with
    | some type => (type, rest)
    | none =>
      if c = 'L' then
        let name := rest.span fun c => c ≠ ';'
        (.reference (dotted name.1) [], name.2.drop 1)
      else if c = '[' then
        let inner := parseTypeRef rest
        (.array inner.1, inner.2)
      else (.error, rest)

/-- The loop over the parameters. A round takes a character at least. -/
def parseParamTypes : Nat → List Char → List (TypeRef String) × List Char
  | 0, chars => ([], chars)
  | _ + 1, [] => ([], [])
  | fuel + 1, c :: rest =>
    if c = ')' then ([], rest)
    else
      let type := parseTypeRef (c :: rest)
      let types := parseParamTypes fuel type.2
      (type.1 :: types.1, types.2)

/-- The types of the parameters and of the result. -/
def parseMethodDescriptor (desc : String) : List (ParamData String) × TypeRef String :=
  match desc.toList with
  | '(' :: rest =>
    let types := parseParamTypes (rest.length + 1) rest
    (types.1.map fun type => ⟨0, none, type, []⟩, (parseTypeRef types.2).1)
  | _ => ([], .error)

/-! ### Alignment -/

/-- The first `Signature` attribute whose index is one of a string. -/
def getSignature (attributes : List AttributeInfo) (cp : Pool) : Option String :=
  attributes.findSome? fun
    | .signature index => cpUtf8 cp index
    | _ => none

/-- `param.access_flags & (ACC_SYNTHETIC | ACC_MANDATED) != 0` -/
def isFlagged (param : MethodParameter) : Bool :=
  param.accessFlags &&& (accSynthetic ||| accMandated) ≠ 0

/-- The flagged parameters that a method starts with. -/
def flaggedParams (node : MethodNode) (descriptorParams : Nat) : Nat :=
  ((node.methodParameters.take descriptorParams).takeWhile isFlagged).length

def leadingSyntheticParams (node : MethodNode) (descriptorParams sigParams : Nat) : Nat :=
  let flagged := flaggedParams node descriptorParams
  if node.methodParameters.length = descriptorParams ∧ flagged > 0 then flagged
  else descriptorParams - sigParams

/-- The positions that the loop over `params.iter_mut().skip(synthetic).take(n).zip(param_types)` comes
to, each with the type it assigns there. -/
def alignment (synthetic descriptorParams : Nat) (paramTypes : List (TypeRef String)) :
    List (Nat × TypeRef String) :=
  (((List.range descriptorParams).drop synthetic).take paramTypes.length).zip paramTypes

/-- The type assigned to a position, where there is one. -/
def assignType (assigned : List (Nat × TypeRef String)) (param : ParamData String × Nat) :
    ParamData String :=
  match assigned.lookup param.2 with
  | some type => { param.1 with paramType := type }
  | none => param.1

/-! ### Names -/

/-- The flags and the name that the `MethodParameters` attribute has for a position. -/
def declareParam (node : MethodNode) (cp : Pool) (param : ParamData String × Nat) :
    ParamData String :=
  match node.methodParameters[param.2]? with
  | none => param.1
  | some methodParam =>
    let flagged := { param.1 with flags := methodParam.accessFlags }
    if methodParam.nameIndex ≠ 0 then
      match cpUtf8 cp methodParam.nameIndex with
      | some name => { flagged with name := some name }
      | none => flagged
    else flagged

/-- The name of the first variable that stands at an index from the start of the code. -/
def localName (locals : List LocalVariable) (cp : Pool) (index : UInt16) : Option String :=
  (locals.find? fun localVar => localVar.index = index && localVar.startPc = 0).bind fun localVar =>
    cpUtf8 cp localVar.nameIndex

/-- The slots that a parameter takes. -/
def slots : TypeRef String → Nat
  | .primitive .double | .primitive .long => 2
  | _ => 1

/-- The loop over the parameters with the index of the next local variable. -/
def nameLocals (locals : List LocalVariable) (cp : Pool) :
    Nat → List (ParamData String) → Option (List (ParamData String))
  | _, [] => some []
  | localVarIndex, param :: params =>
    let named :=
      if param.name.isNone then { param with name := localName locals cp (UInt16.ofNat localVarIndex) }
      else param
    let next := localVarIndex + slots param.paramType
    if next < 2 ^ 16 then do
      let params ← nameLocals locals cp next params
      some (named :: params)
    else none

/-! ### Methods -/

/-- What a method stub has of the descriptor, the signature, the parameters and the exceptions. -/
structure MappedMethod where
  typeParams : List (TypeParameter String)
  params : List (ParamData String)
  returnType : TypeRef String
  throwsList : List (TypeRef String)

/-- The generic signature over the descriptor. -/
def alignSignature (node : MethodNode) (signature : MethodSignature) (mapped : MappedMethod) :
    MappedMethod :=
  let synthetic := leadingSyntheticParams node mapped.params.length signature.paramTypes.length
  let assigned := alignment synthetic mapped.params.length signature.paramTypes
  { typeParams := signature.typeParams
    params := mapped.params.zipIdx.map (assignType assigned)
    returnType := signature.returnType
    throwsList := if signature.throwsList.isEmpty then mapped.throwsList else signature.throwsList }

/-- The descriptor and the exceptions. -/
def mapDescriptor (node : MethodNode) : MappedMethod :=
  { typeParams := []
    params := (parseMethodDescriptor node.descriptor).1
    returnType := (parseMethodDescriptor node.descriptor).2
    throwsList := node.exceptions.map fun name => .reference (dotted name.toList) [] }

/-- The index of the first local variable behind `this`. -/
def firstLocal (node : MethodNode) : Nat := if node.accessFlags &&& accStatic ≠ 0 then 0 else 1

def mapMethod (node : MethodNode) (cp : Pool) : Option MappedMethod := do
  let mapped ←
    match getSignature node.attributes cp with
    | none => some (mapDescriptor node)
    | some sig => do
      let (signature, _) ← parseMethodSignature sig.toList
      some (alignSignature node signature (mapDescriptor node))
  let params ← nameLocals node.localVariables cp (firstLocal node)
    (mapped.params.zipIdx.map (declareParam node cp))
  some { mapped with params := params }

end CaffeineLs.ClassParser
