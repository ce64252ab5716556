/-
Module: CaffeineLs.RustAsm.ClassNode
Purpose: The object model of a class file: attributes with everything nested in them, fields, methods,
  the module descriptor and the class itself.
Trusted boundary: instruction nodes with labels and try/catch blocks by label are left out
Main exports: AttributeInfo, CodeAttribute, RecordComponent
-/
import CaffeineLs.RustAsm.ConstantPool
import CaffeineLs.RustAsm.Insn

namespace CaffeineLs.RustAsm

structure ModuleRequire where
  requiresIndex : UInt16
  requiresFlags : UInt16
  requiresVersionIndex : UInt16
deriving DecidableEq, Repr

structure ModuleExport where
  exportsIndex : UInt16
  exportsFlags : UInt16
  exportsToIndex : List UInt16
deriving DecidableEq, Repr

structure ModuleOpen where
  opensIndex : UInt16
  opensFlags : UInt16
  opensToIndex : List UInt16
deriving DecidableEq, Repr

structure ModuleProvide where
  providesIndex : UInt16
  providesWithIndex : List UInt16
deriving DecidableEq, Repr

structure ModuleAttribute where
  moduleNameIndex : UInt16
  moduleFlags : UInt16
  moduleVersionIndex : UInt16
  requires : List ModuleRequire
  exports : List ModuleExport
  opens : List ModuleOpen
  usesIndex : List UInt16
  provides : List ModuleProvide
deriving DecidableEq, Repr

mutual

/-- The value of an element of an annotation. -/
inductive ElementValue where
  | constValueIndex (tag : UInt8) (constValueIndex : UInt16)
  | enumConstValue (typeNameIndex constNameIndex : UInt16)
  | classInfoIndex (classInfoIndex : UInt16)
  | nested (value : Annotation)
  | arrayValue (items : List ElementValue)

structure ElementValuePair where
  elementNameIndex : UInt16
  value : ElementValue

structure Annotation where
  typeDescriptorIndex : UInt16
  elementValuePairs : List ElementValuePair

end

structure LocalVarTargetTableEntry where
  startPc : UInt16
  length : UInt16
  index : UInt16
deriving DecidableEq, Repr

inductive TypeAnnotationTargetInfo where
  | typeParameter (typeParameterIndex : UInt8)
  | supertype (supertypeIndex : UInt16)
  | typeParameterBound (typeParameterIndex boundIndex : UInt8)
  | empty
  | formalParameter (formalParameterIndex : UInt8)
  | throws (throwsTypeIndex : UInt16)
  | localVar (table : List LocalVarTargetTableEntry)
  | catch_ (exceptionTableIndex : UInt16)
  | offset (offset : UInt16)
  | typeArgument (offset : UInt16) (typeArgumentIndex : UInt8)
deriving DecidableEq, Repr

structure TypePathEntry where
  typePathKind : UInt8
  typeArgumentIndex : UInt8
deriving DecidableEq, Repr

structure TypePath where
  path : List TypePathEntry
deriving DecidableEq, Repr

structure TypeAnnotation where
  targetType : UInt8
  targetInfo : TypeAnnotationTargetInfo
  targetPath : TypePath
  content : Annotation

structure ExceptionTableEntry where
  startPc : UInt16
  endPc : UInt16
  handlerPc : UInt16
  catchType : UInt16
deriving DecidableEq, Repr

structure LineNumber where
  startPc : UInt16
  lineNumber : UInt16
deriving DecidableEq, Repr

structure LocalVariable where
  startPc : UInt16
  length : UInt16
  nameIndex : UInt16
  descriptorIndex : UInt16
  index : UInt16
deriving DecidableEq, Repr

structure InnerClass where
  innerClassInfoIndex : UInt16
  outerClassInfoIndex : UInt16
  innerNameIndex : UInt16
  innerClassAccessFlags : UInt16
deriving DecidableEq, Repr

structure BootstrapMethod where
  bootstrapMethodRef : UInt16
  bootstrapArguments : List UInt16
deriving DecidableEq, Repr

structure MethodParameter where
  nameIndex : UInt16
  accessFlags : UInt16
deriving DecidableEq, Repr

inductive VerificationTypeInfo where
  | top
  | integer
  | float
  | double
  | long
  | null
  | uninitializedThis
  | object (cpoolIndex : UInt16)
  | uninitialized (offset : UInt16)
deriving DecidableEq, Repr

inductive StackMapFrame where
  | sameFrame (offsetDelta : UInt16)
  | sameLocals1StackItemFrame (offsetDelta : UInt16) (stack : VerificationTypeInfo)
  | sameLocals1StackItemFrameExtended (offsetDelta : UInt16) (stack : VerificationTypeInfo)
  | chopFrame (offsetDelta : UInt16) (k : UInt8)
  | sameFrameExtended (offsetDelta : UInt16)
  | appendFrame (offsetDelta : UInt16) (locals : List VerificationTypeInfo)
  | fullFrame (offsetDelta : UInt16) (locals stack : List VerificationTypeInfo)
deriving DecidableEq, Repr

mutual

structure CodeAttribute where
  maxStack : UInt16
  maxLocals : UInt16
  code : List UInt8
  instructions : List Insn
  exceptionTable : List ExceptionTableEntry
  attributes : List AttributeInfo

structure RecordComponent where
  nameIndex : UInt16
  descriptorIndex : UInt16
  attributes : List AttributeInfo

inductive AttributeInfo where
  | code (code : CodeAttribute)
  | constantValue (constantvalueIndex : UInt16)
  | exceptions (exceptionIndexTable : List UInt16)
  | sourceFile (sourcefileIndex : UInt16)
  | lineNumberTable (entries : List LineNumber)
  | localVariableTable (entries : List LocalVariable)
  | signature (signatureIndex : UInt16)
  | stackMapTable (entries : List StackMapFrame)
  | deprecated
  | synthetic
  | innerClasses (classes : List InnerClass)
  | enclosingMethod (classIndex methodIndex : UInt16)
  | module_ (module_ : ModuleAttribute)
  | modulePackages (packageIndexTable : List UInt16)
  | moduleMainClass (mainClassIndex : UInt16)
  | bootstrapMethods (methods : List BootstrapMethod)
  | methodParameters (parameters : List MethodParameter)
  | runtimeVisibleAnnotations (entries : List Annotation)
  | runtimeInvisibleAnnotations (entries : List Annotation)
  | runtimeVisibleParameterAnnotations (parameters : List (List Annotation))
  | runtimeInvisibleParameterAnnotations (parameters : List (List Annotation))
  | runtimeVisibleTypeAnnotations (entries : List TypeAnnotation)
  | runtimeInvisibleTypeAnnotations (entries : List TypeAnnotation)
  | permittedSubclasses (classes : List UInt16)
  | record (components : List RecordComponent)
  | annotationDefault (defaultValue : ElementValue)
  | unknown (name : String) (info : List UInt8)

end

structure FieldNode where
  accessFlags : UInt16
  name : String
  descriptor : String
  attributes : List AttributeInfo

structure MethodNode where
  accessFlags : UInt16
  name : String
  descriptor : String
  hasCode : Bool
  maxStack : UInt16
  maxLocals : UInt16
  instructions : List Insn
  instructionOffsets : List UInt16
  exceptionTable : List ExceptionTableEntry
  lineNumbers : List LineNumber
  localVariables : List LocalVariable
  methodParameters : List MethodParameter
  exceptions : List String
  signature : Option String
  codeAttributes : List AttributeInfo
  attributes : List AttributeInfo

structure InnerClassNode where
  name : String
  outerName : Option String
  innerName : Option String
  accessFlags : UInt16
deriving DecidableEq, Repr

structure ModuleRequireNode where
  module_ : String
  accessFlags : UInt16
  version : Option String
deriving DecidableEq, Repr

structure ModuleExportNode where
  package : String
  accessFlags : UInt16
  modules : List String
deriving DecidableEq, Repr

structure ModuleOpenNode where
  package : String
  accessFlags : UInt16
  modules : List String
deriving DecidableEq, Repr

structure ModuleProvideNode where
  service : String
  providers : List String
deriving DecidableEq, Repr

structure ModuleNode where
  name : String
  accessFlags : UInt16
  version : Option String
  requires : List ModuleRequireNode
  exports : List ModuleExportNode
  opens : List ModuleOpenNode
  uses : List String
  provides : List ModuleProvideNode
  packages : List String
  mainClass : Option String
deriving DecidableEq, Repr

structure RecordComponentNode where
  name : String
  descriptor : String
  attributes : List AttributeInfo

structure ClassNode where
  minorVersion : UInt16
  majorVersion : UInt16
  accessFlags : UInt16
  constantPool : Pool
  thisClass : UInt16
  name : String
  superName : Option String
  sourceFile : Option String
  interfaces : List String
  interfaceIndices : List UInt16
  fields : List FieldNode
  methods : List MethodNode
  attributes : List AttributeInfo
  innerClasses : List InnerClassNode
  outerClass : String
  module_ : Option ModuleNode
  permittedSubclasses : List String
  recordComponents : List RecordComponentNode

end CaffeineLs.RustAsm
