/-
Module: CaffeineLs.RustAsm.ClassReader
Purpose: The class reader: attributes with everything nested in them, the class file, and the class
  node made from it.
Trusted boundary: the depth of the stack is not limited
Main exports: parseAttribute, readAttributes, ClassFile
-/
import CaffeineLs.RustAsm.CodeReader

namespace CaffeineLs.RustAsm

open ByteReader

/-! ### Rows of attributes -/

def readExceptionTableEntry : Reader ExceptionTableEntry := do
  let startPc ← readU2
  let endPc ← readU2
  let handlerPc ← readU2
  let catchType ← readU2
  pure { startPc := startPc, endPc := endPc, handlerPc := handlerPc, catchType := catchType }

def readLineNumber : Reader LineNumber := do
  let startPc ← readU2
  let lineNumber ← readU2
  pure { startPc := startPc, lineNumber := lineNumber }

def readLocalVariable : Reader LocalVariable := do
  let startPc ← readU2
  let length ← readU2
  let nameIndex ← readU2
  let descriptorIndex ← readU2
  let index ← readU2
  pure
    { startPc := startPc
      length := length
      nameIndex := nameIndex
      descriptorIndex := descriptorIndex
      index := index }

def readInnerClass : Reader InnerClass := do
  let innerClassInfoIndex ← readU2
  let outerClassInfoIndex ← readU2
  let innerNameIndex ← readU2
  let innerClassAccessFlags ← readU2
  pure
    { innerClassInfoIndex := innerClassInfoIndex
      outerClassInfoIndex := outerClassInfoIndex
      innerNameIndex := innerNameIndex
      innerClassAccessFlags := innerClassAccessFlags }

def readBootstrapMethod : Reader BootstrapMethod := do
  let bootstrapMethodRef ← readU2
  let bootstrapArguments ← readTable readU2
  pure { bootstrapMethodRef := bootstrapMethodRef, bootstrapArguments := bootstrapArguments }

def readMethodParameter : Reader MethodParameter := do
  let nameIndex ← readU2
  let accessFlags ← readU2
  pure { nameIndex := nameIndex, accessFlags := accessFlags }

def readModuleRequire : Reader ModuleRequire := do
  let requiresIndex ← readU2
  let requiresFlags ← readU2
  let requiresVersionIndex ← readU2
  pure
    { requiresIndex := requiresIndex
      requiresFlags := requiresFlags
      requiresVersionIndex := requiresVersionIndex }

def readModuleExport : Reader ModuleExport := do
  let exportsIndex ← readU2
  let exportsFlags ← readU2
  let exportsToIndex ← readTable readU2
  pure
    { exportsIndex := exportsIndex, exportsFlags := exportsFlags, exportsToIndex := exportsToIndex }

def readModuleOpen : Reader ModuleOpen := do
  let opensIndex ← readU2
  let opensFlags ← readU2
  let opensToIndex ← readTable readU2
  pure { opensIndex := opensIndex, opensFlags := opensFlags, opensToIndex := opensToIndex }

def readModuleProvide : Reader ModuleProvide := do
  let providesIndex ← readU2
  let providesWithIndex ← readTable readU2
  pure { providesIndex := providesIndex, providesWithIndex := providesWithIndex }

def parseModuleAttribute : Reader ModuleAttribute := do
  let moduleNameIndex ← readU2
  let moduleFlags ← readU2
  let moduleVersionIndex ← readU2
  let requires ← readTable readModuleRequire
  let exports ← readTable readModuleExport
  let opens ← readTable readModuleOpen
  let usesIndex ← readTable readU2
  let provides ← readTable readModuleProvide
  pure
    { moduleNameIndex := moduleNameIndex
      moduleFlags := moduleFlags
      moduleVersionIndex := moduleVersionIndex
      requires := requires
      exports := exports
      opens := opens
      usesIndex := usesIndex
      provides := provides }

def parseVerificationType : Reader VerificationTypeInfo := do
  let tag ← readU1
  match tag.toNat with
  | 0 => pure .top
  | 1 => pure .integer
  | 2 => pure .float
  | 3 => pure .double
  | 4 => pure .long
  | 5 => pure .null
  | 6 => pure .uninitializedThis
  | 7 => do
    let cpoolIndex ← readU2
    pure (.object cpoolIndex)
  | 8 => do
    let offset ← readU2
    pure (.uninitialized offset)
  | _ => fail (.invalidAttribute "StackMapTable")

/-- What follows a frame type. -/
def readFrame (frameType : UInt8) : Reader StackMapFrame :=
  if frameType ≤ 63 then pure (.sameFrame frameType.toUInt16)
  else if frameType ≤ 127 then do
    let stack ← parseVerificationType
    pure (.sameLocals1StackItemFrame (frameType - 64).toUInt16 stack)
  else if frameType = 247 then do
    let offsetDelta ← readU2
    let stack ← parseVerificationType
    pure (.sameLocals1StackItemFrameExtended offsetDelta stack)
  else if 248 ≤ frameType ∧ frameType ≤ 250 then do
    let offsetDelta ← readU2
    pure (.chopFrame offsetDelta (251 - frameType))
  else if frameType = 251 then do
    let offsetDelta ← readU2
    pure (.sameFrameExtended offsetDelta)
  else if 252 ≤ frameType ∧ frameType ≤ 254 then do
    let offsetDelta ← readU2
    let locals ← table (frameType - 251).toNat parseVerificationType
    pure (.appendFrame offsetDelta locals)
  else if frameType = 255 then do
    let offsetDelta ← readU2
    let locals ← readTable parseVerificationType
    let stack ← readTable parseVerificationType
    pure (.fullFrame offsetDelta locals stack)
  else fail (.invalidAttribute "StackMapTable")

def readStackMapFrame : Reader StackMapFrame := do
  let frameType ← readU1
  readFrame frameType

/-! ### Values of annotations -/

/-- The tags `B C D F I J S Z s` of a constant. -/
def isConstTag (tag : UInt8) : Bool :=
  tag ∈ [0x42, 0x43, 0x44, 0x46, 0x49, 0x4A, 0x53, 0x5A, 0x73]

/-- An element behind its name. -/
def readElementValuePair (value : Reader ElementValue) : Reader ElementValuePair := do
  let elementNameIndex ← readU2
  let value ← value
  pure { elementNameIndex := elementNameIndex, value := value }

/-- An annotation, with the reader of its values. -/
def parseAnnotationWith (value : Reader ElementValue) : Reader Annotation := do
  let typeDescriptorIndex ← readU2
  let elementValuePairs ← readTable (readElementValuePair value)
  pure { typeDescriptorIndex := typeDescriptorIndex, elementValuePairs := elementValuePairs }

/-- What follows the tag of a value, with the reader of the values in it. -/
def readElementValue (value : Reader ElementValue) (tag : UInt8) : Reader ElementValue :=
  if isConstTag tag then do
    let constValueIndex ← readU2
    pure (.constValueIndex tag constValueIndex)
  else if tag = 101 then do
    let typeNameIndex ← readU2
    let constNameIndex ← readU2
    pure (.enumConstValue typeNameIndex constNameIndex)
  else if tag = 99 then do
    let classInfoIndex ← readU2
    pure (.classInfoIndex classInfoIndex)
  else if tag = 64 then do
    let nested ← parseAnnotationWith value
    pure (.nested nested)
  else if tag = 91 then do
    let items ← readTable value
    pure (.arrayValue items)
  else fail (.invalidAttribute "AnnotationElementValue")

/-- Values nested at most `depth` deep. -/
def parseElementValue : Nat → Reader ElementValue
  | 0 => stop .stuck
  | depth + 1 => do
    let tag ← readU1
    readElementValue (parseElementValue depth) tag

def parseAnnotationEntry (depth : Nat) : Reader Annotation :=
  parseAnnotationWith (parseElementValue depth)

def readTypePathEntry : Reader TypePathEntry := do
  let typePathKind ← readU1
  let typeArgumentIndex ← readU1
  pure { typePathKind := typePathKind, typeArgumentIndex := typeArgumentIndex }

def parseTypePath : Reader TypePath := do
  let path ← readShortTable readTypePathEntry
  pure { path := path }

def readLocalVarTargetTableEntry : Reader LocalVarTargetTableEntry := do
  let startPc ← readU2
  let length ← readU2
  let index ← readU2
  pure { startPc := startPc, length := length, index := index }

/-- The shapes of the target info of a type annotation. -/
inductive TargetKind where
  | typeParameter
  | supertype
  | typeParameterBound
  | empty
  | formalParameter
  | throws
  | localVar
  | catch_
  | offset
  | typeArgument
  | invalid
deriving DecidableEq, Repr

/-- The arms of the match on the target type. -/
def targetKind (targetType : UInt8) : TargetKind :=
  match targetType.toNat with
  | 0x00 | 0x01 => .typeParameter
  | 0x10 => .supertype
  | 0x11 | 0x12 => .typeParameterBound
  | 0x13 | 0x14 | 0x15 => .empty
  | 0x16 => .formalParameter
  | 0x17 => .throws
  | 0x40 | 0x41 => .localVar
  | 0x42 => .catch_
  | 0x43 | 0x44 | 0x45 | 0x46 => .offset
  | 0x47 | 0x48 | 0x49 | 0x4A | 0x4B => .typeArgument
  | _ => .invalid

/-- Two upper-case hexadecimal digits. -/
def hexByte (byte : UInt8) : String :=
  let digit (n : Nat) : Char := if n < 10 then Char.ofNat (48 + n) else Char.ofNat (55 + n)
  String.ofList [digit (byte.toNat / 16), digit (byte.toNat % 16)]

def parseTypeAnnotationTargetInfo (targetType : UInt8) : Reader TypeAnnotationTargetInfo :=
  match targetKind targetType with
  | .typeParameter => do
    let typeParameterIndex ← readU1
    pure (.typeParameter typeParameterIndex)
  | .supertype => do
    let supertypeIndex ← readU2
    pure (.supertype supertypeIndex)
  | .typeParameterBound => do
    let typeParameterIndex ← readU1
    let boundIndex ← readU1
    pure (.typeParameterBound typeParameterIndex boundIndex)
  | .empty => pure .empty
  | .formalParameter => do
    let formalParameterIndex ← readU1
    pure (.formalParameter formalParameterIndex)
  | .throws => do
    let throwsTypeIndex ← readU2
    pure (.throws throwsTypeIndex)
  | .localVar => do
    let rows ← readTable readLocalVarTargetTableEntry
    pure (.localVar rows)
  | .catch_ => do
    let exceptionTableIndex ← readU2
    pure (.catch_ exceptionTableIndex)
  | .offset => do
    let offset ← readU2
    pure (.offset offset)
  | .typeArgument => do
    let offset ← readU2
    let typeArgumentIndex ← readU1
    pure (.typeArgument offset typeArgumentIndex)
  | .invalid =>
    fail (.invalidAttribute
      ("TypeAnnotationTargetInfo(target_type=0x" ++ hexByte targetType ++ ")"))

def parseTypeAnnotationEntry (depth : Nat) : Reader TypeAnnotation := do
  let targetType ← readU1
  let targetInfo ← parseTypeAnnotationTargetInfo targetType
  let targetPath ← parseTypePath
  let content ← parseAnnotationEntry depth
  pure
    { targetType := targetType
      targetInfo := targetInfo
      targetPath := targetPath
      content := content }

/-! ### Attributes -/

/-- The body of a `Code` attribute, with the reader of the attributes nested in it. -/
def parseCode (nested : Reader (List AttributeInfo)) (cp : Pool) : Reader CodeAttribute := do
  let maxStack ← readU2
  let maxLocals ← readU2
  let codeLength ← readU4
  let code ← readBytes codeLength.toNat
  let instructions ← parseCodeInstructions code
  let exceptionTable ← readTable readExceptionTableEntry
  let attributes ← nested
  buildInsnNodes code exceptionTable cp
  pure
    { maxStack := maxStack
      maxLocals := maxLocals
      code := code
      instructions := instructions
      exceptionTable := exceptionTable
      attributes := attributes }

def readRecordComponent (nested : Reader (List AttributeInfo)) : Reader RecordComponent := do
  let nameIndex ← readU2
  let descriptorIndex ← readU2
  let attributes ← nested
  pure { nameIndex := nameIndex, descriptorIndex := descriptorIndex, attributes := attributes }

/-- The kinds of attributes the reader knows. -/
inductive AttributeKind where
  | code
  | constantValue
  | exceptions
  | sourceFile
  | lineNumberTable
  | localVariableTable
  | signature
  | stackMapTable
  | deprecated
  | synthetic
  | innerClasses
  | enclosingMethod
  | module_
  | modulePackages
  | moduleMainClass
  | bootstrapMethods
  | methodParameters
  | runtimeVisibleAnnotations
  | runtimeInvisibleAnnotations
  | runtimeVisibleParameterAnnotations
  | runtimeInvisibleParameterAnnotations
  | runtimeVisibleTypeAnnotations
  | runtimeInvisibleTypeAnnotations
  | permittedSubclasses
  | record
  | annotationDefault
deriving DecidableEq, Repr

/-- The arms of the match on the name of an attribute. -/
def attributeKinds : List (String × AttributeKind) :=
  [("Code", .code), ("ConstantValue", .constantValue), ("Exceptions", .exceptions),
    ("SourceFile", .sourceFile), ("LineNumberTable", .lineNumberTable),
    ("LocalVariableTable", .localVariableTable), ("Signature", .signature),
    ("StackMapTable", .stackMapTable), ("Deprecated", .deprecated), ("Synthetic", .synthetic),
    ("InnerClasses", .innerClasses), ("EnclosingMethod", .enclosingMethod), ("Module", .module_),
    ("ModulePackages", .modulePackages), ("ModuleMainClass", .moduleMainClass),
    ("BootstrapMethods", .bootstrapMethods), ("MethodParameters", .methodParameters),
    ("RuntimeVisibleAnnotations", .runtimeVisibleAnnotations),
    ("RuntimeInvisibleAnnotations", .runtimeInvisibleAnnotations),
    ("RuntimeVisibleParameterAnnotations", .runtimeVisibleParameterAnnotations),
    ("RuntimeInvisibleParameterAnnotations", .runtimeInvisibleParameterAnnotations),
    ("RuntimeVisibleTypeAnnotations", .runtimeVisibleTypeAnnotations),
    ("RuntimeInvisibleTypeAnnotations", .runtimeInvisibleTypeAnnotations),
    ("PermittedSubclasses", .permittedSubclasses), ("Record", .record),
    ("AnnotationDefault", .annotationDefault)]

/-- The contents of an attribute of a known kind. `depth` bounds the nesting of annotation values. -/
def parseKnown (nested : Reader (List AttributeInfo)) (cp : Pool) (depth : Nat) :
    AttributeKind → Reader AttributeInfo
  | .code => do
    let code ← parseCode nested cp
    pure (.code code)
  | .constantValue => do
    let constantvalueIndex ← readU2
    pure (.constantValue constantvalueIndex)
  | .exceptions => do
    let exceptionIndexTable ← readTable readU2
    pure (.exceptions exceptionIndexTable)
  | .sourceFile => do
    let sourcefileIndex ← readU2
    pure (.sourceFile sourcefileIndex)
  | .lineNumberTable => do
    let entries ← readTable readLineNumber
    pure (.lineNumberTable entries)
  | .localVariableTable => do
    let entries ← readTable readLocalVariable
    pure (.localVariableTable entries)
  | .signature => do
    let signatureIndex ← readU2
    pure (.signature signatureIndex)
  | .stackMapTable => do
    let entries ← readTable readStackMapFrame
    pure (.stackMapTable entries)
  | .deprecated => pure .deprecated
  | .synthetic => pure .synthetic
  | .innerClasses => do
    let classes ← readTable readInnerClass
    pure (.innerClasses classes)
  | .enclosingMethod => do
    let classIndex ← readU2
    let methodIndex ← readU2
    pure (.enclosingMethod classIndex methodIndex)
  | .module_ => do
    let module_ ← parseModuleAttribute
    pure (.module_ module_)
  | .modulePackages => do
    let packageIndexTable ← readTable readU2
    pure (.modulePackages packageIndexTable)
  | .moduleMainClass => do
    let mainClassIndex ← readU2
    pure (.moduleMainClass mainClassIndex)
  | .bootstrapMethods => do
    let methods ← readTable readBootstrapMethod
    pure (.bootstrapMethods methods)
  | .methodParameters => do
    let parameters ← readShortTable readMethodParameter
    pure (.methodParameters parameters)
  | .runtimeVisibleAnnotations => do
    let entries ← readTable (parseAnnotationEntry depth)
    pure (.runtimeVisibleAnnotations entries)
  | .runtimeInvisibleAnnotations => do
    let entries ← readTable (parseAnnotationEntry depth)
    pure (.runtimeInvisibleAnnotations entries)
  | .runtimeVisibleParameterAnnotations => do
    let parameters ← readShortTable (readTable (parseAnnotationEntry depth))
    pure (.runtimeVisibleParameterAnnotations parameters)
  | .runtimeInvisibleParameterAnnotations => do
    let parameters ← readShortTable (readTable (parseAnnotationEntry depth))
    pure (.runtimeInvisibleParameterAnnotations parameters)
  | .runtimeVisibleTypeAnnotations => do
    let entries ← readTable (parseTypeAnnotationEntry depth)
    pure (.runtimeVisibleTypeAnnotations entries)
  | .runtimeInvisibleTypeAnnotations => do
    let entries ← readTable (parseTypeAnnotationEntry depth)
    pure (.runtimeInvisibleTypeAnnotations entries)
  | .permittedSubclasses => do
    let classes ← readTable readU2
    pure (.permittedSubclasses classes)
  | .record => do
    let components ← readTable (readRecordComponent nested)
    pure (.record components)
  | .annotationDefault => do
    let defaultValue ← parseElementValue depth
    pure (.annotationDefault defaultValue)

/-- An attribute from its name and contents. A known one must use up its contents. -/
def parseAttribute (nested : Reader (List AttributeInfo)) (cp : Pool) (name : String)
    (info : List UInt8) : Reader AttributeInfo :=
  match attributeKinds.lookup name with
  | some kind => do
    let (attr, left) ← within info (parseKnown nested cp (info.length + 1) kind)
    if left.rest.isEmpty then pure attr else fail (.invalidAttribute name)
  | none => pure (.unknown name info)

def readAttribute (nested : Reader (List AttributeInfo)) (cp : Pool) : Reader AttributeInfo := do
  let nameIndex ← readU2
  let length ← readU4
  let name ← ofExcept (cpUtf8At cp nameIndex)
  let info ← readBytes length.toNat
  parseAttribute nested cp name info

/-- Attributes nested at most `depth` deep. -/
def readAttributes (cp : Pool) : Nat → Reader (List AttributeInfo)
  | 0 => stop .stuck
  | depth + 1 => readTable (readAttribute (readAttributes cp depth) cp)

/-! ### The class file -/

structure FieldInfo where
  accessFlags : UInt16
  nameIndex : UInt16
  descriptorIndex : UInt16
  attributes : List AttributeInfo

structure MethodInfo where
  accessFlags : UInt16
  nameIndex : UInt16
  descriptorIndex : UInt16
  attributes : List AttributeInfo

structure ClassFile where
  minorVersion : UInt16
  majorVersion : UInt16
  constantPool : Pool
  accessFlags : UInt16
  thisClass : UInt16
  superClass : UInt16
  interfaces : List UInt16
  fields : List FieldInfo
  methods : List MethodInfo
  attributes : List AttributeInfo

def readField (attributes : Reader (List AttributeInfo)) : Reader FieldInfo := do
  let accessFlags ← readU2
  let nameIndex ← readU2
  let descriptorIndex ← readU2
  let attributes ← attributes
  pure
    { accessFlags := accessFlags
      nameIndex := nameIndex
      descriptorIndex := descriptorIndex
      attributes := attributes }

def readMethod (attributes : Reader (List AttributeInfo)) : Reader MethodInfo := do
  let accessFlags ← readU2
  let nameIndex ← readU2
  let descriptorIndex ← readU2
  let attributes ← attributes
  pure
    { accessFlags := accessFlags
      nameIndex := nameIndex
      descriptorIndex := descriptorIndex
      attributes := attributes }

/-- The newest major version that is read. -/
def V25 : UInt16 := 69

/-- What follows the pool. -/
def readMembers (depth : Nat) (minorVersion majorVersion : UInt16) (cp : Pool) :
    Reader ClassFile := do
  let accessFlags ← readU2
  let thisClass ← readU2
  let superClass ← readU2
  let interfaces ← readTable readU2
  let fields ← readTable (readField (readAttributes cp depth))
  let methods ← readTable (readMethod (readAttributes cp depth))
  let attributes ← readAttributes cp depth
  pure
    { minorVersion := minorVersion
      majorVersion := majorVersion
      constantPool := cp
      accessFlags := accessFlags
      thisClass := thisClass
      superClass := superClass
      interfaces := interfaces
      fields := fields
      methods := methods
      attributes := attributes }

/-- `read_class_file`. The pool is reserved with its count and counts as open until the class is
read. -/
def classFileReader (depth : Nat) : Reader ClassFile := do
  let magic ← readU4
  if magic ≠ 0xCAFEBABE then fail (.invalidMagic magic)
  else do
    let minorVersion ← readU2
    let majorVersion ← readU2
    if V25 < majorVersion then fail (.invalidClassVersion majorVersion)
    else do
      let count ← readU2
      reserving count.toNat do
        let cp ← readPool count.toNat
        readMembers depth minorVersion majorVersion cp

/-! ### The class node -/

/-- The first attribute that `pick` takes. -/
def pickAttribute {α : Type} (attributes : List AttributeInfo) (pick : AttributeInfo → Option α) :
    Option α :=
  attributes.findSome? pick

def pickCode : AttributeInfo → Option CodeAttribute
  | .code code => some code
  | _ => none

def pickLineNumbers : AttributeInfo → Option (List LineNumber)
  | .lineNumberTable entries => some entries
  | _ => none

def pickLocalVariables : AttributeInfo → Option (List LocalVariable)
  | .localVariableTable entries => some entries
  | _ => none

def pickMethodParameters : AttributeInfo → Option (List MethodParameter)
  | .methodParameters parameters => some parameters
  | _ => none

def pickExceptions : AttributeInfo → Option (List UInt16)
  | .exceptions exceptionIndexTable => some exceptionIndexTable
  | _ => none

def pickModule : AttributeInfo → Option ModuleAttribute
  | .module_ module_ => some module_
  | _ => none

def pickModulePackages : AttributeInfo → Option (List UInt16)
  | .modulePackages packageIndexTable => some packageIndexTable
  | _ => none

def pickModuleMainClass : AttributeInfo → Option UInt16
  | .moduleMainClass mainClassIndex => some mainClassIndex
  | _ => none

def pickEnclosingClass : AttributeInfo → Option UInt16
  | .enclosingMethod classIndex _ => some classIndex
  | _ => none

def pickPermittedSubclasses : AttributeInfo → Option (List UInt16)
  | .permittedSubclasses classes => some classes
  | _ => none

def pickRecord : AttributeInfo → Option (List RecordComponent)
  | .record components => some components
  | _ => none

def pickInnerClasses : AttributeInfo → List InnerClass
  | .innerClasses classes => classes
  | _ => []

/-- A source file whose name is in the pool. -/
def pickSourceFile (cp : Pool) : AttributeInfo → Option String
  | .sourceFile sourcefileIndex => cpUtf8 cp sourcefileIndex
  | _ => none

/-- A signature that is in the pool. -/
def pickSignature (cp : Pool) : AttributeInfo → Option String
  | .signature signatureIndex => cpUtf8 cp signatureIndex
  | _ => none

abbrev Lookup := Except ClassReadError

/-- A name by an index of which 0 means none. -/
def optionalName (name : UInt16 → Lookup String) (index : UInt16) : Lookup (Option String) :=
  if index = 0 then .ok none
  else do
    let value ← name index
    .ok (some value)

def fieldNode (cp : Pool) (field : FieldInfo) : Lookup FieldNode := do
  let name ← cpUtf8At cp field.nameIndex
  let descriptor ← cpUtf8At cp field.descriptorIndex
  .ok
    { accessFlags := field.accessFlags
      name := name
      descriptor := descriptor
      attributes := field.attributes }

def methodNode (cp : Pool) (method : MethodInfo) : Reader MethodNode := do
  let name ← ofExcept (cpUtf8At cp method.nameIndex)
  let descriptor ← ofExcept (cpUtf8At cp method.descriptorIndex)
  let code := pickAttribute method.attributes pickCode
  let instructionOffsets ←
    parseCodeInstructionsWithOffsets ((code.map CodeAttribute.code).getD [])
  let exceptions ←
    ofExcept (((pickAttribute method.attributes pickExceptions).getD []).mapM (className cp))
  let codeAttributes := (code.map CodeAttribute.attributes).getD []
  pure
    { accessFlags := method.accessFlags
      name := name
      descriptor := descriptor
      hasCode := code.isSome
      maxStack := (code.map CodeAttribute.maxStack).getD 0
      maxLocals := (code.map CodeAttribute.maxLocals).getD 0
      instructions := (code.map CodeAttribute.instructions).getD []
      instructionOffsets := instructionOffsets.map Prod.fst
      exceptionTable := (code.map CodeAttribute.exceptionTable).getD []
      lineNumbers := (pickAttribute codeAttributes pickLineNumbers).getD []
      localVariables := (pickAttribute codeAttributes pickLocalVariables).getD []
      methodParameters := (pickAttribute method.attributes pickMethodParameters).getD []
      exceptions := exceptions
      signature := pickAttribute method.attributes (pickSignature cp)
      codeAttributes := codeAttributes
      attributes := method.attributes.filter fun attr => (pickCode attr).isNone }

def methodNodes (cp : Pool) : List MethodInfo → Reader (List MethodNode)
  | [] => pure []
  | method :: methods => do
    let node ← methodNode cp method
    let nodes ← methodNodes cp methods
    pure (node :: nodes)

def innerClassNode (cp : Pool) (entry : InnerClass) : Lookup InnerClassNode := do
  let name ← className cp entry.innerClassInfoIndex
  let outerName ← optionalName (className cp) entry.outerClassInfoIndex
  let innerName ← optionalName (cpUtf8At cp) entry.innerNameIndex
  .ok
    { name := name
      outerName := outerName
      innerName := innerName
      accessFlags := entry.innerClassAccessFlags }

/-- The class named by `EnclosingMethod`, or else the outer class in the entry of the class itself. -/
def outerClassOf (cp : Pool) (thisClass : UInt16) (attributes : List AttributeInfo) :
    Lookup String := do
  let outerClass ←
    match pickAttribute attributes pickEnclosingClass with
    | some classIndex => className cp classIndex
    | none => .ok ""
  if outerClass ≠ "" then .ok outerClass
  else
    match (attributes.flatMap pickInnerClasses).find? fun entry =>
      entry.innerClassInfoIndex == thisClass && entry.outerClassInfoIndex != 0 with
    | some entry => className cp entry.outerClassInfoIndex
    | none => .ok ""

def moduleNode (cp : Pool) (attributes : List AttributeInfo) (module_ : ModuleAttribute) :
    Lookup ModuleNode := do
  let requires ← module_.requires.mapM fun require => do
    let name ← moduleName cp require.requiresIndex
    let version ← optionalName (cpUtf8At cp) require.requiresVersionIndex
    .ok (ModuleRequireNode.mk name require.requiresFlags version)
  let exports ← module_.exports.mapM fun entry => do
    let package ← packageName cp entry.exportsIndex
    let modules ← entry.exportsToIndex.mapM (moduleName cp)
    .ok (ModuleExportNode.mk package entry.exportsFlags modules)
  let opens ← module_.opens.mapM fun entry => do
    let package ← packageName cp entry.opensIndex
    let modules ← entry.opensToIndex.mapM (moduleName cp)
    .ok (ModuleOpenNode.mk package entry.opensFlags modules)
  let provides ← module_.provides.mapM fun provide => do
    let service ← className cp provide.providesIndex
    let providers ← provide.providesWithIndex.mapM (className cp)
    .ok (ModuleProvideNode.mk service providers)
  let packages ← ((pickAttribute attributes pickModulePackages).getD []).mapM (packageName cp)
  let mainClass ← (pickAttribute attributes pickModuleMainClass).mapM (className cp)
  let name ← moduleName cp module_.moduleNameIndex
  let version ← optionalName (cpUtf8At cp) module_.moduleVersionIndex
  let uses ← module_.usesIndex.mapM (className cp)
  .ok
    { name := name
      accessFlags := module_.moduleFlags
      version := version
      requires := requires
      exports := exports
      opens := opens
      uses := uses
      provides := provides
      packages := packages
      mainClass := mainClass }

def recordComponentNode (cp : Pool) (component : RecordComponent) : Lookup RecordComponentNode := do
  let name ← cpUtf8At cp component.nameIndex
  let descriptor ← cpUtf8At cp component.descriptorIndex
  .ok { name := name, descriptor := descriptor, attributes := component.attributes }

def toClassNode (classFile : ClassFile) : Reader ClassNode := do
  let cp := classFile.constantPool
  let attributes := classFile.attributes
  let name ← ofExcept (className cp classFile.thisClass)
  let superName ← ofExcept (optionalName (className cp) classFile.superClass)
  let interfaces ← ofExcept (classFile.interfaces.mapM (className cp))
  let fields ← ofExcept (classFile.fields.mapM (fieldNode cp))
  let methods ← methodNodes cp classFile.methods
  let innerClasses ← ofExcept ((attributes.flatMap pickInnerClasses).mapM (innerClassNode cp))
  let outerClass ← ofExcept (outerClassOf cp classFile.thisClass attributes)
  let module_ ← ofExcept ((pickAttribute attributes pickModule).mapM (moduleNode cp attributes))
  let permittedSubclasses ←
    ofExcept (((pickAttribute attributes pickPermittedSubclasses).getD []).mapM (className cp))
  let recordComponents ←
    ofExcept (((pickAttribute attributes pickRecord).getD []).mapM (recordComponentNode cp))
  pure
    { minorVersion := classFile.minorVersion
      majorVersion := classFile.majorVersion
      accessFlags := classFile.accessFlags
      constantPool := cp
      thisClass := classFile.thisClass
      name := name
      superName := superName
      sourceFile := pickAttribute attributes (pickSourceFile cp)
      interfaces := interfaces
      interfaceIndices := classFile.interfaces
      fields := fields
      methods := methods
      attributes := attributes
      innerClasses := innerClasses
      outerClass := outerClass
      module_ := module_
      permittedSubclasses := permittedSubclasses
      recordComponents := recordComponents }

/-- Reading a class file and making its node. Nesting is never deeper than the bytes are many. -/
def classNodeReader (depth : Nat) : Reader ClassNode := do
  let classFile ← classFileReader depth
  toClassNode classFile

def readClassFile (bytes : List UInt8) : Reading ClassReadError Place ClassFile :=
  classFileReader (bytes.length + 1) { pos := 0, rest := bytes }

def readClassNode (bytes : List UInt8) : Reading ClassReadError Place ClassNode :=
  classNodeReader (bytes.length + 1) { pos := 0, rest := bytes }

end CaffeineLs.RustAsm
