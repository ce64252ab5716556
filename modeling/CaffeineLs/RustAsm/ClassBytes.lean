/-
Module: CaffeineLs.RustAsm.ClassBytes
Purpose: The bytes of the structures of a class file that need no constant pool to be written, and the
  names under which attributes are written and collected.
Trusted boundary: none
Main exports: encodeModifiedUtf8, writeConstantPool, attributeInfoBytes
-/
import CaffeineLs.RustAsm.ClassNode

namespace CaffeineLs.RustAsm

/-- A char in modified UTF-8: a zero takes two bytes, a supplementary char is two surrogates. -/
def encodeChar (c : Char) : List UInt8 :=
  let unit (code : Nat) : List UInt8 :=
    [UInt8.ofNat (0xE0 + code / 4096 % 16), UInt8.ofNat (0x80 + code / 64 % 64),
      UInt8.ofNat (0x80 + code % 64)]
  let code := c.toNat
  if code = 0 then [0xC0, 0x80]
  else if code ≤ 0x7F then [UInt8.ofNat code]
  else if code ≤ 0x7FF then
    [UInt8.ofNat (0xC0 + code / 64 % 32), UInt8.ofNat (0x80 + code % 64)]
  else if code ≤ 0xFFFF then unit code
  else
    let u := code - 0x10000
    unit (0xD800 + u / 1024 % 1024) ++ unit (0xDC00 + u % 1024)

def encodeModifiedUtf8 (value : String) : List UInt8 :=
  value.toList.flatMap encodeChar

def writeCpInfo : CpInfo → List UInt8
  | .unusable => []
  | .utf8 value =>
      let bytes := encodeModifiedUtf8 value
      writeU1 1 ++ writeU2 (asU16 bytes.length) ++ bytes
  | .integer value => writeU1 3 ++ writeU4 value.toUInt32
  | .float bits => writeU1 4 ++ writeU4 bits
  | .long value => writeU1 5 ++ writeU8 value.toUInt64
  | .double bits => writeU1 6 ++ writeU8 bits
  | .class_ nameIndex => writeU1 7 ++ writeU2 nameIndex
  | .string stringIndex => writeU1 8 ++ writeU2 stringIndex
  | .fieldref classIndex nameAndTypeIndex =>
      writeU1 9 ++ writeU2 classIndex ++ writeU2 nameAndTypeIndex
  | .methodref classIndex nameAndTypeIndex =>
      writeU1 10 ++ writeU2 classIndex ++ writeU2 nameAndTypeIndex
  | .interfaceMethodref classIndex nameAndTypeIndex =>
      writeU1 11 ++ writeU2 classIndex ++ writeU2 nameAndTypeIndex
  | .nameAndType nameIndex descriptorIndex =>
      writeU1 12 ++ writeU2 nameIndex ++ writeU2 descriptorIndex
  | .methodHandle referenceKind referenceIndex =>
      writeU1 15 ++ writeU1 referenceKind ++ writeU2 referenceIndex
  | .methodType descriptorIndex => writeU1 16 ++ writeU2 descriptorIndex
  | .dynamic bootstrapMethodAttrIndex nameAndTypeIndex =>
      writeU1 17 ++ writeU2 bootstrapMethodAttrIndex ++ writeU2 nameAndTypeIndex
  | .invokeDynamic bootstrapMethodAttrIndex nameAndTypeIndex =>
      writeU1 18 ++ writeU2 bootstrapMethodAttrIndex ++ writeU2 nameAndTypeIndex
  | .module_ nameIndex => writeU1 19 ++ writeU2 nameIndex
  | .package nameIndex => writeU1 20 ++ writeU2 nameIndex

/-- The count is cut to 16 bits; slot 0 is not written. -/
def writeConstantPool (cp : Pool) : List UInt8 :=
  writeU2 (asU16 cp.length) ++ cp.tail.flatMap writeCpInfo

/-- A table behind its length as a `u16`. -/
def writeTable {α : Type} (row : α → List UInt8) (rows : List α) : List UInt8 :=
  writeU2 (asU16 rows.length) ++ rows.flatMap row

/-- A table behind its length as a `u8`. -/
def writeShortTable {α : Type} (row : α → List UInt8) (rows : List α) : List UInt8 :=
  writeU1 (UInt8.ofNat rows.length) ++ rows.flatMap row

mutual

def writeElementValue : ElementValue → List UInt8
  | .constValueIndex tag constValueIndex => writeU1 tag ++ writeU2 constValueIndex
  | .enumConstValue typeNameIndex constNameIndex =>
      writeU1 101 ++ writeU2 typeNameIndex ++ writeU2 constNameIndex
  | .classInfoIndex classInfoIndex => writeU1 99 ++ writeU2 classInfoIndex
  | .nested value => writeU1 64 ++ writeAnnotation value
  | .arrayValue items =>
      writeU1 91 ++ writeU2 (asU16 items.length) ++ writeElementValues items

def writeElementValues : List ElementValue → List UInt8
  | [] => []
  | item :: items => writeElementValue item ++ writeElementValues items

def writeElementValuePair : ElementValuePair → List UInt8
  | ⟨elementNameIndex, value⟩ => writeU2 elementNameIndex ++ writeElementValue value

def writeElementValuePairs : List ElementValuePair → List UInt8
  | [] => []
  | pair :: pairs => writeElementValuePair pair ++ writeElementValuePairs pairs

def writeAnnotation : Annotation → List UInt8
  | ⟨typeDescriptorIndex, elementValuePairs⟩ =>
      writeU2 typeDescriptorIndex ++ writeU2 (asU16 elementValuePairs.length) ++
        writeElementValuePairs elementValuePairs

end

def writeRuntimeAnnotations (entries : List Annotation) : List UInt8 :=
  writeTable writeAnnotation entries

/-- The parameter count is cut to 8 bits. -/
def writeRuntimeParameterAnnotations (parameters : List (List Annotation)) : List UInt8 :=
  writeShortTable writeRuntimeAnnotations parameters

def writeLocalVarTargetTableEntry (entry : LocalVarTargetTableEntry) : List UInt8 :=
  writeU2 entry.startPc ++ writeU2 entry.length ++ writeU2 entry.index

def writeTypeAnnotationTargetInfo : TypeAnnotationTargetInfo → List UInt8
  | .typeParameter typeParameterIndex => writeU1 typeParameterIndex
  | .supertype supertypeIndex => writeU2 supertypeIndex
  | .typeParameterBound typeParameterIndex boundIndex =>
      writeU1 typeParameterIndex ++ writeU1 boundIndex
  | .empty => []
  | .formalParameter formalParameterIndex => writeU1 formalParameterIndex
  | .throws throwsTypeIndex => writeU2 throwsTypeIndex
  | .localVar table => writeTable writeLocalVarTargetTableEntry table
  | .catch_ exceptionTableIndex => writeU2 exceptionTableIndex
  | .offset offset => writeU2 offset
  | .typeArgument offset typeArgumentIndex => writeU2 offset ++ writeU1 typeArgumentIndex

def writeTypePath (path : TypePath) : List UInt8 :=
  writeShortTable (fun entry => writeU1 entry.typePathKind ++ writeU1 entry.typeArgumentIndex)
    path.path

/-- The target info is written as it is, whatever the target type says. -/
def writeTypeAnnotation (entry : TypeAnnotation) : List UInt8 :=
  writeU1 entry.targetType ++ writeTypeAnnotationTargetInfo entry.targetInfo ++
    writeTypePath entry.targetPath ++ writeAnnotation entry.content

def writeRuntimeTypeAnnotations (entries : List TypeAnnotation) : List UInt8 :=
  writeTable writeTypeAnnotation entries

def writeExceptionTableEntry (entry : ExceptionTableEntry) : List UInt8 :=
  writeU2 entry.startPc ++ writeU2 entry.endPc ++ writeU2 entry.handlerPc ++ writeU2 entry.catchType

def writeLineNumber (entry : LineNumber) : List UInt8 :=
  writeU2 entry.startPc ++ writeU2 entry.lineNumber

def writeLocalVariable (entry : LocalVariable) : List UInt8 :=
  writeU2 entry.startPc ++ writeU2 entry.length ++ writeU2 entry.nameIndex ++
    writeU2 entry.descriptorIndex ++ writeU2 entry.index

def writeInnerClass (entry : InnerClass) : List UInt8 :=
  writeU2 entry.innerClassInfoIndex ++ writeU2 entry.outerClassInfoIndex ++
    writeU2 entry.innerNameIndex ++ writeU2 entry.innerClassAccessFlags

def writeBootstrapMethod (entry : BootstrapMethod) : List UInt8 :=
  writeU2 entry.bootstrapMethodRef ++ writeTable writeU2 entry.bootstrapArguments

def writeMethodParameter (entry : MethodParameter) : List UInt8 :=
  writeU2 entry.nameIndex ++ writeU2 entry.accessFlags

def writeModuleRequire (entry : ModuleRequire) : List UInt8 :=
  writeU2 entry.requiresIndex ++ writeU2 entry.requiresFlags ++ writeU2 entry.requiresVersionIndex

def writeModuleExport (entry : ModuleExport) : List UInt8 :=
  writeU2 entry.exportsIndex ++ writeU2 entry.exportsFlags ++ writeTable writeU2 entry.exportsToIndex

def writeModuleOpen (entry : ModuleOpen) : List UInt8 :=
  writeU2 entry.opensIndex ++ writeU2 entry.opensFlags ++ writeTable writeU2 entry.opensToIndex

def writeModuleProvide (entry : ModuleProvide) : List UInt8 :=
  writeU2 entry.providesIndex ++ writeTable writeU2 entry.providesWithIndex

def writeModuleAttribute (entry : ModuleAttribute) : List UInt8 :=
  writeU2 entry.moduleNameIndex ++ writeU2 entry.moduleFlags ++ writeU2 entry.moduleVersionIndex ++
    writeTable writeModuleRequire entry.requires ++ writeTable writeModuleExport entry.exports ++
    writeTable writeModuleOpen entry.opens ++ writeTable writeU2 entry.usesIndex ++
    writeTable writeModuleProvide entry.provides

def writeVerificationType : VerificationTypeInfo → List UInt8
  | .top => writeU1 0
  | .integer => writeU1 1
  | .float => writeU1 2
  | .double => writeU1 3
  | .long => writeU1 4
  | .null => writeU1 5
  | .uninitializedThis => writeU1 6
  | .object cpoolIndex => writeU1 7 ++ writeU2 cpoolIndex
  | .uninitialized offset => writeU1 8 ++ writeU2 offset

/-- `a + b` of two `u8`. -/
def addU8 (a b : Nat) : Write UInt8 :=
  if a + b < 256 then .ok (UInt8.ofNat (a + b)) else .error .overflow

/-- The frame type of a frame with one stack item, of a chop and of an append is computed as an
`u8`. -/
def writeStackMapFrame : StackMapFrame → Write (List UInt8)
  | .sameFrame offsetDelta => .ok (writeU1 offsetDelta.toUInt8)
  | .sameLocals1StackItemFrame offsetDelta stack => do
      let frameType ← addU8 offsetDelta.toUInt8.toNat 64
      .ok (writeU1 frameType ++ writeVerificationType stack)
  | .sameLocals1StackItemFrameExtended offsetDelta stack =>
      .ok (writeU1 247 ++ writeU2 offsetDelta ++ writeVerificationType stack)
  | .chopFrame offsetDelta k =>
      if k ≤ 251 then .ok (writeU1 (251 - k) ++ writeU2 offsetDelta) else .error .overflow
  | .sameFrameExtended offsetDelta => .ok (writeU1 251 ++ writeU2 offsetDelta)
  | .appendFrame offsetDelta locals => do
      let frameType ← addU8 251 (UInt8.ofNat locals.length).toNat
      .ok (writeU1 frameType ++ writeU2 offsetDelta ++ locals.flatMap writeVerificationType)
  | .fullFrame offsetDelta locals stack =>
      .ok (writeU1 255 ++ writeU2 offsetDelta ++ writeTable writeVerificationType locals ++
        writeTable writeVerificationType stack)

def writeStackMapFrames : List StackMapFrame → Write (List UInt8)
  | [] => .ok []
  | frame :: frames => do
      let bytes ← writeStackMapFrame frame
      let rest ← writeStackMapFrames frames
      .ok (bytes ++ rest)

/-- The contents of an attribute in which no attribute is nested. `Code` and `Record` are written by
`writeAttribute`. -/
def attributeInfoBytes : AttributeInfo → Write (List UInt8)
  | .code _ => .ok []
  | .constantValue constantvalueIndex => .ok (writeU2 constantvalueIndex)
  | .exceptions exceptionIndexTable => .ok (writeTable writeU2 exceptionIndexTable)
  | .sourceFile sourcefileIndex => .ok (writeU2 sourcefileIndex)
  | .lineNumberTable entries => .ok (writeTable writeLineNumber entries)
  | .localVariableTable entries => .ok (writeTable writeLocalVariable entries)
  | .signature signatureIndex => .ok (writeU2 signatureIndex)
  | .stackMapTable entries => do
      let frames ← writeStackMapFrames entries
      .ok (writeU2 (asU16 entries.length) ++ frames)
  | .deprecated => .ok []
  | .synthetic => .ok []
  | .innerClasses classes => .ok (writeTable writeInnerClass classes)
  | .enclosingMethod classIndex methodIndex => .ok (writeU2 classIndex ++ writeU2 methodIndex)
  | .module_ module_ => .ok (writeModuleAttribute module_)
  | .modulePackages packageIndexTable => .ok (writeTable writeU2 packageIndexTable)
  | .moduleMainClass mainClassIndex => .ok (writeU2 mainClassIndex)
  | .bootstrapMethods methods => .ok (writeTable writeBootstrapMethod methods)
  | .methodParameters parameters => .ok (writeShortTable writeMethodParameter parameters)
  | .runtimeVisibleAnnotations entries => .ok (writeRuntimeAnnotations entries)
  | .runtimeInvisibleAnnotations entries => .ok (writeRuntimeAnnotations entries)
  | .runtimeVisibleParameterAnnotations parameters =>
      .ok (writeRuntimeParameterAnnotations parameters)
  | .runtimeInvisibleParameterAnnotations parameters =>
      .ok (writeRuntimeParameterAnnotations parameters)
  | .runtimeVisibleTypeAnnotations entries => .ok (writeRuntimeTypeAnnotations entries)
  | .runtimeInvisibleTypeAnnotations entries => .ok (writeRuntimeTypeAnnotations entries)
  | .permittedSubclasses classes => .ok (writeTable writeU2 classes)
  | .record _ => .ok []
  | .annotationDefault defaultValue => .ok (writeElementValue defaultValue)
  | .unknown _ info => .ok info

/-- The name `write_attribute` looks up for an attribute. -/
def writtenName : AttributeInfo → String
  | .code _ => "Code"
  | .constantValue _ => "ConstantValue"
  | .exceptions _ => "Exceptions"
  | .sourceFile _ => "SourceFile"
  | .lineNumberTable _ => "LineNumberTable"
  | .localVariableTable _ => "LocalVariableTable"
  | .signature _ => "Signature"
  | .stackMapTable _ => "StackMapTable"
  | .deprecated => "Deprecated"
  | .synthetic => "Synthetic"
  | .innerClasses _ => "InnerClasses"
  | .enclosingMethod _ _ => "EnclosingMethod"
  | .module_ _ => "Module"
  | .modulePackages _ => "ModulePackages"
  | .moduleMainClass _ => "ModuleMainClass"
  | .bootstrapMethods _ => "BootstrapMethods"
  | .methodParameters _ => "MethodParameters"
  | .runtimeVisibleAnnotations _ => "RuntimeVisibleAnnotations"
  | .runtimeInvisibleAnnotations _ => "RuntimeInvisibleAnnotations"
  | .runtimeVisibleParameterAnnotations _ => "RuntimeVisibleParameterAnnotations"
  | .runtimeInvisibleParameterAnnotations _ => "RuntimeInvisibleParameterAnnotations"
  | .runtimeVisibleTypeAnnotations _ => "RuntimeVisibleTypeAnnotations"
  | .runtimeInvisibleTypeAnnotations _ => "RuntimeInvisibleTypeAnnotations"
  | .permittedSubclasses _ => "PermittedSubclasses"
  | .record _ => "Record"
  | .annotationDefault _ => "AnnotationDefault"
  | .unknown name _ => name

/-- The name `collect_attribute_names` pushes for an attribute. -/
def collectedName : AttributeInfo → String
  | .code _ => "Code"
  | .constantValue _ => "ConstantValue"
  | .exceptions _ => "Exceptions"
  | .sourceFile _ => "SourceFile"
  | .lineNumberTable _ => "LineNumberTable"
  | .localVariableTable _ => "LocalVariableTable"
  | .signature _ => "Signature"
  | .stackMapTable _ => "StackMapTable"
  | .deprecated => "Deprecated"
  | .synthetic => "Synthetic"
  | .innerClasses _ => "InnerClasses"
  | .enclosingMethod _ _ => "EnclosingMethod"
  | .module_ _ => "Module"
  | .modulePackages _ => "ModulePackages"
  | .moduleMainClass _ => "ModuleMainClass"
  | .bootstrapMethods _ => "BootstrapMethods"
  | .methodParameters _ => "MethodParameters"
  | .runtimeVisibleAnnotations _ => "RuntimeVisibleAnnotations"
  | .runtimeInvisibleAnnotations _ => "RuntimeInvisibleAnnotations"
  | .runtimeVisibleParameterAnnotations _ => "RuntimeVisibleParameterAnnotations"
  | .runtimeInvisibleParameterAnnotations _ => "RuntimeInvisibleParameterAnnotations"
  | .runtimeVisibleTypeAnnotations _ => "RuntimeVisibleTypeAnnotations"
  | .runtimeInvisibleTypeAnnotations _ => "RuntimeInvisibleTypeAnnotations"
  | .permittedSubclasses _ => "PermittedSubclasses"
  | .record _ => "Record"
  | .annotationDefault _ => "AnnotationDefault"
  | .unknown name _ => name

/-- `collect_attribute_names`: the attributes of the list only, not those nested in them. -/
def collectAttributeNames (attributes : List AttributeInfo) : List String :=
  attributes.map collectedName

end CaffeineLs.RustAsm
