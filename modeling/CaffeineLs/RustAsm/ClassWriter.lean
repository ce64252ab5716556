/-
Module: CaffeineLs.RustAsm.ClassWriter
Purpose: The class writer: the pass that fills the constant pool, and the writing of the pool and then
  of fields, methods and attributes, which still look names up in the pool.
Trusted boundary: the data-flow analysis behind stack maps and maxs is a parameter
Main exports: Reference, FrameAnalysis, writeAttribute
-/
import CaffeineLs.RustAsm.ClassBytes
import CaffeineLs.Lib.Registry

namespace CaffeineLs.RustAsm

/-- What an index into the pool is meant to stand for. -/
inductive Constant where
  | utf8 (value : String)
  | class_ (name : String)
deriving DecidableEq, Repr

/-- An index handed out to be written after the pool, with its meaning and the slots it stands for:
that of the entry and, for a class, that of its name. The writer keeps the index only. -/
structure Reference where
  index : UInt16
  constant : Constant
  slots : List Nat
deriving DecidableEq, Repr

abbrev Writer := Registry WriteFault Pool Reference

/-- The slot where `ensure_utf8` finds or puts a string. -/
def utf8Slot (cp : Pool) (value : String) : Nat :=
  (cp.findIdx? (· == .utf8 value)).getD cp.length

/-- The slots where `ensure_class` finds or puts a class and its name. -/
def classSlots (cp : Pool) (name : String) : List Nat :=
  match cp.findIdx? (Named.class_.names cp name) with
  | some slot => slot :: ((cp[slot]?.bind Named.class_.nameIndex).map UInt16.toNat).toList
  | none => [(ensureUtf8 cp name).2.length, utf8Slot cp name]

/-- `ensure_utf8`, for an index that is written. -/
def utf8Index (value : String) : Writer UInt16 :=
  Registry.refer (fun cp => ensureUtf8 cp value) fun cp =>
    ⟨(ensureUtf8 cp value).1, .utf8 value, [utf8Slot cp value]⟩

/-- `ensure_class`, for an index that is written. -/
def classIndex (name : String) : Writer UInt16 :=
  Registry.refer (fun cp => ensureClass cp name) fun cp =>
    ⟨(ensureClass cp name).1, .class_ name, classSlots cp name⟩

/-- `ensure_utf8`, for the entry only. -/
def addUtf8 (value : String) : Writer Unit :=
  Registry.change fun cp => ((), (ensureUtf8 cp value).2)

/-! ### Stack maps -/

inductive FrameType where
  | top
  | integer
  | float
  | long
  | double
  | null
  | uninitializedThis
  | object (name : String)
  | uninitialized (offset : UInt16)
deriving DecidableEq, Repr

/-- A frame as the analysis of a body leaves it, its locals compacted. -/
structure AnalysedFrame where
  offsetDelta : UInt16
  locals : List FrameType
  stack : List FrameType
deriving DecidableEq, Repr

/-- The analysis of a method body against the pool: its frames by offset, for a number of locals, and
its stack and local sizes. -/
structure FrameAnalysis where
  frames : MethodNode → ClassNode → CodeAttribute → UInt16 → Pool → Write (List AnalysedFrame)
  maxs : MethodNode → ClassNode → CodeAttribute → Pool → Write (UInt16 × UInt16)

def COMPUTE_FRAMES : UInt32 := 0x1

def COMPUTE_MAXS : UInt32 := 0x2

def toVerificationType : FrameType → Writer VerificationTypeInfo
  | .top => pure .top
  | .integer => pure .integer
  | .float => pure .float
  | .long => pure .long
  | .double => pure .double
  | .null => pure .null
  | .uninitializedThis => pure .uninitializedThis
  | .uninitialized offset => pure (.uninitialized offset)
  | .object name => do
      let index ← classIndex name
      pure (.object index)

def toVerificationTypes : List FrameType → Writer (List VerificationTypeInfo)
  | [] => pure []
  | value :: values => do
      let kind ← toVerificationType value
      let kinds ← toVerificationTypes values
      pure (kind :: kinds)

/-- Every frame of a computed table is a full one. -/
def toFullFrames : List AnalysedFrame → Writer (List StackMapFrame)
  | [] => pure []
  | frame :: frames => do
      let locals ← toVerificationTypes frame.locals
      let stack ← toVerificationTypes frame.stack
      let rest ← toFullFrames frames
      pure (.fullFrame frame.offsetDelta locals stack :: rest)

def computeStackMapTable (analysis : FrameAnalysis) (method : MethodNode) (classNode : ClassNode)
    (code : CodeAttribute) (maxLocals : UInt16) : Writer (List StackMapFrame) := do
  let frames ← Registry.inspect (analysis.frames method classNode code maxLocals)
  toFullFrames frames

/-! ### Attributes -/

def isLineNumberTable : AttributeInfo → Bool
  | .lineNumberTable _ => true
  | _ => false

def isLocalVariableTable : AttributeInfo → Bool
  | .localVariableTable _ => true
  | _ => false

def isStackMapTable : AttributeInfo → Bool
  | .stackMapTable _ => true
  | _ => false

def isCode : AttributeInfo → Bool
  | .code _ => true
  | _ => false

def isSourceFile : AttributeInfo → Bool
  | .sourceFile _ => true
  | _ => false

def isModule : AttributeInfo → Bool
  | .module_ _ => true
  | _ => false

def isBootstrapMethods : AttributeInfo → Bool
  | .bootstrapMethods _ => true
  | _ => false

/-- The code attributes of a method, with the line numbers and local variables of the node where the
attributes have no such table. -/
def codeAttributesOf (method : MethodNode) : List AttributeInfo :=
  let attributes := method.codeAttributes
  let attributes :=
    if ¬ method.lineNumbers.isEmpty ∧ ¬ attributes.any isLineNumberTable then
      attributes ++ [.lineNumberTable method.lineNumbers]
    else attributes
  if ¬ method.localVariables.isEmpty ∧ ¬ attributes.any isLocalVariableTable then
    attributes ++ [.localVariableTable method.localVariables]
  else attributes

def methodCodeAttribute (method : MethodNode) : Write CodeAttribute := do
  let (code, instructions) ← buildCodeFromInsnList method.instructions
  .ok
    { maxStack := method.maxStack
      maxLocals := method.maxLocals
      code := code
      instructions := instructions
      exceptionTable := method.exceptionTable
      attributes := codeAttributesOf method }

/-- The length is cut to 32 bits. -/
def writeAttributeWithInfo (nameIndex : UInt16) (info : List UInt8) : List UInt8 :=
  writeU2 nameIndex ++ writeU4 (UInt32.ofNat info.length) ++ info

/-- An attribute in which no attribute is nested. -/
def writePlainAttribute (attr : AttributeInfo) : Writer (List UInt8) := do
  let nameIndex ← utf8Index (writtenName attr)
  let info ← Registry.lift (attributeInfoBytes attr)
  pure (writeAttributeWithInfo nameIndex info)

/-- What the attributes of one list are written with: the method whose code they may hold, and the
options. -/
structure WriteContext where
  analysis : FrameAnalysis
  method : Option (MethodNode × ClassNode)
  options : UInt32

def WriteContext.computesFrames (ctx : WriteContext) : Bool :=
  ctx.options &&& COMPUTE_FRAMES ≠ 0

/-- The frames of a code attribute that are written in place of its own table: those computed before
the pool was written, or else computed now. -/
def stackMapOf (ctx : WriteContext) (stackMap : Option (List StackMapFrame)) (code : CodeAttribute)
    (maxLocals : UInt16) : Writer (List StackMapFrame) :=
  match stackMap with
  | some entries => pure entries
  | none =>
    match ctx.method with
    | none => Registry.fail (.error (.frameComputation "missing method"))
    | some (method, classNode) => computeStackMapTable ctx.analysis method classNode code maxLocals

/-- The body of a code attribute around its nested attributes. -/
def codeInfo (maxs : UInt16 × UInt16) (code : List UInt8) (exceptionTable : List ExceptionTableEntry)
    (count : Nat) (nested : List UInt8) : List UInt8 :=
  writeU2 maxs.1 ++ writeU2 maxs.2 ++ writeU4 (UInt32.ofNat code.length) ++ code ++
    writeTable writeExceptionTableEntry exceptionTable ++ writeU2 (asU16 count) ++ nested

mutual

/-- `stackMap` and `maxs` are what was computed for the method before the pool was written; they hold
for the attributes of the method itself only. -/
def writeAttribute (ctx : WriteContext) (stackMap : Option (List StackMapFrame))
    (maxs : Option (UInt16 × UInt16)) : AttributeInfo → Writer (List UInt8)
  | .code code => do
      let nameIndex ← utf8Index "Code"
      let info ← writeCodeInfo ctx stackMap maxs code
      pure (writeAttributeWithInfo nameIndex info)
  | .record components => do
      let nameIndex ← utf8Index "Record"
      let rows ← writeRecordComponents ctx components
      pure (writeAttributeWithInfo nameIndex (writeU2 (asU16 components.length) ++ rows))
  | attr => writePlainAttribute attr

def writeCodeInfo (ctx : WriteContext) (stackMap : Option (List StackMapFrame))
    (maxs : Option (UInt16 × UInt16)) : CodeAttribute → Writer (List UInt8)
  | ⟨maxStack, maxLocals, code, instructions, exceptionTable, attributes⟩ =>
      let maxs := maxs.getD (maxStack, maxLocals)
      if ctx.computesFrames then do
        let entries ← stackMapOf ctx stackMap
          ⟨maxStack, maxLocals, code, instructions, exceptionTable, attributes⟩ maxs.2
        let kept ← writeAttributes ctx (fun attr => ! isStackMapTable attr) attributes
        let table ← writePlainAttribute (.stackMapTable entries)
        pure (codeInfo maxs code exceptionTable
          ((attributes.filter fun attr => ! isStackMapTable attr).length + 1) (kept ++ table))
      else do
        let nested ← writeAttributes ctx (fun _ => true) attributes
        pure (codeInfo maxs code exceptionTable attributes.length nested)

def writeRecordComponent (ctx : WriteContext) : RecordComponent → Writer (List UInt8)
  | ⟨nameIndex, descriptorIndex, attributes⟩ => do
      let nested ← writeAttributes ctx (fun _ => true) attributes
      pure (writeU2 nameIndex ++ writeU2 descriptorIndex ++ writeU2 (asU16 attributes.length) ++
        nested)

def writeRecordComponents (ctx : WriteContext) : List RecordComponent → Writer (List UInt8)
  | [] => pure []
  | component :: components => do
      let bytes ← writeRecordComponent ctx component
      let rest ← writeRecordComponents ctx components
      pure (bytes ++ rest)

/-- The attributes of a list that are to be kept, one after another. -/
def writeAttributes (ctx : WriteContext) (keep : AttributeInfo → Bool) :
    List AttributeInfo → Writer (List UInt8)
  | [] => pure []
  | attr :: attrs => do
      let bytes ← (if keep attr then writeAttribute ctx none none attr else pure [])
      let rest ← writeAttributes ctx keep attrs
      pure (bytes ++ rest)

end

/-! ### Before the pool is written -/

def ensureMethodHandle (cp : Pool) (handle : Handle) : UInt16 × Pool :=
  let (referenceIndex, cp) :=
    if 1 ≤ handle.referenceKind ∧ handle.referenceKind ≤ 4 then
      ensureFieldRef cp handle.owner handle.name handle.descriptor
    else if handle.referenceKind = 9 then
      ensureInterfaceMethodRef cp handle.owner handle.name handle.descriptor
    else ensureMethodRef cp handle.owner handle.name handle.descriptor
  ensureEntry cp (.methodHandle handle.referenceKind referenceIndex)

def ensureBootstrapArg (cp : Pool) : BootstrapArgument → UInt16 × Pool
  | .integer value => ensureInt cp value
  | .float bits => ensureFloat cp bits
  | .long value => ensureLong cp value
  | .double bits => ensureDouble cp bits
  | .string value => ensureString cp value
  | .class_ name => ensureClass cp name
  | .methodType descriptor => ensureMethodType cp descriptor
  | .handle handle => ensureMethodHandle cp handle

def ensureBootstrapArgs (cp : Pool) : List BootstrapArgument → List UInt16 × Pool
  | [] => ([], cp)
  | arg :: args =>
    let (index, cp) := ensureBootstrapArg cp arg
    let (indices, cp) := ensureBootstrapArgs cp args
    (index :: indices, cp)

/-- A bootstrap method in the first `BootstrapMethods` attribute: its place in the table, and the
attributes with it in. -/
def placeBootstrapMethod (entry : BootstrapMethod) :
    List AttributeInfo → UInt16 × List AttributeInfo
  | [] => (0, [.bootstrapMethods [entry]])
  | .bootstrapMethods methods :: attrs =>
    match methods.findIdx? (· == entry) with
    | some index => (asU16 index, .bootstrapMethods methods :: attrs)
    | none => (asU16 methods.length, .bootstrapMethods (methods ++ [entry]) :: attrs)
  | attr :: attrs =>
    let (index, attrs) := placeBootstrapMethod entry attrs
    (index, attr :: attrs)

def ensureBootstrapMethod (classAttributes : List AttributeInfo) (cp : Pool)
    (bootstrapMethod : Handle) (bootstrapArgs : List BootstrapArgument) :
    UInt16 × Pool × List AttributeInfo :=
  let (bootstrapMethodRef, cp) := ensureMethodHandle cp bootstrapMethod
  let (bootstrapArguments, cp) := ensureBootstrapArgs cp bootstrapArgs
  let (index, classAttributes) :=
    placeBootstrapMethod ⟨bootstrapMethodRef, bootstrapArguments⟩ classAttributes
  (index, cp, classAttributes)

/-- An instruction with its call site put into the pool: an `invokedynamic` given by name. -/
def resolveInvokedynamic (cp : Pool) (classAttributes : List AttributeInfo) :
    Insn → Insn × Pool × List AttributeInfo
  | .invokeDynamic node =>
    match node.name, node.descriptor, node.bootstrapMethod with
    | some name, some descriptor, some bootstrapMethod =>
      if node.methodIndex = 0 then
        let (bsmIndex, cp, classAttributes) :=
          ensureBootstrapMethod classAttributes cp bootstrapMethod node.bootstrapArgs
        let (methodIndex, cp) := ensureInvokeDynamic cp bsmIndex name descriptor
        (.invokeDynamic { node with methodIndex := methodIndex }, cp, classAttributes)
      else (.invokeDynamic node, cp, classAttributes)
    | _, _, _ => (.invokeDynamic node, cp, classAttributes)
  | insn => (insn, cp, classAttributes)

def resolveInsns (cp : Pool) (classAttributes : List AttributeInfo) :
    List Insn → List Insn × Pool × List AttributeInfo
  | [] => ([], cp, classAttributes)
  | insn :: insns =>
    let (insn, cp, classAttributes) := resolveInvokedynamic cp classAttributes insn
    let (insns, cp, classAttributes) := resolveInsns cp classAttributes insns
    (insn :: insns, cp, classAttributes)

def resolveInvokedynamicMethods (cp : Pool) (classAttributes : List AttributeInfo) :
    List MethodNode → List MethodNode × Pool × List AttributeInfo
  | [] => ([], cp, classAttributes)
  | method :: methods =>
    let (instructions, cp, classAttributes) :=
      resolveInsns cp classAttributes method.instructions
    let (methods, cp, classAttributes) := resolveInvokedynamicMethods cp classAttributes methods
    ({ method with instructions := instructions } :: methods, cp, classAttributes)

abbrev Builder := StateM ConstantPoolBuilder

def builderUtf8 (value : String) : Builder UInt16 := fun builder => builder.ensure value

def builderNamed (kind : Named) (name : String) : Builder UInt16 := fun builder =>
  builder.named kind name

/-- The index of a version, 0 for none. -/
def versionIndex : Option String → Builder UInt16
  | some version => builderUtf8 version
  | none => pure 0

/-- No packages, no attribute. -/
def buildModulePackages : List String → Builder (List AttributeInfo)
  | [] => pure []
  | packages => do
    let packageIndexTable ← packages.mapM (builderNamed .package)
    pure [.modulePackages packageIndexTable]

def buildModuleMainClass : Option String → Builder (List AttributeInfo)
  | some mainClass => do
    let mainClassIndex ← builderNamed .class_ mainClass
    pure [.moduleMainClass mainClassIndex]
  | none => pure []

def buildModuleAttributes (module_ : ModuleNode) : Builder (List AttributeInfo) := do
  let requires ← module_.requires.mapM fun require => do
    let requiresIndex ← builderNamed .module_ require.module_
    let requiresVersionIndex ← versionIndex require.version
    pure (ModuleRequire.mk requiresIndex require.accessFlags requiresVersionIndex)
  let exports ← module_.exports.mapM fun export_ => do
    let exportsIndex ← builderNamed .package export_.package
    let exportsToIndex ← export_.modules.mapM (builderNamed .module_)
    pure (ModuleExport.mk exportsIndex export_.accessFlags exportsToIndex)
  let opens ← module_.opens.mapM fun open_ => do
    let opensIndex ← builderNamed .package open_.package
    let opensToIndex ← open_.modules.mapM (builderNamed .module_)
    pure (ModuleOpen.mk opensIndex open_.accessFlags opensToIndex)
  let usesIndex ← module_.uses.mapM (builderNamed .class_)
  let provides ← module_.provides.mapM fun provide => do
    let providesIndex ← builderNamed .class_ provide.service
    let providesWithIndex ← provide.providers.mapM (builderNamed .class_)
    pure (ModuleProvide.mk providesIndex providesWithIndex)
  let moduleNameIndex ← builderNamed .module_ module_.name
  let moduleVersionIndex ← versionIndex module_.version
  let packages ← buildModulePackages module_.packages
  let mainClass ← buildModuleMainClass module_.mainClass
  pure (.module_
    { moduleNameIndex := moduleNameIndex
      moduleFlags := module_.accessFlags
      moduleVersionIndex := moduleVersionIndex
      requires := requires
      exports := exports
      opens := opens
      usesIndex := usesIndex
      provides := provides } :: packages ++ mainClass)

/-- `Module` and its companions are built where the class attributes have no `Module`. -/
def addModuleAttributes (module_ : Option ModuleNode) (classAttributes : List AttributeInfo)
    (cp : Pool) : List AttributeInfo × Pool :=
  match module_ with
  | some module_ =>
    if classAttributes.any isModule then (classAttributes, cp)
    else
      let (attributes, builder) := buildModuleAttributes module_ (.fromPool cp)
      (classAttributes ++ attributes, builder.cp)
  | none => (classAttributes, cp)

def addSourceFile (sourceFile : Option String) (classAttributes : List AttributeInfo) :
    Writer (List AttributeInfo) :=
  match sourceFile with
  | some sourceFile => do
    let sourceIndex ← utf8Index sourceFile
    pure (classAttributes.filter (fun attr => ! isSourceFile attr) ++ [.sourceFile sourceIndex])
  | none => pure classAttributes

def addNames : List String → Writer Unit
  | [] => pure ()
  | name :: names => do
    addUtf8 name
    addNames names

/-- The names collected for a method. Of its code, those of `code_attributes` only. -/
def collectMethodNames (method : MethodNode) : List String :=
  collectAttributeNames method.attributes ++
    if method.hasCode then "Code" :: collectAttributeNames method.codeAttributes else []

/-- A method, with the frames and sizes computed for it before the pool is written. -/
structure Precomputed where
  method : MethodNode
  stackMap : Option (List StackMapFrame)
  maxs : Option (UInt16 × UInt16)

/-- The sizes of a method with code, where they are to be computed. -/
def precomputeMaxs (analysis : FrameAnalysis) (classNode : ClassNode) (method : MethodNode)
    (code : CodeAttribute) (computeMaxs : Bool) : Writer (Option (UInt16 × UInt16)) :=
  if computeMaxs then do
    let maxs ← Registry.inspect (analysis.maxs method classNode code)
    pure (some maxs)
  else pure none

def precomputeMethod (analysis : FrameAnalysis) (classNode : ClassNode)
    (computeFrames computeMaxs : Bool) (method : MethodNode) : Writer Precomputed :=
  if method.hasCode && (computeFrames || computeMaxs) then do
    let code ← Registry.lift (methodCodeAttribute method)
    let maxs ← precomputeMaxs analysis classNode method code computeMaxs
    if computeFrames then do
      let maxLocals := (maxs.map Prod.snd).getD code.maxLocals
      let stackMap ← computeStackMapTable analysis method classNode code maxLocals
      pure ⟨method, some stackMap, maxs⟩
    else pure ⟨method, none, maxs⟩
  else pure ⟨method, none, none⟩

def precomputeMethods (analysis : FrameAnalysis) (classNode : ClassNode)
    (computeFrames computeMaxs : Bool) : List MethodNode → Writer (List Precomputed)
  | [] => pure []
  | method :: methods => do
    let one ← precomputeMethod analysis classNode computeFrames computeMaxs method
    let rest ← precomputeMethods analysis classNode computeFrames computeMaxs methods
    pure (one :: rest)

def superClassIndex (classNode : ClassNode) : Writer UInt16 :=
  match classNode.superName with
  | some name => classIndex name
  | none => if classNode.name = "java/lang/Object" then pure 0 else classIndex "java/lang/Object"

/-- What the first half of `to_bytes` leaves beside the pool. -/
structure Prepared where
  classAttributes : List AttributeInfo
  methods : List Precomputed
  superClass : UInt16

/-- The names put into the pool before it is written. -/
def collectNames (classNode : ClassNode) (classAttributes : List AttributeInfo)
    (methods : List MethodNode) : List String :=
  collectAttributeNames classAttributes ++
    classNode.fields.flatMap (fun field => collectAttributeNames field.attributes) ++
    methods.flatMap collectMethodNames ++
    methods.flatMap fun method => [method.name, method.descriptor]

/-- The first half of `to_bytes`, up to the writing of the pool. -/
def prepare (analysis : FrameAnalysis) (options : UInt32) (classNode : ClassNode) :
    Writer Prepared := do
  let (methods, classAttributes) ← Registry.change fun cp =>
    let (methods, cp, classAttributes) :=
      resolveInvokedynamicMethods cp classNode.attributes classNode.methods
    ((methods, classAttributes), cp)
  let classAttributes ← addSourceFile classNode.sourceFile classAttributes
  let classAttributes ← Registry.change (addModuleAttributes classNode.module_ classAttributes)
  addNames (collectNames classNode classAttributes methods)
  let computeFrames : Bool := options &&& COMPUTE_FRAMES ≠ 0
  addNames (if computeFrames then ["StackMapTable"] else [])
  let methods ← precomputeMethods analysis classNode computeFrames (options &&& COMPUTE_MAXS ≠ 0)
    methods
  let superClass ← superClassIndex classNode
  pure ⟨classAttributes, methods, superClass⟩

/-! ### After the pool is written -/

def writeAttributeList (ctx : WriteContext) (stackMap : Option (List StackMapFrame))
    (maxs : Option (UInt16 × UInt16)) : List AttributeInfo → Writer (List UInt8)
  | [] => pure []
  | attr :: attrs => do
    let bytes ← writeAttribute ctx stackMap maxs attr
    let rest ← writeAttributeList ctx stackMap maxs attrs
    pure (bytes ++ rest)

def writeField (analysis : FrameAnalysis) (field : FieldNode) : Writer (List UInt8) := do
  let nameIndex ← utf8Index field.name
  let descriptorIndex ← utf8Index field.descriptor
  let attributes ← writeAttributeList ⟨analysis, none, 0⟩ none none field.attributes
  pure (writeU2 field.accessFlags ++ writeU2 nameIndex ++ writeU2 descriptorIndex ++
    writeU2 (asU16 field.attributes.length) ++ attributes)

/-- The attributes a method is written with: those of the node, its code last. -/
def methodAttributes (method : MethodNode) : Write (List AttributeInfo) :=
  if method.hasCode then do
    let code ← methodCodeAttribute method
    .ok (method.attributes.filter (fun attr => ! isCode attr) ++ [.code code])
  else .ok method.attributes

def writeMethod (analysis : FrameAnalysis) (options : UInt32) (classNode : ClassNode)
    (entry : Precomputed) : Writer (List UInt8) := do
  let method := entry.method
  let nameIndex ← utf8Index method.name
  let descriptorIndex ← utf8Index method.descriptor
  let attributes ← Registry.lift (methodAttributes method)
  let bytes ← writeAttributeList ⟨analysis, some (method, classNode), options⟩ entry.stackMap
    entry.maxs attributes
  pure (writeU2 method.accessFlags ++ writeU2 nameIndex ++ writeU2 descriptorIndex ++
    writeU2 (asU16 attributes.length) ++ bytes)

/-- The bytes of the members of a list, one after another. -/
def writeEach {α : Type} (write : α → Writer (List UInt8)) : List α → Writer (List UInt8)
  | [] => pure []
  | member :: members => do
    let bytes ← write member
    let rest ← writeEach write members
    pure (bytes ++ rest)

/-- The second half of `to_bytes`, after the pool is written. -/
def writeMembers (analysis : FrameAnalysis) (options : UInt32) (classNode : ClassNode)
    (prepared : Prepared) : Writer (List UInt8) := do
  let fields ← writeEach (writeField analysis) classNode.fields
  let methods ← writeEach (writeMethod analysis options classNode) prepared.methods
  let attributes ← writeAttributeList ⟨analysis, none, options⟩ none none prepared.classAttributes
  pure (writeU2 classNode.accessFlags ++ writeU2 classNode.thisClass ++
    writeU2 prepared.superClass ++ writeTable writeU2 classNode.interfaceIndices ++
    writeU2 (asU16 classNode.fields.length) ++ fields ++
    writeU2 (asU16 prepared.methods.length) ++ methods ++
    writeU2 (asU16 prepared.classAttributes.length) ++ attributes)

/-- What a run of `to_bytes` comes to. The pool as it was written and the references are kept for the
statements about the run. -/
structure Written where
  bytes : List UInt8
  pool : Pool
  references : List Reference
deriving DecidableEq, Repr

def toBytes (analysis : FrameAnalysis) (options : UInt32) (classNode : ClassNode) : Write Written :=
  if classNode.constantPool.isEmpty then .error (.error .missingConstantPool)
  else do
    let before ← prepare analysis options classNode classNode.constantPool
    let after ← writeMembers analysis options classNode before.value before.table
    .ok
      { bytes := writeU4 0xCAFEBABE ++ writeU2 classNode.minorVersion ++
          writeU2 classNode.majorVersion ++ writeConstantPool before.table ++ after.value
        pool := before.table
        references := before.references ++ after.references }

end CaffeineLs.RustAsm
