/-
Module: CaffeineLs.RustAsm.PoolBuilder
Purpose: The constant pool builder with all the constants it is asked for.
Trusted boundary: the maps of the builder, one for each kind of constant, are one map here, in which
  a constant is its kind and its contents; floating-point constants are their bits
Main exports: PoolConstant, PoolBuilder, PoolBuilder.fromPool
-/
import CaffeineLs.RustAsm.ConstantPool
import CaffeineLs.RustAsm.Insn

namespace CaffeineLs.RustAsm

/-- The three kinds of reference to a member. -/
inductive RefKind where
  | field
  | method
  | interfaceMethod
deriving DecidableEq, Repr

def RefKind.entry : RefKind → UInt16 → UInt16 → CpInfo
  | .field => .fieldref
  | .method => .methodref
  | .interfaceMethod => .interfaceMethodref

/-- A constant by its contents: what is asked of the builder, and what its maps are keyed by. -/
inductive PoolConstant where
  | utf8 (value : String)
  | integer (value : Int32)
  | float (bits : UInt32)
  | long (value : Int64)
  | double (bits : UInt64)
  | named (kind : Named) (name : String)
  | string (value : String)
  | nameAndType (name descriptor : String)
  | ref (kind : RefKind) (owner name descriptor : String)
  | methodType (descriptor : String)
  | methodHandle (handle : Handle)
  | invokeDynamic (bsmIndex : UInt16) (name descriptor : String)
deriving DecidableEq, Repr

/-! ### Lookups by index -/

def cpNameAndType (cp : Pool) (index : UInt16) : Option (String × String) :=
  match cp[index.toNat]? with
  | some (.nameAndType nameIndex descriptorIndex) => do
      let name ← cpUtf8 cp nameIndex
      let desc ← cpUtf8 cp descriptorIndex
      some (name, desc)
  | _ => none

/-- The class and the name and type of a reference. -/
def cpRefParts (cp : Pool) (classIndex nameAndTypeIndex : UInt16) :
    Option (String × String × String) := do
  let owner ← cpClassName cp classIndex
  let (name, desc) ← cpNameAndType cp nameAndTypeIndex
  some (owner, name, desc)

/-- A member with a flag for interfaces, which a field reference leaves unset. -/
def cpMemberRef (cp : Pool) (index : UInt16) : Option (String × String × String × Bool) :=
  match cp[index.toNat]? with
  | some (.fieldref classIndex nameAndTypeIndex) => do
      let (owner, name, desc) ← cpRefParts cp classIndex nameAndTypeIndex
      some (owner, name, desc, false)
  | some (.methodref classIndex nameAndTypeIndex) => do
      let (owner, name, desc) ← cpRefParts cp classIndex nameAndTypeIndex
      some (owner, name, desc, false)
  | some (.interfaceMethodref classIndex nameAndTypeIndex) => do
      let (owner, name, desc) ← cpRefParts cp classIndex nameAndTypeIndex
      some (owner, name, desc, true)
  | _ => none

/-! ### The builder -/

/-- The pool and the constants known to be in it. The first index noted for a constant counts. -/
structure PoolBuilder where
  cp : Pool
  known : List (PoolConstant × UInt16)
deriving Repr

namespace PoolBuilder

/-- The key under which `from_pool` notes an entry, its slot as a `u16`. -/
def keyOf (cp : Pool) (index : UInt16) : CpInfo → Option PoolConstant
  | .utf8 value => some (.utf8 value)
  | .class_ nameIndex => (cpUtf8 cp nameIndex).map (.named .class_)
  | .module_ _ => (cpModuleName cp index).map (.named .module_)
  | .package _ => (cpPackageName cp index).map (.named .package)
  | .string stringIndex => (cpUtf8 cp stringIndex).map .string
  | .nameAndType nameIndex descriptorIndex => do
      let name ← cpUtf8 cp nameIndex
      let desc ← cpUtf8 cp descriptorIndex
      some (.nameAndType name desc)
  | .fieldref classIndex nameAndTypeIndex => do
      let (owner, name, desc) ← cpRefParts cp classIndex nameAndTypeIndex
      some (.ref .field owner name desc)
  | .methodref classIndex nameAndTypeIndex => do
      let (owner, name, desc) ← cpRefParts cp classIndex nameAndTypeIndex
      some (.ref .method owner name desc)
  | .interfaceMethodref classIndex nameAndTypeIndex => do
      let (owner, name, desc) ← cpRefParts cp classIndex nameAndTypeIndex
      some (.ref .interfaceMethod owner name desc)
  | .methodType descriptorIndex => (cpUtf8 cp descriptorIndex).map .methodType
  | .methodHandle referenceKind referenceIndex => do
      let (owner, name, desc, isInterface) ← cpMemberRef cp referenceIndex
      some (.methodHandle ⟨referenceKind, owner, name, desc, isInterface⟩)
  | .invokeDynamic bootstrapMethodAttrIndex nameAndTypeIndex => do
      let (name, desc) ← cpNameAndType cp nameAndTypeIndex
      some (.invokeDynamic bootstrapMethodAttrIndex name desc)
  | _ => none

/-- `entry(key).or_insert(index)` -/
def note (builder : PoolBuilder) (index : UInt16) : Option PoolConstant → PoolBuilder
  | some key => { builder with known := builder.known ++ [(key, index)] }
  | none => builder

def fromPool (pool : Pool) : PoolBuilder :=
  let cp := if pool.isEmpty then [.unusable] else pool
  cp.zipIdx.foldl (fun builder (entry, slot) => builder.note (asU16 slot) (keyOf cp (asU16 slot) entry))
    { cp := cp, known := [] }

def push (builder : PoolBuilder) (entry : CpInfo) : UInt16 × PoolBuilder :=
  (asU16 builder.cp.length, { builder with cp := builder.cp ++ [entry] })

/-- The index noted for a constant, or else that of a new entry, which `make` forms after the
entries it refers to. -/
def remember (key : PoolConstant) (make : PoolBuilder → CpInfo × PoolBuilder)
    (builder : PoolBuilder) : UInt16 × PoolBuilder :=
  match builder.known.lookup key with
  | some index => (index, builder)
  | none =>
    let (entry, builder) := make builder
    let (index, builder) := builder.push entry
    (index, builder.note index (some key))

def utf8 (value : String) : PoolBuilder → UInt16 × PoolBuilder :=
  remember (.utf8 value) fun builder => (.utf8 value, builder)

/-- An entry that refers to a string. -/
def ofUtf8 (key : PoolConstant) (entry : UInt16 → CpInfo) (value : String) :
    PoolBuilder → UInt16 × PoolBuilder :=
  remember key fun builder =>
    let (index, builder) := builder.utf8 value
    (entry index, builder)

/-- The builder's `class`, `module` and `package`. -/
def named (kind : Named) (name : String) : PoolBuilder → UInt16 × PoolBuilder :=
  ofUtf8 (.named kind name) kind.entry name

def string (value : String) : PoolBuilder → UInt16 × PoolBuilder :=
  ofUtf8 (.string value) .string value

def methodType (descriptor : String) : PoolBuilder → UInt16 × PoolBuilder :=
  ofUtf8 (.methodType descriptor) .methodType descriptor

def integer (value : Int32) (builder : PoolBuilder) : UInt16 × PoolBuilder :=
  builder.push (.integer value)

def float (bits : UInt32) (builder : PoolBuilder) : UInt16 × PoolBuilder :=
  builder.push (.float bits)

/-- The builder's `long` and `double`: the entry takes two slots. -/
def wide (entry : CpInfo) (builder : PoolBuilder) : UInt16 × PoolBuilder :=
  let (index, builder) := builder.push entry
  (index, { builder with cp := builder.cp ++ [.unusable] })

def nameAndType (name descriptor : String) : PoolBuilder → UInt16 × PoolBuilder :=
  remember (.nameAndType name descriptor) fun builder =>
    let (nameIndex, builder) := builder.utf8 name
    let (descriptorIndex, builder) := builder.utf8 descriptor
    (.nameAndType nameIndex descriptorIndex, builder)

/-- The builder's `field_ref`, `method_ref` and `interface_method_ref`. -/
def ref (kind : RefKind) (owner name descriptor : String) : PoolBuilder → UInt16 × PoolBuilder :=
  remember (.ref kind owner name descriptor) fun builder =>
    let (classIndex, builder) := builder.named .class_ owner
    let (nameAndTypeIndex, builder) := builder.nameAndType name descriptor
    (kind.entry classIndex nameAndTypeIndex, builder)

/-- The reference a new handle is made with. Whether the owner is an interface is not asked. -/
def handleRef (referenceKind : UInt8) : RefKind :=
  if 1 ≤ referenceKind ∧ referenceKind ≤ 4 then .field
  else if referenceKind = 9 then .interfaceMethod
  else .method

def methodHandle (handle : Handle) : PoolBuilder → UInt16 × PoolBuilder :=
  remember (.methodHandle handle) fun builder =>
    let (referenceIndex, builder) :=
      builder.ref (handleRef handle.referenceKind) handle.owner handle.name handle.descriptor
    (.methodHandle handle.referenceKind referenceIndex, builder)

def invokeDynamic (bsmIndex : UInt16) (name descriptor : String) :
    PoolBuilder → UInt16 × PoolBuilder :=
  remember (.invokeDynamic bsmIndex name descriptor) fun builder =>
    let (nameAndTypeIndex, builder) := builder.nameAndType name descriptor
    (.invokeDynamic bsmIndex nameAndTypeIndex, builder)

/-- The call for a constant. -/
def request : PoolConstant → PoolBuilder → UInt16 × PoolBuilder
  | .utf8 value => utf8 value
  | .integer value => integer value
  | .float bits => float bits
  | .long value => wide (.long value)
  | .double bits => wide (.double bits)
  | .named kind name => named kind name
  | .string value => string value
  | .nameAndType name descriptor => nameAndType name descriptor
  | .ref kind owner name descriptor => ref kind owner name descriptor
  | .methodType descriptor => methodType descriptor
  | .methodHandle handle => methodHandle handle
  | .invokeDynamic bsmIndex name descriptor => invokeDynamic bsmIndex name descriptor

/-- The calls one after another, with the indices they return. -/
def requests : List PoolConstant → PoolBuilder → List UInt16 × PoolBuilder
  | [], builder => ([], builder)
  | constant :: constants, builder =>
    let (index, builder) := builder.request constant
    let (indices, builder) := builder.requests constants
    (index :: indices, builder)

end PoolBuilder

end CaffeineLs.RustAsm
