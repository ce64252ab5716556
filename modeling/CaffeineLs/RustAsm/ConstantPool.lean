/-
Module: CaffeineLs.RustAsm.ConstantPool
Purpose: The constant pool of a class file, the lookups by index, the find-or-append functions of the
  class writer and the builder used for module attributes.
Trusted boundary: floating-point constants are their bits
Main exports: CpInfo, Pool, cpUtf8
-/

namespace CaffeineLs.RustAsm

/-- `value as u16` of a `usize`: the high bits are dropped. -/
def asU16 (n : Nat) : UInt16 := UInt16.ofNat n

/-- An entry of the constant pool. `unusable` is slot 0 and the second slot of a long or double. -/
inductive CpInfo where
  | unusable
  | utf8 (value : String)
  | integer (value : Int32)
  | float (bits : UInt32)
  | long (value : Int64)
  | double (bits : UInt64)
  | class_ (nameIndex : UInt16)
  | string (stringIndex : UInt16)
  | fieldref (classIndex nameAndTypeIndex : UInt16)
  | methodref (classIndex nameAndTypeIndex : UInt16)
  | interfaceMethodref (classIndex nameAndTypeIndex : UInt16)
  | nameAndType (nameIndex descriptorIndex : UInt16)
  | methodHandle (referenceKind : UInt8) (referenceIndex : UInt16)
  | methodType (descriptorIndex : UInt16)
  | dynamic (bootstrapMethodAttrIndex nameAndTypeIndex : UInt16)
  | invokeDynamic (bootstrapMethodAttrIndex nameAndTypeIndex : UInt16)
  | module_ (nameIndex : UInt16)
  | package (nameIndex : UInt16)
deriving DecidableEq, Repr

abbrev Pool := List CpInfo

/-- The three kinds of entry that hold nothing but the index of a name. -/
inductive Named where
  | class_
  | module_
  | package
deriving DecidableEq, Repr

def Named.entry : Named → UInt16 → CpInfo
  | .class_, nameIndex => .class_ nameIndex
  | .module_, nameIndex => .module_ nameIndex
  | .package, nameIndex => .package nameIndex

/-- The name index of an entry of the kind. -/
def Named.nameIndex : Named → CpInfo → Option UInt16
  | .class_, .class_ nameIndex => some nameIndex
  | .module_, .module_ nameIndex => some nameIndex
  | .package, .package nameIndex => some nameIndex
  | _, _ => none

/-- `cp_utf8_value_raw` -/
def cpUtf8 (cp : Pool) (index : UInt16) : Option String :=
  match cp[index.toNat]? with
  | some (.utf8 value) => some value
  | _ => none

/-- Does `entry` name `name`, its name index looked up in `cp`? -/
def Named.names (kind : Named) (cp : Pool) (name : String) (entry : CpInfo) : Bool :=
  match kind.nameIndex entry with
  | some nameIndex => cpUtf8 cp nameIndex == some name
  | none => false

/-- `cp_class_name_raw`, `cp_module_name_raw` and `cp_package_name_raw` -/
def cpNamed (kind : Named) (cp : Pool) (index : UInt16) : Option String := do
  let entry ← cp[index.toNat]?
  let nameIndex ← kind.nameIndex entry
  cpUtf8 cp nameIndex

def cpClassName : Pool → UInt16 → Option String := cpNamed .class_

def cpModuleName : Pool → UInt16 → Option String := cpNamed .module_

def cpPackageName : Pool → UInt16 → Option String := cpNamed .package

/-- `cp.push(entry); (cp.len() - 1) as u16` -/
def pushEntry (cp : Pool) (entry : CpInfo) : UInt16 × Pool :=
  (asU16 cp.length, cp ++ [entry])

/-- The first entry that is `wanted`, or else a new `entry` at the end. -/
def findOrPush (cp : Pool) (wanted : CpInfo → Bool) (entry : CpInfo) : UInt16 × Pool :=
  match cp.findIdx? wanted with
  | some index => (asU16 index, cp)
  | none => pushEntry cp entry

def ensureUtf8 (cp : Pool) (value : String) : UInt16 × Pool :=
  findOrPush cp (· == .utf8 value) (.utf8 value)

/-- `ensure_class`, `ensure_module` and `ensure_package` -/
def ensureNamed (kind : Named) (cp : Pool) (name : String) : UInt16 × Pool :=
  match cp.findIdx? (kind.names cp name) with
  | some index => (asU16 index, cp)
  | none =>
    let (nameIndex, cp) := ensureUtf8 cp name
    pushEntry cp (kind.entry nameIndex)

def ensureClass : Pool → String → UInt16 × Pool := ensureNamed .class_

def ensureModule : Pool → String → UInt16 × Pool := ensureNamed .module_

def ensurePackage : Pool → String → UInt16 × Pool := ensureNamed .package

/-- An entry found by its own contents: `ensure_int`, `ensure_float` and the end of the functions
for entries that refer to other entries. -/
def ensureEntry (cp : Pool) (entry : CpInfo) : UInt16 × Pool :=
  findOrPush cp (· == entry) entry

/-- `ensure_long` and `ensure_double`: a new entry takes two slots. -/
def ensureWide (cp : Pool) (entry : CpInfo) : UInt16 × Pool :=
  match cp.findIdx? (· == entry) with
  | some index => (asU16 index, cp)
  | none => (asU16 cp.length, cp ++ [entry, .unusable])

def ensureNameAndType (cp : Pool) (name descriptor : String) : UInt16 × Pool :=
  let (nameIndex, cp) := ensureUtf8 cp name
  let (descriptorIndex, cp) := ensureUtf8 cp descriptor
  ensureEntry cp (.nameAndType nameIndex descriptorIndex)

def ensureString (cp : Pool) (value : String) : UInt16 × Pool :=
  let (stringIndex, cp) := ensureUtf8 cp value
  ensureEntry cp (.string stringIndex)

def ensureMethodType (cp : Pool) (descriptor : String) : UInt16 × Pool :=
  let (descriptorIndex, cp) := ensureUtf8 cp descriptor
  ensureEntry cp (.methodType descriptorIndex)

/-- `ensure_field_ref`, `ensure_method_ref` and `ensure_interface_method_ref` -/
def ensureMemberRef (ref : UInt16 → UInt16 → CpInfo) (cp : Pool) (owner name descriptor : String) :
    UInt16 × Pool :=
  let (classIndex, cp) := ensureClass cp owner
  let (nameAndTypeIndex, cp) := ensureNameAndType cp name descriptor
  ensureEntry cp (ref classIndex nameAndTypeIndex)

def ensureFieldRef := ensureMemberRef .fieldref

def ensureMethodRef := ensureMemberRef .methodref

def ensureInterfaceMethodRef := ensureMemberRef .interfaceMethodref

def ensureInt (cp : Pool) (value : Int32) : UInt16 × Pool := ensureEntry cp (.integer value)

/-- Floats are compared by their bits. -/
def ensureFloat (cp : Pool) (bits : UInt32) : UInt16 × Pool := ensureEntry cp (.float bits)

def ensureLong (cp : Pool) (value : Int64) : UInt16 × Pool := ensureWide cp (.long value)

def ensureDouble (cp : Pool) (bits : UInt64) : UInt16 × Pool := ensureWide cp (.double bits)

def ensureInvokeDynamic (cp : Pool) (bootstrapMethodAttrIndex : UInt16) (name descriptor : String) :
    UInt16 × Pool :=
  let (nameAndTypeIndex, cp) := ensureNameAndType cp name descriptor
  ensureEntry cp (.invokeDynamic bootstrapMethodAttrIndex nameAndTypeIndex)

/-- A map of the builder, by name. The first entry made for a name is kept. -/
abbrev IndexMap := List (String × UInt16)

/-- `entry(name).or_insert(index)`: the earlier entry is the one `lookup` finds. -/
def IndexMap.orInsert (map : IndexMap) (name : Option String) (index : UInt16) : IndexMap :=
  match name with
  | some name => map ++ [(name, index)]
  | none => map

/-- The builder, with the maps that module attributes are built from. -/
structure ConstantPoolBuilder where
  cp : Pool
  utf8 : IndexMap
  class_ : IndexMap
  module_ : IndexMap
  package : IndexMap
deriving Repr

namespace ConstantPoolBuilder

/-- One entry of the pool put into the maps. A class is looked up by its own name index, a module or
package by its slot as a `u16`. -/
def index (cp : Pool) (builder : ConstantPoolBuilder) (slot : Nat) : CpInfo → ConstantPoolBuilder
  | .utf8 value => { builder with utf8 := builder.utf8.orInsert (some value) (asU16 slot) }
  | .class_ nameIndex =>
      { builder with class_ := builder.class_.orInsert (cpUtf8 cp nameIndex) (asU16 slot) }
  | .module_ _ =>
      { builder with module_ := builder.module_.orInsert (cpModuleName cp (asU16 slot)) (asU16 slot) }
  | .package _ =>
      { builder with
        package := builder.package.orInsert (cpPackageName cp (asU16 slot)) (asU16 slot) }
  | _ => builder

def fromPool (pool : Pool) : ConstantPoolBuilder :=
  let cp := if pool.isEmpty then [.unusable] else pool
  cp.zipIdx.foldl (fun builder (entry, slot) => index cp builder slot entry)
    { cp := cp, utf8 := [], class_ := [], module_ := [], package := [] }

def push (builder : ConstantPoolBuilder) (entry : CpInfo) : UInt16 × ConstantPoolBuilder :=
  (asU16 builder.cp.length, { builder with cp := builder.cp ++ [entry] })

/-- The builder's `utf8`. -/
def ensure (builder : ConstantPoolBuilder) (value : String) : UInt16 × ConstantPoolBuilder :=
  match builder.utf8.lookup value with
  | some index => (index, builder)
  | none =>
    let (index, builder) := builder.push (.utf8 value)
    (index, { builder with utf8 := builder.utf8.orInsert (some value) index })

def mapOf (builder : ConstantPoolBuilder) : Named → IndexMap
  | .class_ => builder.class_
  | .module_ => builder.module_
  | .package => builder.package

def setMapOf (builder : ConstantPoolBuilder) (map : IndexMap) : Named → ConstantPoolBuilder
  | .class_ => { builder with class_ := map }
  | .module_ => { builder with module_ := map }
  | .package => { builder with package := map }

/-- The builder's `class`, `module` and `package`. -/
def named (kind : Named) (builder : ConstantPoolBuilder) (name : String) :
    UInt16 × ConstantPoolBuilder :=
  match (builder.mapOf kind).lookup name with
  | some index => (index, builder)
  | none =>
    let (nameIndex, builder) := builder.ensure name
    let (index, builder) := builder.push (kind.entry nameIndex)
    (index, builder.setMapOf ((builder.mapOf kind).orInsert (some name) index) kind)

end ConstantPoolBuilder

end CaffeineLs.RustAsm
