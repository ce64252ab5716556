/-
Module: CaffeineLs.RustAsm.Insn
Purpose: The instructions of a method body and the bytes the class writer emits for them.
Trusted boundary: labels, line markers and other tree-style nodes are left out
Main exports: Insn, Handle, BootstrapArgument
-/
import CaffeineLs.Lib.Wire

namespace CaffeineLs.RustAsm

open Wire

def writeU1 (value : UInt8) : List UInt8 := [value]

def writeU2 (value : UInt16) : List UInt8 := bigEndian 2 value.toNat

def writeU4 (value : UInt32) : List UInt8 := bigEndian 4 value.toNat

def writeU8 (value : UInt64) : List UInt8 := bigEndian 8 value.toNat

def writeI1 (value : Int8) : List UInt8 := [value.toUInt8]

def writeI2 (value : Int16) : List UInt8 := writeU2 value.toUInt16

def writeI4 (value : Int32) : List UInt8 := writeU4 value.toUInt32

inductive ClassWriteError where
  | missingConstantPool
  | invalidConstantPool
  | invalidOpcode (opcode : UInt8) (offset : Nat)
  | frameComputation (message : String)
deriving DecidableEq, Repr

/-- How writing ends early: with an error, or with a panic at an `u8` sum that overflows. -/
inductive WriteFault where
  | error (error : ClassWriteError)
  | overflow
deriving DecidableEq, Repr

abbrev Write := Except WriteFault

namespace opcodes

def BIPUSH : UInt8 := 0x10
def SIPUSH : UInt8 := 0x11
def LDC : UInt8 := 0x12
def LDC_W : UInt8 := 0x13
def LDC2_W : UInt8 := 0x14
def NEWARRAY : UInt8 := 0xBC
def GOTO_W : UInt8 := 0xC8
def JSR_W : UInt8 := 0xC9

end opcodes

structure InsnNode where
  opcode : UInt8
deriving DecidableEq, Repr

structure IntInsnNode where
  insn : InsnNode
  operand : Int32
deriving DecidableEq, Repr

structure VarInsnNode where
  insn : InsnNode
  varIndex : UInt16
deriving DecidableEq, Repr

structure TypeInsnNode where
  insn : InsnNode
  typeIndex : UInt16
deriving DecidableEq, Repr

/-- A member as its pool index, or by name before it is resolved. -/
inductive MemberRef where
  | index (index : UInt16)
  | symbolic (owner name descriptor : String)
deriving DecidableEq, Repr

structure FieldInsnNode where
  insn : InsnNode
  fieldRef : MemberRef
deriving DecidableEq, Repr

structure MethodInsnNode where
  insn : InsnNode
  methodRef : MemberRef
deriving DecidableEq, Repr

structure InvokeInterfaceInsnNode where
  insn : InsnNode
  methodIndex : UInt16
  count : UInt8
deriving DecidableEq, Repr

structure Handle where
  referenceKind : UInt8
  owner : String
  name : String
  descriptor : String
  isInterface : Bool
deriving DecidableEq, Repr

inductive BootstrapArgument where
  | integer (value : Int32)
  | float (bits : UInt32)
  | long (value : Int64)
  | double (bits : UInt64)
  | string (value : String)
  | class_ (name : String)
  | methodType (descriptor : String)
  | handle (handle : Handle)
deriving DecidableEq, Repr

structure InvokeDynamicInsnNode where
  insn : InsnNode
  methodIndex : UInt16
  name : Option String
  descriptor : Option String
  bootstrapMethod : Option Handle
  bootstrapArgs : List BootstrapArgument
deriving DecidableEq, Repr

structure JumpInsnNode where
  insn : InsnNode
  offset : Int32
deriving DecidableEq, Repr

/-- A constant as its pool index, or by value before it is resolved. -/
inductive LdcValue where
  | index (index : UInt16)
  | string (value : String)
  | type (descriptor : String)
  | int (value : Int32)
  | float (bits : UInt32)
  | long (value : Int64)
  | double (bits : UInt64)
deriving DecidableEq, Repr

structure LdcInsnNode where
  insn : InsnNode
  value : LdcValue
deriving DecidableEq, Repr

structure IincInsnNode where
  insn : InsnNode
  varIndex : UInt16
  increment : Int16
deriving DecidableEq, Repr

structure TableSwitchInsnNode where
  insn : InsnNode
  defaultOffset : Int32
  low : Int32
  high : Int32
  offsets : List Int32
deriving DecidableEq, Repr

structure LookupSwitchInsnNode where
  insn : InsnNode
  defaultOffset : Int32
  pairs : List (Int32 × Int32)
deriving DecidableEq, Repr

structure MultiANewArrayInsnNode where
  insn : InsnNode
  typeIndex : UInt16
  dimensions : UInt8
deriving DecidableEq, Repr

inductive Insn where
  | simple (node : InsnNode)
  | int (node : IntInsnNode)
  | var (node : VarInsnNode)
  | type (node : TypeInsnNode)
  | field (node : FieldInsnNode)
  | method (node : MethodInsnNode)
  | invokeInterface (node : InvokeInterfaceInsnNode)
  | invokeDynamic (node : InvokeDynamicInsnNode)
  | jump (node : JumpInsnNode)
  | ldc (node : LdcInsnNode)
  | iinc (node : IincInsnNode)
  | tableSwitch (node : TableSwitchInsnNode)
  | lookupSwitch (node : LookupSwitchInsnNode)
  | multiANewArray (node : MultiANewArrayInsnNode)
deriving DecidableEq, Repr

/-- The zero bytes up to the next multiple of four after the opcode at `opcodeOffset`. -/
def writeSwitchPadding (opcodeOffset : Nat) : List UInt8 :=
  List.replicate ((4 - (opcodeOffset + 1) % 4) % 4) 0

open opcodes in
/-- The bytes of an instruction at `offset`, and the instruction as it then stands. -/
def emitInsnRaw (offset : Nat) : Insn → Write (List UInt8 × Insn)
  | .simple node => .ok ([node.opcode], .simple node)
  | .int node =>
      let operand :=
        if node.insn.opcode = BIPUSH then writeI1 node.operand.toInt8
        else if node.insn.opcode = SIPUSH then writeI2 node.operand.toInt16
        else if node.insn.opcode = NEWARRAY then writeU1 node.operand.toInt8.toUInt8
        else writeI1 node.operand.toInt8
      .ok (node.insn.opcode :: operand, .int node)
  | .var node =>
      -- the index of a `wide` form loses its high byte
      .ok (node.insn.opcode :: writeU1 node.varIndex.toUInt8, .var node)
  | .type node => .ok (node.insn.opcode :: writeU2 node.typeIndex, .type node)
  | .field node =>
      match node.fieldRef with
      | .index index => .ok (node.insn.opcode :: writeU2 index, .field node)
      | .symbolic _ _ _ =>
          .error (.error (.frameComputation "symbolic field ref in method instructions"))
  | .method node =>
      match node.methodRef with
      | .index index => .ok (node.insn.opcode :: writeU2 index, .method node)
      | .symbolic _ _ _ =>
          .error (.error (.frameComputation "symbolic method ref in method instructions"))
  | .invokeInterface node =>
      .ok (node.insn.opcode :: writeU2 node.methodIndex ++ writeU1 node.count ++ writeU1 0,
        .invokeInterface node)
  | .invokeDynamic node =>
      .ok (node.insn.opcode :: writeU2 node.methodIndex ++ writeU2 0, .invokeDynamic node)
  | .jump node =>
      let offset :=
        if node.insn.opcode = GOTO_W ∨ node.insn.opcode = JSR_W then writeI4 node.offset
        else writeI2 node.offset.toInt16
      .ok (node.insn.opcode :: offset, .jump node)
  | .ldc node =>
      match node.value with
      | .index index =>
          let opcode :=
            if node.insn.opcode = LDC ∨ node.insn.opcode = LDC_W ∨ node.insn.opcode = LDC2_W then
              node.insn.opcode
            else if index ≤ 0xFF then LDC
            else LDC_W
          let operand := if opcode = LDC then writeU1 index.toUInt8 else writeU2 index
          .ok (opcode :: operand, .ldc { insn := ⟨opcode⟩, value := .index index })
      | _ => .error (.error (.frameComputation "non-index ldc in method instructions"))
  | .iinc node =>
      .ok (node.insn.opcode :: writeU1 node.varIndex.toUInt8 ++ writeI1 node.increment.toInt8,
        .iinc node)
  | .tableSwitch node =>
      .ok (node.insn.opcode :: writeSwitchPadding offset ++ writeI4 node.defaultOffset ++
          writeI4 node.low ++ writeI4 node.high ++ node.offsets.flatMap writeI4,
        .tableSwitch node)
  | .lookupSwitch node =>
      .ok (node.insn.opcode :: writeSwitchPadding offset ++ writeI4 node.defaultOffset ++
          writeU4 (UInt32.ofNat node.pairs.length) ++
          node.pairs.flatMap fun (key, value) => writeI4 key ++ writeI4 value,
        .lookupSwitch node)
  | .multiANewArray node =>
      .ok (node.insn.opcode :: writeU2 node.typeIndex ++ writeU1 node.dimensions,
        .multiANewArray node)

/-- The loop of `build_code_from_insn_list`, with the code and instructions emitted so far. -/
def emitInsns (code : List UInt8) (instructions : List Insn) :
    List Insn → Write (List UInt8 × List Insn)
  | [] => .ok (code, instructions)
  | insn :: insns => do
      let (bytes, emitted) ← emitInsnRaw code.length insn
      emitInsns (code ++ bytes) (instructions ++ [emitted]) insns

def buildCodeFromInsnList (insns : List Insn) : Write (List UInt8 × List Insn) :=
  emitInsns [] [] insns

end CaffeineLs.RustAsm
