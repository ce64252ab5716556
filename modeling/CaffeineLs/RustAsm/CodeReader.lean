/-
Module: CaffeineLs.RustAsm.CodeReader
Purpose: The parts of the class reader below attributes: numbers, tables, the constant pool and the
  instructions of a method body.
Trusted boundary: labels of instruction nodes are left out, with the arithmetic of their offsets kept;
  a `usize` has 64 bits
Main exports: ClassReadError, Place, Reader
-/
import CaffeineLs.RustAsm.ClassNode
import CaffeineLs.Lib.ByteReader
import Mathlib.Algebra.Ring.Int.Defs

namespace CaffeineLs.RustAsm

open Wire ByteReader

inductive ClassReadError where
  | unexpectedEof
  | invalidMagic (magic : UInt32)
  | invalidClassVersion (version : UInt16)
  | invalidConstantPoolTag (tag : UInt8)
  | invalidIndex (index : UInt16)
  | invalidAttribute (name : String)
  | invalidOpcode (opcode : UInt8) (offset : Nat)
  | utf8Error (message : String)
deriving DecidableEq, Repr

/-- What the reader comes past where it computes with `i32`: the bounds of a table switch, the number
of pairs of a lookup switch, the offset of an instruction and the jump from it. -/
inductive Place where
  | span (low high : Int32)
  | pairs (npairs : Int32)
  | target (offset : UInt16) (delta : Int32)
deriving DecidableEq, Repr

abbrev Reader := ByteReader ClassReadError Place

/-! ### Numbers -/

def readBytes (len : Nat) : Reader (List UInt8) := bytes .unexpectedEof len

def readU1 : Reader UInt8 := do
  let bs ← readBytes 1
  pure (UInt8.ofNat (ofBigEndian bs))

def readU2 : Reader UInt16 := do
  let bs ← readBytes 2
  pure (UInt16.ofNat (ofBigEndian bs))

def readU4 : Reader UInt32 := do
  let bs ← readBytes 4
  pure (UInt32.ofNat (ofBigEndian bs))

def readU8 : Reader UInt64 := do
  let bs ← readBytes 8
  pure (UInt64.ofNat (ofBigEndian bs))

def readI1 : Reader Int8 := do
  let value ← readU1
  pure value.toInt8

def readI2 : Reader Int16 := do
  let value ← readU2
  pure value.toInt16

def readI4 : Reader Int32 := do
  let value ← readU4
  pure value.toInt32

/-- The padding before the operands of a switch. -/
def align4 (opcodeOffset : Nat) : Reader Unit := do
  let _ ← rows readU1 ((4 - (opcodeOffset + 1) % 4) % 4)
  pure ()

/-- A table behind its length as a `u16`. -/
def readTable {α : Type} (row : Reader α) : Reader (List α) := do
  let count ← readU2
  table count.toNat row

/-- A table behind its length as a `u8`. -/
def readShortTable {α : Type} (row : Reader α) : Reader (List α) := do
  let count ← readU1
  table count.toNat row

/-! ### The constant pool -/

def isContinuation (byte : UInt8) : Bool := 0x80 ≤ byte && byte < 0xC0

/-- The loop of `decode_modified_utf8`: the UTF-16 code units of the bytes. -/
def decodeUnits : List UInt8 → Except ClassReadError (List Nat)
  | [] => .ok []
  | byte :: rest =>
    if byte < 0x80 then do
      let units ← decodeUnits rest
      .ok (byte.toNat :: units)
    else if 0xC0 ≤ byte ∧ byte < 0xE0 then
      match rest with
      | [] => .error (.utf8Error "truncated 2-byte")
      | byte2 :: rest =>
        if ! isContinuation byte2 then .error (.utf8Error "invalid 2-byte")
        else do
          let units ← decodeUnits rest
          .ok ((byte.toNat % 32 * 64 + byte2.toNat % 64) :: units)
    else if 0xE0 ≤ byte ∧ byte < 0xF0 then
      match rest with
      | byte2 :: byte3 :: rest =>
        if ! isContinuation byte2 || ! isContinuation byte3 then
          .error (.utf8Error "invalid 3-byte")
        else do
          let units ← decodeUnits rest
          .ok ((byte.toNat % 16 * 4096 + byte2.toNat % 64 * 64 + byte3.toNat % 64) :: units)
      | _ => .error (.utf8Error "truncated 3-byte")
    else .error (.utf8Error "invalid leading byte")

/-- `String::from_utf16`: surrogates must come in pairs. -/
def fromUtf16 : List Nat → Option (List Char)
  | [] => some []
  | unit :: rest =>
    if unit < 0xD800 ∨ 0xE000 ≤ unit then
      (fromUtf16 rest).map (Char.ofNat unit :: ·)
    else if 0xDC00 ≤ unit then none
    else
      match rest with
      | [] => none
      | low :: rest =>
        if 0xDC00 ≤ low ∧ low < 0xE000 then
          (fromUtf16 rest).map
            (Char.ofNat (0x10000 + (unit - 0xD800) * 1024 + (low - 0xDC00)) :: ·)
        else none

def decodeModifiedUtf8 (bytes : List UInt8) : Except ClassReadError String := do
  let units ← decodeUnits bytes
  match fromUtf16 units with
  | some chars => .ok (String.ofList chars)
  | none => .error (.utf8Error "invalid utf16")

/-- An entry behind its tag. -/
def readCpInfo (tag : UInt8) : Reader CpInfo :=
  match tag.toNat with
  | 1 => do
    let len ← readU2
    let bs ← readBytes len.toNat
    let value ← ofExcept (decodeModifiedUtf8 bs)
    pure (.utf8 value)
  | 3 => do
    let value ← readU4
    pure (.integer value.toInt32)
  | 4 => do
    let bits ← readU4
    pure (.float bits)
  | 5 => do
    let value ← readU8
    pure (.long value.toInt64)
  | 6 => do
    let bits ← readU8
    pure (.double bits)
  | 7 => do
    let nameIndex ← readU2
    pure (.class_ nameIndex)
  | 8 => do
    let stringIndex ← readU2
    pure (.string stringIndex)
  | 9 => do
    let classIndex ← readU2
    let nameAndTypeIndex ← readU2
    pure (.fieldref classIndex nameAndTypeIndex)
  | 10 => do
    let classIndex ← readU2
    let nameAndTypeIndex ← readU2
    pure (.methodref classIndex nameAndTypeIndex)
  | 11 => do
    let classIndex ← readU2
    let nameAndTypeIndex ← readU2
    pure (.interfaceMethodref classIndex nameAndTypeIndex)
  | 12 => do
    let nameIndex ← readU2
    let descriptorIndex ← readU2
    pure (.nameAndType nameIndex descriptorIndex)
  | 15 => do
    let referenceKind ← readU1
    let referenceIndex ← readU2
    pure (.methodHandle referenceKind referenceIndex)
  | 16 => do
    let descriptorIndex ← readU2
    pure (.methodType descriptorIndex)
  | 17 => do
    let bootstrapMethodAttrIndex ← readU2
    let nameAndTypeIndex ← readU2
    pure (.dynamic bootstrapMethodAttrIndex nameAndTypeIndex)
  | 18 => do
    let bootstrapMethodAttrIndex ← readU2
    let nameAndTypeIndex ← readU2
    pure (.invokeDynamic bootstrapMethodAttrIndex nameAndTypeIndex)
  | 19 => do
    let nameIndex ← readU2
    pure (.module_ nameIndex)
  | 20 => do
    let nameIndex ← readU2
    pure (.package nameIndex)
  | _ => fail (.invalidConstantPoolTag tag)

/-- The loop over the entries with `left` slots to fill: a long or double takes two, the second of
which may lie past the count. -/
def readEntries : Nat → Reader Pool
  | 0 => pure []
  | left + 1 => do
    let tag ← readU1
    let entry ← readCpInfo tag
    if tag = 5 ∨ tag = 6 then do
      let entries ← readEntries (left - 1)
      pure (entry :: .unusable :: entries)
    else do
      let entries ← readEntries left
      pure (entry :: entries)

/-- The entries of a pool of `count` slots, slot 0 included. -/
def readPool (count : Nat) : Reader Pool := do
  let entries ← readEntries (count - 1)
  pure (.unusable :: entries)

/-- `cp_utf8` -/
def cpUtf8At (cp : Pool) (index : UInt16) : Except ClassReadError String :=
  match cpUtf8 cp index with
  | some value => .ok value
  | none => .error (.invalidIndex index)

/-- The reader's `class_name`, `module_name` and `package_name`: an entry of the wrong kind and a name
that is none are reported at their own index. -/
def cpNamedAt (kind : Named) (cp : Pool) (index : UInt16) : Except ClassReadError String :=
  match cp[index.toNat]?.bind kind.nameIndex with
  | some nameIndex => cpUtf8At cp nameIndex
  | none => .error (.invalidIndex index)

def className : Pool → UInt16 → Except ClassReadError String := cpNamedAt .class_

def moduleName : Pool → UInt16 → Except ClassReadError String := cpNamedAt .module_

def packageName : Pool → UInt16 → Except ClassReadError String := cpNamedAt .package

/-! ### Instructions -/

/-- What follows an opcode. -/
inductive OperandKind where
  | simple
  | byte
  | short
  | ldc
  | ldcWide
  | var
  | iinc
  | jump
  | tableSwitch
  | lookupSwitch
  | field
  | method
  | invokeInterface
  | invokeDynamic
  | type
  | newarray
  | wide
  | multiANewArray
  | jumpWide
  | invalid
deriving DecidableEq, Repr

/-- The arms of the match on the opcode, in order. -/
def operandKind (opcode : UInt8) : OperandKind :=
  if opcode ≤ 0x0F then .simple
  else if opcode = 0x10 then .byte
  else if opcode = 0x11 then .short
  else if opcode = 0x12 then .ldc
  else if opcode ≤ 0x14 then .ldcWide
  else if opcode ≤ 0x19 then .var
  else if opcode ≤ 0x35 then .simple
  else if opcode ≤ 0x3A then .var
  else if opcode ≤ 0x83 then .simple
  else if opcode = 0x84 then .iinc
  else if opcode ≤ 0x98 then .simple
  else if opcode ≤ 0xA8 then .jump
  else if opcode = 0xA9 then .var
  else if opcode = 0xAA then .tableSwitch
  else if opcode = 0xAB then .lookupSwitch
  else if opcode ≤ 0xB1 then .simple
  else if opcode ≤ 0xB5 then .field
  else if opcode ≤ 0xB8 then .method
  else if opcode = 0xB9 then .invokeInterface
  else if opcode = 0xBA then .invokeDynamic
  else if opcode = 0xBB then .type
  else if opcode = 0xBC then .newarray
  else if opcode = 0xBD then .type
  else if opcode ≤ 0xBF then .simple
  else if opcode ≤ 0xC1 then .type
  else if opcode ≤ 0xC3 then .simple
  else if opcode = 0xC4 then .wide
  else if opcode = 0xC5 then .multiANewArray
  else if opcode ≤ 0xC7 then .jump
  else if opcode ≤ 0xC9 then .jumpWide
  else if opcode = 0xCA then .simple
  else if 0xFE ≤ opcode then .simple
  else .invalid

/-- `high - low + 1` as an `i32`, no rows where `high < low`. -/
def switchCount (low high : Int32) : Reader Nat := do
  pass (.span low high)
  if high < low then pure 0
  else if high.toInt - low.toInt + 1 < 2 ^ 31 then pure (high.toInt - low.toInt + 1).toNat
  else stop .panic

def readTableSwitch (opcodeOffset : Nat) : Reader Insn := do
  align4 opcodeOffset
  let defaultOffset ← readI4
  let low ← readI4
  let high ← readI4
  let count ← switchCount low high
  let offsets ← table count readI4
  pure (.tableSwitch
    { insn := ⟨0xAA⟩, defaultOffset := defaultOffset, low := low, high := high, offsets := offsets })

/-- `npairs as usize`: a negative number is a capacity that cannot be had. -/
def pairCount (npairs : Int32) : Reader Nat := do
  pass (.pairs npairs)
  if npairs < 0 then stop .panic else pure npairs.toInt.toNat

def readPair : Reader (Int32 × Int32) := do
  let key ← readI4
  let offset ← readI4
  pure (key, offset)

def readLookupSwitch (opcodeOffset : Nat) : Reader Insn := do
  align4 opcodeOffset
  let defaultOffset ← readI4
  let npairs ← readI4
  let count ← pairCount npairs
  let pairs ← table count readPair
  pure (.lookupSwitch { insn := ⟨0xAB⟩, defaultOffset := defaultOffset, pairs := pairs })

/-- The widened instruction stands for itself; the `wide` before it leaves no trace. -/
def readWide : Reader Insn := do
  let input ← position
  let opcode ← readU1
  match operandKind opcode with
  | .var => do
    let varIndex ← readU2
    pure (.var { insn := ⟨opcode⟩, varIndex := varIndex })
  | .iinc => do
    let varIndex ← readU2
    let increment ← readI2
    pure (.iinc { insn := ⟨opcode⟩, varIndex := varIndex, increment := increment })
  | _ => fail (.invalidOpcode opcode input.pos)

def readOperands (opcodeOffset : Nat) (opcode : UInt8) : Reader Insn :=
  match operandKind opcode with
  | .simple => pure (.simple ⟨opcode⟩)
  | .byte => do
    let operand ← readI1
    pure (.int { insn := ⟨opcode⟩, operand := operand.toInt32 })
  | .short => do
    let operand ← readI2
    pure (.int { insn := ⟨opcode⟩, operand := operand.toInt32 })
  | .ldc => do
    let index ← readU1
    pure (.ldc { insn := ⟨opcode⟩, value := .index index.toUInt16 })
  | .ldcWide => do
    let index ← readU2
    pure (.ldc { insn := ⟨opcode⟩, value := .index index })
  | .var => do
    let varIndex ← readU1
    pure (.var { insn := ⟨opcode⟩, varIndex := varIndex.toUInt16 })
  | .iinc => do
    let varIndex ← readU1
    let increment ← readI1
    pure (.iinc
      { insn := ⟨opcode⟩, varIndex := varIndex.toUInt16, increment := increment.toInt16 })
  | .jump => do
    let offset ← readI2
    pure (.jump { insn := ⟨opcode⟩, offset := offset.toInt32 })
  | .tableSwitch => readTableSwitch opcodeOffset
  | .lookupSwitch => readLookupSwitch opcodeOffset
  | .field => do
    let index ← readU2
    pure (.field { insn := ⟨opcode⟩, fieldRef := .index index })
  | .method => do
    let index ← readU2
    pure (.method { insn := ⟨opcode⟩, methodRef := .index index })
  | .invokeInterface => do
    let methodIndex ← readU2
    let count ← readU1
    let _ ← readU1
    pure (.invokeInterface { insn := ⟨opcode⟩, methodIndex := methodIndex, count := count })
  | .invokeDynamic => do
    let methodIndex ← readU2
    let _ ← readU2
    pure (.invokeDynamic
      { insn := ⟨0xBA⟩
        methodIndex := methodIndex
        name := none
        descriptor := none
        bootstrapMethod := none
        bootstrapArgs := [] })
  | .type => do
    let typeIndex ← readU2
    pure (.type { insn := ⟨opcode⟩, typeIndex := typeIndex })
  | .newarray => do
    let operand ← readU1
    pure (.int { insn := ⟨opcode⟩, operand := operand.toUInt32.toInt32 })
  | .wide => readWide
  | .multiANewArray => do
    let typeIndex ← readU2
    let dimensions ← readU1
    pure (.multiANewArray { insn := ⟨opcode⟩, typeIndex := typeIndex, dimensions := dimensions })
  | .jumpWide => do
    let offset ← readI4
    pure (.jump { insn := ⟨opcode⟩, offset := offset })
  | .invalid => fail (.invalidOpcode opcode opcodeOffset)

/-- One instruction, with its offset as a `u16`. -/
def readInsn : Reader (UInt16 × Insn) := do
  let input ← position
  let opcode ← readU1
  let insn ← readOperands input.pos opcode
  pure (UInt16.ofNat input.pos, insn)

def parseCodeInstructionsWithOffsets (code : List UInt8) : Reader (List (UInt16 × Insn)) := do
  let (insns, _) ← within code (untilEnd readInsn (code.length + 1))
  pure insns

def parseCodeInstructions (code : List UInt8) : Reader (List Insn) := do
  let insns ← parseCodeInstructionsWithOffsets code
  pure (insns.map Prod.snd)

/-- The jumps of an instruction, for which labels are made. -/
def jumpsOf : Insn → List Int32
  | .jump node => [node.offset]
  | .tableSwitch node => node.defaultOffset :: node.offsets
  | .lookupSwitch node => node.defaultOffset :: node.pairs.map Prod.snd
  | _ => []

/-- `instruction.offset as i32 + delta` -/
def jumpTarget (offset : UInt16) (delta : Int32) : Reader Unit := do
  pass (.target offset delta)
  if offset.toNat + delta.toInt < 2 ^ 31 then pure () else stop .panic

def forEach {α : Type} (f : α → Reader Unit) : List α → Reader Unit
  | [] => pure ()
  | value :: values => do
    f value
    forEach f values

/-- The part of `build_insn_nodes` that may fail: the targets of all jumps, for which labels are made,
and the classes of the handlers. Every offset of the exception table has a label. -/
def buildInsnNodes (code : List UInt8) (exceptionTable : List ExceptionTableEntry) (cp : Pool) :
    Reader Unit := do
  let instructions ← parseCodeInstructionsWithOffsets code
  forEach (fun (offset, insn) => forEach (jumpTarget offset) (jumpsOf insn)) instructions
  forEach (fun entry => do
    if entry.catchType = 0 then pure ()
    else do
      let _ ← ofExcept (className cp entry.catchType)
      pure ()) exceptionTable

end CaffeineLs.RustAsm
